import Mybox.AliasRuns
import Mybox.SshLog
import Mathlib.Data.Nat.Bits

/-! The IP calculator: `_IPCALC::IP` works out the network, the broadcast address and the host range of an
address and a netmask, or a prefix, on strings of bits. -/
namespace Mybox
namespace Ipcalc

open Php Registry Interfaces References

abbrev Bits := List Bool

def strPad (b : Bits) (n : ℕ) (c : Bool) : Bits := b ++ List.replicate (n - b.length) c

/-- `rtrim($_binin,"0")` and `rtrim($_binin,"1")`. -/
def rtrim (b : Bits) (c : Bool) : Bits := b.rdropWhile (· = c)

def gapped : Bits := (List.replicate 20 [true,false]).flatten

def binnmtowm (b : Bits) : Bits :=
  if (rtrim b false).all id then strPad ((rtrim b false).map not) 32 true else gapped

def binwmtonm (b : Bits) : Bits :=
  if (rtrim b true).all not then strPad ((rtrim b true).map not) 32 false else gapped

def bintocdr (b : Bits) : ℕ := (rtrim b false).length

def bindec (b : Bits) : ℕ := b.foldl (fun n c => 2*n + c.toNat) 0

def bintodq (b : Bits) : Str :=
  if b.isEmpty then []
  else List.intercalate ['.'] ((List.range 4).map fun i => decimal (bindec ((b.drop (8*i)).take 8)))

def cdrtobin (n : ℕ) : Bits := strPad (List.replicate n true) 32 false

/-- `decbin`, filled up to eight bits. -/
def octetBits (n : ℕ) : Bits := List.replicate (8 - n.bits.length) false ++ n.bits.reverse

def dqtobin (s : Str) : Bits :=
  (List.range 4).flatMap fun i => octetBits (digitsVal 10 ((split '.' s).getD i []))

/-- `/^[0-9]{1,2}$/` -/
def isPrefix (m : Str) : Bool := m.all digit && (m.length = 1 || m.length = 2)

/-- `/^[0-9]{1,3}\.[0-9]{1,3}\.[0-9]{1,3}\.[0-9]{1,3}$/` -/
def isDotted (m : Str) : Bool :=
  (split '.' m).length = 4 && (split '.' m).all fun w => w.all digit && 1 ≤ w.length && w.length ≤ 3

structure Mask where
  nmask : Bits
  wmask : Bits
  cdr : ℕ
  pref : Str

/-- The mask as a prefix, as a netmask or as a wildcard. -/
def readMask (m : Str) : Option Mask :=
  if isPrefix m then
    if digitsVal 10 m ≤ 32 then
      some ⟨cdrtobin (digitsVal 10 m),binnmtowm (cdrtobin (digitsVal 10 m)),digitsVal 10 m,m⟩
    else none
  else if isDotted m then
    if (rtrim (dqtobin m) false).all id then
      some ⟨dqtobin m,binnmtowm (dqtobin m),bintocdr (dqtobin m),decimal (bintocdr (dqtobin m))⟩
    else if (rtrim (binwmtonm (dqtobin m)) false).all id then
      some ⟨binwmtonm (dqtobin m),dqtobin m,bintocdr (binwmtonm (dqtobin m)),
        decimal (bintocdr (binwmtonm (dqtobin m)))⟩
    else none
  else none

/-- Only the first of the three alternatives is anchored. -/
def isPrivate (net : Bits) : Bool :=
  [false,false,false,false,true,false,true,false].isPrefixOf net ||
  net.tails.any (List.isPrefixOf [true,false,true,false,true,true,false,false,false,false,false,true]) ||
  net.tails.any (List.isPrefixOf
    [true,true,false,false,false,false,false,false,true,false,true,false,true,false,false,false])

def result (ip : Str) (k : Mask) : List (Str × Str) :=
  let host := dqtobin ip
  let bcast := strPad (host.take k.cdr) 32 true
  let net := strPad (host.take k.cdr) 32 false
  let first := strPad (net.take 31) 32 true
  let last := strPad (bcast.take 31) 32 false
  let total := bindec (List.replicate (32 - k.cdr) true) - 1
  let hosts := decide (0 < total)
  [("ip",ip),("netmask",bintodq k.nmask),("wildcard",bintodq k.wmask),("network",bintodq net),
    ("broadcast",bintodq (if !hosts && net = bcast then [] else bcast)),
    ("hostmin",bintodq (if hosts then first else [])),("hostmax",bintodq (if hosts then last else [])),
    ("total",if hosts then decimal total else []),("prefix",k.pref),
    ("type",if isPrivate net then "Private" else "Public"),("inet","4")]

def ipv4calc (ip m : Str) : Params :=
  match readMask m with
  | none => ∅
  | some k => dataOf (result ip k)

/-- `_IPCALC::IP`; which texts are IPv6 addresses is handed in. -/
def ip (isIpv6 : Str → Bool) (addr m : Str) : Params :=
  if SshLog.isIpv4 addr then ipv4calc addr m
  else if isIpv6 addr then dataOf [("inet","6")]
  else ∅

def plainChar (c : Char) : Bool := digit c || c = '.' || c.isAlpha

theorem readValue_plain {s : Str} (h : ∀ c ∈ s, plainChar c = true) : ReadValue s := by
  have hb : ∀ c ∈ s, trimChar c = false := by
    intro c hc
    rw [Bool.eq_false_iff]
    intro ht
    have hp := h c hc
    simp only [trimChar,Bool.or_eq_true,decide_eq_true_eq] at ht
    rcases ht with ((((rfl | rfl) | rfl) | rfl) | rfl) | rfl <;> exact absurd hp (by decide)
  exact ⟨trim_of_black hb,fun hm => absurd (h _ hm) (by decide),fun hm => absurd (h _ hm) (by decide)⟩

theorem plain_decimal (n : ℕ) : ∀ c ∈ decimal n, plainChar c = true := by
  intro c hc
  simp [plainChar,digit_decimal n c hc]

theorem plain_digits {s : Str} (h : s.all digit = true) : ∀ c ∈ s, plainChar c = true := by
  intro c hc
  rw [plainChar,List.all_eq_true.mp h c hc]
  rfl

theorem plain_intercalate {ws : List Str} (h : ∀ w ∈ ws, ∀ c ∈ w, plainChar c = true) :
    ∀ c ∈ List.intercalate ['.'] ws, plainChar c = true := by
  induction ws with
  | nil => simp
  | cons w ws ih =>
    cases ws with
    | nil => simpa using h
    | cons v vs =>
      intro c hc
      rw [List.intercalate_cons_cons,List.append_assoc,List.mem_append,List.mem_append,List.mem_singleton] at hc
      rcases hc with hc | rfl | hc
      · exact h w (by simp) c hc
      · decide
      · exact ih (fun x hx => h x (List.mem_cons_of_mem w hx)) c hc

theorem plain_bintodq (b : Bits) : ∀ c ∈ bintodq b, plainChar c = true := by
  unfold bintodq
  split
  · simp
  · refine plain_intercalate fun w hw => ?_
    obtain ⟨i,-,rfl⟩ := List.mem_map.mp hw
    exact plain_decimal _

theorem plain_pref {m : Str} {k : Mask} (h : readMask m = some k) : ∀ c ∈ k.pref, plainChar c = true := by
  unfold readMask at h
  split_ifs at h with hp <;> simp only [Option.some.injEq] at h <;> subst h
  · simp only [isPrefix,Bool.and_eq_true] at hp
    exact plain_digits hp.1
  all_goals exact plain_decimal _

theorem plain_isIpv4 {s : Str} (h : SshLog.isIpv4 s = true) : ∀ c ∈ s, plainChar c = true := by
  have ho : ∀ w : Str, SshLog.isOctet w = true → ∀ c ∈ w, plainChar c = true := by
    intro w hw
    simp only [SshLog.isOctet,Bool.and_eq_true,PacketFilter.octet,PacketFilter.number] at hw
    split at hw
    · rename_i hd
      exact plain_digits hd.2
    · simp at hw
  unfold SshLog.isIpv4 at h
  split at h
  · rename_i a b c d hs
    simp only [Bool.and_eq_true] at h
    have hi : List.intercalate ['.'] [a,b,c,d] = s := by
      rw [← hs]
      exact List.intercalate_splitOn '.'
    rw [← hi]
    refine plain_intercalate fun w hw => ho w ?_
    simp only [List.mem_cons,List.not_mem_nil,or_false] at hw
    rcases hw with rfl | rfl | rfl | rfl
    · exact h.1.1.1
    · exact h.1.1.2
    · exact h.1.2
    · exact h.2
  · simp at h

theorem val_dataOf (es : List (Str × Str)) (k : Str) : (dataOf es).val k = [] ∨ ∃ e ∈ es, (dataOf es).val k = e.2 := by
  unfold Params.val OrdMap.getD
  cases hg : (dataOf es).get? k with
  | none => exact Or.inl rfl
  | some v =>
    rcases mem_setAll (OrdMap.get?_eq_some.mp hg) with h | h
    · exact absurd h (List.not_mem_nil)
    · exact Or.inr ⟨(k,v),h,rfl⟩

theorem get?_dataOf {es : List (Str × Str)} {ks : List Str} (hk : ks.Nodup) (h : es.map Prod.fst = ks) (k : Str) :
    (dataOf es).get? k = OrdMap.lookup k es := by
  rw [OrdMap.get?,dataOf_entries (h ▸ hk)]

/-- Every value of a result can be kept in a registry file. -/
theorem ip_read (isIpv6 : Str → Bool) (addr m k : Str) : ReadValue ((ip isIpv6 addr m).val k) := by
  have hnil : ReadValue ([] : Str) := readValue_plain (by simp)
  unfold ip
  split_ifs with h₄
  · unfold ipv4calc
    split
    · exact hnil
    · rename_i n hn
      rcases val_dataOf _ k with h | ⟨e,he,h⟩
      · rw [h]
        exact hnil
      · rw [h]
        apply readValue_plain
        simp only [result,List.mem_cons,List.not_mem_nil,or_false] at he
        rcases he with rfl | rfl | rfl | rfl | rfl | rfl | rfl | rfl | rfl | rfl | rfl
        · exact plain_isIpv4 h₄
        · exact plain_bintodq _
        · exact plain_bintodq _
        · exact plain_bintodq _
        · exact plain_bintodq _
        · exact plain_bintodq _
        · exact plain_bintodq _
        · dsimp only
          split
          · exact plain_decimal _
          · simp
        · exact plain_pref hn
        · dsimp only
          split <;> decide
        · decide
  · rcases val_dataOf [("inet","6")] k with h | ⟨e,he,h⟩
    · rw [h]
      exact hnil
    · rw [h,List.mem_singleton.mp he]
      exact readValue_plain (by decide)
  · exact hnil

def resultKeys : List Str := ["ip","netmask","wildcard","network","broadcast","hostmin","hostmax","total","prefix",
  "type","inet"]

theorem resultKeys_nodup : resultKeys.Nodup := by decide

theorem val_result {ip f v : Str} {k : Mask} (hv : (f,v) ∈ result ip k) : (dataOf (result ip k)).val f = v := by
  have hn : ((result ip k).map Prod.fst).Nodup := resultKeys_nodup
  rw [Params.val,OrdMap.getD,get?_dataOf resultKeys_nodup rfl,(OrdMap.lookup_eq_some hn).mpr hv]
  rfl

theorem val_ipv4calc {m : Str} {k : Mask} (h : readMask m = some k) {ip f v : Str} (hv : (f,v) ∈ result ip k) :
    (ipv4calc ip m).val f = v := by
  rw [ipv4calc,h]
  exact val_result hv

theorem rtrim_append (b : Bits) (c : Bool) : ∃ j, b = rtrim b c ++ List.replicate j c := by
  refine ⟨(b.rtakeWhile (· = c)).length,?_⟩
  have ht : b.rtakeWhile (· = c) = List.replicate (b.rtakeWhile (· = c)).length c :=
    List.eq_replicate_of_mem fun x hx => by simpa using List.mem_rtakeWhile_imp hx
  rw [← ht]
  exact List.rdropWhile_append_rtakeWhile.symm

/-- Ones and then zeros are the netmask of as many ones. -/
theorem bintodq_contiguous {b : Bits} (hb : (rtrim b false).all id = true) (hl : 32 ≤ b.length)
    (hn : bintocdr b ≤ 32) : bintodq b = bintodq (cdrtobin (bintocdr b)) := by
  obtain ⟨j,hj⟩ := rtrim_append b false
  have hones : rtrim b false = List.replicate (bintocdr b) true :=
    List.eq_replicate_of_mem fun x hx => by simpa using List.all_eq_true.mp hb x hx
  have hlen : b.length = bintocdr b + j := by
    conv_lhs => rw [hj]
    simp [bintocdr]
  have hc : (cdrtobin (bintocdr b)).length = 32 := by
    simp only [cdrtobin,strPad,List.length_append,List.length_replicate]
    omega
  have happ : b = cdrtobin (bintocdr b) ++ List.replicate (b.length - 32) false := by
    conv_lhs => rw [hj,hones]
    rw [cdrtobin,strPad,List.append_assoc,List.length_replicate,List.replicate_append_replicate]
    congr 2
    omega
  have hchunk : ∀ i ∈ List.range 4, (b.drop (8*i)).take 8 = ((cdrtobin (bintocdr b)).drop (8*i)).take 8 := by
    intro i hi
    have hi' : i < 4 := List.mem_range.mp hi
    conv_lhs => rw [happ]
    rw [List.drop_append_of_le_length (by omega),List.take_append_of_le_length (by rw [List.length_drop]; omega)]
  have hne : b.isEmpty = false ∧ (cdrtobin (bintocdr b)).isEmpty = false := by
    simp only [List.isEmpty_eq_false_iff_exists_mem,← List.length_pos_iff_exists_mem]
    omega
  rw [bintodq,bintodq,hne.1,hne.2]
  simp only [Bool.false_eq_true,if_false]
  rw [List.map_congr_left fun i hi => by rw [hchunk i hi]]

theorem length_octetBits (n : ℕ) : 8 ≤ (octetBits n).length := by
  simp only [octetBits,List.length_append,List.length_replicate,List.length_reverse]
  omega

theorem length_dqtobin (s : Str) : 32 ≤ (dqtobin s).length := by
  have h := fun i => length_octetBits (digitsVal 10 ((split '.' s).getD i []))
  have hr : List.range 4 = [0,1,2,3] := rfl
  simp only [dqtobin,hr,List.flatMap_cons,List.flatMap_nil,List.length_append,List.length_nil]
  have h₀ := h 0
  have h₁ := h 1
  have h₂ := h 2
  have h₃ := h 3
  omega

theorem length_binwmtonm (b : Bits) : 32 ≤ (binwmtonm b).length := by
  unfold binwmtonm
  split
  · simp only [strPad,List.length_append,List.length_replicate]
    omega
  · decide

theorem readMask_decimal {n : ℕ} (h : n ≤ 32) : readMask (decimal n) =
    some ⟨cdrtobin n,binnmtowm (cdrtobin n),n,decimal n⟩ := by
  have hd : ∀ n < 33, isPrefix (decimal n) = true ∧ digitsVal 10 (decimal n) = n := by decide
  obtain ⟨hp,hv⟩ := hd n (by omega)
  rw [readMask,if_pos hp,hv,if_pos h]

theorem readMask_found {n : ℕ} {b : Bits} (hn : n ≤ 32) (hb : bintodq b = bintodq (cdrtobin n)) :
    ∃ j, readMask (decimal n) = some j ∧ j.cdr = n ∧ bintodq j.nmask = bintodq b :=
  ⟨_,readMask_decimal hn,rfl,hb.symm⟩

theorem readMask_pref {m : Str} {k : Mask} (h : readMask m = some k) (hc : k.cdr ≤ 32) :
    ∃ j, readMask k.pref = some j ∧ j.cdr = k.cdr ∧ bintodq j.nmask = bintodq k.nmask := by
  have h' := h
  unfold readMask at h'
  split_ifs at h' with h₁ h₂ h₃ h₄ h₅ <;> simp only [Option.some.injEq] at h' <;> subst h'
  · exact ⟨_,h,rfl,rfl⟩
  · dsimp only at hc ⊢
    exact readMask_found hc (bintodq_contiguous h₄ (length_dqtobin m) hc)
  · dsimp only at hc ⊢
    exact readMask_found hc (bintodq_contiguous h₅ (length_binwmtonm _) hc)

def networkResults : List Str := ["network","netmask","broadcast","total","hostmin","hostmax"]

/-- The result of a mask is that of the prefix found for it. -/
theorem ip_pref (isIpv6 : Str → Bool) (addr : Str) {m : Str} (hc : ∀ k ∈ readMask m, k.cdr ≤ 32)
    (hp : (ip isIpv6 addr m).val "prefix" ≠ []) : ∀ f ∈ networkResults,
    (ip isIpv6 addr ((ip isIpv6 addr m).val "prefix")).val f = (ip isIpv6 addr m).val f := by
  intro f hf
  unfold ip at hp ⊢
  split_ifs at hp ⊢ with h₄ h₆
  · cases hm : readMask m with
    | none =>
      rw [ipv4calc,hm] at hp
      exact absurd rfl hp
    | some k =>
      have hpref : (ipv4calc addr m).val "prefix" = k.pref := val_ipv4calc hm (by simp [result])
      obtain ⟨j,hj,hcdr,hmask⟩ := readMask_pref hm (hc k hm)
      have hne : f ≠ ("wildcard" : Str) ∧ f ≠ ("prefix" : Str) :=
        (by decide : ∀ f ∈ networkResults, f ≠ ("wildcard" : Str) ∧ f ≠ ("prefix" : Str)) f hf
      have hres : ∀ v, (f,v) ∈ result addr k → (f,v) ∈ result addr j := by
        intro v hv
        simp only [result,List.mem_cons,Prod.mk.injEq,hne.1,hne.2,hcdr,hmask,false_and,false_or] at hv ⊢
        exact hv
      obtain ⟨v,hv⟩ : ∃ v, (f,v) ∈ result addr k := by
        have hk : f ∈ resultKeys := (by decide : ∀ f ∈ networkResults, f ∈ resultKeys) f hf
        obtain ⟨e,he,rfl⟩ := List.mem_map.mp (show f ∈ (result addr k).map Prod.fst from hk)
        exact ⟨e.2,he⟩
      rw [hpref,val_ipv4calc hj (hres v hv),val_ipv4calc hm hv]
  · exact absurd rfl hp
  · exact absurd rfl hp

example : (ip (fun _ => false) "192.168.1.17" "255.255.255.240").val "broadcast" = ("192.168.1.31" : Str) := by
  decide

end Ipcalc
end Mybox
