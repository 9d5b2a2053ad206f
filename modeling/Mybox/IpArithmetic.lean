import Mybox.Ipcalc

/-! The IP calculator against the arithmetic of addresses: what is worked out on strings of bits is the address
under the mask, for every form of the mask. -/
namespace Mybox
namespace Ipcalc
open Php Registry Interfaces References

def bitsOf {w : ℕ} (x : BitVec w) : Bits := (List.range w).map x.getMsbD

def octets (x : BitVec 32) : List ℕ := (List.range 4).map fun i => (x >>> (24 - 8*i)).toNat % 256

def dotted (x : BitVec 32) : Str := List.intercalate ['.'] ((octets x).map decimal)

def netmask (p : ℕ) : BitVec 32 := BitVec.allOnes 32 <<< (32 - p)

/-- The numbers of a dotted text are the octets of the address. -/
def Spells (s : Str) (x : BitVec 32) : Prop := (split '.' s).map (digitsVal 10) = octets x

instance (s : Str) (x : BitVec 32) : Decidable (Spells s x) := inferInstanceAs (Decidable (_ = _))

def value (s : Str) : BitVec 32 :=
  BitVec.ofNat 32 (((split '.' s).map (digitsVal 10)).foldl (fun n k => 256*n + k) 0)

theorem octetBits_bits : ∀ n < 256, octetBits n = bitsOf (BitVec.ofNat 8 n) ∧ bindec (octetBits n) = n := by
  decide +kernel

theorem octet_bits (x : BitVec 32) {i : ℕ} (hi : i < 4) :
    octetBits ((x >>> (24 - 8*i)).toNat % 256) = (List.range 8).map fun j => x.getMsbD (8*i + j) := by
  rw [(octetBits_bits _ (Nat.mod_lt _ (by decide))).1,bitsOf]
  refine List.map_congr_left fun j hj => ?_
  have hj := List.mem_range.mp hj
  have hb : ((x >>> (24 - 8*i)).toNat % 256).testBit (7 - j) = x.getLsbD (24 - 8*i + (7 - j)) := by
    rw [show (256 : ℕ) = 2^8 from rfl,Nat.testBit_mod_two_pow,BitVec.testBit_toNat,BitVec.getLsbD_ushiftRight]
    simp only [Bool.and_eq_right_iff_imp]
    intro
    exact decide_eq_true (by omega)
  rw [BitVec.getMsbD_eq_getLsbD,BitVec.getMsbD_eq_getLsbD,BitVec.getLsbD_ofNat,hb,decide_eq_true hj,
    decide_eq_true (by omega : 8 - 1 - j < 8),decide_eq_true (by omega : 8*i + j < 32)]
  rw [Bool.true_and,Bool.true_and,Bool.true_and,show 24 - 8*i + (7 - j) = 32 - 1 - (8*i + j) by omega]

theorem bits_octets (x : BitVec 32) : (octets x).flatMap octetBits = bitsOf x := by
  have hr : List.range 32 = (List.range 4).flatMap fun i => (List.range 8).map fun j => 8*i + j := rfl
  rw [bitsOf,hr,octets,List.flatMap_map,List.map_flatMap]
  refine List.flatMap_congr fun i hi => ?_
  rw [octet_bits x (List.mem_range.mp hi),List.map_map]
  rfl

theorem dqtobin_spells {s : Str} {x : BitVec 32} (h : Spells s x) : dqtobin s = bitsOf x := by
  have hl : (split '.' s).length = 4 := by
    have hm := congrArg List.length h
    rwa [List.length_map] at hm
  rw [← bits_octets,← h,dqtobin,List.flatMap_map]
  obtain ⟨a,b,c,d,hs⟩ : ∃ a b c d, split '.' s = [a,b,c,d] := by
    rcases hs : split '.' s with _ | ⟨a,_ | ⟨b,_ | ⟨c,_ | ⟨d,_ | ⟨e,r⟩⟩⟩⟩⟩
    all_goals rw [hs] at hl
    case cons.cons.cons.cons.nil => exact ⟨a,b,c,d,rfl⟩
    all_goals simp at hl
  rw [hs]
  rfl

theorem digitsVal_number {w : Str} {n : ℕ} (h : PacketFilter.number w = some n) : digitsVal 10 w = n := by
  unfold PacketFilter.number at h
  split at h
  · rename_i hd
    have he : digitsVal 10 w = w.foldl (fun n c => 10*n + (c.toNat - 48)) 0 :=
      List.foldl_ext _ _ _ fun n c hc => by
        rw [digitVal,if_pos (by simpa [digit] using List.all_eq_true.mp hd.2 c hc)]
    rw [he,Option.some.inj h]
  · exact absurd h (by simp)

theorem digitsVal_octet {w : Str} (h : SshLog.isOctet w = true) :
    PacketFilter.octet w = some (digitsVal 10 w) ∧ digitsVal 10 w < 256 := by
  simp only [SshLog.isOctet,Bool.and_eq_true] at h
  obtain ⟨n,hn⟩ := Option.isSome_iff_exists.mp h.1
  obtain ⟨hn',hl⟩ := Option.filter_eq_some_iff.mp hn
  rw [hn,digitsVal_number hn']
  exact ⟨rfl,Nat.lt_succ_of_le (by simpa using hl)⟩

theorem spells_of_lt {s : Str} (hl : (split '.' s).length = 4) (h : ∀ w ∈ split '.' s, digitsVal 10 w < 256) :
    Spells s (value s) := by
  obtain ⟨a,b,c,d,hs⟩ : ∃ a b c d, split '.' s = [a,b,c,d] := by
    rcases hs : split '.' s with _ | ⟨a,_ | ⟨b,_ | ⟨c,_ | ⟨d,_ | ⟨e,r⟩⟩⟩⟩⟩
    all_goals rw [hs] at hl
    case cons.cons.cons.cons.nil => exact ⟨a,b,c,d,rfl⟩
    all_goals simp at hl
  rw [hs] at h
  simp only [List.forall_mem_cons] at h
  obtain ⟨ha,hb,hc,hd,-⟩ := h
  have h4 : List.range 4 = [0,1,2,3] := rfl
  rw [Spells,value,hs]
  simp only [octets,h4,List.map_cons,List.map_nil,List.foldl_cons,List.foldl_nil,BitVec.toNat_ushiftRight,
    BitVec.toNat_ofNat,Nat.shiftRight_eq_div_pow,List.cons.injEq,and_true]
  omega

theorem spells_value {s : Str} (h : SshLog.isIpv4 s = true) : Spells s (value s) := by
  unfold SshLog.isIpv4 at h
  split at h
  · rename_i a b c d hs
    simp only [Bool.and_eq_true] at h
    refine spells_of_lt (by rw [hs]; rfl) ?_
    rw [hs]
    simp only [List.forall_mem_cons]
    exact ⟨(digitsVal_octet h.1.1.1).2,(digitsVal_octet h.1.1.2).2,(digitsVal_octet h.1.2).2,(digitsVal_octet h.2).2,
      by simp⟩
  · exact absurd h (by simp)

theorem bintodq_bits (x : BitVec 32) : bintodq (bitsOf x) = dotted x := by
  have hc : ∀ i < 4, ((bitsOf x).drop (8*i)).take 8 = (List.range 8).map fun j => x.getMsbD (8*i + j) := by
    intro i hi
    refine List.ext_getElem ?_ fun j h₁ h₂ => ?_
    · simp [bitsOf]
      omega
    · simp [bitsOf]
  have he : (bitsOf x).isEmpty = false := rfl
  rw [bintodq,he,dotted,octets]
  simp only [Bool.false_eq_true,if_false,List.map_map]
  congr 1
  refine List.map_congr_left fun i hi => ?_
  have hi := List.mem_range.mp hi
  rw [hc i hi,← octet_bits x hi,(octetBits_bits _ (Nat.mod_lt _ (by decide))).2]
  rfl

/-- A prefix as it is written, a netmask, or the complement of one; the complements of the shortest and of the longest
mask are netmasks themselves. -/
inductive MaskForm (p : ℕ) : Str → Prop
  | pref {m : Str} : isPrefix m = true → digitsVal 10 m = p → MaskForm p m
  | netmask {m : Str} : isDotted m = true → Spells m (netmask p) → MaskForm p m
  | wildcard {m : Str} : 0 < p → p < 32 → isDotted m = true → Spells m (~~~Ipcalc.netmask p) → MaskForm p m

theorem cdrtobin_mask : ∀ p < 33, cdrtobin p = bitsOf (netmask p) ∧ binnmtowm (cdrtobin p) = bitsOf (~~~netmask p) ∧
    (rtrim (cdrtobin p) false).all id = true ∧ bintocdr (cdrtobin p) = p := by
  decide +kernel

theorem wildcard_mask : ∀ p < 32, 0 < p → (rtrim (bitsOf (~~~netmask p)) false).all id = false ∧
    binwmtonm (bitsOf (~~~netmask p)) = cdrtobin p := by
  decide +kernel

theorem not_isPrefix {m : Str} (h : isDotted m = true) : isPrefix m = false := by
  rw [Bool.eq_false_iff]
  intro hp
  simp only [isDotted,isPrefix,Bool.and_eq_true,decide_eq_true_eq] at h hp
  have hd : '.' ∉ m := fun hm => absurd (List.all_eq_true.mp hp.1 '.' hm) (by decide)
  rw [split,List.splitOn_eq_singleton hd] at h
  exact absurd h.1 (by simp)

theorem isPrefix_decimal {p : ℕ} (hp : p ≤ 32) : isPrefix (decimal p) = true ∧ digitsVal 10 (decimal p) = p :=
  (by decide : ∀ p < 33, isPrefix (decimal p) = true ∧ digitsVal 10 (decimal p) = p) p (by omega)

def shownPrefix (p : ℕ) (m : Str) : Str := if isPrefix m then m else decimal p

/-- All forms of a mask are read alike, but for the text of a prefix. -/
theorem readMask_form {p : ℕ} (hp : p ≤ 32) {m : Str} (h : MaskForm p m) :
    readMask m = some ⟨bitsOf (netmask p),bitsOf (~~~netmask p),p,shownPrefix p m⟩ := by
  obtain ⟨hc,hw,ht,hl⟩ := cdrtobin_mask p (by omega)
  unfold readMask shownPrefix
  cases h with
  | pref hm hv => rw [if_pos hm,if_pos hm,hv,if_pos hp,hw,hc]
  | netmask hd hm =>
    have hn := not_isPrefix hd
    rw [hn,dqtobin_spells hm,← hc,if_pos hd,if_pos ht,hl,hw]
    rfl
  | wildcard h₀ h₁ hd hm =>
    have hn := not_isPrefix hd
    obtain ⟨hr,hb⟩ := wildcard_mask p h₁ h₀
    rw [hn,dqtobin_spells hm,hr,hb,if_pos hd,ht,hl,hc]
    rfl

theorem getMsbD_netmask {p i : ℕ} (hp : p ≤ 32) (_ : i < 32) : (netmask p).getMsbD i = decide (i < p) := by
  rw [netmask,BitVec.getMsbD_shiftLeft,BitVec.getMsbD_allOnes]
  exact decide_eq_decide.mpr (by omega)

theorem length_bitsOf {w : ℕ} (x : BitVec w) : (bitsOf x).length = w := by simp [bitsOf]

theorem getElem_bitsOf {w : ℕ} (x : BitVec w) {i : ℕ} (h : i < (bitsOf x).length) : (bitsOf x)[i] = x.getMsbD i := by
  simp [bitsOf]

theorem strPad_take {x y : BitVec 32} {p : ℕ} {c : Bool} (hp : p ≤ 32)
    (h : ∀ i < 32, y.getMsbD i = if i < p then x.getMsbD i else c) : strPad ((bitsOf x).take p) 32 c = bitsOf y := by
  have hl : ((bitsOf x).take p).length = p := by
    rw [List.length_take,length_bitsOf]
    omega
  unfold strPad
  refine List.ext_getElem ?_ fun i h₁ h₂ => ?_
  · rw [List.length_append,List.length_replicate,hl,length_bitsOf]
    omega
  · rw [getElem_bitsOf,h i (by rwa [length_bitsOf] at h₂)]
    by_cases hi : i < p
    · rw [if_pos hi,List.getElem_append_left (by omega),List.getElem_take,getElem_bitsOf]
    · rw [if_neg hi,List.getElem_append_right (by omega),List.getElem_replicate]

variable (a : BitVec 32) {p : ℕ}

theorem network_bits (hp : p ≤ 32) : strPad ((bitsOf a).take p) 32 false = bitsOf (a &&& netmask p) := by
  refine strPad_take hp fun i hi => ?_
  rw [BitVec.getMsbD_and,getMsbD_netmask hp hi]
  by_cases h : i < p <;> simp [h]

theorem broadcast_bits (hp : p ≤ 32) : strPad ((bitsOf a).take p) 32 true = bitsOf (a ||| ~~~netmask p) := by
  refine strPad_take hp fun i hi => ?_
  rw [BitVec.getMsbD_or,BitVec.getMsbD_not,getMsbD_netmask hp hi]
  by_cases h : i < p <;> simp [h,hi]

/-- The last bit of a network is not set, and the one above it is the next number. -/
theorem hostmin_bits (hp : p < 32) :
    strPad ((bitsOf (a &&& netmask p)).take 31) 32 true = bitsOf ((a &&& netmask p) + 1#32) := by
  have h₀ : (a &&& netmask p) &&& 1#32 = 0#32 := by
    refine BitVec.eq_of_getMsbD_eq fun i hi => ?_
    rw [BitVec.getMsbD_and,BitVec.getMsbD_and,getMsbD_netmask (by omega) hi,BitVec.getMsbD_one,BitVec.getMsbD_zero]
    by_cases h : i < p
    · simp [show i ≠ 31 by omega]
    · simp [h]
  rw [BitVec.add_eq_or_of_and_eq_zero _ _ h₀]
  refine strPad_take (by decide) fun i hi => ?_
  rw [BitVec.getMsbD_or,BitVec.getMsbD_one]
  by_cases h : i < 31
  · simp [h,show i ≠ 31 by omega]
  · simp [show i = 31 by omega]

/-- The last bit of a broadcast address is set, and the number below it is the one without. -/
theorem hostmax_bits (hp : p < 32) :
    strPad ((bitsOf (a ||| ~~~netmask p)).take 31) 32 false = bitsOf ((a ||| ~~~netmask p) - 1#32) := by
  have hlast : (a ||| ~~~netmask p).getMsbD 31 = true := by
    rw [BitVec.getMsbD_or,BitVec.getMsbD_not,getMsbD_netmask (by omega) (by decide)]
    simp [show ¬31 < p by omega]
  generalize a ||| ~~~netmask p = b at hlast ⊢
  have h₀ : (b &&& ~~~1#32) &&& 1#32 = 0#32 := by
    rw [BitVec.and_assoc,BitVec.and_comm (~~~1#32)]
    simp
  have hb : (b &&& ~~~1#32) + 1#32 = b := by
    rw [BitVec.add_eq_or_of_and_eq_zero _ _ h₀]
    refine BitVec.eq_of_getMsbD_eq fun i hi => ?_
    rw [BitVec.getMsbD_or,BitVec.getMsbD_and,BitVec.getMsbD_not,BitVec.getMsbD_one]
    by_cases h : i = 31
    · simp [h,hlast]
    · simp [h,hi]
  have hs : b - 1#32 = b &&& ~~~1#32 := by
    conv_lhs => rw [← hb]
    exact BitVec.add_sub_cancel _ _
  rw [hs]
  refine strPad_take (by decide) fun i hi => ?_
  rw [BitVec.getMsbD_and,BitVec.getMsbD_not,BitVec.getMsbD_one]
  by_cases h : i < 31
  · simp [h,hi,show i ≠ 31 by omega]
  · simp [show i = 31 by omega]

theorem bindec_ones : ∀ k < 33, bindec (List.replicate k true) = 2^k - 1 := by decide

theorem network_ne_broadcast (hp : p < 32) : bitsOf (a &&& netmask p) ≠ bitsOf (a ||| ~~~netmask p) := by
  intro h
  have hg := congrArg (fun b : Bits => b[31]?) h
  have hb : ∀ x : BitVec 32, (bitsOf x)[31]? = some (x.getMsbD 31) := fun x => by simp [bitsOf]
  simp only [hb,Option.some.injEq] at hg
  rw [BitVec.getMsbD_and,BitVec.getMsbD_or,BitVec.getMsbD_not,getMsbD_netmask (by omega) (by decide)] at hg
  simp [show ¬31 < p by omega] at hg

/-- The network of an address: the address under the mask, all addresses from there to the one with the rest of its
bits set, and the hosts between the two. -/
def arithmetic (addr m : Str) (p : ℕ) : List (Str × Str) :=
  [("ip",addr),("netmask",dotted (netmask p)),("wildcard",dotted (~~~netmask p)),("network",dotted (a &&& netmask p)),
    ("broadcast",if p = 32 then [] else dotted (a ||| ~~~netmask p)),
    ("hostmin",if p ≤ 30 then dotted ((a &&& netmask p) + 1#32) else []),
    ("hostmax",if p ≤ 30 then dotted ((a ||| ~~~netmask p) - 1#32) else []),
    ("total",if p ≤ 30 then decimal (2^(32 - p) - 2) else []),("prefix",shownPrefix p m),
    ("type",if isPrivate (bitsOf (a &&& netmask p)) then "Private" else "Public"),("inet","4")]

theorem result_arithmetic (hp : p ≤ 32) {addr : Str} (ha : Spells addr a) (m : Str) :
    result addr ⟨bitsOf (netmask p),bitsOf (~~~netmask p),p,shownPrefix p m⟩ = arithmetic a addr m p := by
  have hnil : bintodq [] = [] := rfl
  have htotal : bindec (List.replicate (32 - p) true) - 1 = 2^(32 - p) - 2 := by
    rw [bindec_ones _ (by omega)]
    omega
  have hpos : (0 < 2^(32 - p) - 2) ↔ p ≤ 30 :=
    (by decide : ∀ p < 33, 0 < 2^(32 - p) - 2 ↔ p ≤ 30) p (by omega)
  unfold result arithmetic
  simp only [dqtobin_spells ha,network_bits a hp,broadcast_bits a hp,htotal,bintodq_bits,hpos,decide_eq_true_eq,
    Bool.and_eq_true,Bool.not_eq_true']
  by_cases h₀ : p ≤ 30
  · rw [hostmin_bits a (by omega),hostmax_bits a (by omega)]
    simp [h₀,bintodq_bits,show p ≠ 32 by omega]
  · by_cases h₁ : p = 32
    · subst h₁
      have he : bitsOf (a &&& netmask 32) = bitsOf (a ||| ~~~netmask 32) := by
        rw [← network_bits a (by decide),← broadcast_bits a (by decide)]
        simp [strPad,length_bitsOf]
      simp [he,hnil]
    · have hne := network_ne_broadcast a (p:=p) (by omega)
      simp [h₀,h₁,hne,hnil,bintodq_bits]

/-- The calculator works out the network of every address under every mask, and the same one from all forms of a mask;
only a prefix with a zero in front stays as it is written. -/
theorem ip_exact (isIpv6 : Str → Bool) {addr : Str} (ha : SshLog.isIpv4 addr = true) {p : ℕ} (hp : p ≤ 32) :
    (∀ m, MaskForm p m → ip isIpv6 addr m = dataOf (arithmetic (value addr) addr m p)) ∧
    ∀ m, MaskForm p m → (isPrefix m = true → m = decimal p) → ip isIpv6 addr m = ip isIpv6 addr (decimal p) := by
  have key : ∀ m, MaskForm p m → ip isIpv6 addr m = dataOf (arithmetic (value addr) addr m p) := by
    intro m hm
    rw [ip,if_pos ha,ipv4calc,readMask_form hp hm]
    dsimp only
    rw [result_arithmetic (value addr) hp (spells_value ha)]
  refine ⟨key,fun m hm hc => ?_⟩
  obtain ⟨hd,hv⟩ := isPrefix_decimal hp
  have hs : shownPrefix p m = shownPrefix p (decimal p) := by
    unfold shownPrefix
    rw [if_pos hd]
    split
    · rename_i h
      exact hc h
    · rfl
  rw [key m hm,key _ (.pref hd hv),arithmetic,arithmetic,hs]

theorem ip_exact_office : ip (fun _ => false) "192.168.1.17" "0.0.0.15" = ip (fun _ => false) "192.168.1.17" "28" ∧
    (ip (fun _ => false) "192.168.1.17" "0.0.0.15").val "hostmax" = ("192.168.1.30" : Str) := by
  have ha : SshLog.isIpv4 ("192.168.1.17" : Str) = true := by decide
  have h := ip_exact (fun _ => false) ha (show 28 ≤ 32 by decide)
  have hm : MaskForm 28 ("0.0.0.15" : Str) := .wildcard (by decide) (by decide) (by decide) (by decide)
  exact ⟨h.2 _ hm fun hp => absurd hp (by decide),by rw [h.1 _ hm]; decide⟩

end Ipcalc
end Mybox
