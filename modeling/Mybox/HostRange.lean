import Mybox.Masks
import Mybox.Lockout

/-! Ranges of addresses: `_CHK_HOSTRANGE` compares what `ip2long` makes of two texts, for a range that is entered and
for an address of an interface's network. -/
namespace Mybox
namespace Ipcalc
open Php Registry Interfaces References

/-- `ip2long`: what it reads a text as, if anything; a valid address is read as what it is. -/
structure Ip2long where
  read : Str → Option (BitVec 32)
  valid : ∀ s, SshLog.isIpv4 s = true → read s = some (value s)

/-- The integer an address is, with integers of 64 bits or of 32. -/
def long (wide : Bool) (x : BitVec 32) : ℤ := if wide then x.toNat else x.toInt

variable (conv : Ip2long) (wide : Bool)

/-- `ip2long`, as the integer that is compared. -/
def Ip2long.long (s : Str) : Option ℤ := (conv.read s).map (Ipcalc.long wide)

def chkHostrange (start stop : Str) : Bool := Sessions.chkHostrange (conv.long wide) start stop

theorem chkHostrange_eq (start stop : Str) : chkHostrange conv wide start stop =
    match conv.read start,conv.read stop with
    | some x,some y => decide (long wide x ≤ long wide y)
    | some x,none => decide (long wide x = 0)
    | none,_ => true := by
  unfold chkHostrange Sessions.chkHostrange Ip2long.long
  cases conv.read start <;> cases conv.read stop <;> rfl

theorem long_le_iff (x y : BitVec 32) :
    long wide x ≤ long wide y ↔ (x ≤ y ↔ (wide = true ∨ x.msb = y.msb)) := by
  have hx := x.isLt
  have hy := y.isLt
  rw [BitVec.le_def,BitVec.msb_eq_decide,BitVec.msb_eq_decide,decide_eq_decide]
  cases wide with
  | true => simp [long]
  | false =>
    simp only [long,Bool.false_eq_true,if_false,false_or,BitVec.toInt_eq_toNat_cond]
    split <;> split <;> omega

theorem long_eq_zero (x : BitVec 32) : long wide x = 0 ↔ x = 0#32 := by
  cases wide with
  | true => simp [long,BitVec.toNat_eq]
  | false => simpa [long] using BitVec.toInt_inj (x:=x) (y:=0#32)

/-- Where a range comes from: the CLI gets it as one word with a dash in it, the web page as two. -/
inductive Origin
  | cli
  | web
  deriving DecidableEq

def Origin.ends : Origin → Str → Str → Str × Str
  | cli, start, stop =>
    let ws := split '-' (start ++ '-' :: stop)
    (ws.getD 0 [],ws.getD 1 [])
  | web, start, stop => (start,stop)

def accepted (o : Origin) (start stop : Str) : Bool :=
  chkHostrange conv wide (o.ends start stop).1 (o.ends start stop).2

def IsRange (start stop : Str) : Prop :=
  SshLog.isIpv4 start = true ∧ SshLog.isIpv4 stop = true ∧ value start ≤ value stop

/-- The first end is read, and as something greater than the second. -/
def Falls (start stop : Str) : Prop :=
  ∃ x, conv.read start = some x ∧ (∀ y ∈ conv.read stop, long wide y < long wide x) ∧
    (conv.read stop = none → x ≠ 0#32)

theorem chkHostrange_iff (start stop : Str) : chkHostrange conv wide start stop = true ↔ ¬ Falls conv wide start stop := by
  rw [chkHostrange_eq]
  unfold Falls
  cases conv.read start with
  | none => simp
  | some x =>
    cases conv.read stop with
    | none => simp [long_eq_zero]
    | some y => simp

theorem dash_isIpv4 {s : Str} (h : SshLog.isIpv4 s = true) : '-' ∉ s := by
  intro hm
  exact absurd (plain_isIpv4 h _ hm) (by decide)

theorem Origin.ends_valid (o : Origin) {start stop : Str} (h₁ : SshLog.isIpv4 start = true)
    (h₂ : SshLog.isIpv4 stop = true) : o.ends start stop = (start,stop) := by
  cases o with
  | web => rfl
  | cli =>
    have hs : split '-' (start ++ '-' :: stop) = [start,stop] := by
      rw [split,List.splitOn_append_cons_self_of_not_mem (dash_isIpv4 h₁),List.splitOn_eq_singleton (dash_isIpv4 h₂)]
    rw [Origin.ends,hs]
    rfl

/-- Two addresses are compared rightly: the integers have 64 bits, or both addresses are in the same half. Ends that
are not both addresses are turned down. -/
def Compared (o : Origin) (start stop : Str) : Prop :=
  if SshLog.isIpv4 start = true ∧ SshLog.isIpv4 stop = true then
    wide = true ∨ (value start).msb = (value stop).msb
  else Falls conv wide (o.ends start stop).1 (o.ends start stop).2

theorem accepted_iff (o : Origin) (start stop : Str) :
    (accepted conv wide o start stop = true ↔ IsRange start stop) ↔ Compared conv wide o start stop := by
  unfold accepted Compared IsRange
  by_cases hv : SshLog.isIpv4 start = true ∧ SshLog.isIpv4 stop = true
  · rw [if_pos hv,o.ends_valid hv.1 hv.2,chkHostrange_eq,conv.valid _ hv.1,conv.valid _ hv.2]
    simp only [hv,true_and,decide_eq_true_eq,long_le_iff]
    tauto
  · rw [if_neg hv,chkHostrange_iff]
    have hn : ¬ (SshLog.isIpv4 start = true ∧ SshLog.isIpv4 stop = true ∧ value start ≤ value stop) := fun h =>
      hv ⟨h.1,h.2.1⟩
    simp only [hn,iff_false,not_not]

/-- `_CHK_INRANGE` of an entry. -/
def inRange (isIpv6 : Str → Bool) (d : Params) (addr : Str) : Bool :=
  let r := ipText isIpv6 (d.val "ADDR") (d.val "PREF")
  !d.isEmpty && !null (d.val "ADDR") && !null (d.val "PREF") && !r.isEmpty && !null (r.val "hostmin") &&
    !null (r.val "hostmax") && chkHostrange conv wide (r.val "hostmin") addr &&
    chkHostrange conv wide addr (r.val "hostmax")

/-- The entry of an interface: the one of `additional.cfg`, where there is one. -/
def interfaceEntry (env : Env) (name : Str) (w : World) : Params × World :=
  let e := iniTokenGetByparam env "network" "eth.cfg" "NAME" name ∅ w
  let a := iniTokenGetByparam env "network" "additional.cfg" "NAME" name e.1.2 e.2
  (a.1.2,a.2)

def chkInrange (env : Env) (isIpv6 : Str → Bool) (name addr : Str) (w : World) : Bool × World :=
  (inRange conv wide isIpv6 (interfaceEntry env name w).1 addr,(interfaceEntry env name w).2)

/-- The network of an entry: its address and the length of its prefix, when the two make up a network. -/
def Network (d : Params) (a : BitVec 32) (p : ℕ) : Prop :=
  SshLog.isIpv4 (d.val "ADDR") = true ∧ value (d.val "ADDR") = a ∧ p ≤ 32 ∧ MaskForm p (d.val "PREF")

/-- The addresses between the network and the broadcast address. -/
def Inside (a : BitVec 32) (p : ℕ) (y : BitVec 32) : Prop := a &&& netmask p < y ∧ y < a ||| ~~~netmask p

instance (a : BitVec 32) (p : ℕ) (y : BitVec 32) : Decidable (Inside a p y) := inferInstanceAs (Decidable (_ ∧ _))

/-- A text is a host address of the network of an entry. -/
def IsHost (d : Params) (addr : Str) : Prop :=
  SshLog.isIpv4 addr = true ∧ ∃ a p, Network d a p ∧ Inside a p (value addr)

theorem isOctet_decimal {n : ℕ} (h : n < 256) : SshLog.isOctet (decimal n) = true ∧ digitsVal 10 (decimal n) = n ∧
    '.' ∉ decimal n :=
  (by decide +kernel : ∀ n < 256, SshLog.isOctet (decimal n) = true ∧ digitsVal 10 (decimal n) = n ∧
    '.' ∉ decimal n) n h

theorem split_dotted (x : BitVec 32) : split '.' (dotted x) = (octets x).map decimal := by
  refine List.splitOn_intercalate '.' (fun w hw => ?_) (by simp [octets])
  obtain ⟨n,hn,rfl⟩ := List.mem_map.mp hw
  obtain ⟨i,-,rfl⟩ := List.mem_map.mp hn
  exact (isOctet_decimal (Nat.mod_lt _ (by decide))).2.2

theorem dotted_valid (x : BitVec 32) : SshLog.isIpv4 (dotted x) = true ∧ value (dotted x) = x := by
  have h4 : octets x = [(x >>> 24).toNat % 256,(x >>> 16).toNat % 256,(x >>> 8).toNat % 256,(x >>> 0).toNat % 256] := rfl
  have ho : ∀ k, SshLog.isOctet (decimal (k % 256)) = true := fun k => (isOctet_decimal (Nat.mod_lt k (by decide))).1
  have hv : SshLog.isIpv4 (dotted x) = true := by
    rw [SshLog.isIpv4,split_dotted,h4]
    simp [ho]
  refine ⟨hv,?_⟩
  have hs : Spells (dotted x) x := by
    rw [Spells,split_dotted,List.map_map]
    calc
      (octets x).map (digitsVal 10 ∘ decimal) = (octets x).map id := List.map_congr_left fun n hn => by
        obtain ⟨i,-,rfl⟩ := List.mem_map.mp hn
        exact (isOctet_decimal (Nat.mod_lt _ (by decide))).2.1
      _ = octets x := List.map_id _
  exact (spells_iff (spells_value hv) x).mp hs

theorem last_netmask {p : ℕ} (hp : p ≤ 30) : (netmask p).getMsbD 31 = false := by
  rw [getMsbD_netmask (by omega) (by decide)]
  exact decide_eq_false (by omega)

theorem network_succ_ne (a : BitVec 32) {p : ℕ} (hp : p ≤ 30) : (a &&& netmask p) + 1#32 ≠ 0#32 := by
  intro h
  have he : a &&& netmask p = BitVec.ofNat 32 (2^32 - 1) := by
    generalize a &&& netmask p = n at h
    bv_omega
  have hb := congrArg (fun x : BitVec 32 => x.getMsbD 31) he
  simp only [BitVec.getMsbD_and,last_netmask hp,Bool.and_false] at hb
  exact absurd hb (by decide)

theorem broadcast_ne (a : BitVec 32) {p : ℕ} (hp : p ≤ 30) : a ||| ~~~netmask p ≠ 0#32 := by
  intro h
  have hb := congrArg (fun x : BitVec 32 => x.getMsbD 31) h
  simp only [BitVec.getMsbD_or,BitVec.getMsbD_not,last_netmask hp,Bool.not_false,BitVec.getMsbD_zero] at hb
  simp at hb

theorem inside_iff (a y : BitVec 32) {p : ℕ} (hp : p ≤ 30) :
    Inside a p y ↔ (a &&& netmask p) + 1#32 ≤ y ∧ y ≤ (a ||| ~~~netmask p) - 1#32 := by
  have h₁ := network_succ_ne a hp
  have h₂ := broadcast_ne a hp
  unfold Inside
  generalize a &&& netmask p = n at h₁ ⊢
  generalize a ||| ~~~netmask p = b at h₂ ⊢
  bv_omega

/-- There are none behind longer prefixes. -/
theorem not_inside (a y : BitVec 32) {p : ℕ} (hp : 30 < p) : ¬ Inside a p y := by
  have hor : a ||| ~~~netmask p ≤ (a &&& netmask p) + 1#32 ∨ a ||| ~~~netmask p = a &&& netmask p := by
    by_cases h : p = 31
    · subst h
      left
      have hm : netmask 31 = ~~~1#32 := by decide
      have h₀ : (a &&& ~~~1#32) &&& 1#32 = 0#32 := by
        rw [BitVec.and_assoc,BitVec.and_comm (~~~1#32)]
        simp
      have he : a ||| 1#32 = a &&& ~~~1#32 ||| 1#32 := BitVec.eq_of_getMsbD_eq fun i hi => by
        simp only [BitVec.getMsbD_or,BitVec.getMsbD_and,BitVec.getMsbD_not]
        cases BitVec.getMsbD 1#32 i <;> simp [hi]
      rw [hm,BitVec.not_not,BitVec.add_eq_or_of_and_eq_zero _ _ h₀,he]
      exact BitVec.le_refl _
    · right
      have hm : netmask p = BitVec.allOnes 32 := by
        rw [netmask,Nat.sub_eq_zero_of_le (by omega),BitVec.shiftLeft_zero]
      rw [hm,BitVec.not_allOnes,BitVec.or_zero,BitVec.and_allOnes]
  unfold Inside
  generalize a &&& netmask p = n at hor ⊢
  generalize a ||| ~~~netmask p = b at hor ⊢
  rcases hor with hor | rfl <;> bv_omega

theorem msb_hosts (a : BitVec 32) {p : ℕ} (h₀ : 0 < p) (hp : p ≤ 30) :
    ((a &&& netmask p) + 1#32).msb = a.msb ∧ ((a ||| ~~~netmask p) - 1#32).msb = a.msb := by
  have hb : ∀ x : BitVec 32, (bitsOf x)[0]? = some x.msb := fun x => by simp [bitsOf,BitVec.msb]
  have ht : ∀ (x : BitVec 32) (c : Bool), (strPad ((bitsOf x).take 31) 32 c)[0]? = (bitsOf x)[0]? := by
    intro x c
    rw [strPad,List.getElem?_append_left (by rw [List.length_take,length_bitsOf]; decide),List.getElem?_take_of_lt (by decide)]
  have hm : (netmask p).msb = true := by
    rw [BitVec.msb,getMsbD_netmask (by omega) (by decide)]
    exact decide_eq_true h₀
  constructor
  · have h := hb ((a &&& netmask p) + 1#32)
    rw [← hostmin_bits a (by omega),ht,hb,BitVec.msb_and,hm,Bool.and_true] at h
    exact (Option.some.inj h).symm
  · have h := hb ((a ||| ~~~netmask p) - 1#32)
    rw [← hostmax_bits a (by omega),ht,hb,BitVec.msb_or,BitVec.msb_not,hm] at h
    simpa using (Option.some.inj h).symm

theorem long_between {x y z : BitVec 32} (h : wide = true ∨ x.msb = z.msb) :
    (long wide x ≤ long wide y ∧ long wide y ≤ long wide z) ↔ x ≤ y ∧ y ≤ z := by
  have hx := x.isLt
  have hy := y.isLt
  have hz := z.isLt
  rw [BitVec.msb_eq_decide,BitVec.msb_eq_decide,decide_eq_decide] at h
  rw [BitVec.le_def,BitVec.le_def]
  cases wide with
  | true => simp [long]
  | false =>
    simp only [long,Bool.false_eq_true,if_false,false_or,BitVec.toInt_eq_toNat_cond] at h ⊢
    split <;> split <;> split <;> omega

/-- The hosts of the network of all addresses start above zero and end below it, as integers of 32 bits. -/
theorem long_apart (a y : BitVec 32) : ¬ (long false ((a &&& netmask 0) + 1#32) ≤ long false y ∧
    long false y ≤ long false ((a ||| ~~~netmask 0) - 1#32)) := by
  have hm : netmask 0 = 0#32 := by decide
  have hmin : long false (0#32 + 1#32) = 1 := by decide
  have hmax : long false (BitVec.allOnes 32 - 1#32) = -2 := by decide
  rw [hm,BitVec.and_zero,BitVec.not_zero,BitVec.or_allOnes,hmin,hmax]
  omega

/-- The integers are in the order of the hosts, but for the network of all addresses. -/
theorem long_inside (a y : BitVec 32) {p : ℕ} (hp : p ≤ 30) :
    (long wide ((a &&& netmask p) + 1#32) ≤ long wide y ∧ long wide y ≤ long wide ((a ||| ~~~netmask p) - 1#32)) ↔
      Inside a p y ∧ (wide = true ∨ 0 < p) := by
  by_cases h : wide = true ∨ 0 < p
  · simp only [h,and_true,inside_iff a y hp]
    refine long_between wide (h.imp_right fun h₀ => ?_)
    obtain ⟨h₁,h₂⟩ := msb_hosts a h₀ hp
    rw [h₁,h₂]
  · simp only [not_or,Bool.not_eq_true,Nat.not_lt,Nat.le_zero] at h
    obtain ⟨rfl,rfl⟩ := h
    simpa using long_apart a y

/-- The address and the length of the prefix that are read from an entry. -/
def subnet (d : Params) : Option (BitVec 32 × ℕ) :=
  if SshLog.isIpv4 (d.val "ADDR") then (readMaskText (d.val "PREF")).map fun k => (value (d.val "ADDR"),k.cdr)
  else none

/-- A text that is read as a host of what is read from an entry. -/
def Taken (d : Params) (addr : Str) : Prop :=
  ∃ y ∈ conv.read addr, ∃ n ∈ subnet d, Inside n.1 n.2 y ∧ (wide = true ∨ 0 < n.2)

theorem hosts_iff (k : Mask) : (0 < bindec (List.replicate (32 - k.cdr) true) - 1) ↔ k.cdr ≤ 30 := by
  have h : ∀ q < 33, (0 < bindec (List.replicate q true) - 1) ↔ 2 ≤ q := by decide
  rw [h _ (by omega)]
  omega

theorem result_hosts {addr : Str} {a : BitVec 32} (ha : Spells addr a) {k : Mask} (h : k.cdr ≤ 30) :
    (dataOf (result addr k)).val "hostmin" = dotted ((a &&& netmask k.cdr) + 1#32) ∧
    (dataOf (result addr k)).val "hostmax" = dotted ((a ||| ~~~netmask k.cdr) - 1#32) := by
  have hk := (hosts_iff k).mpr h
  constructor
  · refine val_result ?_
    rw [← bintodq_bits,← hostmin_bits a (by omega),← network_bits a (by omega)]
    simp [result,dqtobin_spells ha,hk]
  · refine val_result ?_
    rw [← bintodq_bits,← hostmax_bits a (by omega),← broadcast_bits a (by omega)]
    simp [result,dqtobin_spells ha,hk]

theorem result_no_hosts (addr : Str) {k : Mask} (h : 30 < k.cdr) : (dataOf (result addr k)).val "hostmin" = [] := by
  refine val_result ?_
  have hk := mt (hosts_iff k).mp (by omega)
  simp [result,hk,bintodq]

theorem chkHostrange_dotted {x : BitVec 32} (hx : x ≠ 0#32) (z : BitVec 32) (addr : Str) :
    (chkHostrange conv wide (dotted x) addr = true ∧ chkHostrange conv wide addr (dotted z) = true) ↔
      ∃ y ∈ conv.read addr, long wide x ≤ long wide y ∧ long wide y ≤ long wide z := by
  have hv : ∀ x, conv.read (dotted x) = some x := fun x => by rw [conv.valid _ (dotted_valid x).1,(dotted_valid x).2]
  rw [chkHostrange_eq,chkHostrange_eq,hv,hv]
  cases conv.read addr with
  | none => simp [long_eq_zero,hx]
  | some y => simp

theorem null_dotted (x : BitVec 32) : null (dotted x) = false := by
  rw [null_false_iff]
  intro h
  have hv := (dotted_valid x).1
  rw [h] at hv
  exact absurd hv (by decide)

theorem isEmpty_of_val {d : Params} {k : Str} (h : d.val k ≠ []) : d.isEmpty = false := by
  rw [Bool.eq_false_iff]
  intro he
  rw [OrdMap.isEmpty_iff.mp he] at h
  exact h rfl

/-- What is accepted for an entry with an address and a prefix. -/
theorem inRange_iff (isIpv6 : Str → Bool) {d : Params} (ha : d.val "ADDR" ≠ []) (hp : d.val "PREF" ≠ []) (addr : Str) :
    inRange conv wide isIpv6 d addr = true ↔ Taken conv wide d addr := by
  unfold inRange Taken
  simp only [isEmpty_of_val ha,null_false_iff.mpr ha,null_false_iff.mpr hp,Bool.not_false,Bool.true_and]
  by_cases hv : SshLog.isIpv4 (d.val "ADDR") = true
  · rw [ipText,if_pos hv,subnet,if_pos hv]
    cases hm : readMaskText (d.val "PREF") with
    | none => simp [OrdMap.isEmpty_iff]
    | some k =>
      have hs := spells_value hv
      simp only [Option.map_some,Option.mem_def,Option.some.injEq,exists_eq_left']
      by_cases hk : k.cdr ≤ 30
      · obtain ⟨h₁,h₂⟩ := result_hosts hs hk
        have he : (dataOf (result (d.val "ADDR") k)).isEmpty = false := by
          refine isEmpty_of_val (k:="hostmin") ?_
          rw [h₁]
          exact null_false_iff.mp (null_dotted _)
        rw [h₁,h₂,null_dotted,null_dotted,he]
        simp only [Bool.not_false,Bool.true_and,Bool.and_eq_true]
        rw [chkHostrange_dotted conv wide (network_succ_ne _ hk)]
        simp only [long_inside wide _ _ hk,Option.mem_def]
      · rw [result_no_hosts _ (by omega)]
        simp [null,not_inside _ _ (show 30 < k.cdr by omega)]
  · have hmin : null ((ipText isIpv6 (d.val "ADDR") (d.val "PREF")).val "hostmin") = true := by
      rw [ipText,if_neg hv]
      cases isIpv6 (d.val "ADDR") <;> decide
    rw [hmin,subnet,if_neg hv]
    simp

theorem isMask_iff (m : Str) : IsMask m ↔ ∃ p ≤ 32, MaskForm p m := by
  constructor
  · rintro ⟨p,hp,⟨h,hv⟩ | ⟨h,hs | hs⟩⟩
    · exact ⟨p,hp,.pref h hv⟩
    · exact ⟨p,hp,.netmask h hs⟩
    · -- the complements of the shortest and of the longest mask are netmasks
      by_cases h₀ : p = 0
      · subst h₀
        exact ⟨32,le_refl 32,.netmask h (by simpa [netmask] using hs)⟩
      · by_cases h₁ : p = 32
        · subst h₁
          exact ⟨0,Nat.zero_le 32,.netmask h (by simpa [netmask] using hs)⟩
        · exact ⟨p,hp,.wildcard (by omega) (by omega) h hs⟩
  · rintro ⟨p,hp,h⟩
    cases h with
    | pref h hv => exact ⟨p,hp,Or.inl ⟨h,hv⟩⟩
    | netmask h hs => exact ⟨p,hp,Or.inr ⟨h,Or.inl hs⟩⟩
    | wildcard _ _ h hs => exact ⟨p,hp,Or.inr ⟨h,Or.inr hs⟩⟩

theorem readMaskText_form {p : ℕ} (hp : p ≤ 32) {m : Str} (h : MaskForm p m) :
    ∃ k, readMaskText m = some k ∧ k.cdr = p := by
  have hm : '\n' ∉ m := newline_isMask ((isMask_iff m).mpr ⟨p,hp,h⟩)
  rw [readMaskText_eq fun hl => hm (List.mem_of_getLast? hl)]
  exact ⟨_,readMask_form hp h,rfl⟩

/-- The network of an entry is what is read, unless the mask is overlooked. -/
theorem mem_subnet {d : Params} (ho : ¬ Overlooked (d.val "PREF")) (n : BitVec 32 × ℕ) :
    n ∈ subnet d ↔ Network d n.1 n.2 := by
  unfold subnet Network
  by_cases hv : SshLog.isIpv4 (d.val "ADDR") = true
  · rw [if_pos hv]
    simp only [hv,true_and,Option.mem_def,Option.map_eq_some_iff]
    constructor
    · rintro ⟨k,hk,rfl⟩
      obtain ⟨p,hp,hm⟩ := (isMask_iff _).mp (((readMaskText_isMask _).mpr ho).mp (by rw [hk]; rfl))
      obtain ⟨k',hk',rfl⟩ := readMaskText_form hp hm
      rw [hk] at hk'
      obtain rfl := Option.some.inj hk'
      exact ⟨rfl,hp,hm⟩
    · rintro ⟨h₁,hp,hm⟩
      obtain ⟨k,hk,h₂⟩ := readMaskText_form hp hm
      exact ⟨k,hk,by rw [h₁,h₂]⟩
  · simp [hv]

/-- A text that is taken for a host though the prefix of the entry is no mask, or the text no address. -/
def Strays (d : Params) (addr : Str) : Prop :=
  (Overlooked (d.val "PREF") ∨ SshLog.isIpv4 addr = false) ∧ Taken conv wide d addr

/-- A host of the network of all addresses, with integers of 32 bits. -/
def Halved (d : Params) (addr : Str) : Prop :=
  wide = false ∧ SshLog.isIpv4 addr = true ∧ ∃ a, Network d a 0 ∧ Inside a 0 (value addr)

theorem network_unique {d : Params} {a b : BitVec 32} {p q : ℕ} (h : Network d a p) (h' : Network d b q) :
    a = b ∧ p = q := by
  obtain ⟨-,rfl,hp,hm⟩ := h
  obtain ⟨-,rfl,hq,hm'⟩ := h'
  obtain ⟨k,hk,rfl⟩ := readMaskText_form hp hm
  obtain ⟨j,hj,rfl⟩ := readMaskText_form hq hm'
  rw [hk] at hj
  obtain rfl := Option.some.inj hj
  exact ⟨rfl,rfl⟩

theorem inRange_isHost (isIpv6 : Str → Bool) {d : Params} (ha : d.val "ADDR" ≠ []) (hp : d.val "PREF" ≠ [])
    (addr : Str) : (inRange conv wide isIpv6 d addr = true ↔ IsHost d addr) ↔
      ¬ Strays conv wide d addr ∧ ¬ Halved wide d addr := by
  rw [inRange_iff conv wide isIpv6 ha hp]
  by_cases hs : Overlooked (d.val "PREF") ∨ SshLog.isIpv4 addr = false
  · -- no host, and what is taken strays
    have hn : ¬ (SshLog.isIpv4 addr = true ∧ ∃ a p, Network d a p) := by
      rintro ⟨h₁,a,p,h₂⟩
      rcases hs with h | h
      · exact not_isMask_of_overlooked h ((isMask_iff _).mpr ⟨p,h₂.2.2⟩)
      · simp [h] at h₁
    have h₁ : ¬ IsHost d addr := fun ⟨h,a,p,hd,_⟩ => hn ⟨h,a,p,hd⟩
    have h₂ : ¬ Halved wide d addr := fun ⟨_,h,a,hd,_⟩ => hn ⟨h,a,0,hd⟩
    simp only [Strays,h₁,h₂,hs,true_and,iff_false,not_false_eq_true,and_true]
  · have hst : ¬ Strays conv wide d addr := fun h => hs h.1
    simp only [not_or,Bool.not_eq_false] at hs
    obtain ⟨ho,hv⟩ := hs
    have ht : Taken conv wide d addr ↔ ∃ a p, Network d a p ∧ Inside a p (value addr) ∧ (wide = true ∨ 0 < p) := by
      unfold Taken
      simp only [conv.valid addr hv,Option.mem_def,Option.some.injEq,exists_eq_left',Prod.exists]
      simp only [← Option.mem_def,mem_subnet ho]
    simp only [hst,not_false_eq_true,true_and,ht]
    constructor
    · rintro h ⟨hw,-,a,hd,hi⟩
      obtain ⟨b,q,hd',-,hq⟩ := h.mpr ⟨hv,a,0,hd,hi⟩
      obtain ⟨-,rfl⟩ := network_unique hd hd'
      simp [hw] at hq
    · intro h
      constructor
      · rintro ⟨a,p,hd,hi,-⟩
        exact ⟨hv,a,p,hd,hi⟩
      · rintro ⟨-,a,p,hd,hi⟩
        refine ⟨a,p,hd,hi,?_⟩
        by_contra hn
        simp only [not_or,Bool.not_eq_true,Nat.not_lt,Nat.le_zero] at hn
        obtain ⟨hw,rfl⟩ := hn
        exact h ⟨hw,hv,a,hd,hi⟩

theorem address_value {s : Str} (h : SshLog.isIpv4 s = true) : PacketFilter.address s = some (value s).toNat := by
  unfold SshLog.isIpv4 at h
  split at h
  · rename_i a b c d hs
    simp only [Bool.and_eq_true] at h
    obtain ⟨ha,ha'⟩ := digitsVal_octet h.1.1.1
    obtain ⟨hb,hb'⟩ := digitsVal_octet h.1.1.2
    obtain ⟨hc,hc'⟩ := digitsVal_octet h.1.2
    obtain ⟨hd,hd'⟩ := digitsVal_octet h.2
    have hs' : s.splitOn '.' = [a,b,c,d] := hs
    rw [PacketFilter.address,hs',value,hs]
    simp only [ha,hb,hc,hd,Option.bind_some,Option.map_some,Option.some.injEq,List.map_cons,List.map_nil,
      List.foldl_cons,List.foldl_nil,BitVec.toNat_ofNat]
    omega
  · exact absurd h (by simp)

def Ip2long.dotted : Ip2long :=
  ⟨fun s => (PacketFilter.address s).map (BitVec.ofNat 32),fun s h => by
    rw [address_value h,Option.map_some,BitVec.ofNat_toNat,BitVec.setWidth_eq]⟩

/-- Ranges and hosts are told by the order of the addresses, where the integers are wide enough or the addresses in
one half, and for texts that are addresses. -/
theorem ranges_checked (env : Env) (isIpv6 : Str → Bool) :
    (∀ o start stop, (accepted conv wide o start stop = true ↔ IsRange start stop) ↔
      Compared conv wide o start stop) ∧
    ∀ name addr w, (interfaceEntry env name w).1.val "ADDR" ≠ [] → (interfaceEntry env name w).1.val "PREF" ≠ [] →
      (((chkInrange conv wide env isIpv6 name addr w).1 = true ↔ IsHost (interfaceEntry env name w).1 addr) ↔
        ¬ Strays conv wide (interfaceEntry env name w).1 addr ∧ ¬ Halved wide (interfaceEntry env name w).1 addr) :=
  ⟨accepted_iff conv wide,fun _ addr _ ha hp => inRange_isHost conv wide isIpv6 ha hp addr⟩

def officeCard : World :=
  World.ofFiles [("network","eth.cfg","ID=eth0\nNAME=lan\nADDR=192.168.1.17\nPREF=28\n")]

theorem ranges_checked_office : accepted .dotted true .web "10.0.0.1" "192.168.0.1" = true ∧
    (chkInrange .dotted true noonEnv (fun _ => false) "lan" "192.168.1.30" officeCard).1 = true := by
  obtain ⟨h₁,h₂⟩ := ranges_checked .dotted true noonEnv fun _ => false
  have hd : (interfaceEntry noonEnv "lan" officeCard).1.val "ADDR" = ("192.168.1.17" : Str) ∧
      (interfaceEntry noonEnv "lan" officeCard).1.val "PREF" = ("28" : Str) := by decide
  have hm : MaskForm 28 ("28" : Str) := .pref (by decide) (by decide)
  refine ⟨((h₁ .web _ _).mpr ?_).mpr ⟨by decide,by decide,by decide⟩,?_⟩
  · rw [Compared,if_pos (by decide)]
    exact Or.inl rfl
  · have h := h₂ "lan" "192.168.1.30" officeCard (by rw [hd.1]; decide) (by rw [hd.2]; decide)
    have hn : Network (interfaceEntry noonEnv "lan" officeCard).1 (value "192.168.1.17") 28 :=
      ⟨by rw [hd.1]; decide,by rw [hd.1],by decide,by rw [hd.2]; exact hm⟩
    refine (h.mpr ⟨?_,?_⟩).mpr ⟨by decide,_,28,hn,by decide⟩
    · rintro ⟨ho | hv,-⟩
      · exact not_isMask_of_overlooked ho ((isMask_iff _).mpr ⟨28,by decide,hn.2.2.2⟩)
      · exact absurd hv (by decide)
    · rintro ⟨hw,-⟩
      exact absurd hw (by decide)

/-- A start that is no address is below every end. -/
theorem range_unread : ¬ ∀ (conv : Ip2long) (wide : Bool) (o : Origin) (start stop : Str),
    accepted conv wide o start stop = true ↔ IsRange start stop := by
  intro h
  have hr := (h .dotted true .web "lan" "10.0.0.9").mp (by decide)
  exact absurd hr.1 (by decide)

end Ipcalc
end Mybox
