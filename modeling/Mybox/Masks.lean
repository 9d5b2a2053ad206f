import Mybox.IpArithmetic

/-! Which texts the calculator takes for a mask. In its patterns `$` also stands before a newline that ends the
text, and the octets of a dotted text may be any numbers of up to three digits. -/
namespace Mybox
namespace Ipcalc
open Php Registry Interfaces References

def chopped (m : Str) : Str := if m.getLast? = some '\n' then m.dropLast else m

/-- The mask of any text: the patterns and the numbers pass over a newline at its end, and the prefix is put out as
it was handed in. -/
def readMaskText (m : Str) : Option Mask :=
  (readMask (chopped m)).map fun k => if isPrefix (chopped m) then { k with pref := m } else k

/-- `_IPCALC::IP` -/
def ipText (isIpv6 : Str → Bool) (addr m : Str) : Params :=
  if SshLog.isIpv4 addr then
    match readMaskText m with
    | none => ∅
    | some k => dataOf (result addr k)
  else if isIpv6 addr then dataOf [("inet","6")]
  else ∅

theorem readMaskText_eq {m : Str} (h : m.getLast? ≠ some '\n') : readMaskText m = readMask m := by
  rw [readMaskText,chopped,if_neg h]
  by_cases hp : isPrefix m = true
  · rw [readMask,if_pos hp]
    split <;> simp
  · simp [hp]

theorem ipText_ne (isIpv6 : Str → Bool) {addr : Str} (ha : SshLog.isIpv4 addr = true) (m : Str) :
    ipText isIpv6 addr m ≠ ∅ ↔ (readMaskText m).isSome = true := by
  rw [ipText,if_pos ha]
  cases readMaskText m with
  | none => simp
  | some k =>
    simp only [Option.isSome_some,iff_true]
    intro h
    have hv := congrArg (fun p : Params => p.entries) h
    rw [@dataOf_entries (result addr _) resultKeys_nodup] at hv
    exact absurd hv (List.cons_ne_nil _ _)

/-- A prefix of one or two digits up to 32, or a dotted text of octets that spell a netmask or its complement. -/
def IsMask (m : Str) : Prop := ∃ p ≤ 32, isPrefix m = true ∧ digitsVal 10 m = p ∨
  isDotted m = true ∧ (Spells m (netmask p) ∨ Spells m (~~~netmask p))

def Overfull (m : Str) : Prop := ∃ w ∈ split '.' m, 255 < digitsVal 10 w

instance (m : Str) : Decidable (Overfull m) := inferInstanceAs (Decidable (∃ w ∈ split '.' m, _))

def Falling (b : Bits) : Prop := ∃ i j, b = List.replicate i true ++ List.replicate j false

/-- The octets, written in binary one after another, are ones and then zeros, or zeros and then ones. -/
def Regular (m : Str) : Prop := Falling (dqtobin m) ∨ Falling ((dqtobin m).map not)

/-- A dotted text with a number above 255 whose bits are regular all the same. -/
def Disguised (m : Str) : Prop := isDotted m = true ∧ Overfull m ∧ Regular m

theorem rtrim_replicate (b : Bits) (c : Bool) (j : ℕ) : rtrim (b ++ List.replicate j c) c = rtrim b c := by
  induction j with
  | zero => simp
  | succ j ih =>
    rw [List.replicate_succ',← List.append_assoc,rtrim,List.rdropWhile_concat_pos _ _ _ (by simp)]
    exact ih

theorem rtrim_ones (i : ℕ) : rtrim (List.replicate i true) false = List.replicate i true := by
  rw [rtrim,List.rdropWhile_eq_self_iff]
  intro h
  simp [List.getLast_replicate]

theorem falling_iff (b : Bits) : (rtrim b false).all id = true ↔ Falling b := by
  constructor
  · intro h
    obtain ⟨j,hj⟩ := rtrim_append b false
    have hones : rtrim b false = List.replicate (rtrim b false).length true :=
      List.eq_replicate_of_mem fun x hx => by simpa using List.all_eq_true.mp h x hx
    refine ⟨(rtrim b false).length,j,?_⟩
    rw [← hones]
    exact hj
  · rintro ⟨i,j,rfl⟩
    rw [rtrim_replicate,rtrim_ones]
    simp

theorem map_not_rtrim (b : Bits) (c : Bool) : (rtrim b c).map not = rtrim (b.map not) (!c) := by
  induction b using List.reverseRecOn with
  | nil => rfl
  | append_singleton b d ih =>
    rw [List.map_append,List.map_singleton]
    unfold rtrim at ih ⊢
    by_cases hd : d = c
    · rw [List.rdropWhile_concat_pos _ _ _ (by simp [hd]),List.rdropWhile_concat_pos _ _ _ (by simp [hd])]
      exact ih
    · rw [List.rdropWhile_concat_neg _ _ _ (by simp [hd]),List.rdropWhile_concat_neg _ _ _ (by simpa using hd)]
      simp

theorem all_not (b : Bits) : b.all not = (b.map not).all id := by simp

theorem wildcard_iff (b : Bits) : (rtrim (binwmtonm b) false).all id = true ↔ Falling (b.map not) := by
  have hg : (rtrim gapped false).all id = false := by decide
  have h : (rtrim b true).all not = true ↔ Falling (b.map not) := by
    rw [all_not,map_not_rtrim]
    exact falling_iff _
  unfold binwmtonm
  by_cases hb : (rtrim b true).all not = true
  · rw [if_pos hb]
    refine iff_of_true ?_ (h.mp hb)
    rw [strPad,rtrim_replicate,map_not_rtrim]
    rw [all_not,map_not_rtrim] at hb
    have hr : rtrim (rtrim (b.map not) (!true)) false = rtrim (b.map not) (!true) := List.rdropWhile_idempotent _ _
    rw [hr]
    exact hb
  · rw [if_neg hb,hg]
    exact iff_of_false (by simp) fun hf => hb (h.mpr hf)

theorem isPrefix_not_dotted {m : Str} (h : isPrefix m = true) : isDotted m = false := by
  rw [Bool.eq_false_iff]
  intro hd
  simp [not_isPrefix hd] at h

/-- What is read. -/
theorem readMask_iff (m : Str) : (readMask m).isSome = true ↔
    isPrefix m = true ∧ digitsVal 10 m ≤ 32 ∨ isDotted m = true ∧ Regular m := by
  unfold readMask
  by_cases hp : isPrefix m = true
  · rw [if_pos hp]
    split <;> simp_all [isPrefix_not_dotted hp]
  · rw [if_neg hp]
    by_cases hd : isDotted m = true
    · rw [if_pos hd]
      simp only [hp,hd,Regular,← falling_iff (dqtobin m),← wildcard_iff (dqtobin m)]
      split
      · rename_i h
        simp [h]
      · rename_i h
        split
        · rename_i h'
          simp [h']
        · rename_i h'
          simp [h,h']
    · rw [if_neg hd]
      simp [hp,hd]

theorem bitsOf_injective {x y : BitVec 32} (h : bitsOf x = bitsOf y) : x = y := by
  refine BitVec.eq_of_getMsbD_eq fun i hi => ?_
  have hg := congrArg (fun b : Bits => b[i]?) h
  simpa [bitsOf,hi] using hg

theorem map_not_bitsOf (x : BitVec 32) : (bitsOf x).map not = bitsOf (~~~x) := by
  rw [bitsOf,bitsOf,List.map_map]
  refine List.map_congr_left fun i hi => ?_
  rw [BitVec.getMsbD_not]
  simp [List.mem_range.mp hi]

theorem falling_bitsOf (x : BitVec 32) : Falling (bitsOf x) ↔ ∃ p ≤ 32, x = netmask p := by
  constructor
  · rintro ⟨i,j,h⟩
    have hl := congrArg List.length h
    rw [length_bitsOf,List.length_append,List.length_replicate,List.length_replicate] at hl
    refine ⟨i,by omega,bitsOf_injective ?_⟩
    rw [← (cdrtobin_mask i (by omega)).1,h,cdrtobin,strPad,List.length_replicate,show j = 32 - i by omega]
  · rintro ⟨p,hp,rfl⟩
    obtain ⟨hc,-,ht,-⟩ := cdrtobin_mask p (by omega)
    rw [← hc]
    exact (falling_iff _).mp ht

theorem spells_iff {m : Str} {x : BitVec 32} (h : Spells m x) (y : BitVec 32) : Spells m y ↔ x = y := by
  constructor
  · intro hy
    apply bitsOf_injective
    rw [← bits_octets,← bits_octets,← h,← hy]
  · rintro rfl
    exact h

theorem spells_octet {m : Str} {x : BitVec 32} (h : Spells m x) : ¬ Overfull m := by
  rintro ⟨w,hw,hv⟩
  have hm : digitsVal 10 w ∈ octets x := by
    rw [← h]
    exact List.mem_map_of_mem hw
  obtain ⟨i,-,hi⟩ := List.mem_map.mp hm
  have hlt : (x >>> (24 - 8*i)).toNat % 256 < 256 := Nat.mod_lt _ (by decide)
  omega

theorem regular_iff {m : Str} (hd : isDotted m = true) (ho : ¬ Overfull m) :
    Regular m ↔ ∃ p ≤ 32, Spells m (netmask p) ∨ Spells m (~~~netmask p) := by
  have hl : (split '.' m).length = 4 := by
    simp only [isDotted,Bool.and_eq_true,decide_eq_true_eq] at hd
    exact hd.1
  have hs : Spells m (value m) := spells_of_lt hl fun w hw => by
    by_contra hn
    exact ho ⟨w,hw,by omega⟩
  rw [Regular,dqtobin_spells hs,map_not_bitsOf,falling_bitsOf,falling_bitsOf]
  simp only [spells_iff hs]
  constructor
  · rintro (⟨p,hp,h⟩ | ⟨p,hp,h⟩)
    · exact ⟨p,hp,Or.inl h⟩
    · exact ⟨p,hp,Or.inr (by rw [← h,BitVec.not_not])⟩
  · rintro ⟨p,hp,h | h⟩
    · exact Or.inl ⟨p,hp,h⟩
    · exact Or.inr ⟨p,hp,by rw [h,BitVec.not_not]⟩

theorem isMask_dotted {m : Str} (h : isDotted m = true) :
    IsMask m ↔ ∃ p ≤ 32, Spells m (netmask p) ∨ Spells m (~~~netmask p) := by
  simp [IsMask,not_isPrefix h,h]

theorem not_isMask {m : Str} (hd : isDotted m = true) (ho : Overfull m) : ¬ IsMask m := by
  rw [isMask_dotted hd]
  rintro ⟨p,-,h | h⟩ <;> exact spells_octet h ho

/-- What is read is a mask, or bits that are regular with a number above 255 among the octets. -/
theorem readMask_isMask (m : Str) : (readMask m).isSome = true ↔ IsMask m ∨ Disguised m := by
  rw [readMask_iff]
  by_cases hd : isDotted m = true
  · simp only [not_isPrefix hd,Disguised,hd,Bool.false_eq_true,false_and,true_and,false_or]
    by_cases ho : Overfull m
    · simp only [not_isMask hd ho,ho,true_and,false_or]
    · rw [isMask_dotted hd,regular_iff hd ho]
      simp only [ho,false_and,or_false]
  · simp [IsMask,Disguised,hd,and_comm]

theorem newline_prefix {m : Str} (h : isPrefix m = true) : '\n' ∉ m := by
  simp only [isPrefix,Bool.and_eq_true] at h
  exact fun hm => absurd (List.all_eq_true.mp h.1 _ hm) (by decide)

theorem newline_dotted {m : Str} (h : isDotted m = true) : '\n' ∉ m := by
  simp only [isDotted,Bool.and_eq_true] at h
  have hi : List.intercalate ['.'] (split '.' m) = m := List.intercalate_splitOn '.'
  intro hm
  rw [← hi] at hm
  refine absurd (plain_intercalate (fun w hw => ?_) _ hm) (by decide)
  have hw := List.all_eq_true.mp h.2 w hw
  simp only [Bool.and_eq_true] at hw
  exact plain_digits hw.1.1

theorem newline_isMask {m : Str} (h : IsMask m) : '\n' ∉ m := by
  obtain ⟨p,-,⟨h,-⟩ | ⟨h,-⟩⟩ := h
  · exact newline_prefix h
  · exact newline_dotted h

/-- A text the calculator takes though it is no mask: an octet above 255 behind bits that are regular, or a newline
behind what it takes. -/
def Overlooked (m : Str) : Prop :=
  Disguised m ∨ m.getLast? = some '\n' ∧ (IsMask m.dropLast ∨ Disguised m.dropLast)

theorem not_isMask_of_overlooked {m : Str} (h : Overlooked m) : ¬ IsMask m := by
  rcases h with h | ⟨h,-⟩
  · exact not_isMask h.1 h.2.1
  · exact fun hm => newline_isMask hm (List.mem_of_getLast? h)

theorem readMaskText_isMask (m : Str) : ((readMaskText m).isSome = true ↔ IsMask m) ↔ ¬ Overlooked m := by
  rw [readMaskText,Option.isSome_map,readMask_isMask,chopped]
  by_cases hn : m.getLast? = some '\n'
  · have hm := List.mem_of_getLast? hn
    have h₁ : ¬ IsMask m := fun h => newline_isMask h hm
    have h₂ : ¬ Disguised m := fun h => newline_dotted h.1 hm
    simp only [Overlooked,h₁,h₂,hn,if_true,false_or,true_and,iff_false]
  · rw [if_neg hn]
    simp only [Overlooked,hn,false_and,or_false]
    constructor
    · intro h hd
      exact not_isMask hd.1 hd.2.1 (h.mp (Or.inr hd))
    · intro h
      simp only [h,or_false]

/-- The calculator takes the masks and nothing else, but for what it overlooks. -/
theorem ip_accepts_iff (isIpv6 : Str → Bool) {addr : Str} (ha : SshLog.isIpv4 addr = true) (m : Str) :
    (ipText isIpv6 addr m ≠ ∅ ↔ IsMask m) ↔ ¬ Overlooked m := by
  rw [ipText_ne isIpv6 ha]
  exact readMaskText_isMask m

theorem ip_accepts_iff_office :
    ipText (fun _ => false) "192.168.1.17" "255.255.255.240" ≠ ∅ ↔ IsMask "255.255.255.240" := by
  refine (ip_accepts_iff (fun _ => false) (by decide) "255.255.255.240").mpr ?_
  have ho : ¬ Overfull "255.255.255.240" := by decide
  rintro (h | h)
  · exact ho h.2.1
  · exact absurd h.1 (by decide)

/-- A number above 255 with a single bit set. -/
theorem ip_accepts_overfull : ¬ ∀ (isIpv6 : Str → Bool) (addr m : Str), SshLog.isIpv4 addr = true →
    (ipText isIpv6 addr m ≠ ∅ ↔ IsMask m) := by
  intro h
  have hm := h (fun _ => false) "10.0.0.1" "256.0.0.0" (by decide)
  refine not_isMask (by decide) (by decide) (hm.mp ?_)
  decide

end Ipcalc
end Mybox
