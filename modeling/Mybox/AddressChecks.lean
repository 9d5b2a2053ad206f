import Mybox.BlacklistRules
import Mybox.Masks
import Mybox.NetCalc

/-! Version 3.0: which texts `mybox_check_ipv4` and `mybox_check_mac` take for addresses. -/
namespace Mybox
namespace AddressChecks

open Php Ipcalc BlacklistRules

/-- What `$` lets a pattern end before: one newline at the end. -/
def unended (s : Str) : Str := if s.getLast? = some '\n' then s.dropLast else s

/-- `ereg('^0.',$ip)` -/
def zeroFirst (ip : Str) : Bool := ip.head? = some '0' && 2 ≤ ip.length

/-- A number as a text that begins with it is compared. -/
def leading (w : Str) : ℕ := digitsVal 10 (w.takeWhile digit)

def checkIpv4 (ip : Str) : Bool :=
  if isDotted (unended ip) then
    if !zeroFirst ip then (split '.' ip).all fun octet => !(leading octet > 255) else true
  else false

/-- One to three digits. -/
structure Group (w : Str) : Prop where
  digits : ∀ c ∈ w, digit c = true
  pos : 1 ≤ w.length
  length : w.length ≤ 3

/-- Four groups with dots between them, each of a value up to 255. -/
def Ipv4 (s : Str) : Prop :=
  ∃ a b c d, s = a ++ '.'::(b ++ '.'::(c ++ '.'::d)) ∧ ∀ w ∈ [a,b,c,d], Group w ∧ digitsVal 10 w ≤ 255

def macSep (c : Char) : Bool := c = '-' || c = ':' || c = ' '

/-- So many pairs of digits, with one separator between two of them. -/
inductive Pairs : ℕ → Str → Prop
  | one {a b : Char} : hexDigit a = true → hexDigit b = true → Pairs 1 [a,b]
  | more {a b x : Char} {n : ℕ} {s : Str} : hexDigit a = true → hexDigit b = true → macSep x = true → Pairs n s →
      Pairs (n + 1) (a::b::x::s)

def Mac (s : Str) : Prop := s.length = 17 ∧ Pairs 6 s

def Exact (s : Str) : Prop := (checkIpv4 s = true ↔ Ipv4 s) ∧ (checkMac s = true ↔ Mac s)

/-- No newline stands behind four groups that begin with a zero or have values up to 255, and four groups that begin with
a zero have such values. -/
structure Sound4 (s : Str) : Prop where
  newline : s.getLast? = some '\n' → isDotted s.dropLast = true →
    s.head? ≠ some '0' ∧ ∃ w ∈ split '.' s.dropLast, 255 < digitsVal 10 w
  zero : isDotted s = true → s.head? = some '0' → ∀ w ∈ split '.' s, digitsVal 10 w ≤ 255

theorem Group.dot {w : Str} (h : Group w) : '.' ∉ w := fun hm => absurd (h.digits '.' hm) (by decide)

theorem isDotted_iff {s : Str} : isDotted s = true ↔ ∃ a b c d, split '.' s = [a,b,c,d] ∧ ∀ w ∈ [a,b,c,d], Group w := by
  simp only [isDotted,Bool.and_eq_true,decide_eq_true_eq,List.all_eq_true]
  constructor
  · rintro ⟨hl,hw⟩
    obtain ⟨a,b,c,d,hs⟩ := List.length_eq_four.mp hl
    exact ⟨a,b,c,d,hs,fun w hm => ⟨(hw w (hs ▸ hm)).1.1,(hw w (hs ▸ hm)).1.2,(hw w (hs ▸ hm)).2⟩⟩
  · rintro ⟨a,b,c,d,hs,hw⟩
    rw [hs]
    exact ⟨rfl,fun w hm => ⟨⟨(hw w hm).digits,(hw w hm).pos⟩,(hw w hm).length⟩⟩

theorem split_groups {a b c d : Str} (h : ∀ w ∈ [a,b,c], '.' ∉ w) (hd : '.' ∉ d) :
    split '.' (a ++ '.'::(b ++ '.'::(c ++ '.'::d))) = [a,b,c,d] := by
  simp only [List.forall_mem_cons] at h
  rw [split,List.splitOn_append_cons_self_of_not_mem h.1,List.splitOn_append_cons_self_of_not_mem h.2.1,
    List.splitOn_append_cons_self_of_not_mem h.2.2.1,List.splitOn_eq_singleton hd]

theorem eq_of_split {s a b c d : Str} (h : split '.' s = [a,b,c,d]) : s = a ++ '.'::(b ++ '.'::(c ++ '.'::d)) := by
  have hi : ['.'].intercalate (split '.' s) = s := List.intercalate_splitOn '.'
  rw [← hi,h]
  simp [List.intercalate_cons_cons]

theorem ipv4_iff {s : Str} : Ipv4 s ↔ isDotted s = true ∧ ∀ w ∈ split '.' s, digitsVal 10 w ≤ 255 := by
  rw [isDotted_iff]
  constructor
  · rintro ⟨a,b,c,d,rfl,h⟩
    have hs : split '.' (a ++ '.'::(b ++ '.'::(c ++ '.'::d))) = [a,b,c,d] :=
      split_groups (fun w hw => (h w (by simp at hw ⊢; tauto)).1.dot) (h d (by simp)).1.dot
    rw [hs]
    exact ⟨⟨a,b,c,d,rfl,fun w hw => (h w hw).1⟩,fun w hw => (h w hw).2⟩
  · rintro ⟨⟨a,b,c,d,hs,hw⟩,hv⟩
    rw [hs] at hv
    exact ⟨a,b,c,d,eq_of_split hs,fun w hm => ⟨hw w hm,hv w hm⟩⟩

theorem Group.leading {w : Str} (h : Group w) : leading w = digitsVal 10 w := by
  rw [AddressChecks.leading,List.takeWhile_eq_self_iff.mpr h.digits]

theorem Group.leading_newline {w : Str} (h : Group w) : AddressChecks.leading (w ++ ['\n']) = digitsVal 10 w := by
  rw [AddressChecks.leading,List.takeWhile_append_of_pos h.digits]
  simp [show digit '\n' = false from rfl]

theorem zeroFirst_eq {s t : Str} (h : isDotted s = true) : zeroFirst (s ++ t) = decide (s.head? = some '0') := by
  obtain ⟨a,b,c,d,hs,hw⟩ := isDotted_iff.mp h
  have ha := (hw a (by simp)).pos
  rw [eq_of_split hs]
  obtain ⟨x,a,rfl⟩ := List.exists_cons_of_ne_nil (List.length_pos_iff.mp ha)
  simp only [zeroFirst,List.cons_append,List.head?_cons]
  refine Bool.and_eq_left_iff_imp.mpr fun _ => decide_eq_true ?_
  simp only [List.length_cons,List.length_append]
  omega

theorem isDotted_newline {t : Str} : isDotted (t ++ ['\n']) = false := by
  by_contra h
  have hn := Ipcalc.newline_dotted (Bool.eq_true_of_not_eq_false h)
  simp at hn

theorem checkIpv4_of {s ip : Str} (hu : unended ip = s) (hz : isDotted s = true → zeroFirst ip = decide (s.head? = some '0'))
    (hl : isDotted s = true → (split '.' ip).map leading = (split '.' s).map (digitsVal 10)) : checkIpv4 ip = true ↔
      isDotted s = true ∧ (s.head? = some '0' ∨ ∀ w ∈ split '.' s, digitsVal 10 w ≤ 255) := by
  rw [checkIpv4,hu]
  by_cases hd : isDotted s = true
  · have ha : ((split '.' ip).all fun octet => !(leading octet > 255)) = true ↔ ∀ w ∈ split '.' s, digitsVal 10 w ≤ 255 := by
      rw [List.all_eq_true,← List.forall_mem_map (P := fun n => n ≤ 255),← hl hd,List.forall_mem_map]
      simp
    rw [if_pos hd,hz hd]
    by_cases h0 : s.head? = some '0'
    · simp [h0,hd]
    · simp [h0,hd,ha]
  · simp [hd]

theorem checkIpv4_plain {s : Str} (h : s.getLast? ≠ some '\n') : checkIpv4 s = true ↔
    isDotted s = true ∧ (s.head? = some '0' ∨ ∀ w ∈ split '.' s, digitsVal 10 w ≤ 255) := by
  refine checkIpv4_of (if_neg h) (fun hd => ?_) fun hd => ?_
  · have := zeroFirst_eq (t := []) hd
    rwa [List.append_nil] at this
  · obtain ⟨a,b,c,d,hs,hw⟩ := isDotted_iff.mp hd
    rw [hs]
    exact List.map_congr_left fun w hm => (hw w hm).leading

theorem checkIpv4_newline (t : Str) : checkIpv4 (t ++ ['\n']) = true ↔
    isDotted t = true ∧ (t.head? = some '0' ∨ ∀ w ∈ split '.' t, digitsVal 10 w ≤ 255) := by
  refine checkIpv4_of (by simp [unended]) zeroFirst_eq fun hd => ?_
  obtain ⟨a,b,c,d,hs,hw⟩ := isDotted_iff.mp hd
  simp only [List.forall_mem_cons] at hw
  have he : t ++ ['\n'] = a ++ '.'::(b ++ '.'::(c ++ '.'::(d ++ ['\n']))) := by
    rw [eq_of_split hs]
    simp
  rw [he,hs,split_groups]
  · simp [hw.1.leading,hw.2.1.leading,hw.2.2.1.leading,hw.2.2.2.1.leading_newline]
  · simpa using ⟨hw.1.dot,hw.2.1.dot,hw.2.2.1.dot⟩
  · simpa using hw.2.2.2.1.dot

theorem ipv4_exact_iff (s : Str) : (checkIpv4 s = true ↔ Ipv4 s) ↔ Sound4 s := by
  rw [ipv4_iff]
  by_cases hn : s.getLast? = some '\n'
  · obtain ⟨t,rfl⟩ : ∃ t, s = t ++ ['\n'] := List.getLast?_eq_some_iff.mp hn
    have hf : ∀ {p : Prop}, (isDotted (t ++ ['\n']) = true ∧ p) ↔ False := by simp [isDotted_newline]
    rw [checkIpv4_newline,hf,iff_false]
    constructor
    · intro h
      refine ⟨fun _ hd => ?_,fun hd => absurd hd (by simp [isDotted_newline])⟩
      rw [List.dropLast_concat] at hd ⊢
      have hne : t ≠ [] := by
        rintro rfl
        cases hd
      rw [List.head?_append_of_ne_nil _ hne]
      by_contra hc
      refine h ⟨hd,?_⟩
      by_contra ho
      rw [not_or] at ho
      exact hc ⟨ho.1,by simpa using ho.2⟩
    · rintro h ⟨hd,ho⟩
      obtain ⟨h0,w,hw,hv⟩ := h.newline hn (by rwa [List.dropLast_concat])
      rw [List.dropLast_concat] at hw
      rcases ho with ho | ho
      · exact h0 (by rw [List.head?_append,ho]; rfl)
      · exact absurd (ho w hw) (by omega)
  · rw [checkIpv4_plain hn]
    constructor
    · intro h
      exact ⟨fun hn' => absurd hn' hn,fun hd h0 => (h.mp ⟨hd,.inl h0⟩).2⟩
    · intro h
      refine and_congr_right fun hd => ⟨?_,.inr⟩
      rintro (h0 | hv)
      · exact h.zero hd h0
      · exact hv

-- Hardware addresses. A text of digits and separators is cut into groups of at most two digits, and a group ends behind
-- a separator.
def Spelled (s : Str) : Prop := ∀ c ∈ s, hexDigit c = true ∨ macSep c = true

/-- How many groups more are needed, when `k` digits are in the present one. -/
def more : ℕ → Str → ℕ
  | _, [] => 0
  | k, c::s => if macSep c then more 0 s + 1 else if k < 2 then more (k + 1) s else more 1 s + 1

def Thirds (s : Str) : Prop := ∀ i (h : i < s.length), macSep s[i] = true ↔ i % 3 = 2

/-- Seven groups suffice, for 17 characters or for what stands before a newline; but then it is no newline, and the
separators are each third character. -/
def SoundMac (s : Str) : Prop :=
  s.length = 17 → ∀ t, (s = t ∨ s = t ++ ['\n']) → Spelled t → more 0 t + 1 ≤ 7 →
    s = t ∧ Thirds s

theorem not_sep {c : Char} (h : hexDigit c = true) : macSep c = false := by
  by_contra hs
  rw [Bool.not_eq_false] at hs
  simp only [macSep,Bool.or_eq_true,decide_eq_true_eq] at hs
  rcases hs with (rfl | rfl) | rfl <;> cases h

/-- One digit more in the present group saves nothing, and costs at most a group. -/
theorem more_step (s : Str) : ∀ k ≤ 1, more k s ≤ more (k + 1) s ∧ more (k + 1) s ≤ more k s + 1 := by
  induction s with
  | nil => simp [more]
  | cons c s ih =>
    intro k hk
    by_cases hc : macSep c = true
    · simp [more,hc]
    · have h₁ : more 1 s ≤ more 2 s ∧ more 2 s ≤ more 1 s + 1 := ih 1 le_rfl
      obtain rfl | rfl : k = 0 ∨ k = 1 := by omega
      · simpa [more,hc] using h₁
      · simp [more,hc]
        omega

theorem more_le (s : Str) {k : ℕ} (hk : k ≤ 2) : more k s ≤ more 0 s + 1 := by
  cases s with
  | nil => simp [more]
  | cons c s =>
    by_cases hc : macSep c = true
    · simp [more,hc]
    · have h₁ : more 1 s ≤ more 2 s ∧ more 2 s ≤ more 1 s + 1 := more_step s 1 le_rfl
      obtain rfl | rfl | rfl : k = 0 ∨ k = 1 ∨ k = 2 := by omega
      · exact Nat.le_succ _
      · simp [more,hc]
        omega
      · simp [more,hc]

theorem more_digits {w : Str} (hw : ∀ c ∈ w, hexDigit c = true) {k : ℕ} (hk : k + w.length ≤ 2) (t : Str) :
    more k (w ++ t) = more (k + w.length) t := by
  induction w generalizing k with
  | nil => rfl
  | cons c w ih =>
    obtain ⟨hc,hw⟩ := List.forall_mem_cons.mp hw
    rw [List.length_cons] at hk
    rw [List.cons_append,more,not_sep hc,if_neg (by simp),if_pos (by omega),ih hw (by omega),List.length_cons,
      Nat.add_right_comm,Nat.add_assoc]

structure Short (w : Str) : Prop where
  digits : ∀ c ∈ w, hexDigit c = true
  length : w.length ≤ 2

theorem short_iff {s : Str} {P : ℕ → Bool} :
    ([0,1,2].any fun k => (s.take k).length = k && (s.take k).all hexDigit && P k) = true ↔
      ∃ w r, s = w ++ r ∧ Short w ∧ P w.length = true := by
  rw [List.any_eq_true]
  constructor
  · rintro ⟨k,hk,h⟩
    simp only [Bool.and_eq_true,decide_eq_true_eq,List.all_eq_true] at h
    refine ⟨s.take k,s.drop k,(List.take_append_drop k s).symm,⟨h.1.2,?_⟩,by rw [h.1.1]; exact h.2⟩
    rw [h.1.1]
    simp at hk
    omega
  · rintro ⟨w,r,rfl,⟨hw,hl⟩,hP⟩
    have hk : w.length = 0 ∨ w.length = 1 ∨ w.length = 2 := by omega
    refine ⟨w.length,by simpa using hk,?_⟩
    simpa [hP] using hw

theorem macGroups_zero {s : Str} : macGroups 0 s = true ↔ ∃ t, (s = t ∨ s = t ++ ['\n']) ∧ Short t := by
  refine short_iff.trans ⟨?_,?_⟩
  · rintro ⟨w,r,rfl,hw,h⟩
    rw [List.drop_left,Bool.or_eq_true,decide_eq_true_eq,decide_eq_true_eq] at h
    rcases h with rfl | rfl
    · exact ⟨w,.inl (List.append_nil w),hw⟩
    · exact ⟨w,.inr rfl,hw⟩
  · rintro ⟨t,rfl | rfl,ht⟩
    · exact ⟨s,[],(List.append_nil s).symm,ht,by simp⟩
    · exact ⟨t,_,rfl,ht,by simp⟩

theorem macGroups_succ {n : ℕ} {s : Str} : macGroups (n + 1) s = true ↔ ∃ w r, s = w ++ r ∧ Short w ∧
    (macGroups n r = true ∨ ∃ x u, r = x::u ∧ macSep x = true ∧ macGroups n u = true) := by
  refine short_iff.trans ⟨?_,?_⟩
  · rintro ⟨w,r,rfl,hw,h⟩
    refine ⟨w,r,rfl,hw,?_⟩
    rw [List.drop_left,Bool.or_eq_true,Bool.and_eq_true,List.drop_length_add_append] at h
    refine h.imp_right fun ⟨hx,hu⟩ => ?_
    cases r with
    | nil => cases hx
    | cons x u => exact ⟨x,u,rfl,hx,hu⟩
  · rintro ⟨w,r,rfl,hw,h⟩
    refine ⟨w,r,rfl,hw,?_⟩
    rw [List.drop_left,Bool.or_eq_true,Bool.and_eq_true,List.drop_length_add_append]
    refine h.imp_right ?_
    rintro ⟨x,u,rfl,hx,hu⟩
    exact ⟨hx,hu⟩

theorem more_short {w : Str} (hw : Short w) (t : Str) : more 0 (w ++ t) = more w.length t := by
  have := more_digits hw.digits (k := 0) (by rw [Nat.zero_add]; exact hw.length) t
  rwa [Nat.zero_add] at this

/-- The digits that the present group takes, when it takes all it can. -/
theorem exists_short {t : Str} (ht : Spelled t) : ∃ w u, t = w ++ u ∧ Short w ∧
    (u = [] ∨ (∃ x v, u = x::v ∧ macSep x = true) ∨ w.length = 2 ∧ ∃ x v, u = x::v ∧ macSep x = false) := by
  have hd : ∀ {c : Char}, (hexDigit c = true ∨ macSep c = true) → macSep c ≠ true → hexDigit c = true :=
    fun h hn => h.resolve_right hn
  match t, ht with
  | [], _ => exact ⟨[],[],rfl,⟨by simp,by simp⟩,.inl rfl⟩
  | a::t, ht =>
    obtain ⟨ha,ht⟩ := List.forall_mem_cons.mp ht
    by_cases hs : macSep a = true
    · exact ⟨[],a::t,rfl,⟨by simp,by simp⟩,.inr (.inl ⟨a,t,rfl,hs⟩)⟩
    · have ha := hd ha hs
      match t, ht with
      | [], _ => exact ⟨[a],[],rfl,⟨by simpa using ha,by simp⟩,.inl rfl⟩
      | b::t, ht =>
        obtain ⟨hb,ht⟩ := List.forall_mem_cons.mp ht
        by_cases hs : macSep b = true
        · exact ⟨[a],b::t,rfl,⟨by simpa using ha,by simp⟩,.inr (.inl ⟨b,t,rfl,hs⟩)⟩
        · have hw : Short [a,b] := ⟨by simpa using ⟨ha,hd hb hs⟩,le_rfl⟩
          match t with
          | [] => exact ⟨[a,b],[],rfl,hw,.inl rfl⟩
          | x::v =>
            by_cases hx : macSep x = true
            · exact ⟨[a,b],x::v,rfl,hw,.inr (.inl ⟨x,v,rfl,hx⟩)⟩
            · exact ⟨[a,b],x::v,rfl,hw,.inr (.inr ⟨rfl,x,v,rfl,Bool.eq_false_iff.mpr hx⟩)⟩

theorem Short.spelled {w : Str} (hw : Short w) : Spelled w := fun c hc => .inl (hw.digits c hc)

theorem macGroups_iff {n : ℕ} {s : Str} : macGroups n s = true ↔
    ∃ t, (s = t ∨ s = t ++ ['\n']) ∧ Spelled t ∧ more 0 t ≤ n := by
  induction n generalizing s with
  | zero =>
    rw [macGroups_zero]
    refine exists_congr fun t => and_congr_right fun _ => ⟨fun ht => ⟨ht.spelled,?_⟩,?_⟩
    · have := more_short ht []
      rw [List.append_nil] at this
      rw [this,more]
    · rintro ⟨ht,hm⟩
      obtain ⟨w,u,rfl,hw,h⟩ := exists_short ht
      rw [more_short hw] at hm
      rcases h with rfl | ⟨x,v,rfl,hx⟩ | ⟨h2,x,v,rfl,hx⟩
      · rwa [List.append_nil]
      · rw [more,if_pos hx] at hm
        omega
      · rw [more,hx,h2] at hm
        simp at hm
  | succ n ih =>
    rw [macGroups_succ]
    simp only [ih]
    constructor
    · rintro ⟨w,r,rfl,hw,⟨t,hr,ht,hm⟩ | ⟨x,u,rfl,hx,t,hr,ht,hm⟩⟩
      · refine ⟨w ++ t,?_,?_,?_⟩
        · rcases hr with rfl | rfl
          · exact .inl rfl
          · exact .inr (List.append_assoc ..).symm
        · exact List.forall_mem_append.mpr ⟨fun c hc => .inl (hw.digits c hc),ht⟩
        · rw [more_short hw]
          have := more_le t hw.length
          omega
      · refine ⟨w ++ x::t,?_,?_,?_⟩
        · rcases hr with rfl | rfl
          · exact .inl rfl
          · exact .inr (by simp)
        · exact List.forall_mem_append.mpr ⟨fun c hc => .inl (hw.digits c hc),List.forall_mem_cons.mpr ⟨.inr hx,ht⟩⟩
        · rw [more_short hw,more,if_pos hx]
          omega
    · rintro ⟨t,hs,ht,hm⟩
      obtain ⟨w,u,rfl,hw,h⟩ := exists_short ht
      obtain ⟨-,hu⟩ := List.forall_mem_append.mp ht
      rw [more_short hw] at hm
      rcases h with rfl | ⟨x,v,rfl,hx⟩ | ⟨h2,x,v,rfl,hx⟩
      · refine ⟨w,[] ++ s.drop w.length,?_,hw,.inl ⟨[],?_,hu,Nat.zero_le _⟩⟩ <;> rcases hs with rfl | rfl <;> simp
      · rw [more,if_pos hx] at hm
        refine ⟨w,s.drop w.length,?_,hw,.inr ⟨x,(s.drop w.length).tail,?_,hx,v,?_,fun c hc => hu c (by simp [hc]),by omega⟩⟩ <;>
          rcases hs with rfl | rfl <;> simp
      · have hm' : more 0 (x::v) ≤ n := by
          rw [h2] at hm
          simp only [more,hx] at hm ⊢
          simpa using hm
        refine ⟨w,s.drop w.length,?_,hw,.inl ⟨x::v,?_,hu,hm'⟩⟩ <;> rcases hs with rfl | rfl <;> simp

theorem macGroups_pairs {n : ℕ} {s : Str} (h : Pairs n s) : macGroups n s = true := by
  induction h with
  | one ha hb =>
    refine macGroups_succ.mpr ⟨_,[],(List.append_nil _).symm,⟨by simpa using ⟨ha,hb⟩,le_rfl⟩,.inl (by decide)⟩
  | more ha hb hx hp ih => exact macGroups_succ.mpr ⟨[_,_],_,rfl,⟨by simpa using ⟨ha,hb⟩,le_rfl⟩,.inr ⟨_,_,rfl,hx,ih⟩⟩

theorem thirds_cons {a b x : Char} {s : Str} : Thirds (a::b::x::s) ↔
    macSep a = false ∧ macSep b = false ∧ macSep x = true ∧ Thirds s := by
  constructor
  · intro h
    refine ⟨Bool.eq_false_iff.mpr fun ha => ?_,Bool.eq_false_iff.mpr fun hb => ?_,(h 2 (by simp)).mpr rfl,fun i hi => ?_⟩
    · exact absurd ((h 0 (by simp)).mp ha) (by decide)
    · exact absurd ((h 1 (by simp)).mp hb) (by decide)
    · have := h (i + 3) (by simpa using hi)
      rwa [Nat.add_mod_right] at this
  · rintro ⟨ha,hb,hx,hs⟩ i hi
    match i with
    | 0 => simp [ha]
    | 1 => simp [hb]
    | 2 => simp [hx]
    | i + 3 =>
      rw [Nat.add_mod_right]
      exact hs i (by simpa using hi)

theorem Pairs.spelled {n : ℕ} {s : Str} (h : Pairs n s) : Spelled s := by
  induction h with
  | one ha hb => simp [Spelled,ha,hb]
  | more ha hb hx _ ih =>
    exact List.forall_mem_cons.mpr ⟨.inl ha,List.forall_mem_cons.mpr ⟨.inl hb,List.forall_mem_cons.mpr ⟨.inr hx,ih⟩⟩⟩

theorem Pairs.thirds {n : ℕ} {s : Str} (h : Pairs n s) : Thirds s := by
  induction h with
  | one ha hb =>
    intro i hi
    match i with
    | 0 => simp [not_sep ha]
    | 1 => simp [not_sep hb]
    | i + 2 => exact absurd hi (by simp)
  | more ha hb hx _ ih => exact thirds_cons.mpr ⟨not_sep ha,not_sep hb,hx,ih⟩

theorem pairs_of_thirds {n : ℕ} {s : Str} (hl : s.length = 3*n + 2) (hs : Spelled s) (ht : Thirds s) : Pairs (n + 1) s := by
  have hd : ∀ {c : Char}, (hexDigit c = true ∨ macSep c = true) → macSep c = false → hexDigit c = true :=
    fun h hn => h.resolve_right (by simp [hn])
  induction n generalizing s with
  | zero =>
    match s, hl with
    | [a,b], _ =>
      have ha : macSep a = false := Bool.eq_false_iff.mpr fun h => absurd ((ht 0 (by simp)).mp h) (by decide)
      have hb : macSep b = false := Bool.eq_false_iff.mpr fun h => absurd ((ht 1 (by simp)).mp h) (by decide)
      exact .one (hd (hs a (by simp)) ha) (hd (hs b (by simp)) hb)
  | succ n ih =>
    match s, hl with
    | a::b::x::s, hl =>
      obtain ⟨ha,hb,hx,ht⟩ := thirds_cons.mp ht
      refine .more (hd (hs a (by simp)) ha) (hd (hs b (by simp)) hb) hx (ih ?_ (fun c hc => hs c (by simp [hc])) ht)
      simp only [List.length_cons] at hl
      omega

theorem newline_not_spelled (t : Str) : ¬Spelled (t ++ ['\n']) := fun h =>
  absurd (h '\n' (by simp)) (by decide)

theorem mac_exact_iff (s : Str) : (checkMac s = true ↔ Mac s) ↔ SoundMac s := by
  rw [checkMac,Bool.and_eq_true,decide_eq_true_eq,macGroups_iff,Mac]
  constructor
  · rintro h hl t hst ht hm
    have hp := (h.mp ⟨hl,t,hst,ht,Nat.le_of_succ_le_succ hm⟩).2
    refine ⟨hst.resolve_right fun he => ?_,hp.thirds⟩
    rw [he] at hp
    exact newline_not_spelled t hp.spelled
  · intro h
    refine and_congr_right fun hl => ⟨?_,fun hp => macGroups_iff.mp (macGroups_pairs hp)⟩
    rintro ⟨t,hst,ht,hm⟩
    obtain ⟨rfl,hthird⟩ := h hl t hst ht (Nat.succ_le_succ hm)
    exact pairs_of_thirds hl ht hthird

/-- The two checks take just the addresses, of all texts, that these two conditions do not exclude. -/
theorem checks_exact_iff (s : Str) : Exact s ↔ Sound4 s ∧ SoundMac s := and_congr (ipv4_exact_iff s) (mac_exact_iff s)

/-- An octet of 300 behind a zero is let pass, a newline at the end, and a seventh pair of digits. -/
theorem let_pass : ¬Exact "0.300.1.1" ∧ checkIpv4 "0.300.1.1" = true ∧ checkIpv4 "1.2.3.4\n" = true ∧
    checkMac "aa:bb:cc:ddeeff11" = true := by
  have h : checkIpv4 "0.300.1.1" = true := by decide +kernel
  refine ⟨fun he => ?_,h,by decide +kernel,by decide +kernel⟩
  have hv := (ipv4_iff.mp (he.1.mp h)).2 "300" (by decide)
  exact absurd hv (by decide)

end AddressChecks
end Mybox
