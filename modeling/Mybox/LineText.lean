import Mathlib.Data.List.Basic
import Mathlib.Data.List.DropRight
import Mathlib.Data.List.Infix

/-! Text as a list of symbols: stripping blanks at both ends, and the stripped,
non-blank lines of a text. Which symbols are blank and which one ends a line are
parameters; the line end itself is blank. -/
namespace Mybox
namespace LineText

/-- What is asked of the symbols of a text is decided along the text, also where all symbols could be gone through. -/
instance (priority := 2000) decidableAll {α : Type} {p : α → Prop} [DecidablePred p] (s : List α) :
    Decidable (∀ a ∈ s, p a) :=
  List.decidableBAll p s

instance (priority := 2000) decidableEx {α : Type} {p : α → Prop} [DecidablePred p] (s : List α) :
    Decidable (∃ a ∈ s, p a) :=
  List.decidableBEx p s

instance (priority := 2000) decidableAllOption {α : Type} {p : α → Prop} [DecidablePred p] (o : Option α) :
    Decidable (∀ a ∈ o, p a) :=
  Option.decidableForallMem o

instance (priority := 2000) decidableExOption {α : Type} {p : α → Prop} [DecidablePred p] (o : Option α) :
    Decidable (∃ a ∈ o, p a) :=
  Option.decidableExistsMem o

instance lawfulBEqText : LawfulBEq (List Char) := inferInstance

variable {α : Type} (blank : α → Bool)

def strip (s : List α) : List α := (s.dropWhile blank).rdropWhile blank

def Stripped (s : List α) : Prop := strip blank s = s

instance [DecidableEq α] (s : List α) : Decidable (Stripped blank s) :=
  inferInstanceAs (Decidable (_ = _))

@[simp] theorem strip_nil : strip blank ([] : List α) = [] := rfl

theorem rdropWhile_cons_of_not {a : α} (ha : ¬ blank a) (s : List α) :
    (a::s).rdropWhile blank = a :: s.rdropWhile blank := by
  simp only [List.rdropWhile,List.reverse_cons,List.dropWhile_append]
  split
  · rename_i h
    simp only [List.isEmpty_iff] at h
    simp [h,ha]
  · simp

theorem strip_cons_of_not {a : α} (ha : ¬ blank a) (s : List α) :
    strip blank (a::s) = a :: s.rdropWhile blank := by
  rw [strip,List.dropWhile_cons_of_neg ha,rdropWhile_cons_of_not blank ha]

theorem strip_reverse (s : List α) : strip blank s.reverse = (strip blank s).reverse := by
  have hd : ∀ t : List α, (t.reverse.dropWhile blank) = (t.rdropWhile blank).reverse := by
    intro t; simp [List.rdropWhile]
  have hc : ∀ t : List α, (t.rdropWhile blank).dropWhile blank = (t.dropWhile blank).rdropWhile blank := by
    intro t
    induction t with
    | nil => rfl
    | cons a t ih =>
      by_cases ha : blank a
      · by_cases ht : ∀ x ∈ t, blank x
        · have hall : ∀ x ∈ a::t, blank x := by simpa [ha] using ht
          rw [List.rdropWhile_eq_nil_iff.mpr hall,List.dropWhile_cons_of_pos ha]
          simp [List.dropWhile_eq_nil_iff.mpr ht]
        · have hne : t.rdropWhile blank ≠ [] := by
            intro h; exact ht (List.rdropWhile_eq_nil_iff.mp h)
          have hr : (a::t).rdropWhile blank = a :: t.rdropWhile blank := by
            simp only [List.rdropWhile,List.reverse_cons,List.dropWhile_append] at hne ⊢
            split
            · rename_i h; simp at hne h; exact absurd h (by simpa using hne)
            · simp
          rw [hr,List.dropWhile_cons_of_pos ha,List.dropWhile_cons_of_pos ha,ih]
      · have hr := rdropWhile_cons_of_not blank ha t
        rw [hr,List.dropWhile_cons_of_neg ha,List.dropWhile_cons_of_neg ha,hr]
  unfold strip
  rw [hd,List.rdropWhile_reverse,hc]

theorem strip_mem {s : List α} {a : α} (h : a ∈ strip blank s) : a ∈ s :=
  (List.dropWhile_sublist _).mem ((List.rdropWhile_prefix _ _).sublist.mem h)

theorem strip_cons_blank {a : α} (ha : blank a) (s : List α) :
    strip blank (a::s) = strip blank s := by
  simp [strip,List.dropWhile_cons_of_pos ha]

theorem strip_concat_blank {a : α} (ha : blank a) (s : List α) :
    strip blank (s ++ [a]) = strip blank s := by
  have h := strip_cons_blank blank ha s.reverse
  rw [strip_reverse] at h
  rw [← List.reverse_inj,← h,← strip_reverse]
  simp

@[simp] theorem strip_strip (s : List α) : strip blank (strip blank s) = strip blank s := by
  have hd : (strip blank s).dropWhile blank = strip blank s := by
    cases hs : strip blank s with
    | nil => rfl
    | cons a t =>
      rw [List.dropWhile_cons_of_neg]
      have hp : strip blank s <+: s.dropWhile blank := List.rdropWhile_prefix _ _
      have hne : s.dropWhile blank ≠ [] := by
        intro h; rw [h] at hp; simp [hs] at hp
      have hh := List.head_dropWhile_not (p:=blank) (l:=s) hne
      obtain ⟨r,hr⟩ := hp
      rw [hs] at hr
      simpa [← hr] using hh
  have hr : (strip blank s).rdropWhile blank = strip blank s :=
    List.rdropWhile_idempotent _ _
  rw [strip,hd,hr]

theorem stripped_strip (s : List α) : Stripped blank (strip blank s) := strip_strip blank s

theorem stripped_iff {s : List α} : Stripped blank s ↔
    (∀ a ∈ s.head?, ¬ blank a) ∧ ∀ a ∈ s.getLast?, ¬ blank a := by
  constructor
  · intro h
    have hl : s.rdropWhile blank = s := by
      rw [← h]; exact List.rdropWhile_idempotent _ _
    have hf : s.dropWhile blank = s := by
      have hlen := congrArg List.length (show strip blank s = s from h)
      have h₁ := (List.rdropWhile_prefix blank (s.dropWhile blank)).length_le
      have h₂ := List.dropWhile_suffix blank (l:=s)
      unfold strip at hlen
      exact h₂.eq_of_length_le (by omega)
    constructor
    · intro a ha hb
      cases s with
      | nil => simp at ha
      | cons c t =>
        simp only [List.head?_cons,Option.mem_some_iff] at ha
        subst ha
        rw [List.dropWhile_cons_of_pos hb] at hf
        have hlen := congrArg List.length hf
        have h₁ := (List.dropWhile_suffix blank (l:=t)).length_le
        simp at hlen; omega
    · intro a ha
      have hne : s ≠ [] := by rintro rfl; simp at ha
      have hla := List.rdropWhile_eq_self_iff.mp hl hne
      rw [List.getLast?_eq_some_getLast hne,Option.mem_some_iff] at ha
      simpa [← ha] using hla
  · rintro ⟨hh,hl⟩
    have hf : s.dropWhile blank = s := by
      cases s with
      | nil => rfl
      | cons c t => exact List.dropWhile_cons_of_neg (hh c (by simp))
    rw [Stripped,strip,hf,List.rdropWhile_eq_self_iff]
    intro hne
    exact hl _ (by rw [List.getLast?_eq_some_getLast hne]; simp)

section Replace

variable [DecidableEq α]

/-- Scan from the left; the counter skips the rest of an occurrence just replaced. -/
def replaceFrom (old new : List α) : ℕ → List α → List α
  | _, [] => []
  | n+1, _::s => replaceFrom old new n s
  | 0, a::s =>
    if old.isPrefixOf (a::s) then new ++ replaceFrom old new (old.length - 1) s
    else a :: replaceFrom old new 0 s

/-- Every occurrence of a non-empty word replaced, left to right without overlap. -/
def replaceAll (old new s : List α) : List α := replaceFrom old new 0 s

variable {old : List α} (new : List α)

theorem replaceFrom_drop (n : ℕ) (s : List α) :
    replaceFrom old new n s = replaceAll old new (s.drop n) := by
  induction n generalizing s with
  | zero => rfl
  | succ n ih =>
    cases s with
    | nil => simp [replaceFrom,replaceAll]
    | cons a s => simp [replaceFrom,ih]

theorem replaceAll_prefix_append (h : old ≠ []) {s t : List α} (hs : s = old ++ t) :
    replaceAll old new s = new ++ replaceAll old new t := by
  subst hs
  obtain ⟨a,l,rfl⟩ := List.exists_cons_of_ne_nil h
  have hp : (a::l).isPrefixOf (a::(l ++ t)) = true := by simp
  simp only [List.cons_append,replaceAll,replaceFrom]
  rw [if_pos hp,replaceFrom_drop]
  simp [replaceAll]

theorem replaceAll_cons {a : α} {s : List α} (h : ¬ old <+: a::s) :
    replaceAll old new (a::s) = a :: replaceAll old new s := by
  simp only [replaceAll,replaceFrom]
  rw [if_neg (by simpa using h)]

theorem replaceAll_of_not_infix {s : List α} (h : ¬ old <:+: s) : replaceAll old new s = s := by
  induction s with
  | nil => rfl
  | cons a s ih =>
    rw [replaceAll_cons new fun hp => h hp.isInfix,ih fun hi => h (hi.trans (List.suffix_cons a s).isInfix)]

theorem replaceAll_self (h : old ≠ []) : replaceAll old new old = new := by
  rw [replaceAll_prefix_append new h (List.append_nil old).symm]
  simp [replaceAll,replaceFrom]

omit [DecidableEq α] in
theorem prefix_of_not_mem {c : α} (hc : c ∉ old) {s t : List α} (h : old <+: s ++ c::t) : old <+: s := by
  rcases List.prefix_or_prefix_of_prefix h (List.prefix_append s (c::t)) with hp | ⟨r,rfl⟩
  · exact hp
  · cases r with
    | nil => simp
    | cons d r =>
      have hd : d = c := (List.cons_prefix_cons.mp ((List.prefix_append_right_inj s).mp h)).1
      exact absurd (hd ▸ by simp : c ∈ s ++ d::r) hc

/-- What holds of the empty text, behind each word that is found and behind each character that is passed over. -/
theorem replaced_induction {P : List α → Prop} (ho : old ≠ []) (nil : P []) (found : ∀ t, P t → P (old ++ t))
    (skip : ∀ a s, ¬ old <+: a::s → P s → P (a::s)) (s : List α) : P s := by
  induction hn : s.length using Nat.strong_induction_on generalizing s with
  | _ n ih =>
    cases s with
    | nil => exact nil
    | cons a s =>
      by_cases hp : old <+: a::s
      · obtain ⟨u,hu⟩ := hp
        have hl := congrArg List.length hu
        have hpos := List.length_pos_iff.mpr ho
        rw [List.length_append] at hl
        rw [← hu]
        exact found u (ih u.length (by omega) u rfl)
      · exact skip a s hp (ih s.length (by rw [← hn]; simp) s rfl)

/-- No occurrence reaches over a character the word does not have. -/
theorem replaceAll_append_cons (h : old ≠ []) {c : α} (hc : c ∉ old) (s t : List α) :
    replaceAll old new (s ++ c::t) = replaceAll old new s ++ c :: replaceAll old new t := by
  induction s using replaced_induction h with
  | nil =>
    have hp : ¬ old <+: c::t := by
      intro hp
      obtain ⟨a,l,rfl⟩ := List.exists_cons_of_ne_nil h
      rw [List.cons_prefix_cons] at hp
      exact hc (hp.1 ▸ List.mem_cons_self)
    simpa [replaceAll,replaceFrom] using replaceAll_cons new hp
  | found u ih =>
    rw [replaceAll_prefix_append new h rfl,List.append_assoc,replaceAll_prefix_append new h rfl,ih,List.append_assoc]
  | skip a s hp ih =>
    have hp' : ¬ old <+: a::(s ++ c::t) := fun hh => hp (prefix_of_not_mem hc (s:=a::s) hh)
    rw [replaceAll_cons new hp,List.cons_append,replaceAll_cons new hp',ih,List.cons_append]

theorem replaceAll_mem {s : List α} {c : α} (h : c ∈ replaceAll old new s) : c ∈ new ∨ c ∈ s := by
  have key : ∀ n, c ∈ replaceFrom old new n s → c ∈ new ∨ c ∈ s := by
    clear h
    induction s with
    | nil => intro n hn; simp [replaceFrom] at hn
    | cons a s ih =>
      intro n hn
      cases n with
      | succ n => exact (ih n hn).imp_right (List.mem_cons_of_mem a)
      | zero =>
        rw [replaceFrom] at hn
        split at hn
        · rcases List.mem_append.mp hn with hn | hn
          · exact Or.inl hn
          · exact (ih _ hn).imp_right (List.mem_cons_of_mem a)
        · rcases List.mem_cons.mp hn with rfl | hn
          · exact Or.inr List.mem_cons_self
          · exact (ih _ hn).imp_right (List.mem_cons_of_mem a)
  exact key 0 h

/-- The length changes by as much at every place that is replaced. -/
theorem replaceAll_length (h : old ≠ []) (s : List α) :
    ∃ k, (replaceAll old new s).length + k * old.length = s.length + k * new.length := by
  induction s using replaced_induction h with
  | nil => exact ⟨0,by simp [replaceAll,replaceFrom]⟩
  | found u ih =>
    obtain ⟨k,hk⟩ := ih
    refine ⟨k + 1,?_⟩
    rw [replaceAll_prefix_append new h rfl,List.length_append,List.length_append,Nat.succ_mul,Nat.succ_mul]
    omega
  | skip a s hp ih =>
    obtain ⟨k,hk⟩ := ih
    refine ⟨k,?_⟩
    rw [replaceAll_cons new hp,List.length_cons,List.length_cons]
    omega

theorem replaceAll_length_le (h : old ≠ []) (hl : new.length ≤ old.length) (s : List α) :
    (replaceAll old new s).length ≤ s.length := by
  obtain ⟨k,hk⟩ := replaceAll_length new h s
  have := Nat.mul_le_mul_left k hl
  omega

theorem le_replaceAll_length (h : old ≠ []) (hl : old.length ≤ new.length) (s : List α) :
    s.length ≤ (replaceAll old new s).length := by
  obtain ⟨k,hk⟩ := replaceAll_length new h s
  have := Nat.mul_le_mul_left k hl
  omega

theorem replaceAll_length_lt (h : old ≠ []) {s : List α} (hi : old <:+: s) :
    (replaceAll old [] s).length < s.length := by
  induction s with
  | nil => exact absurd (List.infix_nil.mp hi) h
  | cons a s ih =>
    by_cases hp : old <+: a::s
    · obtain ⟨u,hu⟩ := hp
      have hl := congrArg List.length hu
      have := List.length_pos_iff.mpr h
      have := replaceAll_length_le [] h (Nat.zero_le _) u
      simp only [List.length_append] at hl
      rw [replaceAll_prefix_append [] h hu.symm,List.nil_append]
      omega
    · have := ih ((List.infix_cons_iff.mp hi).resolve_left hp)
      rw [replaceAll_cons [] hp]
      simpa using this

end Replace

section Lines

variable [DecidableEq α] (nl : α)

/-- The stripped lines of a text, without those that strip to nothing. -/
def lines (s : List α) : List (List α) :=
  ((s.splitOn nl).map (strip blank)).filter (fun l => l ≠ [])

theorem mem_splitOn {s r : List α} {c : α} (h : r ∈ s.splitOn nl) (hc : c ∈ r) : c ∈ s ∧ c ≠ nl := by
  induction s generalizing r with
  | nil =>
    rw [List.splitOn_nil,List.mem_singleton] at h
    simp [h] at hc
  | cons d s ih =>
    rw [List.splitOn_cons_eq_if_modifyHead] at h
    split at h
    · rcases List.mem_cons.mp h with rfl | h
      · simp at hc
      · exact ⟨List.mem_cons_of_mem _ (ih h hc).1,(ih h hc).2⟩
    · rename_i hd
      obtain ⟨v,vs,hv⟩ := List.exists_cons_of_ne_nil (List.splitOn_ne_nil nl s)
      rw [hv,List.modifyHead_cons] at h
      rw [hv] at ih
      rcases List.mem_cons.mp h with rfl | h
      · rcases List.mem_cons.mp hc with rfl | hc
        · exact ⟨by simp,by simpa using hd⟩
        · exact ⟨List.mem_cons_of_mem _ (ih (by simp) hc).1,(ih (by simp) hc).2⟩
      · exact ⟨List.mem_cons_of_mem _ (ih (by simp [h]) hc).1,(ih (by simp [h]) hc).2⟩

@[simp] theorem lines_nil : lines blank nl [] = [] := by simp [lines]

theorem lines_append_nl (s t : List α) :
    lines blank nl (s ++ nl :: t) = lines blank nl s ++ lines blank nl t := by
  simp [lines,List.splitOn_append_cons_self,List.filter_append]

theorem lines_single {s : List α} (h : nl ∉ s) :
    lines blank nl s = if strip blank s = [] then [] else [strip blank s] := by
  rw [lines,List.splitOn_eq_singleton h]
  by_cases hs : strip blank s = [] <;> simp [hs]

theorem lines_line {s : List α} (h : nl ∉ s) (t : List α) :
    lines blank nl (s ++ nl :: t) =
      (if strip blank s = [] then [] else [strip blank s]) ++ lines blank nl t := by
  rw [lines_append_nl,lines_single blank nl h]

theorem mem_lines {s l : List α} (h : l ∈ lines blank nl s) :
    l ≠ [] ∧ Stripped blank l ∧ nl ∉ l := by
  simp only [lines,List.mem_filter,List.mem_map,decide_eq_true_eq] at h
  obtain ⟨⟨r,hr,rfl⟩,hne⟩ := h
  refine ⟨hne,stripped_strip blank r,fun hm => ?_⟩
  exact (mem_splitOn nl hr (strip_mem blank hm)).2 rfl

theorem lines_cons_of {a : α} (ha : blank a ∨ a = nl) (s : List α) : lines blank nl (a::s) = lines blank nl s := by
  by_cases h : a = nl
  · subst h
    simpa using lines_append_nl blank a [] s
  · obtain ⟨v,vs,hv⟩ := List.exists_cons_of_ne_nil (List.splitOn_ne_nil nl s)
    have ha' : (a == nl) = false := by simpa using h
    have hs : (a::s).splitOn nl = (a::v)::vs := by
      rw [List.splitOn_cons_eq_if_modifyHead,ha',hv]
      rfl
    simp only [lines,hs,hv,List.map_cons,strip_cons_blank blank (ha.resolve_right h)]

theorem lines_concat_of {a : α} (ha : blank a ∨ a = nl) (s : List α) : lines blank nl (s ++ [a]) = lines blank nl s := by
  by_cases h : a = nl
  · subst h
    simpa using lines_append_nl blank a s []
  · induction hn : s.length using Nat.strong_induction_on generalizing s with
    | _ n ih =>
      by_cases hs : nl ∈ s
      · obtain ⟨u,v,rfl⟩ := List.append_of_mem hs
        have hv := ih v.length (by simp at hn; omega) v rfl
        rw [List.append_assoc,List.cons_append,lines_append_nl,lines_append_nl,hv]
      · have hs' : nl ∉ s ++ [a] := by simp [hs,Ne.symm h]
        rw [lines_single blank nl hs',lines_single blank nl hs,strip_concat_blank blank (ha.resolve_right h)]

/-- Stripping a text of blanks or line ends leaves its lines as they are. -/
theorem lines_strip {p : α → Bool} (hp : ∀ a, p a → blank a ∨ a = nl) (s : List α) :
    lines blank nl (strip p s) = lines blank nl s := by
  have hd : ∀ t : List α, lines blank nl (t.dropWhile p) = lines blank nl t := by
    intro t
    induction t with
    | nil => rfl
    | cons a t ih =>
      by_cases ha : p a
      · rw [List.dropWhile_cons_of_pos ha,ih,lines_cons_of blank nl (hp a ha)]
      · rw [List.dropWhile_cons_of_neg ha]
  have hr : ∀ t : List α, lines blank nl (t.rdropWhile p) = lines blank nl t := by
    intro t
    induction t using List.reverseRecOn with
    | nil => rfl
    | append_singleton t a ih =>
      by_cases ha : p a
      · rw [List.rdropWhile_concat_pos _ _ _ ha,ih,lines_concat_of blank nl (hp a ha)]
      · rw [List.rdropWhile_concat_neg _ _ _ ha]
  rw [strip,hr,hd]

end Lines

theorem intercalate_concat {α : Type} (c : α) {ps : List (List α)} (h : ps ≠ []) :
    [c].intercalate ps ++ [c] = ps.flatMap (· ++ [c]) := by
  induction ps with
  | nil => exact absurd rfl h
  | cons p ps ih =>
    cases ps with
    | nil => simp
    | cons q ps =>
      rw [List.intercalate_cons_cons,List.flatMap_cons,← ih (by simp)]
      simp

end LineText
end Mybox
