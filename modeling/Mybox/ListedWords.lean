import Mybox.LineText

/-! Words in a list that is written as text: what replacing a word in the whole text does to the words that are listed. -/
namespace Mybox
namespace LineText

variable {α : Type} (blank : α → Bool)

/-- Something with no blank at either end. -/
structure Word (s : List α) : Prop where
  ne : s ≠ []
  stripped : Stripped blank s

variable {blank}

theorem Word.head {s : List α} (h : Word blank s) : ∃ a t, s = a::t ∧ ¬blank a := by
  obtain ⟨a,t,rfl⟩ := List.exists_cons_of_ne_nil h.ne
  exact ⟨a,t,rfl,((stripped_iff blank).mp h.stripped).1 a rfl⟩

theorem Word.last {s : List α} (h : Word blank s) : ∃ t a, s = t ++ [a] ∧ ¬blank a := by
  obtain ⟨t,a,rfl⟩ := (List.eq_nil_or_concat' s).resolve_left h.ne
  exact ⟨t,a,rfl,((stripped_iff blank).mp h.stripped).2 a (by simp)⟩

section Replace

variable [DecidableEq α] {old new : List α}

theorem replaceAll_same (ho : old ≠ []) (s : List α) : replaceAll old old s = s := by
  induction s using replaced_induction ho with
  | nil => rfl
  | found t ih => rw [replaceAll_prefix_append old ho rfl,ih]
  | skip a s hp ih => rw [replaceAll_cons old hp,ih]

theorem infix_replaceAll (ho : old ≠ []) {s : List α} (h : old <:+: s) : new <:+: replaceAll old new s := by
  induction s with
  | nil => exact absurd (List.infix_nil.mp h) ho
  | cons a s ih =>
    by_cases hp : old <+: a::s
    · obtain ⟨u,hu⟩ := hp
      rw [replaceAll_prefix_append new ho hu.symm]
      exact (List.prefix_append _ _).isInfix
    · rw [replaceAll_cons new hp]
      exact (ih ((List.infix_cons_iff.mp h).resolve_left hp)).trans (List.suffix_cons a _).isInfix

theorem countP_replaceAll_le (ho : old ≠ []) {p : α → Bool} (hn : ∀ a ∈ new, ¬ p a) (s : List α) :
    (replaceAll old new s).countP p ≤ s.countP p := by
  induction s using replaced_induction ho with
  | nil => exact le_rfl
  | found t ih =>
    rw [replaceAll_prefix_append new ho rfl,List.countP_append,List.countP_append,List.countP_eq_zero.mpr hn]
    omega
  | skip a s hp ih =>
    rw [replaceAll_cons new hp,List.countP_cons,List.countP_cons]
    omega

/-- A text changes with each word in it that is replaced by another. -/
theorem replaceAll_ne (ho : old ≠ []) (hne : new ≠ old) {s : List α} (h : old <:+: s) : replaceAll old new s ≠ s := by
  induction s with
  | nil => exact absurd (List.infix_nil.mp h) ho
  | cons a s ih =>
    by_cases hp : old <+: a::s
    · obtain ⟨u,hu⟩ := hp
      rw [replaceAll_prefix_append new ho hu.symm]
      intro he
      have hl : new.length = old.length := by
        have hlen := congrArg List.length (he.trans hu.symm)
        simp only [List.length_append] at hlen
        rcases le_total new.length old.length with h | h
        · have := replaceAll_length_le new ho h u
          omega
        · have := le_replaceAll_length new ho h u
          omega
      exact hne (List.append_inj_left (he.trans hu.symm) hl)
    · rw [replaceAll_cons new hp]
      intro he
      exact ih ((List.infix_cons_iff.mp h).resolve_left hp) (List.cons.inj he).2

theorem replaceAll_eq_nil (ho : old ≠ []) (hn : new ≠ []) {s : List α} : replaceAll old new s = [] ↔ s = [] := by
  constructor
  · intro h
    cases s with
    | nil => rfl
    | cons a s =>
      by_cases hp : old <+: a::s
      · obtain ⟨u,hu⟩ := hp
        rw [replaceAll_prefix_append new ho hu.symm] at h
        exact absurd (List.append_eq_nil_iff.mp h).1 hn
      · rw [replaceAll_cons new hp] at h
        cases h
  · rintro rfl
    rfl

-- A blank before or behind a text is in none of the words that are replaced.
theorem replaceAll_cons_blank (ho : Word blank old) {b : α} (hb : blank b) (s : List α) :
    replaceAll old new (b::s) = b :: replaceAll old new s := by
  obtain ⟨a,t,rfl,ha⟩ := ho.head
  refine replaceAll_cons new fun hp => ?_
  rw [(List.cons_prefix_cons.mp hp).1] at ha
  exact ha hb

theorem replaceAll_concat_blank (ho : Word blank old) {b : α} (hb : blank b) (s : List α) :
    replaceAll old new (s ++ [b]) = replaceAll old new s ++ [b] := by
  obtain ⟨t,a,ht,ha⟩ := ho.last
  have hlast : ∀ u, old ≠ u ++ [b] := by
    intro u hu
    have hab := (List.append_inj' (ht.symm.trans hu) rfl).2
    rw [List.singleton_inj.mp hab] at ha
    exact ha hb
  induction s using replaced_induction ho.ne with
  | nil =>
    have hnil : replaceAll old new [b] = b :: replaceAll old new [] := replaceAll_cons_blank ho hb []
    simpa [replaceAll,replaceFrom] using hnil
  | found u ih =>
    rw [replaceAll_prefix_append new ho.ne rfl,List.append_assoc,replaceAll_prefix_append new ho.ne rfl,ih,
      List.append_assoc]
  | skip c s hp ih =>
    have hp' : ¬old <+: c::(s ++ [b]) := fun h => (List.prefix_concat_iff.mp h).elim (hlast _) hp
    rw [replaceAll_cons new hp,List.cons_append,replaceAll_cons new hp',ih,List.cons_append]

theorem replaceAll_head (ho : old ≠ []) (hn : Word blank new) {a : α} (ha : ¬blank a) (s : List α) :
    ∃ b t, replaceAll old new (a::s) = b::t ∧ ¬blank b := by
  by_cases hp : old <+: a::s
  · obtain ⟨u,hu⟩ := hp
    obtain ⟨b,t,hbt,hb⟩ := hn.head
    exact ⟨b,t ++ replaceAll old new u,by rw [replaceAll_prefix_append new ho hu.symm,hbt]; rfl,hb⟩
  · exact ⟨a,_,replaceAll_cons new hp,ha⟩

theorem replaceAll_last (ho : old ≠ []) (hn : Word blank new) {a : α} (ha : ¬blank a) (s : List α) :
    ∃ t b, replaceAll old new (s ++ [a]) = t ++ [b] ∧ ¬blank b := by
  induction hl : s.length using Nat.strong_induction_on generalizing s with
  | _ n ih =>
    obtain ⟨c,r,hcr⟩ := List.exists_cons_of_ne_nil (List.append_ne_nil_of_right_ne_nil s (List.cons_ne_nil a []))
    by_cases hp : old <+: s ++ [a]
    · obtain ⟨u,hu⟩ := hp
      rw [replaceAll_prefix_append new ho hu.symm]
      rcases List.eq_nil_or_concat' u with rfl | ⟨v,x,rfl⟩
      · obtain ⟨t,b,hbt,hb⟩ := hn.last
        exact ⟨t,b,by simp [replaceAll,replaceFrom,hbt],hb⟩
      · rw [← List.append_assoc] at hu
        obtain ⟨hov,hxa⟩ := List.append_inj' hu rfl
        obtain rfl := List.singleton_inj.mp hxa
        have hv : v.length < n := by
          have := congrArg List.length hov
          have := List.length_pos_iff.mpr ho
          simp only [List.length_append] at *
          omega
        obtain ⟨t,b,hbt,hb⟩ := ih v.length hv v rfl
        exact ⟨new ++ t,b,by rw [hbt,List.append_assoc],hb⟩
    · cases s with
      | nil =>
        rw [List.nil_append] at hp ⊢
        exact ⟨[],a,replaceAll_cons new hp,ha⟩
      | cons d s =>
        rw [List.cons_append] at hp ⊢
        obtain ⟨t,b,hbt,hb⟩ := ih s.length (by rw [← hl]; simp) s rfl
        exact ⟨d::t,b,by rw [replaceAll_cons new hp,hbt]; rfl,hb⟩

/-- The blanks around a text stay where they are. -/
theorem strip_replaceAll (ho : Word blank old) (hn : Word blank new) (s : List α) :
    strip blank (replaceAll old new s) = replaceAll old new (strip blank s) := by
  have hd : ∀ t, (replaceAll old new t).dropWhile blank = replaceAll old new (t.dropWhile blank) := by
    intro t
    induction t with
    | nil => rfl
    | cons a t ih =>
      by_cases ha : blank a
      · rw [replaceAll_cons_blank ho ha,List.dropWhile_cons_of_pos ha,List.dropWhile_cons_of_pos ha,ih]
      · obtain ⟨b,u,hbu,hb⟩ : ∃ b u, replaceAll old new (a::t) = b::u ∧ ¬blank b := replaceAll_head ho.ne hn ha t
        rw [List.dropWhile_cons_of_neg ha,hbu,List.dropWhile_cons_of_neg hb]
  have hr : ∀ t, (replaceAll old new t).rdropWhile blank = replaceAll old new (t.rdropWhile blank) := by
    intro t
    induction t using List.reverseRecOn with
    | nil => rfl
    | append_singleton t a ih =>
      by_cases ha : blank a
      · rw [replaceAll_concat_blank ho ha,List.rdropWhile_concat_pos _ _ _ ha,List.rdropWhile_concat_pos _ _ _ ha,ih]
      · obtain ⟨u,b,hbu,hb⟩ : ∃ u b, replaceAll old new (t ++ [a]) = u ++ [b] ∧ ¬blank b := replaceAll_last ho.ne hn ha t
        rw [List.rdropWhile_concat_neg _ _ _ ha,hbu,List.rdropWhile_concat_neg _ _ _ hb]
  rw [strip,hd,hr,strip]

variable (nl : α)

theorem splitOn_replaceAll (ho : old ≠ []) (hoc : nl ∉ old) (hnc : nl ∉ new) (s : List α) :
    (replaceAll old new s).splitOn nl = (s.splitOn nl).map (replaceAll old new) := by
  induction hl : s.length using Nat.strong_induction_on generalizing s with
  | _ n ih =>
    by_cases hs : nl ∈ s
    · obtain ⟨u,v,rfl⟩ := List.append_of_mem hs
      simp only [List.length_append,List.length_cons] at hl
      rw [replaceAll_append_cons new ho hoc,List.splitOn_append_cons_self,List.splitOn_append_cons_self,
        List.map_append,ih u.length (by omega) u rfl,ih v.length (by omega) v rfl]
    · have hr : nl ∉ replaceAll old new s := fun h => (replaceAll_mem new h).elim hnc hs
      rw [List.splitOn_eq_singleton hs,List.splitOn_eq_singleton hr,List.map_singleton]

theorem lines_replaceAll (ho : Word blank old) (hn : Word blank new) (hoc : nl ∉ old) (hnc : nl ∉ new) (s : List α) :
    lines blank nl (replaceAll old new s) = (lines blank nl s).map (replaceAll old new) := by
  rw [lines,lines,splitOn_replaceAll nl ho.ne hoc hnc]
  induction s.splitOn nl with
  | nil => rfl
  | cons p ps ih =>
    simp only [List.map_cons,strip_replaceAll ho hn] at ih ⊢
    by_cases hp : strip blank p = []
    · simpa [hp,replaceAll,replaceFrom] using ih
    · have hp' : replaceAll old new (strip blank p) ≠ [] := fun h => hp ((replaceAll_eq_nil ho.ne hn.ne).mp h)
      simpa [hp,hp'] using ih

theorem not_mem_of_splitOn {s r : List α} (h : r ∈ s.splitOn nl) : nl ∉ r :=
  fun hc => (mem_splitOn nl h hc).2 rfl

variable (blank)

/-- The words of a list that is written with a separator behind each of them. -/
theorem lines_flatMap {ps : List (List α)} (h : ∀ p ∈ ps, nl ∉ p) :
    lines blank nl (ps.flatMap (· ++ [nl])) = (ps.map (strip blank)).filter (· ≠ []) := by
  induction ps with
  | nil => simp
  | cons p ps ih =>
    rw [List.forall_mem_cons] at h
    rw [List.flatMap_cons,List.append_assoc,List.singleton_append,lines_line blank nl h.1,ih h.2]
    by_cases hp : strip blank p = [] <;> simp [hp]

end Replace

end LineText
end Mybox
