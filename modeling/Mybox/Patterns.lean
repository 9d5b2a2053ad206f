import Mathlib.Data.List.TakeWhile
import Mathlib.Tactic.Common

/-! Patterns of characters and repeated classes, searched for in a text the way a backtracking engine
does: from left to right, every repetition as long as it can be at first. -/
namespace Mybox
namespace Patterns

abbrev Text := List Char

/-- A character, or a class of characters repeated at least once; what a class matches may be kept. -/
inductive Piece
  | char (c : Char)
  | plus (f : Char → Bool) (keep : Bool)

abbrev Pattern := List Piece

/-- The first success, from a number of characters down to one. -/
def longest {β : Type} (g : ℕ → Option β) : ℕ → Option β
  | 0 => none
  | n+1 => (g (n+1)).or (longest g n)

/-- What is kept when the text begins with the pattern. -/
def matchAt : Pattern → Text → Option (List Text)
  | [], _ => some []
  | .char _::_, [] => none
  | .char c::ps, d::s => if c = d then matchAt ps s else none
  | .plus f keep::ps, s =>
    longest (fun n => (matchAt ps (s.drop n)).map fun m => if keep then s.take n::m else m)
      (s.takeWhile f).length

def search (p : Pattern) : Text → Option (List Text)
  | [] => matchAt p []
  | c::s => (matchAt p (c::s)).or (search p s)

def word (w : Text) : Pattern := w.map .char

theorem matchAt_word (w : Text) (p : Pattern) (s : Text) :
    matchAt (word w ++ p) s = if w <+: s then matchAt p (s.drop w.length) else none := by
  induction w generalizing s with
  | nil => simp [word]
  | cons c w ih =>
    cases s with
    | nil => simp [word,matchAt]
    | cons d s =>
      by_cases h : c = d
      · subst h
        simp only [word,List.map_cons,List.cons_append,matchAt,if_true,List.cons_prefix_cons,true_and,
          List.length_cons,List.drop_succ_cons]
        exact ih s
      · simp [word,matchAt,h]

-- Repetitions take all they can when what follows cannot begin inside the class.
def Blocks (f : Char → Bool) (p : Pattern) : Prop := ∀ c s, f c = true → matchAt p (c::s) = none

theorem longest_none {β : Type} {g : ℕ → Option β} {n : ℕ} (h : ∀ k, 0 < k → k ≤ n → g k = none) :
    longest g n = none := by
  induction n with
  | zero => rfl
  | succ n ih =>
    rw [longest,h (n+1) (by omega) (by omega),ih fun k h₀ h₁ => h k h₀ (by omega)]
    rfl

theorem longest_last {β : Type} {g : ℕ → Option β} {n : ℕ} (h : ∀ k, 0 < k → k ≤ n → g k = none) :
    longest g (n+1) = g (n+1) := by
  rw [longest,longest_none h]
  cases g (n+1) <;> rfl

theorem split_class (f : Char → Bool) (s : Text) : ∃ w r, s = w ++ r ∧ s.takeWhile f = w ∧
    s.dropWhile f = r ∧ (∀ c ∈ w, f c = true) ∧ ∀ c ∈ r.head?, f c = false := by
  refine ⟨_,_,List.takeWhile_append_dropWhile.symm,rfl,rfl,fun _ hc => List.mem_takeWhile_imp hc,
    fun c hc => ?_⟩
  have hh := List.head?_dropWhile_not f s
  rw [Option.mem_def.mp hc] at hh
  exact hh

theorem takeWhile_stop {f : Char → Bool} {c : Char} (h : f c = false) (s t : Text) :
    (s ++ c::t).takeWhile f = s.takeWhile f := by
  rw [List.takeWhile_append]
  split
  · rename_i hl
    rw [List.takeWhile_cons_of_neg (by simp [h]),List.append_nil]
    exact ((List.takeWhile_sublist f).eq_of_length hl).symm
  · rfl

theorem prefix_stop {c : Char} {w s t : Text} (h : c ∉ w) : w <+: s ++ c::t ↔ w <+: s := by
  refine ⟨fun hp => ?_,fun hp => hp.trans (List.prefix_append s _)⟩
  rcases List.prefix_or_prefix_of_prefix hp (List.prefix_append s _) with hs | ⟨r,hr⟩
  · exact hs
  · subst hr
    rw [List.prefix_append_right_inj] at hp
    cases r with
    | nil => simp
    | cons d r =>
      rw [List.cons_prefix_cons] at hp
      exact absurd (by simp [hp.1]) h

theorem matchAt_plus {f : Char → Bool} {p : Pattern} (h : Blocks f p) (keep : Bool) (s : Text) :
    matchAt (.plus f keep::p) s = if s.takeWhile f = [] then none else
      (matchAt p (s.dropWhile f)).map fun m => if keep then s.takeWhile f::m else m := by
  change longest (fun n => (matchAt p (s.drop n)).map fun m => if keep then s.take n::m else m)
    (s.takeWhile f).length = _
  obtain ⟨w,r,hs,hw,hr,hf,-⟩ := split_class f s
  rw [hw,hr]
  cases hn : w.length with
  | zero =>
    rw [List.length_eq_zero_iff] at hn
    simp [hn,longest]
  | succ n =>
    have hne : w ≠ [] := by rintro rfl; simp at hn
    have hd : s.drop (n+1) = r := by rw [hs,← hn,List.drop_left' rfl]
    have ht : s.take (n+1) = w := by rw [hs,← hn,List.take_left' rfl]
    rw [longest_last,hd,ht,if_neg hne]
    intro k _ hk
    -- a shorter repetition leaves a character of the class in front
    obtain ⟨c,t,hc⟩ := List.exists_cons_of_ne_nil (show w.drop k ≠ [] by
      rw [ne_eq,List.drop_eq_nil_iff]; omega)
    have hm : f c = true := hf c (List.mem_of_mem_drop (by rw [hc]; simp))
    rw [hs,List.drop_append_of_le_length (by omega),hc,List.cons_append,h c _ hm]
    rfl

theorem class_append {f : Char → Bool} {x y : Text} (hx : ∀ c ∈ x, f c = true)
    (hy : ∀ c ∈ y.head?, f c = false) : (x ++ y).takeWhile f = x ∧ (x ++ y).dropWhile f = y := by
  induction x with
  | nil =>
    cases y with
    | nil => exact ⟨rfl,rfl⟩
    | cons c y =>
      have hc := hy c rfl
      exact ⟨List.takeWhile_cons_of_neg (by simp [hc]),List.dropWhile_cons_of_neg (by simp [hc])⟩
  | cons c x ih =>
    have hc := hx c (by simp)
    have hr := ih fun d hd => hx d (List.mem_cons_of_mem _ hd)
    rw [List.cons_append,List.takeWhile_cons_of_pos hc,List.dropWhile_cons_of_pos hc]
    exact ⟨by rw [hr.1],hr.2⟩

theorem matchAt_class {f : Char → Bool} {p : Pattern} (h : Blocks f p) (keep : Bool) {x y : Text}
    (hx : ∀ c ∈ x, f c = true) (hne : x ≠ []) (hy : ∀ c ∈ y.head?, f c = false) :
    matchAt (.plus f keep::p) (x ++ y) = (matchAt p y).map fun m => if keep then x::m else m := by
  obtain ⟨ht,hd⟩ := class_append hx hy
  rw [matchAt_plus h,ht,hd,if_neg hne]

theorem matchAt_class_none {f : Char → Bool} (p : Pattern) (keep : Bool) {y : Text}
    (hy : ∀ c ∈ y.head?, f c = false) : matchAt (.plus f keep::p) y = none := by
  have hz : y.takeWhile f = [] := (class_append (x:=[]) (by simp) hy).1
  change longest _ (y.takeWhile f).length = none
  rw [hz]
  rfl

theorem matchAt_words (w : Text) (p : Pattern) (s : Text) : matchAt (word w ++ p) (w ++ s) = matchAt p s := by
  rw [matchAt_word,if_pos (List.prefix_append w s),List.drop_left' rfl]

theorem matchAt_plus_last (f : Char → Bool) (s : Text) : matchAt [.plus f true] s =
    if s.takeWhile f = [] then none else some [s.takeWhile f] := by
  change longest (fun n => some [s.take n]) (s.takeWhile f).length = _
  obtain ⟨w,r,hs,hw,-⟩ := split_class f s
  rw [hw]
  cases hn : w.length with
  | zero =>
    rw [List.length_eq_zero_iff] at hn
    simp [hn,longest]
  | succ n =>
    have hne : w ≠ [] := by rintro rfl; simp at hn
    rw [longest,if_neg hne,hs,← hn,List.take_left' rfl]
    rfl

theorem blocks_char {f : Char → Bool} {c : Char} (h : f c = false) (p : Pattern) :
    Blocks f (.char c::p) := by
  intro d s hd
  have hne : c ≠ d := by rintro rfl; simp [h] at hd
  rw [matchAt,if_neg hne]

theorem blocks_plus {f g : Char → Bool} (h : ∀ c, f c = true → g c = false) (keep : Bool) (p : Pattern) :
    Blocks f (.plus g keep::p) := by
  intro d s hd
  change longest _ ((d::s).takeWhile g).length = none
  rw [List.takeWhile_cons_of_neg (by simp [h d hd])]
  rfl

/-- A text in front that does not have the first character of the pattern. -/
theorem search_skip {c : Char} {p : Pattern} {a : Text} (h : c ∉ a) (s : Text) :
    search (.char c::p) (a ++ s) = search (.char c::p) s := by
  induction a with
  | nil => rfl
  | cons d a ih =>
    rw [List.mem_cons,not_or] at h
    rw [List.cons_append,search,matchAt,if_neg h.1,ih h.2]
    rfl

theorem search_absent {c : Char} {p : Pattern} {a : Text} (h : c ∉ a) :
    search (.char c::p) a = none := by
  have hs := search_skip (p:=p) h []
  rw [List.append_nil] at hs
  rw [hs]
  rfl

/-- The pattern ends with a repetition kept, and a character is of no piece before. -/
inductive Spares (d : Char) (g : Char → Bool) : Pattern → Prop
  | last : Spares d g [.plus g true]
  | char {c : Char} {p : Pattern} : c ≠ d → Spares d g p → Spares d g (.char c::p)
  | plus {f : Char → Bool} {k : Bool} {p : Pattern} : f d = false → Spares d g p → Spares d g (.plus f k::p)

theorem takeWhile_append_stop {f : Char → Bool} {s t : Text} (h : ∃ d ∈ s, f d = false) :
    (s ++ t).takeWhile f = s.takeWhile f := by
  obtain ⟨d,hd,hf⟩ := h
  rw [List.takeWhile_append,if_neg]
  intro hl
  have he := List.takeWhile_eq_self_iff.mp ((List.takeWhile_sublist _).eq_of_length hl)
  simp [he d hd] at hf

/-- What follows the last repetition does not matter when it begins outside the class. -/
theorem matchAt_append {d : Char} {g : Char → Bool} {p : Pattern} (h : Spares d g p) {t : Text}
    (ht : ∀ c ∈ t.head?, g c = false) : ∀ {s : Text}, d ∈ s → matchAt p (s ++ t) = matchAt p s := by
  induction h with
  | last =>
    intro s _
    have hg : (s ++ t).takeWhile g = s.takeWhile g := by
      rw [List.takeWhile_append]
      split
      · rename_i hl
        have he := (List.takeWhile_sublist g).eq_of_length hl
        rw [he]
        cases t with
        | nil => simp
        | cons c t => rw [List.takeWhile_cons_of_neg (by simp [ht c (by simp)]),List.append_nil]
      · rfl
    rw [matchAt_plus_last,matchAt_plus_last,hg]
  | @char c p hc _ ih =>
    intro s hd
    cases s with
    | nil => simp at hd
    | cons e s =>
      rw [List.cons_append,matchAt,matchAt]
      split
      · rename_i he
        exact ih ((List.mem_cons.mp hd).resolve_left fun h => hc (he.trans h.symm))
      · rfl
  | @plus f k p hf _ ih =>
    intro s hd
    have hg : (s ++ t).takeWhile f = s.takeWhile f := takeWhile_append_stop ⟨d,hd,hf⟩
    change longest _ ((s ++ t).takeWhile f).length = longest _ (s.takeWhile f).length
    rw [hg]
    have hall : ∀ n, n ≤ (s.takeWhile f).length →
        longest (fun n => (matchAt p ((s ++ t).drop n)).map fun m => if k then (s ++ t).take n::m else m) n =
        longest (fun n => (matchAt p (s.drop n)).map fun m => if k then s.take n::m else m) n := by
      intro n
      induction n with
      | zero => exact fun _ => rfl
      | succ n ihn =>
        intro hn
        have hl : n + 1 ≤ s.length := hn.trans (List.takeWhile_sublist f).length_le
        have hm : d ∈ s.drop (n+1) := by
          obtain ⟨w,r,hs,hw,-,hfw,-⟩ := split_class f s
          rw [hw] at hn
          rw [hs,List.drop_append_of_le_length hn]
          rw [hs] at hd
          refine List.mem_append_right _ ((List.mem_append.mp hd).resolve_left fun h => ?_)
          simp [hfw d h] at hf
        rw [longest,longest,ihn (by omega),List.drop_append_of_le_length hl,List.take_append_of_le_length hl,
          ih hm]
    exact hall _ le_rfl

theorem search_append {d c : Char} {g : Char → Bool} {p : Pattern} (h : Spares d g (.char c::p))
    {b t : Text} (ht : ∀ c ∈ t.head?, g c = false) (hd : d ∈ b) (hb : c ∉ b) (hc : c ∉ t) (a : Text) :
    search (.char c::p) (a ++ (b ++ t)) = search (.char c::p) (a ++ b) := by
  induction a with
  | nil =>
    rw [List.nil_append,List.nil_append,search_absent hb,
      search_absent fun hm => (List.mem_append.mp hm).elim hb hc]
  | cons e a ih =>
    have hm := matchAt_append h ht (show d ∈ e::(a ++ b) from
      List.mem_cons_of_mem _ (List.mem_append_right _ hd))
    rw [List.cons_append,List.append_assoc] at hm
    rw [List.cons_append,List.cons_append,search,search,ih,hm]

end Patterns
end Mybox
