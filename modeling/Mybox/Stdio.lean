import Mathlib.Algebra.Group.Int.Defs
import Mathlib.Algebra.Ring.Nat
import Mathlib.Data.List.DropRight
import Mathlib.Order.Lattice
import Mathlib.Tactic.Common

/-! Reading lines and scanning numbers and words, the way a program in C does it, and numbers written in
decimals. -/
namespace Mybox
namespace Stdio

abbrev Text := List Char

def isspace (c : Char) : Bool :=
  c = ' ' || c = '\t' || c = '\n' || c = '\x0b' || c = '\x0c' || c = '\r'

/-- What `fgets` hands out one after the other, with `size` characters at most in each; `room` more go behind
`cur`. -/
def pieces (size : ℕ) : ℕ → Text → Text → List Text
  | _, cur, [] => if cur = [] then [] else [cur]
  | room, cur, c::s =>
    if c = '\n' ∨ room ≤ 1 then (cur ++ [c])::pieces size size [] s else pieces size (room - 1) (cur ++ [c]) s

/-- What one call of `fgets` takes. -/
def fgets : ℕ → Text → Text
  | _, [] => []
  | room, c::s => if c = '\n' ∨ room ≤ 1 then [c] else c::fgets (room - 1) s

def strip (s : Text) : Text := (s.dropWhile isspace).rdropWhile isspace

def words : ℕ → Text → List Text
  | 0, _ => []
  | n + 1, s =>
    let t := s.dropWhile isspace
    if t = [] then [] else t.takeWhile (fun c => !isspace c)::words n (t.dropWhile fun c => !isspace c)

def natVal (ds : Text) : ℕ := Nat.ofDigitChars 10 ds 0

/-- An integer of 32 bits; what is too large is cut to the largest one. -/
def clamp (z : ℤ) : ℤ := max (-2^31) (min z (2^31 - 1))

def unsigned (s : Text) : Text := if s.head? = some '-' ∨ s.head? = some '+' then s.tail else s

def signed (s : Text) (n : ℕ) : ℤ := if s.head? = some '-' then -n else n

/-- `%d`: the number and what follows it. -/
def scanInt (s : Text) : Option (ℤ × Text) :=
  let t := s.dropWhile isspace
  let ds := (unsigned t).takeWhile Char.isDigit
  if ds = [] then none else some (clamp (signed t (natVal ds)),(unsigned t).dropWhile Char.isDigit)

def intText (z : ℤ) : Text := if z < 0 then '-'::Nat.toDigits 10 z.natAbs else Nat.toDigits 10 z.natAbs

/-- The numbers `%d` gives. -/
def IsInt (z : ℤ) : Prop := -2^31 ≤ z ∧ z < 2^31

instance (z : ℤ) : Decidable (IsInt z) := inferInstanceAs (Decidable (_ ∧ _))

def Solid (w : Text) : Prop := w ≠ [] ∧ ∀ c ∈ w, isspace c = false

instance (w : Text) : Decidable (Solid w) := inferInstanceAs (Decidable (_ ∧ _))

theorem pieces_line (size : ℕ) {t : Text} (hn : '\n' ∉ t) (s : Text) {room : ℕ} (hr : t.length < room) (cur : Text) :
    pieces size room cur (t ++ '\n'::s) = (cur ++ t ++ ['\n'])::pieces size size [] s := by
  induction t generalizing room cur with
  | nil => simp [pieces]
  | cons c t ih =>
    rw [List.mem_cons,not_or] at hn
    rw [List.length_cons] at hr
    have hc : ¬(c = '\n' ∨ room ≤ 1) := fun h => h.elim (fun h => hn.1 h.symm) fun h => by omega
    rw [List.cons_append,pieces,if_neg hc,ih hn.2 (by omega)]
    simp

theorem pieces_lines (size : ℕ) {ts : List Text} (h : ∀ t ∈ ts, '\n' ∉ t ∧ t.length < size) :
    pieces size size [] (ts.flatMap (· ++ ['\n'])) = ts.map (· ++ ['\n']) := by
  induction ts with
  | nil => simp [pieces]
  | cons t ts ih =>
    obtain ⟨hn,hl⟩ := h t (by simp)
    rw [List.flatMap_cons,List.append_assoc,List.singleton_append,pieces_line size hn _ hl,
      ih fun u hu => h u (List.mem_cons_of_mem t hu)]
    rfl

theorem fgets_length_le (room : ℕ) (s : Text) : (fgets room s).length ≤ s.length := by
  induction s generalizing room with
  | nil => simp [fgets]
  | cons c s ih =>
    unfold fgets
    split
    · simp
    · simpa using ih (room - 1)

theorem pieces_fgets (size room : ℕ) (cur : Text) {s : Text} (h : s ≠ []) :
    pieces size room cur s = (cur ++ fgets room s)::pieces size size [] (s.drop (fgets room s).length) := by
  induction s generalizing room cur with
  | nil => exact absurd rfl h
  | cons c s ih =>
    rw [pieces,fgets]
    split
    · simp
    · by_cases hs : s = []
      · subst hs
        simp [pieces,fgets]
      · rw [ih (room - 1) (cur ++ [c]) hs]
        simp

/-- A text that ends with a line break is read before what follows it. -/
theorem pieces_append (size room : ℕ) (cur : Text) {s : Text} (h : s.getLast? = some '\n') (t : Text) :
    pieces size room cur (s ++ t) = pieces size room cur s ++ pieces size size [] t := by
  induction s generalizing room cur with
  | nil => cases h
  | cons c s ih =>
    rw [List.cons_append,pieces,pieces]
    by_cases hs : s = []
    · subst hs
      obtain rfl : c = '\n' := by simpa using h
      simp [pieces]
    · have hl : s.getLast? = some '\n' := by
        rw [List.getLast?_cons_of_ne_nil hs] at h
        exact h
      split
      · rw [ih size [] hl]
        rfl
      · exact ih (room - 1) (cur ++ [c]) hl

/-- A text between black characters is what is left of it with a line break. -/
theorem strip_line {t : Text} (hh : ∀ c ∈ t.head?, isspace c = false) (hl : ∀ c ∈ t.getLast?, isspace c = false) :
    strip (t ++ ['\n']) = t := by
  cases t with
  | nil => simp [strip,isspace]
  | cons c t =>
    have hc := hh c (by simp)
    have hn : isspace '\n' = true := by decide
    rw [strip,List.cons_append,List.dropWhile_cons_of_neg (by simp [hc]),← List.cons_append,
      List.rdropWhile_concat_pos _ _ _ hn]
    refine List.rdropWhile_eq_self_iff.mpr fun hne => ?_
    rw [hl _ (List.getLast?_eq_some_getLast hne ▸ rfl)]
    exact Bool.false_ne_true

theorem words_solid {w : Text} (hw : Solid w) (n : ℕ) (s : Text) (hs : ∀ c ∈ s.head?, isspace c = true) :
    words (n + 1) (' '::(w ++ s)) = w::words n s := by
  obtain ⟨hne,hb⟩ := hw
  cases w with
  | nil => exact absurd rfl hne
  | cons c w =>
    have hc := hb c (by simp)
    have hd : (' '::((c::w) ++ s)).dropWhile isspace = (c::w) ++ s := by
      rw [List.dropWhile_cons_of_pos (by decide),List.cons_append,List.dropWhile_cons_of_neg (by simp [hc])]
    have hall : ∀ x ∈ c::w, (!isspace x) = true := fun x hx => by rw [hb x hx]; rfl
    have ht : s.takeWhile (fun c => !isspace c) = [] := by
      cases s with
      | nil => rfl
      | cons x s => rw [List.takeWhile_cons_of_neg (by simp [hs x (by simp)])]
    have hdr : s.dropWhile (fun c => !isspace c) = s := by
      cases s with
      | nil => rfl
      | cons x s => rw [List.dropWhile_cons_of_neg (by simp [hs x (by simp)])]
    simp only [words,hd,List.takeWhile_append_of_pos hall,List.dropWhile_append_of_pos hall,ht,hdr,List.append_nil]
    rw [if_neg (by simp)]

theorem clamp_eq {z : ℤ} (h : IsInt z) : clamp z = z := by
  unfold IsInt at h
  unfold clamp
  omega

theorem isInt_clamp (z : ℤ) : IsInt (clamp z) := by
  unfold IsInt clamp
  omega

theorem isInt_scanInt {s r : Text} {z : ℤ} (h : scanInt s = some (z,r)) : IsInt z := by
  unfold scanInt at h
  dsimp only at h
  split at h
  · cases h
  · simp only [Option.some.injEq,Prod.mk.injEq] at h
    rw [← h.1]
    exact isInt_clamp _

theorem digit_toDigits (n : ℕ) : ∀ c ∈ Nat.toDigits 10 n, c.isDigit = true :=
  fun _ hc => Nat.isDigit_of_mem_toDigits (by decide) (by decide) hc

theorem isspace_digit {c : Char} (h : c.isDigit = true) : isspace c = false := by
  rw [Bool.eq_false_iff]
  intro hs
  simp only [isspace,Bool.or_eq_true,decide_eq_true_eq] at hs
  rcases hs with ((((rfl | rfl) | rfl) | rfl) | rfl) | rfl <;> exact absurd h (by decide)

/-- A number that is written down is read back, up to what follows it. -/
theorem scanInt_intText {z : ℤ} (h : IsInt z) {r : Text} (hr : ∀ c ∈ r.head?, c.isDigit = false) :
    scanInt (intText z ++ r) = some (z,r) := by
  have htake : (Nat.toDigits 10 z.natAbs ++ r).takeWhile Char.isDigit = Nat.toDigits 10 z.natAbs := by
    rw [List.takeWhile_append_of_pos (digit_toDigits _)]
    cases r with
    | nil => simp
    | cons c r => rw [List.takeWhile_cons_of_neg (by simp [hr c (by simp)]),List.append_nil]
  have hdrop : (Nat.toDigits 10 z.natAbs ++ r).dropWhile Char.isDigit = r := by
    rw [List.dropWhile_append_of_pos (digit_toDigits _)]
    cases r with
    | nil => rfl
    | cons c r => rw [List.dropWhile_cons_of_neg (by simp [hr c (by simp)])]
  obtain ⟨d,ds,hds⟩ : ∃ d ds, Nat.toDigits 10 z.natAbs = d::ds := by
    cases hd : Nat.toDigits 10 z.natAbs with
    | nil => exact absurd hd Nat.toDigits_ne_nil
    | cons d ds => exact ⟨d,ds,rfl⟩
  have hd : d.isDigit = true := digit_toDigits z.natAbs d (by simp [hds])
  have hval : natVal (d::ds) = z.natAbs := by
    rw [← hds]
    exact Nat.ofDigitChars_ten_toDigits
  rw [hds] at htake hdrop
  unfold intText scanInt
  by_cases hz : z < 0
  · have hm : isspace '-' = false := by decide
    rw [if_pos hz,hds,List.cons_append,List.dropWhile_cons_of_neg (by simp [hm])]
    simp only [unsigned,signed,List.head?_cons,true_or,if_true,List.tail_cons,htake,hdrop,hval]
    rw [if_neg (by simp)]
    have he : -(z.natAbs : ℤ) = z := by omega
    rw [he,clamp_eq h]
  · have h₁ : d ≠ '-' := fun hc => by rw [hc] at hd; exact absurd hd (by decide)
    have h₂ : d ≠ '+' := fun hc => by rw [hc] at hd; exact absurd hd (by decide)
    rw [if_neg hz,hds,List.cons_append,List.dropWhile_cons_of_neg (by simp [isspace_digit hd])]
    simp only [unsigned,signed,List.head?_cons,Option.some.injEq,h₁,h₂,or_self,if_false]
    rw [← List.cons_append,htake,hdrop,hval,if_neg (by simp)]
    have he : (z.natAbs : ℤ) = z := by omega
    rw [he,clamp_eq h]

theorem intText_black (z : ℤ) : Solid (intText z) := by
  have hm : isspace '-' = false := by decide
  have hd : ∀ n, Solid (Nat.toDigits 10 n) :=
    fun n => ⟨Nat.toDigits_ne_nil,fun c hc => isspace_digit (digit_toDigits n c hc)⟩
  unfold intText
  split
  · refine ⟨by simp,fun c hc => ?_⟩
    rcases List.mem_cons.mp hc with rfl | hc
    · exact hm
    · exact (hd _).2 c hc
  · exact hd _

theorem length_intText {z : ℤ} (h : IsInt z) : (intText z).length ≤ 11 := by
  have hl : (Nat.toDigits 10 z.natAbs).length ≤ 10 := by
    refine (Nat.length_toDigits_le_iff (by decide) (by decide)).mpr ?_
    unfold IsInt at h
    omega
  unfold intText
  split
  · rw [List.length_cons]
    omega
  · omega

end Stdio
end Mybox
