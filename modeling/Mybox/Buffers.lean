import Mathlib.Data.List.TakeWhile
import Mathlib.Data.List.Infix
import Mathlib.Tactic.Common

/-! Memory in blocks of cells, and texts in them that end at a terminator. What is stored outside a block has no
outcome. -/
namespace Mybox
namespace Buffers

variable {α : Type}

/-- What the allocator hands out: a block of at least as many cells as are asked for, whatever they hold. -/
structure Allocator (α : Type) where
  malloc : ℕ → Option (List α)
  le : ∀ {n b}, malloc n = some b → n ≤ b.length

/-- A block of another size that begins as the old one does. -/
def Allocator.realloc (m : Allocator α) (b : List α) (n : ℕ) : Option (List α) :=
  (m.malloc n).map fun c => b.take c.length ++ c.drop b.length

def store (b : List α) (i : ℕ) (a : α) : Option (List α) := if i < b.length then some (b.set i a) else none

/-- A text as it is handed over: no terminator in it. -/
abbrev CText (nul : α) := {s : List α // nul ∉ s}

/-- `strncpy(b + i, s, n)`: what is missing of `n` cells is filled up with terminators. -/
def strncpy (nul : α) (b : List α) (i : ℕ) (s : List α) (n : ℕ) : Option (List α) :=
  if i + n ≤ b.length then
    some (b.take i ++ (s.take n ++ List.replicate (n - s.length) nul) ++ b.drop (i + n))
  else none

theorem store_append (s t : List α) (a b : α) : store (s ++ b::t) s.length a = some (s ++ a::t) := by
  rw [store,if_pos (by simp)]
  simp

theorem Allocator.realloc_some {m : Allocator α} {s t c : List α} {n : ℕ} (h : m.realloc (s ++ t) n = some c)
    (hn : s.length ≤ n) : n ≤ c.length ∧ s <+: c := by
  obtain ⟨d,hd,rfl⟩ := Option.map_eq_some_iff.mp h
  have hl := m.le hd
  constructor
  · simp only [List.length_append,List.length_take,List.length_drop]
    omega
  · rw [List.take_append,List.take_of_length_le (by omega),List.append_assoc]
    exact List.prefix_append _ _

theorem strncpy_text (nul : α) {b s t : List α} (hs : s <+: b) (h : s.length + (t.length + 1) ≤ b.length) :
    strncpy nul b s.length t (t.length + 1) = some (s ++ (t ++ nul::b.drop (s.length + (t.length + 1)))) := by
  rw [strncpy,if_pos h,← List.prefix_iff_eq_take.mp hs]
  simp

theorem strncpy_take (nul : α) {b t : List α} {n : ℕ} (hb : n ≤ b.length) (ht : n ≤ t.length) :
    strncpy nul b 0 t n = some (t.take n ++ b.drop n) := by
  rw [strncpy,if_pos (by omega),Nat.sub_eq_zero_of_le ht]
  simp

variable [DecidableEq α] (nul : α)

def cstr (b : List α) : List α := b.takeWhile (· ≠ nul)

def strlen (b : List α) : Option ℕ := if nul ∈ b then some (cstr nul b).length else none

variable {nul}

theorem cstr_append {s : List α} (h : nul ∉ s) (t : List α) : cstr nul (s ++ nul::t) = s := by
  induction s with
  | nil => simp [cstr]
  | cons a s ih =>
    rw [List.mem_cons,not_or] at h
    have ha : a ≠ nul := fun he => h.1 he.symm
    simpa [cstr,ha] using ih h.2

theorem strlen_append {s : List α} (h : nul ∉ s) (t : List α) : strlen nul (s ++ nul::t) = some s.length := by
  rw [strlen,if_pos (by simp),cstr_append h]

section Strstr

variable (p : List α)

def strstr : List α → Option ℕ
  | [] => if p = [] then some 0 else none
  | a::s => if p <+: a::s then some 0 else (strstr s).map (· + 1)

variable {p}

theorem strstr_isSome {s : List α} : (strstr p s).isSome ↔ p <:+: s := by
  induction s with
  | nil => by_cases hp : p = [] <;> simp [strstr,hp]
  | cons a s ih =>
    rw [strstr]
    split
    next h => simpa using h.isInfix
    next h =>
      rw [Option.isSome_map,ih,List.infix_cons_iff]
      exact ⟨Or.inr,fun hi => hi.resolve_left h⟩

/-- What stands before the first place and behind it. -/
theorem strstr_some {s : List α} {i : ℕ} (h : strstr p s = some i) :
    s = s.take i ++ p ++ s.drop (i + p.length) ∧ i + p.length ≤ s.length ∧
      ∀ u v, s = u ++ p ++ v → i ≤ u.length := by
  induction s generalizing i with
  | nil =>
    rw [strstr] at h
    split at h
    next hp =>
      cases h
      simp [hp]
    next => cases h
  | cons a s ih =>
    rw [strstr] at h
    split at h
    next hp =>
      cases h
      obtain ⟨v,hv⟩ := hp
      rw [← hv]
      simp
    next hp =>
      obtain ⟨j,hj,rfl⟩ := Option.map_eq_some_iff.mp h
      obtain ⟨hs,hl,hfirst⟩ := ih hj
      have hd : (a::s).drop (j + 1 + p.length) = s.drop (j + p.length) := by
        rw [Nat.add_right_comm,List.drop_succ_cons]
      refine ⟨?_,by simp only [List.length_cons]; omega,?_⟩
      · rw [hd,List.take_succ_cons,List.cons_append,List.cons_append,← hs]
      · intro u v huv
        cases u with
        | nil => exact absurd ⟨v,huv.symm⟩ hp
        | cons b u =>
          obtain ⟨rfl,hu⟩ := List.cons.inj huv
          exact Nat.succ_le_succ (hfirst u v hu)

end Strstr

section Strtok

variable (ds : List α)

def tokens (s : List α) : List (List α) := (s.splitOnP (· ∈ ds)).filter (· ≠ [])

variable (nul) in
/-- `strtok` on the block from a place on: where the next token starts, the block with the token's end marked in it,
and the place to go on from. -/
def strtok (b : List α) (i : ℕ) : Option ℕ × List α × ℕ :=
  let i := i + ((b.drop i).takeWhile (· ∈ ds)).length
  let j := i + ((b.drop i).takeWhile fun c => c ∉ ds ∧ c ≠ nul).length
  if i = j then (none,b,i)
  else if b[j]? = some nul then (some i,b,j)
  else (some i,b.set j nul,j + 1)

variable {ds}

theorem tokens_delim {s : List α} {c : α} (h : c ∈ ds) : tokens ds (c::s) = tokens ds s := by
  simp [tokens,List.splitOnP_cons_eq_if_modifyHead,h]

theorem tokens_delims {d : List α} (h : ∀ c ∈ d, c ∈ ds) (s : List α) : tokens ds (d ++ s) = tokens ds s := by
  induction d with
  | nil => rfl
  | cons c d ih =>
    rw [List.forall_mem_cons] at h
    rw [List.cons_append,tokens_delim h.1,ih h.2]

theorem tokens_token {w r : List α} (hw : w ≠ []) (h : ∀ c ∈ w, c ∉ ds) (hr : ∀ c ∈ r.head?, c ∈ ds) :
    tokens ds (w ++ r) = w::tokens ds r := by
  have hp : ∀ c ∈ w, decide (c ∈ ds) = false := fun c hc => decide_eq_false (h c hc)
  cases r with
  | nil => simp [tokens,List.splitOnP_eq_singleton hp,hw]
  | cons c r =>
    have hc : c ∈ ds := hr c rfl
    rw [tokens_delim hc,tokens,List.splitOnP_append_cons _ _ (by simpa using hc),List.splitOnP_eq_singleton hp]
    simp [tokens,hw]

/-- A text has no token, or begins with the first of its tokens behind what separates them. -/
theorem split_token (ds : List α) (s : List α) : (∀ c ∈ s, c ∈ ds) ∨ ∃ d w r, s = d ++ (w ++ r) ∧ (∀ c ∈ d, c ∈ ds) ∧
    w ≠ [] ∧ (∀ c ∈ w, c ∉ ds) ∧ ∀ c ∈ r.head?, c ∈ ds := by
  by_cases hs : ∀ c ∈ s, c ∈ ds
  · exact Or.inl hs
  refine Or.inr ⟨s.takeWhile (· ∈ ds),(s.dropWhile (· ∈ ds)).takeWhile (· ∉ ds),
    (s.dropWhile (· ∈ ds)).dropWhile (· ∉ ds),?_,?_,?_,?_,?_⟩
  · rw [List.takeWhile_append_dropWhile,List.takeWhile_append_dropWhile]
  · intro c hc
    simpa using List.mem_takeWhile_imp hc
  · have hne : s.dropWhile (· ∈ ds) ≠ [] := by simpa [List.dropWhile_eq_nil_iff] using hs
    have hh := List.head_dropWhile_not (· ∈ ds) hne
    obtain ⟨a,t,ht⟩ := List.exists_cons_of_ne_nil hne
    simp only [ht,List.head_cons,decide_eq_false_iff_not] at hh
    simp [ht,hh]
  · intro c hc
    simpa using List.mem_takeWhile_imp hc
  · intro c hc
    have hne : (s.dropWhile (· ∈ ds)).dropWhile (· ∉ ds) ≠ [] := by
      rintro he
      rw [he] at hc
      cases hc
    have hh := List.head_dropWhile_not (fun c => decide (c ∉ ds)) hne
    rw [List.head?_eq_some_head hne] at hc
    rw [← Option.some.inj hc]
    simpa using hh

theorem tokens_nil : tokens ds [] = [] := by simp [tokens]

theorem length_tokens_le (s : List α) : (tokens ds s).length ≤ s.length := by
  induction hl : s.length using Nat.strong_induction_on generalizing s with
  | _ n ih =>
    rcases split_token ds s with hs | ⟨d,w,r,rfl,hd,hw,hn,hr⟩
    · have ht := tokens_delims hs []
      rw [List.append_nil,tokens_nil] at ht
      simp [ht]
    · have hw' := List.length_pos_iff.mpr hw
      simp only [List.length_append] at hl
      have := ih r.length (by omega) r rfl
      rw [tokens_delims hd,tokens_token hw hn hr,List.length_cons]
      omega

omit [DecidableEq α] in
theorem takeWhile_stop {p : α → Bool} {w r : List α} (hw : ∀ c ∈ w, p c) (hr : ∀ c ∈ r.head?, ¬p c) :
    (w ++ r).takeWhile p = w := by
  rw [List.takeWhile_append_of_pos hw]
  cases r with
  | nil => simp
  | cons c r => simp [hr c rfl]

/-- What `strtok` does behind `pre`, where `d` separates, `w` is the next token, if there is one, and `c` ends it. -/
theorem strtok_eq (pre : List α) {d w : List α} {c : α} (t : List α) (hd : ∀ a ∈ d, a ∈ ds)
    (hw : ∀ a ∈ w, a ∉ ds ∧ a ≠ nul) (hc : c ∈ ds ∨ c = nul) (h0 : w = [] → c ∉ ds) :
    strtok nul ds (pre ++ (d ++ (w ++ c::t))) pre.length =
      if w = [] then (none,pre ++ (d ++ (w ++ c::t)),(pre ++ d).length)
      else if c = nul then (some (pre ++ d).length,pre ++ (d ++ (w ++ c::t)),(pre ++ d ++ w).length)
      else (some (pre ++ d).length,pre ++ (d ++ (w ++ nul::t)),(pre ++ d ++ w).length + 1) := by
  have h₁ : (d ++ (w ++ c::t)).takeWhile (· ∈ ds) = d := by
    refine takeWhile_stop (by simpa using hd) ?_
    cases w with
    | nil => simpa using h0 rfl
    | cons a w => simpa using (hw a (by simp)).1
  have h₂ : (w ++ c::t).takeWhile (fun a => a ∉ ds ∧ a ≠ nul) = w :=
    takeWhile_stop (by simpa using hw) (by simpa [or_iff_not_imp_left] using hc)
  have hj : (pre ++ (d ++ (w ++ c::t)))[(pre ++ d ++ w).length]? = some c := by
    rw [← List.append_assoc,← List.append_assoc,List.getElem?_append_right le_rfl]
    simp
  have hs : (pre ++ (d ++ (w ++ c::t))).set (pre ++ d ++ w).length nul = pre ++ (d ++ (w ++ nul::t)) := by
    rw [← List.append_assoc,← List.append_assoc,List.set_append_right _ _ le_rfl]
    simp
  have hi : (pre ++ d).length = (pre ++ d ++ w).length ↔ w = [] := by simp [List.length_append]
  have hdr : (pre ++ (d ++ (w ++ c::t))).drop (pre ++ d).length = w ++ c::t := by
    rw [← List.append_assoc,List.drop_left]
  rw [strtok,List.drop_left,h₁,← List.length_append,hdr,h₂,← List.length_append,hj,hs]
  simp only [hi,Option.some.injEq]

theorem length_strtok (b : List α) (i : ℕ) : (strtok nul ds b i).2.1.length = b.length := by
  unfold strtok
  dsimp only
  split
  · rfl
  · split
    · rfl
    · exact List.length_set

end Strtok

end Buffers
end Mybox
