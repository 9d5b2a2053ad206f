import Mathlib.Algebra.Order.Group.Nat
import Mathlib.Data.List.Induction
import Mathlib.Order.Lattice
import Mathlib.Tactic.Ring

/-! Numbers written with digits to a base, over any type of digits: writing two after each other, and when
the order of the numbers is that of their blocks of digits. -/
namespace Mybox
namespace Decimal

variable {α : Type} {b : ℕ} {d : α → ℕ}

def value (b : ℕ) (d : α → ℕ) (s : List α) : ℕ := s.foldl (fun n c => b*n + d c) 0

theorem foldl_value (s : List α) (n : ℕ) :
    s.foldl (fun n c => b*n + d c) n = n*b^s.length + value b d s := by
  induction s generalizing n with
  | nil => simp [value]
  | cons c s ih =>
    simp only [value,List.foldl_cons,ih (b*n + d c),ih (b*0 + d c),List.length_cons,pow_succ]
    ring

@[simp] theorem value_nil : value b d [] = 0 := rfl

@[simp] theorem value_append (s t : List α) :
    value b d (s ++ t) = value b d s*b^t.length + value b d t := by
  rw [value,List.foldl_append,foldl_value t]
  rfl

theorem value_lt {s : List α} (h : ∀ c ∈ s, d c < b) : value b d s < b^s.length := by
  induction s using List.reverseRecOn with
  | nil => simp
  | append_singleton s c ih =>
    have hs := ih fun x hx => h x (by simp [hx])
    have hc := h c (by simp)
    have hone : value b d [c] = d c := by simp [value]
    rw [value_append,List.length_append,hone,List.length_singleton,pow_one,pow_succ]
    calc value b d s*b + d c < value b d s*b + b := by omega
      _ = (value b d s + 1)*b := by ring
      _ ≤ b^s.length*b := Nat.mul_le_mul_right b hs

theorem lex_iff {a c r s m : ℕ} (hr : r < m) (hs : s < m) :
    a*m + r < c*m + s ↔ a < c ∨ a = c ∧ r < s := by
  constructor
  · intro h
    rcases Nat.lt_trichotomy a c with hac | hac | hac
    · exact Or.inl hac
    · subst c
      exact Or.inr ⟨rfl,by omega⟩
    · have := Nat.mul_le_mul_right m (Nat.succ_le_of_lt hac)
      rw [Nat.succ_mul] at this
      omega
  · rintro (h | ⟨rfl,h⟩)
    · have := Nat.mul_le_mul_right m (Nat.succ_le_of_lt h)
      rw [Nat.succ_mul] at this
      omega
    · omega

theorem eq_iff {a c r s m : ℕ} (hr : r < m) (hs : s < m) : a*m + r = c*m + s ↔ a = c ∧ r = s := by
  have h₁ := lex_iff (a := a) (c := c) hr hs
  have h₂ := lex_iff (a := c) (c := a) hs hr
  omega

theorem eq_of_value_eq {s t : List α} (hd : ∀ x ∈ s, ∀ y ∈ t, d x = d y → x = y) (hs : ∀ c ∈ s, d c < b)
    (ht : ∀ c ∈ t, d c < b) (hl : s.length = t.length) (hv : value b d s = value b d t) : s = t := by
  induction s generalizing t with
  | nil => exact (List.length_eq_zero_iff.mp hl.symm).symm
  | cons c s ih =>
    cases t with
    | nil => simp at hl
    | cons e t =>
      have hl' : s.length = t.length := by simpa using hl
      have hs' : ∀ x ∈ s, d x < b := fun x hx => hs x (by simp [hx])
      have ht' : ∀ x ∈ t, d x < b := fun x hx => ht x (by simp [hx])
      have hcons : ∀ (x : α) l, value b d (x::l) = d x*b^l.length + value b d l := fun x l => by
        rw [show x::l = [x] ++ l from rfl,value_append]
        simp [value]
      rw [hcons,hcons,hl'] at hv
      have hlt := value_lt hs'
      rw [hl'] at hlt
      obtain ⟨hce,hv⟩ := (eq_iff hlt (value_lt ht')).mp hv
      rw [hd c (by simp) e (by simp) hce,
        ih (fun x hx y hy => hd x (by simp [hx]) y (by simp [hy])) hs' ht' hl' hv]

theorem eq_of_map_value_eq {xs ys : List (List α)} (hd : ∀ s ∈ xs, ∀ t ∈ ys, ∀ x ∈ s, ∀ y ∈ t, d x = d y → x = y)
    (hx : ∀ s ∈ xs, ∀ c ∈ s, d c < b) (hy : ∀ s ∈ ys, ∀ c ∈ s, d c < b)
    (hl : xs.map List.length = ys.map List.length) (hv : xs.map (value b d) = ys.map (value b d)) : xs = ys := by
  induction xs generalizing ys with
  | nil => exact (List.map_eq_nil_iff.mp hl.symm).symm
  | cons x xs ih =>
    cases ys with
    | nil => simp at hl
    | cons y ys =>
      obtain ⟨hlx,hl⟩ := List.cons.inj hl
      obtain ⟨hvx,hv⟩ := List.cons.inj hv
      rw [eq_of_value_eq (hd x (by simp) y (by simp)) (hx x (by simp)) (hy y (by simp)) hlx hvx,
        ih (fun s hs t ht => hd s (by simp [hs]) t (by simp [ht])) (fun s hs => hx s (by simp [hs]))
          (fun t ht => hy t (by simp [ht])) hl hv]

/-- Blocks of the same lengths, but for the first one: the numbers are ordered as the lists of the blocks'
values. -/
theorem value_flatten_lt_iff {xs ys : List (List α)} (x y : List α) (hx : ∀ s ∈ xs, ∀ c ∈ s, d c < b)
    (hy : ∀ s ∈ ys, ∀ c ∈ s, d c < b) (hl : xs.map List.length = ys.map List.length) :
    value b d (x::xs).flatten < value b d (y::ys).flatten ↔
      (x::xs).map (value b d) < (y::ys).map (value b d) := by
  have hlen : xs.flatten.length = ys.flatten.length := by simp [hl]
  have hxl : value b d xs.flatten < b^ys.flatten.length :=
    hlen ▸ value_lt fun c hc => by
      obtain ⟨s,hs,hcs⟩ := List.mem_flatten.mp hc
      exact hx s hs c hcs
  have hyl : value b d ys.flatten < b^ys.flatten.length := value_lt fun c hc => by
    obtain ⟨s,hs,hcs⟩ := List.mem_flatten.mp hc
    exact hy s hs c hcs
  have hrest : value b d xs.flatten < value b d ys.flatten ↔
      xs.map (value b d) < ys.map (value b d) := by
    cases xs with
    | nil => cases ys <;> simp_all
    | cons x' xs =>
      cases ys with
      | nil => simp at hl
      | cons y' ys =>
        exact value_flatten_lt_iff x' y' (fun s hs => hx s (by simp [hs])) (fun s hs => hy s (by simp [hs]))
          (List.cons.inj hl).2
  rw [List.flatten_cons,List.flatten_cons,value_append,value_append,hlen,lex_iff hxl hyl,hrest,
    List.map_cons,List.map_cons,List.cons_lt_cons_iff]
termination_by xs.length

end Decimal
end Mybox
