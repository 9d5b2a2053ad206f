import Mybox.Runs
import Mathlib.Logic.Function.Basic
import Mathlib.Logic.Relation

/-! Processes that take turns on a shared state, one atomic step at a time. Writes of the shared
data are counted, and each process keeps the count it found at its last read. -/
namespace Mybox

/-- What each process does at a control point; nothing once it has finished. A step may read the
shared data or write it. -/
structure Processes (σ π ι : Type) where
  step : ι → π → σ → Option (π × σ)
  reads : ι → π → σ → Bool
  writes : ι → π → σ → Bool

namespace Processes

structure Config (σ π ι : Type) where
  shared : σ
  point : ι → π
  /-- How often the data has been written. -/
  version : ℕ
  /-- The version each process has read. -/
  seen : ι → ℕ

variable {σ π ι : Type} [DecidableEq ι] (P : Processes σ π ι)

/-- The configuration after a step that leads a process to a point. -/
def advance (c : Config σ π ι) (i : ι) (p : π) (s : σ) : Config σ π ι where
  shared := s
  point := Function.update c.point i p
  version := if P.writes i (c.point i) c.shared then c.version + 1 else c.version
  seen := if P.reads i (c.point i) c.shared then Function.update c.seen i c.version else c.seen

def next (c : Config σ π ι) (i : ι) : Option (Config σ π ι) :=
  (P.step i (c.point i) c.shared).map fun r => P.advance c i r.1 r.2

/-- Turns in any order, under a condition on who takes the next one. -/
def turns (init : Config σ π ι → Prop) (guard : Config σ π ι → ι → Prop) : System (Config σ π ι) ι where
  init := init
  step c i c' := guard c i ∧ P.next c i = some c'

variable {P}

theorem next_some {c c' : Config σ π ι} {i : ι} (h : P.next c i = some c') :
    ∃ p s, P.step i (c.point i) c.shared = some (p,s) ∧ c' = P.advance c i p s := by
  obtain ⟨r,hr,rfl⟩ := Option.map_eq_some_iff.mp h
  exact ⟨r.1,r.2,hr,rfl⟩

@[simp] theorem advance_shared (c : Config σ π ι) (i : ι) (p : π) (s : σ) :
    (P.advance c i p s).shared = s := rfl

@[simp] theorem advance_point_self (c : Config σ π ι) (i : ι) (p : π) (s : σ) :
    (P.advance c i p s).point i = p := Function.update_self ..

theorem advance_point_ne (c : Config σ π ι) {i j : ι} (p : π) (s : σ) (h : j ≠ i) :
    (P.advance c i p s).point j = c.point j := Function.update_of_ne h ..

theorem advance_seen_ne (c : Config σ π ι) {i j : ι} (p : π) (s : σ) (h : j ≠ i) :
    (P.advance c i p s).seen j = c.seen j := by
  unfold advance
  dsimp only
  split
  · exact Function.update_of_ne h ..
  · rfl

theorem advance_seen_self (c : Config σ π ι) (i : ι) (p : π) (s : σ) : (P.advance c i p s).seen i =
    if P.reads i (c.point i) c.shared then c.version else c.seen i := by
  unfold advance
  dsimp only
  split
  · exact Function.update_self ..
  · rfl

theorem version_le_advance (c : Config σ π ι) (i : ι) (p : π) (s : σ) :
    c.version ≤ (P.advance c i p s).version := by
  unfold advance
  dsimp only
  split <;> omega

theorem advance_seen_le {c : Config σ π ι} (h : ∀ k, c.seen k ≤ c.version) (i : ι) (p : π) (s : σ) (k : ι) :
    (P.advance c i p s).seen k ≤ (P.advance c i p s).version := by
  refine Nat.le_trans ?_ (version_le_advance c i p s)
  by_cases hk : k = i
  · subst hk
    rw [advance_seen_self]
    split
    · exact Nat.le_refl _
    · exact h k
  · rw [advance_seen_ne c p s hk]
    exact h k

section Schedules

variable (P) {init : Config σ π ι → Prop} (guard : Config σ π ι → ι → Prop)
  [∀ c i, Decidable (guard c i)]

/-- The turns of a schedule, one after another, as long as they meet the condition. -/
def exec (c : Config σ π ι) : List ι → Option (Config σ π ι)
  | [] => some c
  | i::is => if guard c i then (P.next c i).bind fun c' => exec c' is else none

variable {P guard}

theorem run_of_exec {is : List ι} {c c' : Config σ π ι} (h : P.exec guard c is = some c') :
    System.Run (P.turns init guard) c is c' := by
  induction is generalizing c with
  | nil =>
    obtain rfl : c = c' := by simpa [exec] using h
    exact .nil
  | cons i is ih =>
    unfold exec at h
    split at h
    · rename_i hg
      obtain ⟨d,hd,h⟩ := Option.bind_eq_some_iff.mp h
      have h₁ : System.Run (P.turns init guard) c ([] ++ [i]) d := .snoc .nil ⟨hg,hd⟩
      exact h₁.append (ih h)
    · simp at h

def endOf (P : Processes σ π ι) (guard : Config σ π ι → ι → Prop) [∀ c i, Decidable (guard c i)]
    (c : Config σ π ι) (is : List ι) : Config σ π ι := (P.exec guard c is).getD c

theorem run_endOf {is : List ι} {c : Config σ π ι} (h : (P.exec guard c is).isSome) :
    System.Run (P.turns init guard) c is (P.endOf guard c is) := by
  obtain ⟨d,hd⟩ := Option.isSome_iff_exists.mp h
  rw [endOf,hd]
  exact run_of_exec hd

end Schedules

def Alone (step : π → σ → Option (π × σ)) : π × σ → π × σ → Prop :=
  Relation.ReflTransGen fun a b => step a.1 a.2 = some b

theorem Alone.head {step : π → σ → Option (π × σ)} {p : π} {s : σ} {b c : π × σ}
    (h : step p s = some b) (hh : Alone step b c) : Alone step (p,s) c :=
  Relation.ReflTransGen.head h hh

theorem Alone.refl {step : π → σ → Option (π × σ)} (a : π × σ) : Alone step a a :=
  Relation.ReflTransGen.refl

theorem Alone.trans {step : π → σ → Option (π × σ)} {a b c : π × σ} (h : Alone step a b)
    (hh : Alone step b c) : Alone step a c := Relation.ReflTransGen.trans h hh

end Processes
end Mybox
