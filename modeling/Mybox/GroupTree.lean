import Mathlib.Data.List.Basic
import Mathlib.Order.WellFounded
import Mathlib.Tactic.Common

/-! Names that stand for a leaf, for a group of names, or for nothing, and the leaves a list
of names stands for, in order. -/
namespace Mybox

inductive GroupNode (ν α : Type)
  | leaf (a : α)
  | group (members : List ν)
  deriving DecidableEq

namespace GroupTree

variable {ν α : Type} (find : ν → Option (GroupNode ν α))

/-- A name for nothing adds nothing, a group adds the leaves of its members. -/
inductive Leaves : List ν → List α → Prop
  | nil : Leaves [] []
  | missing {n : ν} {ns : List ν} {k : List α} : find n = none → Leaves ns k → Leaves (n::ns) k
  | leaf {n : ν} {ns : List ν} {a : α} {k : List α} :
      find n = some (.leaf a) → Leaves ns k → Leaves (n::ns) (a::k)
  | group {n : ν} {ns ms : List ν} {l k : List α} :
      find n = some (.group ms) → Leaves ms l → Leaves ns k → Leaves (n::ns) (l ++ k)

variable {find}

theorem Leaves.unique {ns : List ν} {l k : List α} (h : Leaves find ns l) (hh : Leaves find ns k) :
    l = k := by
  induction h generalizing k with
  | nil => cases hh; rfl
  | missing hf _ ih =>
    cases hh with
    | missing _ h => exact ih h
    | leaf hf' _ => simp [hf] at hf'
    | group hf' _ _ => simp [hf] at hf'
  | leaf hf _ ih =>
    cases hh with
    | missing hf' _ => simp [hf] at hf'
    | leaf hf' h =>
      simp only [hf,Option.some.injEq,GroupNode.leaf.injEq] at hf'
      rw [hf',ih h]
    | group hf' _ _ => simp [hf] at hf'
  | group hf _ _ ihm ih =>
    cases hh with
    | missing hf' _ => simp [hf] at hf'
    | leaf hf' _ => simp [hf] at hf'
    | group hf' hm h =>
      simp only [hf,Option.some.injEq,GroupNode.group.injEq] at hf'
      subst hf'
      rw [ihm hm,ih h]

theorem Leaves.append {ns ms : List ν} {l k : List α} (h : Leaves find ns l)
    (hh : Leaves find ms k) : Leaves find (ns ++ ms) (l ++ k) := by
  induction h with
  | nil => exact hh
  | missing hf _ ih => exact .missing hf ih
  | leaf hf _ ih => exact .leaf hf ih
  | group hf hm _ _ ih =>
    rw [List.append_assoc]
    exact .group hf hm ih

theorem leaves_missing {n : ν} (h : find n = none) {l : List α} : Leaves find [n] l ↔ l = [] := by
  constructor
  · intro hl
    exact hl.unique (.missing h .nil)
  · rintro rfl
    exact .missing h .nil

theorem leaves_leaf {n : ν} {a : α} (h : find n = some (.leaf a)) {l : List α} :
    Leaves find [n] l ↔ l = [a] := by
  constructor
  · intro hl
    exact hl.unique (.leaf h .nil)
  · rintro rfl
    exact .leaf h .nil

theorem leaves_group {n : ν} {ms : List ν} (h : find n = some (.group ms)) {l : List α} :
    Leaves find [n] l ↔ Leaves find ms l := by
  constructor
  · intro hl
    cases hl with
    | missing hf _ => simp [h] at hf
    | leaf hf _ => simp [h] at hf
    | group hf hm hn =>
      cases hn
      simp only [h,Option.some.injEq,GroupNode.group.injEq] at hf
      subst hf
      simpa using hm
  · intro hl
    have hg := Leaves.group h hl .nil
    simpa using hg

/-- Where no group is a member of itself, however deep, every list of names has leaves. -/
theorem exists_leaves (h : WellFounded fun m n => ∃ ms, find n = some (.group ms) ∧ m ∈ ms)
    (ns : List ν) : ∃ l, Leaves find ns l := by
  have list : ∀ ns : List ν, (∀ n ∈ ns, ∃ l, Leaves find [n] l) → ∃ l, Leaves find ns l := by
    intro ns hn
    induction ns with
    | nil => exact ⟨[],.nil⟩
    | cons n ns ih =>
      obtain ⟨l,hl⟩ := hn n (by simp)
      obtain ⟨k,hk⟩ := ih fun m hm => hn m (List.mem_cons_of_mem _ hm)
      exact ⟨l ++ k,hl.append hk⟩
  have one : ∀ n, ∃ l, Leaves find [n] l := by
    intro n
    induction n using h.induction with
    | _ n ih =>
      cases hf : find n with
      | none => exact ⟨[],.missing hf .nil⟩
      | some x =>
        cases x with
        | leaf a => exact ⟨[a],.leaf hf .nil⟩
        | group ms =>
          obtain ⟨l,hl⟩ := list ms fun m hm => ih m ⟨ms,hf,hm⟩
          exact ⟨l,(leaves_group hf).mpr hl⟩
  exact list ns fun n _ => one n

theorem Leaves.mem {ns : List ν} {l : List α} (h : Leaves find ns l) {a : α} (ha : a ∈ l) :
    ∃ n, find n = some (.leaf a) := by
  induction h with
  | nil => simp at ha
  | missing _ _ ih => exact ih ha
  | @leaf n _ _ _ hf _ ih =>
    rcases List.mem_cons.mp ha with rfl | ha
    · exact ⟨n,hf⟩
    · exact ih ha
  | group _ _ _ ihm ih =>
    rcases List.mem_append.mp ha with ha | ha
    · exact ihm ha
    · exact ih ha

end GroupTree
end Mybox
