import Mathlib.Data.Set.Lattice
import Mathlib.Data.Set.Prod

/-! Names for sets, and rules written from them. A name stands for objects of its own, for what the members of a
group stand for, or for everything. A column of a rule lists objects, of which one has to hold a point (or, under a
negation, not to hold it); an empty column lets every point through. -/
namespace Mybox
namespace Columns

/-- Objects; one that no use can be made of has no set. -/
abbrev Objects (P : Type*) := List (Option (Set P))

section Naming

variable {ν P : Type*}

structure Naming (ν P : Type*) where
  all : ν
  /-- Of the names that are no groups. -/
  objects : ν → Option (Objects P)
  member : ν → ν → Prop

inductive Naming.Denotes (N : Naming ν P) : ν → P → Prop
  | all (p : P) : Denotes N N.all p
  | own {n : ν} {os : Objects P} {S : Set P} {p : P} :
      n ≠ N.all → N.objects n = some os → some S ∈ os → p ∈ S → Denotes N n p
  | member {n m : ν} {p : P} : n ≠ N.all → N.objects n = none → N.member n m → Denotes N m p → Denotes N n p

def Naming.extent (N : Naming ν P) (n : ν) : Set P := {p | N.Denotes n p}

def union (os : Objects P) : Set P := {p | ∃ S, some S ∈ os ∧ p ∈ S}

def inter (os : Objects P) : Set P := {p | ∀ S, some S ∈ os → p ∈ S}

theorem Naming.extent_own {N : Naming ν P} {n : ν} {os : Objects P} (hn : n ≠ N.all) (h : N.objects n = some os) :
    N.extent n = union os := by
  funext p
  apply propext
  constructor
  · intro hp
    cases hp with
    | all => exact absurd rfl hn
    | own _ ho hS hp =>
      obtain rfl := Option.some.inj (ho.symm.trans h)
      exact ⟨_,hS,hp⟩
    | member _ ho _ _ =>
      rw [h] at ho
      exact absurd ho (by simp)
  · rintro ⟨S,hS,hp⟩
    exact .own hn h hS hp

theorem Naming.extent_group {N : Naming ν P} {n : ν} (hn : n ≠ N.all) (h : N.objects n = none) :
    N.extent n = {p | ∃ m, N.member n m ∧ p ∈ N.extent m} := by
  funext p
  apply propext
  constructor
  · intro hp
    cases hp with
    | all => exact absurd rfl hn
    | own _ ho _ _ =>
      rw [h] at ho
      exact absurd ho (by simp)
    | member _ _ hm hp => exact ⟨_,hm,hp⟩
  · rintro ⟨m,hm,hp⟩
    exact .member hn h hm hp

end Naming

section Column

variable {P : Type*} {os : Objects P} {D : Set P} {neg : Bool}

def Passes (neg : Bool) (x : Option (Set P)) (p : P) : Prop := ∃ S, x = some S ∧ (p ∈ S ↔ neg = false)

def passed (neg : Bool) (os : Objects P) : Set P := {p | os = [] ∨ ∃ x ∈ os, Passes neg x p}

def wanted (neg : Bool) (D : Set P) : Set P := if neg then Dᶜ else D

theorem passed_nil (neg : Bool) : passed neg ([] : Objects P) = Set.univ := Set.eq_univ_of_forall fun _ => .inl rfl

theorem passed_plain (h : os ≠ []) : passed false os = union os := by
  funext p
  apply propext
  constructor
  · rintro (he | ⟨x,hx,S,rfl,hp⟩)
    · exact absurd he h
    · exact ⟨S,hx,hp.mpr rfl⟩
  · rintro ⟨S,hS,hp⟩
    exact .inr ⟨_,hS,S,rfl,iff_of_true hp rfl⟩

theorem passed_negated (h : os ≠ []) : passed true os = (inter os)ᶜ := by
  funext p
  apply propext
  constructor
  · rintro (he | ⟨x,hx,S,rfl,hp⟩)
    · exact absurd he h
    · exact fun hi => absurd (hp.mp (hi S hx)) (by decide)
  · intro hp
    obtain ⟨S,hS⟩ := not_forall.mp hp
    obtain ⟨hS,hp⟩ := Classical.not_imp.mp hS
    exact .inr ⟨_,hS,S,rfl,iff_of_false hp (by decide)⟩

/-- When a column that lists these objects lets through what is meant: without a negation the set is their union, and
under a negation it is their intersection; no objects at all will do for everything, or for the negation of nothing. -/
def Fits (neg : Bool) (os : Objects P) (D : Set P) : Prop :=
  if os = [] then D = if neg then ∅ else Set.univ else D = if neg then inter os else union os

theorem passed_eq_iff : passed neg os = wanted neg D ↔ Fits neg os D := by
  rw [wanted,Fits]
  by_cases h : os = []
  · rw [if_pos h,h,passed_nil]
    cases neg with
    | false => exact eq_comm
    | true =>
      simp only [if_true]
      rw [eq_comm,Set.compl_univ_iff]
  · rw [if_neg h]
    cases neg with
    | false =>
      rw [passed_plain h]
      exact eq_comm
    | true =>
      rw [passed_negated h]
      simp only [if_true,compl_inj_iff]
      exact eq_comm

def Shut (neg : Bool) (os : Objects P) : Prop := os ≠ [] ∧ ∀ S, some S ∈ os → S = if neg then Set.univ else ∅

theorem passed_eq_empty_iff [Nonempty P] : passed neg os = ∅ ↔ Shut neg os := by
  rw [Shut]
  by_cases h : os = []
  · rw [h,passed_nil]
    simp
  · rw [and_iff_right h]
    cases neg with
    | false =>
      rw [passed_plain h,Set.eq_empty_iff_forall_notMem]
      constructor
      · exact fun he S hS => Set.eq_empty_iff_forall_notMem.mpr fun p hp => he p ⟨S,hS,hp⟩
      · rintro he p ⟨S,hS,hp⟩
        rw [he S hS] at hp
        exact hp
    | true =>
      rw [passed_negated h,Set.compl_empty_iff]
      constructor
      · exact fun he S hS => Set.eq_univ_of_forall fun p => (Set.eq_univ_iff_forall.mp he p) S hS
      · refine fun he => Set.eq_univ_of_forall fun p S hS => ?_
        rw [he S hS]
        trivial

end Column

section Product

variable {F P Q R : Type*} {src : F → P} {dst : F → Q} {srv : F → R} {A X : Set P} {B Y : Set Q} {C Z : Set R}

/-- Two products of three columns are the same when their columns are, or when both are empty. -/
theorem product_iff (h : ∀ p q r, ∃ f, src f = p ∧ dst f = q ∧ srv f = r) :
    (∀ f, (src f ∈ A ∧ dst f ∈ B ∧ srv f ∈ C) ↔ src f ∈ X ∧ dst f ∈ Y ∧ srv f ∈ Z) ↔
      (A = X ∧ B = Y ∧ C = Z) ∨ (A = ∅ ∨ B = ∅ ∨ C = ∅) ∧ (X = ∅ ∨ Y = ∅ ∨ Z = ∅) := by
  have hs : (∀ f, (src f ∈ A ∧ dst f ∈ B ∧ srv f ∈ C) ↔ src f ∈ X ∧ dst f ∈ Y ∧ srv f ∈ Z) ↔
      A ×ˢ (B ×ˢ C) = X ×ˢ (Y ×ˢ Z) := by
    constructor
    · intro hf
      ext ⟨p,q,r⟩
      obtain ⟨f,rfl,rfl,rfl⟩ := h p q r
      exact hf f
    · intro he f
      have hm := Set.ext_iff.mp he (src f,dst f,srv f)
      exact hm
  rw [hs,Set.prod_eq_prod_iff]
  simp only [Set.prod_eq_empty_iff,Set.prod_eq_prod_iff]
  constructor
  · rintro (⟨hA,⟨hB,hC⟩ | ⟨hB,hC⟩⟩ | ⟨h₁,h₂⟩)
    · exact .inl ⟨hA,hB,hC⟩
    · exact .inr ⟨.inr hB,.inr hC⟩
    · exact .inr ⟨h₁,h₂⟩
  · rintro (⟨hA,hB,hC⟩ | ⟨h₁,h₂⟩)
    · exact .inl ⟨hA,.inl ⟨hB,hC⟩⟩
    · exact .inr ⟨h₁,h₂⟩

end Product

end Columns
end Mybox
