import Mathlib.Algebra.Ring.Nat
import Mathlib.Data.List.Basic

/-! Labelled transition systems and their finite runs. An invariant is checked one
step at a time; a simulation carries whole runs, label by label. -/
namespace Mybox

structure System (σ ℓ : Type) where
  init : σ → Prop
  step : σ → ℓ → σ → Prop

namespace System

variable {σ τ ℓ : Type}

/-- The steps taken from a state, oldest first, and the state they end in. -/
inductive Run (S : System σ ℓ) (s : σ) : List ℓ → σ → Prop
  | nil : Run S s [] s
  | snoc {ls : List ℓ} {t u : σ} {l : ℓ} : Run S s ls t → S.step t l u → Run S s (ls ++ [l]) u

theorem Run.append {S : System σ ℓ} {s t u : σ} {ls ms : List ℓ} (h : Run S s ls t)
    (hh : Run S t ms u) : Run S s (ls ++ ms) u := by
  induction hh with
  | nil => simpa using h
  | snoc _ hs ih => rw [← List.append_assoc]; exact ih.snoc hs

/-- A schedule whose steps can all be taken is a run to where it leads. -/
theorem run_of_foldlM {S : System σ ℓ} {f : σ → ℓ → Option σ} (hf : ∀ s l t, f s l = some t → S.step s l t)
    {ls : List ℓ} {s : σ} (h : (ls.foldlM f s).isSome) : Run S s ls ((ls.foldlM f s).getD s) := by
  have key : ∀ ls s t, ls.foldlM f s = some t → Run S s ls t := by
    intro ls
    induction ls with
    | nil =>
      intro s t h
      obtain rfl : s = t := by simpa using h
      exact .nil
    | cons l ls ih =>
      intro s t h
      rw [List.foldlM_cons] at h
      obtain ⟨u,hu,ht⟩ := Option.bind_eq_some_iff.mp h
      have h₁ : Run S s ([] ++ [l]) u := .snoc .nil (hf s l u hu)
      exact h₁.append (ih u t ht)
  obtain ⟨t,ht⟩ := Option.isSome_iff_exists.mp h
  rw [ht]
  exact key ls s t ht

theorem Run.invariant {S : System σ ℓ} {I : σ → Prop}
    (hs : ∀ t l u, I t → S.step t l u → I u) {s t : σ} {ls : List ℓ} (h : Run S s ls t)
    (h₀ : I s) : I t := by
  induction h with
  | nil => exact h₀
  | snoc _ hst ih => exact hs _ _ _ ih hst

/-- What a step does under the invariant, exactly when it meets a condition that keeps the invariant, all steps of a
run do exactly when all of them meet the condition. -/
theorem Run.forall_iff {S : System σ ℓ} {J : σ → Prop} {P Q : ℓ → Prop}
    (hp : ∀ s l t, J s → S.step s l t → (P l ↔ Q l)) (hj : ∀ s l t, J s → S.step s l t → Q l → J t) {s t : σ}
    {ls : List ℓ} (h : Run S s ls t) (h₀ : J s) : ((∀ l ∈ ls, P l) ↔ ∀ l ∈ ls, Q l) ∧ ((∀ l ∈ ls, Q l) → J t) := by
  induction h with
  | nil => exact ⟨by simp,fun _ => h₀⟩
  | snoc _ hst ih =>
    obtain ⟨hi,hk⟩ := ih
    simp only [List.forall_mem_append,List.forall_mem_singleton]
    refine ⟨⟨fun ⟨hl,hx⟩ => ?_,fun ⟨hl,hx⟩ => ?_⟩,fun ⟨hl,hx⟩ => hj _ _ _ (hk hl) hst hx⟩
    · exact ⟨hi.mp hl,(hp _ _ _ (hk (hi.mp hl)) hst).mp hx⟩
    · exact ⟨hi.mpr hl,(hp _ _ _ (hk hl) hst).mpr hx⟩

/-- Each step of the concrete system is a step of the abstract one with the same label. -/
structure Simulation (C : System σ ℓ) (A : System τ ℓ) where
  rel : σ → τ → Prop
  init : ∀ s, C.init s → ∃ a, A.init a ∧ rel s a
  step : ∀ s a l t, rel s a → C.step s l t → ∃ b, A.step a l b ∧ rel t b

theorem Simulation.run {C : System σ ℓ} {A : System τ ℓ} (R : Simulation C A) {s t : σ}
    {a : τ} {ls : List ℓ} (h : Run C s ls t) (hr : R.rel s a) :
    ∃ b, Run A a ls b ∧ R.rel t b := by
  induction h with
  | nil => exact ⟨a,Run.nil,hr⟩
  | snoc _ hs ih =>
    obtain ⟨b,hb,hrb⟩ := ih
    obtain ⟨c,hc,hrc⟩ := R.step _ _ _ _ hrb hs
    exact ⟨c,hb.snoc hc,hrc⟩

/-- Every step of a schedule with what comes before it: the first one, and the others behind it. -/
theorem forall_splits_cons {P : List ℓ → ℓ → Prop} {k : ℓ} {ks : List ℓ} :
    (∀ ms l ns, k::ks = ms ++ l::ns → P ms l) ↔ P [] k ∧ ∀ ms l ns, ks = ms ++ l::ns → P (k::ms) l := by
  constructor
  · exact fun h => ⟨h [] k ks rfl,fun ms l ns hm => h (k::ms) l ns (by rw [hm]; rfl)⟩
  · rintro ⟨h₀,h⟩ ms l ns hm
    cases ms with
    | nil =>
      obtain ⟨rfl,-⟩ := List.cons.inj hm
      exact h₀
    | cons j ms =>
      obtain ⟨rfl,hns⟩ := List.cons.inj hm
      exact h ms l ns hns

theorem forall_splits_nil {P : List ℓ → ℓ → Prop} : ∀ ms l ns, ([] : List ℓ) = ms ++ l::ns → P ms l :=
  fun ms l ns h => by simp at h

/-- When a step keeps the invariant exactly if it meets a condition, a run keeps it all along exactly if
each of its steps meets the condition. -/
theorem prefixes_iff {f : σ → ℓ → σ} {J I : σ → Prop} {C : σ → ℓ → Prop} {ls : List ℓ}
    (hj : ∀ s l, J s → J (f s l)) (hs : ∀ s, ∀ l ∈ ls, J s → I s → (I (f s l) ↔ C s l)) {s : σ}
    (h₀ : J s) (hi : I s) : (∀ ms ns, ls = ms ++ ns → I (ms.foldl f s)) ↔
      ∀ ms l ns, ls = ms ++ l::ns → C (ms.foldl f s) l := by
  induction ls generalizing s with
  | nil =>
    refine ⟨fun _ ms l ns h => by simp at h,fun _ ms ns h => ?_⟩
    obtain ⟨rfl,-⟩ := List.append_eq_nil_iff.mp h.symm
    exact hi
  | cons l ls ih =>
    have hl := hs s l (by simp) h₀ hi
    have hs' : ∀ s, ∀ k ∈ ls, J s → I s → (I (f s k) ↔ C s k) := fun s k hk =>
      hs s k (List.mem_cons_of_mem _ hk)
    constructor
    · intro h
      have hc : C s l := hl.mp (h [l] ls rfl)
      have ht := (ih hs' (hj s l h₀) (hl.mpr hc)).mp fun ms ns hm => h (l::ms) ns (by rw [hm]; rfl)
      intro ms m ns hm
      cases ms with
      | nil =>
        obtain ⟨rfl,-⟩ := List.cons.inj hm
        exact hc
      | cons k ms =>
        obtain ⟨rfl,hls⟩ := List.cons.inj hm
        exact ht ms m ns hls
    · intro h
      have hc : C s l := h [] l ls rfl
      have ht := (ih hs' (hj s l h₀) (hl.mpr hc)).mpr fun ms m ns hm => h (l::ms) m ns (by rw [hm]; rfl)
      intro ms ns hm
      cases ms with
      | nil => exact hi
      | cons k ms =>
        obtain ⟨rfl,hls⟩ := List.cons.inj hm
        exact ht ms ns hls

end System

/-- A loop whose rounds gain at most so much gains all of it exactly when every round does. -/
theorem foldl_gain {σ α : Type} {f : σ → α → σ} {size : σ → ℕ} {gain : α → ℕ} {C : σ → α → Prop}
    (hle : ∀ s a, size (f s a) ≤ size s + gain a) (hiff : ∀ s a, size (f s a) = size s + gain a ↔ C s a)
    (xs : List α) (s : σ) : size (xs.foldl f s) ≤ size s + (xs.map gain).sum ∧
      (size (xs.foldl f s) = size s + (xs.map gain).sum ↔ ∀ ms a ns, xs = ms ++ a::ns → C (ms.foldl f s) a) := by
  induction xs generalizing s with
  | nil => simp
  | cons x xs ih =>
    obtain ⟨hl,hi⟩ := ih (f s x)
    have hx := hle s x
    rw [List.foldl_cons,List.map_cons,List.sum_cons]
    refine ⟨by omega,?_⟩
    constructor
    · intro h
      have hc : C s x := (hiff s x).mp (by omega)
      have ht := hi.mp (by omega)
      intro ms a ns hm
      cases ms with
      | nil =>
        obtain ⟨rfl,-⟩ := List.cons.inj hm
        exact hc
      | cons m ms =>
        obtain ⟨rfl,hm'⟩ := List.cons.inj hm
        exact ht ms a ns hm'
    · intro h
      have he := (hiff s x).mpr (h [] x xs rfl)
      have ht := hi.mpr fun ms a ns hm => h (x::ms) a ns (by rw [hm]; rfl)
      omega

/-- What one step takes out of a set and then puts into it. -/
structure Effect (α : Type) where
  drops : α → Prop
  puts : α → Prop

namespace Effect

variable {α β : Type}

def apply (e : Effect α) (S : α → Prop) (x : α) : Prop := e.puts x ∨ S x ∧ ¬ e.drops x

end Effect
end Mybox
