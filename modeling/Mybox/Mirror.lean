import Mathlib.Data.List.Nodup
import Mathlib.Data.List.Pairwise
import Mathlib.Tactic.Common

/-! A list that mirrors a set of names: it holds what the names stand for, each thing once. Names come and go
together with what they stand for, and two names may stand for the same thing. -/
namespace Mybox

/-- What the names stand for is what is in the list, and nothing is in it twice. -/
structure Mirrors {ν ρ : Type*} (value : ν → Option ρ) (names : ν → Prop) (xs : List ρ) : Prop where
  nodup : xs.Nodup
  mem : ∀ r, r ∈ xs ↔ ∃ n, names n ∧ value n = some r

namespace Mirrors

variable {ν ρ : Type*} {value : ν → Option ρ} {names names' gone : ν → Prop} {xs xs' : List ρ}

/-- Some names go, and with them what a list of values holds of them: the list still mirrors the names exactly if no
name that stays stands for a value that goes. -/
theorem remove_iff (h : Mirrors value names xs) {lost : ρ → Prop} (hn : ∀ n, names' n ↔ names n ∧ ¬gone n)
    (hl : ∀ n r, names n → gone n → value n = some r → lost r) (hd : xs'.Nodup)
    (hm : ∀ r, r ∈ xs' ↔ r ∈ xs ∧ ¬lost r) :
    Mirrors value names' xs' ↔ ∀ n r, names n → ¬gone n → value n = some r → ¬lost r := by
  constructor
  · intro h' n r hr hg hv
    exact ((hm r).mp ((h'.mem r).mpr ⟨n,(hn n).mpr ⟨hr,hg⟩,hv⟩)).2
  · intro hk
    refine ⟨hd,fun r => ?_⟩
    rw [hm,h.mem]
    constructor
    · rintro ⟨⟨n,hr,hv⟩,hlr⟩
      exact ⟨n,(hn n).mpr ⟨hr,fun hg => hlr (hl n r hr hg hv)⟩,hv⟩
    · rintro ⟨n,hr,hv⟩
      obtain ⟨hr,hg⟩ := (hn n).mp hr
      exact ⟨⟨n,hr,hv⟩,hk n r hr hg hv⟩

theorem replace_iff (h : Mirrors value names xs) {lost : ρ → Prop} {own : ν} {x : ρ} (hx : value own = some x)
    (hn : ∀ n, names' n ↔ n = own ∨ names n ∧ ¬gone n) (hl : ∀ n r, names n → gone n → value n = some r → lost r)
    (hd : xs'.Nodup) (hm : ∀ r, r ∈ xs' ↔ r = x ∨ r ∈ xs ∧ ¬lost r) :
    Mirrors value names' xs' ↔ ∀ n r, names n → ¬gone n → value n = some r → lost r → r = x := by
  constructor
  · intro h' n r hr hg hv hlr
    exact ((hm r).mp ((h'.mem r).mpr ⟨n,(hn n).mpr (Or.inr ⟨hr,hg⟩),hv⟩)).resolve_right fun hr => hr.2 hlr
  · intro hk
    refine ⟨hd,fun r => ?_⟩
    rw [hm,h.mem]
    constructor
    · rintro (rfl | ⟨⟨n,hr,hv⟩,hlr⟩)
      · exact ⟨own,(hn own).mpr (Or.inl rfl),hx⟩
      · exact ⟨n,(hn n).mpr (Or.inr ⟨hr,fun hg => hlr (hl n r hr hg hv)⟩),hv⟩
    · rintro ⟨n,hr,hv⟩
      rcases (hn n).mp hr with rfl | ⟨hr,hg⟩
      · exact Or.inl (Option.some.inj (hv.symm.trans hx))
      · by_cases hlr : lost r
        · exact Or.inl (hk n r hr hg hv hlr)
        · exact Or.inr ⟨⟨n,hr,hv⟩,hlr⟩

/-- A list made anew from the names mirrors them exactly if no two of them stand for the same thing. -/
theorem rebuild_iff {ns : List ν} (hd : ns.Nodup) (hn : ∀ n, names n ↔ n ∈ ns) :
    Mirrors value names (ns.filterMap value) ↔ ∀ n ∈ ns, ∀ m ∈ ns, ∀ r, value n = some r → value m = some r → n = m := by
  have hmem : ∀ r, r ∈ ns.filterMap value ↔ ∃ n, names n ∧ value n = some r := fun r => by
    rw [List.mem_filterMap]
    exact exists_congr fun n => and_congr_left' (hn n).symm
  have hpair : (ns.filterMap value).Nodup ↔
      ns.Pairwise fun n m => ∀ r, value n = some r → ∀ q, value m = some q → r ≠ q := List.pairwise_filterMap
  have hsymm : Std.Symm fun n m : ν => ∀ r, value n = some r → ∀ q, value m = some q → r ≠ q :=
    ⟨fun n m h r hr q hq => (h q hq r hr).symm⟩
  constructor
  · intro h n hin m him r hv hv'
    by_contra hne
    exact (hpair.mp h.nodup).forall hin him hne r hv r hv' rfl
  · intro h
    refine ⟨hpair.mpr (hd.pairwise_of_forall_ne fun n hin m him hne r hv q hv' hrq => ?_),hmem⟩
    exact hne (h n hin m him r hv (hrq ▸ hv'))

end Mirrors
end Mybox
