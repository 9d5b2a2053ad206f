import Mathlib.Logic.Relation
import Mathlib.Order.WellFounded

/-! Relations without endless chains, and what may be done to them: edges into one point, and one point moved onto
others. `r b a` says that `b` is below `a`. -/
namespace Mybox
namespace Chains
open Relation

variable {α : Type} {r r' : α → α → Prop} {M : α → Prop}

theorem irreflexive (h : WellFounded r) (a : α) : ¬ TransGen r a a := fun hc =>
  h.transGen.asymmetric a a hc hc

/-- Points whose new edges are old ones, down from the first, still have no endless chain below them. -/
theorem acc_below (h : WellFounded r) {S : α → Prop} (hS : ∀ a, S a → ∀ b, r' b a → Acc r' b ∨ r b a ∧ S b) {a : α}
    (ha : S a) : Acc r' a := by
  induction a using h.induction with
  | _ a ih =>
    refine Acc.intro a fun b hb => ?_
    rcases hS a ha b hb with hc | ⟨hr,hs⟩
    · exact hc
    · exact ih b hr hs

/-- One point is put below others, none of which is at or below it. -/
theorem wellFounded_of_edges (h : WellFounded r) {p : α} (hr : ∀ b a, r' b a → r b a ∨ M a ∧ b = p)
    (hp : ∀ y, M y → ¬ ReflTransGen r y p) : WellFounded r' := by
  have hacc : Acc r' p := by
    refine acc_below h (S := fun a => ReflTransGen r a p) (fun a ha b hb => ?_) .refl
    rcases hr b a hb with hb | ⟨hm,-⟩
    · exact Or.inr ⟨hb,ha.head hb⟩
    · exact absurd ha (hp a hm)
  refine ⟨fun a => acc_below h (S := fun _ => True) (fun a _ b hb => ?_) trivial⟩
  rcases hr b a hb with hb | ⟨-,rfl⟩
  · exact Or.inr ⟨hb,trivial⟩
  · exact Or.inl hacc

/-- What is above `u` is put above `v` and what is below `u` is put below all points of `M`, `v` among them. No chain
leads from `u` to `M` or back. -/
theorem wellFounded_of_moved (h : WellFounded r) {u v : α} (hv : M v)
    (hr : ∀ b a, r' b a → ∃ b₀ a₀, r b₀ a₀ ∧ (b = b₀ ∨ b₀ = u ∧ b = v) ∧ (a = a₀ ∨ a₀ = u ∧ M a))
    (hdown : ∀ y, M y → ¬ TransGen r y u) (hup : ∀ y, M y → ¬ TransGen r u y) : WellFounded r' := by
  have below : ∀ x, TransGen r x u → Acc r' x := fun x hx => by
    refine acc_below h (S := fun a => TransGen r a u) (fun a ha b hb => ?_) hx
    obtain ⟨b₀,a₀,h₀,hb₀,rfl | ⟨rfl,hm⟩⟩ := hr b a hb
    · rcases hb₀ with rfl | ⟨rfl,-⟩
      · exact Or.inr ⟨h₀,ha.head h₀⟩
      · exact absurd (ha.head h₀) (irreflexive h _)
    · exact absurd ha (hdown a hm)
  have under : ∀ x y, M y → ReflTransGen r x y → Acc r' x := fun x y hy hx => by
    refine acc_below h (S := fun a => ReflTransGen r a y) (fun a ha b hb => ?_) hx
    obtain ⟨b₀,a₀,h₀,hb₀,rfl | ⟨rfl,hm⟩⟩ := hr b a hb
    · rcases hb₀ with rfl | ⟨rfl,-⟩
      · exact Or.inr ⟨h₀,ha.head h₀⟩
      · exact absurd (TransGen.head' h₀ ha) (hup y hy)
    · rcases hb₀ with rfl | ⟨rfl,-⟩
      · exact Or.inl (below b (.single h₀))
      · exact absurd (.single h₀) (irreflexive h _)
  refine ⟨fun a => acc_below h (S := fun _ => True) (fun a _ b hb => ?_) trivial⟩
  obtain ⟨b₀,a₀,h₀,hb₀,rfl | ⟨rfl,hm⟩⟩ := hr b a hb
  · rcases hb₀ with rfl | ⟨-,rfl⟩
    · exact Or.inr ⟨h₀,trivial⟩
    · exact Or.inl (under b b hv .refl)
  · rcases hb₀ with rfl | ⟨rfl,-⟩
    · exact Or.inl (below b (.single h₀))
    · exact absurd (.single h₀) (irreflexive h _)

end Chains
end Mybox
