import Mathlib.Data.List.Pairwise
import Mathlib.Order.Lattice
import Mathlib.Tactic.Common

/-! A list gone through from the front, where only what exceeds the last thing kept is kept. What a test lets in at
the start is kept in whole exactly if it comes in order, with nothing in between that is kept and no smaller. -/
namespace Mybox

namespace Climb

variable {α κ : Type*} [LinearOrder κ] (key : α → κ)

def rising : κ → List α → List α
  | _, [] => []
  | k, x::xs => if k < key x then x::rising (key x) xs else rising k xs

def climb (fresh : α → Bool) : List α → List α
  | [] => []
  | x::xs => if fresh x = true then x::rising key (key x) xs else climb fresh xs

theorem rising_sublist (k : κ) (xs : List α) : List.Sublist (rising key k xs) xs := by
  induction xs generalizing k with
  | nil => exact .slnil
  | cons x xs ih =>
    rw [rising]
    split
    · exact (ih (key x)).cons_cons x
    · exact (ih k).cons x

theorem climb_sublist (fresh : α → Bool) (xs : List α) : List.Sublist (climb key fresh xs) xs := by
  induction xs with
  | nil => exact .slnil
  | cons x xs ih =>
    rw [climb]
    split
    · exact (rising_sublist key (key x) xs).cons_cons x
    · exact ih.cons x

theorem rising_pairwise (k : κ) (xs : List α) :
    (∀ x ∈ rising key k xs, k < key x) ∧ (rising key k xs).Pairwise fun x y => key x < key y := by
  induction xs generalizing k with
  | nil => exact ⟨by simp [rising],.nil⟩
  | cons x xs ih =>
    rw [rising]
    split
    · rename_i h
      obtain ⟨hb,hp⟩ := ih (key x)
      refine ⟨fun y hy => ?_,List.pairwise_cons.mpr ⟨hb,hp⟩⟩
      rcases List.mem_cons.mp hy with rfl | hy
      · exact h
      · exact h.trans (hb y hy)
    · exact ih k

theorem climb_pairwise (fresh : α → Bool) (xs : List α) :
    (climb key fresh xs).Pairwise fun x y => key x < key y := by
  induction xs with
  | nil => exact .nil
  | cons x xs ih =>
    rw [climb]
    split
    · exact List.pairwise_cons.mpr (rising_pairwise key (key x) xs)
    · exact ih

variable {key}

theorem kept_head_iff {P : α → Prop} {x : α} {xs ys : List α} (hx : x ∉ xs) :
    (∀ y ∈ x::xs, P y → y ∈ x::ys) ↔ ∀ y ∈ xs, P y → y ∈ ys := by
  constructor
  · intro hy y hm hp
    rcases List.mem_cons.mp (hy y (List.mem_cons_of_mem x hm) hp) with rfl | hr
    · exact absurd hm hx
    · exact hr
  · intro hy y hm hp
    rcases List.mem_cons.mp hm with rfl | hm
    · exact List.mem_cons_self
    · exact List.mem_cons_of_mem x (hy y hm hp)

/-- All of a kind are kept exactly if each of them exceeds the bound, and what comes before it and exceeds the
bound. -/
theorem rising_all_iff {P : α → Prop} {k : κ} {xs : List α} (hd : xs.Nodup) :
    (∀ x ∈ xs, P x → x ∈ rising key k xs) ↔
      (∀ x ∈ xs, P x → k < key x) ∧ xs.Pairwise fun x y => P y → k < key x → key x < key y := by
  induction xs generalizing k with
  | nil => simp [rising]
  | cons x xs ih =>
    obtain ⟨hx,hd⟩ := List.nodup_cons.mp hd
    rw [rising,List.pairwise_cons]
    split
    · rename_i h
      rw [kept_head_iff hx,ih hd]
      constructor
      · rintro ⟨hb,hp⟩
        refine ⟨fun y hm hy => ?_,fun y hm hy _ => hb y hm hy,?_⟩
        · rcases List.mem_cons.mp hm with rfl | hm
          · exact h
          · exact h.trans (hb y hm hy)
        · refine hp.imp_of_mem fun {y z} hm hz hyz hpz hk => ?_
          rcases lt_or_ge (key x) (key y) with hlt | hge
          · exact hyz hpz hlt
          · exact hge.trans_lt (hb z hz hpz)
      · rintro ⟨-,hb,hp⟩
        exact ⟨fun y hm hy => hb y hm hy h,hp.imp fun hyz hpz hk => hyz hpz (h.trans hk)⟩
    · rename_i h
      constructor
      · intro hy
        have hn : ¬P x := fun hp => hx ((rising_sublist key k xs).subset (hy x List.mem_cons_self hp))
        obtain ⟨hb,hp⟩ := (ih hd).mp fun y hm => hy y (List.mem_cons_of_mem x hm)
        refine ⟨fun y hm hpy => ?_,fun y _ _ hk => absurd hk h,hp⟩
        rcases List.mem_cons.mp hm with rfl | hm
        · exact absurd hpy hn
        · exact hb y hm hpy
      · rintro ⟨hb,-,hp⟩ y hm hy
        rcases List.mem_cons.mp hm with rfl | hm
        · exact absurd (hb y List.mem_cons_self hy) h
        · exact (ih hd).mpr ⟨fun z hz => hb z (List.mem_cons_of_mem x hz),hp⟩ y hm hy

/-- What the test lets in is kept in whole exactly if it comes in order, and nothing that exceeds one of it stands
before another that does not exceed that. -/
theorem climb_all_iff {fresh : α → Bool} {xs : List α} (hd : xs.Nodup) :
    (∀ x ∈ xs, fresh x = true → x ∈ climb key fresh xs) ↔
      (∀ x y, List.Sublist [x,y] xs → fresh x = true → fresh y = true → key x < key y) ∧
      ∀ w x y, List.Sublist [w,x,y] xs → fresh w = true → fresh y = true → key w < key x → key x < key y := by
  induction xs with
  | nil => simp [climb]
  | cons x xs ih =>
    obtain ⟨hx,hd⟩ := List.nodup_cons.mp hd
    rw [climb]
    split
    · rename_i h
      rw [kept_head_iff hx,rising_all_iff hd,List.pairwise_iff_forall_sublist]
      constructor
      · rintro ⟨hb,hp⟩
        constructor
        · intro y z hs hy hz
          rcases List.sublist_cons_iff.mp hs with hs | ⟨r,hr,hs⟩
          · exact hp hs hz (hb y (hs.subset (by simp)) hy)
          · obtain ⟨rfl,rfl⟩ := List.cons.inj hr
            exact hb z (hs.subset (by simp)) hz
        · intro w y z hs hw hz hwy
          rcases List.sublist_cons_iff.mp hs with hs | ⟨r,hr,hs⟩
          · have hwx := hb w (hs.subset (by simp)) hw
            exact hp ((List.sublist_cons_self w [y,z]).trans hs) hz (hwx.trans hwy)
          · obtain ⟨rfl,rfl⟩ := List.cons.inj hr
            exact hp hs hz hwy
      · rintro ⟨h₂,h₃⟩
        refine ⟨fun y hm hy => h₂ x y ((List.singleton_sublist.mpr hm).cons_cons x) h hy,fun {y z} hs hz hk => ?_⟩
        exact h₃ x y z (hs.cons_cons x) h hz hk
    · rename_i h
      have hrest : (∀ y ∈ x::xs, fresh y = true → y ∈ climb key fresh xs) ↔
          ∀ y ∈ xs, fresh y = true → y ∈ climb key fresh xs := by
        simp [h]
      rw [hrest,ih hd]
      constructor
      · rintro ⟨h₂,h₃⟩
        constructor
        · intro y z hs hy hz
          rcases List.sublist_cons_iff.mp hs with hs | ⟨r,hr,hs⟩
          · exact h₂ y z hs hy hz
          · exact absurd ((List.cons.inj hr).1 ▸ hy) h
        · intro w y z hs hw hz hwy
          rcases List.sublist_cons_iff.mp hs with hs | ⟨r,hr,hs⟩
          · exact h₃ w y z hs hw hz hwy
          · exact absurd ((List.cons.inj hr).1 ▸ hw) h
      · rintro ⟨h₂,h₃⟩
        exact ⟨fun y z hs => h₂ y z (hs.cons x),fun w y z hs => h₃ w y z (hs.cons x)⟩

end Climb
end Mybox
