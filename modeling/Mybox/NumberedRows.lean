import Mathlib.Data.List.Sort
import Mathlib.Data.List.Nodup
import Mathlib.Tactic.Common

/-! Rows of a table with a number each that says which place they have. The rows lie in any order; reading the
table goes by the numbers. What happens to the numbers when they are moved up, exchanged or given anew. -/
namespace Mybox
namespace NumberedRows

variable {α : Type}

abbrev Row (α : Type) := ℤ × α

def numbered : ℤ → List α → List (Row α)
  | _, [] => []
  | k, a::as => (k,a)::numbered (k + 1) as

def byId (t : List (Row α)) : List (Row α) := t.insertionSort fun a b => a.1 ≤ b.1

/-- What the rows hold, in the order of their numbers. -/
def inOrder (t : List (Row α)) : List α := (byId t).map Prod.snd

/-- One row after the other gets a new number instead of its old one. -/
def setId (old new : ℤ) (t : List (Row α)) : List (Row α) := t.map fun r => if r.1 = old then (new,r.2) else r

def raise (t : List (Row α)) : List (Row α) := t.map fun r => (r.1 + 1,r.2)

/-- New numbers from a place on, in the order of the old ones. -/
def renumberFrom : ℤ → List ℤ → List (Row α) → List (Row α)
  | _, [], t => t
  | x, i::is, t => renumberFrom (x + 1) is (setId i x t)

def WellNumbered (t : List (Row α)) : Prop := (t.map Prod.fst).Perm ((numbered 1 t).map Prod.fst)

instance (t : List (Row α)) : Decidable (WellNumbered t) := inferInstanceAs (Decidable (List.Perm _ _))

@[simp] theorem numbered_nil (k : ℤ) : numbered k ([] : List α) = [] := rfl

@[simp] theorem length_numbered (k : ℤ) (l : List α) : (numbered k l).length = l.length := by
  induction l generalizing k with
  | nil => rfl
  | cons a l ih => simp [numbered,ih]

@[simp] theorem numbered_snd (k : ℤ) (l : List α) : (numbered k l).map Prod.snd = l := by
  induction l generalizing k with
  | nil => rfl
  | cons a l ih => simp [numbered,ih]

theorem numbered_append (k : ℤ) (l m : List α) :
    numbered k (l ++ m) = numbered k l ++ numbered (k + l.length) m := by
  induction l generalizing k with
  | nil => simp
  | cons a l ih =>
    rw [List.cons_append,numbered,ih,numbered,List.cons_append,List.length_cons]
    congr 3
    push_cast
    omega

theorem raise_numbered (k : ℤ) (l : List α) : raise (numbered k l) = numbered (k + 1) l := by
  induction l generalizing k with
  | nil => rfl
  | cons a l ih => rw [numbered,raise,List.map_cons,← raise,ih]; rfl

theorem numbered_fst {β : Type} {l : List α} {m : List β} (h : l.length = m.length) (k : ℤ) :
    (numbered k l).map Prod.fst = (numbered k m).map Prod.fst := by
  induction l generalizing k m with
  | nil =>
    obtain rfl := List.length_eq_zero_iff.mp h.symm
    rfl
  | cons a l ih =>
    cases m with
    | nil => simp at h
    | cons b m => simp [numbered,ih (by simpa using h)]

theorem mem_numbered_bounds {k : ℤ} {l : List α} {r : Row α} (h : r ∈ numbered k l) :
    k ≤ r.1 ∧ r.1 < k + l.length := by
  induction l generalizing k with
  | nil => simp at h
  | cons a l ih =>
    rw [List.length_cons]
    rcases List.mem_cons.mp h with rfl | h
    · dsimp only
      omega
    · have hh := ih h
      omega

theorem numbered_pairwise (k : ℤ) (l : List α) : (numbered k l).Pairwise fun a b => a.1 < b.1 := by
  induction l generalizing k with
  | nil => exact List.Pairwise.nil
  | cons a l ih =>
    refine List.Pairwise.cons (fun r hr => ?_) (ih _)
    have h := (mem_numbered_bounds hr).1
    dsimp only
    omega

/-- The row with a number in reach. -/
theorem filter_numbered (k : ℤ) (l : List α) (i : ℕ) :
    ((numbered k l).filter fun r => r.1 = k + i).map Prod.snd = l[i]?.toList := by
  induction l generalizing k i with
  | nil => rfl
  | cons a l ih =>
    rw [numbered,List.filter_cons]
    cases i with
    | zero =>
      have hn : (numbered (k + 1) l).filter (fun r => r.1 = k + (0 : ℕ)) = [] := by
        refine List.filter_eq_nil_iff.mpr fun r hr => ?_
        have h := (mem_numbered_bounds hr).1
        rw [decide_eq_true_eq]
        push_cast
        omega
      rw [if_pos (by simp),hn]
      rfl
    | succ i =>
      have hk : ∀ r : Row α, (r.1 = k + (i + 1 : ℕ)) ↔ r.1 = k + 1 + (i : ℕ) := by
        intro r
        push_cast
        omega
      rw [if_neg (by simp; omega),List.getElem?_cons_succ,← ih (k + 1) i]
      simp only [hk]

theorem byId_perm (t : List (Row α)) : (byId t).Perm t := List.perm_insertionSort _ t

theorem byId_strict {t : List (Row α)} (h : (t.map Prod.fst).Nodup) : (byId t).Pairwise fun a b => a.1 < b.1 := by
  have : Std.Total fun a b : Row α => a.1 ≤ b.1 := ⟨fun a b => le_total a.1 b.1⟩
  have : IsTrans (Row α) fun a b => a.1 ≤ b.1 := ⟨fun _ _ _ h h' => le_trans h h'⟩
  have hle : (byId t).Pairwise fun a b => a.1 ≤ b.1 := List.pairwise_insertionSort _ t
  have hd : (byId t).Pairwise fun a b => a.1 ≠ b.1 :=
    List.pairwise_map.mp (((byId_perm t).map Prod.fst).nodup_iff.mpr h)
  exact (hle.and hd).imp fun h => lt_of_le_of_ne h.1 h.2

theorem byId_eq {t s : List (Row α)} (h : t.Perm s) (hs : s.Pairwise fun a b => a.1 < b.1) : byId t = s := by
  have hn : (t.map Prod.fst).Nodup :=
    (h.map Prod.fst).nodup_iff.mpr (List.pairwise_map.mpr (hs.imp fun h => ne_of_lt h))
  exact ((byId_perm t).trans h).eq_of_pairwise (fun a b _ _ hab hba => absurd hab (lt_asymm hba)) (byId_strict hn) hs

theorem inOrder_numbered {t : List (Row α)} {k : ℤ} {l : List α} (h : t.Perm (numbered k l)) : inOrder t = l := by
  rw [inOrder,byId_eq h (numbered_pairwise k l),numbered_snd]

theorem inOrder_perm (t : List (Row α)) : (inOrder t).Perm (t.map Prod.snd) := (byId_perm t).map _

@[simp] theorem length_inOrder (t : List (Row α)) : (inOrder t).length = t.length := by
  simpa using (inOrder_perm t).length_eq

theorem eq_numbered {s : List (Row α)} {k : ℤ} (h : s.map Prod.fst = (numbered k s).map Prod.fst) :
    s = numbered k (s.map Prod.snd) := by
  induction s generalizing k with
  | nil => rfl
  | cons r s ih =>
    simp only [numbered,List.map_cons,List.cons.injEq] at h ⊢
    exact ⟨Prod.ext h.1 rfl,ih h.2⟩

theorem wellNumbered_iff {t : List (Row α)} : WellNumbered t ↔ t.Perm (numbered 1 (inOrder t)) := by
  constructor
  · intro h
    have hnum : ((numbered 1 t).map Prod.fst).Pairwise (· < ·) := List.pairwise_map.mpr (numbered_pairwise 1 t)
    have hsort := byId_strict (h.nodup_iff.mpr (hnum.imp fun hl => ne_of_lt hl))
    have he : (byId t).map Prod.fst = (numbered 1 t).map Prod.fst :=
      (((byId_perm t).map Prod.fst).trans h).eq_of_pairwise (fun a b _ _ hab hba => absurd hab (lt_asymm hba))
        (List.pairwise_map.mpr hsort) hnum
    rw [numbered_fst (byId_perm t).length_eq.symm] at he
    exact (byId_perm t).symm.trans (List.Perm.of_eq (eq_numbered he))
  · intro h
    exact (h.map Prod.fst).trans (List.Perm.of_eq (numbered_fst (length_inOrder t) 1))

theorem wellNumbered_of_perm {t : List (Row α)} {l : List α} (h : t.Perm (numbered 1 l)) : WellNumbered t := by
  rw [wellNumbered_iff,inOrder_numbered h]
  exact h

theorem WellNumbered.nodup {t : List (Row α)} (h : WellNumbered t) : (t.map Prod.fst).Nodup :=
  List.Perm.nodup_iff h |>.mpr (List.pairwise_map.mpr ((numbered_pairwise 1 t).imp fun hl => ne_of_lt hl))

theorem WellNumbered.bounds {t : List (Row α)} (h : WellNumbered t) {r : Row α} (hr : r ∈ t) :
    1 ≤ r.1 ∧ r.1 ≤ t.length := by
  obtain ⟨q,hq,he⟩ := List.mem_map.mp ((List.Perm.mem_iff h).mp (List.mem_map_of_mem (f:=Prod.fst) hr))
  have hb := mem_numbered_bounds hq
  omega

def newId : ℤ → List ℤ → ℤ → ℤ
  | _, [], i => i
  | x, j::js, i => newId (x + 1) js (if i = j then x else i)

theorem renumberFrom_eq (x : ℤ) (is : List ℤ) (t : List (Row α)) :
    renumberFrom x is t = t.map fun r => (newId x is r.1,r.2) := by
  induction is generalizing x t with
  | nil => simp [renumberFrom,newId]
  | cons i is ih =>
    rw [renumberFrom,ih,setId,List.map_map]
    refine List.map_congr_left fun r _ => ?_
    simp only [Function.comp_apply,newId]
    split <;> rfl

theorem newId_of_not_mem (x : ℤ) {is : List ℤ} {i : ℤ} (h : i ∉ is) : newId x is i = i := by
  induction is generalizing x with
  | nil => rfl
  | cons j is ih =>
    simp only [List.mem_cons,not_or] at h
    rw [newId,if_neg h.1,ih _ h.2]

/-- No row is met twice, as the new numbers stay behind the old ones. -/
theorem map_newId {s : List (Row α)} {x : ℤ} (hs : s.Pairwise fun a b => a.1 < b.1) (hx : ∀ r ∈ s, x < r.1) :
    s.map (fun r => (newId x (s.map Prod.fst) r.1,r.2)) = numbered x (s.map Prod.snd) := by
  induction s generalizing x with
  | nil => rfl
  | cons r s ih =>
    obtain ⟨hr,hs⟩ := List.pairwise_cons.mp hs
    have hxr := hx r (by simp)
    have hnot : x ∉ s.map Prod.fst := by
      intro hm
      obtain ⟨q,hq,he⟩ := List.mem_map.mp hm
      have := hr q hq
      omega
    have hx' : ∀ q ∈ s, x + 1 < q.1 := fun q hq => by
      have := hr q hq
      omega
    rw [List.map_cons,List.map_cons,List.map_cons,numbered,newId,if_pos rfl,newId_of_not_mem _ hnot,← ih hs hx']
    congr 1
    refine List.map_congr_left fun q hq => ?_
    have hne : ¬q.1 = r.1 := by
      have := hr q hq
      omega
    rw [newId,if_neg hne]

theorem renumberFrom_spec {t : List (Row α)} {x : ℤ} (hd : (t.map Prod.fst).Nodup) (hx : ∀ r ∈ t, x < r.1) :
    (renumberFrom x ((byId t).map Prod.fst) t).Perm (numbered x (inOrder t)) := by
  rw [renumberFrom_eq,inOrder,← map_newId (byId_strict hd) fun r hr => hx r ((byId_perm t).mem_iff.mp hr)]
  exact (byId_perm t).symm.map _

theorem raise_perm {t : List (Row α)} {k : ℤ} {l : List α} (h : t.Perm (numbered k l)) :
    (raise t).Perm (numbered (k + 1) l) := by
  rw [← raise_numbered]
  exact h.map _

theorem byId_raise {t : List (Row α)} (hd : (t.map Prod.fst).Nodup) : byId (raise t) = raise (byId t) := by
  refine byId_eq ((byId_perm t).symm.map _) (List.pairwise_map.mpr ((byId_strict hd).imp fun h => ?_))
  dsimp only
  omega

theorem inOrder_raise {t : List (Row α)} (hd : (t.map Prod.fst).Nodup) : inOrder (raise t) = inOrder t := by
  rw [inOrder,byId_raise hd,raise,List.map_map]
  rfl

end NumberedRows
end Mybox
