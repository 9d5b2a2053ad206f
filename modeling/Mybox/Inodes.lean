import Mybox.OrderedMap
import Mathlib.Logic.Function.Basic
import Mathlib.Tactic.Common

/-! Files and the names that lead to them. A process that has opened a file keeps it, whatever becomes of
the name. -/
namespace Mybox

/-- The names, the text of each file ever made, and the number the next one gets. No two names lead to one
file. -/
structure Files (ν α : Type) [DecidableEq ν] where
  entry : OrdMap ν ℕ
  text : ℕ → List α
  fresh : ℕ
  bound : ∀ n i, entry.get? n = some i → i < fresh
  single : ∀ n m i, entry.get? n = some i → entry.get? m = some i → n = m

namespace Files

variable {ν α : Type} [DecidableEq ν]

def empty : Files ν α := ⟨∅,fun _ => [],0,fun _ _ h => by simp at h,fun _ _ _ h => by simp at h⟩

def find (d : Files ν α) (n : ν) : Option ℕ := d.entry.get? n

/-- What is read under a name; nothing if there is none. -/
def read (d : Files ν α) (n : ν) : List α := ((d.find n).map d.text).getD []

def make (d : Files ν α) (n : ν) : Files ν α where
  entry := d.entry.set n d.fresh
  text := Function.update d.text d.fresh []
  fresh := d.fresh + 1
  bound m i h := by
    rw [OrdMap.get?_set] at h
    split at h
    · cases h
      exact Nat.lt_succ_self _
    · exact Nat.lt_succ_of_lt (d.bound m i h)
  single m k i hm hk := by
    rw [OrdMap.get?_set] at hm hk
    split at hm <;> split at hk
    · rename_i h h'
      rw [← h,← h']
    · cases hm
      exact absurd (d.bound k d.fresh hk) (Nat.lt_irrefl _)
    · cases hk
      exact absurd (d.bound m d.fresh hm) (Nat.lt_irrefl _)
    · exact d.single m k i hm hk

/-- Opening with `O_CREAT`: the file, and the files after it. -/
def openFile (d : Files ν α) (n : ν) : ℕ × Files ν α :=
  match d.find n with
  | some i => (i,d)
  | none => (d.fresh,d.make n)

def update (d : Files ν α) (i : ℕ) (f : List α → List α) : Files ν α :=
  { d with text := Function.update d.text i (f (d.text i)) }

/-- Opening with `O_CREAT | O_TRUNC`. -/
def openTrunc (d : Files ν α) (n : ν) : ℕ × Files ν α :=
  ((d.openFile n).1,(d.openFile n).2.update (d.openFile n).1 fun _ => [])

def unlink (d : Files ν α) (n : ν) : Files ν α where
  entry := d.entry.erase n
  text := d.text
  fresh := d.fresh
  bound m i h := by
    rw [OrdMap.get?_erase] at h
    split at h
    · cases h
    · exact d.bound m i h
  single m k i hm hk := by
    rw [OrdMap.get?_erase] at hm hk
    split at hm <;> split at hk
    · cases hm
    · cases hm
    · cases hk
    · exact d.single m k i hm hk

def rename (d : Files ν α) (n m : ν) : Option (Files ν α) :=
  match h : d.find n with
  | none => none
  | some i => some
    { entry := (d.entry.erase n).set m i
      text := d.text
      fresh := d.fresh
      bound := fun k j hj => by
        rw [OrdMap.get?_set,OrdMap.get?_erase] at hj
        split at hj
        · cases hj
          exact d.bound n i h
        · split at hj
          · cases hj
          · exact d.bound k j hj
      single := fun k l j hk hl => by
        have ho : ∀ k, m ≠ k → ((d.entry.erase n).set m i).get? k = some j → n ≠ k ∧ d.find k = some j := by
          intro k hk hj
          rw [OrdMap.get?_set,if_neg hk,OrdMap.get?_erase] at hj
          split at hj
          · cases hj
          · rename_i hn
            exact ⟨hn,hj⟩
        by_cases hmk : m = k <;> by_cases hml : m = l
        · rw [← hmk,← hml]
        · obtain ⟨hn,hd⟩ := ho l hml hl
          rw [← hmk,OrdMap.get?_set_self] at hk
          cases hk
          exact absurd (d.single n l i h hd) hn
        · obtain ⟨hn,hd⟩ := ho k hmk hk
          rw [← hml,OrdMap.get?_set_self] at hl
          cases hl
          exact absurd (d.single n k i h hd) hn
        · exact d.single k l j (ho k hmk hk).2 (ho l hml hl).2 }

variable (d : Files ν α)

@[simp] theorem find_empty (n : ν) : (empty : Files ν α).find n = none := rfl

theorem find_lt {n : ν} {i : ℕ} (h : d.find n = some i) : i < d.fresh := d.bound n i h

theorem find_make (n m : ν) : (d.make n).find m = if n = m then some d.fresh else d.find m :=
  OrdMap.get?_set d.entry n m d.fresh

@[simp] theorem find_update (i : ℕ) (f : List α → List α) (n : ν) : (d.update i f).find n = d.find n := rfl

@[simp] theorem fresh_update (i : ℕ) (f : List α → List α) : (d.update i f).fresh = d.fresh := rfl

@[simp] theorem text_update_self (i : ℕ) (f : List α → List α) : (d.update i f).text i = f (d.text i) :=
  Function.update_self ..

theorem text_update_ne {i j : ℕ} (f : List α → List α) (h : j ≠ i) : (d.update i f).text j = d.text j :=
  Function.update_of_ne h ..

theorem find_unlink (n m : ν) : (d.unlink n).find m = if n = m then none else d.find m :=
  OrdMap.get?_erase d.entry n m

@[simp] theorem text_unlink (n : ν) : (d.unlink n).text = d.text := rfl

@[simp] theorem fresh_unlink (n : ν) : (d.unlink n).fresh = d.fresh := rfl

@[simp] theorem find_openFile_self (n : ν) : (d.openFile n).2.find n = some (d.openFile n).1 := by
  unfold openFile
  split
  · assumption
  · simp [find_make]

theorem find_openFile_ne {n m : ν} (h : n ≠ m) : (d.openFile n).2.find m = d.find m := by
  unfold openFile
  split
  · rfl
  · simp [find_make,h]

theorem text_openFile {i : ℕ} (n : ν) (h : i < d.fresh) : (d.openFile n).2.text i = d.text i := by
  unfold openFile
  split
  · rfl
  · exact Function.update_of_ne (Nat.ne_of_lt h) ..

theorem text_openFile_self (n : ν) : (d.openFile n).2.text (d.openFile n).1 = d.read n := by
  unfold openFile read
  split <;> rename_i h
  · simp [h]
  · simp [h,make]

theorem find_openFile_isSome {m : ν} (n : ν) (h : (d.find m).isSome) : ((d.openFile n).2.find m).isSome := by
  by_cases he : n = m
  · subst he
    simp
  · rw [find_openFile_ne d he]
    exact h

theorem read_eq {n : ν} {i : ℕ} (h : d.find n = some i) : d.read n = d.text i := by
  simp [read,h]

theorem read_openFile_self (n : ν) : (d.openFile n).2.read n = d.read n := by
  rw [read_eq _ (d.find_openFile_self n),text_openFile_self]

theorem read_openFile_ne {n m : ν} (h : n ≠ m) : (d.openFile n).2.read m = d.read m := by
  unfold read
  rw [find_openFile_ne d h]
  cases hm : d.find m with
  | none => rfl
  | some i => exact d.text_openFile n (d.find_lt hm)

theorem read_update_self {n : ν} {i : ℕ} (f : List α → List α) (h : d.find n = some i) :
    (d.update i f).read n = f (d.read n) := by
  simp [read,h]

theorem read_update_ne {n : ν} {i : ℕ} (f : List α → List α) (h : d.find n ≠ some i) :
    (d.update i f).read n = d.read n := by
  unfold read
  rw [find_update]
  cases hn : d.find n with
  | none => rfl
  | some j =>
    refine text_update_ne d f fun hj => h ?_
    rw [hn,hj]

theorem read_unlink_ne {n m : ν} (h : n ≠ m) : (d.unlink n).read m = d.read m := by
  unfold read
  rw [find_unlink,if_neg h]
  rfl

theorem rename_eq_some {n m : ν} {e : Files ν α} (h : d.rename n m = some e) :
    ∃ i, d.find n = some i ∧ (∀ k, e.find k = if m = k then some i else if n = k then none else d.find k) ∧
      e.text = d.text ∧ e.fresh = d.fresh := by
  unfold rename at h
  split at h
  · cases h
  · rename_i i hi
    cases h
    refine ⟨i,hi,fun k => ?_,rfl,rfl⟩
    simp only [find,OrdMap.get?_set,OrdMap.get?_erase]

theorem read_rename {n m : ν} {e : Files ν α} (hne : n ≠ m) (h : d.rename n m = some e) :
    e.read m = d.read n ∧ e.find n = none ∧ e.read n = [] := by
  obtain ⟨i,hi,hf,ht,-⟩ := d.rename_eq_some h
  have hn : e.find n = none := by rw [hf,if_neg (Ne.symm hne),if_pos rfl]
  refine ⟨?_,hn,by simp [read,hn]⟩
  rw [read_eq e (hf m ▸ if_pos rfl),ht,read_eq d hi]

end Files
end Mybox
