import Mybox.LineText
import Mathlib.Data.List.Nodup
import Mathlib.Data.List.Basic
import Mathlib.Data.List.Induction
import Mathlib.Data.List.Sort

/-! Insertion-ordered maps: an association list whose keys are pairwise distinct.
Assigning to a present key keeps its position, assigning to a new one appends it. -/
namespace Mybox

structure OrdMap (κ α : Type) where
  entries : List (κ × α)
  nodup : (entries.map Prod.fst).Nodup
  deriving DecidableEq

namespace OrdMap

variable {κ α β : Type}

section Lists

variable [DecidableEq κ]

def lookup (k : κ) : List (κ × α) → Option α
  | [] => none
  | (j,a)::es => if j = k then some a else lookup k es

def assign (k : κ) (a : α) : List (κ × α) → List (κ × α)
  | [] => [(k,a)]
  | (j,b)::es => if j = k then (k,a)::es else (j,b)::assign k a es

def discard (k : κ) (es : List (κ × α)) : List (κ × α) := es.filter (fun e => e.1 ≠ k)

theorem assign_keys (k : κ) (a : α) (es : List (κ × α)) :
    (assign k a es).map Prod.fst =
      if k ∈ es.map Prod.fst then es.map Prod.fst else es.map Prod.fst ++ [k] := by
  induction es with
  | nil => rfl
  | cons e es ih =>
    rcases e with ⟨j,b⟩
    by_cases hj : j = k
    · subst hj; simp [assign]
    · simp only [assign,hj,if_false,List.map_cons,ih,List.mem_cons,Ne.symm hj,false_or]
      split <;> rfl

theorem assign_nodup {k : κ} {a : α} {es : List (κ × α)} (h : (es.map Prod.fst).Nodup) :
    ((assign k a es).map Prod.fst).Nodup := by
  rw [assign_keys]
  split
  · exact h
  · rename_i hk
    exact List.nodup_append.mpr ⟨h,by simp,by
      rintro a ha b hb rfl
      exact hk (by simpa [List.mem_singleton.mp hb] using ha)⟩

theorem assign_fresh {k : κ} (a : α) {es : List (κ × α)} (h : k ∉ es.map Prod.fst) :
    assign k a es = es ++ [(k,a)] := by
  induction es with
  | nil => rfl
  | cons e es ih =>
    simp only [List.map_cons,List.mem_cons,not_or] at h
    simp [assign,Ne.symm h.1,ih h.2]

theorem assign_middle {k : κ} (b a : α) {es : List (κ × α)} (h : k ∉ es.map Prod.fst) (fs : List (κ × α)) :
    assign k a (es ++ (k,b)::fs) = es ++ (k,a)::fs := by
  induction es with
  | nil => exact if_pos rfl
  | cons e es ih =>
    simp only [List.map_cons,List.mem_cons,not_or] at h
    simp [assign,Ne.symm h.1,ih h.2]

theorem lookup_assign (k j : κ) (a : α) (es : List (κ × α)) :
    lookup j (assign k a es) = if k = j then some a else lookup j es := by
  induction es with
  | nil => simp [assign,lookup]
  | cons e es ih =>
    rcases e with ⟨i,b⟩
    by_cases hi : i = k
    · subst hi; by_cases hj : i = j <;> simp [assign,lookup,hj]
    · by_cases hj : i = j
      · subst hj; simp [assign,lookup,hi,Ne.symm hi]
      · simp [assign,lookup,hi,hj,ih]

theorem lookup_discard (k j : κ) (es : List (κ × α)) :
    lookup j (discard k es) = if k = j then none else lookup j es := by
  induction es with
  | nil => simp [discard,lookup]
  | cons e es ih =>
    rcases e with ⟨i,b⟩
    unfold discard at ih ⊢
    by_cases hi : i = k
    · subst hi; by_cases hj : i = j <;> simp [lookup,hj] at ih ⊢ <;> exact ih
    · by_cases hj : i = j
      · subst hj; simp [lookup,hi,Ne.symm hi]
      · simp [lookup,hi,hj] at ih ⊢; exact ih

theorem lookup_cons_self (k : κ) (a : α) (es : List (κ × α)) : lookup k ((k,a)::es) = some a := if_pos rfl

theorem lookup_cons_ne {k j : κ} (h : j ≠ k) (a : α) (es : List (κ × α)) :
    lookup k ((j,a)::es) = lookup k es := if_neg h

theorem lookup_eq_none {k : κ} {es : List (κ × α)} :
    lookup k es = none ↔ k ∉ es.map Prod.fst := by
  induction es with
  | nil => simp [lookup]
  | cons e es ih =>
    by_cases h : e.1 = k
    · simp [lookup,h]
    · simp [lookup,h,ih,Ne.symm h]

theorem lookup_eq_some {k : κ} {a : α} {es : List (κ × α)} (h : (es.map Prod.fst).Nodup) :
    lookup k es = some a ↔ (k,a) ∈ es := by
  induction es with
  | nil => simp [lookup]
  | cons e es ih =>
    rcases e with ⟨j,b⟩
    simp only [List.map_cons,List.nodup_cons] at h
    by_cases hj : j = k
    · subst hj
      simp only [lookup,if_true,Option.some.injEq,List.mem_cons,Prod.mk.injEq,true_and]
      constructor
      · exact fun h => Or.inl h.symm
      · rintro (h' | h')
        · exact h'.symm
        · exact absurd (List.mem_map_of_mem (f:=Prod.fst) h') h.1
    · simp [lookup,hj,ih h.2,Ne.symm hj]

end Lists

@[ext] theorem ext {a b : OrdMap κ α} (h : a.entries = b.entries) : a = b := by
  cases a; cases b; simpa using h

def empty : OrdMap κ α := ⟨[],by simp⟩

instance : EmptyCollection (OrdMap κ α) := ⟨empty⟩

@[simp] theorem empty_entries : (∅ : OrdMap κ α).entries = [] := rfl

def keys (m : OrdMap κ α) : List κ := m.entries.map Prod.fst

def isEmpty (m : OrdMap κ α) : Bool := m.entries.isEmpty

@[simp] theorem isEmpty_iff {m : OrdMap κ α} : m.isEmpty = true ↔ m = ∅ := by
  simp [isEmpty,OrdMap.ext_iff]

/-- Values are changed in place, so the keys stay distinct. -/
def mapEntries (f : κ → α → β) (m : OrdMap κ α) : OrdMap κ β where
  entries := m.entries.map fun e => (e.1,f e.1 e.2)
  nodup := by simpa [List.map_map,Function.comp_def] using m.nodup

@[simp] theorem mapEntries_keys (f : κ → α → β) (m : OrdMap κ α) :
    (m.mapEntries f).keys = m.keys := by
  simp [keys,mapEntries,List.map_map,Function.comp_def]

def select (p : κ → α → Bool) (m : OrdMap κ α) : OrdMap κ α where
  entries := m.entries.filter fun e => p e.1 e.2
  nodup := m.nodup.sublist (List.filter_sublist.map _)

def sortKeys (le : κ → κ → Bool) (m : OrdMap κ α) : OrdMap κ α where
  entries := m.entries.insertionSort fun a b => le a.1 b.1
  nodup := ((List.perm_insertionSort _ _).map _).nodup_iff.mpr m.nodup

def embed {ι : Type} (f : κ → ι) (g : α → β) (hf : Function.Injective f) (m : OrdMap κ α) :
    OrdMap ι β where
  entries := m.entries.map fun e => (f e.1,g e.2)
  nodup := by
    have h := m.nodup.map hf
    simpa [List.map_map,Function.comp_def] using h

theorem keys_embed {ι : Type} {f : κ → ι} (g : α → β) (hf : Function.Injective f)
    (m : OrdMap κ α) : (m.embed f g hf).keys = m.keys.map f := by
  simp [keys,embed,List.map_map,Function.comp_def]

section Operations

variable [DecidableEq κ]

def get? (m : OrdMap κ α) (k : κ) : Option α := lookup k m.entries

def set (m : OrdMap κ α) (k : κ) (a : α) : OrdMap κ α :=
  ⟨assign k a m.entries,assign_nodup m.nodup⟩

def erase (m : OrdMap κ α) (k : κ) : OrdMap κ α :=
  ⟨discard k m.entries,m.nodup.sublist (List.filter_sublist.map _)⟩

def getD (m : OrdMap κ α) (k : κ) (a : α) : α := (m.get? k).getD a

def setAll (m : OrdMap κ α) (es : List (κ × α)) : OrdMap κ α :=
  es.foldl (fun m e => m.set e.1 e.2) m

@[simp] theorem get?_empty (k : κ) : (∅ : OrdMap κ α).get? k = none := rfl

theorem get?_set (m : OrdMap κ α) (k j : κ) (a : α) :
    (m.set k a).get? j = if k = j then some a else m.get? j := lookup_assign k j a m.entries

@[simp] theorem get?_set_self (m : OrdMap κ α) (k : κ) (a : α) :
    (m.set k a).get? k = some a := by simp [get?_set]

theorem get?_set_ne (m : OrdMap κ α) {k j : κ} (a : α) (h : k ≠ j) :
    (m.set k a).get? j = m.get? j := by simp [get?_set,h]

theorem get?_erase (m : OrdMap κ α) (k j : κ) :
    (m.erase k).get? j = if k = j then none else m.get? j := lookup_discard k j m.entries

theorem get?_select (p : κ → Bool) (m : OrdMap κ α) (k : κ) :
    (m.select fun j _ => p j).get? k = if p k then m.get? k else none := by
  have hl : ∀ es : List (κ × α), lookup k (es.filter fun e => p e.1) = if p k then lookup k es else none := by
    intro es
    induction es with
    | nil => simp [lookup]
    | cons e es ih =>
      by_cases hk : e.1 = k
      · subst hk
        by_cases hp : p e.1 = true
        · rw [List.filter_cons,if_pos hp,if_pos hp,lookup_cons_self,lookup_cons_self]
        · rw [List.filter_cons,if_neg hp,ih,if_neg hp,if_neg hp]
      · rw [lookup_cons_ne hk,← ih,List.filter_cons]
        split
        · exact lookup_cons_ne hk _ _
        · rfl
  exact hl m.entries

theorem get?_eq_none {m : OrdMap κ α} {k : κ} : m.get? k = none ↔ k ∉ m.keys := lookup_eq_none

theorem get?_eq_some {m : OrdMap κ α} {k : κ} {a : α} :
    m.get? k = some a ↔ (k,a) ∈ m.entries := lookup_eq_some m.nodup

theorem forall_get? {m : OrdMap κ α} {p : κ → α → Prop} :
    (∀ k a, m.get? k = some a → p k a) ↔ ∀ e ∈ m.entries, p e.1 e.2 :=
  ⟨fun h _ he => h _ _ (get?_eq_some.mpr he),fun h k a ha => h (k,a) (get?_eq_some.mp ha)⟩

omit [DecidableEq κ] in
theorem nodup_entries (m : OrdMap κ α) : m.entries.Nodup := List.Nodup.of_map Prod.fst m.nodup

theorem erase_of_none {m : OrdMap κ α} {k : κ} (h : m.get? k = none) : m.erase k = m :=
  OrdMap.ext (List.filter_eq_self.mpr fun e he => decide_eq_true fun hk =>
    get?_eq_none.mp h (List.mem_map.mpr ⟨e,he,hk⟩))

theorem filter_key [DecidableEq α] {m : OrdMap κ α} {k : κ} {a : α} (h : m.get? k = some a) {q : κ → Bool}
    (hq : ∀ j ∈ m.keys, q j = true ↔ j = k) : m.entries.filter (fun e => q e.1) = [(k,a)] := by
  have hk : ∀ e ∈ m.entries, q e.1 = (e == (k,a)) := by
    intro e he
    rw [Bool.eq_iff_iff,hq e.1 (List.mem_map_of_mem he),beq_iff_eq]
    constructor
    · intro h₁
      have hg := get?_eq_some.mpr he
      rw [h₁,h] at hg
      exact Prod.ext h₁ (Option.some.inj hg).symm
    · rintro rfl
      rfl
  calc
    m.entries.filter (fun e => q e.1) = m.entries.filter (· == (k,a)) := List.filter_congr hk
    _ = List.replicate (m.entries.count (k,a)) (k,a) := List.filter_beq _
    _ = [(k,a)] := by
      rw [List.count_eq_one_of_mem m.nodup_entries (get?_eq_some.mp h)]
      rfl

/-- An entry and the others. -/
theorem perm_erase {m : OrdMap κ α} {k : κ} {a : α} (h : m.get? k = some a) :
    m.entries.Perm ((k,a)::(m.erase k).entries) := by
  have hm : ∀ e : κ × α, e ∈ (m.erase k).entries ↔ k ≠ e.1 ∧ e ∈ m.entries := by
    intro e
    rw [← get?_eq_some,get?_erase]
    split
    · rename_i he
      simp [he]
    · rename_i he
      rw [get?_eq_some]
      exact ⟨fun h => ⟨he,h⟩,And.right⟩
  refine (List.perm_ext_iff_of_nodup m.nodup_entries
    (List.nodup_cons.mpr ⟨fun hk => ((hm (k,a)).mp hk).1 rfl,nodup_entries _⟩)).mpr fun e => ?_
  rw [List.mem_cons,hm]
  constructor
  · intro he
    by_cases hk : k = e.1
    · refine Or.inl (Prod.ext hk.symm ?_)
      rw [← get?_eq_some,← hk,h,Option.some.injEq] at he
      exact he.symm
    · exact Or.inr ⟨hk,he⟩
  · rintro (rfl | ⟨-,he⟩)
    · exact get?_eq_some.mp h
    · exact he

theorem erase_set (m : OrdMap κ α) (k : κ) (a : α) : (m.set k a).erase k = m.erase k := by
  have hd : ∀ es : List (κ × α), discard k (assign k a es) = discard k es := by
    intro es
    induction es with
    | nil => simp [assign,discard]
    | cons e es ih =>
      unfold assign
      split
      · rename_i he
        simp [discard,he]
      · simp only [discard,List.filter_cons] at ih ⊢
        rw [ih]
  exact ext (hd m.entries)

theorem perm_set (m : OrdMap κ α) (k : κ) (a : α) :
    (m.set k a).entries.Perm ((k,a)::(m.erase k).entries) := by
  rw [← erase_set m k a]
  exact perm_erase (get?_set_self m k a)

theorem keys_set (m : OrdMap κ α) (k : κ) (a : α) :
    (m.set k a).keys = if k ∈ m.keys then m.keys else m.keys ++ [k] :=
  assign_keys k a m.entries

theorem mem_keys_set (m : OrdMap κ α) {k j : κ} (a : α) : j ∈ (m.set k a).keys ↔ j ∈ m.keys ∨ j = k := by
  rw [keys_set]
  split
  · rename_i h
    exact ⟨Or.inl,fun hj => hj.elim id fun he => he ▸ h⟩
  · simp

theorem length_set (m : OrdMap κ α) (k : κ) (a : α) :
    (m.set k a).entries.length = m.entries.length + if m.get? k = none then 1 else 0 := by
  have hk : ∀ m : OrdMap κ α, m.keys.length = m.entries.length := fun m => by simp [keys]
  rw [← hk,keys_set,← hk]
  by_cases h : k ∈ m.keys
  · have hg : m.get? k ≠ none := fun hn => get?_eq_none.mp hn h
    rw [if_pos h,if_neg hg,Nat.add_zero]
  · rw [if_neg h,if_pos (get?_eq_none.mpr h),List.length_append,List.length_singleton]

theorem mem_set {m : OrdMap κ α} {k : κ} {a : α} {e : κ × α} (h : e ∈ (m.set k a).entries) :
    e = (k,a) ∨ e ∈ m.entries := by
  have hg := get?_eq_some.mpr (show (e.1,e.2) ∈ (m.set k a).entries from h)
  rw [get?_set] at hg
  split at hg
  · rename_i hk
    rw [Option.some.injEq] at hg
    exact Or.inl (Prod.ext hk.symm hg.symm)
  · exact Or.inr (get?_eq_some.mp hg)

theorem set_entries_fresh (m : OrdMap κ α) {k : κ} (a : α) (h : k ∉ m.keys) :
    (m.set k a).entries = m.entries ++ [(k,a)] := assign_fresh a h

theorem set_ne_empty (m : OrdMap κ α) (k : κ) (a : α) : m.set k a ≠ ∅ := by
  intro h
  have hg := get?_set_self m k a
  rw [h] at hg
  simp at hg

@[simp] theorem setAll_nil (m : OrdMap κ α) : m.setAll [] = m := rfl

@[simp] theorem setAll_cons (m : OrdMap κ α) (e : κ × α) (es : List (κ × α)) :
    m.setAll (e::es) = (m.set e.1 e.2).setAll es := rfl

theorem setAll_entries_fresh (m : OrdMap κ α) (es : List (κ × α))
    (hd : (es.map Prod.fst).Nodup) (hf : ∀ e ∈ es, e.1 ∉ m.keys) :
    (m.setAll es).entries = m.entries ++ es := by
  induction es generalizing m with
  | nil => simp
  | cons e es ih =>
    simp only [List.map_cons,List.nodup_cons,List.mem_map,not_exists,not_and] at hd
    have he : e.1 ∉ m.keys := hf e (by simp)
    have hk : (m.set e.1 e.2).keys = m.keys ++ [e.1] := by rw [keys_set,if_neg he]
    rw [setAll_cons,ih _ hd.2,set_entries_fresh _ _ he,List.append_assoc,List.singleton_append]
    intro x hx hm
    rw [hk,List.mem_append,List.mem_singleton] at hm
    rcases hm with hm | hm
    · exact hf x (by simp [hx]) hm
    · exact hd.1 x hx hm

theorem get?_setAll_of_not_mem (m : OrdMap κ α) {k : κ} {es : List (κ × α)}
    (h : k ∉ es.map Prod.fst) : (m.setAll es).get? k = m.get? k := by
  induction es generalizing m with
  | nil => rfl
  | cons e es ih =>
    simp only [List.map_cons,List.mem_cons,not_or] at h
    rw [setAll_cons,ih _ h.2,get?_set_ne _ _ (Ne.symm h.1)]

theorem get?_setAll_of_mem (m : OrdMap κ α) {k : κ} {a : α} {es : List (κ × α)}
    (hd : (es.map Prod.fst).Nodup) (h : (k,a) ∈ es) : (m.setAll es).get? k = some a := by
  induction es generalizing m with
  | nil => simp at h
  | cons e es ih =>
    simp only [List.map_cons,List.nodup_cons] at hd
    rcases List.mem_cons.mp h with rfl | h
    · rw [setAll_cons,get?_setAll_of_not_mem _ hd.1,get?_set_self]
    · exact ih _ hd.2 h

theorem keys_setAll (m : OrdMap κ α) (es : List (κ × α)) (hd : (es.map Prod.fst).Nodup) :
    (m.setAll es).keys = m.keys ++ (es.map Prod.fst).filter (fun k => k ∉ m.keys) := by
  induction es generalizing m with
  | nil => simp
  | cons e es ih =>
    simp only [List.map_cons,List.nodup_cons] at hd
    rw [setAll_cons,ih _ hd.2,keys_set]
    by_cases he : e.1 ∈ m.keys
    · simp [he]
    · simp only [he,if_false,List.map_cons,not_false_eq_true,decide_true,List.filter_cons_of_pos,
        List.append_assoc,List.singleton_append,List.mem_append,List.mem_singleton]
      congr 2
      apply List.filter_congr
      intro k hk
      have hne : k ≠ e.1 := fun h => hd.1 (h ▸ hk)
      simp [hne]

/-- Maps with the same keys in the same order and the same values are equal. -/
theorem ext_get? {a b : OrdMap κ α} (hk : a.keys = b.keys) (hg : ∀ k, a.get? k = b.get? k) :
    a = b := by
  have hz : ∀ (m : OrdMap κ α), m.entries = m.keys.filterMap fun k => (m.get? k).map (k,·) := by
    intro m
    rw [keys,List.filterMap_map]
    calc
      m.entries = m.entries.filterMap some := (List.filterMap_some).symm
      _ = _ := by
        apply List.filterMap_congr
        intro e he
        simp [get?_eq_some.mpr (show (e.1,e.2) ∈ m.entries from he)]
  apply ext
  rw [hz a,hz b,hk]
  simp only [hg]

theorem set_set_self (m : OrdMap κ α) (k : κ) (a b : α) : (m.set k a).set k b = m.set k b := by
  apply ext_get?
  · simp only [keys_set]
    by_cases h : k ∈ m.keys <;> simp [h]
  · intro j
    by_cases h : k = j <;> simp [get?_set,h]

theorem set_get?_self {m : OrdMap κ α} {k : κ} {a : α} (h : m.get? k = some a) :
    m.set k a = m := by
  apply ext_get?
  · have hk : k ∈ m.keys := by
      by_contra hk
      rw [get?_eq_none.mpr hk] at h
      simp at h
    simp [keys_set,hk]
  · intro j
    by_cases hj : k = j
    · subst hj; simp [h]
    · simp [get?_set,hj]

theorem setAll_set (m : OrdMap κ α) (p : OrdMap κ α) (k : κ) (a : α) :
    m.setAll (p.set k a).entries = (m.setAll p.entries).set k a := by
  apply ext_get?
  · have hm : k ∈ (m.setAll p.entries).keys ↔ k ∈ m.keys ∨ k ∈ p.keys := by
      rw [keys_setAll _ _ p.nodup,List.mem_append,List.mem_filter,decide_eq_true_eq]
      exact ⟨fun h => h.imp_right And.left,fun h => by
        by_cases hk : k ∈ m.keys
        · exact Or.inl hk
        · exact Or.inr ⟨h.resolve_left hk,hk⟩⟩
    rw [keys_setAll _ _ (p.set k a).nodup,keys_set,show (p.set k a).entries.map Prod.fst =
      (p.set k a).keys from rfl,keys_set,keys_setAll _ _ p.nodup]
    rw [keys_setAll _ _ p.nodup] at hm
    by_cases hp : k ∈ p.keys
    · rw [if_pos hp,if_pos (hm.mpr (Or.inr hp))]
      rfl
    · rw [if_neg hp,List.filter_append,← List.append_assoc]
      by_cases hk : k ∈ m.keys
      · rw [if_pos (hm.mpr (Or.inl hk)),List.filter_cons_of_neg (by simpa using hk)]
        simp [keys]
      · rw [if_neg (fun h => (hm.mp h).elim hk hp),List.filter_cons_of_pos (by simpa using hk)]
        rfl
  · intro j
    rw [get?_set]
    by_cases hj : k = j
    · subst hj
      rw [if_pos rfl]
      exact get?_setAll_of_mem _ (p.set k a).nodup (get?_eq_some.mp (get?_set_self _ _ _))
    · rw [if_neg hj]
      cases hp : p.get? j with
      | none =>
        rw [get?_setAll_of_not_mem _ (get?_eq_none.mp hp),
          get?_setAll_of_not_mem _ (get?_eq_none.mp (by rw [get?_set_ne _ _ hj,hp]))]
      | some b =>
        rw [get?_setAll_of_mem _ p.nodup (get?_eq_some.mp hp),
          get?_setAll_of_mem _ (p.set k a).nodup (get?_eq_some.mp (by rw [get?_set_ne _ _ hj,hp]))]

/-- What is left of a map when all of another is assigned: nothing, when its keys come first in
that one. -/
theorem setAll_entries_iff (m p : OrdMap κ α) : m.setAll p.entries = p ↔ m.keys <+: p.keys := by
  have hk := keys_setAll m p.entries p.nodup
  constructor
  · intro h
    rw [h] at hk
    exact ⟨_,hk.symm⟩
  · rintro ⟨r,hr⟩
    have hd := p.nodup
    rw [show p.entries.map Prod.fst = p.keys from rfl,← hr,List.nodup_append] at hd
    apply ext_get?
    · rw [hk,show p.entries.map Prod.fst = p.keys from rfl,← hr,List.filter_append]
      have h₁ : m.keys.filter (fun k => k ∉ m.keys) = [] :=
        List.filter_eq_nil_iff.mpr fun k hk => by simpa using hk
      have h₂ : r.filter (fun k => k ∉ m.keys) = r :=
        List.filter_eq_self.mpr fun k hk => by
          simpa using fun hm => hd.2.2 k hm k hk rfl
      rw [h₁,h₂,List.nil_append]
    · intro j
      cases hp : p.get? j with
      | none =>
        have hm : j ∉ m.keys := fun hm => get?_eq_none.mp hp (hr ▸ List.mem_append_left _ hm)
        rw [get?_setAll_of_not_mem _ (get?_eq_none.mp hp),get?_eq_none.mpr hm]
      | some b => exact get?_setAll_of_mem _ p.nodup (get?_eq_some.mp hp)

def layer (f : Option α → α → α) (m : OrdMap κ α) (es : List (κ × α)) : OrdMap κ α :=
  es.foldl (fun m e => m.set e.1 (f (m.get? e.1) e.2)) m

theorem keys_layer (f : Option α → α → α) (m : OrdMap κ α) (es : List (κ × α))
    (hd : (es.map Prod.fst).Nodup) :
    (layer f m es).keys = m.keys ++ (es.map Prod.fst).filter (fun k => k ∉ m.keys) := by
  have hs : ∀ (m m' : OrdMap κ α), m.keys = m'.keys → (layer f m es).keys = (m'.setAll es).keys := by
    intro m m' h
    induction es generalizing m m' with
    | nil => exact h
    | cons e es ih => exact ih (List.nodup_cons.mp hd).2 _ _ (by rw [keys_set,keys_set,h])
  rw [hs m m rfl,keys_setAll _ _ hd]

theorem get?_layer (f : Option α → α → α) (m : OrdMap κ α) (es : List (κ × α))
    (hd : (es.map Prod.fst).Nodup) (k : κ) :
    (layer f m es).get? k = ((lookup k es).map (f (m.get? k))).or (m.get? k) := by
  induction es generalizing m with
  | nil => rfl
  | cons e es ih =>
    obtain ⟨j,a⟩ := e
    rw [List.map_cons,List.nodup_cons] at hd
    have hc : layer f m ((j,a)::es) = layer f (m.set j (f (m.get? j) a)) es := rfl
    rw [hc,ih _ hd.2,lookup]
    by_cases hj : j = k
    · subst hj
      rw [lookup_eq_none.mpr hd.1,if_pos rfl,get?_set_self]
      rfl
    · rw [if_neg hj,get?_set_ne _ _ hj]

section Nested

variable {ι : Type} [DecidableEq ι]

def overlay (m t : OrdMap κ (OrdMap ι α)) : OrdMap κ (OrdMap ι α) :=
  layer (fun o p => (o.getD ∅).setAll p.entries) m t.entries

theorem get?_overlay (m t : OrdMap κ (OrdMap ι α)) (i : κ) : (overlay m t).get? i =
    ((t.get? i).map fun p => (m.getD i ∅).setAll p.entries).or (m.get? i) :=
  get?_layer _ _ _ t.nodup i

theorem keys_overlay (m t : OrdMap κ (OrdMap ι α)) :
    (overlay m t).keys = m.keys ++ t.keys.filter fun k => k ∉ m.keys :=
  keys_layer _ _ _ t.nodup

/-- Assigning one value and laying the map over another can be done in either order. -/
theorem overlay_set (m t : OrdMap κ (OrdMap ι α)) (n : κ) (a : ι) (b : α) :
    overlay m (t.set n ((t.getD n ∅).set a b)) =
      (overlay m t).set n (((overlay m t).getD n ∅).set a b) := by
  apply ext_get?
  · have hm : n ∈ (overlay m t).keys ↔ n ∈ m.keys ∨ n ∈ t.keys := by
      rw [keys_overlay,List.mem_append,List.mem_filter,decide_eq_true_eq]
      exact ⟨fun h => h.imp_right And.left,fun h => by
        by_cases hk : n ∈ m.keys
        · exact Or.inl hk
        · exact Or.inr ⟨h.resolve_left hk,hk⟩⟩
    rw [keys_overlay,keys_set,keys_set]
    by_cases ht : n ∈ t.keys
    · rw [if_pos ht,if_pos (hm.mpr (Or.inr ht)),keys_overlay]
    · rw [if_neg ht,List.filter_append,← List.append_assoc,← keys_overlay]
      by_cases hn : n ∈ m.keys
      · rw [if_pos (hm.mpr (Or.inl hn)),List.filter_cons_of_neg (by simpa using hn)]
        simp
      · rw [if_neg fun h => (hm.mp h).elim hn ht,List.filter_cons_of_pos (by simpa using hn)]
        rfl
  · intro j
    rw [get?_overlay,get?_set,get?_set]
    by_cases hj : n = j
    · subst hj
      rw [if_pos rfl,if_pos rfl,Option.map_some,Option.some_or,setAll_set]
      have ho : (overlay m t).getD n ∅ = (m.getD n ∅).setAll (t.getD n ∅).entries := by
        rw [getD.eq_def (overlay m t),get?_overlay,getD.eq_def t]
        cases t.get? n with
        | none => rfl
        | some p => rfl
      rw [ho]
    · rw [if_neg hj,if_neg hj,get?_overlay]

/-- Over a map of one new key: what it holds stands first. -/
theorem overlay_fresh (p : OrdMap ι α) {k : κ} {t : OrdMap κ (OrdMap ι α)} (h : t.get? k = none) :
    (overlay ((∅ : OrdMap κ (OrdMap ι α)).set k p) t).entries = (k,p) :: t.entries := by
  have hn : k ∉ t.keys := get?_eq_none.mp h
  have hd : (((k,p) :: t.entries).map Prod.fst).Nodup := List.nodup_cons.mpr ⟨hn,t.nodup⟩
  have he : overlay ((∅ : OrdMap κ (OrdMap ι α)).set k p) t = ⟨(k,p) :: t.entries,hd⟩ := by
    have hkeys : ((∅ : OrdMap κ (OrdMap ι α)).set k p).keys = [k] := rfl
    apply ext_get?
    · rw [keys_overlay,hkeys,List.filter_eq_self.mpr]
      · rfl
      · intro j hj
        have hne : j ≠ k := fun he => hn (he ▸ hj)
        simpa using hne
    · intro j
      rw [get?_overlay]
      change _ = lookup j ((k,p) :: t.entries)
      rw [lookup]
      by_cases hk : k = j
      · subst hk
        rw [h,if_pos rfl,get?_set_self]
        rfl
      · rw [if_neg hk,getD,get?_set_ne _ _ hk]
        change (Option.map _ (t.get? j)).or none = t.get? j
        cases t.get? j with
        | none => rfl
        | some q =>
          simp only [Option.map_some,Option.or_none,Option.some.injEq]
          refine (setAll_entries_iff _ q).mpr ?_
          exact List.nil_prefix
  rw [he]

/-- The map holds the first keys of the other, and for each of them the first of its keys. -/
def Heads (m t : OrdMap κ (OrdMap ι α)) : Prop :=
  m.keys <+: t.keys ∧ ∀ i ∈ m.keys, (m.getD i ∅).keys <+: (t.getD i ∅).keys

instance (m t : OrdMap κ (OrdMap ι α)) : Decidable (Heads m t) := inferInstanceAs (Decidable (_ ∧ _))

omit [DecidableEq ι] in
theorem heads_empty (t : OrdMap κ (OrdMap ι α)) : Heads ∅ t :=
  ⟨List.nil_prefix,fun _ hi => absurd hi List.not_mem_nil⟩

/-- Then, and only then, nothing is left of it. -/
theorem overlay_eq_iff (m t : OrdMap κ (OrdMap ι α)) : overlay m t = t ↔ Heads m t := by
  have hk := keys_overlay m t
  constructor
  · intro h
    rw [h] at hk
    have hp : m.keys <+: t.keys := ⟨_,hk.symm⟩
    refine ⟨hp,fun i hi => ?_⟩
    obtain ⟨p,hg⟩ : ∃ p, t.get? i = some p := by
      cases hg : t.get? i with
      | none => exact absurd (hp.subset hi) (get?_eq_none.mp hg)
      | some p => exact ⟨p,rfl⟩
    have ho := get?_overlay m t i
    rw [h,hg,Option.map_some,Option.some_or,Option.some.injEq] at ho
    rw [getD.eq_def t,hg,Option.getD_some]
    exact (setAll_entries_iff _ p).mp ho.symm
  · rintro ⟨⟨r,hr⟩,hp⟩
    have hd := t.nodup
    rw [show t.entries.map Prod.fst = t.keys from rfl,← hr,List.nodup_append] at hd
    apply ext_get?
    · rw [hk,← hr,List.filter_append]
      have h₁ : m.keys.filter (fun k => k ∉ m.keys) = [] :=
        List.filter_eq_nil_iff.mpr fun k hk => by simpa using hk
      have h₂ : r.filter (fun k => k ∉ m.keys) = r :=
        List.filter_eq_self.mpr fun k hk => by simpa using fun hm => hd.2.2 k hm k hk rfl
      rw [h₁,h₂,List.nil_append]
    · intro i
      rw [get?_overlay]
      cases hg : t.get? i with
      | none =>
        have hn : i ∉ m.keys := fun hm => get?_eq_none.mp hg (hr ▸ List.mem_append_left _ hm)
        rw [get?_eq_none.mpr hn]
        rfl
      | some p =>
        rw [Option.map_some,Option.some_or,Option.some.injEq]
        refine (setAll_entries_iff _ p).mpr ?_
        by_cases hm : i ∈ m.keys
        · have hx := hp i hm
          rwa [getD.eq_def t,hg,Option.getD_some] at hx
        · rw [getD,get?_eq_none.mpr hm]
          exact List.nil_prefix

end Nested

theorem get?_mapEntries (f : κ → α → β) (m : OrdMap κ α) (k : κ) :
    (m.mapEntries f).get? k = (m.get? k).map (f k) := by
  cases h : m.get? k with
  | none =>
    rw [get?_eq_none] at h
    simpa [get?_eq_none] using h
  | some a =>
    rw [get?_eq_some] at h
    rw [Option.map_some,get?_eq_some]
    exact List.mem_map.mpr ⟨(k,a),h,rfl⟩

theorem mapEntries_set (f : κ → α → β) (m : OrdMap κ α) (k : κ) (a : α) :
    (m.set k a).mapEntries f = (m.mapEntries f).set k (f k a) := by
  apply ext_get?
  · simp [keys_set]
  · intro j
    by_cases h : k = j
    · subst h; simp [get?_mapEntries]
    · simp [get?_mapEntries,get?_set,h]

theorem mapEntries_erase (f : κ → α → β) (m : OrdMap κ α) (k : κ) :
    (m.erase k).mapEntries f = (m.mapEntries f).erase k := by
  apply ext
  simp [mapEntries,erase,discard,List.filter_map,Function.comp_def]

structure Rel (R : κ → α → β → Prop) (m : OrdMap κ α) (m' : OrdMap κ β) : Prop where
  keys : m'.keys = m.keys
  vals : ∀ k a b, m.get? k = some a → m'.get? k = some b → R k a b

theorem Rel.empty (R : κ → α → β → Prop) : Rel R ∅ ∅ := ⟨rfl,by simp⟩

theorem Rel.set {R : κ → α → β → Prop} {m : OrdMap κ α} {m' : OrdMap κ β} (h : Rel R m m') {k : κ}
    {a : α} {b : β} (hr : R k a b) : Rel R (m.set k a) (m'.set k b) := by
  refine ⟨by rw [keys_set,keys_set,h.keys],fun j x y hx hy => ?_⟩
  rw [get?_set] at hx hy
  by_cases hj : k = j
  · subst hj
    simp only [if_true,Option.some.injEq] at hx hy
    rw [← hx,← hy]
    exact hr
  · rw [if_neg hj] at hx hy
    exact h.vals j x y hx hy

theorem Rel.get? {R : κ → α → β → Prop} {m : OrdMap κ α} {m' : OrdMap κ β} (h : Rel R m m') (k : κ) :
    (m.get? k = none ∧ m'.get? k = none) ∨ ∃ a b, m.get? k = some a ∧ m'.get? k = some b ∧ R k a b := by
  have hn : m.get? k = none ↔ m'.get? k = none := by rw [get?_eq_none,get?_eq_none,h.keys]
  cases ha : m.get? k with
  | none => exact Or.inl ⟨rfl,hn.mp ha⟩
  | some a =>
    cases hb : m'.get? k with
    | none => rw [hn.mpr hb] at ha; simp at ha
    | some b => exact Or.inr ⟨a,b,rfl,rfl,h.vals k a b ha hb⟩

section Embed

variable {ι : Type} [DecidableEq ι] {f : κ → ι} (g : α → β) (hf : Function.Injective f)

theorem get?_embed (m : OrdMap κ α) (k : κ) : (m.embed f g hf).get? (f k) = (m.get? k).map g := by
  cases h : m.get? k with
  | none =>
    rw [get?_eq_none] at h
    simpa [get?_eq_none,keys_embed,hf.eq_iff] using h
  | some a =>
    rw [get?_eq_some] at h
    rw [Option.map_some,get?_eq_some]
    exact List.mem_map.mpr ⟨(k,a),h,rfl⟩

theorem embed_set (m : OrdMap κ α) (k : κ) (a : α) :
    (m.set k a).embed f g hf = (m.embed f g hf).set (f k) (g a) := by
  have hk : ((m.set k a).embed f g hf).keys = ((m.embed f g hf).set (f k) (g a)).keys := by
    have hm : f k ∈ m.keys.map f ↔ k ∈ m.keys := List.mem_map_of_injective hf
    rw [keys_embed,keys_set,keys_set,keys_embed]
    by_cases h : k ∈ m.keys <;> simp [h,hf.eq_iff]
  apply ext_get? hk
  intro i
  by_cases hi : i ∈ ((m.set k a).embed f g hf).keys
  · rw [keys_embed] at hi
    obtain ⟨j,-,rfl⟩ := List.mem_map.mp hi
    by_cases h : k = j
    · subst h; simp [get?_embed]
    · have h' : f k ≠ f j := fun hh => h (hf hh)
      simp [get?_embed,get?_set,h,h']
  · rw [get?_eq_none.mpr hi,get?_eq_none.mpr (hk ▸ hi)]

theorem embed_erase (m : OrdMap κ α) (k : κ) :
    (m.erase k).embed f g hf = (m.embed f g hf).erase (f k) := by
  apply ext
  simp [embed,erase,discard,List.filter_map,Function.comp_def,hf.eq_iff]

end Embed

theorem Rel.forall₂ {R : κ → α → β → Prop} {m : OrdMap κ α} {m' : OrdMap κ β} (h : Rel R m m') :
    List.Forall₂ (fun e e' => e.1 = e'.1 ∧ R e.1 e.2 e'.2) m.entries m'.entries := by
  have hk : List.Forall₂ (fun e e' => e.1 = e'.1) m.entries m'.entries := by
    have hf : List.Forall₂ Eq (m.entries.map Prod.fst) (m'.entries.map Prod.fst) := by
      rw [List.forall₂_eq_eq_eq]
      exact h.keys.symm
    simpa [List.forall₂_map_left_iff,List.forall₂_map_right_iff] using hf
  rw [List.forall₂_iff_zip] at hk ⊢
  refine ⟨hk.1,fun {e e'} he => ?_⟩
  obtain ⟨h₁,h₂⟩ := List.of_mem_zip he
  refine ⟨hk.2 he,h.vals _ _ _ (get?_eq_some.mpr h₁) ?_⟩
  rw [hk.2 he]
  exact get?_eq_some.mpr h₂

theorem findSome?_entries (m : OrdMap κ α) {k : κ} {f : κ × α → Option β} (hf : ∀ e, e.1 ≠ k → f e = none) :
    m.entries.findSome? f = (m.get? k).bind fun a => f (k,a) := by
  obtain ⟨es,hd⟩ := m
  change es.findSome? f = (lookup k es).bind fun a => f (k,a)
  induction es with
  | nil => rfl
  | cons e es ih =>
    obtain ⟨hn,ht⟩ := List.nodup_cons.mp hd
    obtain ⟨j,a⟩ := e
    rw [List.findSome?_cons,lookup]
    by_cases hj : j = k
    · subst hj
      rw [if_pos rfl,ih ht,lookup_eq_none.mpr hn]
      cases hfa : f (j,a) <;> simp [hfa]
    · rw [if_neg hj,hf (j,a) hj]
      exact ih ht

section Sorted

variable (le : κ → κ → Bool)

omit [DecidableEq κ] in
theorem mem_entries_sortKeys {m : OrdMap κ α} {e : κ × α} : e ∈ (m.sortKeys le).entries ↔ e ∈ m.entries :=
  (List.perm_insertionSort _ _).mem_iff

theorem get?_sortKeys (m : OrdMap κ α) (k : κ) : (m.sortKeys le).get? k = m.get? k := by
  ext a
  rw [get?_eq_some,get?_eq_some,mem_entries_sortKeys]

omit [DecidableEq κ] in
theorem keys_sortKeys (m : OrdMap κ α) : (m.sortKeys le).keys = m.keys.insertionSort fun a b => le a b :=
  List.map_insertionSort _ _ Prod.fst _ fun _ _ _ _ => Iff.rfl

omit [DecidableEq κ] in
theorem sortKeys_mapEntries (f : κ → α → β) (m : OrdMap κ α) :
    (m.mapEntries f).sortKeys le = (m.sortKeys le).mapEntries f :=
  ext (List.map_insertionSort (r:=fun a b : κ × α => le a.1 b.1 = true) (s:=fun a b : κ × β => le a.1 b.1 = true)
    (fun e => (e.1,f e.1 e.2)) m.entries fun _ _ _ _ => Iff.rfl).symm

theorem Rel.sortKeys {R : κ → α → β → Prop} {m : OrdMap κ α} {m' : OrdMap κ β} (h : Rel R m m') :
    Rel R (m.sortKeys le) (m'.sortKeys le) := by
  refine ⟨by rw [keys_sortKeys,keys_sortKeys,h.keys],fun k a b ha hb => ?_⟩
  rw [get?_sortKeys] at ha hb
  exact h.vals k a b ha hb

variable {le} (total : ∀ a b, le a b = true ∨ le b a = true)
  (trans : ∀ {a b c}, le a b = true → le b c = true → le a c = true)
  (antisymm : ∀ {a b}, le a b = true → le b a = true → a = b)
include total trans

omit [DecidableEq κ] in
theorem sortKeys_pairwise (m : OrdMap κ α) :
    (m.sortKeys le).entries.Pairwise fun a b => le a.1 b.1 = true ∧ a.1 ≠ b.1 := by
  refine List.Pairwise.and ?_ (List.pairwise_map.mp (m.sortKeys le).nodup)
  have ht : Std.Total fun a b : κ × α => le a.1 b.1 = true := ⟨fun a b => total a.1 b.1⟩
  have hs : IsTrans (κ × α) fun a b => le a.1 b.1 = true := ⟨fun _ _ _ => trans⟩
  exact List.pairwise_insertionSort _ m.entries

include antisymm

/-- A key that is assigned stands after those that are smaller, and before the others. -/
theorem sortKeys_set (m m' : OrdMap κ α) (k : κ) (a : α) (h : ∀ j, m'.get? j = (m.set k a).get? j) :
    (m'.sortKeys le).entries = ((m.sortKeys le).entries.filter fun e => e.1 ≠ k ∧ le e.1 k = true) ++
      (k,a) :: (m.sortKeys le).entries.filter fun e => e.1 ≠ k ∧ le e.1 k = false := by
  have hp := sortKeys_pairwise total trans m
  let r : κ × α → κ × α → Prop := fun a b => le a.1 b.1 = true ∧ a.1 ≠ b.1
  have hanti : Std.Antisymm r := ⟨fun a b hab hba => absurd (antisymm hab.1 hba.1) hab.2⟩
  have hirrefl : Std.Irrefl r := ⟨fun a ha => ha.2 rfl⟩
  refine List.Pairwise.eq_of_mem_iff (r:=r) (sortKeys_pairwise total trans m') ?_ fun e => ?_
  · simp only [List.pairwise_append,List.pairwise_cons,List.mem_filter,List.mem_cons,decide_eq_true_eq]
    refine ⟨hp.filter _,⟨fun e he => ?_,hp.filter _⟩,fun x hx y hy => ?_⟩
    · exact ⟨(total k e.1).resolve_right (by simp [he.2.2]),Ne.symm he.2.1⟩
    · rcases hy with rfl | hy
      · exact ⟨hx.2.2,hx.2.1⟩
      · have hk : le k y.1 = true := (total k y.1).resolve_right (by simp [hy.2.2])
        refine ⟨trans hx.2.2 hk,fun he => ?_⟩
        rw [← he] at hk
        exact hx.2.1 (antisymm hx.2.2 hk)
  · rw [mem_entries_sortKeys,← get?_eq_some,h,get?_set]
    simp only [List.mem_append,List.mem_cons,List.mem_filter,decide_eq_true_eq,mem_entries_sortKeys]
    obtain ⟨j,b⟩ := e
    rw [← get?_eq_some]
    by_cases hj : k = j
    · subst hj
      simp only [if_true,Option.some.injEq,Prod.mk.injEq,true_and,ne_eq,not_true_eq_false,false_and,and_false,
        false_or,or_false]
      exact ⟨Eq.symm,Eq.symm⟩
    · simp only [if_neg hj,Prod.mk.injEq,Ne.symm hj,false_and,false_or,ne_eq,not_false_eq_true,true_and]
      cases le j k <;> simp

end Sorted

theorem get?_setAll_filter {p : κ → Bool} {k : κ} (hk : p k = true) (es : List (κ × α)) (m : OrdMap κ α) :
    (m.setAll (es.filter fun e => p e.1)).get? k = (m.setAll es).get? k := by
  have key : ∀ m m' : OrdMap κ α, m.get? k = m'.get? k →
      (m.setAll (es.filter fun e => p e.1)).get? k = (m'.setAll es).get? k := by
    induction es with
    | nil => exact fun _ _ h => h
    | cons e es ih =>
      intro m m' h
      rw [List.filter_cons,setAll_cons]
      split
      · rw [setAll_cons]
        refine ih _ _ ?_
        rw [get?_set,get?_set,h]
      · rename_i hp
        refine ih _ _ ?_
        rw [get?_set_ne _ _ fun he => hp (by rw [he]; exact hk)]
        exact h
  exact key m m rfl

section Collect

variable (key : α → κ)

/-- Every entry under its key; the last one of a key stays. -/
def collect (as : List α) : OrdMap κ α := as.foldl (fun m a => m.set (key a) a) ∅

def lastOf : List α → List α
  | [] => []
  | a::as => if ∃ b ∈ as, key b = key a then lastOf as else a::lastOf as

theorem lastOf_sublist (as : List α) : (lastOf key as).Sublist as := by
  induction as with
  | nil => exact List.Sublist.refl _
  | cons a as ih =>
    unfold lastOf
    split
    · exact ih.cons a
    · exact ih.cons_cons a

theorem lastOf_concat (as : List α) (a : α) :
    lastOf key (as ++ [a]) = (lastOf key as).filter (fun b => key b ≠ key a) ++ [a] := by
  induction as with
  | nil => simp [lastOf]
  | cons b as ih =>
    rw [List.cons_append]
    simp only [lastOf,List.mem_append,List.mem_singleton,or_and_right,exists_or,exists_eq_left,ih]
    by_cases hb : ∃ x ∈ as, key x = key b
    · rw [if_pos hb,if_pos (Or.inl hb)]
    · by_cases ha : key a = key b
      · rw [if_pos (Or.inr ha),if_neg hb,List.filter_cons_of_neg (by simp [ha])]
      · rw [if_neg (by simp [hb,ha]),if_neg hb,List.filter_cons_of_pos (by simpa using Ne.symm ha),
          List.cons_append]

theorem collect_concat (as : List α) (a : α) : collect key (as ++ [a]) = (collect key as).set (key a) a := by
  rw [collect,List.foldl_append]
  rfl

theorem collect_perm (as : List α) : (collect key as).entries.Perm ((lastOf key as).map fun a => (key a,a)) := by
  induction as using List.reverseRecOn with
  | nil => exact List.Perm.refl _
  | append_singleton as a ih =>
    have he := (ih.filter fun e => e.1 ≠ key a).cons (key a,a)
    rw [collect_concat,lastOf_concat,List.map_append]
    refine ((perm_set _ _ _).trans he).trans ?_
    rw [List.filter_map]
    exact (List.perm_append_singleton _ _).symm

theorem mem_keys_collect {as : List α} {k : κ} : k ∈ (collect key as).keys ↔ ∃ a ∈ as, key a = k := by
  induction as using List.reverseRecOn with
  | nil => simp [collect,keys]
  | append_singleton as a ih =>
    rw [collect_concat,mem_keys_set,ih]
    simp [or_and_right,exists_or,eq_comm]

theorem get?_collect (as : List α) (k : κ) : (collect key as).get? k = (as.filter fun a => key a = k).getLast? := by
  induction as using List.reverseRecOn with
  | nil => rfl
  | append_singleton as a ih =>
    rw [collect_concat,get?_set,ih,List.filter_append]
    split
    · next h => simp [h]
    · next h => simp [h]

/-- No entry of a kind is lost just when no later one has its key. -/
theorem lastOf_filter_iff (p : α → Bool) (as : List α) :
    ((lastOf key as).filter p).length = (as.filter p).length ↔ as.Pairwise fun a b => p a = true → key b ≠ key a := by
  induction as with
  | nil => simp [lastOf]
  | cons a as ih =>
    have hle : ((lastOf key as).filter p).length ≤ (as.filter p).length :=
      ((lastOf_sublist key as).filter p).length_le
    rw [List.pairwise_cons,← ih,lastOf.eq_2]
    by_cases hp : p a = true
    · rw [List.filter_cons_of_pos hp,List.length_cons]
      split
      · rename_i h
        obtain ⟨b,hb,he⟩ := h
        refine iff_of_false (by omega) fun h => h.1 b hb hp he
      · rename_i h
        rw [List.filter_cons_of_pos hp,List.length_cons,Nat.add_right_cancel_iff]
        exact ⟨fun hl => ⟨fun b hb _ he => h ⟨b,hb,he⟩,hl⟩,And.right⟩
    · rw [List.filter_cons_of_neg hp]
      have hl : (List.filter p (if ∃ b ∈ as, key b = key a then lastOf key as else a::lastOf key as)) =
          (lastOf key as).filter p := by
        split
        · rfl
        · exact List.filter_cons_of_neg hp
      rw [hl]
      exact ⟨fun h => ⟨fun b _ hp' => absurd hp' hp,h⟩,And.right⟩

end Collect

end Operations

end OrdMap
end Mybox
