import Mybox.PolicyTables

/-! Version 3.0: what the arrays of definitions hold. A definition has its columns, the last one of a name those that
count; a group has its members beside them, as far as the array had them when the group came. -/
namespace Mybox
namespace PolicyTables
open Php NetCalc

/-- The definition of a name is the last that has it. -/
def networkOf (defs : List Network) (n : Str) : Option Network := (OrdMap.collect Network.name defs).get? n

def deviceOf (interfaces : List Interface) (n : Str) : Option Str := ((name2devArray interfaces).get? n).filter (· ≠ [])

theorem deviceOf_eq (interfaces : List Interface) (n : Str) : deviceOf interfaces n =
    if (name2devArray interfaces).getD n [] = [] then none else some ((name2devArray interfaces).getD n []) := by
  rw [deviceOf,OrdMap.getD]
  cases (name2devArray interfaces).get? n with
  | none => rfl
  | some v => by_cases hv : v = [] <;> simp [hv]

theorem getD_set (t : Table) (n m : Str) (e : Entry) : (t.set n e).getD m ∅ = if n = m then e else t.getD m ∅ := by
  rw [OrdMap.getD,OrdMap.get?_set]
  split <;> rfl

section Arrays

variable {α : Type} (nm : α → Str) (cols : α → List (Str × Str)) (keys : List Str)

def defTable (defs : List α) : Table := defs.foldl (fun t d => defRow t (nm d) (("name",nm d)::cols d)) ∅

def columnOf (own : Str → Option α) (n k : Str) : Str := ((own n).bind fun d => OrdMap.lookup k (cols d)).getD []

def copyOf (own : Str → Option α) (a : Str) : OrdMap Str Str :=
  keys.foldl (fun m k => m.set k (columnOf cols own a k)) ∅

def reserved : List Str := "name"::"group"::keys

/-- The members of the groups of a name that are in the array by then; a group itself is. -/
def takenOver (defined : Str → Bool) (n : Str) : List Str → List Group → List Str
  | _, [] => []
  | seen, g::gs =>
    (if g.name = n then (split ',' g.members).filter fun a => defined a || a ∈ g.name::seen else []) ++
      takenOver defined n (g.name::seen) gs

structure Built (own : Str → Option α) (seen : List Str) (taken : Str → List Str) (t : Table) : Prop where
  known : ∀ n, t.get? n = none ↔ own n = none ∧ n ∉ seen
  name : ∀ n, (t.getD n ∅).get? "name" = (own n).map fun _ => .text n
  column : ∀ n, ∀ k ∈ keys, (t.getD n ∅).get? k = (own n).bind fun d => (OrdMap.lookup k (cols d)).map .text
  group : ∀ n, (t.getD n ∅).get? "group" = if n ∈ seen then some (.text n) else none
  member : ∀ n, ∀ a ∉ reserved keys, (t.getD n ∅).get? a =
    if a ∈ taken n then some (.sub (copyOf cols keys own a)) else none

structure Layout : Prop where
  columns : ∀ d, (cols d).map Prod.fst = keys
  nodup : (reserved keys).Nodup

variable {nm cols keys} (hl : Layout cols keys)

theorem get?_columns (cs : List (Str × Str)) (hd : (cs.map Prod.fst).Nodup) (e : Entry) (k : Str) :
    (cs.foldl (fun e c => e.set c.1 (.text c.2)) e).get? k = ((OrdMap.lookup k cs).map .text).or (e.get? k) := by
  induction cs generalizing e with
  | nil => rfl
  | cons c cs ih =>
    rw [List.map_cons,List.nodup_cons] at hd
    rw [List.foldl_cons,ih hd.2,OrdMap.get?_set,OrdMap.lookup]
    by_cases hk : c.1 = k
    · rw [if_pos hk,if_pos hk,← hk,OrdMap.lookup_eq_none.mpr hd.1]
      rfl
    · rw [if_neg hk,if_neg hk]

include hl

theorem Layout.nodup_columns (n : Str) (d : α) : (("name",n)::cols d : List (Str × Str)).map Prod.fst |>.Nodup := by
  have hn := hl.nodup
  rw [reserved,List.nodup_cons,List.nodup_cons] at hn
  rw [List.map_cons,hl.columns,List.nodup_cons]
  exact ⟨fun hm => hn.1 (List.mem_cons_of_mem _ hm),hn.2.2⟩

theorem Layout.lookup_none {k : Str} (h : k ∉ keys) (d : α) : OrdMap.lookup k (cols d) = none :=
  OrdMap.lookup_eq_none.mpr (by rwa [hl.columns])

theorem Layout.lookup_some {k : Str} (h : k ∈ keys) (d : α) : ∃ v, OrdMap.lookup k (cols d) = some v := by
  rw [← hl.columns d] at h
  exact Option.ne_none_iff_exists'.mp fun hn => OrdMap.lookup_eq_none.mp hn h

/-- The entry of a definition. -/
theorem Layout.get?_defTable (defs : List α) (n k : Str) : ((defTable nm cols defs).getD n ∅).get? k =
    ((OrdMap.collect nm defs).get? n).bind fun d => (OrdMap.lookup k (("name",n)::cols d)).map .text := by
  induction defs using List.reverseRecOn with
  | nil => rfl
  | append_singleton defs d ih =>
    have ht : defTable nm cols (defs ++ [d]) = defRow (defTable nm cols defs) (nm d) (("name",nm d)::cols d) := by
      rw [defTable,List.foldl_append]
      rfl
    rw [ht,defRow,getD_set,OrdMap.collect_concat,OrdMap.get?_set]
    by_cases hn : nm d = n
    · subst hn
      rw [if_pos rfl,if_pos rfl,get?_columns _ (hl.nodup_columns _ d),ih,Option.bind_some]
      cases hk : OrdMap.lookup k (("name",nm d)::cols d) with
      | some v => rfl
      | none =>
        have hk' := OrdMap.lookup_eq_none.mp hk
        rw [List.map_cons,hl.columns] at hk'
        have hx : ∀ x : α, OrdMap.lookup k (("name",nm d)::cols x) = none := fun x =>
          OrdMap.lookup_eq_none.mpr (by rwa [List.map_cons,hl.columns])
        cases (OrdMap.collect nm defs).get? (nm d) with
        | none => rfl
        | some x => simp [hx]
    · rw [if_neg hn,if_neg hn,ih]

omit hl in
theorem get?_defTable_none (defs : List α) (n : Str) :
    (defTable nm cols defs).get? n = none ↔ (OrdMap.collect nm defs).get? n = none := by
  induction defs using List.reverseRecOn with
  | nil => simp [defTable,OrdMap.collect]
  | append_singleton defs d ih =>
    have ht : defTable nm cols (defs ++ [d]) = defRow (defTable nm cols defs) (nm d) (("name",nm d)::cols d) := by
      rw [defTable,List.foldl_append]
      rfl
    rw [ht,defRow,OrdMap.get?_set,OrdMap.collect_concat,OrdMap.get?_set]
    split
    · simp
    · exact ih

variable (nm) in
/-- Before the groups. -/
theorem Layout.built_defTable (defs : List α) :
    Built cols keys (OrdMap.collect nm defs).get? [] (fun _ => []) (defTable nm cols defs) := by
  have hn := hl.nodup
  rw [reserved,List.nodup_cons,List.nodup_cons] at hn
  have key : ∀ (n k : Str), k ≠ "name" → ((defTable nm cols defs).getD n ∅).get? k =
      ((OrdMap.collect nm defs).get? n).bind fun d => (OrdMap.lookup k (cols d)).map .text := by
    intro n k hk
    rw [hl.get?_defTable]
    congr 1
    funext d
    rw [OrdMap.lookup,if_neg (Ne.symm hk)]
  have none : ∀ (n k : Str), k ≠ "name" → k ∉ keys → ((defTable nm cols defs).getD n ∅).get? k = none := by
    intro n k hk hm
    rw [key n k hk]
    cases (OrdMap.collect nm defs).get? n with
    | none => rfl
    | some d => rw [Option.bind_some,hl.lookup_none hm,Option.map_none]
  constructor
  · intro n
    rw [get?_defTable_none]
    simp
  · intro n
    rw [hl.get?_defTable]
    cases (OrdMap.collect nm defs).get? n <;> rfl
  · intro n k hk
    exact key n k fun he => hn.1 (he ▸ List.mem_cons_of_mem _ hk)
  · intro n
    rw [if_neg List.not_mem_nil]
    exact none n _ (by decide) hn.2.1
  · intro n a ha
    rw [reserved,List.mem_cons,List.mem_cons,not_or,not_or] at ha
    rw [if_neg List.not_mem_nil]
    exact none n a ha.1 ha.2.2

omit hl in
theorem copyField_sub {e : Entry} {a : Str} {fs : OrdMap Str Str}
    (h : e.get? a = some (.sub fs) ∨ e.get? a = none ∧ fs = ∅) (k v : Str) :
    copyField e a k v = e.set a (.sub (fs.set k v)) := by
  rw [copyField]
  rcases h with h | ⟨h,rfl⟩ <;> rw [h]

omit hl in
/-- The loop over the columns: nothing changes but what the group holds of the member. -/
theorem copyLoop_spec {a : Str} (ha : a ∉ keys) (v : Str → Str) {g : Str} (ks : List Str) (hk : ∀ k ∈ ks, k ∈ keys)
    {t : Table} {fs : OrdMap Str Str} (hg : t.get? g ≠ none) (hv : ∀ k ∈ keys, field (t.getD a ∅) k = v k)
    (hf : (t.getD g ∅).get? a = some (.sub fs) ∨ (t.getD g ∅).get? a = none ∧ fs = ∅) :
    let t' := ks.foldl (fun t k => t.set g (copyField (t.getD g ∅) a k (field (t.getD a ∅) k))) t
    (∀ n, t'.get? n = none ↔ t.get? n = none) ∧
    (∀ n k, k ≠ a ∨ n ≠ g → (t'.getD n ∅).get? k = (t.getD n ∅).get? k) ∧
    (ks ≠ [] → (t'.getD g ∅).get? a = some (.sub (ks.foldl (fun m k => m.set k (v k)) fs))) := by
  induction ks generalizing t fs with
  | nil => exact ⟨fun _ => Iff.rfl,fun _ _ _ => rfl,fun h => absurd rfl h⟩
  | cons k ks ih =>
    intro t'
    let u := t.set g ((t.getD g ∅).set a (.sub (fs.set k (v k))))
    have hu : t' = ks.foldl (fun t k => t.set g (copyField (t.getD g ∅) a k (field (t.getD a ∅) k))) u := by
      show List.foldl _ t (k::ks) = _
      rw [List.foldl_cons,hv k (hk k (by simp)),copyField_sub hf]
    have hget : ∀ n j, j ≠ a ∨ n ≠ g → (u.getD n ∅).get? j = (t.getD n ∅).get? j := by
      intro n j h
      rw [getD_set]
      by_cases hn : g = n
      · subst hn
        rw [if_pos rfl,OrdMap.get?_set_ne _ _ (h.resolve_right (not_not.mpr rfl)).symm]
      · rw [if_neg hn]
    have hug : (u.getD g ∅).get? a = some (.sub (fs.set k (v k))) := by
      rw [getD_set,if_pos rfl,OrdMap.get?_set_self]
    have hnone : ∀ n, u.get? n = none ↔ t.get? n = none := by
      intro n
      rw [OrdMap.get?_set]
      split
      · rename_i hn
        subst hn
        exact iff_of_false (by simp) hg
      · exact Iff.rfl
    obtain ⟨h₁,h₂,h₃⟩ := ih (fun j hj => hk j (List.mem_cons_of_mem _ hj)) (t:=u)
      (fun hn => hg ((hnone g).mp hn))
      (fun j hj => by rw [field,hget a j (.inl fun he => ha (he ▸ hj)),← field,hv j hj]) (.inl hug)
    rw [← hu] at h₁ h₂ h₃
    refine ⟨fun n => (h₁ n).trans (hnone n),fun n j h => (h₂ n j h).trans (hget n j h),fun _ => ?_⟩
    by_cases hks : ks = []
    · subst hks
      rw [hu]
      exact hug
    · exact h₃ hks

omit hl in
theorem get?_copyOf {own : Str → Option α} {a k : Str} (hk : k ∈ keys) :
    (copyOf cols keys own a).get? k = some (columnOf cols own a k) := by
  have key : ∀ (ks : List Str) (m : OrdMap Str Str), k ∈ ks ∨ m.get? k = some (columnOf cols own a k) →
      (ks.foldl (fun m k => m.set k (columnOf cols own a k)) m).get? k = some (columnOf cols own a k) := by
    intro ks
    induction ks with
    | nil => exact fun m h => h.resolve_left List.not_mem_nil
    | cons j ks ih =>
      intro m h
      rw [List.foldl_cons]
      refine ih _ ?_
      rw [OrdMap.get?_set]
      by_cases hj : j = k
      · rw [if_pos hj,hj]
        exact .inr rfl
      · rw [if_neg hj]
        exact h.imp_left fun hm => (List.mem_cons.mp hm).resolve_left (Ne.symm hj)
  exact key keys ∅ (.inl hk)

omit hl in
theorem copyOf_again {own : Str → Option α} (a : Str) :
    keys.foldl (fun m k => m.set k (columnOf cols own a k)) (copyOf cols keys own a) = copyOf cols keys own a := by
  have key : ∀ ks : List Str, (∀ k ∈ ks, k ∈ keys) →
      ks.foldl (fun m k => m.set k (columnOf cols own a k)) (copyOf cols keys own a) = copyOf cols keys own a := by
    intro ks hk
    induction ks with
    | nil => rfl
    | cons k ks ih =>
      rw [List.foldl_cons,OrdMap.set_get?_self (get?_copyOf (hk k (by simp)))]
      exact ih fun j hj => hk j (List.mem_cons_of_mem _ hj)
  exact key keys fun _ h => h

variable {own : Str → Option α} {seen : List Str} {taken : Str → List Str} {t : Table}

theorem Built.columnOf_eq (hb : Built cols keys own seen taken t) (n : Str) {k : Str} (hk : k ∈ keys) :
    field (t.getD n ∅) k = columnOf cols own n k := by
  rw [field,hb.column n k hk,columnOf]
  cases own n with
  | none => rfl
  | some d =>
    obtain ⟨v,hv⟩ := hl.lookup_some hk d
    rw [Option.bind_some,Option.bind_some,hv]
    rfl

/-- A member of a group. -/
theorem Built.copyMember (hb : Built cols keys own seen taken t) (hne : keys ≠ []) {g a : Str} (hg : g ∈ seen)
    (ha : a ∉ reserved keys) : Built cols keys own seen
      (fun n => if n = g ∧ ((own a).isSome ∨ a ∈ seen) then taken n ++ [a] else taken n) (copyMember keys g t a) := by
  by_cases hk : t.get? a = none
  · have hn := (hb.known a).mp hk
    rw [PolicyTables.copyMember,if_pos hk]
    have ht : (fun n => if n = g ∧ ((own a).isSome ∨ a ∈ seen) then taken n ++ [a] else taken n) = taken := by
      funext n
      rw [if_neg]
      rintro ⟨-,h | h⟩
      · rw [hn.1] at h
        exact absurd h (by simp)
      · exact hn.2 h
    rw [ht]
    exact hb
  · rw [PolicyTables.copyMember,if_neg hk]
    have hknown : (own a).isSome ∨ a ∈ seen := by
      by_contra hc
      rw [not_or] at hc
      exact hk ((hb.known a).mpr ⟨by simpa using hc.1,hc.2⟩)
    have hak : a ∉ keys := fun hm => ha (by simp [reserved,hm])
    obtain ⟨fs,hfs,hcopy⟩ : ∃ fs, ((t.getD g ∅).get? a = some (.sub fs) ∨ (t.getD g ∅).get? a = none ∧ fs = ∅) ∧
        keys.foldl (fun m k => m.set k (columnOf cols own a k)) fs = copyOf cols keys own a := by
      rw [hb.member g a ha]
      by_cases hm : a ∈ taken g
      · exact ⟨_,.inl (by rw [if_pos hm]),copyOf_again a⟩
      · exact ⟨∅,.inr ⟨by rw [if_neg hm],rfl⟩,rfl⟩
    obtain ⟨h₁,h₂,h₃⟩ := copyLoop_spec hak (columnOf cols own a) keys (fun _ h => h)
      (fun hn => ((hb.known g).mp hn).2 hg) (fun k hk => hb.columnOf_eq hl a hk) hfs
    rw [hcopy] at h₃
    have hres : ∀ {k : Str}, k ∈ reserved keys → k ≠ a := fun hm he => ha (he ▸ hm)
    constructor
    · exact fun n => (h₁ n).trans (hb.known n)
    · exact fun n => (h₂ n _ (.inl (hres (by simp [reserved])))).trans (hb.name n)
    · exact fun n k hm => (h₂ n k (.inl (hres (by simp [reserved,hm])))).trans (hb.column n k hm)
    · exact fun n => (h₂ n _ (.inl (hres (by simp [reserved])))).trans (hb.group n)
    · intro n b hbm
      by_cases hng : n = g ∧ b = a
      · obtain ⟨rfl,rfl⟩ := hng
        rw [h₃ hne,if_pos]
        simp [hknown]
      · have hor : b ≠ a ∨ n ≠ g := by
          by_contra hc
          rw [not_or,not_not,not_not] at hc
          exact hng ⟨hc.2,hc.1⟩
        rw [h₂ n b hor,hb.member n b hbm]
        by_cases hn : n = g
        · have hba : b ≠ a := fun he => hng ⟨hn,he⟩
          simp [hn,hknown,hba]
        · simp [hn]

omit hl in
theorem Built.congr {taken' : Str → List Str} (hb : Built cols keys own seen taken t)
    (h : ∀ n a, a ∈ taken n ↔ a ∈ taken' n) : Built cols keys own seen taken' t :=
  ⟨hb.known,hb.name,hb.column,hb.group,fun n a ha => by rw [hb.member n a ha]; simp only [h n a]⟩

theorem Built.copyMembers (hb : Built cols keys own seen taken t) (hne : keys ≠ []) {g : Str} (hg : g ∈ seen)
    (ms : List Str) (hm : ∀ a ∈ ms, a ∉ reserved keys) : Built cols keys own seen
      (fun n => if n = g then taken n ++ ms.filter fun a => (own a).isSome || a ∈ seen else taken n)
      (ms.foldl (PolicyTables.copyMember keys g) t) := by
  induction ms generalizing t taken with
  | nil => exact hb.congr fun n a => by simp
  | cons a ms ih =>
    rw [List.foldl_cons]
    refine (ih (hb.copyMember hl hne hg (hm a (by simp))) fun b hb => hm b (List.mem_cons_of_mem _ hb)).congr
      fun n b => ?_
    by_cases hn : n = g
    · by_cases ha : (own a).isSome ∨ a ∈ seen
      · simp [hn,ha]
      · simp [hn,ha]
    · simp [hn]

/-- The row of a group. -/
theorem Built.groupRow (hb : Built cols keys own seen taken t) (hne : keys ≠ []) (g : Group)
    (hm : ∀ a ∈ split ',' g.members, a ∉ reserved keys) : Built cols keys own (g.name::seen)
      (fun n => if n = g.name then taken n ++ (split ',' g.members).filter fun a => (own a).isSome || a ∈ g.name::seen
        else taken n) (groupRow keys t g) := by
  have hd := hl.nodup
  rw [reserved,List.nodup_cons,List.nodup_cons] at hd
  refine Built.copyMembers hl ?_ hne (by simp) _ hm
  have hget : ∀ n k : Str, k ≠ "group" → ((t.set g.name ((t.getD g.name ∅).set "group" (.text g.name))).getD n ∅).get? k =
      (t.getD n ∅).get? k := by
    intro n k hk
    rw [getD_set]
    by_cases hn : g.name = n
    · rw [if_pos hn,OrdMap.get?_set_ne _ _ (Ne.symm hk),hn]
    · rw [if_neg hn]
  constructor
  · intro n
    rw [OrdMap.get?_set]
    by_cases hn : g.name = n
    · simp [hn]
    · rw [if_neg hn,hb.known n]
      simp [Ne.symm hn]
  · exact fun n => (hget n _ (by decide)).trans (hb.name n)
  · exact fun n k hk => (hget n k fun he => hd.2.1 (he ▸ hk)).trans (hb.column n k hk)
  · intro n
    rw [getD_set]
    by_cases hn : g.name = n
    · rw [if_pos hn,OrdMap.get?_set_self,if_pos (by simp [hn]),hn]
    · rw [if_neg hn,hb.group n]
      simp [Ne.symm hn]
  · exact fun n a ha => (hget n a fun he => ha (by simp [reserved,he])).trans (hb.member n a ha)

theorem Built.groups (hb : Built cols keys own seen taken t) (hne : keys ≠ []) (grps : List Group)
    (hm : ∀ g ∈ grps, ∀ a ∈ split ',' g.members, a ∉ reserved keys) : Built cols keys own
      ((grps.map Group.name).reverse ++ seen)
      (fun n => taken n ++ takenOver (fun a => (own a).isSome) n seen grps) (grps.foldl (PolicyTables.groupRow keys) t) := by
  induction grps generalizing t taken seen with
  | nil => exact hb.congr fun n a => by simp [takenOver]
  | cons g grps ih =>
    have hs : ((g::grps).map Group.name).reverse ++ seen = (grps.map Group.name).reverse ++ g.name::seen := by simp
    rw [List.foldl_cons,hs]
    refine (ih (hb.groupRow hl hne g (hm g (by simp))) fun x hx => hm x (List.mem_cons_of_mem _ hx)).congr
      fun n a => ?_
    rw [takenOver]
    by_cases hn : n = g.name
    · subst hn
      rw [if_pos rfl,if_pos rfl,List.append_assoc]
    · rw [if_neg hn,if_neg (Ne.symm hn),List.nil_append]

variable (nm) in
/-- An array of definitions and groups none of whose members has the name of a column. -/
theorem Layout.built (hne : keys ≠ []) (defs : List α) (grps : List Group)
    (hm : ∀ g ∈ grps, ∀ a ∈ split ',' g.members, a ∉ reserved keys) :
    Built cols keys (OrdMap.collect nm defs).get? (grps.map Group.name).reverse
      (fun n => takenOver (fun a => ((OrdMap.collect nm defs).get? a).isSome) n [] grps)
      (grps.foldl (PolicyTables.groupRow keys) (defTable nm cols defs)) := by
  have hb := (hl.built_defTable nm defs).groups hl hne grps hm
  rw [List.append_nil] at hb
  exact hb

omit hl in
theorem mem_takenOver {defined : Str → Bool} {n a : Str} {seen : List Str} {grps : List Group}
    (h : a ∈ takenOver defined n seen grps) : ∃ g ∈ grps, g.name = n ∧ a ∈ split ',' g.members := by
  induction grps generalizing seen with
  | nil => exact absurd h List.not_mem_nil
  | cons g grps ih =>
    rw [takenOver] at h
    rcases List.mem_append.mp h with h | h
    · split at h
      · rename_i hn
        exact ⟨g,by simp,hn,List.mem_of_mem_filter h⟩
      · exact absurd h List.not_mem_nil
    · obtain ⟨x,hx,hn⟩ := ih h
      exact ⟨x,List.mem_cons_of_mem _ hx,hn⟩

omit hl in
theorem takenOver_of_mem {defined : Str → Bool} {n a : Str} (seen : List Str) {grps : List Group} {g : Group}
    (hg : g ∈ grps) (hn : g.name = n) (ha : a ∈ split ',' g.members) (hd : defined a = true) :
    a ∈ takenOver defined n seen grps := by
  induction grps generalizing seen with
  | nil => exact absurd hg List.not_mem_nil
  | cons x grps ih =>
    rw [takenOver,List.mem_append]
    rcases List.mem_cons.mp hg with rfl | hg
    · rw [if_pos hn]
      exact .inl (List.mem_filter.mpr ⟨ha,by simp [hd]⟩)
    · exact .inr (ih _ hg)

omit hl in
theorem collect_mem {defs : List α} {n : Str} {d : α} (h : (OrdMap.collect nm defs).get? n = some d) :
    d ∈ defs ∧ nm d = n := by
  have hm := (OrdMap.collect_perm nm defs).subset (OrdMap.get?_eq_some.mp h)
  obtain ⟨x,hx,he⟩ := List.mem_map.mp hm
  obtain ⟨rfl,rfl⟩ := Prod.mk.inj he
  exact ⟨(OrdMap.lastOf_sublist nm defs).subset hx,rfl⟩

omit hl in
theorem takenOver_unreserved {defined : Str → Bool} {n a : Str} {seen : List Str} {grps : List Group}
    (hm : ∀ g ∈ grps, ∀ a ∈ split ',' g.members, a ∉ reserved keys) (h : a ∈ takenOver defined n seen grps) :
    a ∉ reserved keys := by
  obtain ⟨g,hg,-,ha⟩ := mem_takenOver h
  exact hm g hg a ha

omit hl in
theorem Built.unnamed {defs : List α} {grps : List Group}
    (hb : Built cols keys (OrdMap.collect nm defs).get? (grps.map Group.name).reverse taken t)
    (hd : ∀ d ∈ defs, nm d ≠ []) (hg : ∀ g ∈ grps, g.name ≠ []) : t.get? [] = none := by
  rw [hb.known]
  constructor
  · cases h : (OrdMap.collect nm defs).get? [] with
    | none => rfl
    | some d => exact absurd (collect_mem h).2 (hd d (collect_mem h).1)
  · rw [List.mem_reverse,List.mem_map]
    rintro ⟨x,hx,hn⟩
    exact hg x hx hn

omit hl in
theorem Built.absent {defined : Str → Bool} {grps : List Group}
    (hb : Built cols keys own (grps.map Group.name).reverse taken t) {n : Str} (h : t.get? n = none) :
    own n = none ∧ takenOver defined n [] grps = [] := by
  obtain ⟨ho,hs⟩ := (hb.known n).mp h
  refine ⟨ho,List.eq_nil_iff_forall_not_mem.mpr fun a ha => hs ?_⟩
  obtain ⟨x,hx,hn,-⟩ := mem_takenOver ha
  exact List.mem_reverse.mpr (List.mem_map.mpr ⟨x,hx,hn⟩)

omit hl in
theorem mem_members {e : Entry} {fs : OrdMap Str Str} : fs ∈ members e ↔ ∃ a, e.get? a = some (.sub fs) := by
  rw [members,List.mem_filterMap]
  constructor
  · rintro ⟨⟨a,v⟩,he,hv⟩
    cases v with
    | text s => exact absurd hv (by simp)
    | sub gs =>
      obtain rfl := Option.some.inj hv
      exact ⟨a,OrdMap.get?_eq_some.mpr he⟩
  · rintro ⟨a,ha⟩
    exact ⟨(a,.sub fs),OrdMap.get?_eq_some.mp ha,rfl⟩

/-- The columns a name comes to: its own, or those of the members taken over. -/
theorem Built.mem_matches (hb : Built cols keys own seen taken t) {n : Str} (hn : n ≠ []) {β : Type}
    (f g : (Str → Str) → List β) (hf : ∀ u v : Str → Str, (∀ k ∈ keys, u k = v k) → f u = f v)
    (hg : ∀ u v : Str → Str, (∀ k ∈ keys, u k = v k) → g u = g v) (x : β) (ht : ∀ a ∈ taken n, a ∉ reserved keys) :
    x ∈ (if given (t.getD n ∅) "name" then f (field (t.getD n ∅))
      else if given (t.getD n ∅) "group" then (members (t.getD n ∅)).flatMap fun b => g fun k => b.getD k []
      else []) ↔
      if (own n).isSome then x ∈ f (columnOf cols own n)
      else n ∈ seen ∧ ∃ a ∈ taken n, x ∈ g (columnOf cols own a) := by
  have hname : given (t.getD n ∅) "name" = (own n).isSome := by
    rw [given,hb.name n]
    cases own n with
    | none => rfl
    | some d => simp [hn]
  have hgroup : given (t.getD n ∅) "group" = decide (n ∈ seen) := by
    rw [given,hb.group n]
    by_cases hs : n ∈ seen <;> simp [hs,hn]
  rw [hname,hgroup]
  by_cases ho : (own n).isSome
  · rw [if_pos ho,if_pos ho,hf _ _ fun k hk => hb.columnOf_eq hl n hk]
  · rw [if_neg ho,if_neg ho]
    by_cases hs : n ∈ seen
    · rw [if_pos (by simpa using hs),List.mem_flatMap]
      simp only [hs,true_and]
      have hcopy : ∀ a, g (fun k => (copyOf cols keys own a).getD k []) = g (columnOf cols own a) :=
        fun a => hg _ _ fun k hk => by rw [OrdMap.getD,get?_copyOf hk]; rfl
      constructor
      · rintro ⟨fs,hfs,hx⟩
        obtain ⟨a,ha⟩ := mem_members.mp hfs
        by_cases hr : a ∈ reserved keys
        · rcases List.mem_cons.mp hr with rfl | hr
          · rw [hb.name n] at ha
            cases hon : own n <;> rw [hon] at ha <;> exact absurd ha (by simp)
          · rcases List.mem_cons.mp hr with rfl | hr
            · rw [hb.group n,if_pos hs] at ha
              exact absurd ha (by simp)
            · rw [hb.column n a hr] at ha
              have hon : own n = none := by simpa using ho
              rw [hon] at ha
              exact absurd ha (by simp)
        · rw [hb.member n a hr] at ha
          split at ha
          · rename_i hm
            obtain rfl : copyOf cols keys own a = fs := by simpa using ha
            exact ⟨a,hm,by rwa [hcopy] at hx⟩
          · exact absurd ha (by simp)
      · rintro ⟨a,ha,hx⟩
        refine ⟨copyOf cols keys own a,mem_members.mpr ⟨a,?_⟩,by rwa [hcopy]⟩
        rw [hb.member n a (ht a ha),if_pos ha]
    · rw [if_neg (by simpa using hs)]
      simp [hs]

end Arrays

def networkColumns (d : Network) : List (Str × Str) := [("type",d.type),("ip",d.ip)]

theorem networkLayout : Layout networkColumns ["type","ip"] := ⟨fun _ => rfl,by decide⟩

/-- What holds of the texts of every interface holds of all that is in the array. -/
theorem name2dev_all {P : Str → Prop} {rows : List Interface}
    (h : ∀ r ∈ rows, P r.ip ∧ P (((ipcalc r.ip r.pref).map Calc.network).getD [] ++ '/'::r.pref) ∧
      P (((ipcalc r.ip r.pref).map Calc.broadcast).getD [])) {n v : Str} (hv : (name2devArray rows).get? n = some v) :
    P v := by
  induction rows using List.reverseRecOn with
  | nil => exact absurd hv (by simp [name2devArray])
  | append_singleton rows r ih =>
    obtain ⟨hi,hn,hb⟩ := h r (by simp)
    rw [name2devArray,List.foldl_append,List.foldl_cons,List.foldl_nil] at hv
    dsimp only at hv
    rw [OrdMap.get?_set,OrdMap.get?_set,OrdMap.get?_set] at hv
    split at hv
    · exact Option.some.inj hv ▸ hi
    · split at hv
      · exact Option.some.inj hv ▸ hb
      · split at hv
        · exact Option.some.inj hv ▸ hn
        · exact ih (fun x hx => h x (by simp [hx])) hv

end PolicyTables
end Mybox
