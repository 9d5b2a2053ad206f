import Mybox.DefinitionRefs

/-! Version 3.0: when deleting a definition removes the references to it and no others. -/
namespace Mybox
namespace DefinitionRefs
open Php

def Db.Known (db : Db) (k : Kind) (x : Str) : Prop :=
  db.device k x ∨ ∃ d ∈ k.defs, ∃ r ∈ db.rows (.defs d), r.cell .name = x

instance (db : Db) (k : Kind) (x : Str) : Decidable (db.Known k x) := inferInstanceAs (Decidable (_ ∨ ∃ d ∈ k.defs, _))

/-- Every name that is written anywhere is the name of something. -/
structure Db.Sound (db : Db) : Prop where
  rows : ∀ k t c rd, column k t c = some rd → ∀ r ∈ db.rows t, ∀ x ∈ names rd (r.cell c), db.Known k x
  var : ∀ k v rd, value k v = some rd → ∀ x ∈ names rd (db.var v), db.Known k x

section

variable (db : Db) (o : Obj)

/-- The names that do not stand for the object, in their order. -/
def Db.others (xs : List Str) : List Str := xs.filter fun x => !db.Means o x

/-- The row has lost the names of the object and nothing else. -/
def RowLeft (t : Table) (r r' : Row) : Prop :=
  r'.id = r.id ∧ ∀ c,
    match column o.of.kind t c with
    | some rd => names rd (r'.cell c) = db.others o (names rd (r.cell c))
    | none => r'.cell c = r.cell c

def Spared (t : Table) (r : Row) : Prop :=
  ∀ c rd, column o.of.kind t c = some rd → names rd (r.cell c) ≠ [] → ∃ x ∈ names rd (r.cell c), ¬db.Means o x

structure Cleaned (db' : Db) : Prop where
  gone : ∀ r ∈ db'.rows (.defs o.of), r.id ≠ o.id
  rows : ∀ t, ∀ r' ∈ db'.rows t, ∃ r ∈ db.rows t, RowLeft db o t r r'
  stays : ∀ t, ∀ r ∈ db.rows t, ¬o.IsRow t r → Spared db o t r → ∃ r' ∈ db'.rows t, RowLeft db o t r r'
  var : ∀ v,
    match value o.of.kind v with
    | some rd => names rd (db'.var v) = db.others o (names rd (db.var v))
    | none => db'.var v = db.var v
  sound : db'.Sound

end

section

variable (name : Str) (mine : Str → Prop)

/-- The text as a whole compares equal to the name if it stands for the object. -/
def ComparedLeft (v : Str) : Prop := trim v ≠ [] → (looseEq (trim v) name = true ↔ mine (trim v))

/-- The pieces that compare equal to the name are those that stand for the object. -/
def EachLeft (m : Str) : Prop := ∀ p ∈ split ',' m, trim p ≠ [] → (looseEq p name = true ↔ mine (trim p))

/-- What is taken out of a text is what stands for the object. -/
def Delete.Right (rd : Reading) (v : Str) : Delete → Prop
  | .kept => ∀ x ∈ names rd v, ¬mine x
  | .list | .pieces => EachLeft name mine (trim v)
  | .rawPieces => EachLeft name mine v
  | .row | .whole => ComparedLeft name mine v
  | .routing => ∀ x ∈ names rd v, mine x
  | .relay => trim v ≠ [] → (looseEq v name = true ↔ mine (trim v))

instance [DecidablePred mine] (v : Str) : Decidable (ComparedLeft name mine v) := by
  unfold ComparedLeft
  infer_instance

instance [DecidablePred mine] (m : Str) : Decidable (EachLeft name mine m) := by
  unfold EachLeft
  infer_instance

instance [DecidablePred mine] (rd : Reading) (v : Str) (h : Delete) : Decidable (h.Right name mine rd v) := by
  cases h <;> (unfold Delete.Right; infer_instance)

variable (db : Db) (o : Obj)

/-- A row that is deleted loses the last name of a column; what is taken out of another row is what stands for the
object. -/
def RowRight (t : Table) (r : Row) : Prop :=
  if leftRow o.of.kind name t r = none then
    ∃ c rd, column o.of.kind t c = some rd ∧ names rd (r.cell c) ≠ [] ∧ ∀ x ∈ names rd (r.cell c), db.Means o x
  else ∀ c rd, column o.of.kind t c = some rd → (deleteColumn o.of.kind t c).Right name (db.Means o) rd (r.cell c)

def Stays (x : Str) : Prop :=
  db.device o.of.kind x ∨ ∃ d ∈ o.of.kind.defs, ∃ q ∈ db.rows (.defs d), q.cell .name = x ∧ ¬o.IsRow (.defs d) q ∧
    leftRow o.of.kind name (.defs d) q ≠ none

instance (x : Str) : Decidable (Stays name db o x) := inferInstanceAs (Decidable (_ ∨ ∃ d ∈ o.of.kind.defs, _))

structure Careful : Prop where
  rows : ∀ t, ∀ r ∈ db.rows t, ¬o.IsRow t r → RowRight name db o t r
  var : ∀ v rd, value o.of.kind v = some rd → (deleteVar o.of.kind v).Right name (db.Means o) rd (db.var v)
  /-- No group is deleted that a row or a value still names. -/
  rowNames : ∀ t, ∀ r ∈ db.rows t, ¬o.IsRow t r → leftRow o.of.kind name t r ≠ none → ∀ c rd, column o.of.kind t c = some rd →
    ∀ x ∈ names rd (r.cell c), ¬db.Means o x → Stays name db o x
  varNames : ∀ v rd, value o.of.kind v = some rd → ∀ x ∈ names rd (db.var v), ¬db.Means o x → Stays name db o x

end

section

variable {name : Name} {mine : Str → Prop} [DecidablePred mine]

def rest (mine : Str → Prop) [DecidablePred mine] (xs : List Str) : List Str := xs.filter fun x => !mine x

theorem rest_eq_self {xs : List Str} : xs = rest mine xs ↔ ∀ x ∈ xs, ¬mine x := by
  rw [eq_comm,rest,List.filter_eq_self]
  simp

theorem nil_eq_rest {xs : List Str} : [] = rest mine xs ↔ ∀ x ∈ xs, mine x := by
  rw [eq_comm,rest,List.filter_eq_nil_iff]
  simp

theorem countP_le_of_eq {α : Type} {p q : α → Bool} {l : List α} (h : ∀ a ∈ l, p a → q a) (he : l.countP p = l.countP q) :
    ∀ a ∈ l, q a → p a := by
  induction l with
  | nil => exact fun a ha => by cases ha
  | cons b l ih =>
    rw [List.forall_mem_cons] at h ⊢
    have hle : l.countP p ≤ l.countP q := List.countP_mono_left h.2
    rw [List.countP_cons,List.countP_cons] at he
    by_cases hq : q b
    · by_cases hp : p b
      · simp only [hp,hq,if_true] at he
        exact ⟨fun _ => hp,ih h.2 (by omega)⟩
      · simp only [hp,hq,if_true] at he
        simp at he
        omega
    · have hp : ¬p b := fun hp => hq (h.1 hp)
      simp only [hp,hq] at he
      exact ⟨fun hb => absurd hb hq,ih h.2 (by simpa using he)⟩

theorem names_leftText (m : Str) : names .list (leftText name.1 m) =
    (((split ',' m).filter fun p => !looseEq p name.1).map trim).filter (· ≠ []) := by
  have hcomma : ∀ p ∈ (split ',' m).filter fun p => !looseEq p name.1, ',' ∉ p :=
    fun p hp => LineText.not_mem_of_splitOn ',' (List.mem_of_mem_filter hp)
  rw [leftText,names_list,trimWith,LineText.lines_strip trimChar ',' (fun a ha => Or.inr (by simpa [Str.of_ascii] using ha)),
    LineText.lines_flatMap trimChar ',' hcomma]
  rfl

theorem count_trim {x : Str} (hx : x ≠ []) (ps : List Str) :
    List.count x ((ps.map trim).filter (· ≠ [])) = ps.countP fun p => trim p = x := by
  rw [List.count_filter (by simpa using hx),List.count,List.countP_map]
  exact List.countP_congr fun p _ => by simp

/-- A list without the pieces that compare equal to the name. -/
theorem left_iff (m : Str) : names .list (leftText name.1 m) = rest mine (names .list m) ↔
    EachLeft name.1 mine m := by
  have hnames : names .list m = ((split ',' m).map trim).filter (· ≠ []) := rfl
  rw [names_leftText,hnames,EachLeft]
  constructor
  · intro he p hp hb
    -- How often the text of the piece is left.
    have hcount := congrArg (List.count (trim p)) he
    rw [count_trim hb,List.countP_filter] at hcount
    by_cases hm : mine (trim p)
    · have hzero : List.count (trim p) (rest mine (((split ',' m).map trim).filter (· ≠ []))) = 0 :=
        List.count_eq_zero.mpr fun h => by simpa [hm] using (List.mem_filter.mp h).2
      rw [hzero,List.countP_eq_zero] at hcount
      simpa [hm] using hcount p hp
    · rw [rest,List.count_filter (by simpa using hm),count_trim hb] at hcount
      have hkept := countP_le_of_eq (fun q _ h => (Bool.and_eq_true _ _ ▸ h).1) hcount p hp (by simp)
      simpa [hm] using hkept
  · intro h
    generalize split ',' m = ps at h
    induction ps with
    | nil => rfl
    | cons p ps ih =>
      rw [List.forall_mem_cons] at h
      by_cases hb : trim p = []
      · simpa [rest,hb,looseEq_blank hb] using ih h.2
      · by_cases hl : looseEq p name.1 = true
        · have hm := (h.1 hb).mp hl
          simpa [rest,hb,hl,hm] using ih h.2
        · have hm : ¬mine (trim p) := fun hm => hl ((h.1 hb).mpr hm)
          simpa [rest,hb,hl,hm] using ih h.2

def Delete.Fits : Delete → Reading → Prop
  | .kept, _ | .list, .list | .routing, .list | .pieces, .list | .rawPieces, .list => True
  | .row, .one | .whole, .one | .relay, .one => True
  | _, _ => False

theorem names_blank (rd : Reading) {v : Str} (h : trim v = []) : names rd v = [] := by
  cases rd with
  | one => exact if_pos h
  | list => rw [← names_list_trim,h]; rfl

theorem comparedLeft_iff {rd : Reading} {v w : Str} (hv : names rd v = names .one v)
    (hw : names rd w = if trim v = [] ∨ looseEq (trim v) name.1 = true then [] else [trim v]) :
    names rd w = rest mine (names rd v) ↔ ComparedLeft name.1 mine v := by
  rw [hv,hw]
  by_cases hb : trim v = []
  · rw [if_pos (Or.inl hb),names_blank .one hb]
    exact iff_of_true rfl fun hn => absurd hb hn
  · have hp : ComparedLeft name.1 mine v ↔ (looseEq (trim v) name.1 = true ↔ mine (trim v)) :=
      ⟨fun h => h hb,fun h _ => h⟩
    rw [names_one hb,hp]
    by_cases hl : looseEq (trim v) name.1 = true
    · simp [rest,hl]
    · rw [if_neg (not_or.mpr ⟨hb,hl⟩),rest_eq_self]
      simp [hl]

theorem Delete.right_iff {h : Delete} {rd : Reading} (hf : h.Fits rd) {v w : Str} (hw : h.text name.1 v = some w) :
    names rd w = rest mine (names rd v) ↔ h.Right name.1 mine rd v := by
  have hnot : trim v = [] → ¬looseEq (trim v) name.1 = true := fun hb => by
    simp [looseEq_blank (s := trim v) (by rw [trim_trim,hb]) name]
  have hvacuous : EachLeft name.1 mine [] := fun p hp hb => by
    obtain rfl := List.mem_singleton.mp hp
    exact absurd rfl hb
  cases h with
  | kept =>
    cases hw
    exact rest_eq_self
  | list =>
    cases rd with
    | one => exact hf.elim
    | list =>
      simp only [Delete.text] at hw
      split at hw
      · split at hw
        · cases hw
        · cases hw
          rw [← names_list_trim v]
          exact left_iff (trim v)
      · rename_i hc
        split at hw
        · cases hw
        · rename_i hl
          cases hw
          refine Iff.trans (comparedLeft_iff (names_list_single hc) ?_ : _ ↔ ComparedLeft name.1 mine v) ?_
          · rw [names_list_single hc]
            by_cases hb : trim v = [] <;> simp [hb,hl,names]
          · have hs : split ',' (trim v) = [trim v] := List.splitOn_eq_singleton hc
            simp [Delete.Right,EachLeft,ComparedLeft,hs]
  | row =>
    cases rd with
    | list => exact hf.elim
    | one =>
      simp only [Delete.text] at hw
      split at hw
      · cases hw
      · rename_i hl
        cases hw
        refine comparedLeft_iff rfl ?_
        by_cases hb : trim v = [] <;> simp [hb,hl,names]
  | routing =>
    cases rd with
    | one => exact hf.elim
    | list =>
      have hnil : names .list (leftText name.1 []) = [] := by
        rw [names_leftText]
        have hl := looseEq_blank (s := []) rfl name
        simp [split,hl]
      cases hw
      by_cases hb : trim v = []
      · simp [hb,names_blank .list hb,rest,Delete.Right]
      · rw [if_neg hb,hnil]
        exact nil_eq_rest
  | pieces =>
    cases rd with
    | one => exact hf.elim
    | list =>
      cases hw
      by_cases hb : trim v = []
      · rw [if_pos hb,names_blank .list hb,Delete.Right,hb]
        exact iff_of_true rfl hvacuous
      · rw [if_neg hb,← names_list_trim v]
        exact left_iff (trim v)
  | rawPieces =>
    cases rd with
    | one => exact hf.elim
    | list =>
      cases hw
      by_cases hv : v = []
      · subst hv
        exact iff_of_true rfl hvacuous
      · rw [if_neg hv]
        exact left_iff v
  | whole =>
    cases rd with
    | list => exact hf.elim
    | one =>
      cases hw
      refine comparedLeft_iff rfl ?_
      by_cases hb : trim v = []
      · simp [hb,names]
      · by_cases hl : looseEq (trim v) name.1 = true <;> simp [hb,hl,names]
  | relay =>
    cases rd with
    | list => exact hf.elim
    | one =>
      cases hw
      by_cases hb : trim v = []
      · have hl := looseEq_blank hb name
        exact iff_of_true (by simp [hl,names,hb,rest]) fun hn => absurd hb hn
      · have hv : v ≠ [] := fun hv => hb (by rw [hv]; rfl)
        have hp : Delete.relay.Right name.1 mine .one v ↔ (looseEq v name.1 = true ↔ mine (trim v)) :=
          ⟨fun h => h hb,fun h _ => h⟩
        rw [hp,names_one hb]
        by_cases hl : looseEq v name.1 = true
        · simp [hl,hv,names,rest]
        · rw [if_neg fun h => hl h.2,names_one hb,rest_eq_self]
          simp [hl]

end

theorem deleteColumn_fits {k : Kind} {t : Table} {c : Column} {rd : Reading} (h : column k t c = some rd) :
    (deleteColumn k t c).Fits rd := by
  unfold column at h
  split at h <;> first | (cases h; trivial) | cases h

theorem deleteVar_fits {k : Kind} {v : Var} {rd : Reading} (h : value k v = some rd) : (deleteVar k v).Fits rd := by
  unfold value at h
  split at h <;> first | (cases h; trivial) | cases h

theorem deleteColumn_of_none {k : Kind} {t : Table} {c : Column} (h : column k t c = none) : deleteColumn k t c = .kept := by
  unfold deleteColumn
  split <;> first | rfl | exact absurd h (by simp [column])

theorem deleteVar_of_none {k : Kind} {v : Var} (h : value k v = none) : deleteVar k v = .kept := by
  unfold deleteVar
  split <;> first | rfl | exact absurd h (by simp [value])

theorem deleteVar_text (k : Kind) (v : Var) (name w : Str) : ∃ u, (deleteVar k v).text name w = some u := by
  unfold deleteVar
  split <;> exact ⟨_,rfl⟩

theorem column_kind {k k' : Kind} {t : Table} {c : Column} {rd rd' : Reading} (h : column k t c = some rd)
    (h' : column k' t c = some rd') : k = k' := by
  unfold column at h
  split at h <;> cases h <;> cases k' <;> first | rfl | cases h'

theorem value_kind {k k' : Kind} {v : Var} {rd rd' : Reading} (h : value k v = some rd)
    (h' : value k' v = some rd') : k = k' := by
  unfold value at h
  split at h <;> cases h <;> cases k' <;> first | rfl | cases h'

theorem kind_of_mem {k : Kind} {d : Def} (h : d ∈ k.defs) : d.kind = k := by
  cases k <;> simp only [Kind.defs,List.mem_cons,List.not_mem_nil,or_false] at h
  · rcases h with rfl | rfl <;> rfl
  · rcases h with rfl | rfl <;> rfl
  · rw [h]
    rfl

theorem deleteColumn_defs {k : Kind} {d : Def} (h : d.kind ≠ k) (c : Column) : deleteColumn k (.defs d) c = .kept := by
  cases k <;> cases d <;> first | rfl | (cases c <;> rfl) | exact absurd rfl h

theorem leftRow_cell {k : Kind} {name : Str} {t : Table} {r r' : Row} (h : leftRow k name t r = some r') (c : Column) :
    (deleteColumn k t c).text name (r.cell c) = some (r'.cell c) := by
  unfold leftRow at h
  split at h
  · rename_i hall
    cases h
    obtain ⟨w,hw⟩ := Option.ne_none_iff_exists'.mp (hall c (Column.mem_all c))
    change _ = some (((deleteColumn k t c).text name (r.cell c)).getD (r.cell c))
    rw [hw]
    rfl
  · cases h

section

variable {db : Db} {o : Obj} {name : Name}

/-- A row that stays has lost what it should if what is taken out of its columns is what stands for the object. -/
theorem rowLeft_iff {t : Table} {r r' : Row} (h : leftRow o.of.kind name.1 t r = some r') : RowLeft db o t r r' ↔
    ∀ c rd, column o.of.kind t c = some rd → (deleteColumn o.of.kind t c).Right name.1 (db.Means o) rd (r.cell c) := by
  constructor
  · rintro ⟨-,hcells⟩ c rd hc
    have hcell := hcells c
    rw [hc] at hcell
    exact (Delete.right_iff (deleteColumn_fits hc) (leftRow_cell h c)).mp hcell
  · refine fun hr => ⟨leftRow_id h,fun c => ?_⟩
    cases hc : column o.of.kind t c with
    | none =>
      have hcell := leftRow_cell h c
      rw [deleteColumn_of_none hc] at hcell
      exact (Option.some.inj hcell).symm
    | some rd => exact (Delete.right_iff (deleteColumn_fits hc) (leftRow_cell h c)).mpr (hr c rd hc)

theorem known_iff {x : Str} : (deletedDb db o name.1).Known o.of.kind x ↔ Stays name.1 db o x := by
  refine or_congr Iff.rfl (exists_congr fun d => and_congr Iff.rfl ?_)
  constructor
  · rintro ⟨r',hr',hx⟩
    obtain ⟨q,hq,hn,hl⟩ := mem_deletedRows.mp hr'
    exact ⟨q,hq,(leftRow_name hl).symm.trans hx,hn,by rw [hl]; exact Option.some_ne_none r'⟩
  · rintro ⟨q,hq,hx,hn,hl⟩
    obtain ⟨r',hl⟩ := Option.ne_none_iff_exists'.mp hl
    exact ⟨r',mem_deletedRows.mpr ⟨q,hq,hn,hl⟩,(leftRow_name hl).trans hx⟩

theorem known_other {k : Kind} (hk : k ≠ o.of.kind) {x : Str} (h : db.Known k x) : (deletedDb db o name.1).Known k x := by
  rcases h with h | ⟨d,hd,q,hq,hx⟩
  · exact Or.inl h
  · have hkind : d.kind ≠ o.of.kind := by rwa [kind_of_mem hd]
    have hn : ¬o.IsRow (.defs d) q := fun h => hkind (congrArg Def.kind (Table.defs.inj h.1))
    have hl : leftRow o.of.kind name.1 (.defs d) q ≠ none := by
      have hall : ∀ c ∈ Column.all, (deleteColumn o.of.kind (.defs d) c).text name.1 (q.cell c) ≠ none := by
        intro c _
        rw [deleteColumn_defs hkind]
        exact Option.some_ne_none _
      rw [leftRow,if_pos hall]
      exact Option.some_ne_none _
    obtain ⟨r',hl⟩ := Option.ne_none_iff_exists'.mp hl
    exact Or.inr ⟨d,hd,r',mem_deletedRows.mpr ⟨q,hq,hn,hl⟩,(leftRow_name hl).trans hx⟩

theorem delName_eq {x : Str} (hold : db.Has o x) : delName db o = deletedDb db o x := by
  obtain ⟨r,hr,hid,rfl⟩ := hold
  unfold delName
  cases hf : List.find? (fun r => decide (r.id = o.id)) (db.rows (.defs o.of)) with
  | none => simpa [hid] using List.find?_eq_none.mp hf r hr
  | some q =>
    have hq : q.id = o.id := by simpa using List.find?_some hf
    rw [List.inj_on_of_nodup_map (db.ids _) (List.mem_of_find?_eq_some hf) hr (hq.trans hid.symm)]

theorem mem_others {x : Str} {xs : List Str} : x ∈ db.others o xs ↔ x ∈ xs ∧ ¬db.Means o x := by simp [Db.others]

theorem deleted_var_iff {v : Var} {rd : Reading} (hv : value o.of.kind v = some rd) :
    names rd ((deletedDb db o name.1).var v) = db.others o (names rd (db.var v)) ↔
      (deleteVar o.of.kind v).Right name.1 (db.Means o) rd (db.var v) := by
  obtain ⟨u,hu⟩ := deleteVar_text o.of.kind v name.1 (db.var v)
  have hvar : (deletedDb db o name.1).var v = u := by
    change ((deleteVar o.of.kind v).text name.1 (db.var v)).getD (db.var v) = u
    rw [hu]
    rfl
  rw [hvar]
  exact Delete.right_iff (deleteVar_fits hv) hu

theorem deleted_var_same {v : Var} (hv : value o.of.kind v = none) : (deletedDb db o name.1).var v = db.var v := by
  change ((deleteVar o.of.kind v).text name.1 (db.var v)).getD (db.var v) = db.var v
  rw [deleteVar_of_none hv]
  rfl

def AllLeft (db : Db) (o : Obj) (name : Str) : Prop :=
  ∀ t, ∀ r ∈ db.rows t, ¬o.IsRow t r → ∀ r', leftRow o.of.kind name t r = some r' → RowLeft db o t r r'

theorem Cleaned.allLeft (h : Cleaned db o (deletedDb db o name.1)) : AllLeft db o name.1 := by
  intro t r hr hn r' hl
  obtain ⟨q,hq,hql⟩ := h.rows t r' (mem_deletedRows.mpr ⟨r,hr,hn,hl⟩)
  rwa [List.inj_on_of_nodup_map (db.ids t) hq hr (hql.1.symm.trans (leftRow_id hl))] at hql

theorem Careful.allLeft (h : Careful name.1 db o) : AllLeft db o name.1 := by
  intro t r hr hn r' hl
  have hright := h.rows t r hr hn
  rw [RowRight,if_neg (by rw [hl]; exact Option.some_ne_none r')] at hright
  exact (rowLeft_iff hl).mpr hright

theorem Cleaned.rowRight (h : Cleaned db o (deletedDb db o name.1)) {t : Table} {r : Row} (hr : r ∈ db.rows t)
    (hn : ¬o.IsRow t r) : RowRight name.1 db o t r := by
  unfold RowRight
  split
  · rename_i hl
    by_contra hcon
    have hspared : Spared db o t r := by
      intro c rd hc hne
      by_contra hall
      exact hcon ⟨c,rd,hc,hne,fun x hx => by_contra fun hm => hall ⟨x,hx,hm⟩⟩
    obtain ⟨r',hr',hrl⟩ := h.stays t r hr hn hspared
    obtain ⟨q,hq,-,hql⟩ := mem_deletedRows.mp hr'
    rw [List.inj_on_of_nodup_map (db.ids t) hq hr ((leftRow_id hql).symm.trans hrl.1),hl] at hql
    cases hql
  · rename_i hl
    obtain ⟨r',hl⟩ := Option.ne_none_iff_exists'.mp hl
    exact (rowLeft_iff hl).mp (h.allLeft t r hr hn r' hl)

theorem Cleaned.var_left (h : Cleaned db o (deletedDb db o name.1)) {v : Var} {rd : Reading}
    (hv : value o.of.kind v = some rd) :
    names rd ((deletedDb db o name.1).var v) = db.others o (names rd (db.var v)) := by
  have hvar := h.var v
  rwa [hv] at hvar

theorem Cleaned.careful (h : Cleaned db o (deletedDb db o name.1)) : Careful name.1 db o where
  rows t r hr hn := h.rowRight hr hn
  var v rd hv := (deleted_var_iff hv).mp (h.var_left hv)
  rowNames t r hr hn hl c rd hc x hx hm := by
    obtain ⟨r',hl⟩ := Option.ne_none_iff_exists'.mp hl
    have hnames := (h.allLeft t r hr hn r' hl).2 c
    rw [hc] at hnames
    refine known_iff.mp (h.sound.rows _ t c rd hc r' (mem_deletedRows.mpr ⟨r,hr,hn,hl⟩) x ?_)
    rw [hnames]
    exact mem_others.mpr ⟨hx,hm⟩
  varNames v rd hv x hx hm := by
    refine known_iff.mp (h.sound.var _ v rd hv x ?_)
    rw [h.var_left hv]
    exact mem_others.mpr ⟨hx,hm⟩

/-- The names of the object's kind are those that stay; those of another kind have not been touched. -/
theorem Careful.sound (h : Careful name.1 db o) (hs : db.Sound) : (deletedDb db o name.1).Sound where
  rows k t c rd hc r' hr' x hx := by
    obtain ⟨r,hr,hn,hl⟩ := mem_deletedRows.mp hr'
    have hcell := (h.allLeft t r hr hn r' hl).2 c
    by_cases hk : k = o.of.kind
    · subst hk
      rw [hc] at hcell
      rw [hcell] at hx
      obtain ⟨hx,hm⟩ := mem_others.mp hx
      exact known_iff.mpr (h.rowNames t r hr hn (by rw [hl]; exact Option.some_ne_none r') c rd hc x hx hm)
    · cases hc' : column o.of.kind t c with
      | some rd' => exact absurd (column_kind hc hc') hk
      | none =>
        rw [hc'] at hcell
        rw [hcell] at hx
        exact known_other hk (hs.rows k t c rd hc r hr x hx)
  var k v rd hv x hx := by
    by_cases hk : k = o.of.kind
    · subst hk
      rw [(deleted_var_iff hv).mpr (h.var v rd hv)] at hx
      obtain ⟨hx,hm⟩ := mem_others.mp hx
      exact known_iff.mpr (h.varNames v rd hv x hx hm)
    · cases hv' : value o.of.kind v with
      | some rd' => exact absurd (value_kind hv hv') hk
      | none =>
        rw [deleted_var_same hv'] at hx
        exact known_other hk (hs.var k v rd hv x hx)

theorem Careful.stays (h : Careful name.1 db o) {t : Table} {r : Row} (hr : r ∈ db.rows t) (hn : ¬o.IsRow t r)
    (hsp : Spared db o t r) : ∃ r' ∈ (deletedDb db o name.1).rows t, RowLeft db o t r r' := by
  have hright := h.rows t r hr hn
  unfold RowRight at hright
  split at hright
  · obtain ⟨c,rd,hc,hne,hall⟩ := hright
    obtain ⟨x,hx,hm⟩ := hsp c rd hc hne
    exact absurd (hall x hx) hm
  · rename_i hl
    obtain ⟨r',hl⟩ := Option.ne_none_iff_exists'.mp hl
    exact ⟨r',mem_deletedRows.mpr ⟨r,hr,hn,hl⟩,h.allLeft t r hr hn r' hl⟩

theorem Careful.cleaned (h : Careful name.1 db o) (hs : db.Sound) : Cleaned db o (deletedDb db o name.1) where
  gone r' hr' := by
    obtain ⟨r,-,hn,hl⟩ := mem_deletedRows.mp hr'
    rw [leftRow_id hl]
    exact fun hid => hn ⟨rfl,hid⟩
  rows t r' hr' := by
    obtain ⟨r,hr,hn,hl⟩ := mem_deletedRows.mp hr'
    exact ⟨r,hr,h.allLeft t r hr hn r' hl⟩
  stays t r hr hn hsp := h.stays hr hn hsp
  var v := by
    cases hv : value o.of.kind v with
    | none => exact deleted_var_same hv
    | some rd => exact (deleted_var_iff hv).mpr (h.var v rd hv)
  sound := h.sound hs

end

/-- Deleting a definition cleans up after it exactly if what is deleted and what is taken out is what stands for it, and
no group goes that is still named. -/
theorem cleaned_iff (db : Db) (hs : db.Sound) (o : Obj) (name : Str) (hold : db.Has o name) :
    Cleaned db o (delName db o) ↔ Careful name db o := by
  obtain ⟨n,rfl⟩ : ∃ n : Name, n.1 = name := by
    obtain ⟨r,hr,-,hn⟩ := hold
    exact ⟨⟨name,hn ▸ db.named o.of r hr⟩,rfl⟩
  rw [delName_eq hold]
  exact ⟨fun h => h.careful,fun h => h.cleaned hs⟩

theorem office_sound : office.Sound := by
  refine ⟨fun k t c rd hc => ?_,fun k v rd hv => ?_⟩
  · cases t with
    | defs d =>
      cases d with
      | networksGrp =>
        cases k <;> cases c <;> cases hc
        decide
      | _ => cases k <;> cases c <;> cases hc <;> decide
    | pfInbound | pfOutbound => cases k <;> cases c <;> cases hc <;> decide
    | _ => exact fun r hr => by cases hr
  · cases k <;> cases v <;> cases hv <;> decide

theorem web_careful : Careful webName.1 office web := by
  refine ⟨fun t r hr hn => ?_,fun v rd hv => ?_,fun t r hr hn hl c rd hc => ?_,fun v rd hv => ?_⟩
  · unfold RowRight
    cases t with
    | defs d =>
      cases d with
      | networks =>
        simp only [office,officeRows,List.mem_cons,List.not_mem_nil,or_false] at hr
        rcases hr with rfl | rfl
        · exact absurd ⟨rfl,rfl⟩ hn
        · rw [if_neg (by decide)]
          exact fun c rd hc => by cases c <;> cases hc
      | networksGrp =>
        simp only [office,officeRows,List.mem_cons,List.not_mem_nil,or_false] at hr
        have hleft : leftRow web.of.kind webName.1 (.defs .networksGrp) r ≠ none := by
          rcases hr with rfl | rfl <;> decide
        rw [if_neg hleft]
        intro c rd hc
        rcases hr with rfl | rfl <;> cases c <;> cases hc <;> decide
      | _ => cases hr
    | pfInbound =>
      obtain rfl := List.mem_singleton.mp hr
      rw [if_pos (by decide)]
      exact ⟨.src,.list,rfl,by decide,by decide⟩
    | pfOutbound =>
      obtain rfl := List.mem_singleton.mp hr
      rw [if_pos (by decide)]
      exact ⟨.dst,.list,rfl,by decide,by decide⟩
    | _ => cases hr
  · cases v <;> cases hv <;> decide
  · cases t with
    | defs d =>
      cases d with
      | networksGrp =>
        simp only [office,officeRows,List.mem_cons,List.not_mem_nil,or_false] at hr
        rcases hr with rfl | rfl <;> cases c <;> cases hc <;> decide
      | _ => cases c <;> cases hc
    | pfInbound | pfOutbound =>
      obtain rfl := List.mem_singleton.mp hr
      exact absurd (by decide) hl
    | _ => cases hr
  · cases v <;> cases hv <;> decide

theorem cleaned_iff_web : Cleaned office web (delName office web) :=
  (cleaned_iff office office_sound web webName.1 web_has).mpr web_careful

/-- A group that goes with its last member is still named by a rule. -/
theorem group_dangles : ¬∀ (db : Db), db.Sound → ∀ (o : Obj) (name : Str), db.Has o name → Cleaned db o (delName db o) := by
  intro h
  obtain ⟨r',hl⟩ : ∃ r', leftRow .network mailName.1 .pfOutbound ⟨1,cells [(.src,"Outside"),(.dst,"Web")]⟩ = some r' :=
    Option.ne_none_iff_exists'.mp (by decide)
  have hsrc : r'.cell .src = ("Outside" : Str) := Option.some.inj ((leftRow_cell hl .src).symm.trans (by decide))
  have hmem : r' ∈ (delName office mail).rows .pfOutbound := by
    rw [delName_eq mail_has]
    exact mem_deletedRows.mpr ⟨_,List.mem_cons_self,by decide,hl⟩
  have hknown := (h office office_sound mail mailName.1 mail_has).sound.rows .network .pfOutbound .src .list rfl r' hmem "Outside"
    (by rw [hsrc]; decide)
  exact absurd hknown (by decide)

end DefinitionRefs
end Mybox
