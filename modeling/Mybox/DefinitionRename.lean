import Mybox.DefinitionRefs

/-! Version 3.0: when a rename of a definition keeps every reference to it. -/
namespace Mybox
namespace DefinitionRefs
open Php

section

variable (db : Db) (o : Obj) (name : Str)

def Db.renamed (x : Str) : Str := if db.Means o x then name else x

/-- Each name of the object is the new one, in its place, and nothing else in the row has changed. -/
def RowKept (t : Table) (r r' : Row) : Prop :=
  r'.id = r.id ∧ ∀ c,
    match column o.of.kind t c with
    | some rd => names rd (r'.cell c) = (names rd (r.cell c)).map (db.renamed o name)
    | none => r'.cell c = if t = .defs o.of ∧ r.id = o.id ∧ c = .name then name else r.cell c

structure Keeps (db' : Db) : Prop where
  rows : ∀ t, List.Forall₂ (RowKept db o name t) (db.rows t) (db'.rows t)
  var : ∀ v,
    match value o.of.kind v with
    | some rd => names rd (db'.var v) = (names rd (db.var v)).map (db.renamed o name)
    | none => db'.var v = db.var v
  resolves : db'.Means o name

end

section

variable (re : Patterns) (name nameold : Str) (mine : Str → Prop)

/-- The text compares equal to the old name, and is not the new one as it is. -/
def Hit (x : Str) : Prop := looseEq x nameold = true ∧ trim x ≠ name

/-- The pattern of the old name is in the names that stand for the object and in no others. What a name with special
characters is replaced by is left to the engine. -/
def Matched [DecidablePred mine] (v : Str) : Prop :=
  if Literal nameold ∧ Literal name then ∀ x ∈ names .list v, nameold <:+: x ↔ mine x
  else if re.found nameold (trim v) then
    names .list (re.replace nameold name (trim v)) = (names .list v).map fun x => if mine x then name else x
  else ∀ x ∈ names .list v, ¬mine x

/-- The text as a whole is hit if it stands for the object. -/
def Compared (v : Str) : Prop := trim v ≠ [] → (Hit name nameold (trim v) ↔ mine (trim v))

/-- The pieces that are hit are those that stand for the object. -/
def EachPiece (m : Str) : Prop := ∀ p ∈ split ',' m, trim p ≠ [] → (Hit name nameold p ↔ mine (trim p))

/-- What is written anew in a text is what stands for the object. -/
def Rename.Right [DecidablePred mine] (rd : Reading) (v : Str) : Rename → Prop
  | .kept => ∀ x ∈ names rd v, ¬mine x
  | .members => if ',' ∈ trim v then Matched re name nameold mine v else ∀ x ∈ names rd v, ¬mine x
  | .pattern => if ',' ∈ trim v then Matched re name nameold mine v else Compared name nameold mine v
  | .whole | .compare => Compared name nameold mine v
  | .pieces => EachPiece name nameold mine (trim v)
  | .rawPieces => EachPiece name nameold mine v
  | .relay => trim v ≠ [] → ¬looseEq v nameold = true ∧ ¬mine (trim v)

instance (x : Str) : Decidable (Hit name nameold x) := inferInstanceAs (Decidable (_ ∧ _))

variable [DecidablePred mine]

instance (v : Str) : Decidable (Matched re name nameold mine v) := by
  unfold Matched
  infer_instance

instance (v : Str) : Decidable (Compared name nameold mine v) := by
  unfold Compared
  infer_instance

instance (m : Str) : Decidable (EachPiece name nameold mine m) := by
  unfold EachPiece
  infer_instance

instance (rd : Reading) (v : Str) (h : Rename) : Decidable (h.Right re name nameold mine rd v) := by
  cases h <;> (unfold Rename.Right; infer_instance)

end

/-- In every column and value, what is written anew is what stands for the object. -/
structure Aimed (re : Patterns) (db : Db) (o : Obj) (name nameold : Str) : Prop where
  rows : ∀ t c rd, column o.of.kind t c = some rd → ∀ r ∈ db.rows t,
    (renameColumnOf o.of name nameold t c).Right re name nameold (db.Means o) rd (r.cell c)
  var : ∀ v rd, value o.of.kind v = some rd →
    (renameVarOf o.of name nameold v).Right re name nameold (db.Means o) rd (db.var v)

variable {name nameold : Name}

section

variable {re : Patterns} {mine : Str → Prop} [DecidablePred mine]

def wanted (name : Name) (mine : Str → Prop) [DecidablePred mine] (x : Str) : Str := if mine x then name.1 else x

variable (hmine : ∀ x, mine x → x = nameold.1) (hne : name.1 ≠ nameold.1)

include hmine hne

theorem wanted_eq_self {x : Str} : wanted name mine x = x ↔ ¬mine x := by
  unfold wanted
  split
  · rename_i hm
    refine iff_of_false (fun he => ?_) (not_not.mpr hm)
    exact hne (he.trans (hmine x hm))
  · rename_i hm
    exact iff_of_true rfl hm

theorem written_iff (p : Str) : trim (if looseEq p nameold.1 = true then name.1 else p) = wanted name mine (trim p) ↔
    (Hit name.1 nameold.1 p ↔ mine (trim p)) := by
  unfold Hit
  by_cases hl : looseEq p nameold.1 = true
  · rw [if_pos hl,trim_name]
    by_cases hm : mine (trim p)
    · have hx : trim p ≠ name.1 := fun he => hne (he.symm.trans (hmine _ hm))
      simp [wanted,hm,hl,hx]
    · simp [wanted,hm,hl,eq_comm]
  · rw [if_neg hl,eq_comm,wanted_eq_self hmine hne]
    simp [hl]

theorem kept_iff_of (rd : Reading) (v : Str) : names rd v = (names rd v).map (wanted name mine) ↔ ∀ x ∈ names rd v, ¬mine x := by
  have hw : ∀ x, wanted name mine x = x ↔ ¬mine x := fun x => wanted_eq_self hmine hne
  induction names rd v with
  | nil => simp
  | cons x xs ih =>
    rw [List.map_cons,List.cons.injEq,List.forall_mem_cons]
    exact and_congr (eq_comm.trans (hw x)) ih

theorem compared_iff {rd : Reading} {v w : Str} (hv : names rd v = names .one v) (hb : trim v = [] → names rd w = [])
    (hw : trim v ≠ [] → names rd w = [trim (if looseEq (trim v) nameold.1 = true then name.1 else trim v)]) :
    names rd w = (names rd v).map (wanted name mine) ↔ Compared name.1 nameold.1 mine v := by
  by_cases h : trim v = []
  · refine iff_of_true ?_ fun hn => absurd h hn
    rw [hb h,hv,names,if_pos h,List.map_nil]
  · have hp := written_iff hmine hne (trim v)
    rw [trim_trim] at hp
    rw [hv,hw h,names_one h,List.map_singleton,List.singleton_inj,hp]
    exact ⟨fun hh _ => hh,fun hh => hh h⟩

/-- The pieces of a list, each compared. -/
theorem pieces_iff (m : Str) : names .list (piecesText name.1 nameold.1 m) = (names .list m).map (wanted name mine) ↔
    EachPiece name.1 nameold.1 mine m := by
  let w : Str → Str := fun p => if looseEq p nameold.1 = true then name.1 else p
  have hcomma : ∀ q ∈ (split ',' m).map w, ',' ∉ q := by
    intro q hq
    obtain ⟨p,hp,rfl⟩ := List.mem_map.mp hq
    by_cases hl : looseEq p nameold.1 = true
    · simpa [w,hl] using comma_name name
    · simpa [w,hl] using LineText.not_mem_of_splitOn ',' hp
  have hwritten : names .list (piecesText name.1 nameold.1 m) = ((split ',' m).map fun p => trim (w p)).filter (· ≠ []) := by
    have hflat : (split ',' m).flatMap (fun x => (if looseEq x nameold.1 = true then name.1 else x) ++ [',']) =
        ((split ',' m).map w).flatMap (· ++ [',']) := by rw [List.flatMap_map]
    rw [piecesText,hflat,names_list,trimWith,LineText.lines_strip trimChar ',' (fun a ha => Or.inr (by simpa [Str.of_ascii] using ha)),
      LineText.lines_flatMap trimChar ',' hcomma,List.map_map]
    rfl
  have hnames : names .list m = ((split ',' m).map trim).filter (· ≠ []) := rfl
  rw [hwritten,hnames,EachPiece]
  induction split ',' m with
  | nil => simp
  | cons p ps ih =>
    have hp := written_iff hmine hne p
    rw [List.forall_mem_cons]
    by_cases hb : trim p = []
    · have hwp : trim (w p) = [] := by simp [w,looseEq_blank hb,hb]
      simpa [hb,hwp] using ih
    · have hwp : trim (w p) ≠ [] := by
        by_cases hl : looseEq p nameold.1 = true
        · simpa [w,hl] using name_ne name
        · simpa [w,hl] using hb
      simp only [List.map_cons,List.filter_cons,hb,hwp,ne_eq,not_false_eq_true,decide_true,if_true,List.cons.injEq,forall_const]
      exact and_congr hp ih

/-- A name taken literally is replaced wherever it is part of another. -/
theorem matched_iff (v : Str) : names .list (patternText re name.1 nameold.1 (trim v) v) = (names .list v).map (wanted name mine) ↔
    Matched re name.1 nameold.1 mine v := by
  unfold Matched
  split
  · rename_i hlit
    have htext : names .list (patternText re name.1 nameold.1 (trim v) v) =
        (names .list v).map (LineText.replaceAll nameold.1 name.1) := by
      have hall : names .list (LineText.replaceAll nameold.1 name.1 (trim v)) =
          (names .list v).map (LineText.replaceAll nameold.1 name.1) := by
        rw [names_list,LineText.lines_replaceAll ',' nameold.2.word name.2.word (comma_name nameold) (comma_name name),
          ← names_list,names_list_trim]
      rw [patternText,re.found_literal _ _ hlit.1,re.replace_literal _ _ _ hlit.1 (name_ne nameold) hlit.2,← hall]
      split
      · rfl
      · rename_i hf
        rw [LineText.replaceAll_of_not_infix name.1 (by simpa using hf),names_list_trim]
    rw [htext,List.map_inj_left]
    refine forall₂_congr fun x hx => ?_
    by_cases hi : nameold.1 <:+: x
    · by_cases hm : mine x
      · obtain rfl := hmine x hm
        simp [wanted,hm,LineText.replaceAll_self name.1 (name_ne nameold)]
      · have hr : LineText.replaceAll nameold.1 name.1 x ≠ x := LineText.replaceAll_ne (name_ne nameold) hne hi
        simp [wanted,hm,hi,hr]
    · rw [LineText.replaceAll_of_not_infix name.1 hi,eq_comm,wanted_eq_self hmine hne]
      simp [hi]
  · rw [patternText]
    by_cases hf : re.found nameold.1 (trim v) = true
    · rw [if_pos hf,if_pos hf]
      rfl
    · rw [if_neg hf,if_neg hf,kept_iff_of hmine hne]

end

def Rename.Fits : Rename → Reading → Prop
  | .kept, _ | .members, .list | .pattern, .list | .pieces, .list | .rawPieces, .list => True
  | .whole, .one | .compare, .one | .relay, .one => True
  | _, _ => False

theorem renameColumn_fits {k : Kind} {t : Table} {c : Column} {rd : Reading} (h : column k t c = some rd) :
    (renameColumn k t c).Fits rd := by
  unfold column at h
  split at h <;> first | (cases h; trivial) | cases h

theorem renameVar_fits {k : Kind} {v : Var} {rd : Reading} (h : value k v = some rd) : (renameVar k v).Fits rd := by
  unfold value at h
  split at h <;> first | (cases h; trivial) | cases h

section

variable {re : Patterns} {mine : Str → Prop} [DecidablePred mine] (hmine : ∀ x, mine x → x = nameold.1)
  (hne : name.1 ≠ nameold.1)

include hmine hne

theorem Rename.right_iff {h : Rename} {rd : Reading} (hf : h.Fits rd) (v : Str) :
    names rd (h.text re name.1 nameold.1 v) = (names rd v).map (wanted name mine) ↔
      h.Right re name.1 nameold.1 mine rd v := by
  have hsame : ∀ {w}, names rd w = names rd v →
      (names rd w = (names rd v).map (wanted name mine) ↔ ∀ x ∈ names rd v, ¬mine x) := by
    intro w hw
    rw [hw]
    exact kept_iff_of hmine hne rd v
  have hone : ∀ x : Str, trim v ≠ [] → (looseEq (trim v) nameold.1 = false → trim x = trim v) →
      names .one (if looseEq (trim v) nameold.1 = true then name.1 else x) =
        [trim (if looseEq (trim v) nameold.1 = true then name.1 else trim v)] := by
    intro x hb hx
    by_cases hl : looseEq (trim v) nameold.1 = true
    · rw [if_pos hl,if_pos hl,names_one_name,trim_name]
    · have hx := hx (by simpa using hl)
      rw [if_neg hl,if_neg hl,names_one (by rwa [hx]),hx,trim_trim]
  have hnot : trim v = [] → ¬looseEq (trim v) nameold.1 = true := fun hb => by
    simp [looseEq_blank (s := trim v) (by rw [trim_trim,hb]) nameold]
  cases h with
  | kept => exact kept_iff_of hmine hne rd v
  | members =>
    cases rd with
    | one => exact hf.elim
    | list =>
      simp only [Rename.text,Rename.Right]
      split
      · exact matched_iff hmine hne v
      · refine hsame ?_
        split
        · exact names_list_trim v
        · rfl
  | pattern =>
    cases rd with
    | one => exact hf.elim
    | list =>
      simp only [Rename.text,Rename.Right]
      split
      · exact matched_iff hmine hne v
      · rename_i hc
        have hw : names .list (if looseEq (trim v) nameold.1 = true then name.1 else v) =
            names .one (if looseEq (trim v) nameold.1 = true then name.1 else v) := by
          split
          · rw [names_list_name,names_one_name]
          · exact names_list_single hc
        refine compared_iff hmine hne (names_list_single hc) (fun hb => ?_) fun hb => ?_
        · rw [hw,if_neg (hnot hb),names,if_pos hb]
        · rw [hw,hone v hb fun _ => rfl]
  | whole =>
    cases rd with
    | list => exact hf.elim
    | one =>
      refine compared_iff hmine hne rfl (fun hb => ?_) fun hb => ?_
      · rw [Rename.text,if_pos hb,names,if_pos hb]
      · rw [Rename.text,if_neg hb,hone (trim v) hb fun _ => trim_trim v]
  | compare =>
    cases rd with
    | list => exact hf.elim
    | one =>
      refine compared_iff hmine hne rfl (fun hb => ?_) fun hb => ?_
      · rw [Rename.text,if_neg (hnot hb),names,if_pos hb]
      · rw [Rename.text,hone v hb fun _ => rfl]
  | pieces =>
    cases rd with
    | one => exact hf.elim
    | list =>
      simp only [Rename.text,Rename.Right]
      split
      · rename_i hb
        refine iff_of_true ?_ fun p hp hn => ?_
        · rw [names_list,← names_list,← names_list_trim,hb]
          rfl
        · rw [hb] at hp
          obtain rfl := List.mem_singleton.mp hp
          exact absurd rfl hn
      · rw [pieces_iff hmine hne (trim v) |>.symm,names_list_trim]
  | rawPieces =>
    cases rd with
    | one => exact hf.elim
    | list =>
      simp only [Rename.text,Rename.Right]
      split
      · rename_i hb
        subst hb
        refine iff_of_true rfl fun p hp hn => ?_
        obtain rfl := List.mem_singleton.mp hp
        exact absurd rfl hn
      · exact pieces_iff hmine hne v
  | relay =>
    cases rd with
    | list => exact hf.elim
    | one =>
      simp only [Rename.text,Rename.Right]
      by_cases hb : trim v = []
      · have hl := looseEq_blank hb nameold
        refine iff_of_true ?_ fun hn => absurd hb hn
        simp [hl,names,hb]
      · have hv : v ≠ [] := fun hv => hb (by rw [hv]; rfl)
        by_cases hl : looseEq v nameold.1 = true
        · rw [if_pos ⟨hv,hl⟩,names_one hb]
          exact iff_of_false (by simp [names]) fun h => (h hb).1 hl
        · rw [if_neg fun h => hl h.2,names_one hb,List.map_singleton,List.singleton_inj,eq_comm,wanted_eq_self hmine hne]
          exact ⟨fun h _ => ⟨hl,h⟩,fun h => (h hb).2⟩

end

theorem renameColumn_of_none {k : Kind} {t : Table} {c : Column} (h : column k t c = none) : renameColumn k t c = .kept := by
  unfold renameColumn
  split <;> first | rfl | exact absurd h (by simp [column])

theorem renameVar_of_none {k : Kind} {v : Var} (h : value k v = none) : renameVar k v = .kept := by
  unfold renameVar
  split <;> first | rfl | exact absurd h (by simp [value])

section

variable {db : Db} {o : Obj}

variable (hold : db.Has o nameold.1) (hnew : db.Unused o.of.kind name.1)

include hold hnew

theorem unused_ne : name.1 ≠ nameold.1 := by
  obtain ⟨r,hr,-,hn⟩ := hold
  exact fun h => hnew.2 o.of (mem_defs o.of) r hr (hn.trans h.symm)

omit hold in
theorem not_refused : refused db name.1 nameold.1 o.of = false := by
  have ht : ∀ d ∈ o.of.kind.defs, taken db d name.1 = false := by
    intro d hd
    simpa [taken] using hnew.2 d hd
  unfold refused
  split <;> rename_i he
  · rw [he] at ht
    simp [ht .networks (by decide),ht .networksGrp (by decide)]
  · rw [he] at ht
    simp [ht .services (by decide),ht .servicesGrp (by decide)]
  · simp [ht o.of (mem_defs o.of)]

omit hold in
theorem rename_eq (re : Patterns) : rename re db o name nameold = renamedDb re db o name nameold := by
  rw [rename,not_refused hnew]
  rfl

/-- Only the object has the new name. -/
theorem find_renamed (re : Patterns) {d : Def} (hd : d ∈ o.of.kind.defs) :
    (renamedDb re db o name nameold).find name.1 d = if d = o.of then some o else none := by
  have hother : ∀ q ∈ db.rows (.defs d), (renamedRow re o name.1 nameold.1 (.defs d) q).cell .name = name.1 →
      d = o.of ∧ q.id = o.id := by
    intro q hq hn
    rw [renamedRow_name] at hn
    split at hn
    · rename_i h
      exact ⟨Table.defs.inj h.1,h.2⟩
    · exact absurd hn (hnew.2 d hd q hq)
  split
  · rename_i ho
    obtain rfl := ho
    obtain ⟨r,hr,hid,-⟩ := hold
    have hin : renamedRow re o name.1 nameold.1 (.defs o.of) r ∈ (renamedDb re db o name nameold).rows (.defs o.of) :=
      List.mem_map_of_mem hr
    have hname : (renamedRow re o name.1 nameold.1 (.defs o.of) r).cell .name = name.1 := by
      rw [renamedRow_name,if_pos ⟨rfl,hid⟩]
    unfold Db.find
    cases hf : List.find? (fun r => decide (r.cell .name = name.1)) ((renamedDb re db o name nameold).rows (.defs o.of)) with
    | none => simpa [hname] using List.find?_eq_none.mp hf _ hin
    | some r' =>
      obtain ⟨q,hq,rfl⟩ := List.mem_map.mp (List.mem_of_find?_eq_some hf)
      have hq' := hother q hq (by simpa using List.find?_some hf)
      change some (Obj.mk o.of q.id) = some o
      rw [hq'.2]
  · rename_i ho
    refine Option.map_eq_none_iff.mpr (List.find?_eq_none.mpr fun r hr => ?_)
    obtain ⟨q,hq,rfl⟩ := List.mem_map.mp hr
    simpa using fun hn => ho (hother q hq hn).1

theorem renamed_means (re : Patterns) : (renamedDb re db o name nameold).Means o name.1 := by
  have hfind := fun d hd => find_renamed hold hnew re (d := d) hd
  have hdevice : ¬(renamedDb re db o name nameold).device o.of.kind name.1 := hnew.1
  unfold Db.Means Db.resolve
  rw [if_neg hdevice]
  generalize (renamedDb re db o name nameold).find name.1 = f at hfind
  cases ho : o.of <;> simp [ho,Def.kind,Kind.defs] at hfind ⊢ <;> simp [hfind]

end

theorem renameColumnOf_fits {d : Def} {t : Table} {c : Column} {rd : Reading} (h : column d.kind t c = some rd) :
    (renameColumnOf d name.1 nameold.1 t c).Fits rd := by
  unfold renameColumnOf
  split
  · exact renameColumn_fits h
  · trivial

theorem renameVarOf_fits {d : Def} {v : Var} {rd : Reading} (h : value d.kind v = some rd) :
    (renameVarOf d name.1 nameold.1 v).Fits rd := by
  unfold renameVarOf
  split
  · exact renameVar_fits h
  · trivial

/-- A row is kept if what is written anew in its columns is what stands for the object. -/
theorem rowKept_iff {re : Patterns} {db : Db} {o : Obj} (hmine : ∀ x, db.Means o x → x = nameold.1)
    (hne : name.1 ≠ nameold.1) (t : Table) (r : Row) :
    RowKept db o name.1 t r (renamedRow re o name.1 nameold.1 t r) ↔ ∀ c rd, column o.of.kind t c = some rd →
      (renameColumnOf o.of name.1 nameold.1 t c).Right re name.1 nameold.1 (db.Means o) rd (r.cell c) := by
  have hcell : ∀ c rd, column o.of.kind t c = some rd →
      (renamedRow re o name.1 nameold.1 t r).cell c = (renameColumnOf o.of name.1 nameold.1 t c).text re name.1 nameold.1 (r.cell c) := by
    intro c rd hc
    refine if_neg fun h => ?_
    rw [h.2.2,column_name] at hc
    cases hc
  constructor
  · rintro ⟨-,h⟩ c rd hc
    have hc' := h c
    rw [hc] at hc'
    refine (Rename.right_iff hmine hne (renameColumnOf_fits hc) _).mp ?_
    rw [← hcell c rd hc]
    exact hc'
  · refine fun h => ⟨rfl,fun c => ?_⟩
    cases hc : column o.of.kind t c with
    | none =>
      have hk : renameColumnOf o.of name.1 nameold.1 t c = .kept := by
        unfold renameColumnOf
        rw [renameColumn_of_none hc]
        split <;> rfl
      simp [renamedRow,hk,Rename.text]
    | some rd =>
      have hr := (Rename.right_iff hmine hne (renameColumnOf_fits hc) _).mpr (h c rd hc)
      rw [← hcell c rd hc] at hr
      exact hr

/-- A rename keeps every reference exactly if the names that are written anew are those of the object. -/
theorem keeps_iff (re : Patterns) (db : Db) (o : Obj) (name nameold : Name) (hold : db.Has o nameold.1)
    (hnew : db.Unused o.of.kind name.1) :
    Keeps db o name.1 (rename re db o name nameold) ↔ Aimed re db o name.1 nameold.1 := by
  have hne := unused_ne hold hnew
  have hmine : ∀ x, db.Means o x → x = nameold.1 := fun x hx => hx.has.unique hold
  have hvar : ∀ v rd, value o.of.kind v = some rd →
      (names rd ((renameVarOf o.of name.1 nameold.1 v).text re name.1 nameold.1 (db.var v)) =
        (names rd (db.var v)).map (db.renamed o name.1) ↔
        (renameVarOf o.of name.1 nameold.1 v).Right re name.1 nameold.1 (db.Means o) rd (db.var v)) :=
    fun v rd hv => Rename.right_iff hmine hne (renameVarOf_fits hv) _
  rw [rename_eq hnew]
  constructor
  · rintro ⟨hrows,hvars,-⟩
    refine ⟨fun t c rd hc r hr => ?_,fun v rd hv => ?_⟩
    · have hr' := List.forall₂_same.mp (List.forall₂_map_right_iff.mp (hrows t)) r hr
      exact (rowKept_iff hmine hne t r).mp hr' c rd hc
    · have hv' := hvars v
      rw [hv] at hv'
      exact (hvar v rd hv).mp hv'
  · rintro ⟨hrows,hvars⟩
    refine ⟨fun t => ?_,fun v => ?_,renamed_means hold hnew re⟩
    · refine List.forall₂_map_right_iff.mpr (List.forall₂_same.mpr fun r hr => ?_)
      exact (rowKept_iff hmine hne t r).mpr fun c rd hc => hrows t c rd hc r hr
    · cases hv : value o.of.kind v with
      | none =>
        have hk : renameVarOf o.of name.1 nameold.1 v = .kept := by
          unfold renameVarOf
          rw [renameVar_of_none hv]
          split <;> rfl
        change (renameVarOf o.of name.1 nameold.1 v).text re name.1 nameold.1 (db.var v) = db.var v
        rw [hk]
        rfl
      | some rd => exact (hvar v rd hv).mpr (hvars v rd hv)

theorem web_aimed : Aimed Patterns.plain office web wwwName.1 webName.1 := by
  refine ⟨fun t c rd hc => ?_,fun v rd hv => ?_⟩
  · cases t with
    | defs d =>
      cases d with
      | networksGrp =>
        cases c with
        | members =>
          cases hc
          decide
        | _ => cases hc
      | _ => cases hc
    | pfInbound | pfOutbound =>
      cases c with
      | src | dst =>
        cases hc
        decide
      | _ => cases hc
    | _ => exact fun r hr => by cases hr
  · cases v <;> cases hv <;> decide

theorem keeps_iff_web : Keeps office web wwwName.1 (rename Patterns.plain office web wwwName webName) :=
  (keeps_iff Patterns.plain office web wwwName webName web_has www_unused).mpr web_aimed

/-- The only member of a group is written back under its old name. -/
theorem member_left : ¬∀ (re : Patterns) (db : Db) (o : Obj) (name nameold : Name), db.Has o nameold.1 →
    db.Unused o.of.kind name.1 → Keeps db o name.1 (rename re db o name nameold) := by
  intro h
  have hk := (h Patterns.plain office mail wwwName mailName mail_has www_unused).rows (.defs .networksGrp)
  rw [rename_eq www_unused] at hk
  have hrow := List.forall₂_same.mp (List.forall₂_map_right_iff.mp hk) ⟨2,_⟩ (List.mem_cons_of_mem _ List.mem_cons_self)
  have hmembers : names .list ("Mail" : Str) = (names .list ("Mail" : Str)).map (office.renamed mail wwwName.1) := hrow.2 .members
  exact absurd hmembers (by decide)

end DefinitionRefs
end Mybox
