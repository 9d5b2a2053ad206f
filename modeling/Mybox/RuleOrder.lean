import Mybox.NumberedRows
import Mybox.Php

/-! Version 3.0: the order of the rules. The `id` of a row of `pf_inbound` or `pf_outbound` is its place, and the
rule page adds, copies, deletes, exchanges and renumbers rows by one statement after the other. -/
namespace Mybox
namespace RuleOrder
open Php NumberedRows

/-- The columns of a row but its `id`. -/
structure Rule where
  srcn : Str
  src : Str
  dstn : Str
  dst : Str
  action : Str
  service : Str
  event : Str
  log : Str
  stat : Str
  note : Str
  deriving DecidableEq

def quote : Char := Char.ofNat 39

/-- What is chosen on the page; the note is written by hand. -/
def Rule.chosen (r : Rule) : List Str := [r.srcn,r.src,r.dstn,r.dst,r.action,r.service,r.event,r.log,r.stat]

def entities : List Str := ["nbsp","iexcl","cent","pound","curren","yen","brvbar","sect","uml","copy","ordf","laquo",
  "not","shy","reg","macr","deg","plusmn","sup2","sup3","acute","micro","para","middot","cedil","sup1","ordm","raquo",
  "frac14","frac12","frac34","iquest","Agrave","Aacute","Acirc","Atilde","Auml","Aring","AElig","Ccedil","Egrave",
  "Eacute","Ecirc","Euml","Igrave","Iacute","Icirc","Iuml","ETH","Ntilde","Ograve","Oacute","Ocirc","Otilde","Ouml",
  "times","Oslash","Ugrave","Uacute","Ucirc","Uuml","Yacute","THORN","szlig","agrave","aacute","acirc","atilde","auml",
  "aring","aelig","ccedil","egrave","eacute","ecirc","euml","igrave","iacute","icirc","iuml","eth","ntilde","ograve",
  "oacute","ocirc","otilde","ouml","divide","oslash","ugrave","uacute","ucirc","uuml","yacute","thorn","yuml"]

/-- `htmlentities` of a character, quotes included. -/
def entity (c : Char) : Str :=
  if c = quote then "&#039;"
  else if c = '"' then "&quot;"
  else if c = '&' then "&amp;"
  else if c = '<' then "&lt;"
  else if c = '>' then "&gt;"
  else if 160 ≤ c.toNat then (entities[c.toNat - 160]?).elim [c] fun e => '&' :: (e ++ [';'])
  else [c]

def escapeStr (s : Str) : Str := s.flatMap entity

abbrev Table := List (Row Rule)

inductive TableName
  | inbound
  | outbound
  deriving DecidableEq

abbrev Db := TableName → Table

/-- `mybox_reorder_policy`: the rows that are fetched are those of the moment of the query. -/
def reorderPolicy (t : Table) : Table := renumberFrom 1 ((byId (raise t)).map Prod.fst) (raise t)

def TableName.name : TableName → Str
  | inbound => "pf_inbound"
  | outbound => "pf_outbound"

def insertText (n : TableName) (id : ℤ) (r : Rule) : Str :=
  "insert into " ++ n.name ++ " (id,srcn,src,dstn,dst,action,service,event,log,stat,note) values (" ++
    [','].intercalate (((toString id).toList::(r.chosen ++ [r.note])).map fun v => quote::(v ++ [quote])) ++ [')']

/-- Between quotes every text of a rule is a literal, as long as there is no apostrophe in it. -/
def Rule.Literal (r : Rule) : Prop := ∀ v ∈ r.chosen ++ [r.note], quote ∉ v

instance (r : Rule) : Decidable r.Literal := inferInstanceAs (Decidable (∀ v ∈ _, _))

-- what SQLite makes of any other statement
variable (query : Str → Db → Db)

def insertRow (n : TableName) (db : Db) (id : ℤ) (r : Rule) : Db :=
  if r.Literal then Function.update db n (db n ++ [(id,r)]) else query (insertText n id r) db

/-- The rule as it is added. Quotes of the request come with a backslash, which is no escape in a literal. -/
def Rule.escaped (r : Rule) : Rule := { r with note := escapeStr r.note }

def addRule (n : TableName) (position : Str) (r : Rule) (db : Db) : Db :=
  if position = ("TOP" : Str) then insertRow query n (Function.update db n (raise (db n))) 1 r.escaped
  else insertRow query n db (((db n).length : ℤ) + 1) r.escaped

/-- One `$x` of the list: its rows go into the target table, with the next number each. -/
def copyRule (source target : TableName) (s : Db × ℤ) (x : ℤ) : Db × ℤ :=
  ((s.1 source).filter fun r => r.1 = x).foldl (fun s r => (insertRow query target s.1 s.2 r.2,s.2 + 1)) s

def duplicate (source target : TableName) (del : List ℤ) (db : Db) : Db :=
  (del.foldl (copyRule query source target) (db,((db target).length : ℤ) + 1)).1

def deleteRules (del : List ℤ) (t : Table) : Table :=
  reorderPolicy (del.foldl (fun t x => t.filter fun r => r.1 ≠ x) t)

def shiftRule (shiftId : ℤ) (t : Table) (zid : ℤ) : Table := setId (-1) shiftId (setId shiftId zid (setId zid (-1) t))

def shiftRules (del : List ℤ) (shiftId : ℤ) (t : Table) : Table := del.foldl (shiftRule shiftId) t

/-- What the rule page does; `del` holds the rules that are ticked. -/
inductive Operation
  | add (n : TableName) (position : Str) (r : Rule)
  | duplicate (source target : TableName) (del : List ℤ)
  | delete (n : TableName) (del : List ℤ)
  | shift (n : TableName) (del : List ℤ) (shiftId : ℤ)
  | reorder (n : TableName)

def Operation.target : Operation → TableName
  | add n _ _ => n
  | duplicate _ n _ => n
  | delete n _ => n
  | shift n _ _ => n
  | reorder n => n

def step (db : Db) : Operation → Db
  | .add n position r => addRule query n position r db
  | .duplicate source target del => RuleOrder.duplicate query source target del db
  | .delete n del => Function.update db n (deleteRules del (db n))
  | .shift n del shiftId => Function.update db n (shiftRules del shiftId (db n))
  | .reorder n => Function.update db n (reorderPolicy (db n))

def Exists (t : Table) (x : ℤ) : Prop := ∃ r ∈ t, r.1 = x

def Valid (db : Db) : Operation → Prop
  | .duplicate source _ del => ∀ x ∈ del, Exists (db source) x
  | .shift n del shiftId => (∀ x ∈ del, Exists (db n) x) ∧ Exists (db n) shiftId
  | _ => True

/-- What is chosen for a new rule, and what a rule that is copied holds, is without an apostrophe. -/
def Plain (db : Db) : Operation → Prop
  | .add _ _ r => ∀ v ∈ r.chosen, quote ∉ v
  | .duplicate source _ del => ∀ x ∈ del, ∀ q ∈ db source, q.1 = x → q.2.Literal
  | _ => True

instance (db : Db) : (op : Operation) → Decidable (Valid db op)
  | .duplicate source _ del => inferInstanceAs (Decidable (∀ x ∈ del, ∃ r ∈ db source, r.1 = x))
  | .shift n del shiftId =>
    inferInstanceAs (Decidable ((∀ x ∈ del, ∃ r ∈ db n, r.1 = x) ∧ ∃ r ∈ db n, r.1 = shiftId))
  | .add _ _ _ | .delete _ _ | .reorder _ => inferInstanceAs (Decidable True)

instance (db : Db) : (op : Operation) → Decidable (Plain db op)
  | .add _ _ r => inferInstanceAs (Decidable (∀ v ∈ r.chosen, quote ∉ v))
  | .duplicate source _ del => inferInstanceAs (Decidable (∀ x ∈ del, ∀ q ∈ db source, q.1 = x → q.2.Literal))
  | .shift _ _ _ | .delete _ _ | .reorder _ => inferInstanceAs (Decidable True)

def ruleAt (l : List Rule) (x : ℤ) : Option Rule := l[(x - 1).toNat]?

def Outcome (db : Db) (new : List Rule) : Operation → Prop
  | .add n position r => new =
      if position = ("TOP" : Str) then r.escaped :: inOrder (db n) else inOrder (db n) ++ [r.escaped]
  | .duplicate source target del => new = inOrder (db target) ++ del.filterMap (ruleAt (inOrder (db source)))
  | .delete n del => new = ((numbered 1 (inOrder (db n))).filter fun r => r.1 ∉ del).map Prod.snd
  | .shift n _ _ => new.Perm (inOrder (db n))
  | .reorder n => new = inOrder (db n)

/-- Both tables are numbered from one on, the other one is untouched, and the written one holds what it should. -/
structure Maintained (op : Operation) (db db' : Db) : Prop where
  numbered : ∀ n, WellNumbered (db' n)
  others : ∀ n, n ≠ op.target → db' n = db n
  outcome : Outcome db (inOrder (db' op.target)) op

theorem reorderPolicy_spec {t : Table} (hd : (t.map Prod.fst).Nodup) (hp : ∀ r ∈ t, 1 ≤ r.1) :
    (reorderPolicy t).Perm (numbered 1 (inOrder t)) := by
  have hr : ((raise t).map Prod.fst).Nodup := by
    have he : (raise t).map Prod.fst = (t.map Prod.fst).map (· + 1) := by simp [raise]
    rw [he]
    exact hd.map fun a b h => by simpa using h
  have h := renumberFrom_spec hr (x := 1) fun q hq => by
    obtain ⟨r,hm,rfl⟩ := List.mem_map.mp hq
    have := hp r hm
    dsimp only
    omega
  rwa [inOrder_raise hd] at h

theorem quote_escapeStr (s : Str) : quote ∉ escapeStr s := by
  have hn : ∀ e ∈ entities, quote ∉ e := by decide
  intro h
  obtain ⟨c,-,hc⟩ := List.mem_flatMap.mp h
  unfold entity at hc
  split_ifs at hc with h₁
  · exact absurd hc (by decide)
  · exact absurd hc (by decide)
  · exact absurd hc (by decide)
  · exact absurd hc (by decide)
  · exact absurd hc (by decide)
  · cases he : entities[c.toNat - 160]? with
    | none =>
      rw [he] at hc
      exact h₁ (List.mem_singleton.mp hc).symm
    | some e =>
      rw [he] at hc
      have hq : ¬quote = '&' ∧ ¬quote = ';' := by decide
      simp [hq,hn e (List.mem_of_getElem? he)] at hc
  · exact h₁ (List.mem_singleton.mp hc).symm

theorem literal_escaped {r : Rule} : r.escaped.Literal ↔ ∀ v ∈ r.chosen, quote ∉ v := by
  constructor
  · exact fun h v hv => h v (List.mem_append_left _ hv)
  · intro h v hv
    rcases List.mem_append.mp hv with hv | hv
    · exact h v hv
    · rw [List.mem_singleton.mp hv]
      exact quote_escapeStr _

def added (position : Str) (r : Rule) (t : Table) : Table :=
  if position = ("TOP" : Str) then raise t ++ [(1,r)] else t ++ [((t.length : ℤ) + 1,r)]

theorem addRule_eq (n : TableName) (position : Str) {r : Rule} (db : Db) (hr : r.escaped.Literal) :
    addRule query n position r db = Function.update db n (added position r.escaped (db n)) := by
  unfold addRule added insertRow
  rw [if_pos hr,if_pos hr]
  split
  · rw [Function.update_self,Function.update_idem]
  · rfl

theorem append_spec {t : Table} (h : WellNumbered t) (l : List Rule) :
    (t ++ numbered ((t.length : ℤ) + 1) l).Perm (numbered 1 (inOrder t ++ l)) := by
  rw [numbered_append,length_inOrder,Int.add_comm 1]
  exact (wellNumbered_iff.mp h).append_right _

theorem added_spec (position : Str) (r : Rule) {t : Table} (h : WellNumbered t) :
    (added position r t).Perm (numbered 1 (if position = ("TOP" : Str) then r :: inOrder t else inOrder t ++ [r])) := by
  unfold added
  split
  · exact ((raise_perm (wellNumbered_iff.mp h)).append_right [(1,r)]).trans List.perm_append_comm
  · exact append_spec h [r]

theorem exists_bounds {t : Table} (h : WellNumbered t) {x : ℤ} (hx : Exists t x) :
    1 ≤ x ∧ x ≤ (inOrder t).length := by
  obtain ⟨r,hr,rfl⟩ := hx
  rw [length_inOrder]
  exact h.bounds hr

/-- There is one row under an existing number, and it holds the rule of that place. -/
theorem filter_existing {t : Table} (h : WellNumbered t) {x : ℤ} (hx : Exists t x) :
    ∃ r, ruleAt (inOrder t) x = some r ∧ (t.filter fun q => q.1 = x).map Prod.snd = [r] := by
  obtain ⟨h₁,h₂⟩ := exists_bounds h hx
  have hlt : (x - 1).toNat < (inOrder t).length := by omega
  have hk : x = 1 + ((x - 1).toNat : ℤ) := by omega
  refine ⟨(inOrder t)[(x - 1).toNat],by rw [ruleAt,List.getElem?_eq_getElem hlt],?_⟩
  have hf := filter_numbered 1 (inOrder t) (x - 1).toNat
  rw [← hk,List.getElem?_eq_getElem hlt] at hf
  have hp := ((wellNumbered_iff.mp h).filter fun q => q.1 = x).map Prod.snd
  rw [hf] at hp
  exact List.perm_singleton.mp hp

theorem copyRule_one {source target : TableName} {s : Db × ℤ} {x : ℤ} {r : Rule}
    (h : ((s.1 source).filter fun q => q.1 = x).map Prod.snd = [r]) :
    copyRule query source target s x = (insertRow query target s.1 s.2 r,s.2 + 1) := by
  obtain ⟨q,hq,rfl⟩ := List.map_eq_singleton_iff.mp h
  rw [copyRule,hq]
  rfl

theorem copies_length {t : Table} (h : WellNumbered t) {del : List ℤ} (hx : ∀ x ∈ del, Exists t x) :
    (del.filterMap (ruleAt (inOrder t))).length = del.length := by
  induction del with
  | nil => rfl
  | cons x del ih =>
    obtain ⟨r,hr,-⟩ := filter_existing h (hx x (by simp))
    simp [hr,ih fun y hy => hx y (List.mem_cons_of_mem _ hy)]

theorem filter_copied {source target : TableName} {db : Db} (hs : WellNumbered (db source)) {l : Table}
    (hl : ∀ q ∈ l, ((db target).length : ℤ) < q.1) {x : ℤ} (hx : Exists (db source) x) :
    ((Function.update db target (db target ++ l)) source).filter (fun q => q.1 = x) =
      (db source).filter fun q => q.1 = x := by
  by_cases hst : source = target
  · subst hst
    have hnone : l.filter (fun q => q.1 = x) = [] := by
      refine List.filter_eq_nil_iff.mpr fun q hq => ?_
      obtain ⟨y,hy,hyx⟩ := hx
      have hb := (hs.bounds hy).2
      have hn := hl q hq
      rw [decide_eq_true_eq]
      omega
    rw [Function.update_self,List.filter_append,hnone,List.append_nil]
  · rw [Function.update_of_ne hst]

/-- After some of the list the copies stand behind the old rows of the target. -/
theorem copyRules_spec {source target : TableName} {db : Db} (hs : WellNumbered (db source))
    {del : List ℤ} (hx : ∀ x ∈ del, Exists (db source) x)
    (hl : ∀ x ∈ del, ∀ q ∈ db source, q.1 = x → q.2.Literal) :
    del.foldl (copyRule query source target) (db,((db target).length : ℤ) + 1) =
      (Function.update db target (db target ++ numbered ((db target).length + 1)
        (del.filterMap (ruleAt (inOrder (db source))))),((db target).length : ℤ) + 1 + del.length) := by
  induction del using List.reverseRecOn with
  | nil => simp
  | append_singleton del x ih =>
    have hdb := ih (fun y hy => hx y (List.mem_append_left _ hy)) fun y hy => hl y (List.mem_append_left _ hy)
    have hlen := copies_length hs fun y hy => hx y (List.mem_append_left _ hy)
    obtain ⟨r,hr,hone⟩ := filter_existing hs (hx x (by simp))
    have hlit : r.Literal := by
      obtain ⟨q,hq,rfl⟩ := List.mem_map.mp (hone ▸ List.mem_singleton_self r)
      have hm := List.mem_filter.mp hq
      exact hl x (by simp) q hm.1 (of_decide_eq_true hm.2)
    have hcopies : (del ++ [x]).filterMap (ruleAt (inOrder (db source))) =
        del.filterMap (ruleAt (inOrder (db source))) ++ [r] := by
      rw [List.filterMap_append]
      simp [hr]
    have hrows := @filter_copied source target db hs (numbered ((db target).length + 1)
      (del.filterMap (ruleAt (inOrder (db source))))) (fun q hq => by have := (mem_numbered_bounds hq).1; omega) x
      (hx x (by simp))
    rw [List.foldl_append,hdb,List.foldl_cons,List.foldl_nil,copyRule_one (r:=r) query (by rw [hrows,hone]),hcopies,
      insertRow,if_pos hlit]
    refine Prod.ext ?_ ?_
    · simp only [Function.update_idem,Function.update_self,numbered_append,hlen,List.append_assoc]
      rfl
    · dsimp only
      rw [List.length_append,List.length_singleton]
      push_cast
      omega

/-- Where SQLite refuses what is no list of literals, the rows that cannot be written are missing. -/
theorem copyRules_refused (hq : ∀ s db, query s db = db) {source target : TableName} {db : Db}
    (hs : WellNumbered (db source)) {del : List ℤ} (hx : ∀ x ∈ del, Exists (db source) x) :
    ∃ l : Table, del.foldl (copyRule query source target) (db,((db target).length : ℤ) + 1) =
        (Function.update db target (db target ++ l),((db target).length : ℤ) + 1 + del.length) ∧
      (∀ q ∈ l, ((db target).length : ℤ) < q.1) ∧ l.length ≤ del.length ∧
      (l.length = del.length → ∀ x ∈ del, ∀ q ∈ db source, q.1 = x → q.2.Literal) := by
  induction del using List.reverseRecOn with
  | nil => exact ⟨[],by simp,by simp,le_rfl,by simp⟩
  | append_singleton del x ih =>
    obtain ⟨l,hdb,hb,hle,hall⟩ := ih fun y hy => hx y (List.mem_append_left _ hy)
    obtain ⟨r,-,hone⟩ := filter_existing hs (hx x (by simp))
    have hrows := filter_copied hs hb (hx x (by simp))
    rw [List.foldl_append,hdb,List.foldl_cons,List.foldl_nil,copyRule_one (r:=r) query (by rw [hrows,hone]),insertRow,hq,
      List.length_append,List.length_singleton]
    by_cases hlit : r.Literal
    · refine ⟨l ++ [(((db target).length : ℤ) + 1 + del.length,r)],?_,?_,?_,?_⟩
      · rw [if_pos hlit]
        refine Prod.ext ?_ (by push_cast; omega)
        simp only [Function.update_idem,Function.update_self,List.append_assoc]
      · intro q hm
        rcases List.mem_append.mp hm with hm | hm
        · exact hb q hm
        · rw [List.mem_singleton.mp hm]
          dsimp only
          omega
      · rw [List.length_append,List.length_singleton]
        omega
      · intro he y hy q hm hy'
        rw [List.length_append,List.length_singleton] at he
        rcases List.mem_append.mp hy with hy | hy
        · exact hall (by omega) y hy q hm hy'
        · rw [List.mem_singleton.mp hy] at hy'
          have hqr : q.2 ∈ [r] := hone ▸ List.mem_map_of_mem (List.mem_filter.mpr ⟨hm,by simpa using hy'⟩)
          rw [List.mem_singleton.mp hqr]
          exact hlit
    · refine ⟨l,?_,hb,by omega,fun he => absurd he (by omega)⟩
      rw [if_neg hlit]
      exact Prod.ext rfl (by push_cast; omega)

theorem deleted_eq (del : List ℤ) (t : Table) :
    del.foldl (fun t x => t.filter fun r => r.1 ≠ x) t = t.filter fun r => r.1 ∉ del := by
  induction del generalizing t with
  | nil => simp
  | cons x del ih =>
    rw [List.foldl_cons,ih,List.filter_filter]
    refine List.filter_congr fun r _ => ?_
    simp [Bool.and_comm]

theorem deleteRules_spec (del : List ℤ) {t : Table} (h : WellNumbered t) : (deleteRules del t).Perm
    (numbered 1 (((numbered 1 (inOrder t)).filter fun r => r.1 ∉ del).map Prod.snd)) := by
  have hp := (wellNumbered_iff.mp h).filter fun r => decide (r.1 ∉ del)
  have hs : ((numbered 1 (inOrder t)).filter fun r => decide (r.1 ∉ del)).Pairwise fun a b => a.1 < b.1 :=
    (numbered_pairwise 1 (inOrder t)).filter _
  have ho : inOrder (t.filter fun r => decide (r.1 ∉ del)) =
      ((numbered 1 (inOrder t)).filter fun r => decide (r.1 ∉ del)).map Prod.snd := by
    rw [inOrder,byId_eq hp hs]
  have hd : ((t.filter fun r => decide (r.1 ∉ del)).map Prod.fst).Nodup :=
    h.nodup.sublist (List.filter_sublist.map _)
  rw [deleteRules,deleted_eq,← ho]
  exact reorderPolicy_spec hd fun r hr => (h.bounds (List.mem_filter.mp hr).1).1

def exchanged (shiftId zid i : ℤ) : ℤ := if i = zid then shiftId else if i = shiftId then zid else i

theorem shiftRule_eq {shiftId zid : ℤ} {t : Table} (hs : 0 < shiftId) (hz : 0 < zid) (ht : ∀ r ∈ t, 0 < r.1) :
    shiftRule shiftId t zid = t.map fun r => (exchanged shiftId zid r.1,r.2) := by
  rw [shiftRule,setId,setId,setId,List.map_map,List.map_map]
  refine List.map_congr_left fun r hr => ?_
  have h₀ := ht r hr
  by_cases h₁ : r.1 = zid
  · by_cases h₂ : (-1 : ℤ) = shiftId
    · omega
    · simp [exchanged,h₁,h₂]
  · by_cases h₂ : r.1 = shiftId
    · have h₃ : ¬zid = -1 := by omega
      have h₄ : ¬shiftId = zid := fun h => h₁ (h₂.trans h)
      simp [exchanged,h₂,h₃,h₄]
    · have h₃ : ¬r.1 = -1 := by omega
      simp [exchanged,h₁,h₂,h₃]

theorem exchanged_invol (a b i : ℤ) : exchanged a b (exchanged a b i) = i := by
  unfold exchanged
  split_ifs <;> omega

/-- An exchange of two existing numbers permutes the rules. -/
theorem shiftRule_spec {shiftId zid : ℤ} {t : Table} (h : WellNumbered t) (hs : Exists t shiftId) (hz : Exists t zid) :
    WellNumbered (shiftRule shiftId t zid) ∧ (inOrder (shiftRule shiftId t zid)).Perm (inOrder t) ∧
      ∀ x, Exists (shiftRule shiftId t zid) x ↔ Exists t x := by
  have hpos : ∀ r ∈ t, 0 < r.1 := fun r hr => by
    have := (h.bounds hr).1
    omega
  have hps : 0 < shiftId := by
    obtain ⟨r,hr,rfl⟩ := hs
    exact hpos r hr
  have hpz : 0 < zid := by
    obtain ⟨r,hr,rfl⟩ := hz
    exact hpos r hr
  have hmem : ∀ i, i ∈ t.map Prod.fst → exchanged shiftId zid i ∈ t.map Prod.fst := by
    intro i hi
    unfold exchanged
    split_ifs
    · exact List.mem_map.mpr hs
    · exact List.mem_map.mpr hz
    · exact hi
  rw [shiftRule_eq hps hpz hpos]
  have hfst : (t.map fun r => (exchanged shiftId zid r.1,r.2)).map Prod.fst =
      (t.map Prod.fst).map (exchanged shiftId zid) := by simp
  have hinj : Function.Injective (exchanged shiftId zid) := fun a b hab => by
    rw [← exchanged_invol shiftId zid a,hab,exchanged_invol]
  have hperm : ((t.map Prod.fst).map (exchanged shiftId zid)).Perm (t.map Prod.fst) := by
    refine (List.perm_ext_iff_of_nodup (h.nodup.map hinj) h.nodup).mpr fun i => ?_
    rw [List.mem_map]
    constructor
    · rintro ⟨j,hj,rfl⟩
      exact hmem j hj
    · intro hi
      exact ⟨_,hmem i hi,exchanged_invol _ _ _⟩
  refine ⟨?_,?_,fun x => ?_⟩
  · rw [WellNumbered,hfst]
    exact (hperm.trans h).trans (List.Perm.of_eq (numbered_fst (by simp) 1))
  · refine (inOrder_perm _).trans (((List.Perm.of_eq ?_)).trans (inOrder_perm t).symm)
    simp
  · rw [Exists,← List.mem_map (f:=Prod.fst),hfst,hperm.mem_iff,List.mem_map]
    rfl

theorem shiftRules_spec {del : List ℤ} {shiftId : ℤ} {t : Table} (h : WellNumbered t) (hs : Exists t shiftId)
    (hz : ∀ x ∈ del, Exists t x) :
    WellNumbered (shiftRules del shiftId t) ∧ (inOrder (shiftRules del shiftId t)).Perm (inOrder t) := by
  induction del generalizing t with
  | nil => exact ⟨h,List.Perm.refl _⟩
  | cons x del ih =>
    obtain ⟨hw,hp,he⟩ := shiftRule_spec h hs (hz x (by simp))
    have hi := ih hw ((he _).mpr hs) fun y hy => (he y).mpr (hz y (List.mem_cons_of_mem _ hy))
    exact ⟨hi.1,hi.2.trans hp⟩

/-- One operation keeps both tables in order. -/
theorem maintained_step {db : Db} (h : ∀ n, WellNumbered (db n)) {op : Operation} (hv : Valid db op)
    (hp : Plain db op) : Maintained op db (step query db op) := by
  have written : ∀ {n : TableName} {t : Table} {l : List Rule}, t.Perm (numbered 1 l) →
      (∀ m, WellNumbered (Function.update db n t m)) ∧ inOrder (Function.update db n t n) = l := by
    intro n t l hp
    refine ⟨fun m => ?_,by rw [Function.update_self,inOrder_numbered hp]⟩
    by_cases hm : m = n
    · subst hm
      rw [Function.update_self]
      exact wellNumbered_of_perm hp
    · rw [Function.update_of_ne hm]
      exact h m
  have others : ∀ {n : TableName} {t : Table}, ∀ m, m ≠ n → Function.update db n t m = db m :=
    fun m hm => Function.update_of_ne hm _ _
  cases op with
  | add n position r =>
    obtain ⟨hw,ho⟩ := written (n:=n) (added_spec position r.escaped (h n))
    rw [step,addRule_eq query n position db (literal_escaped.mpr hp)]
    exact ⟨hw,others,ho⟩
  | duplicate source target del =>
    have hc := @copyRules_spec query source target db (h source) del hv hp
    obtain ⟨hw,ho⟩ := written (n:=target) (append_spec (h target) (del.filterMap (ruleAt (inOrder (db source)))))
    have hs : step query db (.duplicate source target del) = Function.update db target
        (db target ++ numbered ((db target).length + 1) (del.filterMap (ruleAt (inOrder (db source))))) := by
      rw [step,duplicate,hc]
    rw [hs]
    exact ⟨hw,others,ho⟩
  | delete n del =>
    obtain ⟨hw,ho⟩ := written (n:=n) (deleteRules_spec del (h n))
    exact ⟨hw,others,ho⟩
  | shift n del shiftId =>
    obtain ⟨hn,hp⟩ := shiftRules_spec (h n) hv.2 hv.1
    obtain ⟨hw,ho⟩ := written (n:=n) (wellNumbered_iff.mp hn)
    refine ⟨hw,others,?_⟩
    change (inOrder (Function.update db n (shiftRules del shiftId (db n)) n)).Perm _
    rw [ho]
    exact hp
  | reorder n =>
    obtain ⟨hw,ho⟩ := written (n:=n) (reorderPolicy_spec (h n).nodup fun r hr => ((h n).bounds hr).1)
    exact ⟨hw,others,ho⟩

/-- Where SQLite refuses what is no list of literals, an operation that is not plain does not do what it should. -/
theorem plain_of_maintained (hq : ∀ s db, query s db = db) {db : Db} (h : ∀ n, WellNumbered (db n)) {op : Operation}
    (hv : Valid db op) (hm : Maintained op db (step query db op)) : Plain db op := by
  cases op with
  | add n position r =>
    refine literal_escaped.mp (by_contra fun hr => ?_)
    have ho : inOrder (addRule query n position r db n) = if position = ("TOP" : Str) then r.escaped :: inOrder (db n)
        else inOrder (db n) ++ [r.escaped] := hm.outcome
    have hl := congrArg List.length ho
    rw [length_inOrder,addRule,insertRow,insertRow,if_neg hr,if_neg hr,hq,hq] at hl
    split at hl
    · rw [Function.update_self,raise,List.length_map,List.length_cons,length_inOrder] at hl
      omega
    · rw [List.length_append,List.length_singleton,length_inOrder] at hl
      omega
  | duplicate source target del =>
    obtain ⟨l,hc,-,-,hall⟩ := @copyRules_refused query hq source target db (h source) del hv
    have ho : inOrder (duplicate query source target del db target) =
        inOrder (db target) ++ del.filterMap (ruleAt (inOrder (db source))) := hm.outcome
    have hl := congrArg List.length ho
    rw [length_inOrder,duplicate,hc] at hl
    dsimp only at hl
    rw [Function.update_self,List.length_append,List.length_append,length_inOrder,copies_length (h source) hv] at hl
    exact hall (by omega)
  | delete n del => trivial
  | shift n del shiftId => trivial
  | reorder n => trivial

/-- Every operation of a run keeps both tables in order if what is written has no apostrophe in it, and only if SQLite
refuses the other statements. -/
theorem order_maintained (db : Db) (ops : List Operation) (h : ∀ n, WellNumbered (db n))
    (hv : ∀ ms op ns, ops = ms ++ op::ns → Valid (ms.foldl (step query) db) op) :
    ((∀ ms op ns, ops = ms ++ op::ns → Plain (ms.foldl (step query) db) op) →
      ∀ ms op ns, ops = ms ++ op::ns →
        Maintained op (ms.foldl (step query) db) (step query (ms.foldl (step query) db) op)) ∧
    ((∀ s db, query s db = db) →
      (∀ ms op ns, ops = ms ++ op::ns →
        Maintained op (ms.foldl (step query) db) (step query (ms.foldl (step query) db) op)) →
      ∀ ms op ns, ops = ms ++ op::ns → Plain (ms.foldl (step query) db) op) := by
  have key : ∀ ms ns, ops = ms ++ ns → (∀ fs op gs, ops = fs ++ op::gs → fs.length < ms.length →
      Maintained op (fs.foldl (step query) db) (step query (fs.foldl (step query) db) op)) →
      ∀ n, WellNumbered (ms.foldl (step query) db n) := by
    intro ms ns hm hk
    cases ms using List.reverseRecOn with
    | nil => exact h
    | append_singleton fs op =>
      rw [List.append_assoc,List.singleton_append] at hm
      rw [List.foldl_append,List.foldl_cons,List.foldl_nil]
      exact (hk fs op ns hm (by simp)).numbered
  constructor
  · intro hp ms
    induction ms using List.reverseRecOn with
    | nil => exact fun op ns hm => maintained_step query h (hv [] op ns hm) (hp [] op ns hm)
    | append_singleton fs f ih =>
      intro op ns hm
      refine maintained_step query (fun n => ?_) (hv _ op ns hm) (hp _ op ns hm)
      rw [List.foldl_append,List.foldl_cons,List.foldl_nil]
      exact (ih f (op::ns) (by rw [hm,List.append_assoc]; rfl)).numbered n
  · intro hq hm ms op ns he
    exact plain_of_maintained query hq (key ms (op::ns) he fun fs op gs hf _ => hm fs op gs hf) (hv ms op ns he)
      (hm ms op ns he)

/-- A rule that lets a service through from some addresses. -/
def passing (src service : Str) : Rule where
  srcn := "0"
  src := src
  dstn := "0"
  dst := "any"
  action := "1"
  service := service
  event := ""
  log := "0"
  stat := "1"
  note := ""

def startDb : Db
  | .inbound => [(2,passing "any" "http"),(1,passing "any" "ssh")]
  | .outbound => []

def pageRun : List Operation := [.add .inbound "TOP" (passing "any" "smtp"),.duplicate .inbound .outbound [3,1],
  .shift .inbound [2] 1,.delete .inbound [3]]

def refused (_ : Str) (db : Db) : Db := db

theorem startDb_numbered (n : TableName) : WellNumbered (startDb n) := by
  cases n <;> decide

theorem pageRun_steps {P : Db → Operation → Prop} (h : ∀ k ∈ List.range 4,
    ∀ op ∈ pageRun[k]?, P ((pageRun.take k).foldl (step refused) startDb) op) (ms : List Operation) (op : Operation)
    (ns : List Operation) (hm : pageRun = ms ++ op::ns) : P (ms.foldl (step refused) startDb) op := by
  have hl : ms.length < 4 := by
    have := congrArg List.length hm
    simp [pageRun] at this
    omega
  have ht : pageRun.take ms.length = ms := by rw [hm,List.take_left]
  have ho : pageRun[ms.length]? = some op := by rw [hm]; simp
  have hk := h ms.length (List.mem_range.mpr hl) op ho
  rwa [ht] at hk

theorem order_maintained_page :
    Maintained (.delete .inbound [3]) ((pageRun.take 3).foldl (step refused) startDb)
      (pageRun.foldl (step refused) startDb) := by
  exact (order_maintained refused startDb pageRun startDb_numbered (pageRun_steps (by decide))).1
    (pageRun_steps (by decide)) (pageRun.take 3) (.delete .inbound [3]) [] rfl

def ownersRule : Rule := passing ("Joe\\".toList ++ quote :: "s (Address)".toList) "http"

/-- The numbers of the other rules have been raised by the time the new one is refused. -/
theorem order_not_maintained : ¬ ∀ (db : Db) (ops : List Operation),
    (∀ n, WellNumbered (db n)) → (∀ ms op ns, ops = ms ++ op::ns → Valid (ms.foldl (step refused) db) op) →
    ∀ ms op ns, ops = ms ++ op::ns →
      Maintained op (ms.foldl (step refused) db) (step refused (ms.foldl (step refused) db) op) := by
  intro h
  have hm := h startDb [.add .inbound "TOP" ownersRule] startDb_numbered (fun ms op ns he => by
    obtain ⟨rfl,he⟩ | ⟨ms,rfl,he⟩ := List.cons_eq_append_iff.mp he
    · obtain rfl := (List.cons.inj he).1
      trivial
    · exact absurd he (by simp)) [] _ [] rfl
  have hn := hm.numbered .inbound
  revert hn
  decide

end RuleOrder
end Mybox
