import Mybox.ListedWords
import Mybox.Php
import Mathlib.Data.List.Nodup

/-! Version 3.0: the definitions of networks, services and times, the columns that name them, and what the pages of the
definitions write into those columns when a definition is renamed or deleted. -/
namespace Mybox
namespace DefinitionRefs
open Php

inductive Kind
  | network
  | service
  | time
  deriving DecidableEq

/-- The tables of the definitions. -/
inductive Def
  | networks
  | networksGrp
  | services
  | servicesGrp
  | times
  deriving DecidableEq

def Def.kind : Def → Kind
  | .networks | .networksGrp => .network
  | .services | .servicesGrp => .service
  | .times => .time

/-- The tables a name of the kind is looked up in, in their order. -/
def Kind.defs : Kind → List Def
  | .network => [.networks,.networksGrp]
  | .service => [.services,.servicesGrp]
  | .time => [.times]

inductive Table
  | defs (d : Def)
  | pfInbound
  | pfOutbound
  | pfDnat
  | pfSnat
  | pfMap
  | ipsExclude
  | imp2pExclude
  | cfExclude
  | cfFtpExclude
  | cfMailExclude
  | staticRoute
  | policyRoute
  | dnsRouting
  | serverBalancing
  | htbClient
  | serviceSnmp
  deriving DecidableEq

inductive Column
  | name
  | members
  | src
  | dst
  | fwd
  | service
  | fwdp
  | event
  | network
  | gateway
  | server
  | target1
  | target2
  | alist
  deriving DecidableEq

/-- The values of `misc` and `cf` that are about definitions. -/
inductive Var
  | ipsNet
  | ipsHttpServer
  | ipsSmtpServer
  | ipsDnsServer
  | ipsSqlServer
  | dnsAcl
  | dnsForward
  | dhcpRelayServer
  | captivePortalNetwork
  | ntpAcl
  | ntpServer
  | loggerServer
  | loggerPort
  | pptpVpnPoolNet
  | pptpVpnDhcpServer
  | cfHttpNetworks
  | cfFtpNetwork
  | cfMailPop3Network
  | cfImNetwork
  deriving DecidableEq

/-- A name that the forms take. -/
structure IsName (s : Str) : Prop where
  word : LineText.Word trimChar s
  plain : ∀ c ∈ s, c ≠ ',' ∧ c ≠ '$' ∧ c ≠ ';' ∧ c ≠ '\''

instance (s : Str) : Decidable (IsName s) :=
  decidable_of_iff ((s ≠ [] ∧ LineText.Stripped trimChar s) ∧ ∀ c ∈ s, c ≠ ',' ∧ c ≠ '$' ∧ c ≠ ';' ∧ c ≠ '\'')
    ⟨fun h => ⟨⟨h.1.1,h.1.2⟩,h.2⟩,fun h => ⟨⟨h.word.ne,h.word.stripped⟩,h.plain⟩⟩

abbrev Name := {s : Str // IsName s}

structure Row where
  id : ℕ
  cell : Column → Str

structure Db where
  rows : Table → List Row
  /-- A value that is not there is empty. -/
  var : Var → Str
  /-- The names of interfaces and of their addresses, which come before those of networks. -/
  devices : List Str
  ids : ∀ t, ((rows t).map Row.id).Nodup
  named : ∀ d, ∀ r ∈ rows (.defs d), IsName (r.cell .name)

structure Obj where
  of : Def
  id : ℕ
  deriving DecidableEq

def Db.device (db : Db) (k : Kind) (x : Str) : Prop := k = .network ∧ x ∈ db.devices

instance (db : Db) (k : Kind) (x : Str) : Decidable (db.device k x) := inferInstanceAs (Decidable (_ ∧ _))

def Db.find (db : Db) (x : Str) (d : Def) : Option Obj :=
  ((db.rows (.defs d)).find? fun r => r.cell .name = x).map fun r => ⟨d,r.id⟩

def Db.resolve (db : Db) (k : Kind) (x : Str) : Option Obj := if db.device k x then none else k.defs.findSome? (db.find x)

def Db.Has (db : Db) (o : Obj) (x : Str) : Prop := ∃ r ∈ db.rows (.defs o.of), r.id = o.id ∧ r.cell .name = x

def Db.Unused (db : Db) (k : Kind) (x : Str) : Prop :=
  ¬db.device k x ∧ ∀ d ∈ k.defs, ∀ r ∈ db.rows (.defs d), r.cell .name ≠ x

inductive Reading
  /-- one name -/
  | one
  /-- names with commas between them -/
  | list
  deriving DecidableEq

/-- The names in a text, without the blanks around them. -/
def names : Reading → Str → List Str
  | .one, v => if trim v = [] then [] else [trim v]
  | .list, v => LineText.lines trimChar ',' v

def column : Kind → Table → Column → Option Reading
  | .network, .defs .networksGrp, .members => some .list
  | .network, .pfInbound, .src | .network, .pfInbound, .dst | .network, .pfOutbound, .src | .network, .pfOutbound, .dst => some .list
  | .network, .pfDnat, .src | .network, .pfDnat, .dst | .network, .pfDnat, .fwd => some .list
  | .network, .pfSnat, .src | .network, .pfSnat, .dst | .network, .pfSnat, .fwd => some .list
  | .network, .pfMap, .src | .network, .pfMap, .dst | .network, .pfMap, .fwd => some .list
  | .network, .ipsExclude, .src | .network, .ipsExclude, .dst => some .one
  | .network, .imp2pExclude, .src | .network, .imp2pExclude, .dst => some .one
  | .network, .cfExclude, .src => some .list
  | .network, .cfFtpExclude, .src | .network, .cfFtpExclude, .dst => some .list
  | .network, .cfMailExclude, .src | .network, .cfMailExclude, .dst => some .list
  | .network, .staticRoute, .network | .network, .staticRoute, .gateway => some .one
  | .network, .policyRoute, .src | .network, .policyRoute, .dst | .network, .policyRoute, .fwd => some .one
  | .network, .dnsRouting, .server => some .list
  | .network, .serverBalancing, .target1 | .network, .serverBalancing, .target2 => some .one
  | .network, .htbClient, .src | .network, .htbClient, .dst => some .one
  | .network, .serviceSnmp, .alist => some .list
  | .service, .defs .servicesGrp, .members => some .list
  | .service, .pfInbound, .service | .service, .pfOutbound, .service => some .list
  | .service, .pfDnat, .service | .service, .pfDnat, .fwdp | .service, .pfSnat, .service | .service, .pfSnat, .fwdp => some .list
  | .service, .policyRoute, .service | .service, .serverBalancing, .service | .service, .htbClient, .service => some .one
  | .time, .pfInbound, .event | .time, .pfOutbound, .event => some .one
  | .time, .pfDnat, .event | .time, .pfSnat, .event | .time, .pfMap, .event => some .one
  | _, _, _ => none

def value : Kind → Var → Option Reading
  | .network, .ipsNet | .network, .dnsAcl | .network, .dnsForward | .network, .captivePortalNetwork => some .list
  | .network, .ntpAcl | .network, .ntpServer => some .list
  | .network, .cfHttpNetworks | .network, .cfFtpNetwork | .network, .cfMailPop3Network | .network, .cfImNetwork => some .list
  | .network, .ipsHttpServer | .network, .ipsSmtpServer | .network, .ipsDnsServer | .network, .ipsSqlServer => some .one
  | .network, .dhcpRelayServer | .network, .loggerServer => some .one
  | .network, .pptpVpnPoolNet | .network, .pptpVpnDhcpServer => some .one
  | .service, .loggerPort => some .one
  | _, _ => none

/-- The patterns that have a name in them. -/
structure Patterns extends Pcre where
  /-- `preg_match("/$nameold/",$_members)` -/
  found : Str → Str → Bool
  found_literal : ∀ name v, Literal name → found name v = decide (name <:+: v)

def Patterns.plain : Patterns where
  toPcre := Pcre.plain
  found name v := decide (name <:+: v)
  found_literal _ _ _ := rfl

/-- What is done with a column. -/
inductive Rename
  /-- nothing -/
  | kept
  /-- `members` of a group: a list by its pattern, a single member is written as it is -/
  | members
  /-- a list by its pattern, a single name compared -/
  | pattern
  /-- compared as a whole, and written in any case -/
  | whole
  /-- compared as a whole -/
  | compare
  /-- each piece compared, and written in any case -/
  | pieces
  /-- the same, with the blanks around the text -/
  | rawPieces
  /-- `dhcp_relay_server`: compared as a whole, and the variable that is written has not been set -/
  | relay
  deriving DecidableEq

section

variable (re : Patterns) (name nameold : Str)

def patternText (m v : Str) : Str := if re.found nameold m then re.replace nameold name m else v

/-- `$_p .="$name,"` for the pieces that are the old name -/
def piecesText (m : Str) : Str :=
  trimWith "," ((split ',' m).flatMap fun x => (if looseEq x nameold then name else x) ++ [','])

def Rename.text : Rename → Str → Str
  | .kept, v => v
  | .members, v =>
    if ',' ∈ trim v then patternText re name nameold (trim v) v
    else if looseEq (trim v) nameold then trim v else v
  | .pattern, v =>
    if ',' ∈ trim v then patternText re name nameold (trim v) v
    else if looseEq (trim v) nameold then name else v
  | .whole, v => if trim v = [] then v else if looseEq (trim v) nameold then name else trim v
  | .compare, v => if looseEq (trim v) nameold then name else v
  | .pieces, v => if trim v = [] then v else piecesText name nameold (trim v)
  | .rawPieces, v => if v = [] then v else piecesText name nameold v
  | .relay, v => if v ≠ [] ∧ looseEq v nameold = true then [] else v

end

/-- `update_def` of the three pages -/
def renameColumn : Kind → Table → Column → Rename
  | .network, .defs .networksGrp, .members => .members
  | .network, .pfInbound, .src | .network, .pfInbound, .dst | .network, .pfOutbound, .src | .network, .pfOutbound, .dst => .pattern
  | .network, .pfDnat, .src | .network, .pfDnat, .dst | .network, .pfDnat, .fwd => .pattern
  | .network, .pfSnat, .src | .network, .pfSnat, .dst | .network, .pfSnat, .fwd => .pattern
  | .network, .pfMap, .src | .network, .pfMap, .dst | .network, .pfMap, .fwd => .pattern
  | .network, .ipsExclude, .src | .network, .ipsExclude, .dst => .whole
  | .network, .staticRoute, .network | .network, .staticRoute, .gateway => .whole
  | .network, .dnsRouting, .server => .pieces
  | .network, .serverBalancing, .target1 | .network, .serverBalancing, .target2 => .whole
  | .service, .defs .servicesGrp, .members => .members
  | .service, .pfInbound, .service | .service, .pfOutbound, .service => .pattern
  | .service, .pfDnat, .service | .service, .pfDnat, .fwdp | .service, .pfSnat, .service | .service, .pfSnat, .fwdp => .pattern
  | .service, .serverBalancing, .service | .service, .htbClient, .service => .compare
  | .time, .pfInbound, .event | .time, .pfOutbound, .event => .compare
  | .time, .pfDnat, .event | .time, .pfSnat, .event | .time, .pfMap, .event => .compare
  | _, _, _ => .kept

def renameVar : Kind → Var → Rename
  | .network, .ipsNet | .network, .dnsAcl | .network, .dnsForward | .network, .ntpAcl | .network, .ntpServer => .pieces
  | .network, .ipsHttpServer | .network, .ipsSmtpServer | .network, .ipsDnsServer | .network, .ipsSqlServer => .whole
  | .network, .captivePortalNetwork => .rawPieces
  | .network, .dhcpRelayServer => .relay
  | _, _ => .kept

/-- The page has the columns of other tables renamed: the names are not equal to `!=`, and they are not of a group of
services. -/
def updates (d : Def) (name nameold : Str) : Bool := !looseEq name nameold && d ≠ .servicesGrp

def renameColumnOf (d : Def) (name nameold : Str) (t : Table) (c : Column) : Rename :=
  if updates d name nameold then renameColumn d.kind t c else .kept

def renameVarOf (d : Def) (name nameold : Str) (v : Var) : Rename :=
  if updates d name nameold then renameVar d.kind v else .kept

/-- The row of a table after a definition has been renamed. -/
def renamedRow (re : Patterns) (o : Obj) (name nameold : Str) (t : Table) (r : Row) : Row where
  id := r.id
  cell c :=
    if t = .defs o.of ∧ r.id = o.id ∧ c = .name then name
    else (renameColumnOf o.of name nameold t c).text re name nameold (r.cell c)

theorem renameColumn_name (k : Kind) (t : Table) : renameColumn k t .name = .kept := by
  cases k <;> cases t <;> first | rfl | (rename_i d; cases d <;> rfl)

theorem renamedRow_name (re : Patterns) (o : Obj) (name nameold : Str) (t : Table) (r : Row) :
    (renamedRow re o name nameold t r).cell .name = if t = .defs o.of ∧ r.id = o.id then name else r.cell .name := by
  have hk : renameColumnOf o.of name nameold t .name = .kept := by
    rw [renameColumnOf,renameColumn_name]
    split <;> rfl
  simp [renamedRow,hk,Rename.text]

/-- There is a definition of the name already: what the page of the table asks. -/
def taken (db : Db) (d : Def) (x : Str) : Bool := (db.rows (.defs d)).any fun r => r.cell .name = x

def refused (db : Db) (name nameold : Str) : Def → Bool
  | .networksGrp => taken db .networks name || (!looseEq name nameold && taken db .networksGrp name)
  | .servicesGrp => taken db .services name || (!looseEq name nameold && taken db .servicesGrp name)
  | d => !looseEq name nameold && taken db d name

/-- A definition is saved under another name; the other columns of its row are posted as they are. -/
def renamedDb (re : Patterns) (db : Db) (o : Obj) (name nameold : Name) : Db where
  rows t := (db.rows t).map (renamedRow re o name.1 nameold.1 t)
  var v := (renameVarOf o.of name.1 nameold.1 v).text re name.1 nameold.1 (db.var v)
  devices := db.devices
  ids t := by
    rw [List.map_map]
    exact db.ids t
  named d := by
    intro r hr
    obtain ⟨q,hq,rfl⟩ := List.mem_map.mp hr
    rw [renamedRow_name]
    split
    · exact name.2
    · exact db.named d q hq

def rename (re : Patterns) (db : Db) (o : Obj) (name nameold : Name) : Db :=
  if refused db name.1 nameold.1 o.of then db else renamedDb re db o name nameold

/-- What is done with a column or a value. -/
inductive Delete
  /-- nothing -/
  | kept
  /-- a list loses the name; the row is deleted if nothing is left, or if it is the single name -/
  | list
  /-- the row is deleted if it is the name -/
  | row
  /-- `server` of `dns_routing`: what is split is not the column but a variable that is empty by then -/
  | routing
  /-- a value that is a list loses the name -/
  | pieces
  /-- the same, with the blanks around the text -/
  | rawPieces
  /-- a value that is the name becomes empty -/
  | whole
  /-- the same, with the blanks around the text; the variable that is written has not been set -/
  | relay
  deriving DecidableEq

/-- `$_members .="$gp,"` for the pieces that are not the name -/
def leftText (name m : Str) : Str := trimWith "," (((split ',' m).filter fun x => !looseEq x name).flatMap (· ++ [',']))

/-- What is left of a text; nothing if its row is deleted. -/
def Delete.text (name : Str) : Delete → Str → Option Str
  | .kept, v => some v
  | .list, v =>
    if ',' ∈ trim v then if leftText name (trim v) = [] then none else some (leftText name (trim v))
    else if looseEq (trim v) name then none else some v
  | .row, v => if looseEq (trim v) name then none else some v
  | .routing, v => some (if trim v = [] then v else leftText name [])
  | .pieces, v => some (if trim v = [] then v else leftText name (trim v))
  | .rawPieces, v => some (if v = [] then v else leftText name v)
  | .whole, v => some (if trim v = [] then v else if looseEq (trim v) name then [] else trim v)
  | .relay, v => some (if v ≠ [] ∧ looseEq v name = true then [] else v)

def deleteColumn : Kind → Table → Column → Delete
  | .network, .defs .networksGrp, .members => .list
  | .network, .pfInbound, .src | .network, .pfInbound, .dst | .network, .pfOutbound, .src | .network, .pfOutbound, .dst => .list
  | .network, .pfDnat, .src | .network, .pfDnat, .dst | .network, .pfDnat, .fwd => .list
  | .network, .pfSnat, .src | .network, .pfSnat, .dst | .network, .pfSnat, .fwd => .list
  | .network, .pfMap, .src | .network, .pfMap, .dst | .network, .pfMap, .fwd => .list
  | .network, .ipsExclude, .src | .network, .ipsExclude, .dst => .row
  | .network, .staticRoute, .network | .network, .staticRoute, .gateway => .row
  | .network, .dnsRouting, .server => .routing
  | .network, .serverBalancing, .target1 | .network, .serverBalancing, .target2 => .row
  | .service, .defs .servicesGrp, .members => .list
  | .service, .pfInbound, .service | .service, .pfOutbound, .service => .list
  | .service, .pfDnat, .service | .service, .pfDnat, .fwdp | .service, .pfSnat, .service | .service, .pfSnat, .fwdp => .list
  | .service, .serverBalancing, .service | .service, .htbClient, .service => .row
  | .time, .pfInbound, .event | .time, .pfOutbound, .event => .row
  | .time, .pfDnat, .event | .time, .pfSnat, .event | .time, .pfMap, .event => .row
  | _, _, _ => .kept

def deleteVar : Kind → Var → Delete
  | .network, .ipsNet | .network, .dnsAcl | .network, .dnsForward | .network, .ntpAcl | .network, .ntpServer => .pieces
  | .network, .ipsHttpServer | .network, .ipsSmtpServer | .network, .ipsDnsServer | .network, .ipsSqlServer => .whole
  | .network, .captivePortalNetwork => .rawPieces
  | .network, .dhcpRelayServer => .relay
  | _, _ => .kept

def Column.all : List Column :=
  [.name,.members,.src,.dst,.fwd,.service,.fwdp,.event,.network,.gateway,.server,.target1,.target2,.alist]

theorem Column.mem_all (c : Column) : c ∈ Column.all := by cases c <;> decide

def leftRow (k : Kind) (name : Str) (t : Table) (r : Row) : Option Row :=
  if ∀ c ∈ Column.all, (deleteColumn k t c).text name (r.cell c) ≠ none then
    some ⟨r.id,fun c => ((deleteColumn k t c).text name (r.cell c)).getD (r.cell c)⟩
  else none

theorem leftRow_id {k : Kind} {name : Str} {t : Table} {r r' : Row} (h : leftRow k name t r = some r') : r'.id = r.id := by
  unfold leftRow at h
  split at h
  · cases h
    rfl
  · cases h

theorem deleteColumn_name (k : Kind) (t : Table) : deleteColumn k t .name = .kept := by
  cases k <;> cases t <;> first | rfl | (rename_i d; cases d <;> rfl)

theorem leftRow_name {k : Kind} {name : Str} {t : Table} {r r' : Row} (h : leftRow k name t r = some r') :
    r'.cell .name = r.cell .name := by
  unfold leftRow at h
  split at h
  · cases h
    change ((deleteColumn k t .name).text name (r.cell .name)).getD (r.cell .name) = _
    rw [deleteColumn_name]
    rfl
  · cases h

def Obj.IsRow (o : Obj) (t : Table) (r : Row) : Prop := t = .defs o.of ∧ r.id = o.id

instance (o : Obj) (t : Table) (r : Row) : Decidable (o.IsRow t r) := inferInstanceAs (Decidable (_ ∧ _))

def deletedRows (db : Db) (o : Obj) (name : Str) (t : Table) : List Row :=
  ((db.rows t).filter fun r => !o.IsRow t r).filterMap (leftRow o.of.kind name t)

theorem mem_deletedRows {db : Db} {o : Obj} {name : Str} {t : Table} {r' : Row} :
    r' ∈ deletedRows db o name t ↔ ∃ r ∈ db.rows t, ¬o.IsRow t r ∧ leftRow o.of.kind name t r = some r' := by
  simp [deletedRows,List.mem_filterMap,List.mem_filter,and_assoc]

def deletedDb (db : Db) (o : Obj) (name : Str) : Db where
  rows := deletedRows db o name
  var v := ((deleteVar o.of.kind v).text name (db.var v)).getD (db.var v)
  devices := db.devices
  ids t := by
    have hleft : ∀ rs : List Row, ((rs.filterMap (leftRow o.of.kind name t)).map Row.id).Sublist (rs.map Row.id) := by
      intro rs
      induction rs with
      | nil => exact List.Sublist.slnil
      | cons r rs ih =>
        cases hr : leftRow o.of.kind name t r with
        | none =>
          rw [List.filterMap_cons_none hr]
          exact ih.trans (List.sublist_cons_self _ _)
        | some r' =>
          rw [List.filterMap_cons_some hr,List.map_cons,List.map_cons,leftRow_id hr]
          exact ih.cons_cons _
    exact (db.ids t).sublist ((hleft _).trans (List.filter_sublist.map Row.id))
  named d r' h := by
    obtain ⟨r,hr,-,hl⟩ := mem_deletedRows.mp h
    rw [leftRow_name hl]
    exact db.named d r hr

/-- `del_name`: without a row of the id nothing is deleted, and no name is looked for. -/
def delName (db : Db) (o : Obj) : Db :=
  match (db.rows (.defs o.of)).find? (·.id = o.id) with
  | some r => deletedDb db o (r.cell .name)
  | none => db

theorem numeric_blank {s : Str} (h : trim s = []) : numeric s = none := by
  have hb := trim_eq_nil.mp h
  have hscan : scanNumber s = none := by
    unfold scanNumber
    generalize hr : s.dropWhile (fun c => regexSpace c || c = '\x0b') = r
    cases r with
    | nil => rfl
    | cons c t =>
      have hc : c ∈ s := (List.dropWhile_sublist _).mem (hr ▸ List.mem_cons_self)
      have hn := List.head_dropWhile_not (p := fun c => regexSpace c || c = '\x0b') (l := s) (by rw [hr]; exact List.cons_ne_nil _ _)
      have hc0 : c = '\x00' := by
        have := hb c hc
        simp only [hr,List.head_cons] at hn
        simp only [regexSpace,trimChar,Bool.or_eq_true,decide_eq_true_eq,Bool.or_eq_false_iff,decide_eq_false_iff_not] at this hn
        tauto
      subst hc0
      rfl
  rw [numeric,hscan]

@[simp] theorem trim_name (n : Name) : trim n.1 = n.1 := n.2.word.stripped

theorem name_ne (n : Name) : n.1 ≠ [] := n.2.word.ne

theorem comma_name (n : Name) : ',' ∉ n.1 := fun h => (n.2.plain ',' h).1 rfl

theorem looseEq_blank {s : Str} (h : trim s = []) (n : Name) : looseEq s n.1 = false := by
  rw [looseEq_comm,looseEq_text (numeric_blank h),decide_eq_false_iff_not]
  rintro rfl
  exact name_ne n ((trim_name n).symm.trans h)

theorem names_one {v : Str} (h : trim v ≠ []) : names .one v = [trim v] := if_neg h

theorem names_one_name (n : Name) : names .one n.1 = [n.1] := by
  rw [names_one (by simpa using name_ne n),trim_name]

theorem names_list (v : Str) : names .list v = LineText.lines trimChar ',' v := rfl

theorem names_list_trim (v : Str) : names .list (trim v) = names .list v :=
  LineText.lines_strip trimChar ',' (fun _ => Or.inl) v

theorem names_list_single {v : Str} (h : ',' ∉ trim v) : names .list v = names .one v := by
  rw [← names_list_trim,names_list,LineText.lines_single trimChar ',' h]
  change (if trim (trim v) = [] then _ else [trim (trim v)]) = _
  rw [trim_trim]
  rfl

theorem names_list_name (n : Name) : names .list n.1 = [n.1] := by
  rw [names_list_single (by rw [trim_name]; exact comma_name n),names_one_name]

theorem column_name (k : Kind) (t : Table) : column k t .name = none := by
  cases k <;> cases t <;> first | rfl | (rename_i d; cases d <;> rfl)

theorem mem_defs (d : Def) : d ∈ d.kind.defs := by cases d <;> decide

section

variable (db : Db) (o : Obj)

def Db.Means (x : Str) : Prop := db.resolve o.of.kind x = some o

instance (x : Str) : Decidable (db.Means o x) := inferInstanceAs (Decidable (_ = _))

variable {db o}

theorem Db.find_spec {x : Str} {d : Def} (h : db.find x d = some o) : o.of = d ∧ db.Has o x := by
  obtain ⟨r,hr,ho⟩ := Option.map_eq_some_iff.mp h
  have hmem := List.mem_of_find?_eq_some hr
  have hname := List.find?_some hr
  obtain rfl := ho.symm
  exact ⟨rfl,r,hmem,rfl,by simpa using hname⟩

theorem Db.Means.has {x : Str} (h : db.Means o x) : db.Has o x := by
  unfold Db.Means Db.resolve at h
  split at h
  · cases h
  · obtain ⟨d,-,hd⟩ := List.exists_of_findSome?_eq_some h
    exact (Db.find_spec hd).2

theorem Db.Has.unique {x y : Str} (hx : db.Has o x) (hy : db.Has o y) : x = y := by
  obtain ⟨r,hr,hrid,rfl⟩ := hx
  obtain ⟨q,hq,hqid,rfl⟩ := hy
  exact congrArg (fun r => r.cell .name) (List.inj_on_of_nodup_map (db.ids _) hr hq (hrid.trans hqid.symm))

end

-- Two networks, a group of both, a group of one, and a rule for each of the groups.
def cells (cs : List (Column × Str)) (c : Column) : Str := ((cs.find? fun p => p.1 = c).map Prod.snd).getD []

def officeRows : Table → List Row
  | .defs .networks => [⟨1,cells [(.name,"Web")]⟩,⟨2,cells [(.name,"Mail")]⟩]
  | .defs .networksGrp =>
    [⟨1,cells [(.name,"Servers"),(.members,"Web,Mail")]⟩,⟨2,cells [(.name,"Outside"),(.members,"Mail")]⟩]
  | .pfInbound => [⟨1,cells [(.src,"Web"),(.dst,"Servers")]⟩]
  | .pfOutbound => [⟨1,cells [(.src,"Outside"),(.dst,"Web")]⟩]
  | _ => []

def office : Db where
  rows := officeRows
  var _ := []
  devices := ["LAN"]
  ids t := by cases t <;> first | decide | (rename_i d; cases d <;> decide)
  named d := by cases d <;> decide

def web : Obj := ⟨.networks,1⟩

def mail : Obj := ⟨.networks,2⟩

def webName : Name := ⟨"Web",by decide⟩

def wwwName : Name := ⟨"Www",by decide⟩

def mailName : Name := ⟨"Mail",by decide⟩

theorem web_has : office.Has web webName.1 := ⟨_,List.mem_cons_self,rfl,rfl⟩

theorem mail_has : office.Has mail mailName.1 := ⟨_,List.mem_cons_of_mem _ List.mem_cons_self,rfl,rfl⟩

theorem www_unused : office.Unused .network wwwName.1 := ⟨by decide,by decide⟩

end DefinitionRefs
end Mybox
