import Mybox.NetCalc
import Mybox.Stdio
import Mybox.Uplink

/-! Version 3.0: the uplink set. `network_start` gathers the interfaces it brings up under their priorities, and
`do_uplink` writes from them the file the uplink daemon reads and the two scripts it runs. -/
namespace Mybox
namespace UplinkSet
open Php Ipcalc NetCalc Stdio

/-- Without blanks and bars, and shorter than the buffer of the daemon. -/
def Plain (n : ℕ) (w : Str) : Prop := Solid w ∧ '|' ∉ w ∧ w.length < n

instance (n : ℕ) (w : Str) : Decidable (Plain n w) := inferInstanceAs (Decidable (_ ∧ _))

abbrev Cell (n : ℕ) := {w : Str // Plain n w}

/-- A row of `ipaddr`; the priority of a fresh row is null. -/
structure IpAddr where
  dev : Cell 25
  ip : Cell 50
  pref : Cell 50
  isdefault : Bool
  uplink : Bool
  upprio : Option ℤ
  gateway : Option (Cell 50)
  onboot : Bool
  deriving DecidableEq

/-- The rows of `misc`. -/
structure Misc where
  stat : Str
  mode : Str
  lst : Str
  int : Str
  deriving DecidableEq

def IpAddr.network (r : IpAddr) : Option Str := (ipcalc r.ip.1 r.pref.1).map Calc.network

def IpAddr.up (r : IpAddr) : Bool := r.onboot && r.network.isSome

def bit (b : Bool) : Str := if b then "1" else "0"

def IpAddr.gatewayText (r : IpAddr) : Str := (r.gateway.map Subtype.val).getD []

/-- What a line of `$_NET_UPLINK` holds. -/
structure Fields where
  ipdev : Str
  ip : Str
  pref : Str
  ipNetwork : Str
  isdefault : Str
  gateway : Str
  uplink : Str
  deriving DecidableEq

def IpAddr.line (r : IpAddr) : Str :=
  List.intercalate ['|'] [r.dev.1,r.ip.1,r.pref.1,r.network.getD [],bit r.isdefault,r.gatewayText,bit r.uplink]

def fields (ln : Str) : Fields :=
  let ws := split '|' ln
  ⟨ws.getD 0 [],ws.getD 1 [],ws.getD 2 [],ws.getD 3 [],ws.getD 4 [],ws.getD 5 [],ws.getD 6 []⟩

/-- `$_NET_UPLINK`: one line for a priority, whether the interface is an uplink or not. -/
def netUplink (rows : List IpAddr) : OrdMap (Option ℤ) Str :=
  rows.foldl (fun m r => if r.up then m.set r.upprio r.line else m) ∅

/-- The routes of a table. -/
inductive Entry
  | via (gateway dev src : Str)
  | prohibit
  | nexthops (hs : List (Str × Str))
  deriving DecidableEq

/-- The commands of the scripts, in the order of the texts:
`ip route del default`, also `table main`;
`ip rule del prio PRIO from SRC table T`, also without `from`;
`ip route flush table T`; `ip route del table T`;
`ip rule add prio PRIO from SRC table T`, also without `from`;
`ip route add default … table T`; `ip route append prohibit default table T metric 1 proto static`;
`ip route add default via GATEWAY dev DEV metric 0`; `ip route flush cache`; `echo N > …/gc_interval`. -/
inductive Command
  | routeDelDefault
  | ruleDel (prio : ℕ) (src : Option (Str × Str)) (table : ℕ)
  | routeFlush (table : ℕ)
  | routeDel (table : ℕ)
  | ruleAdd (prio : ℕ) (src : Option (Str × Str)) (table : ℕ)
  | routeAdd (table : ℕ) (e : Entry)
  | routeAppend (table : ℕ) (e : Entry)
  | routeDefault (gateway dev : Str)
  | flushCache
  | gcInterval (n : ℕ)
  deriving DecidableEq

def mainTable : ℕ := 254

def multipathTable : ℕ := 222

structure Files where
  list : List Str
  config : Str
  chk : Str
  start : List Command
  stop : List Command

def Fields.skipped (f : Fields) : Bool := looseZero f.uplink || f.gateway = []

/-- A loop over `$c_array` that counts the uplinks. -/
def eachUplink {β : Type} (f : ℕ → Option ℤ → Fields → List β) : ℕ → List (Option ℤ × Str) → List β
  | _, [] => []
  | tcnt, (prio,ln)::c =>
    if (fields ln).skipped then eachUplink f tcnt c
    else f tcnt prio (fields ln) ++ eachUplink f (tcnt + 1) c

def prioText : Option ℤ → Str
  | none => []
  | some p => intText p

def prioNum (p : Option ℤ) : ℤ := p.getD 0

/-- The order of `ksort`. -/
def prioLe (a b : Option ℤ) : Bool := prioNum a ≤ prioNum b

def chkLine (prio : Option ℤ) (f : Fields) : Str :=
  prioText prio ++ ' '::(f.ipdev ++ ' '::(f.ip ++ ' '::(f.gateway ++ ['\n'])))

def tableIp (c : List (Option ℤ × Str)) : Str := eachUplink (fun _ prio f => chkLine prio f) 201 c

def tableDefault (c : List (Option ℤ × Str)) : List Command :=
  (eachUplink (fun _ _ f => if looseEq f.isdefault "1" then [Command.routeDefault f.gateway f.ipdev] else [])
    201 c).getLast?.toList

def tableDel (c : List (Option ℤ × Str)) : List Command :=
  [Command.routeDelDefault,Command.ruleDel 50 none mainTable] ++
  eachUplink (fun t _ f => [Command.ruleDel t (some (f.ipNetwork,f.pref)) t]) 201 c ++
  [Command.ruleDel 222 none multipathTable] ++
  eachUplink (fun t _ _ => [Command.routeFlush t]) 201 c ++
  [Command.routeFlush multipathTable] ++
  eachUplink (fun t _ _ => [Command.routeDel t]) 201 c ++
  [Command.routeDel multipathTable,Command.routeDelDefault]

def tableAdd (c : List (Option ℤ × Str)) : List Command :=
  [Command.ruleAdd 50 none mainTable] ++
  eachUplink (fun t _ f => [Command.ruleAdd t (some (f.ipNetwork,f.pref)) t,
    Command.routeAdd t (.via f.gateway f.ipdev f.ip),Command.routeAppend t .prohibit]) 201 c ++
  [Command.ruleAdd 222 none multipathTable,
    Command.routeAdd multipathTable (.nexthops (eachUplink (fun _ _ f => [(f.gateway,f.ipdev)]) 201 c))]

def tableLast : List Command := [.flushCache]

def doUplink (cArray : OrdMap (Option ℤ) Str) (m : Misc) : Option Files :=
  if cArray.entries.length = 0 ∨ cArray.entries.length = 1 then none
  else if looseZero m.stat ∨ m.lst = [] then none
  else
    let c := (cArray.sortKeys prioLe).entries
    some {
      list := (m.lst.splitOnP regexSpace).filter (· ≠ [])
      config := m.mode ++ '|'::m.int
      chk := tableIp c
      start := tableDel c ++ tableAdd c ++ tableLast ++ [.gcInterval 15]
      stop := tableDel c ++ tableDefault c ++ tableLast ++ [.gcInterval 60] }

/-- `sscanf(buff,"%d %s %s %s",…)` into a counter that is zero. -/
def readLine (buff : Str) : Uplink.Gateway :=
  match scanInt buff with
  | none => ⟨0,[],[],[]⟩
  | some (prio,r) => ⟨prio,(words 3 r).getD 0 [],(words 3 r).getD 1 [],(words 3 r).getD 2 []⟩

/-- The counters `read_config` makes of `uplink_chk`. -/
def readConfig (chk : Str) : List Uplink.Gateway :=
  ((pieces 149 149 [] chk).map strip).filterMap fun buff => if buff = [] then none else some (readLine buff)

structure RuleEntry where
  prio : ℕ
  src : Option (Str × Str)
  table : ℕ
  deriving DecidableEq

/-- The routing rules, the routes of the tables other than `main`, and the default routes of that one. -/
structure Routing where
  rules : List RuleEntry
  tables : ℕ → List Entry
  main : List Uplink.Route
  gc : ℕ

/-- What a rule has to be for `ip rule del`. -/
def RuleEntry.fits (prio : ℕ) (src : Option (Str × Str)) (table : ℕ) (r : RuleEntry) : Bool :=
  r.prio = prio && r.table = table && (src = none || r.src = src)

def Command.onRules (rs : List RuleEntry) : Command → List RuleEntry
  | ruleDel prio src table => rs.eraseP (RuleEntry.fits prio src table)
  | ruleAdd prio src table => rs ++ [⟨prio,src,table⟩]
  | _ => rs

/-- A default route is not added beside another one of the same metric. -/
def Command.onTables (ts : ℕ → List Entry) : Command → ℕ → List Entry
  | routeFlush t => Function.update ts t []
  | routeDel t => Function.update ts t (ts t).tail
  | routeAdd t e =>
    if e = .nexthops [] ∨ (ts t).any (· ≠ .prohibit) then ts else Function.update ts t (ts t ++ [e])
  | routeAppend t e => Function.update ts t (ts t ++ [e])
  | _ => ts

def Command.onMain (rs : List Uplink.Route) : Command → List Uplink.Route
  | routeDelDefault => rs.tail
  | routeDefault gateway dev => if rs = [] then [⟨gateway,dev⟩] else rs
  | _ => rs

def Command.onGc (n : ℕ) : Command → ℕ
  | gcInterval k => k
  | _ => n

def run (cs : List Command) (k : Routing) : Routing :=
  cs.foldl (fun k c => ⟨c.onRules k.rules,c.onTables k.tables,c.onMain k.main,c.onGc k.gc⟩) k

def IpAddr.isUplink (r : IpAddr) : Bool := r.uplink && r.gateway.isSome

def upRows (rows : List IpAddr) : List IpAddr := rows.filter IpAddr.up

def uplinks (rows : List IpAddr) : List IpAddr := (upRows rows).filter IpAddr.isUplink

def IpAddr.toGateway (r : IpAddr) : Option Uplink.Gateway := r.upprio.map fun p => ⟨p,r.dev.1,r.ip.1,r.gatewayText⟩

def IpAddr.route (r : IpAddr) : Uplink.Route := ⟨r.gatewayText,r.dev.1⟩

/-- The default route `network_start` sets when all devices come up: that of the last device that has one. -/
def defaultGateway (rows : List IpAddr) : Option Uplink.Route :=
  ((OrdMap.collect (fun r => r.dev.1) (upRows rows)).entries.filterMap fun e =>
    if e.2.isdefault && e.2.gateway.isSome then some e.2.route else none).getLast?

/-- Before the start script: no rules and routes under its numbers, and the default route of the table. -/
structure Settled (rows : List IpAddr) (ts : List ℕ) (k : Routing) : Prop where
  rules : ∀ r ∈ k.rules, r.prio ∉ 50::multipathTable::ts
  tables : ∀ t ∈ multipathTable::ts, k.tables t = []
  main : k.main = (defaultGateway rows).toList
  gc : k.gc = 60

def startOf (f : Option Files) : List Command := (f.map Files.start).getD []

def stopOf (f : Option Files) : List Command := (f.map Files.stop).getD []

def chkOf (f : Option Files) : Str := (f.map Files.chk).getD []

def rulesOf (cs : List Command) : List RuleEntry := cs.filterMap fun
  | .ruleAdd prio (some src) table => some ⟨prio,some src,table⟩
  | _ => none

def routesOf (cs : List Command) : List (ℕ × Entry) := cs.filterMap fun
  | .routeAdd t (.via gateway dev src) => some (t,.via gateway dev src)
  | _ => none

def nexthopsOf (cs : List Command) : List (Str × Str) := cs.flatMap fun
  | .routeAdd _ (.nexthops hs) => hs
  | _ => []

def IpAddr.rule (t : ℕ) (r : IpAddr) : RuleEntry := ⟨t,some (r.network.getD [],r.pref.1),t⟩

def IpAddr.entry (r : IpAddr) : Entry := .via r.gatewayText r.dev.1 r.ip.1

/-- What the files hold when the uplinks come in an order and with the numbers of their tables. -/
structure Arranged (rows : List IpAddr) (f : Option Files) (us : List IpAddr) (ts : List ℕ) : Prop where
  perm : us.Perm (uplinks rows)
  sorted : us.Pairwise fun a b => prioNum a.upprio ≤ prioNum b.upprio
  read : (readConfig (chkOf f)).map some = us.map IpAddr.toGateway
  distinct : ts.Nodup
  reserved : multipathTable ∉ ts
  rules : rulesOf (startOf f) = List.zipWith IpAddr.rule ts us
  routes : routesOf (startOf f) = ts.zip (us.map IpAddr.entry)
  numbers : ts.length = us.length
  nexthops : nexthopsOf (startOf f) = us.map fun r => (r.gatewayText,r.dev.1)
  undone : ∀ k, Settled rows ts k → run (stopOf f) (run (startOf f) k) = k

/-- Every uplink is in the files once, in the order of the priorities. -/
def Complete (rows : List IpAddr) (f : Option Files) : Prop := ∃ us ts, Arranged rows f us ts

def Written (rows : List IpAddr) (m : Misc) : Prop :=
  (∃ a ∈ upRows rows, ∃ b ∈ upRows rows, a.upprio ≠ b.upprio) ∧ looseZero m.stat = false ∧ m.lst ≠ []

instance (rows : List IpAddr) (m : Misc) : Decidable (Written rows m) := inferInstanceAs (Decidable (_ ∧ _))

/-- The default route of the last uplink that has the mark. -/
def defaultUplink (rows : List IpAddr) : Option Uplink.Route :=
  ((((uplinks rows).insertionSort fun a b => prioNum a.upprio ≤ prioNum b.upprio).filter
    IpAddr.isdefault).map IpAddr.route).getLast?

/-- No later interface has the priority of an uplink, the numbers of the tables do not reach that of the multipath
one, the priorities are numbers the daemon reads, and the default route is that of an uplink. -/
structure Separate (rows : List IpAddr) : Prop where
  prios : (upRows rows).Pairwise fun a b => a.isUplink = true → b.upprio ≠ a.upprio
  count : (uplinks rows).length ≤ 21
  ints : ∀ u ∈ uplinks rows, ∃ p ∈ u.upprio, IsInt p
  default : defaultUplink rows = defaultGateway rows

def IpAddr.fields (r : IpAddr) : Fields :=
  ⟨r.dev.1,r.ip.1,r.pref.1,r.network.getD [],bit r.isdefault,r.gatewayText,bit r.uplink⟩

theorem bar_network (r : IpAddr) : '|' ∉ r.network.getD [] := by
  unfold IpAddr.network
  cases h : ipcalc r.ip.1 r.pref.1 with
  | none => simp
  | some c => exact fun hm => absurd (plain_network h _ hm) (by decide)

theorem bar_gateway (r : IpAddr) : '|' ∉ r.gatewayText := by
  unfold IpAddr.gatewayText
  cases r.gateway with
  | none => simp
  | some g => exact g.2.2.1

theorem fields_line (r : IpAddr) : UplinkSet.fields r.line = r.fields := by
  have hb : ∀ b, '|' ∉ bit b := by
    intro b
    cases b <;> decide
  have hs : split '|' r.line =
      [r.dev.1,r.ip.1,r.pref.1,r.network.getD [],bit r.isdefault,r.gatewayText,bit r.uplink] := by
    refine List.splitOn_intercalate '|' (fun w hw => ?_) (by simp)
    simp only [List.mem_cons,List.not_mem_nil,or_false] at hw
    rcases hw with rfl | rfl | rfl | rfl | rfl | rfl | rfl
    · exact r.dev.2.2.1
    · exact r.ip.2.2.1
    · exact r.pref.2.2.1
    · exact bar_network r
    · exact hb _
    · exact bar_gateway r
    · exact hb _
  simp only [UplinkSet.fields,hs]
  rfl

theorem skipped_fields (r : IpAddr) : r.fields.skipped = !r.isUplink := by
  have h₀ : looseZero (bit false) = true := by decide
  have h₁ : looseZero (bit true) = false := by decide
  have hg : (r.gatewayText = []) ↔ r.gateway.isSome = false := by
    unfold IpAddr.gatewayText
    cases r.gateway with
    | none => simp
    | some g => simpa using g.2.1.1
  simp only [Fields.skipped,IpAddr.fields,IpAddr.isUplink,hg]
  cases r.uplink
  · rw [h₀]; rfl
  · rw [h₁]; cases r.gateway.isSome <;> rfl

theorem netUplink_eq (rows : List IpAddr) :
    netUplink rows = (OrdMap.collect IpAddr.upprio (upRows rows)).mapEntries fun _ r => r.line := by
  induction rows using List.reverseRecOn with
  | nil => rfl
  | append_singleton rows r ih =>
    rw [netUplink,List.foldl_append,List.foldl_cons,List.foldl_nil,← netUplink,ih]
    unfold upRows
    rw [List.filter_append]
    by_cases hr : r.up
    · rw [if_pos hr,List.filter_cons_of_pos hr,List.filter_nil,OrdMap.collect_concat,OrdMap.mapEntries_set]
    · rw [if_neg hr,List.filter_cons_of_neg hr,List.filter_nil,List.append_nil]

def gathered (rows : List IpAddr) : OrdMap (Option ℤ) IpAddr :=
  (OrdMap.collect IpAddr.upprio (upRows rows)).sortKeys prioLe

def ordered (rows : List IpAddr) : List IpAddr := ((gathered rows).entries.map Prod.snd).filter IpAddr.isUplink

theorem gathered_perm (rows : List IpAddr) : (gathered rows).entries.Perm
    ((OrdMap.lastOf IpAddr.upprio (upRows rows)).map fun r => (r.upprio,r)) :=
  (List.perm_insertionSort _ _).trans (OrdMap.collect_perm _ _)

theorem gathered_key {rows : List IpAddr} {e : Option ℤ × IpAddr} (h : e ∈ (gathered rows).entries) :
    e.1 = e.2.upprio := by
  obtain ⟨r,-,rfl⟩ := List.mem_map.mp ((gathered_perm rows).mem_iff.mp h)
  rfl

theorem eachUplink_rows {β : Type} (f : ℕ → Option ℤ → Fields → List β) (n : ℕ) {es : List (Option ℤ × IpAddr)}
    (h : ∀ e ∈ es, e.1 = e.2.upprio) : eachUplink f n (es.map fun e => (e.1,e.2.line)) =
      (((es.map Prod.snd).filter IpAddr.isUplink).zipIdx n).flatMap fun x => f x.2 x.1.upprio x.1.fields := by
  induction es generalizing n with
  | nil => rfl
  | cons e es ih =>
    have ihe := fun n => ih n fun e he => h e (List.mem_cons_of_mem _ he)
    rw [List.map_cons,List.map_cons,eachUplink,fields_line,skipped_fields,h e (by simp)]
    by_cases hu : e.2.isUplink = true
    · rw [if_neg (by simp [hu]),List.filter_cons_of_pos hu,List.zipIdx_cons,List.flatMap_cons,ihe]
    · rw [if_pos (by simp [hu]),List.filter_cons_of_neg hu,ihe]

theorem eachUplink_ordered {β : Type} (f : ℕ → Option ℤ → Fields → List β) (rows : List IpAddr) :
    eachUplink f 201 ((netUplink rows).sortKeys prioLe).entries =
      ((ordered rows).zipIdx 201).flatMap fun x => f x.2 x.1.upprio x.1.fields := by
  rw [netUplink_eq,OrdMap.sortKeys_mapEntries]
  exact eachUplink_rows f 201 fun e => gathered_key

theorem ordered_perm (rows : List IpAddr) :
    (ordered rows).Perm ((OrdMap.lastOf IpAddr.upprio (upRows rows)).filter IpAddr.isUplink) := by
  have h := (gathered_perm rows).map Prod.snd
  rw [List.map_map] at h
  refine List.Perm.filter _ (h.trans (List.Perm.of_eq ?_))
  exact List.map_id'' (fun _ => rfl) _

theorem ordered_sorted (rows : List IpAddr) :
    (ordered rows).Pairwise fun a b => prioNum a.upprio ≤ prioNum b.upprio := by
  refine List.Pairwise.filter _ (List.pairwise_map.mpr ?_)
  have htotal : ∀ a b, prioLe a b = true ∨ prioLe b a = true := fun a b => by
    simpa [prioLe] using le_total (prioNum a) (prioNum b)
  have htrans : ∀ {a b c}, prioLe a b = true → prioLe b c = true → prioLe a c = true :=
    fun hab hbc => decide_eq_true (le_trans (of_decide_eq_true hab) (of_decide_eq_true hbc))
  have h := OrdMap.sortKeys_pairwise htotal htrans (OrdMap.collect IpAddr.upprio (upRows rows))
  refine h.imp_of_mem fun {a b} ha hb hab => ?_
  rw [← gathered_key ha,← gathered_key hb]
  exact of_decide_eq_true hab.1

theorem length_ordered_iff (rows : List IpAddr) : (ordered rows).length = (uplinks rows).length ↔
    (upRows rows).Pairwise fun a b => a.isUplink = true → b.upprio ≠ a.upprio := by
  rw [(ordered_perm rows).length_eq,uplinks]
  exact OrdMap.lastOf_filter_iff IpAddr.upprio IpAddr.isUplink (upRows rows)

theorem ordered_perm_uplinks {rows : List IpAddr} (h : (ordered rows).length = (uplinks rows).length) :
    (ordered rows).Perm (uplinks rows) := by
  have hs := (OrdMap.lastOf_sublist IpAddr.upprio (upRows rows)).filter IpAddr.isUplink
  rw [(ordered_perm rows).length_eq] at h
  exact (ordered_perm rows).trans (List.Perm.of_eq (hs.eq_of_length h))

def IpAddr.chkLine (r : IpAddr) : Str :=
  prioText r.upprio ++ ' '::(r.dev.1 ++ ' '::(r.ip.1 ++ ' '::r.gatewayText))

theorem tableIp_ordered (rows : List IpAddr) : tableIp ((netUplink rows).sortKeys prioLe).entries =
    ((ordered rows).map IpAddr.chkLine).flatMap (· ++ ['\n']) := by
  have h : ∀ (us : List IpAddr) n, ((us.zipIdx n).flatMap fun x => UplinkSet.chkLine x.1.upprio x.1.fields) =
      (us.map IpAddr.chkLine).flatMap (· ++ ['\n']) := by
    intro us
    induction us with
    | nil => exact fun _ => rfl
    | cons u us ih =>
      intro n
      rw [List.zipIdx_cons,List.flatMap_cons,List.map_cons,List.flatMap_cons,ih]
      simp [UplinkSet.chkLine,IpAddr.chkLine,IpAddr.fields]
  rw [tableIp,eachUplink_ordered]
  exact h _ _

theorem isUplink_ordered {rows : List IpAddr} {u : IpAddr} (h : u ∈ ordered rows) : u.isUplink = true :=
  (List.mem_filter.mp h).2

theorem isUplink_uplinks {rows : List IpAddr} {u : IpAddr} (h : u ∈ uplinks rows) : u.isUplink = true :=
  (List.mem_filter.mp h).2

theorem plain_gateway {u : IpAddr} (h : u.isUplink = true) : Plain 50 u.gatewayText := by
  unfold IpAddr.isUplink at h
  unfold IpAddr.gatewayText
  cases hg : u.gateway with
  | none => simp [hg] at h
  | some g => exact g.2

theorem solid_newline {w : Str} (h : Solid w) : '\n' ∉ w := fun hm => absurd (h.2 _ hm) (by decide)

/-- A line with a number is read as it is meant. -/
theorem readLine_chkLine {u : IpAddr} {p : ℤ} (hu : u.isUplink = true) (hp : u.upprio = some p) (hi : IsInt p) :
    '\n' ∉ u.chkLine ∧ u.chkLine.length < 149 ∧ strip (u.chkLine ++ ['\n']) = u.chkLine ∧ u.chkLine ≠ [] ∧
      readLine u.chkLine = ⟨p,u.dev.1,u.ip.1,u.gatewayText⟩ := by
  have hg := plain_gateway hu
  have hd := u.dev.2
  have hip := u.ip.2
  have ht := intText_black p
  have hl := length_intText hi
  have he : u.chkLine = intText p ++ ' '::(u.dev.1 ++ ' '::(u.ip.1 ++ ' '::u.gatewayText)) := by
    rw [IpAddr.chkLine,hp]
    rfl
  rw [he]
  refine ⟨?_,?_,?_,?_,?_⟩
  · simp [solid_newline ht,solid_newline hd.1,solid_newline hip.1,solid_newline hg.1]
  · have h₁ := hd.2.2
    have h₂ := hip.2.2
    have h₃ := hg.2.2
    simp only [List.length_append,List.length_cons]
    omega
  · refine strip_line (fun c hc => ?_) fun c hc => ?_
    · obtain ⟨d,ds,hds⟩ := List.exists_cons_of_ne_nil ht.1
      rw [hds] at hc ht
      obtain rfl : d = c := by simpa using hc
      exact ht.2 d (by simp)
    · have hlast : (intText p ++ ' '::(u.dev.1 ++ ' '::(u.ip.1 ++ ' '::u.gatewayText))).getLast? =
          u.gatewayText.getLast? := by
        have hn := hg.1.1
        simp [List.getLast?_append,List.getLast?_cons,List.getLast?_eq_some_getLast hn]
      rw [hlast] at hc
      exact hg.1.2 c (List.mem_of_getLast? hc)
  · simp
  · have hs := scanInt_intText hi (r:= ' '::(u.dev.1 ++ ' '::(u.ip.1 ++ ' '::u.gatewayText))) fun c hc => by
      obtain rfl : ' ' = c := by simpa using hc
      decide
    have hspace : ∀ s : Str, ∀ c ∈ (' '::s).head?, isspace c = true := fun s c hc => by
      obtain rfl : ' ' = c := by simpa using hc
      decide
    have hw : words 3 (' '::(u.dev.1 ++ ' '::(u.ip.1 ++ ' '::u.gatewayText))) = [u.dev.1,u.ip.1,u.gatewayText] := by
      have hlast := words_solid hg.1 0 [] (by simp)
      rw [List.append_nil] at hlast
      rw [words_solid hd.1 2 _ (hspace _),words_solid hip.1 1 _ (hspace _),hlast]
      rfl
    simp only [readLine,hs,hw]
    rfl

theorem readConfig_ordered {rows : List IpAddr} (h : ∀ u ∈ ordered rows, ∃ p ∈ u.upprio, IsInt p) :
    (readConfig (tableIp ((netUplink rows).sortKeys prioLe).entries)).map some =
      (ordered rows).map IpAddr.toGateway := by
  have hline : ∀ u ∈ ordered rows, '\n' ∉ u.chkLine ∧ u.chkLine.length < 149 ∧
      strip (u.chkLine ++ ['\n']) = u.chkLine ∧ u.chkLine ≠ [] ∧ some (readLine u.chkLine) = u.toGateway := by
    intro u hu
    obtain ⟨p,hp,hi⟩ := h u hu
    obtain ⟨h₁,h₂,h₃,h₄,h₅⟩ := readLine_chkLine (isUplink_ordered hu) hp hi
    refine ⟨h₁,h₂,h₃,h₄,?_⟩
    rw [h₅,IpAddr.toGateway,hp]
    rfl
  have hp : pieces 149 149 [] (((ordered rows).map IpAddr.chkLine).flatMap (· ++ ['\n'])) =
      ((ordered rows).map IpAddr.chkLine).map (· ++ ['\n']) := by
    refine pieces_lines 149 fun t ht => ?_
    obtain ⟨u,hu,rfl⟩ := List.mem_map.mp ht
    exact ⟨(hline u hu).1,(hline u hu).2.1⟩
  rw [readConfig,tableIp_ordered,hp,List.map_map,List.map_map]
  generalize ordered rows = us at hline ⊢
  clear hp h
  induction us with
  | nil => rfl
  | cons u us ih =>
    obtain ⟨-,-,h₃,h₄,h₅⟩ := hline u (by simp)
    have hc : ((strip ∘ fun x => x ++ ['\n']) ∘ IpAddr.chkLine) u = u.chkLine := h₃
    rw [List.map_cons,hc,List.filterMap_cons,if_neg h₄]
    simp only [List.map_cons,h₅]
    rw [ih fun v hv => hline v (List.mem_cons_of_mem u hv)]

theorem isInt_readConfig {chk : Str} {g : Uplink.Gateway} (h : g ∈ readConfig chk) : IsInt g.prio := by
  obtain ⟨b,-,hb⟩ := List.mem_filterMap.mp h
  split at hb
  · cases hb
  · obtain rfl := Option.some.inj hb
    unfold readLine
    split
    · exact ⟨by decide,by decide⟩
    · rename_i hs
      exact isInt_scanInt hs

def numbers (us : List IpAddr) : List ℕ := List.range' 201 us.length

def delOf (us : List IpAddr) : List Command :=
  [Command.routeDelDefault,Command.ruleDel 50 none mainTable] ++
  ((us.zipIdx 201).map fun x => Command.ruleDel x.2 (some (x.1.network.getD [],x.1.pref.1)) x.2) ++
  [Command.ruleDel 222 none multipathTable] ++ ((us.zipIdx 201).map fun x => Command.routeFlush x.2) ++
  [Command.routeFlush multipathTable] ++ ((us.zipIdx 201).map fun x => Command.routeDel x.2) ++
  [Command.routeDel multipathTable,Command.routeDelDefault]

def addOf (us : List IpAddr) : List Command :=
  [Command.ruleAdd 50 none mainTable] ++
  ((us.zipIdx 201).flatMap fun x => [Command.ruleAdd x.2 (some (x.1.network.getD [],x.1.pref.1)) x.2,
    Command.routeAdd x.2 x.1.entry,Command.routeAppend x.2 .prohibit]) ++
  [Command.ruleAdd 222 none multipathTable,Command.routeAdd multipathTable (.nexthops (us.map fun u => (u.gatewayText,u.dev.1)))]

def lastDefault (us : List IpAddr) : Option Uplink.Route := ((us.filter IpAddr.isdefault).map IpAddr.route).getLast?

theorem flatMap_zipIdx {α β : Type} (f : α → List β) (l : List α) (n : ℕ) :
    ((l.zipIdx n).flatMap fun x => f x.1) = l.flatMap f := by
  induction l generalizing n with
  | nil => rfl
  | cons a l ih => rw [List.zipIdx_cons,List.flatMap_cons,List.flatMap_cons,ih]

theorem tableDel_ordered (rows : List IpAddr) :
    tableDel ((netUplink rows).sortKeys prioLe).entries = delOf (ordered rows) := by
  simp only [tableDel,delOf,eachUplink_ordered,List.map_eq_flatMap,IpAddr.fields]

theorem tableAdd_ordered (rows : List IpAddr) :
    tableAdd ((netUplink rows).sortKeys prioLe).entries = addOf (ordered rows) := by
  simp only [tableAdd,addOf,eachUplink_ordered,List.map_eq_flatMap (l:=ordered rows),IpAddr.fields,
    flatMap_zipIdx fun u : IpAddr => [(u.gatewayText,u.dev.1)],IpAddr.entry]

theorem tableDefault_ordered (rows : List IpAddr) : tableDefault ((netUplink rows).sortKeys prioLe).entries =
    ((lastDefault (ordered rows)).map fun r => Command.routeDefault r.via r.dev).toList := by
  have h₀ : looseEq (bit false) "1" = false := by decide
  have h₁ : looseEq (bit true) "1" = true := by decide
  have h : ((ordered rows).flatMap fun u => if looseEq u.fields.isdefault "1" then
      [Command.routeDefault u.fields.gateway u.fields.ipdev] else []) =
      (((ordered rows).filter IpAddr.isdefault).map IpAddr.route).map fun r => Command.routeDefault r.via r.dev := by
    induction ordered rows with
    | nil => rfl
    | cons u us ih =>
      rw [List.flatMap_cons,ih]
      cases hd : u.isdefault
      · rw [List.filter_cons_of_neg (by simp [hd])]
        simp only [IpAddr.fields,hd,h₀]
        rfl
      · rw [List.filter_cons_of_pos (by simp [hd])]
        simp only [IpAddr.fields,hd,h₁]
        rfl
  rw [tableDefault,eachUplink_ordered,flatMap_zipIdx (fun u : IpAddr => if looseEq u.fields.isdefault "1" then
      [Command.routeDefault u.fields.gateway u.fields.ipdev] else []),h,List.getLast?_map]
  rfl

/-- What `do_uplink` writes. -/
def filesOf (us : List IpAddr) (m : Misc) : Files where
  list := (m.lst.splitOnP regexSpace).filter (· ≠ [])
  config := m.mode ++ '|'::m.int
  chk := (us.map IpAddr.chkLine).flatMap (· ++ ['\n'])
  start := delOf us ++ addOf us ++ tableLast ++ [.gcInterval 15]
  stop := delOf us ++ ((lastDefault us).map fun r => Command.routeDefault r.via r.dev).toList ++ tableLast ++
    [.gcInterval 60]

theorem written_iff (rows : List IpAddr) (m : Misc) : Written rows m ↔
    ¬((netUplink rows).entries.length = 0 ∨ (netUplink rows).entries.length = 1) ∧
      ¬(looseZero m.stat = true ∨ m.lst = []) := by
  have hk : ∀ k, k ∈ (netUplink rows).keys ↔ ∃ a ∈ upRows rows, a.upprio = k := by
    intro k
    rw [netUplink_eq,OrdMap.mapEntries_keys,OrdMap.mem_keys_collect]
  have hl : (netUplink rows).keys.length = (netUplink rows).entries.length := by simp [OrdMap.keys]
  have hn : (netUplink rows).keys.Nodup := (netUplink rows).nodup
  have h₂ : (∃ a ∈ upRows rows, ∃ b ∈ upRows rows, a.upprio ≠ b.upprio) ↔
      ¬((netUplink rows).entries.length = 0 ∨ (netUplink rows).entries.length = 1) := by
    rw [← hl]
    constructor
    · rintro ⟨a,ha,b,hb,hab⟩ h
      have hma := (hk _).mpr ⟨a,ha,rfl⟩
      have hmb := (hk _).mpr ⟨b,hb,rfl⟩
      rcases h with h | h
      · rw [List.length_eq_zero_iff.mp h] at hma
        exact List.not_mem_nil hma
      · obtain ⟨k,hkk⟩ := List.length_eq_one_iff.mp h
        rw [hkk,List.mem_singleton] at hma hmb
        exact hab (hma.trans hmb.symm)
    · intro h
      rcases hks : (netUplink rows).keys with _ | ⟨j,_ | ⟨k,ks⟩⟩
      · exact absurd (Or.inl (by rw [hks]; rfl)) h
      · exact absurd (Or.inr (by rw [hks]; rfl)) h
      · obtain ⟨a,ha,hja⟩ := (hk j).mp (by simp [hks])
        obtain ⟨b,hb,hkb⟩ := (hk k).mp (by simp [hks])
        rw [hks] at hn
        refine ⟨a,ha,b,hb,fun he => ?_⟩
        rw [hja,hkb] at he
        simp [he] at hn
  rw [Written,h₂]
  simp only [not_or,Bool.not_eq_true,ne_eq]

theorem doUplink_eq (rows : List IpAddr) (m : Misc) :
    doUplink (netUplink rows) m = if Written rows m then some (filesOf (ordered rows) m) else none := by
  have h := written_iff rows m
  unfold doUplink
  split
  · rename_i hc
    rw [if_neg fun hw => (h.mp hw).1 hc]
  · split
    · rename_i hc
      rw [if_neg fun hw => (h.mp hw).2 hc]
    · rename_i h₁ h₂
      rw [if_pos (h.mpr ⟨h₁,h₂⟩)]
      simp only [tableIp_ordered,tableDel_ordered,tableAdd_ordered,tableDefault_ordered,filesOf]

theorem zipWith_numbers {β : Type} (f : ℕ → IpAddr → β) (us : List IpAddr) :
    List.zipWith f (numbers us) us = (us.zipIdx 201).map fun x => f x.2 x.1 := by
  have h : ∀ (us : List IpAddr) n, List.zipWith f (List.range' n us.length) us =
      (us.zipIdx n).map fun x => f x.2 x.1 := by
    intro us
    induction us with
    | nil => exact fun _ => rfl
    | cons u us ih =>
      intro n
      rw [List.length_cons,List.range'_succ,List.zipWith_cons_cons,ih,List.zipIdx_cons,List.map_cons]
  exact h us 201

theorem rulesOf_start (us : List IpAddr) (m : Misc) :
    rulesOf (filesOf us m).start = List.zipWith IpAddr.rule (numbers us) us := by
  have hadd : ∀ n, rulesOf ((us.zipIdx n).flatMap fun x => [.ruleAdd x.2 (some (x.1.network.getD [],x.1.pref.1)) x.2,
      .routeAdd x.2 x.1.entry,.routeAppend x.2 .prohibit]) = (us.zipIdx n).map fun x => x.1.rule x.2 := by
    induction us with
    | nil => exact fun _ => rfl
    | cons u us ih =>
      intro n
      rw [List.zipIdx_cons,List.flatMap_cons,rulesOf,List.filterMap_append,← rulesOf,← rulesOf,ih]
      rfl
  have hdel : rulesOf (delOf us) = [] := by
    simp [rulesOf,delOf,List.filterMap_append,List.filterMap_map]
  rw [zipWith_numbers,← hadd]
  simp only [filesOf,addOf,rulesOf,List.filterMap_append] at hdel ⊢
  rw [hdel]
  simp [tableLast]

theorem routesOf_start (us : List IpAddr) (m : Misc) :
    routesOf (filesOf us m).start = (numbers us).zip (us.map IpAddr.entry) := by
  have hadd : ∀ n, routesOf ((us.zipIdx n).flatMap fun x =>
      [.ruleAdd x.2 (some (x.1.network.getD [],x.1.pref.1)) x.2,.routeAdd x.2 x.1.entry,.routeAppend x.2 .prohibit]) =
      (us.zipIdx n).map fun x => (x.2,x.1.entry) := by
    induction us with
    | nil => exact fun _ => rfl
    | cons u us ih =>
      intro n
      rw [List.zipIdx_cons,List.flatMap_cons,routesOf,List.filterMap_append,← routesOf,← routesOf,ih]
      rfl
  have hdel : routesOf (delOf us) = [] := by
    simp [routesOf,delOf,List.filterMap_append,List.filterMap_map]
  rw [List.zip_map_right,List.zip,List.map_zipWith,zipWith_numbers]
  refine Eq.trans ?_ (hadd 201)
  simp only [filesOf,addOf,routesOf,List.filterMap_append] at hdel ⊢
  rw [hdel]
  simp [tableLast]

theorem nexthopsOf_start (us : List IpAddr) (m : Misc) :
    nexthopsOf (filesOf us m).start = us.map fun u => (u.gatewayText,u.dev.1) := by
  have hadd : ∀ n, nexthopsOf ((us.zipIdx n).flatMap fun x =>
      [.ruleAdd x.2 (some (x.1.network.getD [],x.1.pref.1)) x.2,.routeAdd x.2 x.1.entry,.routeAppend x.2 .prohibit]) =
      [] := by
    intro n
    simp [nexthopsOf,List.flatMap_assoc,IpAddr.entry]
  have hdel : nexthopsOf (delOf us) = [] := by
    simp [nexthopsOf,delOf,List.flatMap_append,List.flatMap_map]
  have h := hadd 201
  simp only [filesOf,addOf,nexthopsOf,List.flatMap_append] at hdel h ⊢
  rw [hdel,h]
  simp [tableLast]

theorem run_eq (cs : List Command) (k : Routing) : run cs k =
    ⟨cs.foldl Command.onRules k.rules,cs.foldl Command.onTables k.tables,cs.foldl Command.onMain k.main,
      cs.foldl Command.onGc k.gc⟩ := by
  induction cs generalizing k with
  | nil => rfl
  | cons c cs ih =>
    rw [run,List.foldl_cons,← run,ih]
    rfl

theorem foldl_quiet {α β : Type} (f : α → β → α) (a : α) (cs : List β) (h : ∀ c ∈ cs, ∀ a, f a c = a) :
    cs.foldl f a = a := by
  induction cs generalizing a with
  | nil => rfl
  | cons c cs ih => rw [List.foldl_cons,h c (by simp),ih a fun d hd => h d (List.mem_cons_of_mem c hd)]

def added (us : List IpAddr) : List RuleEntry :=
  ⟨50,none,mainTable⟩::(us.zipIdx 201).map (fun x => x.1.rule x.2) ++ [⟨222,none,multipathTable⟩]

/-- Rules are deleted in the order in which they have been added. -/
theorem delete_added {rs : List RuleEntry} (news : List RuleEntry) (h : ∀ r ∈ rs, ∀ n ∈ news, r.prio ≠ n.prio) :
    (news.map fun n => Command.ruleDel n.prio n.src n.table).foldl Command.onRules (rs ++ news) = rs ∧
      (news.map fun n => Command.ruleDel n.prio n.src n.table).foldl Command.onRules rs = rs := by
  induction news with
  | nil => simp
  | cons n news ih =>
    have hno : ∀ r ∈ rs, ¬n.prio = r.prio := fun r hr => Ne.symm (h r hr n (by simp))
    have hfit : ∀ r ∈ rs, ¬(RuleEntry.fits n.prio n.src n.table r = true) := by
      intro r hr hf
      simp only [RuleEntry.fits,Bool.and_eq_true,decide_eq_true_eq] at hf
      exact hno r hr hf.1.1.symm
    have hself : RuleEntry.fits n.prio n.src n.table n = true := by simp [RuleEntry.fits]
    have ih := ih fun r hr m hm => h r hr m (List.mem_cons_of_mem n hm)
    rw [List.map_cons,List.foldl_cons,List.foldl_cons]
    simp only [Command.onRules]
    rw [List.eraseP_append_right _ fun r hr => by simpa using hfit r hr,List.eraseP_cons_of_pos hself,
      List.eraseP_of_forall_not hfit]
    exact ih

theorem onRules_loop (us : List IpAddr) (n : ℕ) (rs : List RuleEntry) :
    ((us.zipIdx n).flatMap fun x => [Command.ruleAdd x.2 (some (x.1.network.getD [],x.1.pref.1)) x.2,
      .routeAdd x.2 x.1.entry,.routeAppend x.2 .prohibit]).foldl Command.onRules rs =
      rs ++ (us.zipIdx n).map fun x => x.1.rule x.2 := by
  induction us generalizing n rs with
  | nil => simp
  | cons u us ih =>
    rw [List.zipIdx_cons,List.flatMap_cons,List.foldl_append,ih]
    simp [Command.onRules,IpAddr.rule]

theorem onRules_add (us : List IpAddr) (rs : List RuleEntry) :
    (addOf us).foldl Command.onRules rs = rs ++ added us := by
  simp only [addOf,added,List.foldl_append,List.foldl_cons,List.foldl_nil,Command.onRules,onRules_loop]
  simp

theorem onRules_del (us : List IpAddr) (rs : List RuleEntry) : (delOf us).foldl Command.onRules rs =
    ((added us).map fun n => Command.ruleDel n.prio n.src n.table).foldl Command.onRules rs := by
  simp only [delOf,added,List.foldl_append,List.map_append,List.map_cons,List.map_nil,List.map_map,List.foldl_cons,
    List.foldl_nil]
  rw [foldl_quiet Command.onRules _ ((us.zipIdx 201).map fun x => .routeFlush x.2),
    foldl_quiet Command.onRules _ ((us.zipIdx 201).map fun x => .routeDel x.2)]
  · rfl
  · intro c hc
    obtain ⟨x,-,rfl⟩ := List.mem_map.mp hc
    exact fun _ => rfl
  · intro c hc
    obtain ⟨x,-,rfl⟩ := List.mem_map.mp hc
    exact fun _ => rfl

theorem rules_undone (us : List IpAddr) (m : Misc) {rs : List RuleEntry}
    (h : ∀ r ∈ rs, r.prio ∉ 50::multipathTable::numbers us) :
    (filesOf us m).stop.foldl Command.onRules ((filesOf us m).start.foldl Command.onRules rs) = rs := by
  have hne : ∀ r ∈ rs, ∀ n ∈ added us, r.prio ≠ n.prio := by
    intro r hr n hn he
    refine h r hr ?_
    rw [he]
    simp only [added,List.mem_append,List.mem_cons,List.mem_map,List.not_mem_nil,or_false] at hn
    rcases hn with (rfl | ⟨x,hx,rfl⟩) | rfl
    · simp
    · have hm := List.mem_zipIdx hx
      simp only [IpAddr.rule,numbers,List.mem_cons,List.mem_range'_1]
      omega
    · simp [multipathTable]
  obtain ⟨hdel,hnone⟩ := delete_added (added us) hne
  have hdefault : ∀ rs, ((lastDefault us).map fun r => Command.routeDefault r.via r.dev).toList.foldl
      Command.onRules rs = rs := by
    intro rs
    cases lastDefault us <;> rfl
  simp only [filesOf,tableLast,List.foldl_append,List.foldl_cons,List.foldl_nil,onRules_del,onRules_add,hnone]
  simp only [Command.onRules,hdel,hdefault]

def Command.Spares (t : ℕ) : Command → Prop
  | routeFlush u | routeDel u | routeAdd u _ | routeAppend u _ => u ≠ t
  | _ => True

theorem onTables_spared {t : ℕ} {cs : List Command} (h : ∀ c ∈ cs, c.Spares t) (ts : ℕ → List Entry) :
    cs.foldl Command.onTables ts t = ts t := by
  induction cs generalizing ts with
  | nil => rfl
  | cons c cs ih =>
    rw [List.foldl_cons,ih fun d hd => h d (List.mem_cons_of_mem c hd)]
    have hc := h c (by simp)
    cases c with
    | routeFlush u => exact Function.update_of_ne (Ne.symm hc) _ _
    | routeDel u => exact Function.update_of_ne (Ne.symm hc) _ _
    | routeAdd u e =>
      rw [Command.onTables]
      split
      · rfl
      · exact Function.update_of_ne (Ne.symm hc) _ _
    | routeAppend u e => exact Function.update_of_ne (Ne.symm hc) _ _
    | _ => rfl

def Command.Draining : Command → Prop
  | routeAdd _ _ | routeAppend _ _ => False
  | _ => True

theorem onTables_drained {t : ℕ} {cs : List Command} (h : ∀ c ∈ cs, c.Draining) {ts : ℕ → List Entry}
    (ht : ts t = [] ∨ Command.routeFlush t ∈ cs) : cs.foldl Command.onTables ts t = [] := by
  induction cs generalizing ts with
  | nil => exact ht.resolve_right (by simp)
  | cons c cs ih =>
    refine ih (fun d hd => h d (List.mem_cons_of_mem c hd)) ?_
    have hc := h c (by simp)
    have hkeep : ts t = [] → c.onTables ts t = [] := by
      intro he
      cases c with
      | routeFlush u =>
        by_cases hu : t = u
        · rw [Command.onTables,hu,Function.update_self]
        · rw [Command.onTables,Function.update_of_ne hu,he]
      | routeDel u =>
        by_cases hu : t = u
        · rw [Command.onTables,hu,Function.update_self,← hu,he,List.tail_nil]
        · rw [Command.onTables,Function.update_of_ne hu,he]
      | routeAdd u e => exact hc.elim
      | routeAppend u e => exact hc.elim
      | _ => exact he
    rcases ht with ht | ht
    · exact Or.inl (hkeep ht)
    · rcases List.mem_cons.mp ht with rfl | ht
      · exact Or.inl (Function.update_self ..)
      · exact Or.inr ht

theorem zipIdx_number {us : List IpAddr} {x : IpAddr × ℕ} (h : x ∈ us.zipIdx 201) : x.2 ∈ numbers us := by
  have hm := List.mem_zipIdx h
  rw [numbers,List.mem_range'_1]
  exact ⟨hm.1,hm.2.1⟩

theorem del_spares {us : List IpAddr} {t : ℕ} (h : t ∉ multipathTable::numbers us) :
    ∀ c ∈ delOf us, c.Spares t := by
  rw [List.mem_cons,not_or] at h
  have hnum : ∀ x ∈ us.zipIdx 201, x.2 ≠ t := fun x hx he => h.2 (he ▸ zipIdx_number hx)
  intro c hc
  simp only [delOf,List.mem_append,List.mem_cons,List.mem_map,List.not_mem_nil,or_false] at hc
  rcases hc with ((((((rfl | rfl) | ⟨x,hx,rfl⟩) | rfl) | ⟨x,hx,rfl⟩) | rfl) | ⟨x,hx,rfl⟩) | rfl | rfl
  · trivial
  · trivial
  · trivial
  · trivial
  · exact hnum x hx
  · exact Ne.symm h.1
  · exact hnum x hx
  · exact Ne.symm h.1
  · trivial

theorem add_spares {us : List IpAddr} {t : ℕ} (h : t ∉ multipathTable::numbers us) :
    ∀ c ∈ addOf us, c.Spares t := by
  rw [List.mem_cons,not_or] at h
  have hnum : ∀ x ∈ us.zipIdx 201, x.2 ≠ t := fun x hx he => h.2 (he ▸ zipIdx_number hx)
  intro c hc
  simp only [addOf,List.mem_append,List.mem_cons,List.mem_flatMap,List.not_mem_nil,or_false] at hc
  rcases hc with (rfl | ⟨x,hx,rfl | rfl | rfl⟩) | rfl | rfl
  · trivial
  · trivial
  · exact hnum x hx
  · exact hnum x hx
  · trivial
  · exact Ne.symm h.1

theorem mem_default {us : List IpAddr} {c : Command}
    (h : c ∈ ((lastDefault us).map fun r => Command.routeDefault r.via r.dev).toList) :
    ∃ gateway dev, c = .routeDefault gateway dev := by
  rw [Option.mem_toList,Option.map_eq_some_iff] at h
  obtain ⟨r,-,rfl⟩ := h
  exact ⟨_,_,rfl⟩

theorem del_draining (us : List IpAddr) : ∀ c ∈ delOf us, c.Draining := by
  intro c hc
  simp only [delOf,List.mem_append,List.mem_cons,List.mem_map,List.not_mem_nil,or_false] at hc
  rcases hc with ((((((rfl | rfl) | ⟨x,hx,rfl⟩) | rfl) | ⟨x,hx,rfl⟩) | rfl) | ⟨x,hx,rfl⟩) | rfl | rfl <;> trivial

theorem flush_mem {us : List IpAddr} {t : ℕ} (h : t ∈ multipathTable::numbers us) : .routeFlush t ∈ delOf us := by
  rcases List.mem_cons.mp h with rfl | h
  · simp [delOf]
  · rw [numbers,List.mem_range'_1] at h
    have hx : (us.get ⟨t - 201,by omega⟩,t) ∈ us.zipIdx 201 := by
      rw [List.mk_mem_zipIdx_iff_le_and_getElem?_sub]
      exact ⟨h.1,List.getElem?_eq_getElem _⟩
    have hm : Command.routeFlush t ∈ (us.zipIdx 201).map fun x => Command.routeFlush x.2 := List.mem_map.mpr ⟨_,hx,rfl⟩
    simp only [delOf,List.mem_append]
    exact Or.inl (Or.inl (Or.inl (Or.inr hm)))

theorem tables_undone (us : List IpAddr) (m : Misc) {ts : ℕ → List Entry}
    (h : ∀ t ∈ multipathTable::numbers us, ts t = []) :
    (filesOf us m).stop.foldl Command.onTables ((filesOf us m).start.foldl Command.onTables ts) = ts := by
  funext t
  by_cases ht : t ∈ multipathTable::numbers us
  · rw [h t ht]
    refine onTables_drained (fun c hc => ?_) (Or.inr ?_)
    · simp only [filesOf,tableLast,List.mem_append,List.mem_singleton] at hc
      rcases hc with ((hc | hc) | rfl) | rfl
      · exact del_draining us c hc
      · obtain ⟨gateway,dev,rfl⟩ := mem_default hc
        trivial
      · trivial
      · trivial
    · simp only [filesOf,List.mem_append]
      exact Or.inl (Or.inl (Or.inl (flush_mem ht)))
  · rw [onTables_spared,onTables_spared]
    · intro c hc
      simp only [filesOf,tableLast,List.mem_append,List.mem_singleton] at hc
      rcases hc with ((hc | hc) | rfl) | rfl
      · exact del_spares ht c hc
      · exact add_spares ht c hc
      · trivial
      · trivial
    · intro c hc
      simp only [filesOf,tableLast,List.mem_append,List.mem_singleton] at hc
      rcases hc with ((hc | hc) | rfl) | rfl
      · exact del_spares ht c hc
      · obtain ⟨gateway,dev,rfl⟩ := mem_default hc
        trivial
      · trivial
      · trivial

theorem onMain_del (us : List IpAddr) (rs : List Uplink.Route) :
    (delOf us).foldl Command.onMain rs = rs.tail.tail := by
  simp only [delOf,List.foldl_append,List.foldl_cons,List.foldl_nil]
  rw [foldl_quiet Command.onMain _ ((us.zipIdx 201).map _),foldl_quiet Command.onMain _ ((us.zipIdx 201).map _),
    foldl_quiet Command.onMain _ ((us.zipIdx 201).map _)]
  · rfl
  all_goals
    intro c hc
    obtain ⟨x,-,rfl⟩ := List.mem_map.mp hc
    exact fun _ => rfl

theorem onMain_stop (us : List IpAddr) (m : Misc) {rs : List Uplink.Route} (h : rs.length ≤ 1) :
    (filesOf us m).stop.foldl Command.onMain ((filesOf us m).start.foldl Command.onMain rs) =
      (lastDefault us).toList := by
  have hadd : ∀ rs, (addOf us).foldl Command.onMain rs = rs := by
    intro rs
    refine foldl_quiet _ _ _ fun c hc => ?_
    simp only [addOf,List.mem_append,List.mem_cons,List.mem_flatMap,List.not_mem_nil,or_false] at hc
    rcases hc with (rfl | ⟨x,hx,rfl | rfl | rfl⟩) | rfl | rfl <;> exact fun _ => rfl
  have htail : rs.tail.tail = [] := by
    rw [← List.drop_one,← List.drop_one,List.drop_drop]
    exact List.drop_eq_nil_of_le (by omega)
  simp only [filesOf,tableLast,List.foldl_append,List.foldl_cons,List.foldl_nil,onMain_del,hadd,htail,Command.onMain,
    List.tail_nil]
  cases lastDefault us <;> rfl

theorem onGc_stop (us : List IpAddr) (m : Misc) (n : ℕ) : (filesOf us m).stop.foldl Command.onGc n = 60 := by
  simp [filesOf,List.foldl_append,Command.onGc]

/-- The stop script takes back what the start script does just when it sets the default route of before. -/
theorem undone_iff (rows us : List IpAddr) (m : Misc) :
    (∀ k, Settled rows (numbers us) k → run (filesOf us m).stop (run (filesOf us m).start k) = k) ↔
      lastDefault us = defaultGateway rows := by
  have hlen : (defaultGateway rows).toList.length ≤ 1 := by
    cases defaultGateway rows <;> simp
  constructor
  · intro h
    have hk := congrArg Routing.main (h ⟨[],fun _ => [],(defaultGateway rows).toList,60⟩
      ⟨by simp,fun _ _ => rfl,rfl,rfl⟩)
    rw [run_eq,run_eq] at hk
    dsimp only at hk
    rw [onMain_stop us m hlen] at hk
    have he := congrArg List.head? hk
    rwa [Option.head?_toList,Option.head?_toList] at he
  · intro h k hk
    obtain ⟨rs,ts,main,gc⟩ := k
    obtain ⟨hr,ht,hm,hg⟩ := hk
    dsimp only at hr ht hm hg
    subst hm hg
    rw [run_eq,run_eq]
    dsimp only
    rw [rules_undone us m hr,tables_undone us m ht,onMain_stop us m hlen,onGc_stop,h]

theorem zipWith_rule_prios {ts : List ℕ} {us : List IpAddr} (h : ts.length = us.length) :
    (List.zipWith IpAddr.rule ts us).map RuleEntry.prio = ts := by
  induction ts generalizing us with
  | nil => rfl
  | cons t ts ih =>
    cases us with
    | nil => simp at h
    | cons u us => rw [List.zipWith_cons_cons,List.map_cons,ih (by simpa using h)]; rfl

theorem length_numbers (us : List IpAddr) : (numbers us).length = us.length := List.length_range'

/-- The order of the map is the one of the priorities when these are different numbers. -/
theorem ordered_eq_sort {rows : List IpAddr} (hp : (ordered rows).Perm (uplinks rows))
    (hd : (uplinks rows).Pairwise fun a b => b.upprio ≠ a.upprio) (hi : ∀ u ∈ uplinks rows, ∃ p ∈ u.upprio, IsInt p) :
    ordered rows = (uplinks rows).insertionSort fun a b => prioNum a.upprio ≤ prioNum b.upprio := by
  have htotal : Std.Total fun a b : IpAddr => prioNum a.upprio ≤ prioNum b.upprio := ⟨fun a b => le_total _ _⟩
  have htrans : IsTrans IpAddr fun a b => prioNum a.upprio ≤ prioNum b.upprio := ⟨fun _ _ _ => le_trans⟩
  have hnum : ∀ a ∈ uplinks rows, ∀ b ∈ uplinks rows, prioNum a.upprio = prioNum b.upprio → a.upprio = b.upprio := by
    intro a ha b hb he
    obtain ⟨p,hpa,-⟩ := hi a ha
    obtain ⟨q,hqb,-⟩ := hi b hb
    rw [Option.mem_def] at hpa hqb
    simpa [prioNum,hpa,hqb] using he
  have hinj : ∀ a ∈ uplinks rows, ∀ b ∈ uplinks rows, a.upprio = b.upprio → a = b := by
    intro a ha b hb he
    by_contra hne
    have hsym : Std.Symm fun a b : IpAddr => b.upprio ≠ a.upprio := ⟨fun _ _ h => Ne.symm h⟩
    exact hd.forall ha hb hne he.symm
  refine List.Perm.eq_of_pairwise (fun a b ha hb hab hba => ?_) (ordered_sorted rows)
    (List.pairwise_insertionSort _ _) (hp.trans (List.perm_insertionSort _ _).symm)
  have ha' := hp.mem_iff.mp ha
  have hb' := (List.perm_insertionSort _ _).mem_iff.mp hb
  exact hinj a ha' b hb' (hnum a ha' b hb' (le_antisymm hab hba))

theorem uplinks_pairwise {rows : List IpAddr}
    (h : (upRows rows).Pairwise fun a b => a.isUplink = true → b.upprio ≠ a.upprio) :
    (uplinks rows).Pairwise fun a b => b.upprio ≠ a.upprio := by
  refine (h.sublist List.filter_sublist).imp_of_mem fun {a b} ha _ hab => ?_
  exact hab (isUplink_uplinks ha)

theorem arranged_ordered {rows : List IpAddr} (m : Misc) (h : Separate rows) :
    Arranged rows (some (filesOf (ordered rows) m)) (ordered rows) (numbers (ordered rows)) := by
  have hl := (length_ordered_iff rows).mpr h.prios
  have hp := ordered_perm_uplinks hl
  have hi : ∀ u ∈ ordered rows, ∃ p ∈ u.upprio, IsInt p := fun u hu => h.ints u (hp.mem_iff.mp hu)
  refine ⟨hp,ordered_sorted rows,?_,List.nodup_range',?_,rulesOf_start _ m,routesOf_start _ m,length_numbers _,
    nexthopsOf_start _ m,(undone_iff rows _ m).mpr ?_⟩
  · have hr := readConfig_ordered hi
    rw [tableIp_ordered] at hr
    exact hr
  · have hc := h.count
    rw [numbers,List.mem_range'_1,hl,multipathTable]
    omega
  · rw [← h.default,defaultUplink,← ordered_eq_sort hp (uplinks_pairwise h.prios) h.ints]
    rfl

theorem separate_of_arranged {rows us : List IpAddr} {ts : List ℕ} {m : Misc}
    (h : Arranged rows (some (filesOf (ordered rows) m)) us ts) : Separate rows := by
  have hrules : List.zipWith IpAddr.rule (numbers (ordered rows)) (ordered rows) = List.zipWith IpAddr.rule ts us :=
    (rulesOf_start (ordered rows) m).symm.trans h.rules
  have hts : numbers (ordered rows) = ts := by
    have he := congrArg (List.map RuleEntry.prio) hrules
    rwa [zipWith_rule_prios (length_numbers _),zipWith_rule_prios h.numbers] at he
  have hl : (ordered rows).length = (uplinks rows).length := by
    rw [← length_numbers,hts,h.numbers,h.perm.length_eq]
  have hprios := (length_ordered_iff rows).mp hl
  have hp := ordered_perm_uplinks hl
  have hints : ∀ u ∈ uplinks rows, ∃ p ∈ u.upprio, IsInt p := by
    intro u hu
    have hm : u.toGateway ∈ us.map IpAddr.toGateway := List.mem_map_of_mem (h.perm.mem_iff.mpr hu)
    rw [← h.read] at hm
    obtain ⟨g,hg,he⟩ := List.mem_map.mp hm
    obtain ⟨p,hpu,rfl⟩ := Option.map_eq_some_iff.mp he.symm
    exact ⟨p,hpu,isInt_readConfig hg⟩
  refine ⟨hprios,?_,hints,?_⟩
  · have hr := h.reserved
    rw [← hts,numbers,List.mem_range'_1,hl,multipathTable] at hr
    omega
  · have hu := h.undone
    rw [← hts] at hu
    rw [← (undone_iff rows (ordered rows) m).mp hu,defaultUplink,
      ← ordered_eq_sort hp (uplinks_pairwise hprios) hints]
    rfl

/-- The uplink set is complete just when it is written and kept apart by the priorities, or there are no uplinks and
it is not written. -/
theorem uplink_set_complete_iff (rows : List IpAddr) (m : Misc) : Complete rows (doUplink (netUplink rows) m) ↔
    if Written rows m then Separate rows else uplinks rows = [] := by
  rw [doUplink_eq]
  by_cases hw : Written rows m
  · rw [if_pos hw,if_pos hw]
    exact ⟨fun ⟨_,_,h⟩ => separate_of_arranged h,fun h => ⟨_,_,arranged_ordered m h⟩⟩
  · rw [if_neg hw,if_neg hw]
    constructor
    · rintro ⟨us,ts,h⟩
      have hr := h.read
      have hnil : us = [] := by simpa [chkOf,readConfig,pieces] using hr.symm
      exact List.perm_nil.mp (hnil ▸ h.perm.symm)
    · intro h
      exact ⟨[],[],⟨by rw [h],List.Pairwise.nil,rfl,List.nodup_nil,by simp,rfl,rfl,rfl,rfl,fun _ _ => rfl⟩⟩

def cell (n : ℕ) (w : Str) (h : Plain n w := by decide) : Cell n := ⟨w,h⟩

/-- Two uplinks and a local network, which has the priority of the second one. -/
def sharedPriority : List IpAddr := [
  ⟨cell 25 "eth0",cell 50 "10.0.0.2",cell 50 "24",true,true,some 1,some (cell 50 "10.0.0.1"),true⟩,
  ⟨cell 25 "eth1",cell 50 "10.0.1.2",cell 50 "24",false,true,some 2,some (cell 50 "10.0.1.1"),true⟩,
  ⟨cell 25 "eth2",cell 50 "192.168.1.1",cell 50 "24",false,false,some 2,none,true⟩]

def balancerOn : Misc := ⟨"1","2","192.0.2.1","60"⟩

theorem sharedPriority_incomplete : ¬Complete sharedPriority (doUplink (netUplink sharedPriority) balancerOn) := by
  have hw : Written sharedPriority balancerOn := by decide
  rintro ⟨us,ts,h⟩
  rw [doUplink_eq,if_pos hw] at h
  exact absurd (separate_of_arranged h).prios (by decide)

end UplinkSet
end Mybox
