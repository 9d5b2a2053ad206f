import Mybox.NetCalc
import Mybox.OrderedMap

/-! Version 3.0: what the policy is made from. The arrays of definitions that `mybox_defnetwork_array` and the like
make of the tables, the matches the names of a rule stand for, and the rules of a row but for their time. -/
namespace Mybox
namespace PolicyTables
open Php NetCalc

-- Arrays of definitions: an entry holds the columns of a definition, and the members of a group beside them.
inductive Val
  | text (s : Str)
  | sub (fs : OrdMap Str Str)

def Val.string : Val → Str
  | text s => s
  | sub _ => "Array"

abbrev Entry := OrdMap Str Val

abbrev Table := OrdMap Str Entry

/-- A column; one that is not set counts as the empty text. -/
def field (e : Entry) (k : Str) : Str := ((e.get? k).map Val.string).getD []

def given (e : Entry) (k : Str) : Bool :=
  match e.get? k with
  | some (.text s) => s ≠ []
  | some (.sub _) => true
  | none => false

def members (e : Entry) : List (OrdMap Str Str) := e.entries.filterMap fun
  | (_,.sub fs) => some fs
  | (_,.text _) => none

def defRow (t : Table) (name : Str) (columns : List (Str × Str)) : Table :=
  t.set name (columns.foldl (fun e c => e.set c.1 (.text c.2)) (t.getD name ∅))

/-- An assignment to a place in a text: its first character is replaced. -/
def setFirst (s v : Str) : Str := v.head?.getD '\x00'::s.tail

/-- `$entry[$a][$k]=$v` -/
def copyField (e : Entry) (a k v : Str) : Entry :=
  match e.get? a with
  | none => e.set a (.sub ((∅ : OrdMap Str Str).set k v))
  | some (.sub fs) => e.set a (.sub (fs.set k v))
  | some (.text s) => e.set a (if s = [] then .sub ((∅ : OrdMap Str Str).set k v) else .text (setFirst s v))

/-- A name of the list of members; what is not defined is left out. -/
def copyMember (keys : List Str) (name : Str) (t : Table) (a : Str) : Table :=
  if t.get? a = none then t
  else keys.foldl (fun t k => t.set name (copyField (t.getD name ∅) a k (field (t.getD a ∅) k))) t

structure Group where
  name : Str
  members : Str

def groupRow (keys : List Str) (t : Table) (g : Group) : Table :=
  (split ',' g.members).foldl (copyMember keys g.name)
    (t.set g.name ((t.getD g.name ∅).set "group" (.text g.name)))

structure Network where
  name : Str
  type : Str
  ip : Str

def defnetworkArray (defs : List Network) (grps : List Group) : Table :=
  grps.foldl (groupRow ["type","ip"])
    (defs.foldl (fun t d => defRow t d.name [("name",d.name),("type",d.type),("ip",d.ip)]) ∅)

structure Service where
  name : Str
  protocol : Str
  dport : Str
  sport : Str
  etc : Str

def defservicesArray (defs : List Service) (grps : List Group) : Table :=
  grps.foldl (groupRow ["proto","dport","sport","etc"])
    (defs.foldl (fun t d => defRow t d.name
      [("name",d.name),("proto",d.protocol),("dport",d.dport),("sport",d.sport),("etc",d.etc)]) ∅)

/-- Only the protocols with ports; a range is written with a hyphen. -/
def defservices4natArray (defs : List Service) (grps : List Group) : Table :=
  grps.foldl (groupRow ["proto","dport"])
    ((defs.filter fun d => toNumber d.protocol ≤ 3).foldl (fun t d => defRow t d.name
      [("name",d.name),("proto",d.protocol),("dport",d.dport.map fun c => if c = ':' then '-' else c)]) ∅)

/-- A row of `ipaddr`, `ipalias` or `vlan`. -/
structure Interface where
  name : Str
  ip : Str
  pref : Str

def name2devArray (rows : List Interface) : OrdMap Str Str :=
  rows.foldl (fun m r =>
    let c := ipcalc r.ip r.pref
    ((m.set (r.name ++ (" (Network)" : Str)) ((c.map Calc.network).getD [] ++ '/'::r.pref)).set
      (r.name ++ (" (Broadcast)" : Str)) ((c.map Calc.broadcast).getD [])).set
      (r.name ++ (" (Address)" : Str)) r.ip) ∅

structure TimeDef where
  name : Str
  val : Str
  val2 : Str
  val3 : Str
  deriving DecidableEq

def deftimesArray (defs : List TimeDef) : OrdMap Str TimeDef := defs.foldl (fun m d => m.set d.name d) ∅

def number (s : Str) : Option (Str × Str) :=
  if s.takeWhile digit = [] then none else some (s.takeWhile digit,s.dropWhile digit)

def separator (c : Char) : Str → Option Str
  | [] => none
  | d::s => if c = d then some s else none

def blanks (s : Str) : Option Str :=
  if s.takeWhile regexSpace = [] then none else some (s.dropWhile regexSpace)

/-- `$` -/
def ending (s : Str) : Option Unit := if s = [] ∨ s = ['\n'] then some () else none

/-- Numbers with a character between them, and what follows. -/
def numbers (c : Char) : ℕ → Str → Option (List Str × Str)
  | 0, s => some ([],s)
  | 1, s => do
    let (n,s) ← number s
    return ([n],s)
  | k + 2, s => do
    let (n,s) ← number s
    let s ← separator c s
    let (ns,s) ← numbers c (k + 1) s
    return (n::ns,s)

/-- `/^(\d+)-(\d+)-(\d+)\s+(\d+):(\d+)$/` -/
def dateTime (s : Str) : Option (List Str) := do
  let (d,s) ← numbers '-' 3 s
  let s ← blanks s
  let (t,s) ← numbers ':' 2 s
  ending s
  return d ++ t

/-- `/^(\d+)-(\d+)-(\d+)$/` -/
def date (s : Str) : Option (List Str) := do
  let (d,s) ← numbers '-' 3 s
  ending s
  return d

/-- `/^(\d+):(\d+)$/` and `/^(\d+):(\d+):(\d+)$/` -/
def clock (n : ℕ) (s : Str) : Option (List Str) := do
  let (t,s) ← numbers ':' n s
  ending s
  return t

/-- `$_cmdtime` and `$_days`. -/
structure TimeState where
  cmdtime : Str
  days : Str

/-- The parts `ks` of a match, with colons between them. -/
def parts (m : List Str) (ks : List ℕ) : Str := [':'].intercalate (ks.map fun k => m.getD (k - 1) [])

def TimeState.begin (opt : Str) (ks : List ℕ) (m : Option (List Str)) (st : TimeState) : TimeState :=
  match m with
  | none => st
  | some m => ⟨"-m time ".toList ++ st.days ++ ' '::opt ++ ' '::parts m ks,[]⟩

def TimeState.stop (opt : Str) (ks : List ℕ) (m : Option (List Str)) (st : TimeState) : TimeState :=
  match m with
  | none => st
  | some m => if st.cmdtime = [] then st.begin opt ks (some m) else ⟨st.cmdtime ++ ' '::opt ++ ' '::parts m ks,st.days⟩

def timePolicy (timeday timestart timeend : Str) : Str :=
  let st : TimeState := ⟨[],if timeday = [] then [] else "--days ".toList ++ timeday⟩
  let st := st.begin "--datestart" [3,1,1,4,5] (dateTime timestart)
  let st := st.begin "--datestart" [3,2,1] (date timestart)
  let st := st.begin "--timestart" [1,2,2] (clock 3 timestart)
  let st := st.stop "--datestop" [3,2,1,4,5] (dateTime timeend)
  let st := st.stop "--datestop" [3,2,1] (date timeend)
  let st := st.stop "--timestop" [1,2] (clock 2 timeend)
  if timeday ≠ [] ∧ st.cmdtime = [] then "-m time --days ".toList ++ timeday else st.cmdtime

def proto (p : Str) : Str :=
  if p = ("1" : Str) then "TCP" else if p = ("2" : Str) then "UDP" else if p = ("3" : Str) then "TCP/UDP"
  else if p = ("4" : Str) then "ICMP" else if p = ("5" : Str) then "IP" else if p = ("6" : Str) then "ESP"
  else if p = ("7" : Str) then "AH" else []

def serviceMatches (p dport sport etc : Str) : List Str :=
  let tcp : Str := "-p tcp -m tcp --sport ".toList ++ sport ++ " --dport ".toList ++ dport
  let udp : Str := "-p udp -m udp --sport ".toList ++ sport ++ " --dport ".toList ++ dport
  if proto p = ("TCP" : Str) then [tcp]
  else if proto p = ("UDP" : Str) then [udp]
  else if proto p = ("TCP/UDP" : Str) then [tcp,udp]
  else if proto p = ("ICMP" : Str) then ["-p icmp -m icmp --icmp-type ".toList ++ etc]
  else if proto p = ("IP" : Str) then ["-p ".toList ++ etc]
  else if proto p = ("ESP" : Str) then ["-p esp -m esp --espspi ".toList ++ etc]
  else if proto p = ("AH" : Str) then ["-p ah -m ah --ahspi ".toList ++ etc]
  else []

def listServiceArray (t : Table) (name : Str) : List Str :=
  let e := t.getD name ∅
  if given e "name" then serviceMatches (field e "proto") (field e "dport") (field e "sport") (field e "etc")
  else if given e "group" then
    (members e).flatMap fun b => serviceMatches (b.getD "proto" []) (b.getD "dport" []) (b.getD "sport" [])
      (b.getD "etc" [])
  else []

/-- The place a name is used in: source, destination, or the address to forward to. -/
inductive Opt
  | src
  | dst
  | fwd
  deriving DecidableEq

/-- The matches of one object; `eq` is the mark of the negation. -/
def addressMatches (opt : Opt) (eq type ip : Str) : List Str :=
  if toNumber type = 3 then
    match opt with
    | .src => ["-m iprange ".toList ++ eq ++ "--src-range ".toList ++ ip]
    | .dst => ["-m iprange ".toList ++ eq ++ "--dst-range ".toList ++ ip]
    | .fwd => []
  else if toNumber type = 4 then
    match opt with
    | .src => ["-m mac --mac-source ".toList ++ eq ++ ip]
    | _ => []
  else
    match opt with
    | .src => ["-s ".toList ++ eq ++ ip]
    | .dst => ["-d ".toList ++ eq ++ ip]
    | .fwd => [ip]

def listSrcdstArray (t : Table) (name : Str) (opt : Opt) (eq : Str) : List Str :=
  let e := t.getD name ∅
  if given e "name" then addressMatches opt eq (field e "type") (field e "ip")
  else if given e "group" then (members e).flatMap fun b => addressMatches opt eq (b.getD "type" []) (b.getD "ip" [])
  else []

def listService4natArray (t : Table) (name : Str) (fwds : List Str) (type : Str) : List Str :=
  let jump : Str := if type = ("snat" : Str) then "-j SNAT --to-source " else "-j DNAT --to-destination "
  let fwds := fwds.filter (· ≠ [])
  if name = ("any" : Str) then fwds.map (jump ++ ·)
  else
    let e := t.getD name ∅
    if given e "name" then fwds.map fun f => jump ++ f ++ ':'::field e "dport"
    else if given e "group" then (members e).flatMap fun b => fwds.map fun f => jump ++ f ++ ':'::b.getD "dport" []
    else []

/-- The arrays a policy is made with. -/
structure Arrays where
  deftime : OrdMap Str TimeDef
  defnet : Table
  defservice : Table
  defservice4nat : Table
  namedev : OrdMap Str Str

def column (a : Arrays) (name : Str) (opt : Opt) (eq : Str) : List Str :=
  if name = ("any" : Str) then []
  else
    let dev := a.namedev.getD name []
    if dev ≠ [] then
      match opt with
      | .src => ["-s ".toList ++ eq ++ dev]
      | .dst => ["-d ".toList ++ eq ++ dev]
      | .fwd => [dev]
    else if a.defnet.get? name = none then [] else listSrcdstArray a.defnet name opt eq

/-- A column of forward addresses; `any` is a name as any other. -/
def forwardColumn (a : Arrays) (name : Str) : List Str :=
  let dev := a.namedev.getD name []
  if dev ≠ [] then [dev]
  else if a.defnet.get? name = none then [] else listSrcdstArray a.defnet name .fwd []

def serviceColumn (a : Arrays) (name : Str) : List Str :=
  if name = ("any" : Str) then [] else listServiceArray a.defservice name

/-- A rule but for its time. -/
structure Draft where
  before : Str
  after : Str
  deriving DecidableEq

def Draft.text (time : Str) (d : Draft) : Str := d.before ++ time ++ d.after

/-- The rule `-A chain …` with some of the matches. -/
def draft (chain : Str) (ws : List Str) (after : Str) : Draft :=
  ⟨"-A ".toList ++ [' '].intercalate (chain::ws) ++ [' '],' '::after⟩

/-- The choices of a loop: an empty column has no part in the rule, and empty matches are passed over. -/
def choices (l : List Str) : List (List Str) := if l = [] then [[]] else (l.filter (· ≠ [])).map ([·])

def cmdlog : Str := "-m state --state NEW -m limit --limit 2/sec --limit-burst 10 -j NFLOG --nflog-prefix"

/-- The loops over sources, destinations and services. -/
def crossed (src dst srv : List Str) (f : List Str → List Draft) : List Draft :=
  (choices src).flatMap fun s => (choices dst).flatMap fun d => (choices srv).flatMap fun v => f (v ++ s ++ d)

structure FilterRow where
  id : Str
  srcn : Bool
  src : Str
  dstn : Bool
  dst : Str
  service : Str
  action : Str
  event : Str
  log : Bool

/-- `$_PFP`, with `PASS` made to `ACCEPT`. -/
def pfp (action : Str) : Str :=
  if action = ("1" : Str) then "ACCEPT" else if action = ("2" : Str) then "DROP"
  else if action = ("3" : Str) then "REJECT" else []

def negation (b : Bool) : Str := if b then "! " else []

/-- A row of `policy_filter`; the chain `ACL1000-08` is the one of the outbound rules. -/
def filterDrafts (a : Arrays) (type : Str) (r : FilterRow) : List Draft :=
  let tt : Str := if type = ("ACL1000-08" : Str) then "O" else "I"
  let action := pfp (trim r.action)
  let cmdlogx : Str := cmdlog ++ " \"F:".toList ++ tt ++ ':'::action ++ ':'::r.id ++ " \"".toList
  crossed (column a (trim r.src) .src (negation r.srcn)) (column a (trim r.dst) .dst (negation r.dstn))
    (serviceColumn a (trim r.service)) fun ws =>
      (if r.log then [draft type ws cmdlogx] else []) ++ [draft type ws ("-j ".toList ++ action)]

structure NatRow where
  id : Str
  src : Str
  dst : Str
  service : Str
  fwd : Str
  fwdp : Str
  event : Str
  log : Bool

/-- A row of `policy_nat`; when no column has a part in the rule, its target is a variable that is not set. -/
def natDrafts (a : Arrays) (type : Str) (r : NatRow) : List Draft :=
  let natj : Str := if type = ("snat" : Str) then "ACL1006-04" else "ACL1006-02"
  let cmdlogx : Str := cmdlog ++ " \"F:".toList ++ type ++ ":NAT:".toList ++ r.id ++ " \"".toList
  let src := column a (trim r.src) .src []
  let dst := column a (trim r.dst) .dst []
  let srv := serviceColumn a (trim r.service)
  let fwd := forwardColumn a (trim r.fwd)
  let fwdp := listService4natArray a.defservice4nat (trim r.fwdp) fwd type
  if fwd = [] ∨ fwdp = [] then []
  else crossed src dst srv fun ws =>
    (if r.log then [draft natj ws cmdlogx] else []) ++
      (fwdp.filter (· ≠ [])).map fun fw => draft natj ws (if src = [] ∧ dst = [] ∧ srv = [] then "-j " else fw)

structure MapRow where
  type : Bool
  src : Str
  dst : Str
  fwd : Str
  event : Str

/-- A row of `policy_netmap`; without a destination there are no rules. -/
def netmapDrafts (a : Arrays) (r : MapRow) : List Draft :=
  let type : Str := if r.type then "ACL1006-04" else "ACL1006-02"
  let src := column a (trim r.src) .src []
  let dst := column a (trim r.dst) .dst []
  let fwd := forwardColumn a (trim r.fwd)
  if dst = [] then []
  else crossed src dst [] fun ws => (fwd.filter (· ≠ [])).map fun fw => draft type ws ("-j NETMAP --to ".toList ++ fw)

end PolicyTables
end Mybox
