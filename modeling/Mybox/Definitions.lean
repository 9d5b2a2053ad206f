import Mybox.Registry

/-! Definitions: the objects read from the definition files and derived from the
interfaces, and the lookups by name. Every lookup reads the files again, and reading the
networks deletes the aliases that have lost their interface. -/
namespace Mybox
namespace Definitions

open Php RegistryFormat Registry

variable (pcre : Pcre) (env : Env)

/-- The option of a lookup. -/
inductive Kind
  | networks
  | services
  | timeevents
  deriving DecidableEq

def Kind.name : Kind → Str
  | networks => "networks"
  | services => "services"
  | timeevents => "timeevents"

abbrev Objects := OrdMap Str Token

def definitionsGetAddToken (key : Str) (token : Token) (m : Objects) : Objects :=
  if token.isEmpty then m else m.set key token

def unresolved : Str := "unresolved"

def addrOf (d : Params) : Str := if null (d.val "ADDR") then unresolved else d.val "ADDR"

def networkOf (d : Params) : Str :=
  if null (d.val "NETWORK") then unresolved else d.val "NETWORK" ++ '/' :: d.val "PREF"

def bcastOf (d : Params) : Str := if null (d.val "BCAST") then unresolved else d.val "BCAST"

def objectFields (name addr note : Str) (d : Params) : List (Str × Str) :=
  [("NAME",name),("ADDR",addr),("NOTE",note),("__DATA_ID",d.val "__DATA_ID")]

/-- One loop of `_DEFINITIONS_GET_INTERFACE` over the entries with a NAME. -/
def derive (fields : Params → List (Str × Str)) (keep : Params → Bool) (t a : Token) : Token :=
  t.entries.foldl (fun a e =>
    if null (e.2.val "NAME") || !keep e.2 then a
    else a.set e.1 ((a.getD e.1 ∅).setAll (fields e.2))) a

/-- The names collected in `$_DELTOK`. -/
def interfaceNames (eth : Token) : List Str :=
  (eth.entries.map fun e => e.2.val "NAME").filter fun n => !null n

def parented (eth : Token) (d : Params) : Bool :=
  !null (d.val "PNAME") && (interfaceNames eth).contains (d.val "PNAME")

def ethAddress (d : Params) : List (Str × Str) :=
  objectFields (d.val "NAME" ++ (" (Address)" : Str)) (addrOf d) (d.val "NAME" ++ (" Address" : Str)) d

def aliasAddress (d : Params) : List (Str × Str) :=
  objectFields (d.val "PNAME" ++ (" [" : Str) ++ d.val "NAME" ++ ("] (Address)" : Str)) (addrOf d)
    (("Address of alias '" : Str) ++ d.val "NAME" ++ ("' on interface '" : Str) ++ d.val "PNAME"
      ++ ("'" : Str)) d

def ethNetwork (d : Params) : List (Str × Str) :=
  objectFields (d.val "NAME" ++ (" (Network)" : Str)) (networkOf d)
    (("Attached network of interface " : Str) ++ d.val "NAME") d

def aliasNetwork (d : Params) : List (Str × Str) :=
  objectFields (d.val "NAME" ++ (" (Network)" : Str)) (networkOf d)
    (("Attached network of alias '" : Str) ++ d.val "NAME" ++ ("' on interface '" : Str)
      ++ d.val "PNAME" ++ ("'" : Str)) d

def ethBcast (d : Params) : List (Str × Str) :=
  objectFields (d.val "NAME" ++ (" (Broadcast)" : Str)) (bcastOf d)
    (("Broadcast address of interface '" : Str) ++ d.val "NAME" ++ ("'" : Str)) d

def aliasBcast (d : Params) : List (Str × Str) :=
  objectFields (d.val "NAME" ++ (" (Broadcast)" : Str)) (bcastOf d)
    (("Broadcast address of alias '" : Str) ++ d.val "NAME" ++ ("' on interface '" : Str)
      ++ d.val "PNAME" ++ ("'" : Str)) d

def interfaceObjects (ethFields aliasFields : Params → List (Str × Str)) (eth additional : Token) :
    Token :=
  derive aliasFields (parented eth) additional (derive ethFields (fun _ => true) eth ∅)

def interfaceTypes (eth additional : Token) (m : Objects) : Objects :=
  definitionsGetAddToken "Interface Broadcast Addresses"
    (interfaceObjects ethBcast aliasBcast eth additional)
    (definitionsGetAddToken "Interface Networks"
      (interfaceObjects ethNetwork aliasNetwork eth additional)
      (definitionsGetAddToken "Interface Addresses"
        (interfaceObjects ethAddress aliasAddress eth additional) m))

def orphans (eth additional : Token) : List Str :=
  (additional.entries.filter fun e => !null (e.2.val "NAME") && !parented eth e.2).map Prod.fst

def definitionsGetInterface (m : Objects) (w : World) : Objects × World :=
  let eth := iniTokenGet env "network" "eth.cfg" ∅ w
  let additional := iniTokenGet env "network" "additional.cfg" ∅ eth.2
  (interfaceTypes eth.1 additional.1 m,
    (orphans eth.1 additional.1).foldl
      (fun w id => (iniTokenDelete pcre env "network" "additional.cfg" id w).2) additional.2)

/-- `/^pre(\S+)\.cfg$/` -/
def typeBetween (pre fil : Str) : Option Str :=
  let m := (fil.drop pre.length).take (fil.length - pre.length - 4)
  if m ≠ [] ∧ m.all (fun c => !regexSpace c) ∧ fil = pre ++ m ++ (".cfg" : Str) then some m else none

def typeOfFile (k : Kind) (fil : Str) : Option Str :=
  match k with
  | .networks => if fil = ("network.cfg" : Str) then some "network" else typeBetween "network_" fil
  | .services => typeBetween "service_" fil
  | .timeevents => typeBetween "timeevent_" fil

/-- The files of the definitions directory, as `glob` lists them. -/
def definitionFiles (w : World) : List Str :=
  ((w.reg.keys.filter fun f => f.1 = ("definitions" : Str)).map Prod.snd).insertionSort
    fun a b => nameLe a b

def definitionsGet (k : Kind) (w : World) : Objects × World :=
  let r := (definitionFiles w).foldl (fun (r : Objects × World) fil =>
    match typeOfFile k fil with
    | none => r
    | some ty =>
      let g := iniTokenGet env "definitions" fil ∅ r.2
      (definitionsGetAddToken ty g.1 r.1,g.2)) (∅,w)
  let r := match k with
    | .networks => definitionsGetInterface pcre env r.1 r.2
    | _ => r
  (r.1.sortKeys nameLe,r.2)

/-- The first object of the type, of any type when it is null, with the value under the
parameter. -/
def findParam (k : Kind) (m : Objects) (param value type : Str) : Option Params :=
  m.entries.findSome? fun ty =>
    if !null type && !looseEq ty.1 type then none
    else (ty.2.entries.find? fun e => !null (e.2.val param) && looseEq (e.2.val param) value).map
      fun e => (e.2.set "__DATA_SECTION" k.name).set "__DATA_TYPE" ty.1

/-- The by-reference array stays as it was when nothing is found. -/
def definitionsGetByparam (k : Kind) (param value : Str) (itoken : Params) (type : Str) (w : World) :
    (Bool × Params) × World :=
  let d := definitionsGet pcre env k w
  match findParam k d.1 param value type with
  | some o => ((true,o),d.2)
  | none => ((false,itoken),d.2)

def definitionsGetByname (k : Kind) (name : Str) (itoken : Params) (type : Str) (w : World) :
    Params × World :=
  let r := definitionsGetByparam pcre env k "NAME" name itoken type w
  (r.1.2,r.2)

def Kind.field : Kind → Str
  | networks => "ADDR"
  | services => "PROTO"
  | timeevents => []

def Kind.members : Kind → Str
  | networks => "ADDR"
  | services => "SERVICE"
  | timeevents => []

/-- `if(!_NULL($_TOKEN[..])) $_ITOKEN[]=$_TOKEN` -/
def usable (k : Kind) (o : Params) : List Params := if null (o.val k.field) then [] else [o]

/-- The loop over the members of a group. `$_TOKEN` keeps its value when a member is not
found. -/
def getMembers (k : Kind) : List Str → Params → World → List Params × World
  | [], _, w => ([],w)
  | n::ns, token, w =>
    let r := definitionsGetByparam pcre env k "NAME" n token [] w
    let s := getMembers k ns r.1.2 r.2
    (usable k r.1.2 ++ s.1,s.2)

def definitionsGetBynameR (k : Kind) (name : Str) (w : World) : List Params × World :=
  if k = .timeevents then ([],w) else
  let r := definitionsGetByparam pcre env k "NAME" name ∅ [] w
  if r.1.2.isEmpty then ([],r.2)
  else if looseEq (r.1.2.val "__DATA_TYPE") "group" then
    getMembers pcre env k (split ',' (r.1.2.val k.members)) r.1.2 r.2
  else (usable k r.1.2,r.2)

/-- `_DEFINITIONS_GET_INTERFACE_DEVICE`, with a bound on the depth of aliases on aliases. -/
def definitionsGetInterfaceDevice : Nat → Str → World → Option (Str × World)
  | 0, _, _ => none
  | n+1, name, w =>
    let e := iniTokenGetByparam env "network" "eth.cfg" "NAME" name ∅ w
    let d := e.1.2
    if !null (d.val "DEVICE") then
      let dev :=
        if looseEq (d.val "TYPE") "vlan" && !null (d.val "TAG") then
          d.val "DEVICE" ++ '.' :: d.val "TAG"
        else if looseEq (d.val "TYPE") "pppoe" && !null (d.val "PDEV") then d.val "PDEV"
        else d.val "DEVICE"
      some (dev,e.2)
    else
      let a := iniTokenGetByparam env "network" "additional.cfg" "NAME" name ∅ e.2
      if !null (a.1.2.val "PNAME") && !null (a.1.2.val "__DATA_ID") then
        (definitionsGetInterfaceDevice n (a.1.2.val "PNAME") a.2).map fun r =>
          (r.1 ++ ':' :: a.1.2.val "__DATA_ID",r.2)
      else some ([],a.2)

end Definitions
end Mybox
