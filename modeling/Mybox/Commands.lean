import Mybox.Definitions

/-! The calls and commands that write definitions, interfaces and aliases. A command is given
the registry ID its resource ID stands for; what it asks the network, the user and the address
calculator is handed in with the answers. -/
namespace Mybox

open Php RegistryFormat Registry

variable (pcre : Pcre) (env : Env)

namespace Definitions

def definitionsFile (k : Kind) (type : Str) : Str :=
  match k with
  | .networks => if looseEq type "network" then "network.cfg" else ("network_" : Str) ++ type ++ (".cfg" : Str)
  | .services => ("service_" : Str) ++ type ++ (".cfg" : Str)
  | .timeevents => ("timeevent_" : Str) ++ type ++ (".cfg" : Str)

/-- The resource IDs of the last print go when the definitions change. -/
def unlinkPrint (k : Kind) (w : World) : World :=
  { w with obj := w.obj.erase (("iosh_definitions_" : Str) ++ k.name ++ ("_print.obj" : Str)) }

def definitionsSave (k : Kind) (type : Str) (data : Params) (w : World) : Option (Bool × World) :=
  if data.isEmpty then some (false,w)
  else (iniTokenSave env "definitions" (definitionsFile k type) data w).map fun r =>
    if r.1 = .ok then (true,unlinkPrint k r.2) else (false,r.2)

def definitionsUpdate (k : Kind) (type id : Str) (data : Params) (w : World) : Ret × World :=
  if data.isEmpty then (.fail,w)
  else
    let r := iniTokenUpdate env "definitions" (definitionsFile k type) id data w
    if r.1 = .ok then (.ok,unlinkPrint k r.2) else r

def definitionsDelete (k : Kind) (type id : Str) (w : World) : Ret × World :=
  iniTokenDelete pcre env "definitions" (definitionsFile k type) id w

end Definitions

namespace Interfaces

/-- The name of the interface that is found under an ID. -/
def ethName (id : Str) (w : World) : Str := (iniTokenGetByparam env "network" "eth.cfg" "ID" id ∅ w).1.2.val "NAME"

def dataOf (es : List (Str × Str)) : Params := OrdMap.empty.setAll es

/-- `if(!_ARRAY_NULL($_DATA) && _INI_TOKEN_UPDATE(..))`: a name that is taken passes too. -/
def write (fil id : Str) (data : Params) (w : World) : Bool × World :=
  if data.isEmpty then (false,w)
  else
    let u := iniTokenUpdate env "network" fil id data w
    (decide (u.1 ≠ .fail),u.2)

/-- Both the interfaces and the aliases have the value. -/
def takenInBoth (param value : Str) (w : World) : Bool × World :=
  let e := iniTokenCheck env "network" "eth.cfg" param value w
  if e.1 then (false,e.2)
  else
    let a := iniTokenCheck env "network" "additional.cfg" param value e.2
    (!a.1,a.2)

def takenInEither (param value : Str) (w : World) : Bool × World :=
  let e := iniTokenCheck env "network" "eth.cfg" param value w
  if !e.1 then (true,e.2)
  else
    let a := iniTokenCheck env "network" "additional.cfg" param value e.2
    (!a.1,a.2)

def changeTaken (param old value : Str) (w : World) : Bool × World :=
  if !null old && !looseEq value old then takenInBoth env param value w else (false,w)

/-- The interface a set command is about, when its type is right. -/
def interfaceOf (type id : Str) (w : World) : Option Params × World :=
  let g := iniTokenGetByparam env "network" "eth.cfg" "ID" id ∅ w
  (if g.1.2.isEmpty || (!null (g.1.2.val "TYPE") && !looseEq (g.1.2.val "TYPE") type) then none
    else some g.1.2,g.2)

def interfacesSetName (type id name : Str) (w : World) : Bool × World :=
  match interfaceOf env type id w with
  | (none,v) => (false,v)
  | (some p,v) =>
    let t := changeTaken env "NAME" (p.val "NAME") name v
    if t.1 then (false,t.2) else write env "eth.cfg" id (dataOf [("NAME",name)]) t.2

def interfacesSetStaticName := interfacesSetName env "static"

def interfacesSetVlanName := interfacesSetName env "vlan"

def interfacesSetDhcpName := interfacesSetName env "dhcp"

def interfacesSetPppoeName := interfacesSetName env "pppoe"

/-- What `_CHECK_IP` says of an address, and whether to go on with it: it does not answer,
or the user agrees. -/
structure Probe where
  valid : Bool
  goOn : Bool

def interfacesSetAddress (type id ip : Str) (a : Probe) (w : World) : Bool × World :=
  match interfaceOf env type id w with
  | (none,v) => (false,v)
  | (some p,v) =>
    if !a.valid then (false,v)
    else
      let t := changeTaken env "ADDR" (p.val "ADDR") ip v
      if t.1 || !a.goOn then (false,t.2) else write env "eth.cfg" id (dataOf [("ADDR",ip)]) t.2

/-- What the other set commands of an interface write. -/
def interfaceKeys : List Str := ["DEFAULT","GATEWAY","STAT","ARP","UPLINK","NAT","MTU","MASK","PREF",
  "INET","NOTE","TAG","USERNAME","PASSWORD","RETRY","RECONNECT"]

/-- The other set commands, with the parameters they come to. -/
def interfacesSet (type id : Str) (data : Params) (w : World) : Bool × World :=
  match interfaceOf env type id w with
  | (none,v) => (false,v)
  | (some _,v) => write env "eth.cfg" id data v

/-- An add command puts its parameters into the entry of a device. -/
def interfacesAdd (id name : Str) (ip : Option (Str × Probe)) (data : Params) (w : World) :
    Bool × World :=
  match ip with
  | none =>
    let t := takenInBoth env "NAME" name w
    if t.1 then (false,t.2) else write env "eth.cfg" id data t.2
  | some (ip,a) =>
    if !a.valid then (false,w)
    else
      let t := takenInBoth env "NAME" name w
      if t.1 then (false,t.2)
      else
        let u := takenInBoth env "ADDR" ip t.2
        if u.1 || !a.goOn then (false,u.2) else write env "eth.cfg" id data u.2

/-- The keys of the result of `_IPCALC::IP` are its own. -/
def interfacesAddStatic (id name ip note : Str) (a : Probe) (ipcalc : Params) :=
  interfacesAdd env id name (some (ip,a)) (dataOf [("NAME",name),("TYPE","static"),("STAT","0"),
    ("ADDR",ip),("MASK",ipcalc.val "netmask"),("PREF",ipcalc.val "prefix"),("BCAST",ipcalc.val "broadcast"),
    ("NETWORK",ipcalc.val "network"),("HOST_TOTAL",ipcalc.val "total"),("HOST_MIN",ipcalc.val "hostmin"),
    ("HOST_MAX",ipcalc.val "hostmx"),("HOST_TYPE",ipcalc.val "type"),("INET",ipcalc.val "inet"),
    ("MTU","1500"),("DEFAULT","0"),("GATEWAY",[]),("ARP","0"),("UPLINK","0"),("NAT","0"),
    ("NOTE",note)])

def interfacesAddVlan (id name tag ip note : Str) (a : Probe) (ipcalc : Params) :=
  interfacesAdd env id name (some (ip,a)) (dataOf [("NAME",name),("TYPE","vlan"),("TAG",tag),
    ("STAT","0"),("ADDR",ip),("MASK",ipcalc.val "netmask"),("PREF",ipcalc.val "prefix"),
    ("INET",ipcalc.val "inet"),("MTU","1500"),("DEFAULT","0"),("GATEWAY",[]),("UPLINK","0"),
    ("NAT","0"),("NOTE",note)])

def unaddressed (name type mtu note : Str) : Params := dataOf [("NAME",name),("TYPE",type),
  ("STAT","0"),("ADDR",[]),("MASK",[]),("PREF",[]),("BCAST",[]),("NETWORK",[]),("HOST_TOTAL",[]),
  ("HOST_MIN",[]),("HOST_MAX",[]),("HOST_TYPE",[]),("MTU",mtu),("DEFAULT","0"),("GATEWAY",[]),
  ("ARP","0"),("UPLINK","0"),("NAT","0"),("NOTE",note)]

def interfacesAddDhcp (id name note : Str) :=
  interfacesAdd env id name none (unaddressed name "dhcp" "1500" note)

def interfacesAddPppoe (id name note : Str) :=
  interfacesAdd env id name none ((unaddressed name "pppoe" "1492" note).setAll
    [("USERNAME",[]),("PASSWORD",[]),("RETRY","5"),("RECONNECT",[])])

/-- The table of `/var/sys/___nic_info` and of `/var/sys/___nic_hwaddr`. -/
def nicTable (info : Str) : Params :=
  (file info).foldl (fun m l =>
    let p := splitParam l
    if null p.1 || null p.2 then m else m.set p.1 p.2) ∅

/-- The loop over the entries whose device is in the table. -/
def updateNicEntries (key : Str) (t : Token) (r : Params × World) : Params × World :=
  t.entries.foldl (fun r e =>
    let dev := e.2.val "DEVICE"
    if null e.1 || null dev || null (r.1.val dev) then r
    else (r.1.erase dev,
      (iniTokenUpdate env "network" "eth.cfg" e.1 (e.2.set key (r.1.val dev)) r.2).2)) r

def updateNicDevice (info : Str) (w : World) : Option World :=
  if (file info).isEmpty then some w
  else
    let g := iniTokenGet env "network" "eth.cfg" ∅ w
    if g.1.isEmpty then some g.2
    else
      let r := updateNicEntries env "VENDOR" g.1 (nicTable info,g.2)
      r.1.entries.foldlM (fun w e => (iniTokenSave env "network" "eth.cfg"
        (dataOf [("DEVICE",e.1),("VENDOR",e.2),("STAT","0")]) w).map Prod.snd) r.2

def updateNicHwaddr (hwaddr : Str) (w : World) : World :=
  if (file hwaddr).isEmpty then w
  else
    let g := iniTokenGet env "network" "eth.cfg" ∅ w
    if g.1.isEmpty then g.2 else (updateNicEntries env "HWADDR" g.1 (nicTable hwaddr,g.2)).2

def interfacesDelete (id info hwaddr : Str) (w : World) : Option (Bool × World) :=
  let d := iniTokenDelete pcre env "network" "eth.cfg" id w
  if d.1 = .ok then (updateNicDevice env info d.2).map fun v => (true,updateNicHwaddr env hwaddr v)
  else some (false,d.2)

def addVip (id name ip note : Str) (a : Probe) (ipcalc : Params) (w : World) : Option (Bool × World) :=
  if !a.valid then some (false,w)
  else
    let t := takenInEither env "NAME" name w
    if t.1 then some (false,t.2)
    else
      let u := takenInEither env "ADDR" ip t.2
      if u.1 || !a.goOn then some (false,u.2)
      else
        let g := iniTokenGetByparam env "network" "eth.cfg" "ID" id ∅ u.2
        if null (g.1.2.val "NAME") then some (false,g.2)
        else (iniTokenSave env "network" "additional.cfg" (dataOf [("NAME",name),
          ("PNAME",g.1.2.val "NAME"),("STAT","1"),("ADDR",ip),("MASK",ipcalc.val "netmask"),
          ("PREF",ipcalc.val "prefix"),("INET",ipcalc.val "inet"),("NOTE",note)]) g.2).map fun r =>
            (decide (r.1 = .ok),r.2)

def vipOf (id : Str) (w : World) : Option Params × World :=
  let g := iniTokenGetByparam env "network" "additional.cfg" "ID" id ∅ w
  (if g.1.2.isEmpty then none else some g.1.2,g.2)

def setVipName (id name : Str) (w : World) : Bool × World :=
  match vipOf env id w with
  | (none,v) => (false,v)
  | (some p,v) =>
    let t := changeTaken env "NAME" (p.val "NAME") name v
    if t.1 then (false,t.2)
    else
      let u := write env "additional.cfg" id (dataOf [("NAME",name)]) t.2
      if u.1 && !null (p.val "NAME") then (true,iniTokenRemove pcre env (p.val "NAME") name u.2)
      else u

def setVipAddress (id ip : Str) (a : Probe) (w : World) : Bool × World :=
  match vipOf env id w with
  | (none,v) => (false,v)
  | (some p,v) =>
    if !a.valid then (false,v)
    else
      let t := changeTaken env "ADDR" (p.val "ADDR") ip v
      if t.1 || !a.goOn then (false,t.2)
      else write env "additional.cfg" id (dataOf [("ADDR",ip)]) t.2

/-- The resource ID of the parent is looked up in the print of the aliases. -/
def setVipPname (id parent : Str) (w : World) : Bool × World :=
  match vipOf env id w with
  | (none,v) => (false,v)
  | (some _,v) =>
    let g := iniTokenGetByparam env "network" "eth.cfg" "ID" parent ∅ v
    if null (g.1.2.val "NAME") then (false,g.2)
    else write env "additional.cfg" id (dataOf [("PNAME",g.1.2.val "NAME")]) g.2

def vipKeys : List Str := ["MASK","PREF","INET","NOTE","STAT"]

def setVip (id : Str) (data : Params) (w : World) : Bool × World :=
  match vipOf env id w with
  | (none,v) => (false,v)
  | (some _,v) => write env "additional.cfg" id data v

/-- One turn of the loop of `___CLI_INTERFACES_DELETE_VIP`. -/
def deleteVip (id : Str) (w : World) : Ret × World :=
  iniTokenDelete pcre env "network" "additional.cfg" id w

end Interfaces
end Mybox
