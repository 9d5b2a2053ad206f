import Mybox.DnsCommands
import Mybox.HostRange

/-! The commands of the DHCP entries: the servers of the interfaces and the static mappings of addresses. -/
namespace Mybox
namespace DhcpCommands

open Php RegistryFormat Registry
open Interfaces (Ipv6 checkIp dataOf)
open Definitions (arg)
open DnsCommands (strOnoff checkDomainVar objAt)
open AdminAccess (checkMacaddr)
open Ipcalc (Ip2long chkHostrange chkInrange)

variable (conv : Ip2long) (wide : Bool) (v6 : Ipv6) (env : Env)

abbrev serverFile : Str := "dhcp_server.cfg"

abbrev staticFile : Str := "dhcp_static.cfg"

/-- `$_obj[$_no]`, when it is not null. -/
def numbered (obj : OrdMap ℕ Str) (no : Str) : Option Str := (objAt obj no).filter fun id => !null id

/-- `_INI_TOKEN_GET_BYPARAM` into an array that is not set yet. -/
def byparam (fil param value : Str) (w : World) : Params × World :=
  let r := iniTokenGetByparam env "network" fil param value ∅ w
  (r.1.2,r.2)

/-- `___CLI_DEFINITIONS_NETWORKS_ADD_INT`: the name of the interface with a number. -/
def networksAddInt (obj : OrdMap ℕ Str) (num : Str) (w : World) : Option Str × World :=
  if null num then (some [],w)
  else match numbered obj num with
  | none => (none,w)
  | some id =>
    let g := iniTokenGet env "network" "eth.cfg" ∅ w
    (some ((g.1.getD id ∅).val "NAME"),g.2)

/-- What is needed of the interface of a new server. -/
def serves (d : Params) : Bool :=
  !d.isEmpty && !null (d.val "TYPE") && !null (d.val "ADDR") && !null (d.val "HOST_MIN") && !null (d.val "HOST_MAX") &&
    (looseEq (d.val "TYPE") "vlan" || looseEq (d.val "TYPE") "static")

/-- The entry of a new server, all hosts of the network of its interface. -/
def newServer (name : Str) (d : Params) (args : List Str) : List (Str × Str) := [("DNAME",name),
  ("RANGE_START",d.val "HOST_MIN"),("RANGE_END",d.val "HOST_MAX"),("GATEWAY",d.val "ADDR"),("DNS1",d.val "ADDR"),
  ("DNS2",[]),("WINS_NODE","1"),("WINS_ADDR","0.0.0.0"),("STAT",strOnoff (arg args 1)),("NOTE",arg args 2)]

def serverAdd (obj : OrdMap ℕ Str) (args : List Str) (w : World) : Option (Ret × World) :=
  if args = [] then some (.fail,w)
  else
    let n := networksAddInt env obj (arg args 0) w
    match n.1 with
    | none => some (.fail,n.2)
    | some name =>
      let d := byparam env "eth.cfg" "NAME" name n.2
      if !serves d.1 then some (.fail,d.2)
      else iniTokenSave env "network" serverFile (dataOf (newServer name d.1 args)) d.2

/-- The range of a server that is set: its ends are hosts of the network of the interface. -/
def rangeData (sid start stop : Str) (w : World) : Option (List (Str × Str)) × World :=
  if !null start && !checkIp v6 start || !null stop && !checkIp v6 stop || !chkHostrange conv wide start stop then (none,w)
  else
    let data : List (Str × Str) := [("RANGE_START",start),("RANGE_END",stop)]
    let s := byparam env serverFile "ID" sid w
    if s.1.isEmpty || null (s.1.val "DNAME") then (some data,s.2)
    else
      let c := chkInrange conv wide env v6.is (s.1.val "DNAME") start s.2
      if !c.1 then (none,c.2)
      else
        let c' := chkInrange conv wide env v6.is (s.1.val "DNAME") stop c.2
        if !c'.1 then (none,c'.2) else (some data,c'.2)

def addressOrNone (ip : Str) : Bool := null ip || checkIp v6 ip

def serverData (sid : Str) (args : List Str) (w : World) : Option (List (Str × Str)) × World :=
  if looseEq (arg args 0) "dns" then
    (if addressOrNone v6 (arg args 2) && addressOrNone v6 (arg args 3) then
      some [("DNS1",arg args 2),("DNS2",arg args 3)] else none,w)
  else if looseEq (arg args 0) "range" then rangeData conv wide v6 env sid (arg args 2) (arg args 3) w
  else if looseEq (arg args 0) "gateway" then
    (if checkIp v6 (arg args 2) then some [("GATEWAY",arg args 2)] else none,w)
  else if looseEq (arg args 0) "domain" then
    (if checkDomainVar (arg args 2) then some [("DOMAIN",arg args 2)] else none,w)
  else if looseEq (arg args 0) "wins" then
    (if addressOrNone v6 (arg args 3) then some [("WINS_NODE",arg args 2),("WINS_ADDR",arg args 3)] else none,w)
  else if looseEq (arg args 0) "enable" then (some [("STAT",strOnoff (arg args 2))],w)
  else if looseEq (arg args 0) "description" then (some [("NOTE",arg args 2)],w)
  else (none,w)

def setData (fil sid : Str) (r : Option (List (Str × Str)) × World) : Ret × World :=
  match r.1 with
  | none => (.fail,r.2)
  | some es => iniTokenUpdate env "network" fil sid (dataOf es) r.2

def serverSet (obj : OrdMap ℕ Str) (args : List Str) (w : World) : Ret × World :=
  match numbered obj (arg args 1) with
  | none => (.fail,w)
  | some sid => setData env serverFile sid (serverData conv wide v6 env sid args w)

def ranged (d : Params) : Bool :=
  !d.isEmpty && !null (d.val "DNAME") && !null (d.val "RANGE_START") && !null (d.val "RANGE_END")

def mapped (d : Params) : Bool := !null (d.val "DNAME") && !null (d.val "IP") && !null (d.val "MAC")

def aboveStart (d : Params) (ip : Str) : Bool := chkHostrange conv wide (d.val "RANGE_START") ip

def belowEnd (d : Params) (ip : Str) : Bool := chkHostrange conv wide ip (d.val "RANGE_END")

def newMapping (dname : Str) (args : List Str) : List (Str × Str) := [("DNAME",dname),("IP",arg args 2),
  ("MAC",arg args 1),("STAT","1"),("NOTE",arg args 3)]

/-- `___CLI_DHCP_CONFIG_STATIC_ADD`: it turns an address down that is neither above the start nor below the end. -/
def staticAdd (obj : OrdMap ℕ Str) (args : List Str) (w : World) : Option (Ret × World) :=
  match numbered obj (arg args 0) with
  | none => some (.fail,w)
  | some sid =>
    if !checkIp v6 (arg args 2) || !checkMacaddr (arg args 1) then some (.fail,w)
    else
      let s := byparam env serverFile "ID" sid w
      if !ranged s.1 then some (.fail,s.2)
      else if !aboveStart conv wide s.1 (arg args 2) && !belowEnd conv wide s.1 (arg args 2) then some (.fail,s.2)
      else
        let c := iniTokenCheck env "network" staticFile "IP" (arg args 2) s.2
        if !c.1 then some (.fail,c.2)
        else iniTokenSave env "network" staticFile (dataOf (newMapping (s.1.val "DNAME") args)) c.2

/-- What a set command of a mapping writes; `d` is the server. -/
def staticData (d : Params) (param value : Str) : Option (List (Str × Str)) :=
  if looseEq param "ip" then
    if checkIp v6 value && aboveStart conv wide d value && belowEnd conv wide d value then some [("IP",value)] else none
  else if looseEq param "mac" then if checkMacaddr value then some [("MAC",value)] else none
  else if looseEq param "description" then some [("NOTE",value)]
  else none

def staticSet (obj : OrdMap ℕ Str) (args : List Str) (w : World) : Ret × World :=
  match numbered obj (arg args 1) with
  | none => (.fail,w)
  | some sid =>
    let m := byparam env staticFile "ID" sid w
    if m.1.isEmpty || !mapped m.1 then (.fail,m.2)
    else
      let s := byparam env serverFile "DNAME" (m.1.val "DNAME") m.2
      if !ranged s.1 then (.fail,s.2)
      else setData env staticFile sid (staticData conv wide v6 s.1 (arg args 0) (arg args 2),s.2)

end DhcpCommands
end Mybox
