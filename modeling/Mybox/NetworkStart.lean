import Mybox.DerivedFields

/-! The start of the network on the devices: what each interface of the registry does to the addresses, and which
addresses are there when all of them have been started. -/
namespace Mybox
namespace Network

open Php RegistryFormat Registry References Definitions Interfaces

variable (v6 : Ipv6) (env : Env)

/-- An address, the device it is on and the label it was put on with. -/
structure Assigned where
  device : Str
  label : Str
  addr : Str
  deriving DecidableEq

abbrev Devices := List Assigned

/-- The commands that change links and addresses; each of them succeeds. -/
inductive Command
  | link (dev : Str) (up : Bool)
  | flush (dev : Str)
  | addrAdd (dev addr : Str)
  | ifconfig (dev label addr : Str)
  | ifconfigZero (dev : Str)
  | vconfigRem (dev : Str)
  | vconfigAdd (dev tag : Str)

/-- A link that goes down keeps its addresses; a device that is removed takes its own along, and a new one has
none. `ifconfig` replaces the address of its label. -/
def Command.exec : Command → Devices → Devices
  | .link _ _, n => n
  | .flush d, n => n.filter fun x => x.device ≠ d
  | .addrAdd d a, n => n ++ [⟨d,d,a⟩]
  | .ifconfig d l a, n => (n.filter fun x => ¬(x.device = d ∧ x.label = l)) ++ [⟨d,l,a⟩]
  | .ifconfigZero d, n => n.filter fun x => ¬(x.device = d ∧ x.label = d)
  | .vconfigRem d, n => n.filter fun x => x.device ≠ d
  | .vconfigAdd _ _, n => n

def execAll (cs : List Command) (n : Devices) : Devices := cs.foldl (fun n c => c.exec n) n

/-- The clients that are there, and the address each device is given. -/
structure Clients where
  dhcpcd : Bool
  pppoe : Bool
  lease : Str → Option Str

def lacks (ks : List Str) (p : Params) : Bool := ks.any fun k => null (p.val k)

def off (p : Params) : Bool := null (p.val "STAT") || looseZero (p.val "STAT")

/-- The additional address belongs to the interface. -/
def additional (name : Str) (p : Params) : Bool :=
  !off p && !lacks ["PNAME","ADDR","PREF","MASK"] p && looseEq (p.val "PNAME") name

def aliasLabel (dev id : Str) : Str := dev ++ ':' :: id

def startAdditional (name dev : Str) (aliases : Token) : List Command :=
  (aliases.entries.filter fun e => additional name e.2).map fun e =>
    .ifconfig dev (aliasLabel dev e.1) (e.2.val "ADDR")

def staticNeeds : List Str := ["DEVICE","ADDR","PREF","BCAST","NAME","MASK"]

def vlanNeeds : List Str := ["DEVICE","ADDR","PREF","BCAST","MASK","NAME","TAG"]

def vlanDevice (dev tag : Str) : Str := dev ++ '.' :: tag

def startStatic (s : World × Devices) (p : Params) : World × Devices :=
  if lacks staticNeeds p then s
  else
    let dev := p.val "DEVICE"
    let g := iniTokenGet env "network" "additional.cfg" ∅ s.1
    (g.2,execAll ([.link dev false,.link dev true,.flush dev,.addrAdd dev (p.val "ADDR")] ++
      startAdditional (p.val "NAME") dev g.1) s.2)

def startVlan (s : World × Devices) (p : Params) : World × Devices :=
  if lacks vlanNeeds p then s
  else
    let dev := p.val "DEVICE"
    let devvlan := vlanDevice dev (p.val "TAG")
    let g := iniTokenGet env "network" "additional.cfg" ∅ s.1
    (g.2,execAll ([.link dev false,.link dev true,.flush dev,.vconfigRem devvlan,.vconfigAdd dev (p.val "TAG"),
      .ifconfig devvlan devvlan (p.val "ADDR")] ++ startAdditional (p.val "NAME") devvlan g.1) s.2)

def dhcpStarts (c : Clients) (p : Params) : Bool := !lacks ["DEVICE"] p && c.dhcpcd && !off p

/-- `network_start_dhcp`, with the address the client gets. -/
def startDhcp (c : Clients) (s : World × Devices) (p : Params) : World × Devices :=
  if dhcpStarts c p then
    let dev := p.val "DEVICE"
    (s.1,execAll ([.link dev false,.link dev true,.flush dev] ++ (c.lease dev).toList.map (.addrAdd dev)) s.2)
  else s

def pppoeStarts (c : Clients) (p : Params) : Bool :=
  !lacks ["DEVICE"] p && c.pppoe && !off p && !lacks ["USERNAME","PASSWORD",dataId] p

/-- `network_start_pppoe`: `pppoe-connect` takes the address off the device before it dials. -/
def startPppoe (c : Clients) (s : World × Devices) (p : Params) : World × Devices :=
  if pppoeStarts c p then (s.1,execAll [.link (p.val "DEVICE") false,.ifconfigZero (p.val "DEVICE")] s.2) else s

/-- A turn of the loop of `network_start`. -/
def startEntry (c : Clients) (s : World × Devices) (e : Str × Params) : World × Devices :=
  if !startable e.2 then s
  else if looseEq (e.2.val "TYPE") "static" then
    let u := networkUpdateNetworkcfg v6 env e.1 e.2 s.1
    startStatic env (u.2,s.2) u.1
  else if looseEq (e.2.val "TYPE") "vlan" then
    let u := networkUpdateNetworkcfg v6 env e.1 e.2 s.1
    startVlan env (u.2,s.2) u.1
  else if looseEq (e.2.val "TYPE") "dhcp" then startDhcp c s e.2
  else if looseEq (e.2.val "TYPE") "pppoe" then startPppoe c s e.2
  else s

/-- What `network_start` reads of `eth.cfg`. -/
def readInterfaces (boot : Bool) (peers : List Str) (w : World) : Token × World :=
  iniTokenGet env "network" "eth.cfg" ∅ (unlinkPrints (if boot then w else peers.foldl (clearPppoe env) w))

/-- `network_start`; the devices are as they are when its loop begins. -/
def networkStart (c : Clients) (boot : Bool) (peers : List Str) (w : World) (n : Devices) : World × Devices :=
  let g := readInterfaces env boot peers w
  g.1.entries.foldl (startEntry v6 env c) (g.2,n)

def filled (p : Params) : Params :=
  if null (p.val "ADDR") || (null (p.val "PREF") && null (p.val "MASK")) then p else (fillNetwork v6 p).1

def isStatic (p : Params) : Bool := looseEq (p.val "TYPE") "static"

def isVlan (p : Params) : Bool := !isStatic p && looseEq (p.val "TYPE") "vlan"

def isDhcp (p : Params) : Bool := !isStatic p && !isVlan p && looseEq (p.val "TYPE") "dhcp"

def isPppoe (p : Params) : Bool := !isStatic p && !isVlan p && !isDhcp p && looseEq (p.val "TYPE") "pppoe"

/-- An enabled static or VLAN entry with complete fields. -/
def Brings (p : Params) : Prop := startable p = true ∧
  (isStatic p = true ∧ lacks staticNeeds (filled v6 p) = false ∨
    isVlan p = true ∧ lacks vlanNeeds (filled v6 p) = false)

instance (p : Params) : Decidable (Brings v6 p) := inferInstanceAs (Decidable (_ ∧ _))

def ownDevice (p : Params) : Str :=
  if isStatic p then p.val "DEVICE" else vlanDevice (p.val "DEVICE") (p.val "TAG")

/-- The address of the entry and its additional addresses are put on its own device, and all that was there goes,
as on the device below it. DHCP empties its device, and PPPoE takes off the address under the device's name. -/
def effect (c : Clients) (aliases : Token) (p : Params) : Effect Assigned where
  drops x := Brings v6 p ∧ (x.device = p.val "DEVICE" ∨ x.device = ownDevice p) ∨
    startable p = true ∧ isDhcp p = true ∧ dhcpStarts c p = true ∧ x.device = p.val "DEVICE" ∨
    startable p = true ∧ isPppoe p = true ∧ pppoeStarts c p = true ∧ x.device = p.val "DEVICE" ∧
      x.label = p.val "DEVICE"
  puts x := Brings v6 p ∧ (x = ⟨ownDevice p,ownDevice p,p.val "ADDR"⟩ ∨
      ∃ e ∈ aliases.entries, additional (p.val "NAME") e.2 = true ∧
        x = ⟨ownDevice p,aliasLabel (ownDevice p) e.1,e.2.val "ADDR"⟩) ∨
    startable p = true ∧ isDhcp p = true ∧ dhcpStarts c p = true ∧
      ∃ a ∈ c.lease (p.val "DEVICE"), x = ⟨p.val "DEVICE",p.val "DEVICE",a⟩

theorem execAll_append (cs ds : List Command) (n : Devices) : execAll (cs ++ ds) n = execAll ds (execAll cs n) :=
  List.foldl_append

theorem update_reg_ne {sec fil : Str} (id : Str) (data : Params) (w : World) {f : Str × Str} (h : (sec,fil) ≠ f) :
    (iniTokenUpdate env sec fil id data w).2.reg.get? f = w.reg.get? f := by
  unfold iniTokenUpdate
  dsimp only
  split
  · simp
  · split
    · simp
    · split
      · split <;> simp
      · unfold fileSave
        split <;> split <;> simp [iniObjectUpdate,OrdMap.get?_set_ne _ _ h]

/-- A static interface, an additional address of it, and a VLAN on another device. -/
def officeWorld : World := World.ofFiles [
  ("network","additional.cfg",textOf ["ID=a1","NAME=web","PNAME=lan","STAT=1","ADDR=192.168.1.9",
    "MASK=255.255.255.0","PREF=24"]),
  ("network","eth.cfg",textOf ["ID=eth0","NAME=lan","TYPE=static","STAT=1","DEVICE=eth0","ADDR=192.168.1.1",
    "MASK=255.255.255.0","PREF=24",[],"ID=eth1","NAME=lab","TYPE=vlan","STAT=1","DEVICE=eth1","TAG=5",
    "ADDR=10.0.0.1","MASK=255.0.0.0","PREF=8"])]

end Network
end Mybox
