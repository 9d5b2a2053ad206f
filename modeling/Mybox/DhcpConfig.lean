import Mybox.DhcpCommands
import Mybox.DnsZones

/-! The configuration of the DHCP server: a shared network for each server that is switched on, with the machines that
have an address of their own; and for which registries it has each of them once, where it belongs. -/
namespace Mybox
namespace DhcpConfig

open Php RegistryFormat Registry References DhcpCommands
open Interfaces (Ipv6 checkIp dataOf Quiet get_quiet byparam_quiet ipv4Only textOf)
open AdminAccess (checkMacaddr)
open DnsZones (off)

/-- A machine with an address of its own. -/
structure Host where
  key : Str
  mac : Str
  ip : Str
  dns : Str
  gateway : Str
  deriving DecidableEq

def Host.text (h : Host) : Str :=
  ("\thost HOST_" : Str) ++ h.key ++ (" \x7b\n\t\thardware ethernet " : Str) ++ h.mac ++ (";\n\t\tfixed-address " : Str) ++
    h.ip ++ (";\n\t\toption domain-name-servers " : Str) ++ h.dns ++ (";\n\t\toption routers " : Str) ++ h.gateway ++
    (";\n\t\x7d\n" : Str)

/-- The subnet of a server and its range. -/
structure Subnet where
  network : Str
  mask : Str
  start : Str
  stop : Str
  deriving DecidableEq

/-- A shared network with one subnet; an option that is empty is not written. -/
structure Shared where
  device : Str
  hosts : List Host
  subnet : Subnet
  bcast : Str
  dns : Str
  gateway : Str
  domain : Str
  wins : Str
  node : Str
  deriving DecidableEq

def Shared.text (s : Shared) : Str :=
  ("shared-network " : Str) ++ s.device ++ (" \x7b\n" : Str) ++
    (if s.hosts = [] then [] else s.hosts.flatMap Host.text ++ ['\n']) ++
    ("\tsubnet " : Str) ++ s.subnet.network ++ (" netmask " : Str) ++ s.subnet.mask ++
    (" \x7b\n\t\toption subnet-mask " : Str) ++ s.subnet.mask ++ (";\n\t\toption broadcast-address " : Str) ++ s.bcast ++
    (";\n\t\toption domain-name-servers " : Str) ++ s.dns ++ (";\n\t\toption routers " : Str) ++ s.gateway ++ (";\n" : Str) ++
    (if null s.domain then [] else ("\t\toption domain-name \"" : Str) ++ s.domain ++ ("\";\n" : Str)) ++
    ("\t\trange " : Str) ++ s.subnet.start ++ ' '::s.subnet.stop ++ (";\n" : Str) ++
    (if null s.wins then [] else ("\t\toption netbios-name-servers " : Str) ++ s.wins ++ (";\n" : Str)) ++
    (if looseOne s.node then [] else ("\t\toption netbios-node-type " : Str) ++ s.node ++ (";\n" : Str)) ++
    ("\t\x7d\n\x7d\n" : Str)

def options : Str := ["deny bootp;\n","allow booting;\n","deny declines;\n","max-lease-time 172800; # 2d\n",
  "default-lease-time 86400; # 1d\n","min-lease-time 600; # 5m\n","ddns-update-style ad-hoc;\n","local-port 67;\n",
  "ping-checks;\n","one-lease-per-client on;\n","authoritative;\n"].flatMap String.toList

def confText (conf : List Shared) : Option Str :=
  let shared := trim (conf.flatMap Shared.text)
  if null shared then none else some (options ++ shared ++ ['\n'])

variable (v6 : Ipv6) (pcre : Pcre) (env : Env) (keys : ℕ → Str)

/-- A mapping that is written; the others are deleted. -/
def valid (d : Params) : Bool := mapped d && checkIp v6 (d.val "IP") && checkMacaddr (d.val "MAC")

/-- One turn of the loop of `_dhcp_config_static`. -/
def staticTurn (dns gateway : Str) (drawn : ℕ) (r : List Host × World) (e : Str × Params) : List Host × World :=
  if valid v6 e.2 then (r.1 ++ [⟨keys (drawn + r.1.length),e.2.val "MAC",e.2.val "IP",dns,gateway⟩],r.2)
  else (r.1,(iniTokenDelete pcre env "network" staticFile e.1 r.2).2)

/-- `_dhcp_config_static`; so many keys have been drawn before. -/
def dhcpConfigStatic (dns gateway : Str) (drawn : ℕ) (w : World) : List Host × World :=
  let g := iniTokenGet env "network" staticFile ∅ w
  g.1.entries.foldl (staticTurn v6 pcre env keys dns gateway drawn) ([],g.2)

def complete (d : Params) : Bool := !null (d.val "DNAME") && !null (d.val "RANGE_START") && !null (d.val "RANGE_END")

def addressed (d : Params) : Bool :=
  !d.isEmpty && !null (d.val "DEVICE") && !null (d.val "ADDR") && !null (d.val "NETWORK") && !null (d.val "MASK") &&
    !null (d.val "BCAST")

def device (d : Params) : Str :=
  if looseEq (d.val "TYPE") "vlan" then d.val "DEVICE" ++ '.'::d.val "TAG" else d.val "DEVICE"

def gatewayOf (s d : Params) : Str := if null (s.val "GATEWAY") then d.val "ADDR" else s.val "GATEWAY"

def dnsOf (s d : Params) : Str :=
  (if null (s.val "DNS1") then d.val "ADDR" else s.val "DNS1") ++
    if null (s.val "DNS2") then [] else ','::s.val "DNS2"

def subnetOf (s d : Params) : Subnet := ⟨d.val "NETWORK",d.val "MASK",s.val "RANGE_START",s.val "RANGE_END"⟩

def sharedOf (s d : Params) (hosts : List Host) : Shared where
  device := device d
  hosts := hosts
  subnet := subnetOf s d
  bcast := d.val "BCAST"
  dns := dnsOf s d
  gateway := gatewayOf s d
  domain := s.val "DOMAIN"
  wins := if looseZero (s.val "WINS_NODE") then [] else s.val "WINS_ADDR"
  node := s.val "WINS_NODE"

/-- What is written so far, the keys that are drawn, and the interface, which stays when one is not complete. -/
structure Draft where
  shared : List Shared
  drawn : ℕ
  ntoken : Params
  world : World

/-- One turn of the loop of `dhcp_config`. -/
def serverTurn (a : Draft) (e : Str × Params) : Draft :=
  if !complete e.2 then { a with world := (iniTokenDelete pcre env "network" serverFile e.1 a.world).2 }
  else if off e.2 then a
  else
    let n := iniTokenGetByparam env "network" "eth.cfg" "NAME" (e.2.val "DNAME") a.ntoken a.world
    if !addressed n.1.2 then { a with ntoken := n.1.2, world := n.2 }
    else
      let h := dhcpConfigStatic v6 pcre env keys (dnsOf e.2 n.1.2) (gatewayOf e.2 n.1.2) a.drawn n.2
      ⟨a.shared ++ [sharedOf e.2 n.1.2 h.1],a.drawn + h.1.length,∅,h.2⟩

def dhcpConfig (w : World) : Draft :=
  let g := iniTokenGet env "network" serverFile ∅ w
  g.1.entries.foldl (serverTurn v6 pcre env keys) ⟨[],0,∅,g.2⟩

/-- The file `dhcp_config` writes; without it the server is not started. -/
def dhcpdConf (w : World) : Option Str := confText (dhcpConfig v6 pcre env keys w).shared

/-- The entry of the interface with a name, when all is there that a shared network needs. -/
def interfaceOf (w : World) (name : Str) : Option Params :=
  (((entries "network" "eth.cfg" w).entries.find? fun e => !null (e.2.val "NAME") && looseEq (e.2.val "NAME") name).map
    Prod.snd).filter addressed

def enabledServers (w : World) : List Params :=
  ((entries "network" serverFile w).entries.map Prod.snd).filter fun s => complete s && !off s

def validMappings (t : Token) : List Params := (t.entries.map Prod.snd).filter (valid v6)

def mappings (w : World) : List Params := validMappings v6 (entries "network" staticFile w)

/-- The servers that get a shared network, with their interfaces. -/
def shown (w : World) : List (Params × Params) :=
  (enabledServers w).filterMap fun s => (interfaceOf w (s.val "DNAME")).map fun d => (s,d)

/-- The machines of a configuration, with the devices of their shared networks. -/
def places (conf : List Shared) : List (Str × Str × Str) :=
  conf.flatMap fun s => s.hosts.map fun h => (s.device,h.mac,h.ip)

/-- The configuration has the subnet and the range of each enabled server once, and each enabled mapping once, in the
shared network of the interface of its own. -/
structure Exact (w : World) (conf : List Shared) : Prop where
  servers : ∀ s ∈ enabledServers w, ∃ d, interfaceOf w (s.val "DNAME") = some d ∧
    (conf.map Shared.subnet).count (subnetOf s d) = 1
  mappings : ∀ m ∈ mappings v6 w, off m = false → ∃ d, interfaceOf w (m.val "DNAME") = some d ∧
    (places conf).filter (fun p => p.2 = (m.val "MAC",m.val "IP")) = [(device d,m.val "MAC",m.val "IP")]

/-- Each enabled server has an interface with all that is needed, and a subnet or a range of its own; with an enabled
mapping there is one such server, on the interface of the mapping, and no other mapping of the same machine to the same
address. -/
structure Single (w : World) : Prop where
  interfaces : ∀ s ∈ enabledServers w, (interfaceOf w (s.val "DNAME")).isSome
  subnets : ((shown w).map fun x => subnetOf x.1 x.2).Nodup
  mappings : ∀ m ∈ mappings v6 w, off m = false → ∃ d, interfaceOf w (m.val "DNAME") = some d ∧
    (shown w).map (fun x => device x.2) = [device d] ∧
    ((mappings v6 w).map fun q => (q.val "MAC",q.val "IP")).count (m.val "MAC",m.val "IP") = 1

/-- The two files are written by the writers, and no entry that is deleted has a name that others could refer to. -/
structure WellFormed (w : World) : Prop where
  kept : KeptFiles [serverFile,staticFile] w
  servers : ∀ e ∈ (entries "network" serverFile w).entries, complete e.2 = false → e.2.val "NAME" = []
  statics : ∀ e ∈ (entries "network" staticFile w).entries, valid v6 e.2 = false → e.2.val "NAME" = []

structure Thinned (w u : World) : Prop where
  kept : KeptFiles [serverFile,staticFile] u
  eth : entries "network" "eth.cfg" u = entries "network" "eth.cfg" w
  subset : ∀ fil ∈ [serverFile,staticFile], (entries "network" fil u).entries ⊆ (entries "network" fil w).entries
  mappings : mappings v6 u = mappings v6 w

variable {v6}

theorem WellFormed.refl {w : World} (h : WellFormed v6 w) : Thinned v6 w w := ⟨h.kept,rfl,fun _ _ => fun _ h => h,rfl⟩

theorem Thinned.quiet {w u v : World} (h : Thinned v6 w u) (hq : Quiet u v) : Thinned v6 w v where
  kept := h.kept.quiet hq
  eth := (entries_congr _ _ hq.reg).trans h.eth
  subset fil hf := by
    rw [entries_congr "network" fil hq.reg]
    exact h.subset fil hf
  mappings := by
    rw [DhcpConfig.mappings,entries_congr "network" staticFile hq.reg]
    exact h.mappings

theorem validMappings_erase {t : Token} {id : Str} (h : ∀ q, t.get? id = some q → valid v6 q = false) :
    validMappings v6 (t.erase id) = validMappings v6 t := by
  have hf : ∀ es : List (Str × Params), (∀ e ∈ es, e.1 = id → valid v6 e.2 = false) →
      ((es.filter fun e => decide (e.1 ≠ id)).map Prod.snd).filter (valid v6) = (es.map Prod.snd).filter (valid v6) := by
    intro es
    induction es with
    | nil => exact fun _ => rfl
    | cons e es ih =>
      intro he
      have ih' := ih fun x hx => he x (List.mem_cons_of_mem e hx)
      by_cases hi : e.1 = id
      · have hv := he e (List.mem_cons_self ..) hi
        rw [List.filter_cons_of_neg (by simp [hi]),ih',List.map_cons,List.filter_cons_of_neg (by simp [hv])]
      · rw [List.filter_cons_of_pos (by simp [hi]),List.map_cons,List.map_cons,List.filter_cons,List.filter_cons,ih']
  exact hf t.entries fun e he hi => h e.2 (hi ▸ OrdMap.get?_eq_some.mpr he)

/-- Deleting an entry that nothing is written for. -/
theorem Thinned.delete {w u : World} (h : Thinned v6 w u) (hw : WellFormed v6 w) {fil id : Str} {q : Params}
    (hf : fil ∈ [serverFile,staticFile]) (hq : (id,q) ∈ (entries "network" fil w).entries)
    (hn : fil = serverFile ∧ complete q = false ∨ fil = staticFile ∧ valid v6 q = false) :
    Thinned v6 w (iniTokenDelete pcre env "network" fil id u).2 := by
  have hsame : ∀ r, (entries "network" fil u).get? id = some r → r = q := fun r hr =>
    Option.some.inj ((OrdMap.get?_eq_some.mpr (h.subset fil hf (OrdMap.get?_eq_some.mp hr))).symm.trans
      (OrdMap.get?_eq_some.mpr hq))
  have hname : nameOf "network" fil id u = [] := by
    unfold nameOf OrdMap.getD
    cases hg : (entries "network" fil u).get? id with
    | none => rfl
    | some r =>
      rw [hsame r hg]
      rcases hn with ⟨rfl,hc⟩ | ⟨rfl,hc⟩
      · exact hw.servers _ hq hc
      · exact hw.statics _ hq hc
  obtain ⟨hk,ho,he⟩ := h.kept.delete pcre env hf hname
  refine ⟨hk,?_,fun fil' hf' => ?_,?_⟩
  · rw [ho "eth.cfg" (by rcases hn with ⟨rfl,-⟩ | ⟨rfl,-⟩ <;> decide)]
    exact h.eth
  · by_cases hne : fil = fil'
    · rw [← hne]
      rcases he with he | he <;> rw [he]
      · exact h.subset fil hf
      · exact fun e hm => h.subset fil hf (List.mem_filter.mp hm).1
    · rw [ho fil' hne]
      exact h.subset fil' hf'
  · rw [← h.mappings,DhcpConfig.mappings,DhcpConfig.mappings]
    rcases hn with ⟨rfl,-⟩ | ⟨rfl,hc⟩
    · rw [ho staticFile (by decide)]
    · rcases he with he | he <;> rw [he]
      exact validMappings_erase fun r hr => by rw [hsame r hr]; exact hc

theorem staticLoop (dns gateway : Str) (drawn : ℕ) {w : World} (hw : WellFormed v6 w) {es : List (Str × Params)}
    (he : es ⊆ (entries "network" staticFile w).entries) {r : List Host × World} (hr : Thinned v6 w r.2) :
    Thinned v6 w (es.foldl (staticTurn v6 pcre env keys dns gateway drawn) r).2 ∧
      (es.foldl (staticTurn v6 pcre env keys dns gateway drawn) r).1.map (fun h => (h.mac,h.ip)) =
        r.1.map (fun h => (h.mac,h.ip)) ++
          ((es.map Prod.snd).filter (valid v6)).map fun m => (m.val "MAC",m.val "IP") := by
  induction es generalizing r with
  | nil => exact ⟨hr,by simp⟩
  | cons e es ih =>
    have he' : es ⊆ (entries "network" staticFile w).entries := fun x hx => he (List.mem_cons_of_mem e hx)
    rw [List.foldl_cons,staticTurn]
    by_cases hv : valid v6 e.2 = true
    · rw [if_pos hv]
      obtain ⟨ht,hm⟩ := ih he' (r:=(r.1 ++ [⟨keys (drawn + r.1.length),e.2.val "MAC",e.2.val "IP",dns,gateway⟩],r.2)) hr
      refine ⟨ht,hm.trans ?_⟩
      rw [List.map_cons,List.filter_cons_of_pos hv,List.map_cons,List.map_append,List.append_assoc]
      rfl
    · rw [if_neg hv]
      have hd := @Thinned.delete _ pcre env w r.2 hr hw staticFile e.1 e.2 (by decide) (he (List.mem_cons_self ..))
        (Or.inr ⟨rfl,Bool.not_eq_true _ ▸ hv⟩)
      obtain ⟨ht,hm⟩ := ih he' (r:=(r.1,(iniTokenDelete pcre env "network" staticFile e.1 r.2).2)) hd
      refine ⟨ht,hm.trans ?_⟩
      rw [List.map_cons,List.filter_cons_of_neg hv]

theorem dhcpConfigStatic_spec (dns gateway : Str) (drawn : ℕ) {w u : World} (hw : WellFormed v6 w) (hu : Thinned v6 w u) :
    Thinned v6 w (dhcpConfigStatic v6 pcre env keys dns gateway drawn u).2 ∧
      (dhcpConfigStatic v6 pcre env keys dns gateway drawn u).1.map (fun h => (h.mac,h.ip)) =
        (mappings v6 w).map fun m => (m.val "MAC",m.val "IP") := by
  unfold dhcpConfigStatic
  dsimp only
  rw [iniTokenGet_fst env _ _ (hu.kept.coherent staticFile)]
  have h := staticLoop pcre env keys dns gateway drawn hw (hu.subset staticFile (by decide))
    (r:=([],(iniTokenGet env "network" staticFile ∅ u).2)) (hu.quiet (get_quiet env staticFile u))
  refine ⟨h.1,h.2.trans ?_⟩
  rw [← hu.mappings]
  rfl

/-- What a shared network has of a server and its interface, and of the mappings. -/
structure Outline where
  device : Str
  subnet : Subnet
  hosts : List (Str × Str)

def Shared.outline (s : Shared) : Outline := ⟨s.device,s.subnet,s.hosts.map fun h => (h.mac,h.ip)⟩

def outlineOf (ms : List Params) (x : Params × Params) : Outline :=
  ⟨device x.2,subnetOf x.1 x.2,ms.map fun m => (m.val "MAC",m.val "IP")⟩

def shownOf (w : World) (s : Params) : List (Params × Params) :=
  if complete s && !off s then ((interfaceOf w (s.val "DNAME")).map fun d => (s,d)).toList else []

/-- The interface that is found for a server, when it is complete; what is left of the one before is not. -/
theorem ntoken_spec {w u : World} (hu : Thinned v6 w u) {ntoken : Params} (hn : addressed ntoken = false) (name : Str) :
    let n := iniTokenGetByparam env "network" "eth.cfg" "NAME" name ntoken u
    (addressed n.1.2 = true → interfaceOf w name = some n.1.2) ∧ (addressed n.1.2 = false → interfaceOf w name = none) := by
  unfold interfaceOf iniTokenGetByparam
  dsimp only
  rw [iniTokenGet_fst env _ _ (hu.kept.coherent "eth.cfg"),hu.eth,if_neg (by
    rw [show looseEq (Str.of "NAME") "ID" = false by decide]
    simp)]
  cases (entries "network" "eth.cfg" w).entries.find? fun e => !null (e.2.val "NAME") && looseEq (e.2.val "NAME") name with
  | none => simp [hn]
  | some e =>
    refine ⟨fun ha => ?_,fun ha => ?_⟩
    · exact Option.filter_eq_some_iff.mpr ⟨rfl,ha⟩
    · simp only [Option.map_some,Option.filter_some,ha]
      rfl

theorem serverTurn_spec {w : World} (hw : WellFormed v6 w) {a : Draft} {e : Str × Params}
    (he : e ∈ (entries "network" serverFile w).entries) (ha : Thinned v6 w a.world) (hn : addressed a.ntoken = false) :
    let b := serverTurn v6 pcre env keys a e
    Thinned v6 w b.world ∧ addressed b.ntoken = false ∧
      b.shared.map Shared.outline = a.shared.map Shared.outline ++ (shownOf w e.2).map (outlineOf (mappings v6 w)) := by
  unfold serverTurn shownOf
  cases hc : complete e.2 with
  | false => simpa using ⟨ha.delete pcre env hw (by decide) he (Or.inl ⟨rfl,hc⟩),hn⟩
  | true =>
    cases ho : off e.2 with
    | true => simpa using ⟨ha,hn⟩
    | false =>
      obtain ⟨hs,hs'⟩ := ntoken_spec env ha hn (e.2.val "DNAME")
      have hq : Quiet a.world (iniTokenGetByparam env "network" "eth.cfg" "NAME" (e.2.val "DNAME") a.ntoken a.world).2 :=
        byparam_quiet env _ _ _ _ _
      generalize iniTokenGetByparam env "network" "eth.cfg" "NAME" (e.2.val "DNAME") a.ntoken a.world = n at *
      dsimp only at hs hs' ⊢
      cases hd : addressed n.1.2 with
      | false =>
        rw [hs' hd]
        simpa using ⟨ha.quiet hq,hd⟩
      | true =>
        obtain ⟨ht,hm⟩ := dhcpConfigStatic_spec pcre env keys (dnsOf e.2 n.1.2) (gatewayOf e.2 n.1.2) a.drawn hw
          (ha.quiet hq)
        rw [hs hd]
        refine ⟨ht,rfl,?_⟩
        simp only [Bool.not_true,Bool.false_eq_true,if_false,Bool.not_false,Bool.and_self,if_true,List.map_append,
          List.map_cons,List.map_nil,Option.map_some,Option.toList_some]
        rw [Shared.outline,outlineOf,← hm]
        rfl

/-- The shared networks that are written, one after the other. -/
theorem dhcpConfig_outline {w : World} (hw : WellFormed v6 w) :
    (dhcpConfig v6 pcre env keys w).shared.map Shared.outline = (shown w).map (outlineOf (mappings v6 w)) := by
  have loop : ∀ (es : List (Str × Params)) (a : Draft), es ⊆ (entries "network" serverFile w).entries →
      Thinned v6 w a.world → addressed a.ntoken = false →
      (es.foldl (serverTurn v6 pcre env keys) a).shared.map Shared.outline =
        a.shared.map Shared.outline ++ (es.flatMap fun e => shownOf w e.2).map (outlineOf (mappings v6 w)) := by
    intro es
    induction es with
    | nil => simp
    | cons e es ih =>
      intro a he ha hn
      obtain ⟨h₁,h₂,h₃⟩ := serverTurn_spec pcre env keys hw (he (List.mem_cons_self ..)) ha hn
      rw [List.foldl_cons,ih _ (fun x hx => he (List.mem_cons_of_mem e hx)) h₁ h₂,h₃,List.flatMap_cons,List.map_append,
        List.append_assoc]
  have hshown : ∀ es : List (Str × Params), (es.flatMap fun e => shownOf w e.2) =
      ((es.map Prod.snd).filter fun s => complete s && !off s).filterMap fun s =>
        (interfaceOf w (s.val "DNAME")).map fun d => (s,d) := by
    intro es
    induction es with
    | nil => rfl
    | cons e es ih =>
      rw [List.flatMap_cons,ih,List.map_cons,List.filter_cons,shownOf]
      split
      · rw [List.filterMap_cons]
        cases interfaceOf w (e.2.val "DNAME") <;> rfl
      · rfl
  unfold dhcpConfig
  dsimp only
  rw [iniTokenGet_fst env _ _ (hw.kept.coherent serverFile),loop _ _ (fun _ h => h)
    (hw.refl.quiet (get_quiet env serverFile w)) rfl,hshown]
  rfl

theorem Shared.mem_text (s : Shared) : 's' ∈ s.text := by
  have hm : 's' ∈ ("shared-network " : Str) := by decide
  unfold Shared.text
  simp only [List.mem_append,hm,true_or]

theorem dhcpdConf_isSome {w : World} (hw : WellFormed v6 w) :
    (dhcpdConf v6 pcre env keys w).isSome ↔ shown w ≠ [] := by
  have hlen := congrArg List.length (dhcpConfig_outline pcre env keys hw)
  rw [List.length_map,List.length_map] at hlen
  unfold dhcpdConf confText
  generalize (dhcpConfig v6 pcre env keys w).shared = conf at hlen
  cases conf with
  | nil => simp [List.eq_nil_of_length_eq_zero hlen.symm]
  | cons a conf =>
    have hne : trim ((a::conf).flatMap Shared.text) ≠ [] := by
      intro ht
      have hb := trim_eq_nil.mp ht 's' (List.mem_flatMap.mpr ⟨a,List.mem_cons_self ..,a.mem_text⟩)
      exact absurd hb (by decide)
    have hs : shown w ≠ [] := by
      rintro he
      rw [he] at hlen
      simp at hlen
    simp only [null_false_iff.mpr hne]
    simpa using hs

theorem subnets_outline (conf : List Shared) : conf.map Shared.subnet = (conf.map Shared.outline).map Outline.subnet := by
  rw [List.map_map]
  rfl

theorem places_outline (conf : List Shared) : places conf =
    (conf.map Shared.outline).flatMap fun o => o.hosts.map fun h => (o.device,h) := by
  rw [List.flatMap_map]
  simp only [Shared.outline,List.map_map]
  rfl

/-- Machines that stand in several networks: one of them stands in one place when there is one network, and the machine
stands in it once. -/
theorem places_once {δ η : Type} [DecidableEq η] [BEq η] [LawfulBEq η] {ds : List δ} {hs : List η} {d : δ} {h : η} (hm : h ∈ hs) :
    (ds.flatMap fun x => hs.map fun y => (x,y)).filter (fun p => p.2 = h) = [(d,h)] ↔ ds = [d] ∧ hs.count h = 1 := by
  have hone : ∀ x : δ, (hs.map fun y => (x,y)).filter (fun p => p.2 = h) = List.replicate (hs.count h) (x,h) := by
    intro x
    rw [List.filter_map,show ((fun p : δ × η => decide (p.2 = h)) ∘ fun y => (x,y)) = fun y => y == h by
      funext y
      exact (beq_eq_decide y h).symm,List.filter_beq,List.map_replicate]
  have hpos : 0 < hs.count h := List.count_pos_iff.mpr hm
  rw [List.filter_flatMap]
  simp only [hone]
  constructor
  · intro he
    have hlen := congrArg List.length he
    rw [List.length_flatMap] at hlen
    simp only [List.length_replicate,List.map_const',List.sum_replicate_nat,List.length_singleton] at hlen
    have hcount := Nat.eq_one_of_mul_eq_one_left hlen
    obtain ⟨x,rfl⟩ := List.length_eq_one_iff.mp (Nat.eq_one_of_mul_eq_one_right hlen)
    rw [List.flatMap_singleton,hcount] at he
    obtain ⟨hx,-⟩ := Prod.mk.inj (List.cons.inj he).1
    exact ⟨by rw [hx],hcount⟩
  · rintro ⟨rfl,hc⟩
    rw [List.flatMap_singleton,hc]
    rfl

theorem mem_shown {w : World} {x : Params × Params} : x ∈ shown w ↔
    x.1 ∈ enabledServers w ∧ interfaceOf w (x.1.val "DNAME") = some x.2 := by
  obtain ⟨s,d⟩ := x
  simp only [shown,List.mem_filterMap,Option.map_eq_some_iff,Prod.mk.injEq]
  constructor
  · rintro ⟨s',hs,d',hd,rfl,rfl⟩
    exact ⟨hs,hd⟩
  · rintro ⟨hs,hd⟩
    exact ⟨s,hs,d,hd,rfl,rfl⟩

theorem servers_iff (w : World) : (∀ s ∈ enabledServers w, ∃ d, interfaceOf w (s.val "DNAME") = some d ∧
      ((shown w).map fun x => subnetOf x.1 x.2).count (subnetOf s d) = 1) ↔
    (∀ s ∈ enabledServers w, (interfaceOf w (s.val "DNAME")).isSome) ∧
      ((shown w).map fun x => subnetOf x.1 x.2).Nodup := by
  rw [List.nodup_iff_count_eq_one]
  constructor
  · intro h
    refine ⟨fun s hs => ?_,fun a ha => ?_⟩
    · obtain ⟨d,hd,-⟩ := h s hs
      rw [hd]
      rfl
    · obtain ⟨x,hx,rfl⟩ := List.mem_map.mp ha
      obtain ⟨hs,hi⟩ := mem_shown.mp hx
      obtain ⟨d,hd,hc⟩ := h x.1 hs
      obtain rfl := Option.some.inj (hd.symm.trans hi)
      exact hc
  · rintro ⟨hi,hn⟩ s hs
    obtain ⟨d,hd⟩ := Option.isSome_iff_exists.mp (hi s hs)
    exact ⟨d,hd,hn _ (List.mem_map.mpr ⟨(s,d),mem_shown.mpr ⟨hs,hd⟩,rfl⟩)⟩

/-- The configuration is exact exactly when every enabled server can be written apart from the others, and mappings are
for the one server there is. -/
theorem config_exact_iff {w : World} (hw : WellFormed v6 w) :
    Exact v6 w (dhcpConfig v6 pcre env keys w).shared ↔ Single v6 w := by
  have hsub : (dhcpConfig v6 pcre env keys w).shared.map Shared.subnet = (shown w).map fun x => subnetOf x.1 x.2 := by
    rw [subnets_outline,dhcpConfig_outline pcre env keys hw,List.map_map]
    rfl
  have hplace : places (dhcpConfig v6 pcre env keys w).shared = ((shown w).map fun x => device x.2).flatMap fun d =>
      ((mappings v6 w).map fun q => (q.val "MAC",q.val "IP")).map fun h => (d,h) := by
    rw [places_outline,dhcpConfig_outline pcre env keys hw,List.flatMap_map,List.flatMap_map]
    rfl
  have hmap : ∀ m ∈ mappings v6 w, ∀ d, (places (dhcpConfig v6 pcre env keys w).shared).filter
      (fun p => p.2 = (m.val "MAC",m.val "IP")) = [(d,m.val "MAC",m.val "IP")] ↔
      (shown w).map (fun x => device x.2) = [d] ∧
        ((mappings v6 w).map fun q => (q.val "MAC",q.val "IP")).count (m.val "MAC",m.val "IP") = 1 := fun m hm d => by
    rw [hplace]
    exact places_once (List.mem_map.mpr ⟨m,hm,rfl⟩)
  constructor
  · rintro ⟨hs,hm⟩
    rw [hsub,servers_iff] at hs
    refine ⟨hs.1,hs.2,fun m hmem hon => ?_⟩
    obtain ⟨d,hd,hf⟩ := hm m hmem hon
    exact ⟨d,hd,(hmap m hmem _).mp hf⟩
  · rintro ⟨hi,hn,hm⟩
    refine ⟨?_,fun m hmem hon => ?_⟩
    · rw [hsub,servers_iff]
      exact ⟨hi,hn⟩
    · obtain ⟨d,hd,hf⟩ := hm m hmem hon
      exact ⟨d,hd,(hmap m hmem _).mpr hf⟩

/-- An office with two networks, and a printer in one of them. -/
def officeEth : Str := textOf ["ID=eth0","NAME=lan","TYPE=static","DEVICE=eth0","ADDR=192.168.1.1","NETWORK=192.168.1.0",
  "MASK=255.255.255.0","BCAST=192.168.1.255",[],"ID=eth1","NAME=lab","TYPE=static","DEVICE=eth1","ADDR=10.0.0.1",
  "NETWORK=10.0.0.0","MASK=255.0.0.0","BCAST=10.255.255.255"]

def lanServer : List Str := ["ID=s1","DNAME=lan","RANGE_START=192.168.1.10","RANGE_END=192.168.1.19","STAT=1"]

def labServer : List Str := [[],"ID=s2","DNAME=lab","RANGE_START=10.0.0.10","RANGE_END=10.0.0.19","STAT=1"]

def officeWorld (servers : List Str) : World := World.ofFiles [("network","eth.cfg",officeEth),
  ("network",serverFile,textOf servers),
  ("network",staticFile,textOf ["ID=m1","DNAME=lan","IP=192.168.1.12","MAC=00:11:22:33:44:55","STAT=1"])]

theorem officeWorld_read : ((∀ fil ∈ [serverFile,staticFile], Plain (text "network" fil (officeWorld lanServer))) ∧
      (∀ fil ∈ [serverFile,staticFile], LineEnded (text "network" fil (officeWorld lanServer))) ∧
      (∀ e ∈ (entries "network" serverFile (officeWorld lanServer)).entries, complete e.2 = false → e.2.val "NAME" = []) ∧
      ∀ e ∈ (entries "network" staticFile (officeWorld lanServer)).entries,
        valid ipv4Only e.2 = false → e.2.val "NAME" = []) ∧
    (∀ s ∈ enabledServers (officeWorld lanServer), (interfaceOf (officeWorld lanServer) (s.val "DNAME")).isSome) ∧
    ((shown (officeWorld lanServer)).map fun x => subnetOf x.1 x.2).Nodup ∧
    ∀ m ∈ mappings ipv4Only (officeWorld lanServer), off m = false →
      ∃ d ∈ interfaceOf (officeWorld lanServer) (m.val "DNAME"),
        (shown (officeWorld lanServer)).map (fun x => device x.2) = [device d] ∧
        ((mappings ipv4Only (officeWorld lanServer)).map fun q => (q.val "MAC",q.val "IP")).count
          (m.val "MAC",m.val "IP") = 1 := by
  decide +kernel

/-- One server and its printer. -/
theorem exact_lan : Exact ipv4Only (officeWorld lanServer)
    (dhcpConfig ipv4Only .plain noonEnv (fun _ => []) (officeWorld lanServer)).shared := by
  obtain ⟨⟨hp,hl,hse,hst⟩,hd,hn,hm⟩ := officeWorld_read
  have hw : WellFormed ipv4Only (officeWorld lanServer) := ⟨⟨hp,hl,fun _ _ _ => Or.inl rfl⟩,hse,hst⟩
  refine (config_exact_iff .plain noonEnv (fun _ => []) hw).mpr ⟨hd,hn,fun m hmem hon => ?_⟩
  obtain ⟨d,hd,hs⟩ := hm m hmem hon
  exact ⟨d,hd,hs⟩

theorem twoServers_read :
    ((∀ fil ∈ [serverFile,staticFile], Plain (text "network" fil (officeWorld (lanServer ++ labServer)))) ∧
      (∀ fil ∈ [serverFile,staticFile], LineEnded (text "network" fil (officeWorld (lanServer ++ labServer)))) ∧
      (∀ e ∈ (entries "network" serverFile (officeWorld (lanServer ++ labServer))).entries,
        complete e.2 = false → e.2.val "NAME" = []) ∧
      ∀ e ∈ (entries "network" staticFile (officeWorld (lanServer ++ labServer))).entries,
        valid ipv4Only e.2 = false → e.2.val "NAME" = []) ∧
    ∃ m ∈ mappings ipv4Only (officeWorld (lanServer ++ labServer)), off m = false ∧
      ((places (dhcpConfig ipv4Only .plain noonEnv (fun _ => []) (officeWorld (lanServer ++ labServer))).shared).filter
        fun p => p.2 = (m.val "MAC",m.val "IP")).length = 2 := by
  decide +kernel

theorem printer_twice : ¬∀ (v6 : Ipv6) (pcre : Pcre) (env : Env) (keys : ℕ → Str) (w : World), WellFormed v6 w →
    Exact v6 w (dhcpConfig v6 pcre env keys w).shared := by
  intro h
  obtain ⟨⟨hp,hl,hse,hst⟩,m,hm,hon,hl'⟩ := twoServers_read
  have hw : WellFormed ipv4Only (officeWorld (lanServer ++ labServer)) := ⟨⟨hp,hl,fun _ _ _ => Or.inl rfl⟩,hse,hst⟩
  obtain ⟨d,-,hf⟩ := (h ipv4Only .plain noonEnv (fun _ => []) _ hw).mappings m hm hon
  rw [hf] at hl'
  simp at hl'

end DhcpConfig
end Mybox
