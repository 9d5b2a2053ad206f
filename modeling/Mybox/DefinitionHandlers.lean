import Mybox.AdminAccess
import Mybox.ObjectForms

/-! The handlers that make definitions: the add commands of the CLI and the save of the definitions page build the
parameters of an object type by type, each in its own way. -/
namespace Mybox

open Php RegistryFormat Registry References

namespace Php

def upper (s : Str) : Str := s.map Char.toUpper

def isNum (s : Str) : Bool := !null s && s.all digit

end Php
namespace Definitions

open Interfaces (Ipv6 dataOf checkIp)

variable (v6 : Ipv6) (pcre : Pcre) (env : Env)

inductive NetworkType
  | host
  | dnshost
  | hostrange
  | hostmac
  | network
  | group
  deriving DecidableEq

inductive ServiceType
  | tcp
  | udp
  | tcpudp
  | ip
  | icmp
  | esp
  | ah
  | group
  deriving DecidableEq

inductive TimeeventType
  | recurring
  | single
  deriving DecidableEq

inductive ObjectType
  | networks (t : NetworkType)
  | services (t : ServiceType)
  | timeevents (t : TimeeventType)
  deriving DecidableEq

def NetworkType.name : NetworkType → Str
  | host => "host"
  | dnshost => "dnshost"
  | hostrange => "hostrange"
  | hostmac => "hostmac"
  | network => "network"
  | group => "group"

def ServiceType.name : ServiceType → Str
  | tcp => "tcp"
  | udp => "udp"
  | tcpudp => "tcpudp"
  | ip => "ip"
  | icmp => "icmp"
  | esp => "esp"
  | ah => "ah"
  | group => "group"

def TimeeventType.name : TimeeventType → Str
  | recurring => "recurring"
  | single => "single"

def ObjectType.kind : ObjectType → Kind
  | networks _ => .networks
  | services _ => .services
  | timeevents _ => .timeevents

def ObjectType.name : ObjectType → Str
  | networks t => t.name
  | services t => t.name
  | timeevents t => t.name

/-- What the handlers find outside the registry: the addresses of a host name, what the resource IDs of the last
listings stand for, and what `ip2long` makes of a text. No listing, no names. -/
structure Outside where
  gethostbynamel : Str → List Str
  interfaceName : Str → Option Str
  icmptype : Str → Option Str
  objGetName : Kind → Option (Str → Str)
  ip2long : Str → Option ℤ
  host_line : ∀ n, ∀ a ∈ gethostbynamel n, '\n' ∉ a
  interface_line : ∀ n s, interfaceName n = some s → '\n' ∉ s
  icmp_line : ∀ n s, icmptype n = some s → '\n' ∉ s
  names_line : ∀ k f n, objGetName k = some f → '\n' ∉ f n

variable (o : Outside)

def definitionsDnshostResolve (host : Str) : Str :=
  let ret := ((o.gethostbynamel host).flatMap fun j => j ++ [',']).rdropWhile (· = ',')
  if null ret then unresolved else ret

def arg (args : List Str) (i : ℕ) : Str := args.getD i []

/-- The `$_val` of the interface with a resource ID, when it is available. -/
def networksAddInt (num : Str) : Option Str := if null num then some [] else o.interfaceName num

def dname (val : Option Str) : List (Str × Str) := val.toList.map fun v => ("DNAME",v)

/-- The INET of an address, or of the two ends of a range. -/
def inetOf (start stop : Str) : List (Str × Str) :=
  if SshLog.isIpv4 start && SshLog.isIpv4 stop then [("INET","4")]
  else if v6.is start && v6.is stop then [("INET","6")]
  else []

/-- The names the resource IDs of a group stand for. -/
def members (k : Kind) (options : Str) : Str := ((o.objGetName k).map fun f => f options).getD []

/-- The data of a network, and whether its values are accepted. -/
def addNetwork (args : List Str) : NetworkType → Bool × List (Str × Str)
  | .host => (checkIp v6 (arg args 2),("NAME",arg args 1)::("ADDR",arg args 2)::("NOTE",arg args 3)::
      (dname (networksAddInt o (arg args 4)) ++ inetOf v6 (arg args 2) (arg args 2)))
  | .dnshost => (true,("NAME",arg args 1)::("HOSTNAME",arg args 2)::
      ("ADDR",definitionsDnshostResolve o (arg args 2))::("NOTE",arg args 3)::
      dname (networksAddInt o (arg args 4)))
  | .hostrange =>
    let list := split '-' (arg args 2)
    (Sessions.chkHostrange o.ip2long (list.getD 0 []) (list.getD 1 []),("NAME",arg args 1)::("ADDR",arg args 2)::
      ("NOTE",arg args 3)::(dname (networksAddInt o (arg args 4)) ++ inetOf v6 (list.getD 0 []) (list.getD 1 [])))
  | .hostmac => (AdminAccess.checkMacaddr (arg args 2),("NAME",arg args 1)::("ADDR",arg args 2)::
      ("NOTE",arg args 3)::dname (networksAddInt o (arg args 4)))
  | .network =>
    let result := Ipcalc.ip v6.is (arg args 2) (arg args 3)
    (true,("NAME",arg args 1)::("ADDR",arg args 2)::("MASK",result.val "netmask")::("PREF",result.val "prefix")::
      ("INET",result.val "inet")::("NOTE",arg args 4)::dname (networksAddInt o (arg args 5)))
  | .group => ((o.objGetName .networks).isSome,[("NAME",arg args 1),("NOTE",arg args 3),
      ("ADDR",members o .networks (arg args 2))])

/-- The `$_val` of the ICMP type with a resource ID, when it is available. -/
def servicesAddIcmp (num : Str) : Option Str := if null num || !isNum num then some [] else o.icmptype num

/-- The branch of `tcp`, `udp` and `tcpudp`. -/
def addPorts (args : List Str) (proto : Str) : List (Str × Str) :=
  [("NAME",arg args 1),("PROTO",upper proto),("SPORT",arg args 2),("DPORT",arg args 3),("NOTE",arg args 4)]

/-- The branch of `esp` and `ah`. -/
def addSpi (args : List Str) (option : Str) : List (Str × Str) :=
  [("NAME",arg args 1),("PROTO",upper option),("SPI",arg args 2),("NOTE",arg args 3)]

def addService (args : List Str) : ServiceType → Bool × List (Str × Str)
  | .tcp => (true,addPorts args "tcp")
  | .udp => (true,addPorts args "udp")
  | .tcpudp => (true,addPorts args "tcp/udp")
  -- `$_proto` is only assigned in the branch of the ports
  | .ip => (true,[("NAME",arg args 1),("PROTO",upper []),("NUM",arg args 2),("NOTE",arg args 3)])
  | .icmp => (true,[("NAME",arg args 1),("PROTO",upper "icmp"),("CODE",(servicesAddIcmp o (arg args 2)).getD []),
      ("NOTE",arg args 3)])
  | .esp => (true,addSpi args "esp")
  | .ah => (true,addSpi args "ah")
  | .group => ((o.objGetName .services).isSome,[("NAME",arg args 1),("NOTE",arg args 3),
      ("SERVICE",members o .services (arg args 2))])

def addTimeevent (args : List Str) : TimeeventType → List (Str × Str)
  | .recurring => [("NAME",arg args 1),("STIME",arg args 2),("ETIME",arg args 3),("WDAYS",arg args 4),
      ("NOTE",arg args 5)]
  | .single => [("NAME",arg args 1),("SDATE",arg args 2),("EDATE",arg args 3),("STIME",arg args 4),
      ("ETIME",arg args 5),("NOTE",arg args 6)]

def addObject (args : List Str) : ObjectType → Bool × List (Str × Str)
  | .networks t => addNetwork v6 o args t
  | .services t => addService o args t
  | .timeevents t => (true,addTimeevent args t)

/-- The listing that goes, because it does not have the resource ID of an interface or of an ICMP type. -/
def staleListing (args : List Str) : ObjectType → Option Str
  | .networks .group => none
  | .networks t => if (networksAddInt o (arg args (if t = .network then 5 else 4))).isNone then
      some "iosh_definitions_networks_interface.obj" else none
  | .services .icmp => if (servicesAddIcmp o (arg args 2)).isNone then some "iosh_definitions_icmptype.obj" else none
  | _ => none

def unlinkAll (fs : Option Str) (w : World) : World := { w with obj := fs.elim w.obj w.obj.erase }

/-- `___CLI_DEFINITIONS_NETWORKS_ADD`, `_SERVICES_ADD` and `_TIMEEVENT_ADD`. -/
def cliDefinitionsAdd (t : ObjectType) (args : List Str) (w : World) : Option (Bool × World) :=
  if !(addObject v6 o args t).1 then
    -- a group without a listing
    some (false,if t = .networks .group || t = .services .group then unlinkPrint t.kind w else w)
  else definitionsSave env t.kind t.name (dataOf (addObject v6 o args t).2) (unlinkAll (staleListing o args t) w)

def joined (post : Params) (a : Str) (c : Char) (b : Str) : Str := post.val a ++ c :: post.val b

/-- The data of a network, and whether its values are accepted. -/
def pageNetwork (post : Params) : NetworkType → Bool × List (Str × Str)
  | .host => (checkIp v6 (post.val "address"),("NAME",post.val "name")::("ADDR",post.val "address")::
      ("DNAME",post.val "interface")::("NOTE",post.val "note")::
      inetOf v6 (post.val "address") (post.val "address"))
  | .dnshost => (true,[("NAME",post.val "name"),("HOSTNAME",post.val "hostname"),
      ("ADDR",definitionsDnshostResolve o (post.val "hostname")),("DNAME",post.val "interface"),
      ("NOTE",post.val "note")])
  | .hostrange => (Sessions.chkHostrange o.ip2long (post.val "hrange1") (post.val "hrange2"),[("NAME",post.val "name"),
      ("ADDR",joined post "hrange1" '-' "hrange2"),("DNAME",post.val "interface"),("NOTE",post.val "note")])
  | .network =>
    let result := Ipcalc.ip v6.is (post.val "address") (post.val "netmask")
    -- INET is assigned twice, and keeps the place of the first
    (checkIp v6 (post.val "address"),[("NAME",post.val "name"),("ADDR",post.val "address"),
      ("MASK",result.val "netmask"),("DNAME",post.val "interface"),("NOTE",post.val "note"),
      ("INET",result.val "inet"),("PREF",result.val "prefix")])
  | .hostmac => (AdminAccess.checkMacaddr (post.val "macaddr"),[("NAME",post.val "name"),
      ("ADDR",post.val "macaddr"),("DNAME",post.val "interface"),("NOTE",post.val "note")])
  | .group => (true,[("NAME",post.val "name"),("ADDR",post.val "address"),("NOTE",post.val "note")])

/-- The branch of `tcp`, `udp` and `tcpudp`. -/
def pagePorts (post : Params) (t : ServiceType) : List (Str × Str) :=
  [("NAME",post.val "name"),("PROTO",upper t.name),("DPORT",post.val "dport"),("SPORT",post.val "sport"),
    ("NOTE",post.val "note")]

/-- The branch of `esp` and `ah`. -/
def pageSpi (post : Params) (t : ServiceType) : List (Str × Str) :=
  [("NAME",post.val "name"),("PROTO",upper t.name),("SPI",post.val "spi"),("NOTE",post.val "note")]

def pageService (post : Params) : ServiceType → List (Str × Str)
  | .tcp => pagePorts post .tcp
  | .udp => pagePorts post .udp
  | .tcpudp => pagePorts post .tcpudp
  | .icmp => [("NAME",post.val "name"),("PROTO",upper "icmp"),("CODE",post.val "icmptype"),("NOTE",post.val "note")]
  | .ip => [("NAME",post.val "name"),("PROTO",upper "ip"),("NUM",post.val "protocol"),("NOTE",post.val "note")]
  | .esp => pageSpi post .esp
  | .ah => pageSpi post .ah
  | .group => [("NAME",post.val "name"),("SERVICE",post.val "address"),("NOTE",post.val "note")]

def pageTimeevent (post : Params) : TimeeventType → List (Str × Str)
  | .recurring => [("NAME",post.val "name"),("STIME",joined post "stime_m" ':' "stime_s"),
      ("ETIME",joined post "etime_m" ':' "etime_s"),("WDAYS",post.val "wdays"),("NOTE",post.val "note")]
  | .single => [("NAME",post.val "name"),("SDATE",post.val "sdate"),("EDATE",post.val "edate"),
      ("STIME",joined post "stime_m" ':' "stime_s"),("ETIME",joined post "etime_m" ':' "etime_s"),
      ("WDAYS",post.val "wdays"),("NOTE",post.val "note")]

def pageObject (post : Params) : ObjectType → Bool × List (Str × Str)
  | .networks t => pageNetwork v6 o post t
  | .services t => (true,pageService post t)
  | .timeevents t => (true,pageTimeevent post t)

def cgiPageDefinitionsSave (t : ObjectType) (post : Params) (w : World) : Option (Bool × World) :=
  if post.isEmpty || null (post.val "name") || !(pageObject v6 o post t).1 then some (false,w)
  else definitionsSave env t.kind t.name (dataOf (pageObject v6 o post t).2) w

def addFields (args : List Str) : ObjectType → List Str
  | .networks .network => [arg args 1,arg args 2,arg args 3]
  | .networks .group => [arg args 1,members o .networks (arg args 2)]
  | .networks _ => [arg args 1,arg args 2]
  | .services .tcp | .services .udp | .services .tcpudp => [arg args 1,arg args 2,arg args 3]
  | .services .icmp => [arg args 1,(servicesAddIcmp o (arg args 2)).getD []]
  | .services .group => [arg args 1,members o .services (arg args 2)]
  | .services _ => [arg args 1,arg args 2]
  | .timeevents .recurring => [arg args 1,arg args 2,arg args 3,arg args 4]
  | .timeevents .single => [arg args 1,arg args 2,arg args 3,arg args 4,arg args 5]

def pageFields (post : Params) : ObjectType → List Str
  | .networks .host => [post.val "name",post.val "address"]
  | .networks .dnshost => [post.val "name",post.val "hostname"]
  | .networks .hostrange => [post.val "name",joined post "hrange1" '-' "hrange2"]
  | .networks .hostmac => [post.val "name",post.val "macaddr"]
  | .networks .network => [post.val "name",post.val "address",post.val "netmask"]
  | .networks .group => [post.val "name",post.val "address"]
  | .services .tcp | .services .udp | .services .tcpudp => [post.val "name",post.val "sport",post.val "dport"]
  | .services .icmp => [post.val "name",post.val "icmptype"]
  | .services .ip => [post.val "name",post.val "protocol"]
  | .services .group => [post.val "name",post.val "address"]
  | .services _ => [post.val "name",post.val "spi"]
  | .timeevents .recurring => [post.val "name",joined post "stime_m" ':' "stime_s",
      joined post "etime_m" ':' "etime_s",post.val "wdays"]
  | .timeevents .single => [post.val "name",post.val "sdate",post.val "edate",
      joined post "stime_m" ':' "stime_s",joined post "etime_m" ':' "etime_s"]

def resolvedPart (es : List (Str × Str)) : List (Str × Str) := es.filter fun e => resolvedKeys.contains e.1

theorem val_resolvedPart (es : List (Str × Str)) {k : Str} (hk : k ∈ resolvedKeys) :
    (dataOf (resolvedPart es)).val k = (dataOf es).val k := by
  have h := OrdMap.get?_setAll_filter (p:=fun j => resolvedKeys.contains j) (k:=k) (by simpa using hk) es
    (OrdMap.empty : Params)
  rw [Params.val,Params.val,OrdMap.getD,OrdMap.getD,dataOf,dataOf,resolvedPart,h]

theorem val_congr {es fs : List (Str × Str)} (h : resolvedPart es = resolvedPart fs) :
    ∀ k ∈ resolvedKeys, (dataOf es).val k = (dataOf fs).val k := fun k hk => by
  rw [← val_resolvedPart es hk,← val_resolvedPart fs hk,h]

theorem resolvedPart_cons (k v : Str) (es : List (Str × Str)) :
    resolvedPart ((k,v)::es) = if resolvedKeys.contains k = true then (k,v)::resolvedPart es else resolvedPart es :=
  List.filter_cons

theorem contains_resolvedKeys :
    resolvedKeys.contains "NAME" = true ∧ resolvedKeys.contains "ADDR" = true ∧ resolvedKeys.contains "PREF" = true ∧
    resolvedKeys.contains "MASK" = true ∧ resolvedKeys.contains "PROTO" = true ∧ resolvedKeys.contains "NUM" = true ∧
    resolvedKeys.contains "SPORT" = true ∧ resolvedKeys.contains "DPORT" = true ∧
    resolvedKeys.contains "CODE" = true ∧ resolvedKeys.contains "SPI" = true ∧
    resolvedKeys.contains "SERVICE" = true ∧ resolvedKeys.contains "NOTE" = false ∧
    resolvedKeys.contains "DNAME" = false ∧ resolvedKeys.contains "INET" = false ∧
    resolvedKeys.contains "HOSTNAME" = false ∧ resolvedKeys.contains "SDATE" = false ∧
    resolvedKeys.contains "EDATE" = false ∧ resolvedKeys.contains "STIME" = false ∧
    resolvedKeys.contains "ETIME" = false ∧ resolvedKeys.contains "WDAYS" = false := by
  decide

theorem resolvedPart_nil : resolvedPart [] = [] := rfl

theorem resolvedPart_append (es fs : List (Str × Str)) :
    resolvedPart (es ++ fs) = resolvedPart es ++ resolvedPart fs := List.filter_append es fs

theorem resolvedPart_dname (val : Option Str) : resolvedPart (dname val) = [] := by
  cases val with
  | none => rfl
  | some v => rfl

theorem resolvedPart_inetOf (a b : Str) : resolvedPart (inetOf v6 a b) = [] := by
  unfold inetOf
  split
  · rfl
  · split <;> rfl

theorem val_swap (es fs : List (Str × Str)) {i j : Str} (h : i ≠ j) (u v k : Str) :
    (dataOf (es ++ (i,u)::(j,v)::fs)).val k = (dataOf (es ++ (j,v)::(i,u)::fs)).val k := by
  have key : ∀ (fs : List (Str × Str)) (m m' : Params), m.get? k = m'.get? k →
      (m.setAll fs).get? k = (m'.setAll fs).get? k := by
    intro fs
    induction fs with
    | nil => exact fun _ _ h => h
    | cons e fs ih => exact fun m m' h => ih _ _ (by rw [OrdMap.get?_set,OrdMap.get?_set,h])
  rw [Params.val,Params.val,OrdMap.getD,OrdMap.getD,dataOf,dataOf,OrdMap.setAll,OrdMap.setAll,List.foldl_append,
    List.foldl_append]
  refine congrArg (fun v : Option Str => v.getD []) (key fs _ _ ?_)
  rw [OrdMap.get?_set,OrdMap.get?_set,OrdMap.get?_set,OrdMap.get?_set]
  dsimp only
  by_cases hi : i = k
  · rw [if_pos hi,if_pos hi,if_neg fun hj => h (hi.trans hj.symm)]
  · rw [if_neg hi,if_neg hi]

/-- The types whose PROTO the two handlers set differently. -/
def Misnamed (t : ObjectType) : Prop := t = .services .tcpudp ∨ t = .services .ip

instance (t : ObjectType) : Decidable (Misnamed t) := inferInstanceAs (Decidable (_ ∨ _))

/-- The same values come to the same name, addresses, protocols and ports, but for two types. -/
theorem sameData {t : ObjectType} {args : List Str} {post : Params} (ht : ¬Misnamed t)
    (h : addFields o args t = pageFields post t) : ∀ k ∈ resolvedKeys,
      (dataOf (addObject v6 o args t).2).val k = (dataOf (pageObject v6 o post t).2).val k := by
  cases t with
  | networks t =>
    refine val_congr ?_
    cases t <;> simp only [addFields,pageFields,List.cons.injEq,and_true] at h <;>
      simp only [addObject,addNetwork,pageObject,pageNetwork,resolvedPart_cons,contains_resolvedKeys,
        Bool.false_eq_true,if_true,if_false,resolvedPart_append,resolvedPart_dname,resolvedPart_inetOf,
        resolvedPart_nil,List.append_nil,h]
  | services t =>
    have ports : ∀ {p : Str}, arg args 1 = post.val "name" → arg args 2 = post.val "sport" →
        arg args 3 = post.val "dport" → ∀ u : ServiceType, u.name = p → ∀ k ∈ resolvedKeys,
        (dataOf (addPorts args p)).val k = (dataOf (pagePorts post u)).val k := by
      intro p h₁ h₂ h₃ u hu k hk
      have hs := val_swap [("NAME",post.val "name"),("PROTO",upper u.name)] [("NOTE",post.val "note")]
        (by decide : ("DPORT" : Str) ≠ "SPORT") (post.val "dport") (post.val "sport") k
      refine Eq.trans (val_congr ?_ k hk) hs.symm
      simp only [addPorts,List.cons_append,List.nil_append,resolvedPart_cons,contains_resolvedKeys,
        Bool.false_eq_true,if_true,if_false,resolvedPart_nil,h₁,h₂,h₃,hu]
    cases t <;> simp only [addFields,pageFields,List.cons.injEq,and_true] at h
    case tcp => exact ports h.1 h.2.1 h.2.2 .tcp rfl
    case udp => exact ports h.1 h.2.1 h.2.2 .udp rfl
    case tcpudp => exact absurd (Or.inl rfl) ht
    case ip => exact absurd (Or.inr rfl) ht
    all_goals
      refine val_congr ?_
      simp only [addObject,addService,addSpi,pageObject,pageService,pageSpi,resolvedPart_cons,
        contains_resolvedKeys,Bool.false_eq_true,if_true,if_false,resolvedPart_nil,ServiceType.name,h]
  | timeevents t =>
    refine val_congr ?_
    cases t <;> simp only [addFields,pageFields,List.cons.injEq,and_true] at h <;>
      simp only [addObject,addTimeevent,pageObject,pageTimeevent,resolvedPart_cons,contains_resolvedKeys,
        Bool.false_eq_true,if_true,if_false,resolvedPart_nil,h]

def Lines (es : List (Str × Str)) : Prop := ∀ x ∈ es, (KeyName x.1 ∧ skipped x.1 = false) ∧ '\n' ∉ x.2

theorem Lines.nil : Lines [] := by simp [Lines]

theorem Lines.cons {k v : Str} {es : List (Str × Str)} (hk : KeyName k ∧ skipped k = false) (hv : '\n' ∉ v)
    (h : Lines es) : Lines ((k,v)::es) := by
  intro x hx
  rcases List.mem_cons.mp hx with rfl | hx
  · exact ⟨hk,hv⟩
  · exact h x hx

theorem Lines.append {es fs : List (Str × Str)} (h : Lines es) (h' : Lines fs) : Lines (es ++ fs) := fun x hx =>
  (List.mem_append.mp hx).elim (h x) (h' x)

theorem Lines.newData {es : List (Str × Str)} (h : Lines es) : NewData (dataOf es) := by
  intro x hx
  rcases mem_setAll hx with hx | hx
  · exact absurd hx List.not_mem_nil
  · exact h x hx

theorem lines_dname {val : Option Str} (h : ∀ v, val = some v → '\n' ∉ v) : Lines (dname val) := by
  cases val with
  | none => exact .nil
  | some v => exact .cons (by decide) (h v rfl) .nil

theorem lines_inetOf (a b : Str) : Lines (inetOf v6 a b) := by
  unfold inetOf
  split
  · exact .cons (by decide) (by decide) .nil
  · split
    · exact .cons (by decide) (by decide) .nil
    · exact .nil

theorem line_arg {args : List Str} (h : ∀ a ∈ args, '\n' ∉ a) (i : ℕ) : '\n' ∉ arg args i := by
  rw [arg,List.getD_eq_getElem?_getD]
  cases hi : args[i]? with
  | none => simp
  | some a => exact h a (List.mem_of_getElem? hi)

theorem line_post {post : Params} (h : ∀ x ∈ post.entries, '\n' ∉ x.2) (k : Str) : '\n' ∉ post.val k := by
  rw [Params.val,OrdMap.getD]
  cases hk : post.get? k with
  | none => simp
  | some v => exact h _ (OrdMap.get?_eq_some.mp hk)

theorem line_joined {post : Params} (h : ∀ x ∈ post.entries, '\n' ∉ x.2) {a b : Str} {c : Char} (hc : c ≠ '\n') :
    '\n' ∉ joined post a c b := by
  rw [joined,List.mem_append,List.mem_cons,not_or,not_or]
  exact ⟨line_post h a,Ne.symm hc,line_post h b⟩

theorem line_resolve (host : Str) : '\n' ∉ definitionsDnshostResolve o host := by
  have hr : '\n' ∉ ((o.gethostbynamel host).flatMap fun j => j ++ [',']).rdropWhile (· = ',') := by
    intro hm
    obtain ⟨j,hj,hm⟩ := List.mem_flatMap.mp ((List.rdropWhile_prefix _ _).subset hm)
    rcases List.mem_append.mp hm with hm | hm
    · exact o.host_line host j hj hm
    · exact absurd (List.mem_singleton.mp hm) (by decide)
  unfold definitionsDnshostResolve
  dsimp only
  split
  · decide
  · exact hr

theorem line_members (k : Kind) (options : Str) : '\n' ∉ members o k options := by
  unfold members
  cases h : o.objGetName k with
  | none => simp
  | some f => exact o.names_line k f options h

theorem line_addInt {num v : Str} (h : networksAddInt o num = some v) : '\n' ∉ v := by
  unfold networksAddInt at h
  split at h
  · simp only [Option.some.injEq] at h
    simp [← h]
  · exact o.interface_line num v h

theorem line_addIcmp (num : Str) : '\n' ∉ (servicesAddIcmp o num).getD [] := by
  unfold servicesAddIcmp
  split
  · simp
  · cases h : o.icmptype num with
    | none => simp
    | some v => exact o.icmp_line num v h

theorem lines_add {args : List Str} (h : ∀ a ∈ args, '\n' ∉ a) (t : ObjectType) :
    Lines (addObject v6 o args t).2 := by
  have ha := line_arg h
  have hd : ∀ num, Lines (dname (networksAddInt o num)) := fun num => lines_dname fun _ hv => line_addInt o hv
  have hi : ∀ {a m k : Str}, '\n' ∉ (Ipcalc.ip v6.is a m).val k := (Ipcalc.ip_read v6.is _ _ _).2.1
  cases t with
  | networks t =>
    cases t with
    | host => exact .cons (by decide) (ha 1) (.cons (by decide) (ha 2) (.cons (by decide) (ha 3)
        ((hd _).append (lines_inetOf v6 _ _))))
    | dnshost => exact .cons (by decide) (ha 1) (.cons (by decide) (ha 2) (.cons (by decide) (line_resolve o _)
        (.cons (by decide) (ha 3) (hd _))))
    | hostrange => exact .cons (by decide) (ha 1) (.cons (by decide) (ha 2) (.cons (by decide) (ha 3)
        ((hd _).append (lines_inetOf v6 _ _))))
    | hostmac => exact .cons (by decide) (ha 1) (.cons (by decide) (ha 2) (.cons (by decide) (ha 3) (hd _)))
    | network => exact .cons (by decide) (ha 1) (.cons (by decide) (ha 2) (.cons (by decide) hi
        (.cons (by decide) hi (.cons (by decide) hi (.cons (by decide) (ha 4) (hd _))))))
    | group => exact .cons (by decide) (ha 1) (.cons (by decide) (ha 3) (.cons (by decide) (line_members o _ _) .nil))
  | services t =>
    have ports : ∀ {p : Str}, '\n' ∉ upper p → Lines (addPorts args p) := fun hp => .cons (by decide) (ha 1)
      (.cons (by decide) hp (.cons (by decide) (ha 2) (.cons (by decide) (ha 3)
        (.cons (by decide) (ha 4) .nil))))
    have spi : ∀ {p : Str}, '\n' ∉ upper p → Lines (addSpi args p) := fun hp => .cons (by decide) (ha 1)
      (.cons (by decide) hp (.cons (by decide) (ha 2) (.cons (by decide) (ha 3) .nil)))
    cases t with
    | tcp => exact ports (by decide)
    | udp => exact ports (by decide)
    | tcpudp => exact ports (by decide)
    | ip => exact .cons (by decide) (ha 1) (.cons (by decide) (by decide) (.cons (by decide) (ha 2)
        (.cons (by decide) (ha 3) .nil)))
    | icmp => exact .cons (by decide) (ha 1) (.cons (by decide) (by decide) (.cons (by decide) (line_addIcmp o _)
        (.cons (by decide) (ha 3) .nil)))
    | esp => exact spi (by decide)
    | ah => exact spi (by decide)
    | group => exact .cons (by decide) (ha 1) (.cons (by decide) (ha 3) (.cons (by decide) (line_members o _ _) .nil))
  | timeevents t =>
    cases t with
    | recurring => exact .cons (by decide) (ha 1) (.cons (by decide) (ha 2) (.cons (by decide) (ha 3)
        (.cons (by decide) (ha 4) (.cons (by decide) (ha 5) .nil))))
    | single => exact .cons (by decide) (ha 1) (.cons (by decide) (ha 2) (.cons (by decide) (ha 3)
        (.cons (by decide) (ha 4) (.cons (by decide) (ha 5) (.cons (by decide) (ha 6) .nil)))))

theorem lines_page {post : Params} (h : ∀ x ∈ post.entries, '\n' ∉ x.2) (t : ObjectType) :
    Lines (pageObject v6 o post t).2 := by
  have hp := line_post h
  have hi : ∀ {a m k : Str}, '\n' ∉ (Ipcalc.ip v6.is a m).val k := (Ipcalc.ip_read v6.is _ _ _).2.1
  cases t with
  | networks t =>
    cases t with
    | host => exact .cons (by decide) (hp _) (.cons (by decide) (hp _) (.cons (by decide) (hp _)
        (.cons (by decide) (hp _) (lines_inetOf v6 _ _))))
    | dnshost => exact .cons (by decide) (hp _) (.cons (by decide) (hp _) (.cons (by decide) (line_resolve o _)
        (.cons (by decide) (hp _) (.cons (by decide) (hp _) .nil))))
    | hostrange => exact .cons (by decide) (hp _) (.cons (by decide) (line_joined h (by decide))
        (.cons (by decide) (hp _) (.cons (by decide) (hp _) .nil)))
    | hostmac => exact .cons (by decide) (hp _) (.cons (by decide) (hp _) (.cons (by decide) (hp _)
        (.cons (by decide) (hp _) .nil)))
    | network => exact .cons (by decide) (hp _) (.cons (by decide) (hp _) (.cons (by decide) hi
        (.cons (by decide) (hp _) (.cons (by decide) (hp _) (.cons (by decide) hi (.cons (by decide) hi .nil))))))
    | group => exact .cons (by decide) (hp _) (.cons (by decide) (hp _) (.cons (by decide) (hp _) .nil))
  | services t =>
    have ports : ∀ u : ServiceType, '\n' ∉ upper u.name → Lines (pagePorts post u) := fun _ hu => .cons (by decide) (hp _)
      (.cons (by decide) hu (.cons (by decide) (hp _) (.cons (by decide) (hp _)
        (.cons (by decide) (hp _) .nil))))
    have spi : ∀ u : ServiceType, '\n' ∉ upper u.name → Lines (pageSpi post u) := fun _ hu => .cons (by decide) (hp _)
      (.cons (by decide) hu (.cons (by decide) (hp _) (.cons (by decide) (hp _) .nil)))
    cases t with
    | tcp => exact ports .tcp (by decide)
    | udp => exact ports .udp (by decide)
    | tcpudp => exact ports .tcpudp (by decide)
    | ip => exact .cons (by decide) (hp _) (.cons (by decide) (by decide) (.cons (by decide) (hp _)
        (.cons (by decide) (hp _) .nil)))
    | icmp => exact .cons (by decide) (hp _) (.cons (by decide) (by decide) (.cons (by decide) (hp _)
        (.cons (by decide) (hp _) .nil)))
    | esp => exact spi .esp (by decide)
    | ah => exact spi .ah (by decide)
    | group => exact .cons (by decide) (hp _) (.cons (by decide) (hp _) (.cons (by decide) (hp _) .nil))
  | timeevents t =>
    have hj : ∀ {a b : Str}, '\n' ∉ joined post a ':' b := line_joined h (by decide)
    cases t with
    | recurring => exact .cons (by decide) (hp _) (.cons (by decide) hj (.cons (by decide) hj
        (.cons (by decide) (hp _) (.cons (by decide) (hp _) .nil))))
    | single => exact .cons (by decide) (hp _) (.cons (by decide) (hp _) (.cons (by decide) (hp _)
        (.cons (by decide) hj (.cons (by decide) hj (.cons (by decide) (hp _) (.cons (by decide) (hp _) .nil))))))

end Definitions

end Mybox
