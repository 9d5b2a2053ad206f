import Mybox.FilterChain
import Mybox.Php
import Mathlib.Data.Nat.Digits.Defs

/-! Administrative access in version 3.0: `do_policy_admin` writes a rule for each enabled row of the access list and
each address of the appliance, lets the sources of SNMP, NTP and DNS in, and drops what else comes to a port that it
has collected. The rules are loaded as one table. -/
namespace Mybox
namespace AdminPolicy
open Php PacketFilter

abbrev Port := Fin 65536

instance neZeroPorts : NeZero 65536 := ⟨by decide⟩

def portText (p : Port) : Str := Nat.toDigits 10 p

/-- What the database has for an address: one word, or nothing. -/
abbrev Text := {s : Str // s = [] ∨ PlainWord s}

/-- A row of `service_https`, `service_ssh` or `service_ftp`. -/
structure Service where
  port : Port
  stat : Bool

/-- A row of `accesslist`. -/
structure AccessRow where
  ip : Text
  ssh : Bool
  https : Bool
  ftp : Bool
  stat : Bool

structure Setting where
  /-- The addresses of `ipaddr`, `ipalias` and `vlan`, where `onboot` is 1. -/
  ipaddr : List Text
  ipalias : List Text
  vlan : List Text
  https : Option Service
  ssh : Option Service
  ftp : Option Service
  accesslist : List AccessRow
  /-- What `policy_snmp`, `policy_ntp` and `policy_dns` give. -/
  snmpPort : Port
  snmp : List Text
  ntp : List Text
  dns : List Text
  /-- `http_proxy_port`, `ftp_proxy_port` and `mail_proxy_port` -/
  httpProxyPort : Option Port
  ftpProxyPort : Option Port
  mailProxyPort : Option Port

variable (g : Setting)

/-- `$_local[$_ip]="$_ip"` -/
def addLocal (ips : List Text) (ip : Text) : List Text := if ip ∈ ips then ips else ips ++ [ip]

/-- The addresses that `policy_get_data` gives. -/
def policyGetData : List Text :=
  (g.ipalias ++ g.vlan).foldl (fun ips ip => if ip.1 = [] then ips else addLocal ips ip) (g.ipaddr.foldl addLocal [])

def rtrimComma (s : Str) : Str := s.rdropWhile (· = ',')

def trimComma (s : Str) : Str := trimWith "," s

/-- The port of a service that is on, and what is written behind it. -/
def onText (s : Option Service) (behind : Str) : Str :=
  match s with
  | some v => if v.stat = true then portText v.port ++ behind else []
  | none => []

/-- `$_acl_port` with the port of a proxy. -/
def proxyText (acl : Str) : Option Port → Str
  | some p => trimComma (acl ++ ',' :: portText p)
  | none => acl

def aclPort : Str :=
  proxyText (proxyText (proxyText (trimComma (onText g.https "," ++ onText g.ssh "," ++ onText g.ftp []))
    g.httpProxyPort) g.ftpProxyPort) g.mailProxyPort

def aport (r : AccessRow) : Str :=
  rtrimComma ((if r.https = true then onText g.https "," else []) ++ (if r.ssh = true then onText g.ssh "," else []) ++
    if r.ftp = true then onText g.ftp [] else [])

def acceptWords (src int ports : Str) : List Str :=
  ["-s",src,"-d",int,"-p","tcp","-m","tcp","-m","multiport","--dports",ports,"-j","ACCEPT"]

def dropWords (int ports : Str) : List Str :=
  ["-d",int,"-p","tcp","-m","tcp","-m","multiport","--dports",ports,"-j","DROP"]

def udpAcceptWords (src int port : Str) : List Str :=
  ["-s",src,"-d",int,"-p","udp","-m","udp","--dport",port,"-j","ACCEPT"]

def dnsAcceptWords (proto src int : Str) : List Str :=
  ["-s",src,"-d",int,"-p",proto,"-m",proto,"--sport","53:65535","--dport","53","-j","ACCEPT"]

def portDropWords (proto int port : Str) : List Str :=
  ["-d",int,"-p",proto,"-m",proto,"--dport",port,"-j","DROP"]

def rowRules (r : AccessRow) : List (List Str) :=
  if aport g r = [] then []
  else ((policyGetData g).filter fun ip => ip.1 ≠ []).map fun ip => acceptWords r.ip.1 ip.1 (aport g r)

def accessRules : List (List Str) := (g.accesslist.filter AccessRow.stat).flatMap (rowRules g)

/-- `do_policy_snmp` and `do_policy_ntp` -/
def udpRules (acl : List Text) (port : Str) : List (List Str) :=
  if acl = [] then []
  else (acl.flatMap fun src => (policyGetData g).map fun ip => udpAcceptWords src.1 ip.1 port) ++
    (policyGetData g).map fun ip => portDropWords "udp" ip.1 port

def doPolicySnmp : List (List Str) := udpRules g g.snmp (portText g.snmpPort)

def doPolicyNtp : List (List Str) := udpRules g g.ntp "123"

def doPolicyDns : List (List Str) :=
  if g.dns = [] then []
  else (g.dns.flatMap fun src => (policyGetData g).flatMap fun ip =>
      [dnsAcceptWords "udp" src.1 ip.1,dnsAcceptWords "tcp" src.1 ip.1]) ++
    (policyGetData g).flatMap fun ip => [portDropWords "udp" ip.1 "53",portDropWords "tcp" ip.1 "53"]

def dropRules : List (List Str) := (policyGetData g).map fun ip => dropWords ip.1 (aclPort g)

/-- The words of every rule, in the order they are written. -/
def rules : List (List Str) := accessRules g ++ doPolicySnmp g ++ doPolicyNtp g ++ doPolicyDns g ++ dropRules g

def chain : Str := "ACL1000-01"

def ruleLine (ws : List Str) : Str := [' '].intercalate ("-A"::chain::ws)

/-- What `do_policy_admin` writes to `iptables-restore`; with no address it stops behind the chain. -/
def doPolicyAdmin : List Str :=
  "*filter" :: (":ACL1000-01 - [0:0]" : Str) ::
    if policyGetData g = [] then [] else (rules g).map ruleLine ++ [("COMMIT" : Str)]

/-- The rules of the chain that is declared in a table; one line that cannot be read leaves none. -/
def load : List Str → Option (List ChainRule)
  | t::c::ls =>
    if t = ("*filter" : Str) ∧ c = (":ACL1000-01 - [0:0]" : Str) ∧ ls.getLast? = some ("COMMIT" : Str) then
      ls.dropLast.foldlM readLine []
    else none
  | _ => none

inductive Admin
  | https
  | ssh
  | ftp

def service : Admin → Option Service
  | .https => g.https
  | .ssh => g.ssh
  | .ftp => g.ftp

def AccessRow.grants (r : AccessRow) : Admin → Bool
  | .https => r.https
  | .ssh => r.ssh
  | .ftp => r.ftp

def On (t : Admin) (p : Port) : Prop := ∃ s, service g t = some s ∧ s.stat = true ∧ s.port = p

/-- The text stands for addresses, and this is one of them. -/
def Within (s : Text) (a : ℕ) : Prop := ∃ n, PacketFilter.net s.1 = some n ∧ n.has a = true

/-- An enabled row that grants the service has the source. -/
def Granted (t : Admin) (src : ℕ) : Prop := ∃ r ∈ g.accesslist, r.stat = true ∧ r.grants t = true ∧ Within r.ip src

def packet (src dst sport : ℕ) (p : Port) (device : Str) (mac : List ℕ) : Frame := ⟨⟨src,dst,.tcp sport p⟩,device,mac⟩

/-- The table is taken, and decides on every connection to an address of the appliance as the access list says. -/
def Enforced : Prop := policyGetData g = [] ∨ ∃ rs, load (doPolicyAdmin g) = some rs ∧
  ∀ t p, On g t p → ∀ types src dst sport device mac, src < 2^32 → sport < 65536 → (∃ ip ∈ policyGetData g, Within ip dst) →
    (verdict types chain rs (packet src dst sport p device mac) = some ("ACCEPT" : Str) ↔ Granted g t src) ∧
    (verdict types chain rs (packet src dst sport p device mac) = some ("DROP" : Str) ↔ ¬Granted g t src)

/-- A rule other than those for the service lets the source in at the port. -/
def Lets (p : Port) (src : ℕ) : Prop :=
  (∃ t, On g t p ∧ Granted g t src) ∨ p = 53 ∧ ∃ s ∈ g.dns, Within s src

/-- Every text that is written stands for an address, some port is collected, and nobody is let in at the port of a
service but who is granted it. -/
structure Clear : Prop where
  address : ∀ ip ∈ policyGetData g, PacketFilter.net ip.1 ≠ none
  row : ∀ r ∈ g.accesslist, r.stat = true → (∃ t p, On g t p ∧ r.grants t = true) → PacketFilter.net r.ip.1 ≠ none
  source : ∀ s ∈ g.snmp ++ g.ntp ++ g.dns, PacketFilter.net s.1 ≠ none
  port : (∃ t p, On g t p) ∨ g.httpProxyPort ≠ none ∨ g.ftpProxyPort ≠ none ∨ g.mailProxyPort ≠ none
  only : ∀ t p, On g t p → ∀ src < 2^32, Lets g p src → Granted g t src

theorem splits_words {ws : List Word} (h : ∀ w ∈ ws, w = [] ∨ PlainWord w) :
    Splits ([' '].intercalate ws) (ws.filter (· ≠ [])) := by
  induction ws with
  | nil => exact splits_nil
  | cons w ws ih =>
    have hw : Splits w ([w].filter (· ≠ [])) := by
      rcases h w (by simp) with rfl | hw
      · exact splits_nil
      · rw [List.filter_cons_of_pos (by simpa using hw.ne)]
        exact hw.splits
    cases ws with
    | nil => rwa [List.intercalate_singleton]
    | cons v ws =>
      have hj : [' '].intercalate (w::v::ws) = w ++ ' ' :: [' '].intercalate (v::ws) := by
        rw [List.intercalate_cons_cons,List.append_assoc]
        rfl
      have hf : (w::v::ws).filter (· ≠ []) = [w].filter (· ≠ []) ++ (v::ws).filter (· ≠ []) := by
        rw [← List.filter_append]
        rfl
      rw [hj,hf]
      exact hw.append (ih fun x hx => h x (List.mem_cons_of_mem _ hx))

def ruleOf (ws : List Word) : Option ChainRule :=
  (ruleParts (ws.filter (· ≠ []))).map fun r => ⟨chain,r.1,r.2⟩

theorem ruleLine_appends {ws : List Word} (h : ∀ w ∈ ws, w = [] ∨ PlainWord w) : Appends (ruleLine ws) (ruleOf ws) := by
  have hs : Splits (ruleLine ws) (("-A"::chain::ws : List Word).filter (· ≠ [])) := by
    refine splits_words fun w hw => ?_
    simp only [List.mem_cons] at hw
    rcases hw with rfl | rfl | hw
    · exact Or.inr (by decide)
    · exact Or.inr (by decide)
    · exact h w hw
  refine appends_of_tokens (hs.alone.trans ?_)
  rw [List.filter_cons_of_pos (by decide),List.filter_cons_of_pos (by decide)]
  rfl

theorem ruleParts_missing {o o' : Word} (h : test o o' = none) (ws : List Word) (hne : ws ≠ []) :
    ruleParts (o::o'::ws) = none := by
  obtain ⟨w,ws,rfl⟩ := List.exists_cons_of_ne_nil hne
  rw [ruleParts,h]
  · rfl
  · simp

theorem ruleParts_cons {o w : Word} (ws : List Word) (hne : ws ≠ []) :
    ruleParts (o::w::ws) = (test o w).bind fun x => (ruleParts ws).map fun r => (x::r.1,r.2) := by
  obtain ⟨v,ws,rfl⟩ := List.exists_cons_of_ne_nil hne
  rw [ruleParts]
  simp

theorem ruleParts_filter {o o' : Word} (w : Word) {ws : List Word} (ho : o ≠ []) (ho' : o' ≠ []) (hne : ∃ v ∈ ws, v ≠ [])
    (hm : test o o' = none) (he : test o [] = none) : ruleParts ((o::w::o'::ws).filter (· ≠ [])) =
      (test o w).bind fun x => (ruleParts ((o'::ws).filter (· ≠ []))).map fun r => (x::r.1,r.2) := by
  have hne : ws.filter (· ≠ []) ≠ [] := by
    obtain ⟨v,hv,hn⟩ := hne
    exact List.ne_nil_of_mem (List.mem_filter.mpr ⟨hv,by simpa using hn⟩)
  have ho' : (o'::ws).filter (· ≠ []) = o'::ws.filter (· ≠ []) := List.filter_cons_of_pos (by simpa using ho')
  by_cases hw : w = []
  · subst hw
    rw [List.filter_cons_of_pos (by simpa using ho),List.filter_cons_of_neg (by simp),ho',ruleParts_missing hm _ hne,he]
    rfl
  · rw [List.filter_cons_of_pos (by simpa using ho),List.filter_cons_of_pos (by simpa using hw),
      ruleParts_cons _ (by rw [ho']; exact List.cons_ne_nil _ _)]

theorem ruleParts_ports (ports : Word) (target : Word) (ht : target ≠ []) :
    ruleParts ((["--dports",ports,"-j",target] : List Word).filter (· ≠ [])) =
      (portList ports).map fun rs => ([.dports rs],target) := by
  have hj : ruleParts ((["-j",target] : List Word).filter (· ≠ [])) = some ([],target) := by
    rw [List.filter_cons_of_pos (by decide),List.filter_cons_of_pos (by simpa using ht)]
    rfl
  rw [ruleParts_filter ports (by decide) (by decide) ⟨target,by simp,ht⟩ (by decide) (by decide),hj]
  have ht : test "--dports" ports = (portList ports).map .dports := rfl
  rw [ht]
  cases portList ports <;> rfl

theorem ruleParts_dst (int : Word) (ws : List Word) (hne : ∃ v ∈ ws, v ≠ []) :
    ruleParts ((("-d" : Word)::int::("-p" : Word)::ws).filter (· ≠ [])) = (PacketFilter.net int).bind fun m =>
      (ruleParts ((("-p" : Word)::ws).filter (· ≠ []))).map fun r => (.opt (.dst m)::r.1,r.2) := by
  rw [ruleParts_filter int (by decide) (by decide) hne (by decide) (by decide)]
  have ht : test "-d" int = ((PacketFilter.net int).map Opt.dst).map .opt := rfl
  rw [ht]
  cases PacketFilter.net int <;> rfl

theorem ruleParts_src (src : Word) (ws : List Word) (hne : ∃ v ∈ ws, v ≠ []) :
    ruleParts ((("-s" : Word)::src::("-d" : Word)::ws).filter (· ≠ [])) = (PacketFilter.net src).bind fun m =>
      (ruleParts ((("-d" : Word)::ws).filter (· ≠ []))).map fun r => (.opt (.src m)::r.1,r.2) := by
  rw [ruleParts_filter src (by decide) (by decide) hne (by decide) (by decide)]
  have ht : test "-s" src = ((PacketFilter.net src).map Opt.src).map .opt := rfl
  rw [ht]
  cases PacketFilter.net src <;> rfl

def tcpTests (rs : List Range) : List Test := [.opt (.proto 6),.opt (.load .tcp),.free,.dports rs]

theorem ruleParts_tcp (ports : Word) (target : Word) (ht : target ≠ []) :
    ruleParts ((["-p","tcp","-m","tcp","-m","multiport","--dports",ports,"-j",target] : List Word).filter (· ≠ [])) =
      (portList ports).map fun rs => (tcpTests rs,target) := by
  have hp : (["-p","tcp","-m","tcp","-m","multiport","--dports",ports,"-j",target] : List Word).filter (· ≠ []) =
      (["-p","tcp","-m","tcp","-m","multiport"] : List Word) ++
        (["--dports",ports,"-j",target] : List Word).filter (· ≠ []) := rfl
  rw [hp,ruleParts_append (by decide) (List.ne_nil_of_mem (List.mem_filter.mpr ⟨by simp,by simpa using ht⟩ : target ∈ _)),
    ruleParts_ports ports target ht]
  have hts : tests (["-p","tcp","-m","tcp","-m","multiport"] : List Word) =
      some [.opt (.proto 6),.opt (.load .tcp),.free] := rfl
  rw [hts]
  cases portList ports <;> rfl

theorem ruleOf_src (src int : Word) {ws : List Word} {o : Option (List Test × Word)} (hne : ∃ v ∈ ws, v ≠ [])
    (h : ruleParts ((("-p" : Word)::ws).filter (· ≠ [])) = o) :
    ruleOf (("-s" : Word)::src::("-d" : Word)::int::("-p" : Word)::ws) = (PacketFilter.net src).bind fun n =>
      (PacketFilter.net int).bind fun m => o.map fun r => ⟨chain,.opt (.src n)::.opt (.dst m)::r.1,r.2⟩ := by
  rw [ruleOf,ruleParts_src src _ ⟨"-p",by simp,by decide⟩,ruleParts_dst int _ hne,h]
  cases PacketFilter.net src <;> cases PacketFilter.net int <;> cases o <;> rfl

theorem ruleOf_int (int : Word) {ws : List Word} {o : Option (List Test × Word)} (hne : ∃ v ∈ ws, v ≠ [])
    (h : ruleParts ((("-p" : Word)::ws).filter (· ≠ [])) = o) : ruleOf (("-d" : Word)::int::("-p" : Word)::ws) =
      (PacketFilter.net int).bind fun m => o.map fun r => ⟨chain,.opt (.dst m)::r.1,r.2⟩ := by
  rw [ruleOf,ruleParts_dst int _ hne,h]
  cases PacketFilter.net int <;> cases o <;> rfl

theorem digit_portText (p : Port) : ∀ c ∈ portText p, '0' ≤ c ∧ c ≤ '9' := by
  intro c hc
  have h : c.isDigit = true := Nat.isDigit_of_mem_toDigits (by decide) (by decide) hc
  simpa [Char.isDigit,Char.le_def] using h

theorem portText_ne (p : Port) : portText p ≠ [] := Nat.toDigits_ne_nil

theorem not_mem_portText {c : Char} (h : ¬('0' ≤ c ∧ c ≤ '9')) (p : Port) : c ∉ portText p := fun hc =>
  h (digit_portText p c hc)

theorem portText_plain (p : Port) : PlainWord (portText p) := by
  refine ⟨portText_ne p,fun c hc => ?_⟩
  have h := digit_portText p c hc
  refine ⟨?_,?_,?_⟩ <;> rintro rfl <;> revert h <;> decide

theorem number_portText (p : Port) : number (portText p) = some p.val := by
  have hd : (portText p).all (fun c => '0' ≤ c && c ≤ '9') = true := by
    rw [List.all_eq_true]
    intro c hc
    simpa using digit_portText p c hc
  rw [number,if_pos ⟨portText_ne p,hd⟩]
  exact congrArg some (Nat.ofDigitChars_ten_toDigits (n := p.val))

def one (p : Port) : Range := ⟨p,p⟩

theorem range_portText (p : Port) : range (portText p) = some (one p) := by
  rw [range,List.splitOn_eq_singleton (not_mem_portText (by decide) p)]
  exact congrArg (Option.map _) (number_portText p)

def joined (ps : List Port) : Str := [','].intercalate (ps.map portText)

theorem portList_joined (ps : List Port) : portList (joined ps) = if ps = [] then none else some (ps.map one) := by
  have hm : ∀ ps : List Port, (ps.map portText).mapM range = some (ps.map one) := by
    intro ps
    induction ps with
    | nil => rfl
    | cons p ps ih =>
      rw [List.map_cons,List.mapM_cons,range_portText,ih]
      rfl
  by_cases h : ps = []
  · subst h
    rfl
  · have hs : (joined ps).splitOn ',' = ps.map portText := by
      refine List.splitOn_intercalate ',' (fun w hw => ?_) (by simpa using h)
      obtain ⟨p,-,rfl⟩ := List.mem_map.mp hw
      exact not_mem_portText (by decide) p
    rw [portList,hs,hm,if_neg h]

theorem joined_concat (ps : List Port) (p : Port) :
    joined (ps ++ [p]) = if ps = [] then portText p else joined ps ++ ',' :: portText p := by
  induction ps with
  | nil => simp [joined]
  | cons q ps ih =>
    rw [if_neg (List.cons_ne_nil q ps)]
    cases ps with
    | nil => simp [joined,List.intercalate_cons_cons]
    | cons r ps =>
      rw [if_neg (List.cons_ne_nil r ps)] at ih
      have hj : ∀ xs : List Port, joined (q::r::xs) = portText q ++ ',' :: joined (r::xs) := by
        intro xs
        unfold joined
        rw [List.map_cons,List.map_cons,List.intercalate_cons_cons,List.append_assoc]
        rfl
      rw [List.cons_append,List.cons_append,hj,hj,← List.cons_append,ih]
      simp

theorem joined_comma {ps : List Port} (h : ps ≠ []) : joined ps ++ [','] = ps.flatMap fun p => portText p ++ [','] := by
  rw [joined,LineText.intercalate_concat ',' (by simpa using h),List.flatMap_map]

/-- No comma stands at either end. -/
theorem joined_ends (ps : List Port) : (∀ c ∈ (joined ps).head?, c ≠ ',') ∧ ∀ c ∈ (joined ps).getLast?, c ≠ ',' := by
  have hdigit : ∀ p, ∀ c ∈ portText p, c ≠ ',' := by
    rintro p c hc rfl
    exact not_mem_portText (by decide) p hc
  constructor
  · cases ps with
    | nil => exact fun c hc => by cases hc
    | cons p ps =>
      intro c hc
      obtain ⟨t,ht⟩ : ∃ t, joined (p::ps) = portText p ++ t := by
        cases ps with
        | nil => exact ⟨[],by simp [joined]⟩
        | cons q ps => exact ⟨_,by rw [joined,List.map_cons,List.map_cons,List.intercalate_cons_cons,List.append_assoc]⟩
      rw [ht,List.head?_append_of_ne_nil _ (portText_ne p)] at hc
      exact hdigit p c (List.mem_of_mem_head? hc)
  · rcases List.eq_nil_or_concat' ps with rfl | ⟨ps,p,rfl⟩
    · exact fun c hc => by cases hc
    · intro c hc
      obtain ⟨t,ht⟩ : ∃ t, joined (ps ++ [p]) = t ++ portText p := by
        rw [joined_concat]
        split
        · exact ⟨[],rfl⟩
        · exact ⟨joined ps ++ [','],by simp⟩
      rw [ht,List.getLast?_append_of_ne_nil _ (portText_ne p)] at hc
      exact hdigit p c (List.mem_of_mem_getLast? hc)

theorem comma_iff {c : Char} : (",".toList).contains c = true ↔ c = ',' := by simp

theorem trimComma_joined (ps : List Port) : trimComma (joined ps) = joined ps := by
  obtain ⟨hh,hl⟩ := joined_ends ps
  refine (LineText.stripped_iff _).mpr ⟨fun c hc hb => hh c hc (comma_iff.mp hb),fun c hc hb => hl c hc (comma_iff.mp hb)⟩

theorem rtrimComma_joined (ps : List Port) : rtrimComma (joined ps) = joined ps := by
  refine List.rdropWhile_eq_self_iff.mpr fun hne hc => ?_
  exact (joined_ends ps).2 _ (List.getLast?_eq_getLast_of_ne_nil hne) (by simpa using hc)

def onPort (s : Option Service) : Option Port := s.bind fun v => if v.stat = true then some v.port else none

theorem onText_eq (s : Option Service) (behind : Str) :
    onText s behind = ((onPort s).map fun p => portText p ++ behind).getD [] := by
  unfold onText onPort
  cases s with
  | none => rfl
  | some v =>
    dsimp only [Option.bind_some]
    split <;> rfl

/-- Ports with a comma behind each, and perhaps one more port. -/
theorem ports_joined (a b c : Option Port) (f : Str → Str) (hj : ∀ ps, f (joined ps) = joined ps)
    (hc : ∀ s, f (s ++ [',']) = f s) :
    f ((a.map fun p => portText p ++ [',']).getD [] ++ (b.map fun p => portText p ++ [',']).getD [] ++
      (c.map fun p => portText p ++ []).getD []) = joined (a.toList ++ b.toList ++ c.toList) := by
  have hfront : (a.map fun p => portText p ++ [',']).getD [] ++ (b.map fun p => portText p ++ [',']).getD [] =
      (a.toList ++ b.toList).flatMap fun p => portText p ++ [','] := by
    cases a <;> cases b <;> simp
  rw [hfront]
  let front := a.toList ++ b.toList
  change f (front.flatMap (fun p => portText p ++ [',']) ++ _) = joined (front ++ c.toList)
  by_cases hn : front = []
  · rw [hn]
    cases c with
    | none => exact hj []
    | some p =>
      have hp : portText p = joined [p] := by simp [joined]
      simpa [hp] using hj [p]
  · rw [← joined_comma hn]
    cases c with
    | none =>
      rw [Option.map_none,Option.getD_none,List.append_nil,hc,hj,Option.toList_none,List.append_nil]
    | some p =>
      have hp : joined front ++ [','] ++ (portText p ++ []) = joined (front ++ [p]) := by
        rw [joined_concat,if_neg hn]
        simp
      rw [Option.map_some,Option.getD_some,hp,hj]
      rfl

theorem trimComma_comma (s : Str) : trimComma (s ++ [',']) = trimComma s :=
  LineText.strip_concat_blank _ (by decide) s

theorem rtrimComma_comma (s : Str) : rtrimComma (s ++ [',']) = rtrimComma s :=
  List.rdropWhile_concat_pos _ _ _ (by decide)

def onPorts : List Port := (onPort g.https).toList ++ (onPort g.ssh).toList ++ (onPort g.ftp).toList

def proxyPorts : List Port := g.httpProxyPort.toList ++ g.ftpProxyPort.toList ++ g.mailProxyPort.toList

theorem proxyText_joined (ps : List Port) (p : Option Port) : proxyText (joined ps) p = joined (ps ++ p.toList) := by
  cases p with
  | none => rw [proxyText,Option.toList_none,List.append_nil]
  | some p =>
    rw [proxyText,Option.toList_some,joined_concat]
    split
    · rename_i h
      have hp : portText p = joined [p] := by simp [joined]
      have hc : trimComma (',' :: portText p) = trimComma (portText p) := LineText.strip_cons_blank _ (by decide) _
      rw [h]
      change trimComma (',' :: portText p) = _
      rw [hc,hp,trimComma_joined]
    · rename_i h
      have hp : joined ps ++ ',' :: portText p = joined (ps ++ [p]) := by rw [joined_concat,if_neg h]
      rw [hp,trimComma_joined]

theorem aclPort_joined : aclPort g = joined (onPorts g ++ proxyPorts g) := by
  have h : trimComma (onText g.https "," ++ onText g.ssh "," ++ onText g.ftp []) = joined (onPorts g) := by
    rw [onText_eq,onText_eq,onText_eq]
    exact ports_joined _ _ _ trimComma trimComma_joined trimComma_comma
  rw [aclPort,h,proxyText_joined,proxyText_joined,proxyText_joined]
  simp only [proxyPorts,List.append_assoc]

def rowPorts (r : AccessRow) : List Port :=
  (if r.https = true then onPort g.https else none).toList ++ (if r.ssh = true then onPort g.ssh else none).toList ++
    (if r.ftp = true then onPort g.ftp else none).toList

theorem aport_joined (r : AccessRow) : aport g r = joined (rowPorts g r) := by
  have hif : ∀ (b : Bool) (s : Option Service) (behind : Str), (if b = true then onText s behind else []) =
      ((if b = true then onPort s else none).map fun p => portText p ++ behind).getD [] := by
    intro b s behind
    cases b with
    | true => exact onText_eq s behind
    | false => rfl
  rw [aport,hif,hif,hif]
  exact ports_joined _ _ _ rtrimComma rtrimComma_joined rtrimComma_comma

theorem ruleParts_tail {ws : List Word} {ts : List Test} (target : Word) (h : ∀ w ∈ ws, w ≠ []) (hl : ws.length % 2 = 0)
    (ht : tests ws = some ts) (hn : target ≠ []) :
    ruleParts ((ws ++ (["-j",target] : List Word)).filter (· ≠ [])) = some (ts,target) := by
  have hf : (ws ++ (["-j",target] : List Word)).filter (· ≠ []) = ws ++ (["-j",target] : List Word) := by
    refine List.filter_eq_self.mpr fun w hw => ?_
    rcases List.mem_append.mp hw with hw | hw
    · simpa using h w hw
    · simp only [List.mem_cons,List.not_mem_nil,or_false] at hw
      rcases hw with rfl | rfl
      · decide
      · simpa using hn
  have hj : ruleParts (["-j",target] : List Word) = some ([],target) := rfl
  rw [hf,ruleParts_append hl (by simp),ht,hj]
  simp

def protoTests (tcp : Bool) (more : List Opt) : List Test :=
  .opt (.proto (if tcp = true then 6 else 17))::.opt (.load (if tcp = true then .tcp else .udp))::more.map .opt

def protoText (tcp : Bool) : Word := if tcp = true then "tcp" else "udp"

theorem ruleParts_port (port target : Word) {r : Range} (hp : port ≠ []) (h : range port = some r) (ht : target ≠ []) :
    ruleParts ((["-p","udp","-m","udp","--dport",port,"-j",target] : List Word).filter (· ≠ [])) =
      some (protoTests false [.dport r],target) := by
  have hd : test "--dport" port = some (.opt (.dport r)) := by
    change ((range port).map Opt.dport).map Test.opt = _
    rw [h]
    rfl
  have hs : tests (["-p","udp","-m","udp","--dport",port] : List Word) = some (protoTests false [.dport r]) := by
    have he : tests (["-p","udp","-m","udp","--dport",port] : List Word) =
        (test "--dport" port).map fun t => [.opt (.proto 17),.opt (.load .udp),t] := by
      simp only [tests]
      cases test "--dport" port <;> rfl
    rw [he,hd]
    rfl
  exact ruleParts_tail target (by simp [hp]; decide) (by simp) hs ht

theorem ruleParts_dnsAccept (tcp : Bool) :
    ruleParts ((["-p",protoText tcp,"-m",protoText tcp,"--sport","53:65535",
      "--dport","53","-j","ACCEPT"] : List Word).filter (· ≠ [])) =
      some (protoTests tcp [.sport ⟨53,65535⟩,.dport ⟨53,53⟩],("ACCEPT" : Str)) := by
  cases tcp <;> rfl

theorem ruleParts_dnsDrop (tcp : Bool) :
    ruleParts ((["-p",protoText tcp,"-m",protoText tcp,
      "--dport","53","-j","DROP"] : List Word).filter (· ≠ [])) = some (protoTests tcp [.dport ⟨53,53⟩],("DROP" : Str)) := by
  cases tcp <;> rfl

def srcRule (src int : Word) (ts : List Test) : Option ChainRule :=
  (PacketFilter.net src).bind fun n => (PacketFilter.net int).map fun m => ⟨chain,.opt (.src n)::.opt (.dst m)::ts,"ACCEPT"⟩

def intRule (int : Word) (ts : List Test) : Option ChainRule :=
  (PacketFilter.net int).map fun m => ⟨chain,.opt (.dst m)::ts,"DROP"⟩

theorem srcRule_ne {src int : Word} {ts : List Test} :
    srcRule src int ts ≠ none ↔ PacketFilter.net src ≠ none ∧ PacketFilter.net int ≠ none := by
  unfold srcRule
  cases PacketFilter.net src <;> cases PacketFilter.net int <;> simp

theorem intRule_ne {int : Word} {ts : List Test} : intRule int ts ≠ none ↔ PacketFilter.net int ≠ none := by
  unfold intRule
  cases PacketFilter.net int <;> simp

theorem ruleOf_udpAccept (src int : Word) {port : Word} {r : Range} (hp : port ≠ []) (h : range port = some r) :
    ruleOf (udpAcceptWords src int port) = srcRule src int (protoTests false [.dport r]) :=
  (ruleOf_src src int ⟨"udp",by simp,by decide⟩ (ruleParts_port port "ACCEPT" hp h (by decide))).trans (by
    unfold srcRule
    cases PacketFilter.net src <;> cases PacketFilter.net int <;> rfl)

theorem ruleOf_udpDrop (int : Word) {port : Word} {r : Range} (hp : port ≠ []) (h : range port = some r) :
    ruleOf (portDropWords "udp" int port) = intRule int (protoTests false [.dport r]) :=
  (ruleOf_int int ⟨"udp",by simp,by decide⟩ (ruleParts_port port "DROP" hp h (by decide))).trans (by
    unfold intRule
    cases PacketFilter.net int <;> rfl)

theorem ruleOf_dnsAccept (src int : Word) (tcp : Bool) : ruleOf (dnsAcceptWords (protoText tcp) src int) =
    srcRule src int (protoTests tcp [.sport ⟨53,65535⟩,.dport ⟨53,53⟩]) :=
  (ruleOf_src src int ⟨"-m",by simp,by decide⟩ (ruleParts_dnsAccept tcp)).trans (by
    unfold srcRule
    cases PacketFilter.net src <;> cases PacketFilter.net int <;> rfl)

theorem ruleOf_dnsDrop (int : Word) (tcp : Bool) : ruleOf (portDropWords (protoText tcp) int "53") =
    intRule int (protoTests tcp [.dport ⟨53,53⟩]) :=
  (ruleOf_int int ⟨"-m",by simp,by decide⟩ (ruleParts_dnsDrop tcp)).trans (by
    unfold intRule
    cases PacketFilter.net int <;> rfl)

theorem ruleOf_accept (src int : Word) {ps : List Port} (hp : ps ≠ []) :
    ruleOf (acceptWords src int (joined ps)) = srcRule src int (tcpTests (ps.map one)) := by
  refine (ruleOf_src src int ⟨"tcp",by simp,by decide⟩ (ruleParts_tcp (joined ps) "ACCEPT" (by decide))).trans ?_
  rw [portList_joined,if_neg hp,srcRule]
  cases PacketFilter.net src <;> cases PacketFilter.net int <;> rfl

theorem ruleOf_drop (int : Word) (ps : List Port) : ruleOf (dropWords int (joined ps)) =
    if ps = [] then none else intRule int (tcpTests (ps.map one)) := by
  refine (ruleOf_int int ⟨"tcp",by simp,by decide⟩ (ruleParts_tcp (joined ps) "DROP" (by decide))).trans ?_
  rw [portList_joined,intRule]
  split <;> cases PacketFilter.net int <;> rfl

theorem onPort_eq_some {s : Option Service} {p : Port} : onPort s = some p ↔ ∃ v, s = some v ∧ v.stat = true ∧ v.port = p := by
  unfold onPort
  cases s with
  | none => simp
  | some v =>
    rw [Option.bind_some]
    split <;> rename_i h <;> simp [h]

theorem mem_onPorts {p : Port} : p ∈ onPorts g ↔ ∃ t, On g t p := by
  have hon : ∀ t, On g t p ↔ onPort (service g t) = some p := fun t => onPort_eq_some.symm
  simp only [onPorts,List.mem_append,Option.mem_toList]
  constructor
  · rintro ((h | h) | h)
    · exact ⟨.https,(hon _).mpr h⟩
    · exact ⟨.ssh,(hon _).mpr h⟩
    · exact ⟨.ftp,(hon _).mpr h⟩
  · rintro ⟨t,h⟩
    have h := (hon t).mp h
    cases t
    · exact Or.inl (Or.inl h)
    · exact Or.inl (Or.inr h)
    · exact Or.inr h

theorem mem_rowPorts {r : AccessRow} {p : Port} : p ∈ rowPorts g r ↔ ∃ t, On g t p ∧ r.grants t = true := by
  have hon : ∀ t, On g t p ↔ onPort (service g t) = some p := fun t => onPort_eq_some.symm
  have hif : ∀ (b : Bool) (s : Option Service), (if b = true then onPort s else none) = some p ↔ onPort s = some p ∧ b = true := by
    intro b s
    cases b <;> simp
  simp only [rowPorts,List.mem_append,Option.mem_toList,hif]
  constructor
  · rintro ((⟨h,hr⟩ | ⟨h,hr⟩) | ⟨h,hr⟩)
    · exact ⟨.https,(hon _).mpr h,hr⟩
    · exact ⟨.ssh,(hon _).mpr h,hr⟩
    · exact ⟨.ftp,(hon _).mpr h,hr⟩
  · rintro ⟨t,h,hr⟩
    have h := (hon t).mp h
    cases t
    · exact Or.inl (Or.inl ⟨h,hr⟩)
    · exact Or.inl (Or.inr ⟨h,hr⟩)
    · exact Or.inr ⟨h,hr⟩

theorem joined_eq_nil {ps : List Port} : joined ps = [] ↔ ps = [] := by
  constructor
  · intro h
    cases ps using List.reverseRecOn with
    | nil => rfl
    | append_singleton ps p =>
      rw [joined_concat] at h
      split at h
      · exact absurd h (portText_ne p)
      · simp at h
  · rintro rfl
    rfl

theorem ports_ne_nil : onPorts g ++ proxyPorts g ≠ [] ↔
    (∃ t p, On g t p) ∨ g.httpProxyPort ≠ none ∨ g.ftpProxyPort ≠ none ∨ g.mailProxyPort ≠ none := by
  have hon : onPorts g ≠ [] ↔ ∃ t p, On g t p := by
    constructor
    · intro h
      obtain ⟨p,hp⟩ := List.exists_mem_of_ne_nil _ h
      obtain ⟨t,ht⟩ := (mem_onPorts g).mp hp
      exact ⟨t,p,ht⟩
    · rintro ⟨t,p,ht⟩
      exact List.ne_nil_of_mem ((mem_onPorts g).mpr ⟨t,ht⟩)
  have hproxy : proxyPorts g ≠ [] ↔ g.httpProxyPort ≠ none ∨ g.ftpProxyPort ≠ none ∨ g.mailProxyPort ≠ none := by
    unfold proxyPorts
    cases g.httpProxyPort <;> cases g.ftpProxyPort <;> cases g.mailProxyPort <;> simp
  rw [← hon,← hproxy,Ne,List.append_eq_nil_iff,not_and_or]

theorem drop_readable (hi : policyGetData g ≠ []) : (∀ ws ∈ dropRules g, ruleOf ws ≠ none) ↔
    (∀ ip ∈ policyGetData g, PacketFilter.net ip.1 ≠ none) ∧ onPorts g ++ proxyPorts g ≠ [] := by
  unfold dropRules
  rw [List.forall_mem_map,aclPort_joined]
  simp only [ruleOf_drop]
  by_cases hp : onPorts g ++ proxyPorts g = []
  · obtain ⟨ip,hip⟩ := List.exists_mem_of_ne_nil _ hi
    simp only [hp,if_true]
    exact iff_of_false (fun h => h ip hip rfl) fun h => h.2 rfl
  · simp only [hp,if_false,intRule_ne]
    exact ⟨fun h => ⟨h,hp⟩,And.left⟩

/-- Rules for each source and each address, and some more for the addresses. -/
theorem product_readable {acl ints : List Text} {f : Text → Text → List (List Str)} {more : List (List Str)} (hi : ints ≠ [])
    (ha : ∀ ip ∈ ints, PacketFilter.net ip.1 ≠ none) (hne : ∀ s i, f s i ≠ [])
    (hf : ∀ s i, ∀ ws ∈ f s i, ruleOf ws ≠ none ↔ PacketFilter.net s.1 ≠ none ∧ PacketFilter.net i.1 ≠ none)
    (hm : ∀ ws ∈ more, ruleOf ws ≠ none) :
    (∀ ws ∈ (if acl = [] then [] else (acl.flatMap fun s => ints.flatMap (f s)) ++ more), ruleOf ws ≠ none) ↔
      ∀ s ∈ acl, PacketFilter.net s.1 ≠ none := by
  obtain ⟨ip,hip⟩ := List.exists_mem_of_ne_nil _ hi
  split
  · rename_i h
    simp [h]
  · rw [List.forall_mem_append]
    constructor
    · intro h s hs
      obtain ⟨ws,hws⟩ := List.exists_mem_of_ne_nil _ (hne s ip)
      exact ((hf s ip ws hws).mp (h.1 ws (List.mem_flatMap.mpr ⟨s,hs,List.mem_flatMap.mpr ⟨ip,hip,hws⟩⟩))).1
    · refine fun h => ⟨fun ws hws => ?_,hm⟩
      obtain ⟨s,hs,hws⟩ := List.mem_flatMap.mp hws
      obtain ⟨i,hi,hws⟩ := List.mem_flatMap.mp hws
      exact (hf s i ws hws).mpr ⟨h s hs,ha i hi⟩

section

variable (hi : policyGetData g ≠ []) (ha : ∀ ip ∈ policyGetData g, PacketFilter.net ip.1 ≠ none)
include hi ha

theorem udp_readable (acl : List Text) {port : Str} {r : Range} (hp : port ≠ []) (h : range port = some r) :
    (∀ ws ∈ udpRules g acl port, ruleOf ws ≠ none) ↔ ∀ s ∈ acl, PacketFilter.net s.1 ≠ none := by
  have hs : udpRules g acl port = if acl = [] then [] else (acl.flatMap fun s => (policyGetData g).flatMap fun ip =>
      [udpAcceptWords s.1 ip.1 port]) ++ (policyGetData g).map fun ip => portDropWords "udp" ip.1 port := by
    simp only [udpRules,List.map_eq_flatMap]
  rw [hs]
  refine product_readable hi ha (fun s i => List.cons_ne_nil _ _) (fun s i ws hws => ?_) fun ws hws => ?_
  · rw [List.mem_singleton.mp hws,ruleOf_udpAccept _ _ hp h]
    exact srcRule_ne
  · obtain ⟨ip,hip,rfl⟩ := List.mem_map.mp hws
    rw [ruleOf_udpDrop _ hp h]
    exact intRule_ne.mpr (ha ip hip)

theorem dns_readable : (∀ ws ∈ doPolicyDns g, ruleOf ws ≠ none) ↔ ∀ s ∈ g.dns, PacketFilter.net s.1 ≠ none := by
  refine product_readable (f := fun s ip => [dnsAcceptWords "udp" s.1 ip.1,dnsAcceptWords "tcp" s.1 ip.1]) hi ha
    (fun s i => List.cons_ne_nil _ _) (fun s i ws hws => ?_) fun ws hws => ?_
  · simp only [List.mem_cons,List.not_mem_nil,or_false] at hws
    rcases hws with rfl | rfl
    · exact (ruleOf_dnsAccept s.1 i.1 false) ▸ srcRule_ne
    · exact (ruleOf_dnsAccept s.1 i.1 true) ▸ srcRule_ne
  · obtain ⟨ip,hip,hws⟩ := List.mem_flatMap.mp hws
    simp only [List.mem_cons,List.not_mem_nil,or_false] at hws
    rcases hws with rfl | rfl
    · exact (ruleOf_dnsDrop ip.1 false) ▸ intRule_ne.mpr (ha ip hip)
    · exact (ruleOf_dnsDrop ip.1 true) ▸ intRule_ne.mpr (ha ip hip)

theorem access_readable : (∀ ws ∈ accessRules g, ruleOf ws ≠ none) ↔
    ∀ r ∈ g.accesslist, r.stat = true → rowPorts g r ≠ [] → PacketFilter.net r.ip.1 ≠ none := by
  have hnonempty : ∀ ip ∈ policyGetData g, ip.1 ≠ [] := by
    intro ip hip he
    exact ha ip hip (by rw [he]; rfl)
  have hfilter : (policyGetData g).filter (fun ip => ip.1 ≠ []) = policyGetData g :=
    List.filter_eq_self.mpr fun ip hip => by simpa using hnonempty ip hip
  have hrow : ∀ r, (∀ ws ∈ rowRules g r, ruleOf ws ≠ none) ↔ (rowPorts g r ≠ [] → PacketFilter.net r.ip.1 ≠ none) := by
    intro r
    rw [rowRules,aport_joined,hfilter]
    by_cases hp : rowPorts g r = []
    · simp [hp,joined_eq_nil.mpr]
    · obtain ⟨ip,hip⟩ := List.exists_mem_of_ne_nil _ hi
      rw [if_neg (fun h => hp (joined_eq_nil.mp h)),List.forall_mem_map]
      simp only [ruleOf_accept _ _ hp,srcRule_ne]
      exact ⟨fun h _ => (h ip hip).1,fun h i hi => ⟨h hp,ha i hi⟩⟩
  unfold accessRules
  rw [List.forall_mem_flatMap]
  simp only [hrow,List.mem_filter,and_imp]

end

/-- The table is taken exactly if every text that is written stands for an address, and some port is collected. -/
theorem readable_iff (hi : policyGetData g ≠ []) : (∀ ws ∈ rules g, ruleOf ws ≠ none) ↔
    (∀ ip ∈ policyGetData g, PacketFilter.net ip.1 ≠ none) ∧
    (∀ r ∈ g.accesslist, r.stat = true → rowPorts g r ≠ [] → PacketFilter.net r.ip.1 ≠ none) ∧
    (∀ s ∈ g.snmp ++ g.ntp ++ g.dns, PacketFilter.net s.1 ≠ none) ∧ onPorts g ++ proxyPorts g ≠ [] := by
  have hsnmp := fun ha => udp_readable g hi ha g.snmp (portText_ne g.snmpPort) (range_portText g.snmpPort)
  have hntp := fun ha => udp_readable g hi ha g.ntp (show ("123" : Str) ≠ [] by decide)
    (show range ("123" : Str) = some ⟨123,123⟩ by decide)
  simp only [rules,List.forall_mem_append]
  rw [drop_readable g hi]
  constructor
  · rintro ⟨⟨⟨⟨hacc,hs⟩,hn⟩,hd⟩,ha,hp⟩
    exact ⟨ha,(access_readable g hi ha).mp hacc,⟨⟨(hsnmp ha).mp hs,(hntp ha).mp hn⟩,(dns_readable g hi ha).mp hd⟩,hp⟩
  · rintro ⟨ha,hacc,⟨⟨hs,hn⟩,hd⟩,hp⟩
    exact ⟨⟨⟨⟨(access_readable g hi ha).mpr hacc,(hsnmp ha).mpr hs⟩,(hntp ha).mpr hn⟩,(dns_readable g hi ha).mpr hd⟩,ha,hp⟩

end AdminPolicy
end Mybox
