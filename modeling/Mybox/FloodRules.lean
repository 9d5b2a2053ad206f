import Mybox.PolicyTables
import Mybox.RuleTables

/-! Version 3.0: protection against floods. For each of three protocols packets go through limits by their source, by
their destination or by both, and what exceeds a limit is dropped. -/
namespace Mybox
namespace FloodRules
open Php RuleTables
open PolicyTables (Arrays choices listSrcdstArray)

inductive Proto
  | icmp
  | tcp
  | udp
  deriving DecidableEq

/-- `$_IPS_DOS` -/
inductive Mode
  | source
  | dest
  | both
  deriving DecidableEq

/-- The settings of a protocol. -/
structure Flood where
  stat : Bool
  log : Bool
  mode : Mode
  src_rate : Str
  dst_rate : Str

structure Exclude where
  src : Str
  dst : Str
  icmpf : Bool
  tcpf : Bool
  udpf : Bool

structure World where
  icmp : Flood
  tcp : Flood
  udp : Flood
  gw_ip : Str
  excludes : List Exclude
  arrays : Arrays
  /-- What stands before `-j ACL1011-07` in the lines of `FT` and `FU`. -/
  ft : List Str
  fu : List Str

def World.flood (w : World) : Proto → Flood
  | .icmp => w.icmp
  | .tcp => w.tcp
  | .udp => w.udp

def Exclude.flag (x : Exclude) : Proto → Bool
  | .icmp => x.icmpf
  | .tcp => x.tcpf
  | .udp => x.udpf

def accepts : Str := "ACL1011-07"

/-- The matches of a name; `o` is `-s` or `-d`. -/
def column (a : Arrays) (name : Str) (opt : PolicyTables.Opt) (o : Str) : List Str :=
  if name = [] then []
  else
    let dev := a.namedev.getD name []
    if dev ≠ [] then [o ++ dev]
    else if a.defnet.get? name = none then [] else listSrcdstArray a.defnet name opt []

def sources (a : Arrays) (x : Exclude) : List Str := column a (trim x.src) .src "-s ".toList

def dests (a : Arrays) (x : Exclude) : List Str := column a (trim x.dst) .dst "-d ".toList

/-- `ips_exclude`, for one row. -/
def excludeRow (chain : Str) (a : Arrays) (x : Exclude) : List Rule :=
  if sources a x = [] ∧ dests a x = [] then []
  else (choices (sources a x)).flatMap fun src => (choices (dests a x)).map fun dst =>
    ⟨chain,(src ++ dst).map .words,.chain accepts⟩

def ipsExclude (chain : Str) (p : Proto) (w : World) : List Rule :=
  (w.excludes.filter fun x => x.flag p).flatMap (excludeRow chain w.arrays)

/-- The chains of a protocol, the name of its list and the note that is taken. -/
structure Names where
  main : Str
  full : Str
  dst : Str
  src : Str
  list : Str
  note : Str

def names : Proto → Names
  | .icmp => ⟨"ACL1011-02","ACL1011-03","ACL1011-05","ACL1011-04","dos_icmp","ICMP_FLOOD: "⟩
  | .tcp => ⟨"ACL1011-09","ACL1011-10","ACL1011-11","ACL1011-12","dos_tcp","SYNC_FLOOD: "⟩
  | .udp => ⟨"ACL1011-13","ACL1011-14","ACL1011-15","ACL1011-16","dos_udp","UDP_FLOOD: "⟩

def noteMatches (p : Proto) (m : Mode) : List Match :=
  match p, m with
  | .icmp, _ => [.recent "dos_icmp" (some .set),.limited]
  | .tcp, .both => [.recent "dos_tcp" (some .set),.limited]
  | .tcp, .source => [.recent "dos_tcp" (some .set),.words "-m limit -m limit --limit 5/sec --limit-burst 10"]
  | .tcp, .dest => [.recent "dos_tcp" none,.limited]
  | .udp, _ => [.recent "dos_ucp" (some .set),.limited]

def srcBurst : Proto → Str
  | .icmp => "2"
  | .tcp => "30"
  | .udp => "60"

def dstBurst : Proto → Str
  | .icmp => "2"
  | .tcp => "60"
  | .udp => "60"

def srcLimit (p : Proto) (rate : Str) : Limit := ⟨rate,srcBurst p,"srcip",(names p).src⟩

def dstLimit (p : Proto) (rate : Str) : Limit := ⟨rate,dstBurst p,"dstip",(names p).dst⟩

/-- The rate for a destination, when the rules are written. -/
def dstRate (p : Proto) (f : Flood) : Str := if p = .udp ∧ f.mode = .dest then "400" else f.dst_rate

def fullRules (p : Proto) (f : Flood) : List Rule :=
  let n := names p
  [⟨n.full,[.recent n.list (some (.rcheck "300"))],.drop⟩,⟨n.full,[.recent n.list (some .remove)],.none⟩] ++
    (if f.log then [⟨n.full,noteMatches p f.mode,.nflog n.note⟩] else []) ++
    [⟨n.full,[.recent n.list (some .set)],.drop⟩]

def limitRules (p : Proto) (f : Flood) : List Rule :=
  let n := names p
  match f.mode with
  | .both => [⟨n.main,[],.chain n.src⟩] ++ fullRules p f ++
      [⟨n.dst,[.hashlimit (dstLimit p (dstRate p f))],.chain accepts⟩,⟨n.dst,[],.chain n.full⟩,
        ⟨n.src,[.hashlimit (srcLimit p f.src_rate)],.chain n.dst⟩,⟨n.src,[],.chain n.full⟩]
  | .source => [⟨n.main,[],.chain n.src⟩] ++ fullRules p f ++
      [⟨n.src,[.hashlimit (srcLimit p f.src_rate)],.chain accepts⟩,⟨n.src,[],.chain n.full⟩]
  | .dest => [⟨n.main,[],.chain n.dst⟩] ++ fullRules p f ++
      [⟨n.dst,[.hashlimit (dstLimit p (dstRate p f))],.chain accepts⟩,⟨n.dst,[],.chain n.full⟩]

/-- The rule for the gateway stands in the chain of ICMP for all protocols. -/
def gwRules (w : World) : List Rule :=
  if w.gw_ip = [] then [] else [⟨(names .icmp).main,[.source w.gw_ip],.chain accepts⟩]

def accessRules (p : Proto) (ls : List Str) : List Rule := ls.map fun l => ⟨(names p).main,[.words l],.chain accepts⟩

def icmpRules (w : World) : List Rule :=
  gwRules w ++ (ipsExclude (names .icmp).main .icmp w ++ limitRules .icmp w.icmp)

def tcpRules (w : World) : List Rule :=
  ⟨(names .tcp).main,[.notSyn],.chain accepts⟩::(gwRules w ++ (ipsExclude (names .tcp).main .tcp w ++
    (accessRules .tcp w.ft ++ limitRules .tcp w.tcp)))

def udpRules (w : World) : List Rule :=
  gwRules w ++ (ipsExclude (names .udp).main .udp w ++ (accessRules .udp w.fu ++ limitRules .udp w.udp))

def localNet : List Match := [.source "127.0.0.0/255.0.0.0",.dest "127.0.0.0/255.0.0.0"]

def headRules (w : World) : List Rule :=
  [⟨"PREROUTING",localNet,.chain "ACL1011-06"⟩,⟨"PREROUTING",[],.chain "ACL1011-01"⟩,
    ⟨"PREROUTING",[],.chain accepts⟩,⟨"OUTPUT",localNet,.chain "ACL1011-06"⟩,⟨"ACL1011-06",[],.notrack⟩,
    ⟨"ACL1011-06",[],.accept⟩,⟨accepts,[],.accept⟩] ++
    ((if w.tcp.stat then [⟨"ACL1011-01",[.words "-p tcp"],.chain (names .tcp).main⟩] else []) ++
      ((if w.udp.stat then [⟨"ACL1011-01",[.words "-p udp"],.chain (names .udp).main⟩] else []) ++
        (if w.icmp.stat then [⟨"ACL1011-01",[.words "-p icmp"],.chain (names .icmp).main⟩] else [])))

def dosRules (w : World) : List Rule :=
  headRules w ++ ((if w.icmp.stat then icmpRules w else []) ++
    ((if w.tcp.stat then tcpRules w else []) ++ (if w.udp.stat then udpRules w else [])))

/-- What `do_policy_dos` leaves in the table: it is cleared first. -/
def doPolicyDos (e : RuleTables.Env) (w : World) : List Rule :=
  if w.icmp.stat = true ∨ w.tcp.stat = true ∨ w.tcp.stat = true then (load e (dosRules w)).getD [] else []

def Of (p : Proto) (x : Seen) : Prop :=
  match p, x.frame.packet.payload with
  | .tcp, .tcp _ _ => x.syn = true
  | .udp, .udp _ _ => True
  | .icmp, .icmp _ _ => True
  | _, _ => False

def limits (p : Proto) (f : Flood) : List Limit :=
  match f.mode with
  | .source => [srcLimit p f.src_rate]
  | .dest => [dstLimit p f.dst_rate]
  | .both => [srcLimit p f.src_rate,dstLimit p f.dst_rate]

def Gateway (w : World) (x : Seen) : Prop :=
  w.gw_ip ≠ [] ∧ (area w.gw_ip).any (fun a => a.has x.frame.packet.src) = true

/-- The source of the packet is an excluded address. -/
def Excluded (e : RuleTables.Env) (p : Proto) (w : World) (x : Seen) : Prop :=
  ∃ r ∈ w.excludes, r.flag p = true ∧ ∃ t ∈ sources w.arrays r, t ≠ [] ∧ (Match.words t).holds e x = true

def Due (e : RuleTables.Env) (p : Proto) (w : World) (x : Seen) : Prop :=
  (w.flood p).stat = true ∧ ¬Gateway w x ∧ ¬Excluded e p w x

/-- The same packets, with other answers of the limits and the lists. -/
def told (e : RuleTables.Env) (within : Limit → Seen → Bool) (listed : Str → Recent → Seen → Bool) : RuleTables.Env :=
  {e with within := within, listed := listed}

/-- The packet is dropped just when it exceeds one of the limits. -/
def Through (e : RuleTables.Env) (w : World) (x : Seen) (ls : List Limit) : Prop :=
  ∀ within listed, walk (told e within listed) (doPolicyDos e w) x 6 "PREROUTING" ≠ some .drop ↔
    ∀ l ∈ ls, within l x = true

/-- A packet of the protocol goes through the limits of its mode when it is to, and through none otherwise. -/
def Exact (e : RuleTables.Env) (p : Proto) (w : World) (x : Seen) : Prop :=
  (Due e p w x → Through e w x (limits p (w.flood p))) ∧ (¬Due e p w x → Through e w x [])

def Local (e : RuleTables.Env) (x : Seen) : Prop := ∀ m ∈ localNet, m.holds e x = true

/-- The lines of the other policies for a protocol. -/
def World.access (w : World) : Proto → List Str
  | .icmp => []
  | .tcp => w.ft
  | .udp => w.fu

/-- All rules can be read, and the one that takes a note of a TCP packet names an operation. -/
structure Fit (e : RuleTables.Env) (w : World) : Prop where
  src : ∀ p, (w.flood p).stat = true → (w.flood p).mode ≠ .dest → e.rate (w.flood p).src_rate = true
  dst : ∀ p, (w.flood p).stat = true → (w.flood p).mode ≠ .source → e.rate (dstRate p (w.flood p)) = true
  gw : w.gw_ip ≠ [] → (area w.gw_ip).isSome = true
  excludes : ∀ p, (w.flood p).stat = true → ∀ r ∈ ipsExclude (names p).main p w, r.Readable e
  access : ∀ p, (w.flood p).stat = true → ∀ l ∈ w.access p, ((Match.words l).reads e).isSome = true
  note : ¬(w.tcp.stat = true ∧ w.tcp.log = true ∧ w.tcp.mode = .dest)

/-- The rules for the protocol are in place, and none before the limits lets the packet pass. -/
structure InForce (e : RuleTables.Env) (p : Proto) (w : World) (x : Seen) : Prop where
  on : w.icmp.stat = true ∨ w.tcp.stat = true
  fit : Fit e w
  stat : (w.flood p).stat = true
  remote : ¬Local e x
  gateway : p = .icmp → ¬Gateway w x
  excluded : ¬∃ r ∈ ipsExclude (names p).main p w, r.applies e x = true
  access : ¬∃ l ∈ w.access p, (Match.words l).holds e x = true

section Chains

variable (w : World)

def of (c : Str) (rs : List Rule) : List Rule := rs.filter fun r => r.chain = c

theorem of_append (c : Str) (rs rs' : List Rule) : of c (rs ++ rs') = of c rs ++ of c rs' := List.filter_append ..

theorem of_cons (c : Str) (r : Rule) (rs : List Rule) : of c (r::rs) = of c [r] ++ of c rs := of_append c [r] rs

theorem of_none {c : Str} {rs : List Rule} {l : List Str} (h : ∀ r ∈ rs, r.chain ∈ l) (hc : c ∉ l) : of c rs = [] :=
  List.filter_eq_nil_iff.mpr fun r hr he => hc (of_decide_eq_true he ▸ h r hr)

theorem of_all {c : Str} {rs : List Rule} (h : ∀ r ∈ rs, r.chain = c) : of c rs = rs :=
  List.filter_eq_self.mpr fun r hr => decide_eq_true (h r hr)

def chainsOf (n : Names) : List Str := [n.main,n.full,n.dst,n.src]

theorem limitRules_chains (p : Proto) (f : Flood) : ∀ r ∈ limitRules p f, r.chain ∈ chainsOf (names p) := by
  have hfull : ∀ r ∈ fullRules p f, r.chain ∈ chainsOf (names p) := by
    intro r hr
    have hc : r.chain = (names p).full := by
      unfold fullRules at hr
      simp only [List.mem_append,List.mem_cons,List.not_mem_nil,or_false] at hr
      rcases hr with ((rfl | rfl) | hr) | rfl
      · rfl
      · rfl
      · split at hr
        · rw [List.mem_singleton.mp hr]
        · exact (List.not_mem_nil hr).elim
      · rfl
    rw [hc]
    simp [chainsOf]
  unfold limitRules
  cases f.mode <;> simp only [List.forall_mem_append,List.forall_mem_cons] <;> simp [chainsOf] <;> simpa [chainsOf] using hfull

theorem gwRules_chain : ∀ r ∈ gwRules w, r.chain = (names .icmp).main := by
  unfold gwRules
  split
  · simp
  · simp

theorem ipsExclude_chain (c : Str) (p : Proto) : ∀ r ∈ ipsExclude c p w, r.chain = c := by
  intro r hr
  obtain ⟨y,-,hr⟩ := List.mem_flatMap.mp hr
  unfold excludeRow at hr
  split at hr
  · exact (List.not_mem_nil hr).elim
  · obtain ⟨s,-,hr⟩ := List.mem_flatMap.mp hr
    obtain ⟨d,-,rfl⟩ := List.mem_map.mp hr
    rfl

theorem accessRules_chain (p : Proto) (ls : List Str) : ∀ r ∈ accessRules p ls, r.chain = (names p).main := by
  intro r hr
  obtain ⟨l,-,rfl⟩ := List.mem_map.mp hr
  rfl

def blockRules : Proto → List Rule
  | .icmp => if w.icmp.stat then icmpRules w else []
  | .tcp => if w.tcp.stat then tcpRules w else []
  | .udp => if w.udp.stat then udpRules w else []

theorem blockRules_chains (p : Proto) : ∀ r ∈ blockRules w p, r.chain ∈ (names .icmp).main::chainsOf (names p) := by
  have hmain : ∀ q : Proto, (names q).main ∈ (names .icmp).main::chainsOf (names q) := by simp [chainsOf]
  have hgw : ∀ r ∈ gwRules w, r.chain ∈ (names .icmp).main::chainsOf (names p) := fun r hr => by
    rw [gwRules_chain w r hr]
    exact List.mem_cons_self
  have hex : ∀ q, ∀ r ∈ ipsExclude (names q).main q w, r.chain ∈ (names .icmp).main::chainsOf (names q) := fun q r hr => by
    rw [ipsExclude_chain w _ q r hr]
    exact hmain q
  have hac : ∀ q ls, ∀ r ∈ accessRules q ls, r.chain ∈ (names .icmp).main::chainsOf (names q) := fun q ls r hr => by
    rw [accessRules_chain q ls r hr]
    exact hmain q
  have hli : ∀ q f, ∀ r ∈ limitRules q f, r.chain ∈ (names .icmp).main::chainsOf (names q) := fun q f r hr =>
    List.mem_cons_of_mem _ (limitRules_chains q f r hr)
  have hif : ∀ (c : Bool) (l : List Rule) (cs : List Str), (∀ r ∈ l, r.chain ∈ cs) →
      ∀ r ∈ (if c then l else []), r.chain ∈ cs := by
    intro c l cs h r hr
    split at hr
    · exact h r hr
    · exact (List.not_mem_nil hr).elim
  cases p with
  | icmp =>
    refine hif _ _ _ ?_
    simp only [icmpRules,List.forall_mem_append]
    exact ⟨hgw,hex .icmp,hli .icmp _⟩
  | tcp =>
    refine hif _ _ _ ?_
    simp only [tcpRules,List.forall_mem_cons,List.forall_mem_append]
    exact ⟨hmain .tcp,hgw,hex .tcp,hac .tcp _,hli .tcp _⟩
  | udp =>
    refine hif _ _ _ ?_
    simp only [udpRules,List.forall_mem_append]
    exact ⟨hgw,hex .udp,hac .udp _,hli .udp _⟩

theorem dosRules_eq : dosRules w = headRules w ++ (blockRules w .icmp ++ (blockRules w .tcp ++ blockRules w .udp)) := rfl

theorem headRules_chains : ∀ r ∈ headRules w, r.chain ∈
    (["PREROUTING","OUTPUT","ACL1011-06",accepts,"ACL1011-01"] : List Str) := by
  have hif : ∀ (c : Bool) (m : List Match) (t : Target), ∀ r ∈ (if c then [(⟨"ACL1011-01",m,t⟩ : Rule)] else []),
      r.chain = "ACL1011-01" := by
    intro c m t r hr
    split at hr
    · rw [List.mem_singleton.mp hr]
    · exact (List.not_mem_nil hr).elim
  intro r hr
  rw [headRules,List.mem_append,List.mem_append,List.mem_append] at hr
  rcases hr with hr | hr | hr | hr
  · revert r
    simp only [List.forall_mem_cons]
    simp
  all_goals
    rw [hif _ _ _ r hr]
    simp

theorem chains_apart {p q : Proto} (h : p ≠ q) : ∀ c ∈ chainsOf (names p), c ∉ chainsOf (names q) := by
  cases p <;> cases q <;> first | decide | exact absurd rfl h

theorem chains_behind (p : Proto) : ∀ c ∈ chainsOf (names p),
    c ∉ (["PREROUTING","OUTPUT","ACL1011-06",accepts,"ACL1011-01"] : List Str) := by
  cases p <;> decide

theorem main_ne {p : Proto} {c : Str} (hc : c ∈ chainsOf (names p)) (hm : c ≠ (names p).main) :
    c ≠ (names .icmp).main := by
  rintro rfl
  cases p with
  | icmp => exact hm rfl
  | tcp | udp => exact chains_apart (q:=.icmp) (by decide) _ hc (by simp [chainsOf])

theorem of_front {c : Str} (hc : ∀ p, c ∉ (names .icmp).main::chainsOf (names p)) :
    of c (dosRules w) = of c (headRules w) := by
  rw [dosRules_eq,of_append,of_append,of_append,of_none (blockRules_chains w .icmp) (hc .icmp),
    of_none (blockRules_chains w .tcp) (hc .tcp),of_none (blockRules_chains w .udp) (hc .udp)]
  simp

theorem of_block {p : Proto} {c : Str} (hc : c ∈ chainsOf (names p)) (hm : c ≠ (names .icmp).main) :
    of c (dosRules w) = of c (blockRules w p) := by
  have hhead : of c (headRules w) = [] := of_none (headRules_chains w) (chains_behind p c hc)
  have hother : ∀ q, p ≠ q → of c (blockRules w q) = [] := by
    intro q hq
    refine of_none (blockRules_chains w q) ?_
    rw [List.mem_cons,not_or]
    exact ⟨hm,chains_apart hq c hc⟩
  rw [dosRules_eq,of_append,of_append,of_append,hhead]
  cases p with
  | icmp => rw [hother .tcp (by decide),hother .udp (by decide)]; simp
  | tcp => rw [hother .icmp (by decide),hother .udp (by decide)]; simp
  | udp => rw [hother .icmp (by decide),hother .tcp (by decide)]; simp

def passRules (p : Proto) : List Rule :=
  match p with
  | .icmp => gwRules w ++ ipsExclude (names .icmp).main .icmp w
  | .tcp => ⟨(names .tcp).main,[.notSyn],.chain accepts⟩::(ipsExclude (names .tcp).main .tcp w ++ accessRules .tcp w.ft)
  | .udp => ipsExclude (names .udp).main .udp w ++ accessRules .udp w.fu

def firstChain (p : Proto) (m : Mode) : Str := if m = .dest then (names p).dst else (names p).src

theorem of_limitRules (p : Proto) (f : Flood) :
    of (names p).main (limitRules p f) = [⟨(names p).main,[],.chain (firstChain p f.mode)⟩] ∧
    of (names p).full (limitRules p f) = fullRules p f ∧
    of (names p).dst (limitRules p f) = (if f.mode = .source then [] else
      [⟨(names p).dst,[.hashlimit (dstLimit p (dstRate p f))],.chain accepts⟩,⟨(names p).dst,[],.chain (names p).full⟩]) ∧
    of (names p).src (limitRules p f) = (if f.mode = .dest then [] else
      [⟨(names p).src,[.hashlimit (srcLimit p f.src_rate)],.chain (if f.mode = .both then (names p).dst else accepts)⟩,
        ⟨(names p).src,[],.chain (names p).full⟩]) := by
  obtain ⟨stat,log,mode,sr,dr⟩ := f
  cases p <;> cases mode <;> cases log <;> exact ⟨rfl,rfl,rfl,rfl⟩

/-- The chains of the limits of a protocol that is on. -/
theorem of_limits {p : Proto} (hs : (w.flood p).stat = true) {c : Str} (hc : c ∈ chainsOf (names p))
    (hm : c ≠ (names p).main) : of c (dosRules w) = of c (limitRules p (w.flood p)) := by
  have hne := main_ne hc hm
  have hgw : of c (gwRules w) = [] :=
    of_none (l:=[(names .icmp).main]) (fun r hr => by rw [gwRules_chain w r hr]; simp) (by simpa using hne)
  have hex : of c (ipsExclude (names p).main p w) = [] :=
    of_none (l:=[(names p).main]) (fun r hr => by rw [ipsExclude_chain w _ p r hr]; simp) (by simpa using hm)
  have hac : ∀ ls, of c (accessRules p ls) = [] := fun ls =>
    of_none (l:=[(names p).main]) (fun r hr => by rw [accessRules_chain p ls r hr]; simp) (by simpa using hm)
  rw [of_block w hc hne]
  cases p with
  | icmp =>
    rw [blockRules,if_pos (show w.icmp.stat = true from hs),icmpRules,of_append,of_append,hgw,hex]
    rfl
  | tcp =>
    have hsyn : of c [⟨(names .tcp).main,[.notSyn],.chain accepts⟩] = [] :=
      of_none (l:=[(names .tcp).main]) (by simp) (by simpa using hm)
    rw [blockRules,if_pos (show w.tcp.stat = true from hs),tcpRules,of_cons,of_append,of_append,of_append,hgw,hex,hac,hsyn]
    rfl
  | udp =>
    rw [blockRules,if_pos (show w.udp.stat = true from hs),udpRules,of_append,of_append,of_append,hgw,hex,hac]
    rfl

/-- The chain of a protocol that is on; behind the jump there may be rules of the gateway. -/
theorem of_main {p : Proto} (hs : (w.flood p).stat = true) : ∃ rest, of (names p).main (dosRules w) =
    passRules w p ++ ⟨(names p).main,[],.chain (firstChain p (w.flood p).mode)⟩::rest := by
  have hex := of_all (ipsExclude_chain w (names p).main p)
  have hac := fun ls => of_all (accessRules_chain p ls)
  have hli := (of_limitRules p (w.flood p)).1
  cases p with
  | icmp =>
    have hhead : of (names .icmp).main (headRules w) = [] := of_none (headRules_chains w) (by decide)
    have hgw := of_all (gwRules_chain w)
    refine ⟨of (names .icmp).main (blockRules w .tcp ++ blockRules w .udp),?_⟩
    rw [dosRules_eq,of_append,of_append,hhead,blockRules,if_pos (show w.icmp.stat = true from hs),icmpRules,of_append,of_append,hgw,hex]
    change [] ++ ((_ ++ (_ ++ of _ (limitRules .icmp (w.flood .icmp)))) ++ _) = _
    rw [hli,passRules]
    simp
  | tcp =>
    have hgw : of (names .tcp).main (gwRules w) = [] :=
      of_none (l:=[(names .icmp).main]) (fun r hr => by rw [gwRules_chain w r hr]; simp) (by decide)
    refine ⟨[],?_⟩
    rw [of_block w (p:=.tcp) (by simp [chainsOf]) (by decide),blockRules,if_pos (show w.tcp.stat = true from hs),tcpRules,of_cons,
      of_append,of_append,of_append,hgw,hex,hac]
    change _ ++ ([] ++ (_ ++ (_ ++ of _ (limitRules .tcp (w.flood .tcp))))) = _
    rw [hli,passRules,of_all (by simp)]
    simp
  | udp =>
    have hgw : of (names .udp).main (gwRules w) = [] :=
      of_none (l:=[(names .icmp).main]) (fun r hr => by rw [gwRules_chain w r hr]; simp) (by decide)
    refine ⟨[],?_⟩
    rw [of_block w (p:=.udp) (by simp [chainsOf]) (by decide),blockRules,if_pos (show w.udp.stat = true from hs),udpRules,of_append,of_append,of_append,
      hgw,hex,hac]
    change [] ++ (_ ++ (_ ++ of _ (limitRules .udp (w.flood .udp)))) = _
    rw [hli,passRules]
    simp

end Chains

section Walk

variable {e : RuleTables.Env} {w : World} {x : Seen} {p : Proto}

theorem walk_succ (rs : List Rule) (n : ℕ) (c : Str) :
    walk e rs x (n + 1) c = follow e (walk e rs x n) x (of c rs) := rfl

theorem applies_nil (c : Str) (t : Target) : Rule.applies e x ⟨c,[],t⟩ = true := rfl

theorem follow_jump {jump : Str → Option Verdict} {v : Verdict} {c d : Str} (h : jump d = some v) (rs : List Rule) :
    follow e jump x (⟨c,[],.chain d⟩::rs) = some v := by
  rw [follow,if_pos (applies_nil c _)]
  dsimp only
  rw [h]
  rfl

theorem follow_pass_one {jump : Str → Option Verdict} {d : Str} (h : jump d = some .accept) {r : Rule}
    (hr : r.target = .chain d) (rs : List Rule) :
    follow e jump x (r::rs) = if r.applies e x = true then some .accept else follow e jump x rs := by
  rw [follow,hr]
  split
  · dsimp only
    rw [h]
    rfl
  · rfl

theorem follow_passes {jump : Str → Option Verdict} {d : Str} (h : jump d = some .accept) {rs : List Rule}
    (hr : ∀ r ∈ rs, r.target = .chain d) (rest : List Rule) :
    ((∃ r ∈ rs, r.applies e x = true) → follow e jump x (rs ++ rest) = some .accept) ∧
      ((¬∃ r ∈ rs, r.applies e x = true) → follow e jump x (rs ++ rest) = follow e jump x rest) := by
  induction rs with
  | nil => exact ⟨fun ⟨_,hm,_⟩ => (List.not_mem_nil hm).elim,fun _ => rfl⟩
  | cons r rs ih =>
    rw [List.forall_mem_cons] at hr
    rw [List.cons_append,follow_pass_one h hr.1]
    simp only [List.mem_cons,or_and_right,exists_or,exists_eq_left]
    by_cases ha : r.applies e x = true
    · exact ⟨fun _ => if_pos ha,fun hn => absurd (Or.inl ha) hn⟩
    · rw [if_neg ha]
      exact ⟨fun he => (ih hr.2).1 (he.resolve_left ha),fun hn => (ih hr.2).2 fun he => hn (Or.inr he)⟩

theorem walk_accepts (w : World) (n : ℕ) : walk e (dosRules w) x (n + 1) accepts = some .accept := by
  have hof : of accepts (dosRules w) = [⟨accepts,[],.accept⟩] := by
    rw [of_front w (by intro q; cases q <;> decide),headRules]
    cases w.tcp.stat <;> cases w.udp.stat <;> cases w.icmp.stat <;> rfl
  rw [walk_succ,hof]
  rfl

/-- What exceeds a limit is dropped, whatever the list says. -/
theorem walk_full (hs : (w.flood p).stat = true) (n : ℕ) :
    walk e (dosRules w) x (n + 1) (names p).full = some .drop := by
  have hof : of (names p).full (dosRules w) = fullRules p (w.flood p) := by
    rw [of_limits w hs (by simp [chainsOf]) (by cases p <;> decide)]
    exact (of_limitRules p _).2.1
  have hset : ∀ c name rs, follow e (walk e (dosRules w) x n) x
      (⟨c,[.recent name (some .set)],.drop⟩::rs) = some .drop := fun c name rs => rfl
  have hquiet : ∀ r ∈ ([⟨(names p).full,[.recent (names p).list (some .remove)],.none⟩] ++
      (if (w.flood p).log then [⟨(names p).full,noteMatches p (w.flood p).mode,.nflog (names p).note⟩] else []) : List Rule),
      r.applies e x = true → r.target.quiet = true := by
    intro r hr _
    rcases List.mem_append.mp hr with hr | hr
    · rw [List.mem_singleton.mp hr]
      rfl
    · split at hr
      · rw [List.mem_singleton.mp hr]
        rfl
      · exact (List.not_mem_nil hr).elim
  rw [walk_succ,hof,fullRules]
  change follow e (walk e (dosRules w) x n) x (⟨(names p).full,[.recent (names p).list (some (.rcheck "300"))],.drop⟩::
    (([⟨(names p).full,[.recent (names p).list (some .remove)],.none⟩] ++ _) ++ _)) = _
  rw [follow]
  split
  · rfl
  · rw [follow_skip hquiet,hset]

theorem applies_limit {l : Limit} (h : e.rate l.rate = true) (c : Str) (t : Target) :
    Rule.applies e x ⟨c,[.hashlimit l],t⟩ = e.within l x := by
  have hr : (Match.hashlimit l).reads e = some (e.within l) := if_pos h
  rw [Rule.applies,List.all_cons,List.all_nil,Bool.and_true,Match.holds,hr]
  rfl

def written (p : Proto) (f : Flood) : List Limit :=
  match f.mode with
  | .source => [srcLimit p f.src_rate]
  | .dest => [dstLimit p (dstRate p f)]
  | .both => [srcLimit p f.src_rate,dstLimit p (dstRate p f)]

/-- A chain with a limit: what is within it goes on, and the rest is dropped. -/
theorem walk_limit (hs : (w.flood p).stat = true) {l : Limit} (hl : e.rate l.rate = true) {c d : Str} {n : ℕ}
    (hof : of c (dosRules w) = [⟨c,[.hashlimit l],.chain d⟩,⟨c,[],.chain (names p).full⟩]) {v : Verdict}
    (hd : walk e (dosRules w) x (n + 1) d = some v) :
    walk e (dosRules w) x (n + 2) c = some (if e.within l x = true then v else .drop) := by
  rw [walk_succ,hof,follow,applies_limit hl]
  split
  · dsimp only
    rw [hd]
    rfl
  · exact follow_jump (walk_full hs n) []

theorem walk_first (hf : Fit e w) (hs : (w.flood p).stat = true) (n : ℕ) :
    walk e (dosRules w) x (n + 3) (firstChain p (w.flood p).mode) =
      some (if ∀ l ∈ written p (w.flood p), e.within l x = true then .accept else .drop) := by
  obtain ⟨-,-,hdst,hsrc⟩ := of_limitRules p (w.flood p)
  have hd := of_limits w hs (c:=(names p).dst) (by simp [chainsOf]) (by cases p <;> decide)
  have hr := of_limits w hs (c:=(names p).src) (by simp [chainsOf]) (by cases p <;> decide)
  rw [hdst] at hd
  rw [hsrc] at hr
  have hrate := hf.src p hs
  have hdrate := hf.dst p hs
  unfold firstChain written
  cases hm : (w.flood p).mode with
  | source =>
    rw [hm] at hr hrate
    rw [if_neg (by decide),walk_limit hs (hrate (by decide)) hr (walk_accepts w (n + 1))]
    simp only [List.forall_mem_singleton]
  | dest =>
    rw [hm] at hd hdrate
    rw [if_pos rfl,walk_limit hs (hdrate (by decide)) hd (walk_accepts w (n + 1))]
    simp only [List.forall_mem_singleton]
  | both =>
    rw [hm] at hd hr hrate hdrate
    have hsecond := walk_limit hs (hdrate (by decide)) hd (walk_accepts (e:=e) (x:=x) w n)
    rw [if_neg (by decide),walk_limit hs (hrate (by decide)) hr hsecond]
    simp only [List.forall_mem_cons]
    by_cases h1 : e.within (srcLimit p (w.flood p).src_rate) x = true <;>
      by_cases h2 : e.within (dstLimit p (dstRate p (w.flood p))) x = true <;> simp [h1,h2]

def Passes (e : RuleTables.Env) (p : Proto) (w : World) (x : Seen) : Prop := ∃ r ∈ passRules w p, r.applies e x = true

theorem passRules_target (w : World) (p : Proto) : ∀ r ∈ passRules w p, r.target = .chain accepts := by
  have hgw : ∀ r ∈ gwRules w, r.target = .chain accepts := by
    unfold gwRules
    split <;> simp
  have hex : ∀ c q, ∀ r ∈ ipsExclude c q w, r.target = .chain accepts := by
    intro c q r hr
    obtain ⟨y,-,hr⟩ := List.mem_flatMap.mp hr
    unfold excludeRow at hr
    split at hr
    · exact (List.not_mem_nil hr).elim
    · obtain ⟨s,-,hr⟩ := List.mem_flatMap.mp hr
      obtain ⟨d,-,rfl⟩ := List.mem_map.mp hr
      rfl
  have hac : ∀ q ls, ∀ r ∈ accessRules q ls, r.target = .chain accepts := by
    intro q ls r hr
    obtain ⟨l,-,rfl⟩ := List.mem_map.mp hr
    rfl
  cases p with
  | icmp => exact List.forall_mem_append.mpr ⟨hgw,hex _ _⟩
  | tcp => exact List.forall_mem_cons.mpr ⟨rfl,List.forall_mem_append.mpr ⟨hex _ _,hac _ _⟩⟩
  | udp => exact List.forall_mem_append.mpr ⟨hex _ _,hac _ _⟩

theorem walk_main (hf : Fit e w) (hs : (w.flood p).stat = true) (n : ℕ) :
    (Passes e p w x → walk e (dosRules w) x (n + 4) (names p).main = some .accept) ∧
      (¬Passes e p w x → walk e (dosRules w) x (n + 4) (names p).main =
        some (if ∀ l ∈ written p (w.flood p), e.within l x = true then .accept else .drop)) := by
  obtain ⟨rest,hof⟩ := of_main w hs
  obtain ⟨hin,hout⟩ := follow_passes (e:=e) (x:=x) (walk_accepts w (n + 2)) (passRules_target w p)
    (⟨(names p).main,[],.chain (firstChain p (w.flood p).mode)⟩::rest)
  rw [walk_succ,hof]
  exact ⟨hin,fun h => (hout h).trans (follow_jump (walk_first hf hs n) rest)⟩

def Proto.number : Proto → ℕ
  | icmp => 1
  | tcp => 6
  | udp => 17

def Proto.text : Proto → Str
  | icmp => "-p icmp"
  | tcp => "-p tcp"
  | udp => "-p udp"

theorem holds_proto (q : Proto) : (Match.words q.text).holds e x = decide (x.frame.packet.payload.proto = q.number) := by
  cases q <;> exact (Bool.and_true _).trans (Bool.false_or _)

theorem Of.number (h : Of p x) : x.frame.packet.payload.proto = p.number := by
  unfold Of at h
  cases hp : x.frame.packet.payload <;> cases p <;> rw [hp] at h <;> first | exact h.elim | rfl

def gate (w : World) (q : Proto) : List Rule :=
  if (w.flood q).stat then [⟨"ACL1011-01",[.words q.text],.chain (names q).main⟩] else []

theorem of_gates (w : World) : of "ACL1011-01" (dosRules w) = gate w .tcp ++ (gate w .udp ++ gate w .icmp) := by
  rw [of_front w (by intro q; cases q <;> decide),headRules]
  unfold gate World.flood
  cases w.tcp.stat <;> cases w.udp.stat <;> cases w.icmp.stat <;> rfl

theorem follow_gate_other {jump : Str → Option Verdict} (h : Of p x) {q : Proto} (hq : q ≠ p) (rest : List Rule) :
    follow e jump x (gate w q ++ rest) = follow e jump x rest := by
  have hn : decide (x.frame.packet.payload.proto = q.number) = false := by
    rw [Of.number h]
    cases p <;> cases q <;> first | rfl | exact absurd rfl hq
  unfold gate
  split
  · refine follow_cons_of_not ?_ rest
    rw [Rule.applies,List.all_cons,List.all_nil,Bool.and_true,holds_proto,hn]
  · rfl

theorem follow_gate {jump : Str → Option Verdict} (h : Of p x) {v : Verdict} (hj : jump (names p).main = some v)
    (rest : List Rule) : follow e jump x (gate w p ++ rest) =
      if (w.flood p).stat = true then some v else follow e jump x rest := by
  unfold gate
  split
  · rw [List.singleton_append,follow,if_pos (by
      rw [Rule.applies,List.all_cons,List.all_nil,Bool.and_true,holds_proto,Of.number h,decide_eq_true_eq])]
    dsimp only
    rw [hj]
    rfl
  · rfl

theorem walk_gates {v : Verdict} (h : Of p x) (n : ℕ) (hm : walk e (dosRules w) x n (names p).main = some v) :
    walk e (dosRules w) x (n + 1) "ACL1011-01" = if (w.flood p).stat = true then some v else none := by
  rw [walk_succ,of_gates,← List.append_nil (gate w .icmp)]
  cases p with
  | tcp => rw [follow_gate h hm,follow_gate_other h (by decide),follow_gate_other h (by decide)]; rfl
  | udp => rw [follow_gate_other h (by decide),follow_gate h hm,follow_gate_other h (by decide)]; rfl
  | icmp => rw [follow_gate_other h (by decide),follow_gate_other h (by decide),follow_gate h hm]; rfl

theorem walk_gates_off (h : Of p x) (hs : ¬(w.flood p).stat = true) (n : ℕ) :
    walk e (dosRules w) x (n + 1) "ACL1011-01" = none := by
  have hoff : gate w p = [] := if_neg hs
  rw [walk_succ,of_gates,← List.append_nil (gate w .icmp)]
  cases p with
  | tcp => rw [hoff,List.nil_append,follow_gate_other h (by decide),follow_gate_other h (by decide)]; rfl
  | udp => rw [hoff,List.nil_append,follow_gate_other h (by decide),follow_gate_other h (by decide)]; rfl
  | icmp => rw [hoff,List.nil_append,follow_gate_other h (by decide),follow_gate_other h (by decide)]; rfl

theorem walk_local (w : World) (n : ℕ) : walk e (dosRules w) x (n + 1) "ACL1011-06" = some .accept := by
  have hof : of "ACL1011-06" (dosRules w) = [⟨"ACL1011-06",[],.notrack⟩,⟨"ACL1011-06",[],.accept⟩] := by
    rw [of_front w (by intro q; cases q <;> decide),headRules]
    cases w.tcp.stat <;> cases w.udp.stat <;> cases w.icmp.stat <;> rfl
  rw [walk_succ,hof]
  rfl

theorem of_prerouting (w : World) : of "PREROUTING" (dosRules w) = [⟨"PREROUTING",localNet,.chain "ACL1011-06"⟩,
    ⟨"PREROUTING",[],.chain "ACL1011-01"⟩,⟨"PREROUTING",[],.chain accepts⟩] := by
  rw [of_front w (by intro q; cases q <;> decide),headRules]
  cases w.tcp.stat <;> cases w.udp.stat <;> cases w.icmp.stat <;> rfl

/-- What becomes of a packet of the protocol. -/
theorem walk_prerouting (hf : Fit e w) (h : Of p x) : walk e (dosRules w) x 6 "PREROUTING" = some .drop ↔
    (w.flood p).stat = true ∧ ¬Local e x ∧ ¬Passes e p w x ∧ ¬∀ l ∈ written p (w.flood p), e.within l x = true := by
  have hlast : follow e (walk e (dosRules w) x 5) x [⟨"PREROUTING",[],.chain accepts⟩] = some .accept :=
    follow_jump (walk_accepts w 4) []
  have hl : Rule.applies e x ⟨"PREROUTING",localNet,.chain "ACL1011-06"⟩ = true ↔ Local e x := applies_iff
  have hfirst := follow_pass_one (e:=e) (x:=x) (walk_local (e:=e) (x:=x) w 4)
    (r:=⟨"PREROUTING",localNet,.chain "ACL1011-06"⟩) rfl
    [⟨"PREROUTING",[],.chain "ACL1011-01"⟩,⟨"PREROUTING",[],.chain accepts⟩]
  rw [walk_succ,of_prerouting,hfirst]
  by_cases hloc : Local e x
  · rw [if_pos (hl.mpr hloc)]
    exact iff_of_false nofun fun hc => hc.2.1 hloc
  rw [if_neg fun ha => hloc (hl.mp ha)]
  by_cases hs : (w.flood p).stat = true
  · obtain ⟨hin,hout⟩ := walk_main (x:=x) hf hs 0
    by_cases hp : Passes e p w x
    · have hg := walk_gates h 4 (hin hp)
      rw [if_pos hs] at hg
      rw [follow_jump hg]
      exact iff_of_false nofun fun hc => hc.2.2.1 hp
    · have hg := walk_gates h 4 (hout hp)
      rw [if_pos hs] at hg
      rw [follow_jump hg]
      by_cases hw : ∀ l ∈ written p (w.flood p), e.within l x = true
      · rw [if_pos hw]
        exact iff_of_false nofun fun hc => hc.2.2.2 hw
      · rw [if_neg hw]
        exact iff_of_true rfl ⟨hs,hloc,hp,hw⟩
  · have hnone : follow e (walk e (dosRules w) x 5) x
        (⟨"PREROUTING",[],.chain "ACL1011-01"⟩::[⟨"PREROUTING",[],.chain accepts⟩]) = some .accept := by
      rw [follow,if_pos (applies_nil _ _)]
      dsimp only
      rw [walk_gates_off h hs 4,hlast]
      rfl
    rw [hnone]
    exact iff_of_false nofun fun hc => hs hc.1

/-- In front of the limits, only ICMP packets from the gateway are let through as such. -/
theorem passes_iff (h : Of p x) : Passes e p w x ↔ (p = .icmp ∧ Gateway w x) ∨
    (∃ r ∈ ipsExclude (names p).main p w, r.applies e x = true) ∨ ∃ l ∈ w.access p, (Match.words l).holds e x = true := by
  have hgw : (∃ r ∈ gwRules w, r.applies e x = true) ↔ Gateway w x := by
    unfold gwRules Gateway
    split
    · next hn => exact iff_of_false (fun ⟨_,hm,_⟩ => (List.not_mem_nil hm).elim) fun hg => hg.1 hn
    · next hn =>
      simp only [List.mem_singleton,exists_eq_left]
      rw [Rule.applies,List.all_cons,List.all_nil,Bool.and_true,holds_source]
      exact (and_iff_right hn).symm
  have hac : ∀ ls, (∃ r ∈ accessRules p ls, r.applies e x = true) ↔ ∃ l ∈ ls, (Match.words l).holds e x = true := by
    intro ls
    simp only [accessRules,List.mem_map,exists_exists_and_eq_and,Rule.applies,List.all_cons,List.all_nil,Bool.and_true]
  unfold Passes
  cases p with
  | icmp =>
    simp only [passRules,List.mem_append,or_and_right,exists_or,hgw]
    simp [World.access]
  | udp =>
    simp only [passRules,List.mem_append,or_and_right,exists_or,hac]
    simp [World.access]
  | tcp =>
    have hsyn : Rule.applies e x ⟨(names .tcp).main,[.notSyn],.chain accepts⟩ = false := by
      have hs : x.syn = true := by
        unfold Of at h
        split at h <;> first | exact h | exact h.elim | simp_all
      change (!x.syn && true) = false
      rw [hs]
      rfl
    simp only [passRules,List.mem_cons,List.mem_append,or_and_right,exists_or,exists_eq_left,hac]
    simp [World.access,hsyn]

theorem readable_nil (c : Str) (t : Target) : Rule.Readable e ⟨c,[],t⟩ := fun _ hm => (List.not_mem_nil hm).elim

theorem readable_one (c : Str) (m : Match) (t : Target) : Rule.Readable e ⟨c,[m],t⟩ ↔ (m.reads e).isSome = true :=
  List.forall_mem_singleton

theorem reads_limit (l : Limit) : ((Match.hashlimit l).reads e).isSome = true ↔ e.rate l.rate = true := by
  have hr : (Match.hashlimit l).reads e = if e.rate l.rate = true then some (e.within l) else none := rfl
  rw [hr]
  split
  · next h => exact iff_of_true rfl h
  · next h => exact iff_of_false nofun h

theorem readable_note (n : Names) (m : Mode) : Rule.Readable e ⟨n.full,noteMatches p m,.nflog n.note⟩ ↔
    ¬(p = .tcp ∧ m = .dest) := by
  cases p with
  | icmp | udp => exact iff_of_true (List.forall_mem_cons.mpr ⟨rfl,List.forall_mem_singleton.mpr rfl⟩) nofun
  | tcp =>
    cases m with
    | source | both => exact iff_of_true (List.forall_mem_cons.mpr ⟨rfl,List.forall_mem_singleton.mpr rfl⟩) nofun
    | dest => exact iff_of_false (fun h => absurd (List.forall_mem_cons.mp h).1 nofun) fun h => h ⟨rfl,rfl⟩

theorem readable_full (f : Flood) : (∀ r ∈ fullRules p f, r.Readable e) ↔ ¬(p = .tcp ∧ f.log = true ∧ f.mode = .dest) := by
  have hr : ∀ c name o t, Rule.Readable e ⟨c,[.recent name (some o)],t⟩ := by
    intro c name o t
    rw [readable_one]
    cases o <;> rfl
  unfold fullRules
  cases hl : f.log with
  | true =>
    simp only [if_true,List.forall_mem_append,List.forall_mem_cons,hr,readable_note,List.not_mem_nil,false_imp_iff,
      implies_true,and_true,true_and]
  | false =>
    refine iff_of_true ?_ fun h => Bool.false_ne_true h.2.1
    simp only [Bool.false_eq_true,if_false,List.append_nil,List.forall_mem_append,List.forall_mem_cons,hr,List.not_mem_nil,
      false_imp_iff,implies_true,and_true]

theorem readable_limits (f : Flood) : (∀ r ∈ limitRules p f, r.Readable e) ↔ (f.mode ≠ .dest → e.rate f.src_rate = true) ∧
    (f.mode ≠ .source → e.rate (dstRate p f) = true) ∧ ¬(p = .tcp ∧ f.log = true ∧ f.mode = .dest) := by
  have hs : ∀ c r t, Rule.Readable e ⟨c,[.hashlimit (srcLimit p r)],t⟩ ↔ e.rate r = true := fun c r t =>
    (readable_one c _ t).trans (reads_limit _)
  have hd : ∀ c r t, Rule.Readable e ⟨c,[.hashlimit (dstLimit p r)],t⟩ ↔ e.rate r = true := fun c r t =>
    (readable_one c _ t).trans (reads_limit _)
  unfold limitRules
  cases hm : f.mode <;>
    simp only [List.forall_mem_append,List.forall_mem_cons,readable_full,readable_nil,hs,hd,hm,List.not_mem_nil,
      false_imp_iff,implies_true,and_true,true_and,ne_eq,not_true_eq_false,not_false_eq_true,true_imp_iff,reduceCtorEq] <;>
    tauto

theorem readable_if (c : Prop) [Decidable c] (l : List Rule) :
    (∀ r ∈ (if c then l else []), r.Readable e) ↔ (c → ∀ r ∈ l, r.Readable e) := by
  split
  · next h => exact ⟨fun hl _ => hl,fun hl => hl h⟩
  · next h => exact iff_of_true (fun r hr => (List.not_mem_nil hr).elim) fun hc => absurd hc h

theorem readable_head (w : World) : ∀ r ∈ headRules w, r.Readable e := by
  have hl : ∀ c t, Rule.Readable e ⟨c,localNet,t⟩ := fun c t =>
    List.forall_mem_cons.mpr ⟨rfl,List.forall_mem_singleton.mpr rfl⟩
  have hp : ∀ (q : Proto) c t, Rule.Readable e ⟨c,[.words q.text],t⟩ := by
    intro q c t
    rw [readable_one]
    cases q <;> rfl
  unfold headRules
  simp only [List.forall_mem_append,List.forall_mem_cons,readable_if,readable_nil,hl,List.not_mem_nil,false_imp_iff,
    implies_true,and_true,true_and]
  exact ⟨fun _ => hp .tcp _ _,fun _ => hp .udp _ _,fun _ => hp .icmp _ _⟩

theorem readable_block (w : World) (p : Proto) : (∀ r ∈ blockRules w p, r.Readable e) ↔ ((w.flood p).stat = true →
    (w.gw_ip ≠ [] → (area w.gw_ip).isSome = true) ∧ (∀ r ∈ ipsExclude (names p).main p w, r.Readable e) ∧
    (∀ l ∈ w.access p, ((Match.words l).reads e).isSome = true) ∧ ∀ r ∈ limitRules p (w.flood p), r.Readable e) := by
  have hgw : (∀ r ∈ gwRules w, r.Readable e) ↔ (w.gw_ip ≠ [] → (area w.gw_ip).isSome = true) := by
    have hs : ((Match.source w.gw_ip).reads e).isSome = (area w.gw_ip).isSome := Option.isSome_map
    unfold gwRules
    split
    · next hn => exact iff_of_true (fun r hr => (List.not_mem_nil hr).elim) fun h => absurd hn h
    · next hn => rw [List.forall_mem_singleton,readable_one,hs,imp_iff_right hn]
  have hac : ∀ ls, (∀ r ∈ accessRules p ls, r.Readable e) ↔ ∀ l ∈ ls, ((Match.words l).reads e).isSome = true := by
    intro ls
    simp only [accessRules,List.forall_mem_map,readable_one]
  cases p with
  | icmp =>
    have hno : ∀ l ∈ w.access .icmp, ((Match.words l).reads e).isSome = true := fun l hl => (List.not_mem_nil hl).elim
    simp only [blockRules,readable_if,icmpRules,List.forall_mem_append,hgw,and_iff_right hno]
    rfl
  | tcp =>
    simp only [blockRules,readable_if,tcpRules,List.forall_mem_cons,List.forall_mem_append,hgw,hac]
    rw [readable_one,and_iff_right (show ((Match.notSyn).reads e).isSome = true from rfl)]
    rfl
  | udp =>
    simp only [blockRules,readable_if,udpRules,List.forall_mem_append,hgw,hac]
    rfl

theorem readable_iff {w : World} (h : ∃ p, (w.flood p).stat = true) : (∀ r ∈ dosRules w, r.Readable e) ↔ Fit e w := by
  have hb : (∀ r ∈ dosRules w, r.Readable e) ↔ ∀ p, ∀ r ∈ blockRules w p, r.Readable e := by
    rw [dosRules_eq]
    simp only [List.forall_mem_append,and_iff_right (readable_head w)]
    exact ⟨fun ⟨h1,h2,h3⟩ p => by cases p <;> assumption,fun h => ⟨h _,h _,h _⟩⟩
  rw [hb]
  simp only [readable_block,readable_limits]
  constructor
  · intro hall
    obtain ⟨p,hp⟩ := h
    refine ⟨fun q hq => (hall q hq).2.2.2.1,fun q hq => (hall q hq).2.2.2.2.1,(hall p hp).1,fun q hq => (hall q hq).2.1,
      fun q hq => (hall q hq).2.2.1,fun ht => (hall .tcp ht.1).2.2.2.2.2 ⟨rfl,ht.2⟩⟩
  · intro hf p hp
    refine ⟨hf.gw,hf.excludes p hp,hf.access p hp,hf.src p hp,hf.dst p hp,?_⟩
    rintro ⟨rfl,ht⟩
    exact hf.note ⟨hp,ht⟩

variable {within : Limit → Seen → Bool} {listed : Str → Recent → Seen → Bool}

theorem reads_told (m : Match) : (m.reads (told e within listed)).isSome = (m.reads e).isSome := by
  cases m with
  | hashlimit l =>
    rw [Bool.eq_iff_iff,reads_limit,reads_limit]
    rfl
  | recent name op =>
    cases op with
    | none => rfl
    | some o => cases o <;> rfl
  | _ => rfl

theorem fit_told (hf : Fit e w) : Fit (told e within listed) w where
  src := hf.src
  dst := hf.dst
  gw := hf.gw
  excludes := fun p hp r hr m hm => (reads_told m).trans (hf.excludes p hp r hr m hm)
  access := fun p hp l hl => (reads_told _).trans (hf.access p hp l hl)
  note := hf.note

theorem passes_told (h : Of p x) : Passes (told e within listed) p w x ↔ Passes e p w x := by
  have hex : ∀ r ∈ ipsExclude (names p).main p w, r.applies (told e within listed) x = r.applies e x := by
    intro r hr
    obtain ⟨y,-,hr⟩ := List.mem_flatMap.mp hr
    unfold excludeRow at hr
    split at hr
    · exact (List.not_mem_nil hr).elim
    · obtain ⟨s,-,hr⟩ := List.mem_flatMap.mp hr
      obtain ⟨d,-,rfl⟩ := List.mem_map.mp hr
      rw [Rule.applies,Rule.applies,List.all_map,List.all_map]
      rfl
  have he : (∃ r ∈ ipsExclude (names p).main p w, r.applies (told e within listed) x = true) ↔
      ∃ r ∈ ipsExclude (names p).main p w, r.applies e x = true :=
    exists_congr fun r => and_congr_right fun hr => by rw [hex r hr]
  rw [passes_iff h,passes_iff h,he]
  rfl

theorem doPolicyDos_of (h : w.icmp.stat = true ∨ w.tcp.stat = true) (hf : Fit e w) : doPolicyDos e w = dosRules w := by
  have hp : ∃ p, (w.flood p).stat = true := h.elim (fun h => ⟨.icmp,h⟩) fun h => ⟨.tcp,h⟩
  have hon : w.icmp.stat = true ∨ w.tcp.stat = true ∨ w.tcp.stat = true := h.imp_right Or.inl
  rw [doPolicyDos,if_pos hon,load_iff.mpr ⟨rfl,(readable_iff hp).mpr hf⟩]
  rfl

/-- Without the switch of ICMP or TCP, or with a rule that cannot be read, the table is empty. -/
theorem doPolicyDos_nil (h : ¬((w.icmp.stat = true ∨ w.tcp.stat = true) ∧ Fit e w)) : doPolicyDos e w = [] := by
  rw [doPolicyDos]
  split
  · next hon =>
    have hon' : w.icmp.stat = true ∨ w.tcp.stat = true := by simpa using hon
    have hp : ∃ p, (w.flood p).stat = true := hon'.elim (fun h => ⟨.icmp,h⟩) fun h => ⟨.tcp,h⟩
    have hl : load e (dosRules w) = none := if_neg fun hr => h ⟨hon',(readable_iff hp).mp hr⟩
    rw [hl]
    rfl
  · rfl

theorem inForce_iff (h : Of p x) : InForce e p w x ↔ (w.icmp.stat = true ∨ w.tcp.stat = true) ∧ Fit e w ∧
    (w.flood p).stat = true ∧ ¬Local e x ∧ ¬Passes e p w x := by
  rw [passes_iff h,not_or,not_or]
  constructor
  · rintro ⟨hon,hf,hs,hl,hg,he,ha⟩
    exact ⟨hon,hf,hs,hl,fun hc => hg hc.1 hc.2,he,ha⟩
  · rintro ⟨hon,hf,hs,hl,hg,he,ha⟩
    exact ⟨hon,hf,hs,hl,fun hp hc => hg ⟨hp,hc⟩,he,ha⟩

/-- A packet is dropped when the rules of its protocol are in force and it exceeds a limit as written. -/
theorem dropped_iff (h : Of p x) : walk (told e within listed) (doPolicyDos e w) x 6 "PREROUTING" = some .drop ↔
    InForce e p w x ∧ ¬∀ l ∈ written p (w.flood p), within l x = true := by
  have hloc : Local (told e within listed) x ↔ Local e x := by
    unfold Local localNet
    simp only [List.forall_mem_cons,List.not_mem_nil,false_imp_iff,implies_true,holds_source,holds_dest]
  rw [inForce_iff h]
  by_cases hp : (w.icmp.stat = true ∨ w.tcp.stat = true) ∧ Fit e w
  · rw [doPolicyDos_of hp.1 hp.2,walk_prerouting (fit_told hp.2) h,passes_told h,hloc]
    constructor
    · rintro ⟨hs,hl,hn,hw⟩
      exact ⟨⟨hp.1,hp.2,hs,hl,hn⟩,hw⟩
    · rintro ⟨⟨-,-,hs,hl,hn⟩,hw⟩
      exact ⟨hs,hl,hn,hw⟩
  · rw [doPolicyDos_nil hp]
    exact iff_of_false nofun fun hc => hp ⟨hc.1.1,hc.1.2.1⟩

theorem written_ne_nil (p : Proto) (f : Flood) : ∃ l, l ∈ written p f := by
  unfold written
  cases f.mode <;> exact ⟨_,List.mem_cons_self⟩

/-- No limits are gone through just when the rules are not in force. -/
theorem through_nil_iff (h : Of p x) : Through e w x [] ↔ ¬InForce e p w x := by
  constructor
  · intro ht hi
    obtain ⟨l,hl⟩ := written_ne_nil p (w.flood p)
    refine (ht (fun _ _ => false) e.listed).mpr (fun _ hm => (List.not_mem_nil hm).elim) ?_
    exact (dropped_iff h).mpr ⟨hi,fun hw => Bool.false_ne_true (hw l hl)⟩
  · intro hi within listed
    exact iff_of_true (fun hd => hi ((dropped_iff h).mp hd).1) fun _ hm => (List.not_mem_nil hm).elim

/-- Limits are gone through just when the rules are in force and have these limits. -/
theorem through_iff (h : Of p x) {ls : List Limit} (hls : ls ≠ []) :
    Through e w x ls ↔ InForce e p w x ∧ ∀ l, l ∈ ls ↔ l ∈ written p (w.flood p) := by
  constructor
  · intro ht
    have hi : InForce e p w x := by
      by_contra hn
      obtain ⟨l,hl⟩ := List.exists_mem_of_ne_nil ls hls
      have hw := (ht (fun _ _ => false) e.listed).mp fun hd => hn ((dropped_iff h).mp hd).1
      exact Bool.false_ne_true (hw l hl)
    have hsame : ∀ within : Limit → Seen → Bool, (∀ l ∈ written p (w.flood p), within l x = true) ↔
        ∀ l ∈ ls, within l x = true := by
      intro within
      rw [← ht within e.listed,ne_eq,dropped_iff h,not_and_not_right]
      exact (imp_iff_right hi).symm
    refine ⟨hi,fun l => ⟨fun hl => ?_,fun hl => ?_⟩⟩
    · have hw := (hsame fun l _ => decide (l ∈ written p (w.flood p))).mp fun l hl => decide_eq_true hl
      exact of_decide_eq_true (hw l hl)
    · have hw := (hsame fun l _ => decide (l ∈ ls)).mpr fun l hl => decide_eq_true hl
      exact of_decide_eq_true (hw l hl)
  · rintro ⟨hi,hsame⟩ within listed
    rw [ne_eq,dropped_iff h,not_and_not_right,imp_iff_right hi]
    exact forall_congr' fun l => by rw [hsame l]

theorem limits_ne_nil (p : Proto) (f : Flood) : limits p f ≠ [] := by
  unfold limits
  cases f.mode <;> exact List.cons_ne_nil _ _

/-- The limits are written with the rates that are set, except for those of UDP by destination. -/
theorem limits_written (p : Proto) (f : Flood) : (∀ l, l ∈ limits p f ↔ l ∈ written p f) ↔
    (p = .udp → f.mode = .dest → f.dst_rate = "400") := by
  have hrate : (dstRate p f = f.dst_rate) ↔ (p = .udp → f.mode = .dest → f.dst_rate = "400") := by
    unfold dstRate
    split
    · next h => exact ⟨fun he _ _ => he.symm,fun he => (he h.1 h.2).symm⟩
    · next h => exact iff_of_true rfl fun hp hm => absurd ⟨hp,hm⟩ h
  rw [← hrate]
  unfold limits written
  cases hm : f.mode with
  | source => exact iff_of_true (fun _ => Iff.rfl) (if_neg fun hc => by rw [hm] at hc; exact absurd hc.2 (by decide))
  | dest =>
    simp only [List.mem_singleton]
    refine ⟨fun h => ?_,fun h => by rw [h]; exact fun _ => Iff.rfl⟩
    exact congrArg Limit.rate ((h (dstLimit p (dstRate p f))).mpr rfl)
  | both =>
    have hb : dstRate p f = f.dst_rate := if_neg fun hc => by rw [hm] at hc; exact absurd hc.2 (by decide)
    rw [hb]
    exact iff_of_true (fun _ => Iff.rfl) rfl

/-- A packet goes through the limits of its protocol exactly when it is to if, for a packet that is to, all rules are in
force (one of the switches of ICMP and TCP among them) with the rate that is set, and if the rules are in force for no
other packet. -/
theorem flood_exact_iff (e : RuleTables.Env) (p : Proto) (w : World) (x : Seen) (hx : Of p x) : Exact e p w x ↔
    (Due e p w x → InForce e p w x ∧ (p = .udp → w.udp.mode = .dest → w.udp.dst_rate = "400")) ∧
      (InForce e p w x → Due e p w x) := by
  have hrate : (∀ l, l ∈ limits p (w.flood p) ↔ l ∈ written p (w.flood p)) ↔
      (p = .udp → w.udp.mode = .dest → w.udp.dst_rate = "400") := by
    rw [limits_written]
    cases p with
    | icmp | tcp => exact iff_of_true nofun nofun
    | udp => rfl
  unfold Exact
  rw [through_iff hx (limits_ne_nil _ _),through_nil_iff hx,hrate]
  exact and_congr_right fun _ => not_imp_not

end Walk

def still : Flood := ⟨false,false,.source,"10","10"⟩

def udpOnly : World := ⟨still,still,⟨true,false,.source,"100","400"⟩,[],[],⟨∅,∅,∅,∅,∅⟩,[],[]⟩

def datagram : Seen := ⟨⟨⟨3221225991,167772161,.udp 40000 53⟩,"eth0",[]⟩,[],false⟩

theorem flood_exact_iff_udpOnly : Exact Env.bare .udp udpOnly datagram ↔
    (Due Env.bare .udp udpOnly datagram → InForce Env.bare .udp udpOnly datagram ∧
      (Proto.udp = .udp → udpOnly.udp.mode = .dest → udpOnly.udp.dst_rate = "400")) ∧
      (InForce Env.bare .udp udpOnly datagram → Due Env.bare .udp udpOnly datagram) :=
  flood_exact_iff Env.bare .udp udpOnly datagram trivial

/-- With only the switch of UDP on, no packet is limited. -/
theorem udp_unlimited : ¬Exact Env.bare .udp udpOnly datagram := by
  intro h
  have hdue : Due Env.bare .udp udpOnly datagram := by
    refine ⟨rfl,fun hg => hg.1 rfl,?_⟩
    rintro ⟨r,hr,-⟩
    exact List.not_mem_nil hr
  have hempty : doPolicyDos Env.bare udpOnly = [] := if_neg (by decide)
  have hin := (h.1 hdue (fun _ _ => false) Env.bare.listed).mp (by rw [hempty]; exact nofun)
  exact Bool.false_ne_true (hin _ List.mem_cons_self)

end FloodRules
end Mybox
