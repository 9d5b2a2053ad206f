import Mybox.PolicyRules
import Mybox.MarkChain

/-! The policy routes (`network_start_policy_route`): one loop over the entries of
`route_policy.cfg` that writes packet filter rules setting marks, the routing rules and
routes that go with the marks, and the script that takes them away again. -/
namespace Mybox
namespace PolicyRoutes

open Php RegistryFormat Registry Definitions Policy MarkChain

variable (pcre : Pcre) (env : Env)

/-- The variables of the loop and the files it appends to. -/
structure RouteState where
  world : World
  mark : Nat
  /-- `$_DTOKEN`, which outlives a turn of the loop. -/
  dtoken : Params
  pfRules : Str
  ipRules : Str
  ipRulesRemove : Str
  deriving DecidableEq

def complete (d : Params) : Bool :=
  !(null (d.val "ROUTE_TYPE") || null (d.val "DNAME") || null (d.val "SRC") || null (d.val "DST")
    || null (d.val "SERVICE"))

def enabled (d : Params) : Bool := !(null (d.val "STAT") || looseZero (d.val "STAT"))

def isGateway (d : Params) : Bool := looseEq (d.val "ROUTE_TYPE") "gateway"

def isInterface (d : Params) : Bool := looseEq (d.val "ROUTE_TYPE") "interface"

def targetless (d : Params) : Bool :=
  isGateway d && null (d.val "ROUTE_GATEWAY") || isInterface d && null (d.val "TNAME")

def dropEntry (id : Str) (s : RouteState) : RouteState :=
  { s with world := (iniTokenDelete pcre env "network" "route_policy.cfg" id s.world).2 }

/-- `$_target`; `$_DTOKEN` stays as it was when the gateway is not found. -/
def routeTarget (fuel : Nat) (d : Params) (s : RouteState) : Option (Str × RouteState) :=
  if isGateway d then
    let r := definitionsGetByname pcre env .networks (d.val "ROUTE_GATEWAY") s.dtoken "host" s.world
    some (r.1.val "ADDR",{ s with dtoken := r.1, world := r.2 })
  else if isInterface d then
    (definitionsGetInterfaceDevice env fuel (d.val "TNAME") s.world).map fun r =>
      (r.1,{ s with world := r.2 })
  else some ([],s)

/-- `$_src_dev` -/
def sourceDevice (fuel : Nat) (d : Params) (w : World) : Option (Str × World) :=
  if !looseEq (d.val "DNAME") "any" then
    (definitionsGetInterfaceDevice env fuel (d.val "DNAME") w).map fun r =>
      (if null r.1 then [] else ("-i " : Str) ++ r.1,r.2)
  else some ([],w)

/-- What the rules of an entry are written from. -/
structure Plan where
  target : Str
  lines : List Str
  device : Str
  deriving DecidableEq

def Plan.written (p : Plan) : List Str := if null p.target then [] else p.lines

/-- The source device is looked up when there are rules to write. -/
def routePlan (fuel : Nat) (d : Params) (s : RouteState) : Option (Plan × RouteState) :=
  (routeTarget pcre env fuel d s).bind fun t =>
    let r := policyNormalRulesData pcre env (d.val "SRC") (d.val "DST") (d.val "SERVICE") t.2.world
    if !null t.1 && !r.1.isEmpty then
      (sourceDevice env fuel d r.2).map fun v => (⟨t.1,r.1,v.1⟩,{ t.2 with world := v.2 })
    else some (⟨t.1,r.1,[]⟩,{ t.2 with world := r.2 })

def pfRule (chain line device : Str) (mark : Nat) : Str :=
  ("-A " : Str) ++ chain ++ ' ' :: (line ++ ' ' :: (device
    ++ (" -m mark --mark 0 -j MARK --set-mark " : Str) ++ decimal mark ++ ['\n']))

def ruleCommand (verb : Str) (mark : Nat) : Str :=
  ("rule " : Str) ++ verb ++ (" prio " : Str) ++ decimal mark ++ (" fwmark " : Str) ++ decimal mark
    ++ (" table " : Str) ++ decimal mark ++ ['\n']

def routeCommand (verb : Str) (d : Params) (target : Str) (mark : Nat) : Str :=
  (if isInterface d then
    ("route " : Str) ++ verb ++ (" dev " : Str) ++ target ++ (" table " : Str) ++ decimal mark ++ ['\n']
  else []) ++
  (if isGateway d then
    ("route " : Str) ++ verb ++ (" default via " : Str) ++ target ++ (" table " : Str) ++ decimal mark
      ++ ['\n']
  else [])

def skipReserved (mark : Nat) : Nat := if mark = 253 then mark + 3 else mark

def routeLine (d : Params) (p : Plan) (s : RouteState) (line : Str) : RouteState :=
  let m := skipReserved s.mark
  { s with
    mark := m + 1
    pfRules := s.pfRules ++ pfRule "POLICY_ROUTES_OUTPUT" line p.device m
      ++ pfRule "POLICY_ROUTES_PREROUTING" line p.device m
    ipRules := s.ipRules ++ ruleCommand "add" m ++ routeCommand "add" d p.target m
    ipRulesRemove := s.ipRulesRemove ++ ruleCommand "delete" m ++ routeCommand "delete" d p.target m }

def routeEntry (fuel : Nat) (s : RouteState) (e : Str × Params) : Option RouteState :=
  if !complete e.2 then some (dropEntry pcre env e.1 s)
  else if !enabled e.2 then some s
  else if targetless e.2 then some (dropEntry pcre env e.1 s)
  else (routePlan pcre env fuel e.2 s).map fun r => r.1.written.foldl (routeLine e.2 r.1) r.2

def routeLoop (fuel : Nat) (es : List (Str × Params)) (s : RouteState) : Option RouteState :=
  es.foldlM (routeEntry pcre env fuel) s

def startState (w : World) : RouteState := ⟨w,1,∅,[],[],[]⟩

def networkStartPolicyRoute (fuel : Nat) (w : World) : Option RouteState :=
  let g := iniTokenGet env "network" "route_policy.cfg" ∅ w
  routeLoop pcre env fuel g.1.entries (startState g.2)

theorem not_isInterface {d : Params} (h : isGateway d = true) : isInterface d = false := by
  have hg : numeric ("gateway" : Str) = none := rfl
  have hi : numeric ("interface" : Str) = none := rfl
  rw [isGateway,looseEq_text hg,decide_eq_true_eq] at h
  rw [isInterface,looseEq_text hi,h]
  decide

/-- A route to a device, or to everything by way of an address. -/
inductive Route
  | dev (target : Str)
  | via (target : Str)
  deriving DecidableEq

/-- One line of the rules of an entry, and the mark it is given. -/
structure Item where
  data : Params
  target : Str
  line : Str
  device : Str
  mark : Nat

/-- The condition of the rule, apart from the mark. -/
def Item.condition (i : Item) : Str := i.line ++ ' ' :: i.device

def Item.route (i : Item) : Route := if isInterface i.data then .dev i.target else .via i.target

def Item.pfText (i : Item) : Str :=
  pfRule "POLICY_ROUTES_OUTPUT" i.line i.device i.mark
    ++ pfRule "POLICY_ROUTES_PREROUTING" i.line i.device i.mark

/-- A line of the script that sets up the routing, or of the one that takes it away. -/
def commandText (verb : Str) : Command Route → Str
  | .rule prio fwmark table =>
    ("rule " : Str) ++ verb ++ (" prio " : Str) ++ decimal prio ++ (" fwmark " : Str)
      ++ decimal fwmark ++ (" table " : Str) ++ decimal table ++ ['\n']
  | .route (.dev t) table =>
    ("route " : Str) ++ verb ++ (" dev " : Str) ++ t ++ (" table " : Str) ++ decimal table ++ ['\n']
  | .route (.via t) table =>
    ("route " : Str) ++ verb ++ (" default via " : Str) ++ t ++ (" table " : Str) ++ decimal table
      ++ ['\n']

abbrev Item.commands : Item → List (Command Route) := MarkChain.commands Item.mark Item.route

def itemsFrom (d : Params) (p : Plan) : List Str → Nat → List Item
  | [], _ => []
  | l::ls, m => ⟨d,p.target,l,p.device,skipReserved m⟩ :: itemsFrom d p ls (skipReserved m + 1)

/-- Every field that decides whether rules are written is there. -/
def live (d : Params) : Bool := complete d && enabled d && !targetless d

def installed (fuel : Nat) (v : RouteState × Str × Params) : List Item :=
  if live v.2.2 then
    match routePlan pcre env fuel v.2.2 v.1 with
    | some r => itemsFrom v.2.2 r.1 r.1.written r.2.mark
    | none => []
  else []

/-- The entries, each with the state its turn starts in. -/
def visits (fuel : Nat) : List (Str × Params) → RouteState → List (RouteState × Str × Params)
  | [], _ => []
  | e::es, s => (s,e) :: match routeEntry pcre env fuel s e with
    | some t => visits fuel es t
    | none => []

structure Writes (s t : RouteState) (items : List Item) : Prop where
  pf : t.pfRules = s.pfRules ++ items.flatMap Item.pfText
  ip : t.ipRules = s.ipRules ++ (items.flatMap Item.commands).flatMap (commandText "add")
  remove : t.ipRulesRemove =
    s.ipRulesRemove ++ (items.flatMap Item.commands).flatMap (commandText "delete")
  le : s.mark ≤ t.mark
  open_mark : t.mark ≠ 254 ∧ t.mark ≠ 255
  increasing : items.Pairwise fun a b => a.mark < b.mark
  between : ∀ i ∈ items, s.mark ≤ i.mark ∧ i.mark < t.mark
  free : ∀ i ∈ items, i.mark ≠ 253 ∧ i.mark ≠ 254 ∧ i.mark ≠ 255

theorem Writes.refl {s t : RouteState} (hm : t.mark = s.mark) (hp : t.pfRules = s.pfRules)
    (hi : t.ipRules = s.ipRules) (hr : t.ipRulesRemove = s.ipRulesRemove)
    (h : s.mark ≠ 254 ∧ s.mark ≠ 255) : Writes s t [] :=
  ⟨by simp [hp],by simp [hi],by simp [hr],by omega,by rw [hm]; exact h,by simp,by simp,by simp⟩

theorem Writes.trans {s t u : RouteState} {a b : List Item} (h : Writes s t a)
    (hh : Writes t u b) : Writes s u (a ++ b) where
  pf := by rw [hh.pf,h.pf,List.flatMap_append,List.append_assoc]
  ip := by rw [hh.ip,h.ip,List.flatMap_append,List.flatMap_append,List.append_assoc]
  remove := by rw [hh.remove,h.remove,List.flatMap_append,List.flatMap_append,List.append_assoc]
  le := h.le.trans hh.le
  open_mark := hh.open_mark
  increasing := by
    rw [List.pairwise_append]
    refine ⟨h.increasing,hh.increasing,fun i hi j hj => ?_⟩
    have := (h.between i hi).2
    have := (hh.between j hj).1
    omega
  between := by
    intro i hi
    have := h.le
    have := hh.le
    rcases List.mem_append.mp hi with hi | hi
    · have := h.between i hi
      omega
    · have := hh.between i hi
      omega
  free := by
    intro i hi
    rcases List.mem_append.mp hi with hi | hi
    · exact h.free i hi
    · exact hh.free i hi

theorem routeTarget_type {fuel : Nat} {d : Params} {s : RouteState} {t : Str × RouteState}
    (h : routeTarget pcre env fuel d s = some t) (ht : t.1 ≠ []) :
    isGateway d = true ∨ isInterface d = true := by
  unfold routeTarget at h
  split at h
  · exact Or.inl ‹_›
  · split at h
    · exact Or.inr ‹_›
    · simp only [Option.some.injEq] at h
      subst h
      exact absurd rfl ht

theorem commandText_commands {i : Item} (h : isGateway i.data = true ∨ isInterface i.data = true)
    (verb : Str) : i.commands.flatMap (commandText verb) =
      ruleCommand verb i.mark ++ routeCommand verb i.data i.target i.mark := by
  by_cases hi : isInterface i.data = true
  · have hg : isGateway i.data = false := by
      rw [Bool.eq_false_iff]
      intro hg
      rw [not_isInterface hg] at hi
      exact absurd hi (by decide)
    simp [Item.commands,MarkChain.commands,Item.route,commandText,ruleCommand,routeCommand,hi,hg]
  · have hg := h.resolve_right hi
    simp [Item.commands,MarkChain.commands,Item.route,commandText,ruleCommand,routeCommand,hi,hg]

theorem routeLine_writes {d : Params} (h : isGateway d = true ∨ isInterface d = true) (p : Plan)
    {s : RouteState} (hs : s.mark ≠ 254 ∧ s.mark ≠ 255) (l : Str) :
    Writes s (routeLine d p s l) [⟨d,p.target,l,p.device,skipReserved s.mark⟩] := by
  have hm : s.mark ≤ skipReserved s.mark ∧ skipReserved s.mark ≠ 252 + 1 ∧
      skipReserved s.mark ≠ 254 ∧ skipReserved s.mark ≠ 255 ∧ skipReserved s.mark + 1 ≠ 254 := by
    unfold skipReserved
    split <;> omega
  have hc := commandText_commands (i := ⟨d,p.target,l,p.device,skipReserved s.mark⟩) h
  constructor
  · simp [routeLine,Item.pfText]
  · simp [routeLine,hc]
  · simp [routeLine,hc]
  · simp only [routeLine]; omega
  · simp only [routeLine]; omega
  · simp
  · simp only [routeLine,List.mem_singleton,forall_eq]; omega
  · simp only [List.mem_singleton,forall_eq]; omega

theorem lines_writes {d : Params} (h : isGateway d = true ∨ isInterface d = true) (p : Plan)
    (ls : List Str) {s : RouteState} (hs : s.mark ≠ 254 ∧ s.mark ≠ 255) :
    Writes s (ls.foldl (routeLine d p) s) (itemsFrom d p ls s.mark) := by
  induction ls generalizing s with
  | nil => exact Writes.refl rfl rfl rfl rfl hs
  | cons l ls ih =>
    have hl := routeLine_writes h p hs l
    exact hl.trans (ih hl.open_mark)

structure SameFiles (s t : RouteState) : Prop where
  mark : t.mark = s.mark
  pf : t.pfRules = s.pfRules
  ip : t.ipRules = s.ipRules
  remove : t.ipRulesRemove = s.ipRulesRemove

theorem routeTarget_same {fuel : Nat} {d : Params} {s : RouteState} {t : Str × RouteState}
    (h : routeTarget pcre env fuel d s = some t) : SameFiles s t.2 := by
  unfold routeTarget at h
  split at h
  · simp only [Option.some.injEq] at h
    subst h
    exact ⟨rfl,rfl,rfl,rfl⟩
  · split at h
    · obtain ⟨r,-,rfl⟩ := Option.map_eq_some_iff.mp h
      exact ⟨rfl,rfl,rfl,rfl⟩
    · simp only [Option.some.injEq] at h
      subst h
      exact ⟨rfl,rfl,rfl,rfl⟩

/-- The rules of a plan are those of the three names, behind the lookup of the target. -/
theorem routePlan_spec {fuel : Nat} {d : Params} {s : RouteState} {r : Plan × RouteState}
    (h : routePlan pcre env fuel d s = some r) : ∃ t, routeTarget pcre env fuel d s = some t ∧
      r.1.target = t.1 ∧ r.2.dtoken = t.2.dtoken ∧ SameFiles s r.2 ∧
      r.1.lines = (policyNormalRulesData pcre env (d.val "SRC") (d.val "DST") (d.val "SERVICE")
        t.2.world).1 := by
  unfold routePlan at h
  obtain ⟨t,ht,h⟩ := Option.bind_eq_some_iff.mp h
  have hs := routeTarget_same pcre env ht
  refine ⟨t,ht,?_⟩
  dsimp only at h
  split at h
  · obtain ⟨v,-,rfl⟩ := Option.map_eq_some_iff.mp h
    exact ⟨rfl,rfl,⟨hs.mark,hs.pf,hs.ip,hs.remove⟩,rfl⟩
  · simp only [Option.some.injEq] at h
    subst h
    exact ⟨rfl,rfl,⟨hs.mark,hs.pf,hs.ip,hs.remove⟩,rfl⟩

theorem written_ne {p : Plan} (h : p.written ≠ []) : p.target ≠ [] := by
  intro ht
  rw [Plan.written,ht] at h
  exact h rfl

/-- An entry that is skipped or dropped, or the turn of a live one. -/
theorem routeEntry_cases {fuel : Nat} {s t : RouteState} {e : Str × Params}
    (h : routeEntry pcre env fuel s e = some t) :
    (live e.2 = false ∧ t.dtoken = s.dtoken ∧ SameFiles s t) ∨
    (live e.2 = true ∧ ∃ r, routePlan pcre env fuel e.2 s = some r ∧
      t = r.1.written.foldl (routeLine e.2 r.1) r.2) := by
  unfold routeEntry at h
  split at h
  · rename_i hc
    simp only [Option.some.injEq] at h
    subst h
    exact Or.inl ⟨by simp_all [live],rfl,rfl,rfl,rfl,rfl⟩
  split at h
  · rename_i hc
    simp only [Option.some.injEq] at h
    subst h
    exact Or.inl ⟨by simp_all [live],rfl,rfl,rfl,rfl,rfl⟩
  split at h
  · rename_i hc
    simp only [Option.some.injEq] at h
    subst h
    exact Or.inl ⟨by simp_all [live],rfl,rfl,rfl,rfl,rfl⟩
  · obtain ⟨r,hr,rfl⟩ := Option.map_eq_some_iff.mp h
    exact Or.inr ⟨by simp_all [live],r,hr,rfl⟩

theorem routeEntry_writes {fuel : Nat} {s t : RouteState} {e : Str × Params}
    (h : routeEntry pcre env fuel s e = some t) (hs : s.mark ≠ 254 ∧ s.mark ≠ 255) :
    Writes s t (installed pcre env fuel (s,e)) := by
  rcases routeEntry_cases pcre env h with ⟨hl,-,hf⟩ | ⟨hl,r,hr,rfl⟩
  · have hi : installed pcre env fuel (s,e) = [] := by simp [installed,hl]
    rw [hi]
    exact Writes.refl hf.mark hf.pf hf.ip hf.remove hs
  · have hi : installed pcre env fuel (s,e) = itemsFrom e.2 r.1 r.1.written r.2.mark := by
      simp [installed,hl,hr]
    obtain ⟨q,ht,hq,-,hf,-⟩ := routePlan_spec pcre env hr
    have h₀ := Writes.refl hf.mark hf.pf hf.ip hf.remove hs
    rw [hi]
    by_cases hw : r.1.written = []
    · rw [hw]
      exact h₀
    · have hy := routeTarget_type pcre env ht (hq ▸ written_ne hw)
      exact h₀.trans (lines_writes hy r.1 r.1.written h₀.open_mark)

theorem routeLoop_writes {fuel : Nat} {es : List (Str × Params)} {s t : RouteState}
    (h : routeLoop pcre env fuel es s = some t) (hs : s.mark ≠ 254 ∧ s.mark ≠ 255) :
    Writes s t ((visits pcre env fuel es s).flatMap (installed pcre env fuel)) ∧
    (visits pcre env fuel es s).map Prod.snd = es := by
  induction es generalizing s with
  | nil =>
    simp only [routeLoop,List.foldlM_nil,Option.pure_def,Option.some.injEq] at h
    subst h
    exact ⟨Writes.refl rfl rfl rfl rfl hs,rfl⟩
  | cons e es ih =>
    rw [routeLoop,List.foldlM_cons] at h
    obtain ⟨u,hu,h⟩ := Option.bind_eq_some_iff.mp h
    have he := routeEntry_writes pcre env hu hs
    obtain ⟨hi,hv⟩ := ih h he.open_mark
    simp only [visits,hu,List.flatMap_cons,List.map_cons,hv,and_true]
    exact he.trans hi

/-- The turns of `network_start_policy_route`. -/
def turns (fuel : Nat) (w : World) : List (RouteState × Str × Params) :=
  let g := iniTokenGet env "network" "route_policy.cfg" ∅ w
  visits pcre env fuel g.1.entries (startState g.2)

def generated (fuel : Nat) (w : World) : List Item :=
  (turns pcre env fuel w).flatMap (installed pcre env fuel)

/-- The chain as `policy_routes` loads it, the template first; what a condition means is
left open. -/
def preroutingChain {P : Type} (f : Str → P → Bool) (items : List Item) : List (MarkChain.Rule P) :=
  acceptMarked :: items.map fun i => guarded (f i.condition) i.mark

/-- The first generated rule that matches decides the mark, the mark decides the table, and
everything that is set up can be taken away. -/
structure FirstMatch (items : List Item) (cs : List (Command Route)) : Prop where
  increasing : items.Pairwise fun a b => a.mark < b.mark
  free : ∀ i ∈ items, i.mark ≠ 0 ∧ i.mark ≠ 253 ∧ i.mark ≠ 254 ∧ i.mark ≠ 255
  first : ∀ {P : Type} (f : Str → P → Bool) (p : P), MarkChain.run (preroutingChain f items) p 0 =
    ((items.find? fun i => f i.condition p).map Item.mark).getD 0
  table : ∀ i ∈ items, tablesOf cs i.mark = [i.mark] ∧ routesIn cs i.mark = [i.route]
  unmarked : tablesOf cs 0 = []
  once : cs.Nodup

theorem firstMatch {items : List Item} (h : items.Pairwise fun a b => a.mark < b.mark)
    (hm : ∀ i ∈ items, i.mark ≠ 0 ∧ i.mark ≠ 253 ∧ i.mark ≠ 254 ∧ i.mark ≠ 255) :
    FirstMatch items (items.flatMap Item.commands) where
  increasing := h
  free := hm
  first f p := by
    rw [preroutingChain,run_acceptMarked]
    exact run_guarded (fun i : Item => f i.condition) Item.mark (fun i hi => (hm i hi).1) p
  table := by
    intro i hi
    rw [tablesOf_commands,routesIn_commands,filter_mark h hi]
    exact ⟨rfl,rfl⟩
  unmarked := by
    rw [tablesOf_commands,List.map_eq_nil_iff,List.filter_eq_nil_iff]
    intro i hi
    simpa using (hm i hi).1
  once := commands_nodup h

/-- Policy routing is first match: the files are those of the generated items, in the order
of the entries, and the items behave as a first-match policy. -/
theorem networkStartPolicyRoute_firstMatch {fuel : Nat} {w : World} {t : RouteState}
    (h : networkStartPolicyRoute pcre env fuel w = some t) :
    let items := generated pcre env fuel w
    let cs := items.flatMap Item.commands
    (turns pcre env fuel w).map Prod.snd =
      (iniTokenGet env "network" "route_policy.cfg" ∅ w).1.entries ∧
    t.pfRules = items.flatMap Item.pfText ∧
    t.ipRules = cs.flatMap (commandText "add") ∧
    t.ipRulesRemove = cs.flatMap (commandText "delete") ∧
    FirstMatch items cs := by
  intro items cs
  obtain ⟨hw,hv⟩ := routeLoop_writes pcre env h (by simp [startState])
  refine ⟨hv,hw.pf,hw.ip,hw.remove,firstMatch hw.increasing fun i hi => ⟨?_,hw.free i hi⟩⟩
  have := (hw.between i hi).1
  simp only [startState] at this
  omega

def twoRoutes : World := World.ofFiles [
  ("definitions","network.cfg","ID=n1\nNAME=lan\nADDR=192.168.1.0\nPREF=24\n"),
  ("definitions","network_host.cfg","ID=h1\nNAME=gw\nADDR=10.0.0.1\n"),
  ("network","route_policy.cfg",
    "ID=r1\nROUTE_TYPE=gateway\nDNAME=any\nSRC=lan\nDST=any\nSERVICE=any\nSTAT=1\nROUTE_GATEWAY=gw\nID=r2\nROUTE_TYPE=gateway\nDNAME=any\nSRC=any\nDST=lan\nSERVICE=any\nSTAT=1\nROUTE_GATEWAY=gw\n")]

theorem twoRoutes_ends : ∃ t, networkStartPolicyRoute Pcre.plain noonEnv 1 twoRoutes = some t := by
  refine Option.isSome_iff_exists.mp ?_
  decide +kernel

theorem networkStartPolicyRoute_firstMatch_two :
    ∃ t, networkStartPolicyRoute Pcre.plain noonEnv 1 twoRoutes = some t ∧
      t.ipRules = ((generated Pcre.plain noonEnv 1 twoRoutes).flatMap Item.commands).flatMap
        (commandText "add") := by
  obtain ⟨t,ht⟩ := twoRoutes_ends
  exact ⟨t,ht,(networkStartPolicyRoute_firstMatch Pcre.plain noonEnv ht).2.2.1⟩

/-- The host object the entry names, looked up in the state its turn starts in. -/
def gatewayHost (v : RouteState × Str × Params) : Option Params :=
  let r := definitionsGetByparam pcre env .networks "NAME" (v.2.2.val "ROUTE_GATEWAY") ∅ "host" v.1.world
  if r.1.1 then some r.1.2 else none

/-- The rules of the three names, behind the lookup of the gateway. -/
def gatewayLines (v : RouteState × Str × Params) : List Str :=
  (policyNormalRulesData pcre env (v.2.2.val "SRC") (v.2.2.val "DST") (v.2.2.val "SERVICE")
    (definitionsGetByname pcre env .networks (v.2.2.val "ROUTE_GATEWAY") ∅ "host" v.1.world).2).1

def viaGateway (v : RouteState × Str × Params) : Bool := live v.2.2 && isGateway v.2.2

/-- Routes by way of the address of the host, or none at all. -/
structure GatewayRight (fuel : Nat) (v : RouteState × Str × Params) : Prop where
  found : ∀ o, gatewayHost pcre env v = some o →
    ∀ i ∈ installed pcre env fuel v, i.route = .via (o.val "ADDR")
  lost : gatewayHost pcre env v = none → installed pcre env fuel v = []

/-- The address of the last gateway that was found. -/
def lastGateway (vs : List (RouteState × Str × Params)) : Str :=
  vs.foldl (fun a v => if viaGateway v then
    match gatewayHost pcre env v with
    | some o => o.val "ADDR"
    | none => a
  else a) []

theorem definitionsGetByparam_spec (k : Kind) (param value : Str) (itoken : Params) (type : Str)
    (w : World) :
    (definitionsGetByparam pcre env k param value itoken type w).2 =
      (definitionsGetByparam pcre env k param value ∅ type w).2 ∧
    (definitionsGetByparam pcre env k param value itoken type w).1.2 =
      if (definitionsGetByparam pcre env k param value ∅ type w).1.1 then
        (definitionsGetByparam pcre env k param value ∅ type w).1.2 else itoken := by
  unfold definitionsGetByparam
  rcases Option.eq_none_or_eq_some (findParam k (definitionsGet pcre env k w).1 param value type) with
    hf | ⟨o,hf⟩ <;> simp [hf]

theorem routeTarget_gateway {fuel : Nat} {v : RouteState × Str × Params}
    (h : isGateway v.2.2 = true) {t : Str × RouteState}
    (ht : routeTarget pcre env fuel v.2.2 v.1 = some t) :
    t.2.dtoken = (gatewayHost pcre env v).getD v.1.dtoken ∧ t.1 = t.2.dtoken.val "ADDR" ∧
    (policyNormalRulesData pcre env (v.2.2.val "SRC") (v.2.2.val "DST") (v.2.2.val "SERVICE")
      t.2.world).1 = gatewayLines pcre env v := by
  obtain ⟨hw,ho⟩ := definitionsGetByparam_spec pcre env .networks "NAME" (v.2.2.val "ROUTE_GATEWAY")
    v.1.dtoken "host" v.1.world
  rw [routeTarget,if_pos h] at ht
  simp only [Option.some.injEq,definitionsGetByname] at ht
  subst ht
  refine ⟨?_,by dsimp only,?_⟩
  · rw [ho,gatewayHost]
    dsimp only
    split <;> simp
  · dsimp only
    rw [hw,gatewayLines,definitionsGetByname]

theorem routeTarget_other {fuel : Nat} {d : Params} {s : RouteState}
    (h : isGateway d = false) {t : Str × RouteState}
    (ht : routeTarget pcre env fuel d s = some t) : t.2.dtoken = s.dtoken := by
  rw [routeTarget,h] at ht
  simp only [Bool.false_eq_true,if_false] at ht
  split at ht
  · obtain ⟨r,-,rfl⟩ := Option.map_eq_some_iff.mp ht
    rfl
  · simp only [Option.some.injEq] at ht
    subst ht
    rfl

theorem routeLines_dtoken (d : Params) (p : Plan) (ls : List Str) (s : RouteState) :
    (ls.foldl (routeLine d p) s).dtoken = s.dtoken := by
  induction ls generalizing s with
  | nil => rfl
  | cons l ls ih => exact ih _

theorem lastGateway_snoc (vs : List (RouteState × Str × Params)) (v : RouteState × Str × Params) :
    lastGateway pcre env (vs ++ [v]) = if viaGateway v then
      match gatewayHost pcre env v with
      | some o => o.val "ADDR"
      | none => lastGateway pcre env vs
    else lastGateway pcre env vs := by
  simp [lastGateway]

theorem routeEntry_dtoken {fuel : Nat} {s t : RouteState} {e : Str × Params}
    (h : routeEntry pcre env fuel s e = some t) {vs : List (RouteState × Str × Params)}
    (hs : s.dtoken.val "ADDR" = lastGateway pcre env vs) :
    t.dtoken.val "ADDR" = lastGateway pcre env (vs ++ [(s,e)]) := by
  rw [lastGateway_snoc]
  rcases routeEntry_cases pcre env h with ⟨hl,hd,-⟩ | ⟨hl,r,hr,rfl⟩
  · rw [hd,viaGateway,hl]
    exact hs
  · obtain ⟨q,ht,-,hd,-⟩ := routePlan_spec pcre env hr
    rw [routeLines_dtoken,hd,viaGateway,hl,Bool.true_and]
    by_cases hg : isGateway e.2 = true
    · rw [(routeTarget_gateway pcre env (v := (s,e)) hg ht).1,if_pos hg]
      cases gatewayHost pcre env (s,e) with
      | none => exact hs
      | some o => rfl
    · rw [routeTarget_other pcre env (by simpa using hg) ht,if_neg hg]
      exact hs

/-- In every turn `$_DTOKEN` holds the last gateway that was found, and the turn ends. -/
theorem visits_dtoken {fuel : Nat} {es : List (Str × Params)} {s t : RouteState}
    (h : routeLoop pcre env fuel es s = some t) (vs : List (RouteState × Str × Params))
    (hs : s.dtoken.val "ADDR" = lastGateway pcre env vs) {l m : List (RouteState × Str × Params)}
    {v : RouteState × Str × Params} (hv : visits pcre env fuel es s = l ++ v::m) :
    v.1.dtoken.val "ADDR" = lastGateway pcre env (vs ++ l) ∧
    routeEntry pcre env fuel v.1 v.2 ≠ none := by
  induction es generalizing s vs l with
  | nil => simp [visits] at hv
  | cons e es ih =>
    rw [routeLoop,List.foldlM_cons] at h
    obtain ⟨u,hu,h⟩ := Option.bind_eq_some_iff.mp h
    simp only [visits,hu] at hv
    cases l with
    | nil =>
      simp only [List.nil_append,List.cons.injEq] at hv
      obtain ⟨rfl,-⟩ := hv
      exact ⟨by simpa using hs,by simp [hu]⟩
    | cons x l =>
      simp only [List.cons_append,List.cons.injEq] at hv
      obtain ⟨rfl,hv⟩ := hv
      have hi := ih h _ (routeEntry_dtoken pcre env hu hs) hv
      simpa using hi

theorem itemsFrom_eq_nil {d : Params} {p : Plan} {ls : List Str} {m : Nat} :
    itemsFrom d p ls m = [] ↔ ls = [] := by
  cases ls <;> simp [itemsFrom]

theorem mem_itemsFrom {d : Params} {p : Plan} {ls : List Str} {m : Nat} {i : Item}
    (h : i ∈ itemsFrom d p ls m) : i.data = d ∧ i.target = p.target := by
  induction ls generalizing m with
  | nil => simp [itemsFrom] at h
  | cons l ls ih =>
    rcases List.mem_cons.mp h with rfl | h
    · exact ⟨rfl,rfl⟩
    · exact ih h

/-- The turn of an entry with a gateway: where its routes go, and when there are any. -/
theorem installed_gateway {fuel : Nat} {v : RouteState × Str × Params}
    (h : viaGateway v = true) (hn : routeEntry pcre env fuel v.1 v.2 ≠ none) :
    let a := ((gatewayHost pcre env v).getD v.1.dtoken).val "ADDR"
    (∀ i ∈ installed pcre env fuel v, i.route = .via a) ∧
    (installed pcre env fuel v = [] ↔ a = [] ∨ gatewayLines pcre env v = []) := by
  intro a
  simp only [viaGateway,Bool.and_eq_true] at h
  obtain ⟨hl,hg⟩ := h
  obtain ⟨t,ht⟩ := Option.ne_none_iff_exists'.mp hn
  obtain ⟨-,r,hr,-⟩ := (routeEntry_cases pcre env ht).resolve_left (by simp [hl])
  have hi : installed pcre env fuel v = itemsFrom v.2.2 r.1 r.1.written r.2.mark := by
    simp [installed,hl,hr]
  obtain ⟨q,hq,htq,-,-,hlq⟩ := routePlan_spec pcre env hr
  obtain ⟨hd,hta,hln⟩ := routeTarget_gateway pcre env hg hq
  have ha : r.1.target = a := by rw [htq,hta,hd]
  rw [hi]
  constructor
  · intro i him
    obtain ⟨hid,hit⟩ := mem_itemsFrom him
    rw [Item.route,hid,not_isInterface hg,hit,ha]
    rfl
  · rw [itemsFrom_eq_nil,Plan.written,ha,hlq,hln]
    split
    · rename_i hna
      simp [null_iff.mp hna]
    · rename_i hna
      have hne : a ≠ [] := by simpa using hna
      simp [hne]

/-- Every gateway of a run is right exactly when no entry with rules and with a gateway that
is not found comes behind one whose gateway was found and had an address. -/
theorem gateways_right_iff {fuel : Nat} {w : World} {t : RouteState}
    (h : networkStartPolicyRoute pcre env fuel w = some t) :
    (∀ v ∈ turns pcre env fuel w, viaGateway v = true → GatewayRight pcre env fuel v) ↔
    ∀ l v m, turns pcre env fuel w = l ++ v::m → viaGateway v = true →
      gatewayHost pcre env v = none → gatewayLines pcre env v ≠ [] → lastGateway pcre env l = [] := by
  have hv : ∀ l v m, turns pcre env fuel w = l ++ v::m →
      v.1.dtoken.val "ADDR" = lastGateway pcre env l ∧ routeEntry pcre env fuel v.1 v.2 ≠ none := by
    intro l v m hs
    have hd := visits_dtoken pcre env h [] rfl hs
    simpa using hd
  constructor
  · intro hr l v m hs hg hn hl
    obtain ⟨hd,he⟩ := hv l v m hs
    have hi := (installed_gateway pcre env hg he).2
    have hr' := (hr v (by rw [hs]; simp) hg).lost hn
    rw [hn] at hi
    have ha := (hi.mp hr').resolve_right hl
    rw [← hd]
    exact ha
  · intro hr v hm hg
    obtain ⟨l,m,hs⟩ := List.append_of_mem hm
    obtain ⟨hd,he⟩ := hv l v m hs
    obtain ⟨hi,hn⟩ := installed_gateway pcre env hg he
    constructor
    · intro o ho
      rw [ho] at hi
      exact hi
    · intro ho
      rw [ho] at hn
      rw [hn]
      by_cases hl : gatewayLines pcre env v = []
      · exact Or.inr hl
      · left
        change v.1.dtoken.val "ADDR" = []
        rw [hd]
        exact hr l v m hs hg ho hl

theorem gateways_right_iff_two : (∀ v ∈ turns Pcre.plain noonEnv 1 twoRoutes, viaGateway v = true →
    GatewayRight Pcre.plain noonEnv 1 v) ↔
    ∀ l v m, turns Pcre.plain noonEnv 1 twoRoutes = l ++ v::m → viaGateway v = true →
      gatewayHost Pcre.plain noonEnv v = none → gatewayLines Pcre.plain noonEnv v ≠ [] →
      lastGateway Pcre.plain noonEnv l = [] := by
  obtain ⟨t,ht⟩ := twoRoutes_ends
  exact gateways_right_iff Pcre.plain noonEnv ht

/-- The gateway of the second route has been deleted. -/
def lostGateway : World := World.ofFiles [
  ("definitions","network.cfg","ID=n1\nNAME=lan\nADDR=192.168.1.0\nPREF=24\n"),
  ("definitions","network_host.cfg","ID=h1\nNAME=gw\nADDR=10.0.0.1\n"),
  ("network","route_policy.cfg",
    "ID=r1\nROUTE_TYPE=gateway\nDNAME=any\nSRC=lan\nDST=any\nSERVICE=any\nSTAT=1\nROUTE_GATEWAY=gw\nID=r2\nROUTE_TYPE=gateway\nDNAME=any\nSRC=any\nDST=lan\nSERVICE=any\nSTAT=1\nROUTE_GATEWAY=old\n")]

theorem gateway_outlives_turn : ∃ v ∈ turns Pcre.plain noonEnv 1 lostGateway,
    viaGateway v = true ∧ ¬GatewayRight Pcre.plain noonEnv 1 v := by
  have h : ((turns Pcre.plain noonEnv 1 lostGateway).any fun v => viaGateway v &&
      (gatewayHost Pcre.plain noonEnv v).isNone && !(installed Pcre.plain noonEnv 1 v).isEmpty) = true := by
    decide +kernel
  obtain ⟨v,hv,hh⟩ := List.any_eq_true.mp h
  simp only [Bool.and_eq_true,Option.isNone_iff_eq_none,Bool.not_eq_true',List.isEmpty_eq_false_iff] at hh
  exact ⟨v,hv,hh.1.1,fun hr => hh.2 (hr.lost hh.1.2)⟩

end PolicyRoutes
end Mybox
