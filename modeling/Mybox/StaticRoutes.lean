import Mybox.PolicyRoutes
import Mybox.Runs

/-! The static routes: each route that is added leaves a line in a batch file, and the file is executed once to take
the routes away again, up to the first line that fails. -/
namespace Mybox
namespace StaticRoutes
open Php RegistryFormat Registry Definitions PolicyRoutes

/-- What the kernel does on its own: the routes it drops before each command, and the ones it takes. -/
structure Link where
  drops : ℕ → List Str
  takes : ℕ → Str → Bool

/-- The routes that are installed, by what follows `ip route add`, and the number of commands so far. -/
structure Table where
  routes : List Str
  clock : ℕ
  deriving DecidableEq

/-- The registry, the kernel's table and the routes of the batch file; and every route that has been added, which is
written down nowhere. -/
structure Routing where
  world : World
  kernel : Table
  remove : Option (List Str)
  added : List Str
  deriving DecidableEq

variable (pcre : Pcre) (link : Link) (env : Env)

def Table.elapse (k : Table) : Table := ⟨k.routes.filter (· ∉ link.drops k.clock),k.clock + 1⟩

/-- `ip route add`: a route that is there is refused. -/
def routeAdd (r : Str) (k : Table) : Bool × Table :=
  let j := k.elapse link
  if link.takes k.clock r ∧ r ∉ j.routes then (true,{ j with routes := r::j.routes }) else (false,j)

/-- `route delete`, which fails where there is no such route. -/
def routeDelete (r : Str) (k : Table) : Bool × Table :=
  let j := k.elapse link
  if r ∈ j.routes then (true,{ j with routes := j.routes.filter (· ≠ r) }) else (false,j)

/-- `ip -b`: line by line up to the first one that fails. -/
def ipBatch : List Str → Table → Table
  | [], k => k
  | r::rs, k =>
    let d := routeDelete link r k
    if d.1 then ipBatch rs d.2 else d.2

def networkStopStaticRoute (s : Routing) : Routing :=
  match s.remove with
  | none => s
  | some rs => { s with kernel := ipBatch link rs s.kernel, remove := none }

/-- One route added, and a line for it when that went well. -/
def addRoute (s : Routing) (r : Str) : Routing :=
  let a := routeAdd link r s.kernel
  if a.1 then { s with kernel := a.2, remove := some (s.remove.getD [] ++ [r]), added := r::s.added }
  else { s with kernel := a.2 }

/-- `$_addr_a`: the addresses of the objects, with their prefixes. -/
def routeAddresses (ds : List Params) : List Str :=
  (ds.foldl (fun (m : Params) d =>
    if null (d.val "ADDR") then m
    else
      let addr := if null (d.val "PREF") then d.val "ADDR" else d.val "ADDR" ++ '/' :: d.val "PREF"
      m.set addr addr) ∅).entries.map Prod.snd

def staticTargets (fuel : ℕ) (d : Params) (addrs : List Str) (w : World) : Option (List Str × World) :=
  if isInterface d && !null (d.val "DNAME") then
    (definitionsGetInterfaceDevice env fuel (d.val "DNAME") w).map fun r =>
      (if null r.1 then [] else addrs.map fun a => a ++ (" dev " : Str) ++ r.1,r.2)
  else if isGateway d && !null (d.val "ROUTE_GATEWAY") then
    let r := definitionsGetByname pcre env .networks (d.val "ROUTE_GATEWAY") ∅ "host" w
    some (if null (r.1.val "ADDR") then [] else addrs.map fun a => a ++ (" via " : Str) ++ r.1.val "ADDR",r.2)
  else if (["blackhole","prohibit","unreachable"] : List Str).any fun t => looseEq (d.val "ROUTE_TYPE") t then
    some (addrs.map fun a => d.val "ROUTE_TYPE" ++ ' ' :: a,w)
  else some ([],w)

def staticEntry (fuel : ℕ) (s : Routing) (e : Str × Params) : Option Routing :=
  if null (e.2.val "ROUTE_NETWORK") || null (e.2.val "ROUTE_TYPE") then
    some { s with world := (iniTokenDelete pcre env "network" "route_static.cfg" e.1 s.world).2 }
  else if !enabled e.2 then some s
  else
    let n := definitionsGetBynameR pcre env .networks (e.2.val "ROUTE_NETWORK") s.world
    if n.1.isEmpty then some { s with world := n.2 }
    else (staticTargets pcre env fuel e.2 (routeAddresses n.1) n.2).map fun t =>
      t.1.foldl (addRoute link) { s with world := t.2 }

def networkStartStaticRoute (fuel : ℕ) (s : Routing) : Option Routing :=
  let stopped := networkStopStaticRoute link s
  let g := iniTokenGet env "network" "route_static.cfg" ∅ stopped.world
  g.1.entries.foldlM (staticEntry pcre link env fuel) { stopped with world := g.2 }

inductive Event
  | start (env : Env) (fuel : ℕ)
  | stop
  /-- The registry is changed. -/
  | change (w : World)
  /-- The kernel drops what it drops. -/
  | pass

/-- A step of a run, and the state it finds. -/
structure Turn where
  event : Event
  before : Routing

def Event.run : Event → Routing → Option Routing
  | start env fuel, s => networkStartStaticRoute pcre link env fuel s
  | stop, s => some (networkStopStaticRoute link s)
  | change w, s => some { s with world := w }
  | pass, s => some { s with kernel := s.kernel.elapse link }

/-- The routes are taken away at a stop, and at every start before new ones are added. -/
def Event.stops : Event → Bool
  | start _ _ => true
  | stop => true
  | change _ => false
  | pass => false

def routeSystem : System Routing Turn where
  init s := s.remove = none ∧ s.added = []
  step s t s' := t.before = s ∧ t.event.run pcre link s = some s'

def Removed (s : Routing) : Prop := ∀ r ∈ s.added, r ∉ s.kernel.routes

/-- The lines of the batch meet a route that is not there only where none of the routes behind it is. -/
def Orderly : List Str → Table → Prop
  | [], _ => True
  | r::rs, k =>
    let d := routeDelete link r k
    if d.1 then Orderly rs d.2 else ∀ x ∈ rs, x ∉ d.2.routes

def decideOrderly : (rs : List Str) → (k : Table) → Decidable (Orderly link rs k)
  | [], _ => isTrue trivial
  | r::rs, k =>
    have := decideOrderly rs (routeDelete link r k).2
    inferInstanceAs (Decidable (if (routeDelete link r k).1 then Orderly link rs (routeDelete link r k).2
      else ∀ x ∈ rs, x ∉ (routeDelete link r k).2.routes))

instance (rs : List Str) (k : Table) : Decidable (Orderly link rs k) := decideOrderly link rs k

/-- What was added and is there is in the batch file, and nothing else is in it. -/
structure Recorded (s : Routing) : Prop where
  listed : ∀ r ∈ s.added, r ∈ s.kernel.routes → r ∈ s.remove.getD []
  added : ∀ r ∈ s.remove.getD [], r ∈ s.added

variable {link}

theorem routeDelete_spec (r : Str) (k : Table) : (∀ x ∈ (routeDelete link r k).2.routes, x ∈ k.routes) ∧
    r ∉ (routeDelete link r k).2.routes := by
  have he : ∀ x ∈ (k.elapse link).routes, x ∈ k.routes := fun x hx => List.mem_of_mem_filter hx
  unfold routeDelete
  dsimp only
  split
  · exact ⟨fun x hx => he x (List.mem_of_mem_filter hx),by simp⟩
  · rename_i h
    exact ⟨he,h⟩

theorem ipBatch_subset {rs : List Str} {k : Table} : ∀ x ∈ (ipBatch link rs k).routes, x ∈ k.routes := by
  induction rs generalizing k with
  | nil => exact fun _ hx => hx
  | cons r rs ih =>
    intro x hx
    refine (@routeDelete_spec link r k).1 x ?_
    unfold ipBatch at hx
    dsimp only at hx
    split at hx
    · exact ih x hx
    · exact hx

theorem ipBatch_iff {rs : List Str} {k : Table} :
    (∀ r ∈ rs, r ∉ (ipBatch link rs k).routes) ↔ Orderly link rs k := by
  induction rs generalizing k with
  | nil => simp [Orderly]
  | cons r rs ih =>
    have hr := (@routeDelete_spec link r k).2
    unfold ipBatch Orderly
    dsimp only
    rw [List.forall_mem_cons]
    split
    · rw [ih]
      exact and_iff_right fun h => hr (ipBatch_subset r h)
    · exact and_iff_right hr

@[simp] theorem added_stop (s : Routing) : (networkStopStaticRoute link s).added = s.added := by
  unfold networkStopStaticRoute
  split <;> rfl

theorem removed_iff_orderly {s : Routing} (h : Recorded s) :
    Removed (networkStopStaticRoute link s) ↔ Orderly link (s.remove.getD []) s.kernel := by
  unfold networkStopStaticRoute
  obtain ⟨hl,ha⟩ := h
  cases hr : s.remove with
  | none =>
    rw [hr] at hl
    exact iff_of_true (fun r hx hk => absurd (hl r hx hk) List.not_mem_nil) trivial
  | some rs =>
    rw [hr] at hl ha
    rw [Option.getD_some] at *
    rw [← ipBatch_iff]
    constructor
    · exact fun h r hx => h r (ha r hx)
    · exact fun h r hx hk => h r (hl r hx (ipBatch_subset r hk)) hk

theorem recorded_stop {s : Routing} (h : Recorded s) (hr : Removed (networkStopStaticRoute link s)) :
    Recorded (networkStopStaticRoute link s) := by
  refine ⟨fun r hx hk => absurd hk (hr r hx),?_⟩
  unfold networkStopStaticRoute
  split
  · exact h.added
  · exact fun r hx => absurd hx List.not_mem_nil

theorem recorded_elapse {s : Routing} (h : Recorded s) (k : Table) (hk : ∀ x ∈ k.routes, x ∈ s.kernel.routes) :
    Recorded { s with kernel := k } :=
  ⟨fun r hx hr => h.listed r hx (hk r hr),h.added⟩

theorem recorded_world {s : Routing} (h : Recorded s) (w : World) : Recorded { s with world := w } :=
  ⟨h.listed,h.added⟩

theorem recorded_addRoute {s : Routing} (h : Recorded s) (r : Str) : Recorded (addRoute link s r) := by
  have he : ∀ x ∈ (s.kernel.elapse link).routes, x ∈ s.kernel.routes := fun x hx => List.mem_of_mem_filter hx
  unfold addRoute routeAdd
  dsimp only
  by_cases hc : link.takes s.kernel.clock r = true ∧ r ∉ (s.kernel.elapse link).routes
  · rw [if_pos hc]
    constructor
    · intro x hx hk
      simp only [if_true,List.mem_cons,Option.getD_some,List.mem_append,List.not_mem_nil,or_false] at hx hk ⊢
      rcases hx with rfl | hx
      · exact Or.inr rfl
      · rcases hk with rfl | hk
        · exact Or.inr rfl
        · exact Or.inl (h.listed x hx (he x hk))
    · intro x hx
      simp only [if_true,List.mem_cons,Option.getD_some,List.mem_append,List.not_mem_nil,or_false] at hx ⊢
      rcases hx with hx | rfl
      · exact Or.inr (h.added x hx)
      · exact Or.inl rfl
  · rw [if_neg hc]
    exact recorded_elapse h _ he

theorem recorded_staticEntry {fuel : ℕ} {s s' : Routing} {e : Str × Params} (h : Recorded s)
    (hs : staticEntry pcre link env fuel s e = some s') : Recorded s' := by
  unfold staticEntry at hs
  dsimp only at hs
  split_ifs at hs
  · obtain rfl := Option.some.inj hs
    exact recorded_world h _
  · obtain rfl := Option.some.inj hs
    exact h
  · obtain rfl := Option.some.inj hs
    exact recorded_world h _
  · obtain ⟨t,-,rfl⟩ := Option.map_eq_some_iff.mp hs
    exact List.foldlRecOn t.1 _ (recorded_world h t.2) fun s hs r _ => recorded_addRoute hs r

theorem recorded_loop {fuel : ℕ} {es : List (Str × Params)} {s s' : Routing} (h : Recorded s)
    (hs : es.foldlM (staticEntry pcre link env fuel) s = some s') : Recorded s' := by
  induction es generalizing s with
  | nil =>
    obtain rfl := Option.some.inj hs
    exact h
  | cons e es ih =>
    rw [List.foldlM_cons] at hs
    obtain ⟨t,ht,hs⟩ := Option.bind_eq_some_iff.mp hs
    exact ih (recorded_staticEntry pcre env h ht) hs

variable (link)

/-- What stops at a turn has taken the routes away. -/
def Turn.Cleared (t : Turn) : Prop := t.event.stops = true → Removed (networkStopStaticRoute link t.before)

/-- The batch that is executed at a turn is orderly. -/
def Turn.Ordered (t : Turn) : Prop := t.event.stops = true → Orderly link (t.before.remove.getD []) t.before.kernel

variable {link}

theorem recorded_step {s s' : Routing} {t : Turn} (h : Recorded s) (hs : (routeSystem pcre link).step s t s')
    (ho : t.Ordered link) : Recorded s' := by
  obtain ⟨rfl,hr⟩ := hs
  obtain ⟨event,s⟩ := t
  dsimp only at *
  cases event with
  | start env fuel =>
    have hst := recorded_stop h ((removed_iff_orderly h).mpr (ho rfl))
    exact recorded_loop pcre env (recorded_world hst _) hr
  | stop =>
    obtain rfl := Option.some.inj hr
    exact recorded_stop h ((removed_iff_orderly h).mpr (ho rfl))
  | change w =>
    obtain rfl := Option.some.inj hr
    exact recorded_world h w
  | pass =>
    obtain rfl := Option.some.inj hr
    exact recorded_elapse h _ fun x hx => List.mem_of_mem_filter hx

/-- In a run every stop takes away all routes that were added before exactly if at every stop the batch is orderly. -/
theorem routes_removed_iff {s s' : Routing} {ts : List Turn} (hi : (routeSystem pcre link).init s)
    (hr : System.Run (routeSystem pcre link) s ts s') : (∀ t ∈ ts, t.Cleared link) ↔ ∀ t ∈ ts, t.Ordered link := by
  have h₀ : Recorded s := by
    obtain ⟨h₁,h₂⟩ := hi
    exact ⟨by simp [h₂],by simp [h₁]⟩
  refine (hr.forall_iff (fun s t s' h hs => ?_) (fun s t s' h hs ho => recorded_step pcre h hs ho) h₀).1
  obtain ⟨rfl,-⟩ := hs
  exact imp_congr_right fun _ => removed_iff_orderly h

def branchWorld : World := World.ofFiles [
  ("network","eth.cfg","ID=eth0\nNAME=lan\nDEVICE=eth0\nID=eth1\nNAME=dmz\nDEVICE=eth1\n"),
  ("definitions","network.cfg","ID=n1\nNAME=branch\nADDR=10.1.0.0\nPREF=16\nID=n2\nNAME=plant\nADDR=10.2.0.0\nPREF=16\n"),
  ("network","route_static.cfg","ID=r1\nSTAT=1\nROUTE_NETWORK=branch\nROUTE_TYPE=interface\nDNAME=lan\nID=r2\nSTAT=1\nROUTE_NETWORK=plant\nROUTE_TYPE=interface\nDNAME=dmz\n")]

def branchStart : Routing := ⟨branchWorld,⟨[],0⟩,none,[]⟩

def lossy : Link := ⟨fun n => if n = 2 then ["10.1.0.0/16 dev eth0"] else [],fun _ _ => true⟩

def steady : Link := ⟨fun _ => [],fun _ _ => true⟩

theorem start_step {link : Link} {fuel : ℕ} {s s' : Routing} (h : networkStartStaticRoute pcre link env fuel s = some s') :
    (routeSystem pcre link).step s ⟨.start env fuel,s⟩ s' := ⟨rfl,h⟩

theorem stop_step (link : Link) (s : Routing) :
    (routeSystem pcre link).step s ⟨.stop,s⟩ (networkStopStaticRoute link s) := ⟨rfl,rfl⟩

theorem pass_step (link : Link) (s : Routing) :
    (routeSystem pcre link).step s ⟨.pass,s⟩ { s with kernel := s.kernel.elapse link } := ⟨rfl,rfl⟩

theorem branch_init (link : Link) : (routeSystem Pcre.plain link).init branchStart := ⟨rfl,rfl⟩

theorem branch_steady : ∃ s ∈ networkStartStaticRoute Pcre.plain steady noonEnv 1 branchStart,
    s.added ≠ [] ∧ Orderly steady (s.remove.getD []) s.kernel := by
  decide +kernel

theorem routes_removed_branch : ∃ s ∈ networkStartStaticRoute Pcre.plain steady noonEnv 1 branchStart,
    s.added ≠ [] ∧ Removed (networkStopStaticRoute steady s) := by
  obtain ⟨s,hs,ha,ho⟩ := branch_steady
  have hr := (System.Run.nil.snoc (start_step Pcre.plain noonEnv hs)).snoc (stop_step Pcre.plain steady s)
  refine ⟨s,hs,ha,(routes_removed_iff Pcre.plain (branch_init steady) hr).mpr (fun t ht => ?_) ⟨.stop,s⟩
    (List.mem_append_right _ (List.mem_singleton_self _)) rfl⟩
  rw [List.nil_append,List.mem_append,List.mem_singleton,List.mem_singleton] at ht
  rcases ht with rfl | rfl
  · exact fun _ => trivial
  · exact fun _ => ho

theorem branch_lossy : ∃ s ∈ networkStartStaticRoute Pcre.plain lossy noonEnv 1 branchStart, s.added.Nodup ∧
    ∃ r ∈ s.added, r ∈ (networkStopStaticRoute lossy { s with kernel := s.kernel.elapse lossy }).kernel.routes := by
  decide +kernel

/-- The kernel drops the first route, and the second one stays for good. -/
theorem routes_left : ¬ ∀ (link : Link) (s s' : Routing) (ts : List Turn), (routeSystem Pcre.plain link).init s →
    System.Run (routeSystem Pcre.plain link) s ts s' → s'.added.Nodup → ∀ t ∈ ts, t.Cleared link := by
  intro h
  obtain ⟨s,hs,hd,r,hr,hk⟩ := branch_lossy
  have hrun := ((System.Run.nil.snoc (start_step Pcre.plain noonEnv hs)).snoc (pass_step Pcre.plain lossy s)).snoc
    (stop_step Pcre.plain lossy { s with kernel := s.kernel.elapse lossy })
  have hc := h lossy branchStart _ _ (branch_init lossy) hrun (by rwa [added_stop]) _
    (List.mem_append_right _ (List.mem_singleton_self _)) rfl
  exact hc r (by rwa [added_stop]) hk

end StaticRoutes
end Mybox
