import Mybox.Php
import Mathlib.Data.List.Chain
import Mathlib.Tactic.Common

/-! The uplink daemon: each round it pings through every gateway and moves the default route, alone in
failover mode, through the scripts `uplink_start` and `uplink_stop` in balancer mode. The daemon hands out
commands; the kernel's routes are what the commands make of them. -/
namespace Mybox
namespace Uplink

open Php

/-- A line of `uplink_chk`. -/
structure Gateway where
  prio : ℤ
  dev : Str
  ip : Str
  gw : Str
  deriving DecidableEq

structure Counter extends Gateway where
  status : Bool
  down : ℕ
  deriving DecidableEq

/-- What the daemon runs or logs. -/
inductive Command
  | routeFlush
  | routeAdd (ip gw : Str)
  | routeDel (ip gw : Str)
  | routeDelDefault
  | routeDefault (gw dev : Str)
  | arping (ip dev : Str)
  | ping (ip target : Str)
  | execPing (target : Str)
  | uplinkStart
  | uplinkStop
  | log (type msg : Str)
  deriving DecidableEq

structure Daemon where
  mode : ℤ
  counter : List Counter
  list : List Str
  singlestate : Bool
  multistate : Bool
  deriving DecidableEq

/-- The answers of one round: whether target `j` answers through gateway `i`. -/
abbrev Round := ℕ → ℕ → Bool

/-- The loop of `do_ping` from target `j` on; `x` is the exit status of the last ping. -/
def pingLoop (answer : ℕ → Bool) (gw ip : Str) : List Str → ℕ → ℕ → ℕ × List Command
  | [], _, x => (x,[])
  | t::ts, j, x =>
    if x = 0 then (x,[])
    else
      let r := pingLoop answer gw ip ts (j+1) (if answer j then 0 else 1)
      (r.1,.routeAdd t gw::.ping ip t::.execPing t::.routeDel t gw::r.2)

def doPing (answer : ℕ → Bool) (list : List Str) (gw dev ip : Str) : ℕ × List Command :=
  let r := pingLoop answer gw ip list 0 1
  (r.1,.routeFlush::r.2 ++ [.arping ip dev])

def switch (g : Gateway) : List Command := [.routeDelDefault,.routeDefault g.gw g.dev]

def modeType (mode : ℤ) : Str :=
  if mode = 2 then "Balancer (active->active)" else "Failover (active->passive)"

def uplinkMsg (mode : ℤ) (msg : Str) : Str := "Uplink [" ++ modeType mode ++ "] " ++ msg

/-- The loop of `do_single_route`, given and giving `singlestate`. -/
def doSingleRoute (mode : ℤ) : List Counter → Bool → Bool × List Command
  | [], st => (st,[])
  | c::cs, st =>
    if c.prio = 1 ∧ c.status then
      if st then
        (false,switch c.toGateway ++ [.log "INFO" (uplinkMsg mode ("switching back to primary gateway " ++ c.gw))])
      else (st,[])
    else if c.status then
      (true,switch c.toGateway ++
        [.log "INFO" (uplinkMsg mode ("primary gateway seems to be down, switching to " ++ c.gw))])
    else doSingleRoute mode cs true

/-- The loop of `do_tune_route`: how many are up, counted to two, and the last one counted. -/
def countUp : List Counter → ℕ → Option Counter → ℕ × Option Counter
  | [], x, p => (x,p)
  | c::cs, x, p =>
    if c.status then
      if 1 < x then (x,p) else countUp cs (x+1) (some c)
    else countUp cs x p

def doTuneRoute (mode : ℤ) (cs : List Counter) (st : Bool) : Bool × List Command :=
  match countUp cs 0 none with
  | (1,some p) =>
    if st then (st,[])
    else
      (true,.uplinkStop::switch p.toGateway ++
        [.log "INFO" (uplinkMsg mode ("only one gateway " ++ p.gw ++ " is up, setting as default"))])
  | _ =>
    if st then
      (false,[.uplinkStart,
        .log "INFO" (uplinkMsg mode "more than one gateway is up, recovering from previous error")])
    else (st,[])

/-- The first loop of `chkfailover` from gateway `i` on. -/
def checkLoop (mode : ℤ) (r : Round) (list : List Str) : List Counter → ℕ → List Counter × List Command
  | [], _ => ([],[])
  | c::cs, i =>
    let p := doPing (r i) list c.gw c.dev c.ip
    let rest := checkLoop mode r list cs (i+1)
    if p.1 = 0 then ({ c with status := true, down := 0 }::rest.1,p.2 ++ rest.2)
    else if c.down = 0 then
      ({ c with status := false, down := 3 }::rest.1,
        p.2 ++ .log "ERROR" (uplinkMsg mode ("gateway " ++ c.gw ++ " seems to be down"))::rest.2)
    else ({ c with status := false }::rest.1,p.2 ++ rest.2)

def chkfailover (r : Round) (d : Daemon) : Daemon × List Command :=
  let (cs,out) := checkLoop d.mode r d.list d.counter 0
  if d.mode = 1 then
    let s := doSingleRoute d.mode cs d.singlestate
    ({ d with counter := cs, singlestate := s.1 },out ++ s.2)
  else if d.mode = 2 then
    let s := doTuneRoute d.mode cs d.multistate
    ({ d with counter := cs, multistate := s.1 },out ++ s.2)
  else ({ d with counter := cs },out)

/-- What `read_config` leaves. -/
def readConfig (mode : ℤ) (gs : List Gateway) (list : List Str) : Daemon where
  mode := mode
  counter := gs.map fun g => { g with status := false, down := 0 }
  list := list
  singlestate := false
  multistate := false

/-- What `main` runs before its loop. -/
def startCommands (mode : ℤ) : List Command :=
  .uplinkStop::(if mode = 2 then [.uplinkStart] else []) ++
    [.log "ERROR" ("Starting Uplink [" ++ modeType mode ++ "] daemon")]

structure Route where
  via : Str
  dev : Str
  deriving DecidableEq

def Gateway.route (g : Gateway) : Route := ⟨g.gw,g.dev⟩

/-- The default routes, the one in use first, and the routes to single hosts. -/
structure Kernel where
  defaults : List Route
  hosts : List (Str × Str)

def Kernel.default? (k : Kernel) : Option Route := k.defaults.head?

/-- What the scripts in `/var/sys` make of the routes. -/
structure Scripts where
  start : Kernel → Kernel
  stop : Kernel → Kernel

def Command.exec (sc : Scripts) (k : Kernel) : Command → Kernel
  | routeAdd ip gw => { k with hosts := (ip,gw)::k.hosts }
  | routeDel ip gw => { k with hosts := k.hosts.erase (ip,gw) }
  | routeDelDefault => { k with defaults := k.defaults.tail }
  | routeDefault gw dev => { k with defaults := ⟨gw,dev⟩::k.defaults }
  | uplinkStart => sc.start k
  | uplinkStop => sc.stop k
  | routeFlush | arping _ _ | ping _ _ | execPing _ | log _ _ => k

def execAll (sc : Scripts) (k : Kernel) (cs : List Command) : Kernel := cs.foldl (Command.exec sc) k

structure World where
  daemon : Daemon
  kernel : Kernel

/-- One turn of the loop of `main`. -/
def World.round (sc : Scripts) (w : World) (r : Round) : World :=
  let s := chkfailover r w.daemon
  ⟨s.1,execAll sc w.kernel s.2⟩

def World.commands (w : World) (r : Round) : List Command := (chkfailover r w.daemon).2

def World.rounds (sc : Scripts) (w : World) (rs : List Round) : World := rs.foldl (World.round sc) w

def start (sc : Scripts) (mode : ℤ) (gs : List Gateway) (list : List Str) (k : Kernel) : World :=
  ⟨readConfig mode gs list,execAll sc k (startCommands mode)⟩

/-- Whether some target answers through gateway `i`. -/
def isUp (r : Round) (list : List Str) (i : ℕ) : Bool := (List.range list.length).any (r i)

/-- The gateways that are up, from gateway `i` on. -/
def upFrom (r : Round) (list : List Str) : List Gateway → ℕ → List Gateway
  | [], _ => []
  | g::gs, i => if isUp r list i then g::upFrom r list gs (i+1) else upFrom r list gs (i+1)

def upGateways (gs : List Gateway) (list : List Str) (r : Round) : List Gateway := upFrom r list gs 0

def Command.Quiet : Command → Prop
  | routeDelDefault | routeDefault _ _ | uplinkStart | uplinkStop => False
  | _ => True

theorem Command.Quiet.defaults {c : Command} (h : c.Quiet) (sc : Scripts) (k : Kernel) :
    (c.exec sc k).defaults = k.defaults := by
  cases c <;> first | rfl | exact h.elim

theorem execAll_append (sc : Scripts) (k : Kernel) (cs ds : List Command) :
    execAll sc k (cs ++ ds) = execAll sc (execAll sc k cs) ds := List.foldl_append ..

theorem execAll_quiet (sc : Scripts) {cs : List Command} (h : ∀ c ∈ cs, c.Quiet) (k : Kernel) :
    (execAll sc k cs).defaults = k.defaults := by
  induction cs generalizing k with
  | nil => rfl
  | cons c cs ih =>
    have hc := (h c (by simp)).defaults sc k
    have hcs := ih (fun d hd => h d (by simp [hd])) (c.exec sc k)
    exact hcs.trans hc

theorem pingLoop_quiet (a : ℕ → Bool) (gw ip : Str) (ts : List Str) (j x : ℕ) :
    ∀ c ∈ (pingLoop a gw ip ts j x).2, c.Quiet := by
  induction ts generalizing j x with
  | nil => simp [pingLoop]
  | cons t ts ih =>
    by_cases hx : x = 0
    · simp [pingLoop,hx]
    · have hs := ih (j+1) (if a j then 0 else 1)
      rw [pingLoop,if_neg hx]
      simpa [Command.Quiet] using hs

theorem doPing_quiet (a : ℕ → Bool) (ts : List Str) (gw dev ip : Str) :
    ∀ c ∈ (doPing a ts gw dev ip).2, c.Quiet := by
  have h := pingLoop_quiet a gw ip ts 0 1
  simp only [doPing,List.cons_append,List.mem_cons,List.mem_append,List.not_mem_nil,or_false]
  rintro c (rfl | hc | rfl)
  · trivial
  · exact h c hc
  · trivial

theorem pingLoop_zero_iff (a : ℕ → Bool) (gw ip : Str) (ts : List Str) (j x : ℕ) :
    (pingLoop a gw ip ts j x).1 = 0 ↔ x = 0 ∨ ∃ i < ts.length, a (j+i) := by
  induction ts generalizing j x with
  | nil => simp [pingLoop]
  | cons t ts ih =>
    by_cases hx : x = 0
    · simp [pingLoop,hx]
    · rw [pingLoop,if_neg hx]
      simp only [ih,hx,false_or,List.length_cons]
      constructor
      · rintro (h | ⟨i,hi,h⟩)
        · exact ⟨0,by omega,by simpa using h⟩
        · exact ⟨i+1,by omega,by rwa [show j+(i+1) = j+1+i by omega]⟩
      · rintro ⟨i,hi,h⟩
        cases i with
        | zero => exact Or.inl (by simpa using h)
        | succ i => exact Or.inr ⟨i,by omega,by rwa [show j+1+i = j+(i+1) by omega]⟩

theorem doPing_zero_iff (a : ℕ → Bool) (ts : List Str) (gw dev ip : Str) :
    (doPing a ts gw dev ip).1 = 0 ↔ (List.range ts.length).any a := by
  simp [doPing,pingLoop_zero_iff]

/-- One gateway checked: its status says whether a target answers through it, and the commands leave the
default routes alone. -/
theorem checkLoop_cons (m : ℤ) (r : Round) (ts : List Str) (c : Counter) (cs : List Counter) (i : ℕ) :
    ∃ c' out, checkLoop m r ts (c::cs) i =
        (c'::(checkLoop m r ts cs (i+1)).1,out ++ (checkLoop m r ts cs (i+1)).2) ∧
      c'.toGateway = c.toGateway ∧ c'.status = isUp r ts i ∧ ∀ d ∈ out, Command.Quiet d := by
  have hp := doPing_quiet (r i) ts c.gw c.dev c.ip
  have hz : (doPing (r i) ts c.gw c.dev c.ip).1 = 0 ↔ isUp r ts i = true := doPing_zero_iff ..
  simp only [checkLoop]
  by_cases hu : isUp r ts i = true
  · rw [if_pos (hz.mpr hu)]
    exact ⟨_,_,rfl,rfl,hu.symm,hp⟩
  · have hf : false = isUp r ts i := (Bool.eq_false_iff.mpr hu).symm
    rw [if_neg (mt hz.mp hu)]
    by_cases hd : c.down = 0
    · rw [if_pos hd]
      refine ⟨{ c with status := false, down := 3 },(doPing (r i) ts c.gw c.dev c.ip).2 ++
        [.log "ERROR" (uplinkMsg m ("gateway " ++ c.gw ++ " seems to be down"))],by simp,rfl,hf,?_⟩
      intro d hm
      rcases List.mem_append.mp hm with h | h
      · exact hp d h
      · rw [List.mem_singleton.mp h]
        trivial
    · rw [if_neg hd]
      exact ⟨_,_,rfl,rfl,hf,hp⟩

theorem checkLoop_quiet (m : ℤ) (r : Round) (ts : List Str) (cs : List Counter) (i : ℕ) :
    ∀ c ∈ (checkLoop m r ts cs i).2, c.Quiet := by
  induction cs generalizing i with
  | nil => simp [checkLoop]
  | cons c cs ih =>
    obtain ⟨c',out,he,-,-,hq⟩ := checkLoop_cons m r ts c cs i
    rw [he]
    exact fun d hd => (List.mem_append.mp hd).elim (hq d) (ih (i+1) d)

theorem checkLoop_gateways (m : ℤ) (r : Round) (ts : List Str) (cs : List Counter) (i : ℕ) :
    (checkLoop m r ts cs i).1.map Counter.toGateway = cs.map Counter.toGateway := by
  induction cs generalizing i with
  | nil => rfl
  | cons c cs ih =>
    obtain ⟨c',out,he,hg,-,-⟩ := checkLoop_cons m r ts c cs i
    rw [he,List.map_cons,List.map_cons,hg,ih]

def ups (cs : List Counter) : List Gateway := (cs.filter Counter.status).map Counter.toGateway

@[simp] theorem ups_nil : ups [] = [] := rfl

theorem ups_cons_up {c : Counter} (h : c.status = true) (cs : List Counter) :
    ups (c::cs) = c.toGateway::ups cs := by simp [ups,h]

theorem ups_cons_down {c : Counter} (h : c.status = false) (cs : List Counter) :
    ups (c::cs) = ups cs := by simp [ups,h]

theorem ups_checkLoop (m : ℤ) (r : Round) (ts : List Str) (cs : List Counter) (i : ℕ) :
    ups (checkLoop m r ts cs i).1 = upFrom r ts (cs.map Counter.toGateway) i := by
  induction cs generalizing i with
  | nil => rfl
  | cons c cs ih =>
    obtain ⟨c',out,he,hg,hs,-⟩ := checkLoop_cons m r ts c cs i
    rw [he,List.map_cons,upFrom]
    by_cases hu : isUp r ts i = true
    · rw [if_pos hu,ups_cons_up (hs.trans hu),hg,ih]
    · rw [if_neg hu,ups_cons_down (hs.trans (Bool.eq_false_iff.mpr hu)),ih]

@[simp] theorem switch_default (sc : Scripts) (k : Kernel) (g : Gateway) (type msg : Str) :
    (execAll sc k (switch g ++ [.log type msg])).default? = some g.route := rfl

/-- With no gateway up the loop runs through, and only a list without gateways keeps the flag down. -/
theorem doSingleRoute_none (m : ℤ) {cs : List Counter} (h : ups cs = []) (st : Bool) :
    (doSingleRoute m cs st).2 = [] ∧ ((doSingleRoute m cs st).1 = false → cs = []) := by
  induction cs generalizing st with
  | nil => exact ⟨rfl,fun _ => rfl⟩
  | cons c cs ih =>
    cases hc : c.status with
    | true => rw [ups_cons_up hc] at h; exact absurd h (by simp)
    | false =>
      rw [ups_cons_down hc] at h
      have hs := ih h true
      have he : doSingleRoute m (c::cs) st = doSingleRoute m cs true := by simp [doSingleRoute,hc]
      rw [he]
      refine ⟨hs.1,fun hf => ?_⟩
      rw [hs.2 hf] at hf
      exact absurd hf (by simp [doSingleRoute])

/-- With a gateway up either the route is switched to the first one, the flag staying down only for a primary
one, or the flag was down and the first entry of the list is the primary one, and up. -/
theorem doSingleRoute_some (m : ℤ) {cs : List Counter} {g : Gateway} {gs : List Gateway}
    (h : ups cs = g::gs) (st : Bool) :
    (∃ msg, (doSingleRoute m cs st).2 = switch g ++ [.log "INFO" msg] ∧
        ((doSingleRoute m cs st).1 = false → g.prio = 1)) ∨
      (st = false ∧ g.prio = 1 ∧ (cs.map Counter.toGateway).head? = some g ∧
        doSingleRoute m cs st = (false,[])) := by
  induction cs generalizing st with
  | nil => simp at h
  | cons c cs ih =>
    cases hc : c.status with
    | true =>
      rw [ups_cons_up hc] at h
      obtain ⟨rfl,-⟩ := List.cons.inj h
      by_cases hp : c.prio = 1
      · cases st with
        | true => exact Or.inl ⟨_,by rw [doSingleRoute,if_pos ⟨hp,hc⟩,if_pos rfl],fun _ => hp⟩
        | false => exact Or.inr ⟨rfl,hp,rfl,by simp [doSingleRoute,hc,hp]⟩
      · exact Or.inl ⟨_,by rw [doSingleRoute,if_neg fun hh => hp hh.1,if_pos hc],
          by simp [doSingleRoute,hc,hp]⟩
    | false =>
      rw [ups_cons_down hc] at h
      have he : doSingleRoute m (c::cs) st = doSingleRoute m cs true := by simp [doSingleRoute,hc]
      rw [he]
      exact (ih h true).imp_right fun hs => absurd hs.1 (by simp)

/-- The flag down means that the default route is the first entry's, if that is a primary one. -/
structure Failover (gs : List Gateway) (ts : List Str) (w : World) : Prop where
  mode : w.daemon.mode = 1
  list : w.daemon.list = ts
  gateways : w.daemon.counter.map Counter.toGateway = gs
  first : w.daemon.singlestate = false → ∀ g ∈ gs.head?, g.prio = 1 → w.kernel.default? = some g.route

theorem round_failover (sc : Scripts) {w : World} (hm : w.daemon.mode = 1) (r : Round) :
    let c := checkLoop w.daemon.mode r w.daemon.list w.daemon.counter 0
    let s := doSingleRoute w.daemon.mode c.1 w.daemon.singlestate
    w.round sc r = ⟨{ w.daemon with counter := c.1, singlestate := s.1 },
      execAll sc (execAll sc w.kernel c.2) s.2⟩ := by
  simp only [World.round,chkfailover,if_pos hm,execAll_append]

theorem eq_of_primary {gs : List Gateway} (h : gs.countP (fun g => g.prio = 1) ≤ 1) {a b : Gateway}
    (ha : a ∈ gs) (hb : b ∈ gs) (hpa : a.prio = 1) (hpb : b.prio = 1) : a = b := by
  have hf : ∀ g ∈ gs, g.prio = 1 → g ∈ gs.filter (fun g => g.prio = 1) := fun g hg hp =>
    List.mem_filter.mpr ⟨hg,by simpa using hp⟩
  rw [List.countP_eq_length_filter] at h
  have hax := hf a ha hpa
  have hbx := hf b hb hpb
  rcases hl : gs.filter (fun g => g.prio = 1) with _ | ⟨x,_ | ⟨y,l⟩⟩
  · simp [hl] at hax
  · rw [hl,List.mem_singleton] at hax hbx
    rw [hax,hbx]
  · simp [hl] at h

theorem upFrom_subset (r : Round) (ts : List Str) (gs : List Gateway) (i : ℕ) :
    upFrom r ts gs i ⊆ gs := by
  induction gs generalizing i with
  | nil => simp [upFrom]
  | cons g gs ih =>
    unfold upFrom
    split_ifs
    · exact List.cons_subset_cons g (ih (i+1))
    · exact List.subset_cons_of_subset g (ih (i+1))

/-- What a round leaves of the default route, and the flag's meaning kept. -/
theorem Failover.round {sc : Scripts} {gs : List Gateway} {ts : List Str} {w : World}
    (h : Failover gs ts w) (hp : gs.countP (fun g => g.prio = 1) ≤ 1) (r : Round) :
    Failover gs ts (w.round sc r) ∧
      (∀ g ∈ (upGateways gs ts r).head?, (w.round sc r).kernel.default? = some g.route) ∧
      (upGateways gs ts r = [] → (w.round sc r).kernel.defaults = w.kernel.defaults) := by
  have hr := round_failover sc h.mode r
  rcases hc : checkLoop w.daemon.mode r w.daemon.list w.daemon.counter 0 with ⟨cs,out⟩
  have hg : cs.map Counter.toGateway = gs := by
    rw [← h.gateways,← checkLoop_gateways w.daemon.mode r w.daemon.list w.daemon.counter 0,hc]
  have hu : ups cs = upGateways gs ts r := by
    rw [upGateways,← h.gateways,← h.list,← ups_checkLoop w.daemon.mode,hc]
  have hq : (execAll sc w.kernel out).defaults = w.kernel.defaults := by
    have hq := checkLoop_quiet w.daemon.mode r w.daemon.list w.daemon.counter 0
    rw [hc] at hq
    exact execAll_quiet sc hq w.kernel
  simp only [hc] at hr
  rw [hr]
  cases hl : upGateways gs ts r with
  | nil =>
    obtain ⟨hn,hf⟩ := doSingleRoute_none w.daemon.mode (hu.trans hl) w.daemon.singlestate
    refine ⟨⟨h.mode,h.list,hg,fun hs => ?_⟩,by simp,fun _ => ?_⟩
    · rw [← hg,hf hs]
      simp
    · simp only [hn]
      exact hq
  | cons g us =>
    have hmem : g ∈ gs := upFrom_subset r ts gs 0 (by rw [show upFrom r ts gs 0 = g::us from hl]; simp)
    rcases doSingleRoute_some w.daemon.mode (hu.trans hl) w.daemon.singlestate with
      ⟨msg,hs,hprim⟩ | ⟨hst,hprim,hhead,hs⟩
    · have hd : (execAll sc (execAll sc w.kernel out)
          (doSingleRoute w.daemon.mode cs w.daemon.singlestate).2).default? = some g.route := by
        rw [hs,switch_default]
      refine ⟨⟨h.mode,h.list,hg,fun hf g' hg' hp' => ?_⟩,?_,fun he => absurd he (by simp)⟩
      · rw [eq_of_primary hp (List.mem_of_mem_head? hg') hmem hp' (hprim hf)]
        exact hd
      · intro g' hg'
        obtain rfl : g = g' := by simpa using hg'
        exact hd
    · rw [hg] at hhead
      have hd : w.kernel.default? = some g.route := h.first hst g hhead hprim
      have hd' : (execAll sc (execAll sc w.kernel out) []).default? = some g.route := by
        rw [← hd]
        exact congrArg List.head? hq
      rw [hs]
      refine ⟨⟨h.mode,h.list,hg,fun _ g' hg' _ => ?_⟩,?_,fun he => absurd he (by simp)⟩
      · obtain rfl : g = g' := by rw [hhead] at hg'; simpa using hg'
        exact hd'
      · intro g' hg'
        obtain rfl : g = g' := by simpa using hg'
        exact hd'

theorem Failover.rounds {sc : Scripts} {gs : List Gateway} {ts : List Str} {w : World}
    (h : Failover gs ts w) (hp : gs.countP (fun g => g.prio = 1) ≤ 1) (rs : List Round) :
    Failover gs ts (w.rounds sc rs) := by
  induction rs generalizing w with
  | nil => exact h
  | cons r rs ih => exact ih (h.round hp r).1

theorem countUp_none {cs : List Counter} (h : ups cs = []) (x : ℕ) (p : Option Counter) :
    countUp cs x p = (x,p) := by
  induction cs with
  | nil => rfl
  | cons c cs ih =>
    cases hc : c.status with
    | true => rw [ups_cons_up hc] at h; exact absurd h (by simp)
    | false =>
      rw [ups_cons_down hc] at h
      simp [countUp,hc,ih h]

theorem countUp_two (cs : List Counter) (p : Option Counter) : countUp cs 2 p = (2,p) := by
  induction cs with
  | nil => rfl
  | cons c cs ih =>
    cases hc : c.status <;> simp [countUp,hc,ih]

theorem countUp_one {cs : List Counter} (h : ups cs ≠ []) (p : Option Counter) :
    (countUp cs 1 p).1 = 2 := by
  induction cs with
  | nil => exact absurd rfl h
  | cons c cs ih =>
    cases hc : c.status with
    | true => simp [countUp,hc,countUp_two]
    | false =>
      rw [ups_cons_down hc] at h
      simp [countUp,hc,ih h]

/-- The count is one exactly when one gateway is up, and then it is the one kept. -/
theorem countUp_zero (cs : List Counter) (p : Option Counter) :
    (∃ c, ups cs = [c.toGateway] ∧ countUp cs 0 p = (1,some c)) ∨
      ((∀ g, ups cs ≠ [g]) ∧ (countUp cs 0 p).1 ≠ 1) := by
  induction cs with
  | nil => exact Or.inr ⟨by simp,by simp [countUp]⟩
  | cons c cs ih =>
    cases hc : c.status with
    | true =>
      have he : countUp (c::cs) 0 p = countUp cs 1 (some c) := by simp [countUp,hc]
      rw [he,ups_cons_up hc]
      by_cases hn : ups cs = []
      · exact Or.inl ⟨c,by rw [hn],countUp_none hn 1 (some c)⟩
      · refine Or.inr ⟨fun g hg => hn (List.cons.inj hg).2,?_⟩
        rw [countUp_one hn]
        decide
    | false =>
      have he : countUp (c::cs) 0 p = countUp cs 0 p := by simp [countUp,hc]
      rw [he,ups_cons_down hc]
      exact ih

theorem doTuneRoute_one (m : ℤ) {cs : List Counter} {g : Gateway} (h : ups cs = [g]) (st : Bool) :
    doTuneRoute m cs st = (true,if st then [] else .uplinkStop::switch g ++ [.log "INFO"
      (uplinkMsg m ("only one gateway " ++ g.gw ++ " is up, setting as default"))]) := by
  rcases countUp_zero cs none with ⟨c,hc,hu⟩ | ⟨hn,-⟩
  · obtain rfl : c.toGateway = g := by rw [hc] at h; simpa using h
    cases st <;> simp [doTuneRoute,hu]
  · exact absurd h (hn g)

theorem doTuneRoute_other (m : ℤ) {cs : List Counter} (h : ∀ g, ups cs ≠ [g]) (st : Bool) :
    doTuneRoute m cs st = (false,if st then [.uplinkStart,.log "INFO"
      (uplinkMsg m "more than one gateway is up, recovering from previous error")] else []) := by
  rcases countUp_zero cs none with ⟨c,hc,-⟩ | ⟨-,hu⟩
  · exact absurd hc (h _)
  · unfold doTuneRoute
    split
    · rename_i he
      exact absurd (congrArg Prod.fst he) hu
    · cases st <;> rfl

theorem round_balancer (sc : Scripts) {w : World} (hm : w.daemon.mode = 2) (r : Round) :
    let c := checkLoop w.daemon.mode r w.daemon.list w.daemon.counter 0
    let s := doTuneRoute w.daemon.mode c.1 w.daemon.multistate
    w.round sc r = ⟨{ w.daemon with counter := c.1, multistate := s.1 },
        execAll sc (execAll sc w.kernel c.2) s.2⟩ ∧ w.commands r = c.2 ++ s.2 := by
  have h₁ : ¬w.daemon.mode = 1 := by omega
  simp only [World.round,World.commands,chkfailover,if_neg h₁,if_pos hm,execAll_append,and_self]

def loneRoute (gs : List Gateway) (ts : List Str) (r : Round) : Option Route :=
  match upGateways gs ts r with
  | [g] => some g.route
  | _ => none

/-- The flag says whether the last round had a single gateway up, whose route was then the default one. -/
structure Balancer (gs : List Gateway) (ts : List Str) (prev : Option Route) (w : World) : Prop where
  mode : w.daemon.mode = 2
  list : w.daemon.list = ts
  gateways : w.daemon.counter.map Counter.toGateway = gs
  flag : w.daemon.multistate = prev.isSome
  route : ∀ ρ ∈ prev, w.kernel.default? = some ρ

def Served (sc : Scripts) (gs : List Gateway) (ts : List Str) (w : World) (r : Round) : Prop :=
  (∀ g, upGateways gs ts r = [g] → (w.round sc r).kernel.default? = some g.route) ∧
    (.uplinkStart ∈ w.commands r → 2 ≤ (upGateways gs ts r).length)

/-- After a round with a single gateway up, by the route `prev`: two are up, or one by the same route. -/
def Follows (gs : List Gateway) (ts : List Str) (prev : Option Route) (r : Round) : Prop :=
  ∀ ρ ∈ prev, 2 ≤ (upGateways gs ts r).length ∨ ∃ g, upGateways gs ts r = [g] ∧ g.route = ρ

theorem Balancer.round {gs : List Gateway} {ts : List Str} {prev : Option Route} {w : World}
    (h : Balancer gs ts prev w) (sc : Scripts) (r : Round) :
    (Served sc gs ts w r ↔ Follows gs ts prev r) ∧
      (Served sc gs ts w r → Balancer gs ts (loneRoute gs ts r) (w.round sc r)) := by
  obtain ⟨hr,hcmd⟩ := round_balancer sc h.mode r
  have hq := checkLoop_quiet w.daemon.mode r w.daemon.list w.daemon.counter 0
  rcases hc : checkLoop w.daemon.mode r w.daemon.list w.daemon.counter 0 with ⟨cs,out⟩
  have hg : cs.map Counter.toGateway = gs := by
    rw [← h.gateways,← checkLoop_gateways w.daemon.mode r w.daemon.list w.daemon.counter 0,hc]
  have hu : ups cs = upGateways gs ts r := by
    rw [upGateways,← h.gateways,← h.list,← ups_checkLoop w.daemon.mode,hc]
  rw [hc] at hq
  have hd : (execAll sc w.kernel out).defaults = w.kernel.defaults := execAll_quiet sc hq w.kernel
  have hstart : Command.uplinkStart ∉ out := fun hm => hq _ hm
  simp only [hc] at hr hcmd
  by_cases hl : ∃ g, ups cs = [g]
  · obtain ⟨g,hl⟩ := hl
    have hlone : loneRoute gs ts r = some g.route := by simp [loneRoute,← hu,hl]
    simp only [doTuneRoute_one w.daemon.mode hl,h.flag] at hr hcmd
    have hno : Command.uplinkStart ∉ w.commands r := by
      rw [hcmd]
      cases prev <;> simp [hstart,switch]
    have hs : Served sc gs ts w r ↔ (w.round sc r).kernel.default? = some g.route := by
      simp only [Served,← hu,hl,List.cons.injEq,and_true,forall_eq',hno,false_imp_iff]
    refine ⟨?_,fun hv => ?_⟩
    · rw [hs]
      cases prev with
      | none => exact iff_of_true (by rw [hr]; rfl) (by simp [Follows])
      | some ρ =>
        have hρ : (w.round sc r).kernel.default? = some ρ := by
          rw [hr]
          exact (congrArg List.head? hd).trans (h.route ρ rfl)
        rw [hρ]
        simp [Follows,← hu,hl,eq_comm]
    · have hv' := hs.mp hv
      rw [hlone]
      rw [hr] at hv' ⊢
      exact ⟨h.mode,h.list,hg,rfl,fun ρ hρ => by rwa [← Option.some.inj hρ]⟩
  · have hl' : ∀ g, ups cs ≠ [g] := fun g hg' => hl ⟨g,hg'⟩
    have hlone : loneRoute gs ts r = none := by
      unfold loneRoute
      split
      · rename_i g he
        exact absurd (hu.trans he) (hl' g)
      · rfl
    simp only [doTuneRoute_other w.daemon.mode hl',h.flag] at hr hcmd
    refine ⟨?_,fun _ => ?_⟩
    · simp only [Served,Follows,← hu,hl',false_imp_iff,implies_true,true_and,false_and,exists_false,or_false]
      cases prev with
      | none => simp [hcmd,hstart]
      | some ρ => simp [hcmd]
    · rw [hlone,hr]
      exact ⟨h.mode,h.list,hg,rfl,by simp⟩

/-- All rounds of a run are served exactly if each follows on the one before. -/
theorem Balancer.rounds {gs : List Gateway} {ts : List Str} {prev : Option Route} {w : World}
    (h : Balancer gs ts prev w) (sc : Scripts) (rs : List Round) :
    (∀ ms r ns, rs = ms ++ r::ns → Served sc gs ts (w.rounds sc ms) r) ↔
      (∀ r ∈ rs.head?, Follows gs ts prev r) ∧
        rs.IsChain fun r r' => Follows gs ts (loneRoute gs ts r) r' := by
  induction rs generalizing w prev with
  | nil => simp
  | cons r rs ih =>
    obtain ⟨hiff,hnext⟩ := h.round sc r
    constructor
    · intro hall
      have hr : Served sc gs ts w r := hall [] r rs rfl
      obtain ⟨h₁,h₂⟩ := (ih (hnext hr)).mp fun ms q ns he => hall (r::ms) q ns (by rw [he]; rfl)
      refine ⟨fun q hq => ?_,List.isChain_cons.mpr ⟨h₁,h₂⟩⟩
      rw [← Option.some.inj hq]
      exact hiff.mp hr
    · rintro ⟨h₁,h₂⟩
      have hr : Served sc gs ts w r := hiff.mpr (h₁ r rfl)
      have hrest := (ih (hnext hr)).mpr (List.isChain_cons.mp h₂)
      intro ms q ns he
      cases ms with
      | nil =>
        obtain ⟨rfl,-⟩ := List.cons.inj he
        exact hr
      | cons m ms =>
        obtain ⟨rfl,hs⟩ := List.cons.inj he
        exact hrest ms q ns hs

end Uplink
end Mybox
