import Mybox.Php
import Mathlib.Tactic.Common

/-! The web session: login stores the time it runs out at, a request checks that time and stores a new one. Login
counts the configured timeout in minutes, a request counts it in seconds. -/
namespace Mybox
namespace SessionExpiry
open Php

/-- `$_SESSION['traceos_login']` -/
structure Login where
  id : Str
  ip : Str
  timeLogin : Nat
  timeoutData : Option Nat
  timeout : Nat
  deriving DecidableEq

/-- `TIMEOUT` of `service_http`, when it is set. -/
abbrev Config := Option Nat

def setSession (cfg : Config) (access ip : Str) (time : Nat) : Login :=
  let timeout := cfg.getD 300
  ⟨access,ip,time,some timeout,if timeout ≠ 0 then time + 60*timeout else timeout⟩

def updateSession (time : Nat) : Option Login → Option Login
  | none => none
  | some l => some (if l.timeout ≠ 0 then { l with timeout := time + l.timeoutData.getD 300 } else l)

/-- `_CGI_SESSION_CHECK`: the answer, and what is left of the session. -/
def sessionCheck (time : Nat) : Option Login → Bool × Option Login
  | none => (false,none)
  | some l => if l.timeout ≠ 0 ∧ time ≥ l.timeout then (false,none) else (true,some l)

inductive Call
  | login (access ip : Str)
  | refresh
  | check
  deriving DecidableEq

structure Event where
  call : Call
  time : Nat
  deriving DecidableEq

def step (cfg : Config) (s : Option Login) (e : Event) : Option Login :=
  match e.call with
  | .login access ip => some (setSession cfg access ip e.time)
  | .refresh => updateSession e.time s
  | .check => (sessionCheck e.time s).2

/-- The session after a run; there is none to begin with. -/
def session (cfg : Config) (es : List Event) : Option Login := es.foldl (step cfg) none

/-- Within the timeout of the last accepted activity. -/
def Within (T : Nat) (last : Option Nat) (t : Nat) : Prop := ∃ s, last = some s ∧ t < s + T

instance (T : Nat) (last : Option Nat) (t : Nat) : Decidable (Within T last t) :=
  decidable_of_iff (last.any fun s => decide (t < s + T)) (by cases last <;> simp [Within])

/-- A login is an accepted activity, and so is a request that comes in time. -/
def activity (T : Nat) (last : Option Nat) (e : Event) : Option Nat :=
  match e.call with
  | .login _ _ => some e.time
  | .refresh => if Within T last e.time then some e.time else last
  | .check => last

def lastActivity (T : Nat) (es : List Event) : Option Nat := es.foldl (activity T) none

/-- A check accepts exactly within the timeout, and a request does not bring the end nearer. -/
def Kept (T : Nat) (s : Option Login) (last : Option Nat) (e : Event) : Prop :=
  match e.call with
  | .login _ _ => True
  | .refresh => ∀ l ∈ s, ∀ l' ∈ updateSession e.time s, l.timeout ≤ l'.timeout
  | .check => (sessionCheck e.time s).1 = true ↔ Within T last e.time

/-- Nothing running, the time of a login not refreshed since, of a refresh in time, or of a refresh that came
when the timeout of the last activity had run out. -/
inductive Timer
  | none
  | login (s : Nat)
  | fresh (s : Nat)
  | late (r : Nat)
  deriving DecidableEq

def Timer.next (T : Nat) (c : Timer) (e : Event) : Timer :=
  match e.call with
  | .login _ _ => .login e.time
  | .refresh =>
    match c with
    | .none => .none
    | .login s => if T = 0 then .login s else if e.time < s + T then .fresh e.time else .late e.time
    | .fresh s => if e.time < s + T then .fresh e.time else .late e.time
    | .late _ => .late e.time
  | .check =>
    match c with
    | .none => .none
    | .login s => if T ≠ 0 ∧ s + 60*T ≤ e.time then .none else .login s
    | .fresh s => if s + T ≤ e.time then .none else .fresh s
    | .late r => if r + T ≤ e.time then .none else .late r

def timer (T : Nat) (es : List Event) : Timer := es.foldl (Timer.next T) .none

/-- Between the timeout in seconds and the timeout in minutes after a login there is no check, the first request
after a login comes when the two make no difference, and after a late request a check waits for a timeout. -/
def Clear (T : Nat) (c : Timer) (e : Event) : Prop :=
  match e.call with
  | .login _ _ => True
  | .refresh =>
    match c with
    | .login s => T = 0 ∨ s + 59*T ≤ e.time
    | _ => True
  | .check =>
    match c with
    | .login s => T ≠ 0 ∧ (e.time < s + T ∨ s + 60*T ≤ e.time)
    | .late r => r + T ≤ e.time
    | _ => True

instance (T : Nat) (c : Timer) (e : Event) : Decidable (Clear T c e) := by
  unfold Clear
  split
  · infer_instance
  · split <;> infer_instance
  · split <;> infer_instance

def Ends (T : Nat) (s : Option Login) (limit : Nat) : Prop :=
  ∃ l, s = some l ∧ l.timeoutData = some T ∧ l.timeout = limit

def Linked (T now : Nat) (s : Option Login) (last : Option Nat) : Timer → Prop
  | .none => s = none ∧ ¬Within T last now
  | .login a => Ends T s (if T ≠ 0 then a + 60*T else 0) ∧ last = some a ∧ a ≤ now
  | .fresh a => Ends T s (a + T) ∧ T ≠ 0 ∧ last = some a ∧ a ≤ now
  | .late r => Ends T s (r + T) ∧ T ≠ 0 ∧ r ≤ now ∧ ¬Within T last now

theorem Within.mono {T : Nat} {last : Option Nat} {t u : Nat} (h : Within T last u) (ht : t ≤ u) : Within T last t := by
  obtain ⟨s,hs,hu⟩ := h
  exact ⟨s,hs,by omega⟩

@[simp] theorem within_some {T s t : Nat} : Within T (some s) t ↔ t < s + T := by simp [Within]

theorem Ends.update {T limit : Nat} {s : Option Login} (h : Ends T s limit) (hl : limit ≠ 0) (t : Nat) :
    Ends T (updateSession t s) (t + T) := by
  obtain ⟨l,rfl,hd,rfl⟩ := h
  exact ⟨_,rfl,by simp [hl,hd],by simp [hl,hd]⟩

theorem Ends.update_zero {T : Nat} {s : Option Login} (h : Ends T s 0) (t : Nat) : Ends T (updateSession t s) 0 := by
  obtain ⟨l,rfl,hd,hz⟩ := h
  exact ⟨l,by simp [updateSession,hz],hd,hz⟩

theorem Ends.check {T limit : Nat} {s : Option Login} (h : Ends T s limit) (t : Nat) :
    sessionCheck t s = if limit ≠ 0 ∧ limit ≤ t then (false,none) else (true,s) := by
  obtain ⟨l,rfl,-,rfl⟩ := h
  rfl

/-- One call keeps the link. -/
theorem Linked.next {cfg : Config} {now : Nat} {s : Option Login} {last : Option Nat} {c : Timer}
    (h : Linked (cfg.getD 300) now s last c) {e : Event} (hn : now ≤ e.time) :
    Linked (cfg.getD 300) e.time (step cfg s e) (activity (cfg.getD 300) last e) (c.next (cfg.getD 300) e) := by
  obtain ⟨call,t⟩ := e
  generalize hT : cfg.getD 300 = T at h ⊢
  cases call with
  | login access ip =>
    exact ⟨⟨_,rfl,by simp [setSession,hT],by simp only [setSession,hT]; split <;> simp_all⟩,rfl,le_refl _⟩
  | refresh =>
    cases c with
    | none =>
      obtain ⟨rfl,hw⟩ := h
      have hw' : ¬Within T last t := fun h => hw (h.mono hn)
      exact ⟨rfl,by simp [activity,hw']⟩
    | login a =>
      obtain ⟨he,rfl,ha⟩ := h
      by_cases hz : T = 0
      · have hw : ¬t < a + T := by simp only at hn; omega
        simp only [Timer.next,if_pos hz,activity,within_some,if_neg hw]
        rw [if_neg (by simp [hz])] at he
        refine ⟨?_,rfl,by simp only at hn ⊢; omega⟩
        rw [if_neg (by simp [hz])]
        exact he.update_zero t
      · have hu : Ends T (updateSession t s) (t + T) := by
          refine Ends.update (by simpa [hz] using he) (by omega) t
        by_cases hw : t < a + T
        · simp only [Timer.next,if_neg hz,activity,within_some,if_pos hw]
          exact ⟨hu,hz,rfl,le_refl _⟩
        · simp only [Timer.next,if_neg hz,activity,within_some,if_neg hw]
          exact ⟨hu,hz,le_refl _,by simpa using hw⟩
    | fresh a =>
      obtain ⟨he,hz,rfl,ha⟩ := h
      have hu := he.update (by omega) t
      by_cases hw : t < a + T
      · simp only [Timer.next,activity,within_some,if_pos hw]
        exact ⟨hu,hz,rfl,le_refl _⟩
      · simp only [Timer.next,activity,within_some,if_neg hw]
        exact ⟨hu,hz,le_refl _,by simpa using hw⟩
    | late r =>
      obtain ⟨he,hz,hr,hw⟩ := h
      have hw' : ¬Within T last t := fun h => hw (h.mono hn)
      simp only [Timer.next,activity,if_neg hw']
      exact ⟨he.update (by omega) t,hz,le_refl _,hw'⟩
  | check =>
    have hs : step cfg s ⟨.check,t⟩ = (sessionCheck t s).2 := rfl
    rw [hs]
    cases c with
    | none =>
      obtain ⟨rfl,hw⟩ := h
      exact ⟨rfl,fun h => hw (h.mono hn)⟩
    | login a =>
      obtain ⟨he,rfl,ha⟩ := h
      rw [he.check]
      by_cases hz : T ≠ 0 ∧ a + 60*T ≤ t
      · rw [Timer.next]
        dsimp only
        rw [if_pos hz,if_pos hz.1,if_pos ⟨by omega,hz.2⟩]
        exact ⟨rfl,by simp [activity]; omega⟩
      · rw [Timer.next]
        dsimp only
        rw [if_neg hz,if_neg (by split <;> simp_all)]
        exact ⟨he,rfl,by simp only at hn; omega⟩
    | fresh a =>
      obtain ⟨he,hz,rfl,ha⟩ := h
      rw [he.check]
      by_cases hl : a + T ≤ t
      · rw [Timer.next]
        dsimp only
        rw [if_pos hl,if_pos ⟨by omega,hl⟩]
        exact ⟨rfl,by simpa [activity] using hl⟩
      · rw [Timer.next]
        dsimp only
        rw [if_neg hl,if_neg (by tauto)]
        exact ⟨he,hz,rfl,by simp only at hn; omega⟩
    | late r =>
      obtain ⟨he,hz,hr,hw⟩ := h
      have hw' : ¬Within T last t := fun h => hw (h.mono hn)
      rw [he.check]
      by_cases hl : r + T ≤ t
      · rw [Timer.next]
        dsimp only
        rw [if_pos hl,if_pos ⟨by omega,hl⟩]
        exact ⟨rfl,hw'⟩
      · rw [Timer.next]
        dsimp only
        rw [if_neg hl,if_neg (by tauto)]
        exact ⟨he,hz,by simp only at hn; omega,hw'⟩

/-- What one call keeps depends on the timer alone. -/
theorem Linked.kept_iff {T now : Nat} {s : Option Login} {last : Option Nat} {c : Timer}
    (h : Linked T now s last c) {e : Event} (hn : now ≤ e.time) : Kept T s last e ↔ Clear T c e := by
  obtain ⟨call,t⟩ := e
  simp only at hn
  cases call with
  | login access ip => exact Iff.rfl
  | refresh =>
    have key : ∀ limit, Ends T s limit → ((∀ l ∈ s, ∀ l' ∈ updateSession t s, l.timeout ≤ l'.timeout) ↔
        (limit = 0 ∨ limit ≤ t + T)) := by
      rintro limit ⟨l,rfl,hd,rfl⟩
      by_cases hz : l.timeout = 0 <;> simp [updateSession,hz,hd]
    cases c with
    | none =>
      obtain ⟨rfl,-⟩ := h
      simp [Kept,Clear]
    | login a =>
      obtain ⟨he,rfl,ha⟩ := h
      refine (key _ he).trans ?_
      simp only [Clear]
      by_cases hz : T = 0
      · simp [hz]
      · rw [if_pos hz]
        omega
    | fresh a =>
      obtain ⟨he,hz,rfl,ha⟩ := h
      refine (key _ he).trans (iff_of_true ?_ trivial)
      omega
    | late r =>
      obtain ⟨he,hz,hr,hw⟩ := h
      refine (key _ he).trans (iff_of_true ?_ trivial)
      omega
  | check =>
    simp only [Kept]
    cases c with
    | none =>
      obtain ⟨rfl,hw⟩ := h
      have hw' : ¬Within T last t := fun h => hw (h.mono hn)
      simp [Clear,sessionCheck,hw']
    | login a =>
      obtain ⟨he,rfl,ha⟩ := h
      rw [he.check,within_some]
      simp only [Clear]
      by_cases hz : T = 0
      · simp [hz]; omega
      · rw [if_pos hz]
        by_cases hl : a + 60*T ≤ t
        · rw [if_pos ⟨by omega,hl⟩]
          simp only [Bool.false_eq_true,false_iff]
          omega
        · rw [if_neg (by tauto)]
          simp only [true_iff]
          omega
    | fresh a =>
      obtain ⟨he,hz,rfl,ha⟩ := h
      rw [he.check,within_some]
      refine iff_of_true ?_ trivial
      by_cases hl : a + T ≤ t
      · rw [if_pos ⟨by omega,hl⟩]
        simpa using hl
      · rw [if_neg (by tauto)]
        simpa using hl
    | late r =>
      obtain ⟨he,hz,hr,hw⟩ := h
      have hw' : ¬Within T last t := fun h => hw (h.mono hn)
      rw [he.check]
      simp only [Clear]
      by_cases hl : r + T ≤ t
      · rw [if_pos ⟨by omega,hl⟩]
        simp [hw',hl]
      · rw [if_neg (by tauto)]
        simp [hw',hl]

def Ordered (es : List Event) : Prop := es.Pairwise fun a b => a.time ≤ b.time

instance (es : List Event) : Decidable (Ordered es) := inferInstanceAs (Decidable (List.Pairwise _ _))

theorem Linked.mono {T now : Nat} {s : Option Login} {last : Option Nat} {c : Timer} (h : Linked T now s last c)
    {t : Nat} (ht : now ≤ t) : Linked T t s last c := by
  cases c with
  | none => exact ⟨h.1,fun hw => h.2 (hw.mono ht)⟩
  | login a => exact ⟨h.1,h.2.1,h.2.2.trans ht⟩
  | fresh a => exact ⟨h.1,h.2.1,h.2.2.1,h.2.2.2.trans ht⟩
  | late r => exact ⟨h.1,h.2.1,h.2.2.1.trans ht,fun hw => h.2.2.2 (hw.mono ht)⟩

theorem linked_run (cfg : Config) {es : List Event} (ho : Ordered es) {now : Nat} (hn : ∀ e ∈ es, e.time ≤ now) :
    Linked (cfg.getD 300) now (session cfg es) (lastActivity (cfg.getD 300) es) (timer (cfg.getD 300) es) := by
  induction es using List.reverseRecOn generalizing now with
  | nil => exact ⟨rfl,by simp [lastActivity,Within]⟩
  | append_singleton es e ih =>
    obtain ⟨ho,-,he⟩ := List.pairwise_append.mp ho
    have hb : ∀ d ∈ es, d.time ≤ e.time := fun d hd => he d hd e (by simp)
    have hl := (ih ho hb).next (le_refl _)
    simp only [session,lastActivity,timer,List.foldl_append,List.foldl_cons,List.foldl_nil] at hl ⊢
    exact hl.mono (hn e (by simp))

/-- Every call of a run keeps to the configured timeout. -/
def RunKept (cfg : Config) (es : List Event) : Prop :=
  ∀ ms e ns, es = ms ++ e::ns → Kept (cfg.getD 300) (session cfg ms) (lastActivity (cfg.getD 300) ms) e

theorem runKept_iff (cfg : Config) {es : List Event} (ho : Ordered es) :
    RunKept cfg es ↔ ∀ ms e ns, es = ms ++ e::ns → Clear (cfg.getD 300) (timer (cfg.getD 300) ms) e := by
  have key : ∀ ms e ns, es = ms ++ e::ns →
      (Kept (cfg.getD 300) (session cfg ms) (lastActivity (cfg.getD 300) ms) e ↔
        Clear (cfg.getD 300) (timer (cfg.getD 300) ms) e) := by
    rintro ms e ns rfl
    obtain ⟨hm,-,he⟩ := List.pairwise_append.mp ho
    have hb : ∀ d ∈ ms, d.time ≤ e.time := fun d hd => he d hd e (by simp)
    exact (linked_run cfg hm hb).kept_iff (le_refl _)
  constructor
  · intro h ms e ns hs
    exact (key ms e ns hs).mp (h ms e ns hs)
  · intro h ms e ns hs
    exact (key ms e ns hs).mpr (h ms e ns hs)

/-- A refresh at the moment of the login leaves the end where it is. -/
def SameDuration (cfg : Config) : Prop :=
  ∀ access ip t, updateSession t (some (setSession cfg access ip t)) = some (setSession cfg access ip t)

theorem sameDuration_iff (cfg : Config) : SameDuration cfg ↔ cfg.getD 300 = 0 := by
  constructor
  · intro h
    by_contra hz
    have hh : 1 + cfg.getD 300 = 1 + 60*cfg.getD 300 := by
      simpa [updateSession,setSession,hz] using congrArg (Option.map Login.timeout) (h [] [] 1)
    omega
  · intro hz access ip t
    simp [updateSession,setSession,hz]

/-- The session lasts for the configured timeout after every accepted activity exactly when the times of the
calls hide the difference between a login and a refresh, which is there for every timeout but zero. -/
theorem runKept_sameDuration (cfg : Config) (es : List Event) (ho : Ordered es) :
    (RunKept cfg es ↔ ∀ ms e ns, es = ms ++ e::ns → Clear (cfg.getD 300) (timer (cfg.getD 300) ms) e) ∧
    (SameDuration cfg ↔ cfg.getD 300 = 0) :=
  ⟨runKept_iff cfg ho,sameDuration_iff cfg⟩

theorem runKept_sameDuration_default :
    (RunKept none [⟨.login ("admin" : Str) "10.0.0.2",0⟩,⟨.check,299⟩] ↔
      ∀ ms e ns, [⟨.login ("admin" : Str) "10.0.0.2",0⟩,⟨.check,299⟩] = ms ++ e::ns → Clear 300 (timer 300 ms) e) ∧
    (SameDuration none ↔ 300 = 0) :=
  runKept_sameDuration none _ (by decide)

/-- After a login the default timeout of 300 seconds lets a check in after 400. -/
theorem not_runKept : ¬∀ (cfg : Config) (es : List Event), Ordered es → RunKept cfg es := by
  intro h
  have hk := h none [⟨.login "admin" "10.0.0.2",0⟩,⟨.check,400⟩] (by decide)
    [⟨.login "admin" "10.0.0.2",0⟩] ⟨.check,400⟩ [] rfl
  exact absurd (hk.mp (by decide)) (by decide)

end SessionExpiry
end Mybox
