import Mathlib.Data.List.Basic
import Mathlib.Data.List.Induction
import Mathlib.Tactic.Common

/-! The daemon of the front display. A screen is a function with a loop in it that asks for keys, and a key calls the
next screen from within that loop; `dostat` ends loops. -/
namespace Mybox
namespace LcdScreens

/-- What a key shows. -/
inductive Screen
  | bandwidth
  | cpu
  | mem
  | uptime
  | logod
  deriving DecidableEq

/-- What stands in a row of the display. -/
inductive Row
  | blank
  | logo
  | title (s : Screen)
  | value (s : Screen)
  deriving DecidableEq

/-- A screen that is shown, and what its key byte still has to show once that one is left. -/
structure Call where
  screen : Screen
  keys : List Screen
  deriving DecidableEq

structure Lcdd where
  /-- The loops that run, the innermost one first. -/
  calls : List Call
  dostat : Bool
  top : Row
  bottom : Row
  /-- `alarm(3600)` has been called, and the signal has not come since. -/
  alarm : Bool
  deriving DecidableEq

/-- What a loop can meet with: what is in `b` behind the first `read` of `switch_tab`, and the byte of the second one if
there is one; or the signal. -/
inductive Event
  | poll (first : BitVec 8) (second : Option (BitVec 8))
  | sigalrm

def masks : List (BitVec 8 × Screen) := [(0x1,.bandwidth),(0x2,.cpu),(0x4,.mem),(0x8,.uptime),(0x10,.logod)]

/-- The screens of a key byte, in the order they are tested for. -/
def keysOf (b : BitVec 8) : List Screen := (masks.filter fun m => b &&& m.1 ≠ 0).map Prod.snd

/-- What a key press asks for; where the second byte is missing, the first one is still in `b`. -/
def Event.press : Event → Option (List Screen)
  | poll first second => if first = 253 then some (keysOf (second.getD 253)) else none
  | sigalrm => none

def showLogo (st : Lcdd) : Lcdd := { st with top := .logo, bottom := .logo }

/-- What `show_bandwidth`, `show_cpu`, `show_mem`, `show_uptime` and `show_logod` do ahead of their loop. -/
def enter (s : Screen) (st : Lcdd) : Lcdd :=
  if s = .logod then { showLogo st with dostat := true }
  else { st with alarm := true, top := .title s, bottom := .blank, dostat := true }

/-- What the loop of a screen does behind `switch_tab`. -/
def draw (s : Screen) (st : Lcdd) : Lcdd := if s = .logod then st else { st with bottom := .value s }

/-- The rest of a `switch_tab` with these screens still to show, called in the innermost of these loops; it goes on up
to the next poll. -/
def finish : List Screen → List Call → Lcdd → Lcdd
  | s::keys, calls, st => enter s { st with calls := ⟨s,keys⟩::calls }
  | [], [], st => { st with calls := [] }
  | [], c::cs, st =>
    let st := draw c.screen st
    if st.dostat then { st with calls := c::cs } else finish c.keys cs st

def step (st : Lcdd) (e : Event) : Lcdd :=
  match e with
  | .poll _ _ =>
    match e.press with
    | none => finish [] st.calls st
    | some keys => finish keys st.calls { st with dostat := false }
  | .sigalrm => if st.alarm then { showLogo st with alarm := false } else st

/-- `main`, at the first poll. -/
def boot : Lcdd := ⟨[],false,.logo,.logo,false⟩

def run (es : List Event) : Lcdd := es.foldl step boot

-- What is to be shown, first the screen that is: a press puts its keys in the place of that one.
def replace (a : List Screen) (e : Event) : List Screen :=
  match e.press with
  | none => a
  | some keys => keys ++ a.tail

def agenda (es : List Event) : List Screen := es.foldl replace []

def Lcdd.agenda (st : Lcdd) : List Screen := st.calls.head?.toList.map Call.screen ++ st.calls.flatMap Call.keys

def remember (l : List Screen) (e : Event) : List Screen :=
  match e.press with
  | none => l
  | some keys => if keys = [] then [] else keys ++ l

def since (es : List Event) : List Screen := es.foldl remember []

variable {st : Lcdd} {s : Screen} {keys : List Screen} {calls : List Call}

@[simp] theorem enter_calls : (enter s st).calls = st.calls := by
  rw [enter]
  split <;> rfl

@[simp] theorem enter_dostat : (enter s st).dostat = true := by
  rw [enter]
  split <;> rfl

@[simp] theorem draw_calls : (draw s st).calls = st.calls := by
  rw [draw]
  split <;> rfl

@[simp] theorem draw_dostat : (draw s st).dostat = st.dostat := by
  rw [draw]
  split <;> rfl

@[simp] theorem draw_top : (draw s st).top = st.top := by
  rw [draw]
  split <;> rfl

@[simp] theorem draw_alarm : (draw s st).alarm = st.alarm := by
  rw [draw]
  split <;> rfl

/-- The rows of the display while a screen is shown: its own, or the logo once the signal has come. -/
def Rows (s : Screen) (top bottom : Row) : Prop :=
  if s = .logod then top = .logo ∧ bottom = .logo
  else top = .title s ∧ (bottom = .blank ∨ bottom = .value s) ∨ top = .logo ∧ (bottom = .logo ∨ bottom = .value s)

theorem rows_enter : Rows s (enter s st).top (enter s st).bottom := by
  by_cases h : s = .logod
  · simp [Rows,enter,showLogo,h]
  · simp [Rows,enter,h]

theorem rows_logo : Rows s .logo .logo := by
  by_cases h : s = .logod <;> simp [Rows,h]

theorem rows_draw (h : Rows s st.top st.bottom) : Rows s st.top (draw s st).bottom := by
  by_cases hs : s = .logod
  · simpa [Rows,draw,hs] using h
  · simp only [Rows,draw,if_neg hs,or_true,and_true] at h ⊢
    exact h.imp And.left And.left

/-- What holds at every poll. -/
structure Sound (st : Lcdd) : Prop where
  dostat : st.dostat = true ↔ st.calls ≠ []
  rows : ∀ c ∈ st.calls.head?, Rows c.screen st.top st.bottom
  alarm : ∀ s, st.top = .title s → st.alarm = true

theorem finish_cons : Sound (finish (s::keys) calls st) ∧
    (finish (s::keys) calls st).agenda = s::keys ++ calls.flatMap Call.keys := by
  have hc : (finish (s::keys) calls st).calls = ⟨s,keys⟩::calls := by rw [finish,enter_calls]
  refine ⟨⟨?_,?_,fun r hr => ?_⟩,?_⟩
  · rw [hc,finish]
    simp
  · rw [hc,finish]
    simpa using rows_enter
  · by_cases hs : s = .logod
    · simp [finish,enter,showLogo,hs] at hr
    · simp [finish,enter,hs]
  · simp [Lcdd.agenda,hc]

/-- A loop that is ended ends the ones around it, up to one with keys left. -/
theorem finish_ended (hd : st.dostat = false) (ha : ∀ s, st.top = .title s → st.alarm = true) :
    Sound (finish keys calls st) ∧ (finish keys calls st).agenda = keys ++ calls.flatMap Call.keys := by
  induction calls generalizing keys st with
  | nil =>
    cases keys with
    | nil => exact ⟨⟨by simp [finish,hd],by simp [finish],ha⟩,by simp [finish,Lcdd.agenda]⟩
    | cons s keys => exact finish_cons
  | cons c cs ih =>
    cases keys with
    | nil =>
      rw [finish]
      simp only [draw_dostat,hd]
      exact ih (by simpa using hd) (by simpa using ha)
    | cons s keys => exact finish_cons

/-- Without a press everything stays as it is, but for the value that is drawn again. -/
theorem finish_going (h : Sound st) : Sound (finish [] st.calls st) ∧ (finish [] st.calls st).calls = st.calls := by
  cases hc : st.calls with
  | nil => exact ⟨⟨by simpa [finish,hc] using h.dostat,nofun,h.alarm⟩,rfl⟩
  | cons c cs =>
    have hd : st.dostat = true := h.dostat.mpr (by simp [hc])
    have hr : Rows c.screen st.top st.bottom := h.rows c (by simp [hc])
    rw [finish]
    simp only [draw_dostat,hd,if_true]
    exact ⟨⟨by simp,by simpa using rows_draw hr,by simpa using h.alarm⟩,trivial⟩

theorem sigalrm_sound (h : Sound st) : Sound (step st .sigalrm) ∧ (step st .sigalrm).calls = st.calls := by
  rw [step]
  split
  · exact ⟨⟨h.dostat,fun _ _ => rows_logo,by simp [showLogo]⟩,rfl⟩
  · exact ⟨h,rfl⟩

theorem agenda_tail : st.agenda.tail = st.calls.flatMap Call.keys := by
  cases hc : st.calls <;> simp [Lcdd.agenda,hc]

theorem step_sound (h : Sound st) (e : Event) : Sound (step st e) ∧ (step st e).agenda = replace st.agenda e := by
  cases e with
  | sigalrm =>
    obtain ⟨hs,hc⟩ := sigalrm_sound h
    refine ⟨hs,?_⟩
    rw [Lcdd.agenda,hc]
    rfl
  | poll first second =>
    rw [step,replace]
    cases hp : (Event.poll first second).press with
    | none =>
      obtain ⟨hs,hc⟩ := finish_going h
      refine ⟨hs,?_⟩
      simp only [Lcdd.agenda,hc]
    | some keys =>
      rw [agenda_tail]
      exact finish_ended rfl h.alarm

theorem run_sound (es : List Event) : Sound (run es) := by
  induction es using List.reverseRecOn with
  | nil => constructor <;> simp [run,boot]
  | append_singleton es e ih =>
    rw [run,List.foldl_concat]
    exact (step_sound ih e).1

/-- In every run the screen shown and the ones that are to follow are those of the agenda: a press puts its keys in the
place of the screen shown, and one without keys goes on to the next screen of an earlier press, or to none. `dostat` is
set as long as there is a screen, the rows of the display are its own or the logo's, and where a title stands the signal
that takes it away is still to come. -/
theorem run_agenda (es : List Event) : (run es).agenda = agenda es ∧ Sound (run es) := by
  refine ⟨?_,run_sound es⟩
  induction es using List.reverseRecOn with
  | nil => rfl
  | append_singleton es e ih =>
    have ha := (step_sound (run_sound es) e).2
    rw [run,agenda,List.foldl_concat,List.foldl_concat]
    exact ha.trans (by rw [ih]; rfl)

/-- A press whose second byte is missing shows four screens, one after the other. -/
example : agenda [.poll 253 none] = [.bandwidth,.mem,.uptime,.logod] := by decide

/-- The loops end all together, and each has its value drawn once more. -/
theorem finish_alone (st : Lcdd) (hd : st.dostat = false) (l : List Screen) : finish [] (l.map fun s => ⟨s,[]⟩) st =
    { st with calls := [], bottom := (l.reverse.find? (· ≠ .logod)).elim st.bottom .value } := by
  induction l generalizing st with
  | nil => rfl
  | cons s l ih =>
    rw [List.map_cons,finish]
    simp only [draw_dostat,hd]
    rw [if_neg Bool.false_ne_true,ih _ (by simpa using hd),List.reverse_cons,List.find?_append]
    by_cases hs : s = .logod
    · simp [draw,hs,hd]
    · cases hf : l.reverse.find? (· ≠ .logod) <;> simp [draw,hs,hd]

theorem step_single (hs : Sound st) {l : List Screen} (hc : st.calls = l.map fun s => ⟨s,[]⟩) {e : Event}
    (he : (e.press.getD []).length ≤ 1) : (step st e).calls = (remember l e).map fun s => ⟨s,[]⟩ := by
  cases e with
  | sigalrm => exact (sigalrm_sound hs).2.trans hc
  | poll first second =>
    rw [step,remember]
    cases hp : (Event.poll first second).press with
    | none => exact (finish_going hs).2.trans hc
    | some keys =>
      rw [hp,Option.getD_some] at he
      match keys with
      | [] =>
        simp only [hc]
        rw [finish_alone _ rfl]
        rfl
      | [s] => simp [finish,hc]

/-- If a press has never more than one key, then the loops that run are those of all keys since the press without any:
none of them ends before. Then they end all together, and the title of the last screen is left, with the value of the
first that has one. -/
theorem single_keys (es : List Event) (h : ∀ e ∈ es, (e.press.getD []).length ≤ 1) :
    (run es).calls = (since es).map (fun s => ⟨s,[]⟩) ∧ ∀ e : Event, e.press = some [] → run (es ++ [e]) =
      { run es with
        calls := []
        dostat := false
        bottom := ((since es).reverse.find? (· ≠ .logod)).elim (run es).bottom .value } := by
  have hc : (run es).calls = (since es).map fun s => ⟨s,[]⟩ := by
    induction es using List.reverseRecOn with
    | nil => rfl
    | append_singleton es e ih =>
      rw [run,since,List.foldl_concat,List.foldl_concat]
      exact step_single (run_sound es) (ih fun x hx => h x (List.mem_append_left _ hx)) (h e (by simp))
  refine ⟨hc,fun e he => ?_⟩
  rw [run,List.foldl_concat]
  cases e with
  | sigalrm => cases he
  | poll first second =>
    rw [step,he]
    simp only
    rw [show (es.foldl step boot).calls = _ from hc,finish_alone _ rfl]
    rfl

/-- The key for the memory, then the one for the uptime. -/
def twoKeys : List Event := [.poll 253 (some 4),.poll 253 (some 8)]

theorem single_keys_two : (∀ e ∈ twoKeys, (e.press.getD []).length ≤ 1) ∧
    (run twoKeys).calls = [⟨.uptime,[]⟩,⟨.mem,[]⟩] ∧ ∀ e : Event, e.press = some [] →
    run (twoKeys ++ [e]) = ⟨[],false,.title .uptime,.value .mem,true⟩ :=
  ⟨by decide,single_keys twoKeys (by decide)⟩

end LcdScreens
end Mybox
