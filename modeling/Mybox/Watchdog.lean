import Mybox.Php
import Mybox.Runs
import Mathlib.Tactic.Common

/-! Services and their watchdog. `chkprog` reads which services are registered, looks for their processes and
queues a task for each one it does not find; `taskq_exec` takes the queued tasks; an administrator starts and
stops services. The three share the registrations, the queue and the process table, and no lock. -/
namespace Mybox
namespace Watchdog

open Php

inductive Service
  | anyterm | cron | dhcp | dhcrelay | ftp | http | inadyn | ipwatch | name | ntp | rng | ssh | syslog
  | ulog | xinet
  deriving DecidableEq

def Service.func : Service → Str
  | anyterm => "anyterm"
  | cron => "cron"
  | dhcp => "dhcp"
  | dhcrelay => "dhcrelay"
  | ftp => "ftp"
  | http => "http"
  | inadyn => "inadyn"
  | ipwatch => "ipwatch"
  | name => "name"
  | ntp => "ntp"
  | rng => "rng"
  | ssh => "ssh"
  | syslog => "syslog"
  | ulog => "ulog"
  | xinet => "xinet"

def Service.prog : Service → Str
  | anyterm => "anytermd"
  | cron => "crond"
  | dhcp => "dhcpd"
  | dhcrelay => "dhcrelayd"
  | ftp => "ftpd"
  | http => "httpd"
  | inadyn => "inadynd"
  | ipwatch => "ipwatchd"
  | name => "named"
  | ntp => "ntpd"
  | rng => "rngd"
  | ssh => "sshd"
  | syslog => "syslog-ng"
  | ulog => "ulogd"
  | xinet => "xinetd"

inductive Kind
  | up
  | restart
  deriving DecidableEq

/-- A function that the queue can hold: `ssh_up`, `ssh_restart`. -/
structure Task where
  service : Service
  kind : Kind
  deriving DecidableEq

def Task.file (t : Task) : Str := t.service.func ++ match t.kind with
  | .up => "_up"
  | .restart => "_restart"

structure Files where
  /-- The function in the file of `_CHECKQ_PATH` with the program's name. -/
  check : Service → Option Kind
  /-- The files of `_TASKQ_PATH`. -/
  taskq : List Task
  /-- Whether a process of the program runs. -/
  running : Service → Bool

def Files.register (f : Files) (s : Service) (k : Option Kind) : Files :=
  { f with check := Function.update f.check s k }

def Files.unqueue (f : Files) (t : Task) : Files := { f with taskq := f.taskq.filter (· ≠ t) }

def Files.queue (f : Files) (t : Task) : Files :=
  if t ∈ f.taskq then f else { f with taskq := f.taskq ++ [t] }

def Files.run (f : Files) (s : Service) (b : Bool) : Files :=
  { f with running := Function.update f.running s b }

/-- Where a function of a service stands: the start function and `_INIT_START_DAEMON`, then
`_INIT_STOP_DAEMON` with its `$_fok`, then the `up` function. -/
inductive Call
  | status
  | preRegister
  | exec
  | register
  | find
  | unregister
  | unqueue
  | kill (fok : Bool)
  | pid (fok : Bool)
  | restore
  | upUnqueue
  | upExec
  deriving DecidableEq

inductive Next
  | goto (c : Call)
  | ret (b : Bool)
  | exit

structure Turn where
  files : Files
  next : Next
  launched : Bool

/-- One step of a function of the service; `ok` is how the command or the configuration turns out, or
whether the system is booting. -/
def Call.turn (s : Service) (ok : Bool) (f : Files) : Call → Turn
  | status => ⟨f,if f.running s then .exit else if ok then .goto .preRegister else .ret false,false⟩
  | preRegister => ⟨if ok then f.register s (some .restart) else f,.goto .exec,false⟩
  | exec => if ok then ⟨f.run s true,.goto .register,true⟩ else ⟨f,.ret false,false⟩
  | register => ⟨f.register s (some .up),.ret true,false⟩
  | find => ⟨f,if (f.check s).isSome then .goto .unregister else .goto (.kill false),false⟩
  | unregister => ⟨f.register s none,.goto .unqueue,false⟩
  | unqueue => ⟨f.unqueue ⟨s,.up⟩,.goto (.kill true),false⟩
  | kill fok => if ok then ⟨f.run s false,.ret true,false⟩ else ⟨f,.goto (.pid fok),false⟩
  | pid fok =>
    ⟨f,if f.running s then (if fok then .goto .restore else .ret false) else .ret true,false⟩
  | restore => ⟨f.register s (some .up),.ret false,false⟩
  | upUnqueue => ⟨f.unqueue ⟨s,.up⟩,.goto .upExec,false⟩
  | upExec => if ok then ⟨f.run s true,.ret true,true⟩ else ⟨f,.ret false,false⟩

/-- An element of `listq`. -/
structure Entry where
  prog : Service
  cmd : Kind
  status : Bool

def Entry.task (e : Entry) : Task := ⟨e.prog,e.cmd⟩

/-- `set_check` for a process of the service. -/
def setCheck (taskq : List Task) (p : Service) (e : Entry) : Entry :=
  if e.task ∉ taskq ∧ e.prog.prog <:+: p.prog then { e with status := true } else e

inductive Phase
  | reading
  | scanning
  | queueing
  deriving DecidableEq

inductive Event
  | explicit (s : Service)
  | stopped (s : Service) (ok : Bool)
  | launched (s : Service)
  deriving DecidableEq

structure State where
  files : Files
  phase : Phase
  listq : List Entry
  /-- The rest of `$_BUFF` in `taskq_exec`, and the function it runs. -/
  buff : List Task
  running : Option (Service × Call)
  admin : Option (Service × Call)
  /-- What has happened, latest first. -/
  log : List Event

/-- What `taskq_exec` goes on with: `ssh_up` falls back on `ssh_restart`, which stops and starts. -/
def Call.continuation (b : Bool) : Call → Option Call
  | upExec => if b then none else some find
  | status | preRegister | exec | register => none
  | _ => some status

def Call.isStop : Call → Bool
  | find | unregister | unqueue | kill _ | pid _ | restore => true
  | _ => false

def Turn.events (s : Service) (t : Turn) : List Event := if t.launched then [.launched s] else []

inductive Label
  /-- `check_config` reads a registration. -/
  | read (s : Service)
  /-- `check_prog` begins, and looks at a process. -/
  | scan
  | proc (s : Service)
  /-- `run_check` begins, and looks at an element of `listq`. -/
  | check
  | entry
  /-- `clear_set`, for the next round. -/
  | clear
  /-- `taskq_exec` reads the queue, takes a task, and goes a step on with it. -/
  | glob (l : List Task)
  | take
  | exec (ok : Bool)
  /-- The administrator calls a function, and it goes a step on. -/
  | start (s : Service)
  | stop (s : Service)
  | admin (ok : Bool)
  | die (s : Service)

def taskqStep (ok : Bool) (st : State) (s : Service) (c : Call) : State :=
  let t := c.turn s ok st.files
  let st := { st with files := t.files, log := t.events s ++ st.log }
  match t.next with
  | .goto c' => { st with running := some (s,c') }
  | .ret b => { st with running := (c.continuation b).map (s,·) }
  -- The script ends, whatever is left of its list.
  | .exit => { st with running := none, buff := [] }

def adminStep (ok : Bool) (st : State) (s : Service) (c : Call) : State :=
  let t := c.turn s ok st.files
  let st := { st with files := t.files, log := t.events s ++ st.log }
  match t.next with
  | .goto c' => { st with admin := some (s,c') }
  | .ret b => { st with admin := none, log := (if c.isStop then [.stopped s b] else []) ++ st.log }
  | .exit => { st with admin := none }

def step (st : State) : Label → Option State
  | .read s =>
    match st.phase, st.files.check s with
    | .reading, some k =>
      if st.listq.any (·.prog = s) then none else some { st with listq := st.listq ++ [⟨s,k,false⟩] }
    | _, _ => none
  | .scan => if st.phase = .reading then some { st with phase := .scanning } else none
  | .proc s =>
    if st.phase = .scanning ∧ st.files.running s then
      some { st with listq := st.listq.map (setCheck st.files.taskq s) }
    else none
  | .check => if st.phase = .scanning then some { st with phase := .queueing } else none
  | .entry =>
    match st.phase, st.listq with
    | .queueing, e::es =>
      some { st with listq := es, files := if e.status then st.files else st.files.queue e.task }
    | _, _ => none
  | .clear =>
    if st.phase = .queueing ∧ st.listq.isEmpty then some { st with phase := .reading } else none
  | .glob l =>
    if st.running = none ∧ st.buff = [] ∧ l.Perm st.files.taskq then some { st with buff := l } else none
  | .take =>
    match st.running, st.buff with
    | none, t::ts =>
      some { st with
        buff := ts
        files := st.files.unqueue t
        running := some (t.service,match t.kind with
          | .up => .upUnqueue
          | .restart => .find) }
    | _, _ => none
  | .exec ok => st.running.map fun r => taskqStep ok st r.1 r.2
  | .start s =>
    if st.admin = none then some { st with admin := some (s,.status), log := .explicit s::st.log } else none
  | .stop s => if st.admin = none then some { st with admin := some (s,.find) } else none
  | .admin ok => st.admin.map fun r => adminStep ok st r.1 r.2
  | .die s => some { st with files := st.files.run s false }

/-- The watchdog, the task queue and an administrator, in any order of their steps. -/
def system : System State Label where
  init st := st.admin = none ∧ st.log = []
  step st l u := step st l = some u

/-- Neither the watchdog nor the task queue's program is about to act on the service: the one holds no
element that finds it down, the other none of its tasks. -/
structure Undisturbed (s : Service) (st : State) : Prop where
  listq : ∀ e ∈ st.listq, e.prog = s → e.status = true
  buff : ∀ t ∈ st.buff, t.service ≠ s
  running : ∀ q c, st.running = some (q,c) → q ≠ s

/-- Nobody is about to start the service, and nothing would make them. -/
structure Quiet (s : Service) (st : State) : Prop extends Undisturbed s st where
  check : st.files.check s = none
  taskq : ∀ t ∈ st.files.taskq, t.service ≠ s

/-- What a stop has to find when it comes to the queued task: the registration it has deleted is still away,
nobody is about to act on the service, and no task is queued but the one it deletes. -/
def Clear (st : State) : Prop :=
  match st.admin with
  | some (s,.find) => st.files.check s = none → Quiet s st
  | some (s,.unqueue) => st.files.check s = none ∧ Undisturbed s st ∧
      ∀ t ∈ st.files.taskq, t.service = s → t.kind = .up
  | _ => True

def clearSystem : System State Label where
  init := system.init
  step st l u := system.step st l u ∧ ∀ ok, l = .admin ok → Clear st

@[simp] theorem register_check_ne {f : Files} {s q : Service} {k : Option Kind} (h : s ≠ q) :
    (f.register q k).check s = f.check s := Function.update_of_ne h _ _

@[simp] theorem register_taskq (f : Files) (s : Service) (k : Option Kind) :
    (f.register s k).taskq = f.taskq := rfl

@[simp] theorem run_check (f : Files) (s : Service) (b : Bool) : (f.run s b).check = f.check := rfl

@[simp] theorem run_taskq (f : Files) (s : Service) (b : Bool) : (f.run s b).taskq = f.taskq := rfl

@[simp] theorem unqueue_check (f : Files) (t : Task) : (f.unqueue t).check = f.check := rfl

@[simp] theorem mem_unqueue {f : Files} {t u : Task} : u ∈ (f.unqueue t).taskq ↔ u ∈ f.taskq ∧ u ≠ t := by
  simp [Files.unqueue]

@[simp] theorem queue_check (f : Files) (t : Task) : (f.queue t).check = f.check := by
  unfold Files.queue
  split <;> rfl

theorem mem_queue {f : Files} {t u : Task} : u ∈ (f.queue t).taskq ↔ u ∈ f.taskq ∨ u = t := by
  unfold Files.queue
  split
  · rename_i h
    exact ⟨Or.inl,fun hu => hu.elim id fun he => he ▸ h⟩
  · simp

theorem turn_other {s q : Service} (h : s ≠ q) (ok : Bool) (f : Files) (c : Call) :
    (c.turn q ok f).files.check s = f.check s ∧ ∀ t ∈ (c.turn q ok f).files.taskq, t ∈ f.taskq := by
  cases c <;> simp only [Call.turn] <;> (try split_ifs) <;> simp +contextual [h]

theorem turn_stop {s : Service} {f : Files} (hf : f.check s = none) (ok : Bool) {c : Call}
    (hc : c = .find ∨ (∃ b, c = .kill b) ∨ ∃ b, c = .pid b) :
    (c.turn s ok f).files.check s = none ∧ (∀ t ∈ (c.turn s ok f).files.taskq, t ∈ f.taskq) ∧
      (c.turn s ok f).launched = false := by
  rcases hc with rfl | ⟨b,rfl⟩ | ⟨b,rfl⟩ <;> simp only [Call.turn] <;> (try split_ifs) <;> simp [hf]

theorem setCheck_prog (taskq : List Task) (p : Service) (e : Entry) :
    (setCheck taskq p e).prog = e.prog ∧ (e.status = true → (setCheck taskq p e).status = true) := by
  unfold setCheck
  split <;> simp

theorem Quiet.taskqStep {s : Service} {st : State} (h : Quiet s st) {q : Service} (hq : q ≠ s) (ok : Bool)
    (c : Call) : Quiet s (taskqStep ok st q c) := by
  obtain ⟨hc,ht⟩ := turn_other hq.symm ok st.files c
  have hcheck := hc.trans h.check
  have htaskq := fun t hm => h.taskq t (ht t hm)
  cases hn : (c.turn q ok st.files).next with
  | goto c' =>
    simp only [Watchdog.taskqStep,hn]
    refine ⟨⟨h.listq,h.buff,fun r d hr => ?_⟩,hcheck,htaskq⟩
    obtain ⟨rfl,-⟩ := Prod.mk.inj (Option.some.inj hr)
    exact hq
  | ret b =>
    simp only [Watchdog.taskqStep,hn]
    refine ⟨⟨h.listq,h.buff,fun r d hr => ?_⟩,hcheck,htaskq⟩
    obtain ⟨d',-,hd⟩ := Option.map_eq_some_iff.mp hr
    obtain ⟨rfl,-⟩ := Prod.mk.inj hd
    exact hq
  | exit =>
    simp only [Watchdog.taskqStep,hn]
    exact ⟨⟨h.listq,by simp,by simp⟩,hcheck,htaskq⟩

/-- A service that is quiet stays so as long as the administrator takes no step. -/
theorem Quiet.step {s : Service} {st u : State} {l : Label} (h : Quiet s st) (hs : step st l = some u)
    (hl : ∀ ok, l ≠ .admin ok) : Quiet s u := by
  cases l with
  | read q =>
    simp only [Watchdog.step] at hs
    split at hs
    · rename_i k _ hk
      split at hs
      · exact absurd hs (by simp)
      · obtain rfl := Option.some.inj hs
        refine ⟨⟨fun e he hp => ?_,h.buff,h.running⟩,h.check,h.taskq⟩
        rcases List.mem_append.mp he with he | he
        · exact h.listq e he hp
        · obtain rfl := List.mem_singleton.mp he
          obtain rfl : q = s := hp
          rw [h.check] at hk
          exact absurd hk (by simp)
    · exact absurd hs (by simp)
  | scan | check | clear | start _ | stop _ =>
    simp only [Watchdog.step,Option.ite_none_right_eq_some,Option.some.injEq] at hs
    obtain ⟨-,rfl⟩ := hs
    exact ⟨⟨h.listq,h.buff,h.running⟩,h.check,h.taskq⟩
  | proc q =>
    simp only [Watchdog.step,Option.ite_none_right_eq_some,Option.some.injEq] at hs
    obtain ⟨-,rfl⟩ := hs
    refine ⟨⟨fun e he hp => ?_,h.buff,h.running⟩,h.check,h.taskq⟩
    obtain ⟨e',he',rfl⟩ := List.mem_map.mp he
    obtain ⟨hprog,hstat⟩ := setCheck_prog st.files.taskq q e'
    exact hstat (h.listq e' he' (hprog ▸ hp))
  | entry =>
    simp only [Watchdog.step] at hs
    split at hs
    · rename_i e es _ hes
      obtain rfl := Option.some.inj hs
      have hlist : ∀ e' ∈ es, e'.prog = s → e'.status = true := fun e' he' =>
        h.listq e' (by rw [hes]; simp [he'])
      by_cases hst : e.status = true
      · rw [if_pos hst]
        exact ⟨⟨hlist,h.buff,h.running⟩,h.check,h.taskq⟩
      · have hprog : e.prog ≠ s := fun hp => hst (h.listq e (by rw [hes]; simp) hp)
        rw [if_neg hst]
        refine ⟨⟨hlist,h.buff,h.running⟩,by rw [queue_check]; exact h.check,fun t ht => ?_⟩
        rcases mem_queue.mp ht with ht | rfl
        · exact h.taskq t ht
        · exact hprog
    · exact absurd hs (by simp)
  | glob l =>
    simp only [Watchdog.step,Option.ite_none_right_eq_some,Option.some.injEq] at hs
    obtain ⟨⟨-,-,hp⟩,rfl⟩ := hs
    exact ⟨⟨h.listq,fun t ht => h.taskq t (hp.mem_iff.mp ht),h.running⟩,h.check,h.taskq⟩
  | take =>
    simp only [Watchdog.step] at hs
    split at hs
    · rename_i t ts _ hts
      obtain rfl := Option.some.inj hs
      have ht : t.service ≠ s := h.buff t (by rw [hts]; simp)
      refine ⟨⟨h.listq,fun t' ht' => h.buff t' (by rw [hts]; simp [ht']),fun q c hr => ?_⟩,h.check,?_⟩
      · obtain ⟨rfl,-⟩ := Prod.mk.inj (Option.some.inj hr)
        exact ht
      · exact fun t' ht' => h.taskq t' (mem_unqueue.mp ht').1
    · exact absurd hs (by simp)
  | exec ok =>
    obtain ⟨⟨q,c⟩,hr,rfl⟩ := Option.map_eq_some_iff.mp hs
    exact h.taskqStep (h.running q c hr) ok c
  | admin ok => exact absurd rfl (hl ok)
  | die q =>
    obtain rfl := Option.some.inj hs
    exact ⟨⟨h.listq,h.buff,h.running⟩,h.check,h.taskq⟩

def dormant (s : Service) : List Event → Bool
  | [] => false
  | e::es => if e = .stopped s true then true else if e = .explicit s then false else dormant s es

@[simp] theorem dormant_launched (s q : Service) (es : List Event) :
    dormant s (.launched q::es) = dormant s es := by simp [dormant]

/-- Unless the administrator begins a call or takes a step, its call stays, and only the task queue's program
launches. -/
theorem step_others {st u : State} {l : Label} (hs : step st l = some u) (hl : ∀ ok, l ≠ .admin ok)
    (h₁ : ∀ s, l ≠ .start s) (h₂ : ∀ s, l ≠ .stop s) :
    u.admin = st.admin ∧ (u.log = st.log ∨ ∃ q c, st.running = some (q,c) ∧ u.log = .launched q::st.log) := by
  cases l with
  | read q =>
    simp only [step] at hs
    split at hs
    · split at hs
      · exact absurd hs (by simp)
      · obtain rfl := Option.some.inj hs
        exact ⟨rfl,Or.inl rfl⟩
    · exact absurd hs (by simp)
  | entry | take =>
    simp only [step] at hs
    split at hs
    · obtain rfl := Option.some.inj hs
      exact ⟨rfl,Or.inl rfl⟩
    · exact absurd hs (by simp)
  | scan | check | clear | proc _ | glob _ =>
    simp only [step,Option.ite_none_right_eq_some,Option.some.injEq] at hs
    obtain ⟨-,rfl⟩ := hs
    exact ⟨rfl,Or.inl rfl⟩
  | exec ok =>
    obtain ⟨⟨q,c⟩,hr,rfl⟩ := Option.map_eq_some_iff.mp hs
    have hlog : (taskqStep ok st q c).admin = st.admin ∧
        (taskqStep ok st q c).log = (c.turn q ok st.files).events q ++ st.log := by
      cases hn : (c.turn q ok st.files).next <;> simp [taskqStep,hn]
    refine ⟨hlog.1,?_⟩
    cases hb : (c.turn q ok st.files).launched with
    | true => exact Or.inr ⟨q,c,hr,by simpa [Turn.events,hb] using hlog.2⟩
    | false => exact Or.inl (by simpa [Turn.events,hb] using hlog.2)
  | start q => exact absurd rfl (h₁ q)
  | stop q => exact absurd rfl (h₂ q)
  | admin ok => exact absurd rfl (hl ok)
  | die q =>
    obtain rfl := Option.some.inj hs
    exact ⟨rfl,Or.inl rfl⟩

/-- A stop that has got past the queued task, or a service that is stopped, is quiet; no launch comes after a
stop and before a start. -/
structure Inv (st : State) : Prop where
  stopping : ∀ s b, st.admin = some (s,.kill b) ∨ st.admin = some (s,.pid b) → Quiet s st
  asleep : ∀ s, dormant s st.log = true → Quiet s st ∧
    ∀ c, st.admin = some (s,c) → c = .find ∨ c = .kill false ∨ c = .pid false
  launched : ∀ s l₁ l₂, st.log = l₁ ++ .launched s::l₂ → dormant s l₂ = false

theorem turn_to_kill {s : Service} {ok b : Bool} {f : Files} {c : Call}
    (h : (c.turn s ok f).next = .goto (.kill b)) :
    (c.turn s ok f).files = f ∧ c = .find ∧ f.check s = none ∧ b = false ∨
      (c.turn s ok f).files = f.unqueue ⟨s,.up⟩ ∧ c = .unqueue := by
  cases c <;> simp only [Call.turn] at h ⊢ <;> (try split_ifs at h) <;> simp_all

theorem turn_to_pid {s : Service} {ok b : Bool} {f : Files} {c : Call}
    (h : (c.turn s ok f).next = .goto (.pid b)) : (c.turn s ok f).files = f ∧ c = .kill b := by
  cases c <;> simp only [Call.turn] at h ⊢ <;> (try split_ifs at h ⊢) <;> simp_all

theorem turn_ret_true {s : Service} {ok : Bool} {f : Files} {c : Call} (hc : c.isStop = true)
    (h : (c.turn s ok f).next = .ret true) : (∃ b, c = .kill b) ∨ ∃ b, c = .pid b := by
  cases c <;> simp [Call.turn,Call.isStop] at h hc ⊢
  split at h <;> simp at h

theorem adminStep_frame (ok : Bool) (st : State) (s : Service) (c : Call) :
    (adminStep ok st s c).files = (c.turn s ok st.files).files ∧ (adminStep ok st s c).listq = st.listq ∧
      (adminStep ok st s c).buff = st.buff ∧ (adminStep ok st s c).running = st.running := by
  cases hn : (c.turn s ok st.files).next <;> simp [adminStep,hn]

theorem Undisturbed.adminStep {q : Service} {st : State} (h : Undisturbed q st) (ok : Bool) (s : Service)
    (c : Call) : Undisturbed q (adminStep ok st s c) := by
  obtain ⟨-,hl,hb,hr⟩ := adminStep_frame ok st s c
  exact ⟨hl ▸ h.listq,hb ▸ h.buff,hr ▸ h.running⟩

theorem Quiet.adminStep {q : Service} {st : State} (h : Quiet q st) {ok : Bool} {s : Service} {c : Call}
    (hc : (c.turn s ok st.files).files.check q = none)
    (ht : ∀ t ∈ (c.turn s ok st.files).files.taskq, t ∈ st.files.taskq) : Quiet q (adminStep ok st s c) := by
  have hf := (adminStep_frame ok st s c).1
  exact ⟨h.toUndisturbed.adminStep ok s c,hf ▸ hc,fun t hm => h.taskq t (ht t (hf ▸ hm))⟩

theorem adminStep_admin {ok : Bool} {st : State} {s q : Service} {c d : Call}
    (h : (adminStep ok st s c).admin = some (q,d)) : q = s ∧ (c.turn s ok st.files).next = .goto d := by
  cases hn : (c.turn s ok st.files).next <;> simp_all [adminStep]

theorem adminStep_log (ok : Bool) (st : State) (s : Service) (c : Call) :
    (adminStep ok st s c).log = (c.turn s ok st.files).events s ++ st.log ∨
      ∃ b, c.isStop = true ∧ (c.turn s ok st.files).next = .ret b ∧
        (adminStep ok st s c).admin = none ∧
        (adminStep ok st s c).log = .stopped s b::((c.turn s ok st.files).events s ++ st.log) := by
  cases hn : (c.turn s ok st.files).next with
  | ret b => cases hs : c.isStop <;> simp [adminStep,hn,hs]
  | goto d => simp [adminStep,hn]
  | exit => simp [adminStep,hn]

theorem turn_launched {s : Service} {ok : Bool} {f : Files} {c : Call}
    (h : (c.turn s ok f).launched = true) : c = .exec ∨ c = .upExec := by
  cases c <;> simp only [Call.turn] at h ⊢ <;> (try split_ifs at h) <;> simp_all

/-- What was launched before the step was launched from no dormant service; no more is what the step
launches. -/
theorem launched_cons {st : State} (h : Inv st) {es : List Event} {s : Service} (hs : dormant s st.log = false)
    (he : es = [] ∨ es = [.launched s]) (r : Service) (l₁ l₂ : List Event)
    (hl : es ++ st.log = l₁ ++ .launched r::l₂) : dormant r l₂ = false := by
  rcases he with rfl | rfl
  · exact h.launched r l₁ l₂ hl
  · cases l₁ with
    | nil =>
      obtain ⟨he,rfl⟩ := List.cons.inj hl
      obtain rfl : s = r := by simpa using he
      exact hs
    | cons e l₁ => exact h.launched r l₁ l₂ (List.cons.inj hl).2

theorem events_eq (s : Service) (t : Turn) : t.events s = [] ∨ t.events s = [.launched s] := by
  cases hb : t.launched <;> simp [Turn.events,hb]

theorem dormant_events (r s : Service) (t : Turn) (es : List Event) :
    dormant r (t.events s ++ es) = dormant r es := by
  rcases events_eq s t with h | h <;> simp [h]

/-- A step of the administrator's call. -/
theorem Inv.admin {st : State} (h : Inv st) (hc : Clear st) {s : Service} {c : Call}
    (ha : st.admin = some (s,c)) (ok : Bool) : Inv (adminStep ok st s c) := by
  have hclear : Clear st := hc
  unfold Clear at hclear
  rw [ha] at hclear
  -- A stop of a dormant service, or a call for another one, leaves a quiet service quiet.
  have hkeep : ∀ r, dormant r st.log = true → Quiet r (adminStep ok st s c) := by
    intro r hr
    obtain ⟨hq,hcall⟩ := h.asleep r hr
    by_cases hrs : r = s
    · subst r
      have hstop : c = .find ∨ (∃ b, c = .kill b) ∨ ∃ b, c = .pid b := by
        rcases hcall c ha with hc' | hc' | hc'
        · exact Or.inl hc'
        · exact Or.inr (Or.inl ⟨_,hc'⟩)
        · exact Or.inr (Or.inr ⟨_,hc'⟩)
      obtain ⟨hcheck,htask,-⟩ := turn_stop hq.check ok hstop
      exact hq.adminStep hcheck htask
    · obtain ⟨hcheck,htask⟩ := turn_other hrs ok st.files c
      exact hq.adminStep (hcheck.trans hq.check) htask
  have hnolaunch : (c.turn s ok st.files).launched = true → dormant s st.log = false := by
    intro hl
    by_contra hd
    have hcall := (h.asleep s (by simpa using hd)).2 c ha
    rcases turn_launched hl with rfl | rfl <;> simp at hcall
  constructor
  · intro r b hr
    rcases hr with hr | hr
    · obtain ⟨rfl,hn⟩ := adminStep_admin hr
      rcases turn_to_kill hn with ⟨hf,rfl,hnone,-⟩ | ⟨hf,rfl⟩
      · exact (hclear hnone).adminStep (by rw [hf]; exact hnone) (by rw [hf]; exact fun t ht => ht)
      · obtain ⟨hnone,hund,htask⟩ := hclear
        have hfiles := (adminStep_frame ok st r .unqueue).1.trans hf
        refine ⟨hund.adminStep ok r .unqueue,by rw [hfiles]; exact hnone,fun t ht => ?_⟩
        rw [hfiles,mem_unqueue] at ht
        intro he
        have hk := htask t ht.1 he
        exact ht.2 (by cases t; simp_all)
    · obtain ⟨rfl,hn⟩ := adminStep_admin hr
      obtain ⟨hf,rfl⟩ := turn_to_pid hn
      have hq := h.stopping r b (Or.inl ha)
      exact hq.adminStep (by rw [hf]; exact hq.check) (by rw [hf]; exact fun t ht => ht)
  · intro r hr
    rcases adminStep_log ok st s c with hl | ⟨b,hs,hn,hnone,hl⟩
    · rw [hl,dormant_events] at hr
      refine ⟨hkeep r hr,fun d hd => ?_⟩
      obtain ⟨rfl,hn⟩ := adminStep_admin hd
      obtain ⟨hq,hcall⟩ := h.asleep r hr
      have hfind := hq.check
      rcases hcall c ha with rfl | rfl | rfl <;> simp only [Call.turn] at hn <;>
        (try split_ifs at hn) <;> simp_all
    · rw [hl] at hr
      refine ⟨?_,by simp [hnone]⟩
      by_cases hstop : Event.stopped s b = .stopped r true
      · obtain ⟨rfl,rfl⟩ := Event.stopped.inj hstop
        rcases turn_ret_true hs hn with ⟨b,rfl⟩ | ⟨b,rfl⟩
        · have hq := h.stopping s b (Or.inl ha)
          obtain ⟨hcheck,htask,-⟩ := turn_stop hq.check ok (Or.inr (Or.inl ⟨b,rfl⟩))
          exact hq.adminStep hcheck htask
        · have hq := h.stopping s b (Or.inr ha)
          obtain ⟨hcheck,htask,-⟩ := turn_stop hq.check ok (Or.inr (Or.inr ⟨b,rfl⟩))
          exact hq.adminStep hcheck htask
      · rw [dormant,if_neg hstop,if_neg (by simp),dormant_events] at hr
        exact hkeep r hr
  · intro r l₁ l₂ hl
    have hev : ∀ l₁, (c.turn s ok st.files).events s ++ st.log = l₁ ++ .launched r::l₂ →
        dormant r l₂ = false := by
      intro l₁ hl
      cases hb : (c.turn s ok st.files).launched with
      | true => exact launched_cons h (hnolaunch hb) (events_eq ..) r l₁ l₂ hl
      | false => exact h.launched r l₁ l₂ (by simpa [Turn.events,hb] using hl)
    rcases adminStep_log ok st s c with he | ⟨b,-,-,-,he⟩
    · exact hev l₁ (he ▸ hl)
    · rw [he] at hl
      cases l₁ with
      | nil => simp at hl
      | cons e l₁ => exact hev l₁ (List.cons.inj hl).2

theorem Inv.step {st u : State} {l : Label} (h : Inv st) (hs : clearSystem.step st l u) : Inv u := by
  obtain ⟨hs,hclear⟩ := hs
  by_cases hl : ∃ ok, l = .admin ok
  · obtain ⟨ok,rfl⟩ := hl
    obtain ⟨⟨s,c⟩,ha,rfl⟩ := Option.map_eq_some_iff.mp hs
    exact h.admin (hclear ok rfl) ha ok
  · have hl' : ∀ ok, l ≠ .admin ok := fun ok he => hl ⟨ok,he⟩
    have hq : ∀ s, Quiet s st → Quiet s u := fun s hq => hq.step hs hl'
    by_cases hstart : ∃ s, l = .start s
    · obtain ⟨s,rfl⟩ := hstart
      obtain ⟨hnone,rfl⟩ := (Option.ite_none_right_eq_some.mp hs).imp_right Option.some.inj
      refine ⟨by simp,fun r hr => ?_,fun r l₁ l₂ he => ?_⟩
      · have hrs : s ≠ r := fun he => by simp [dormant,he] at hr
        have hd : dormant r st.log = true := by simpa [dormant,hrs] using hr
        exact ⟨hq r (h.asleep r hd).1,fun c hc => absurd (Prod.mk.inj (Option.some.inj hc)).1 hrs⟩
      · cases l₁ with
        | nil => simp at he
        | cons e l₁ => exact h.launched r l₁ l₂ (List.cons.inj he).2
    · by_cases hstop : ∃ s, l = .stop s
      · obtain ⟨s,rfl⟩ := hstop
        obtain ⟨hnone,rfl⟩ := (Option.ite_none_right_eq_some.mp hs).imp_right Option.some.inj
        refine ⟨by simp,fun r hr => ⟨hq r (h.asleep r hr).1,fun c hc => Or.inl ?_⟩,h.launched⟩
        exact (Prod.mk.inj (Option.some.inj hc)).2.symm
      · obtain ⟨hadmin,hlog⟩ := step_others hs hl' (fun s he => hstart ⟨s,he⟩) fun s he => hstop ⟨s,he⟩
        refine ⟨fun s b hb => hq s (h.stopping s b (hadmin ▸ hb)),fun s hd => ?_,fun r l₁ l₂ he => ?_⟩
        · have hd' : dormant s st.log = true := by
            rcases hlog with hlog | ⟨q,c,-,hlog⟩
            · rwa [hlog] at hd
            · rwa [hlog,dormant_launched] at hd
          exact ⟨hq s (h.asleep s hd').1,fun c hc => (h.asleep s hd').2 c (hadmin ▸ hc)⟩
        · rcases hlog with hlog | ⟨q,c,hr,hlog⟩
          · exact h.launched r l₁ l₂ (hlog ▸ he)
          · have hdq : dormant q st.log = false := by
              by_contra hd
              exact (h.asleep q (by simpa using hd)).1.running q c hr rfl
            exact launched_cons h hdq (Or.inr rfl) r l₁ l₂ (by rw [List.singleton_append,← hlog]; exact he)

theorem Inv.init {st : State} (h : clearSystem.init st) : Inv st := by
  obtain ⟨ha,hl⟩ := h
  exact ⟨by simp [ha],by simp [hl,dormant],by simp [hl]⟩

theorem dormant_stopped {s : Service} {l₁ l₂ : List Event} (h : .explicit s ∉ l₁) :
    dormant s (l₁ ++ .stopped s true::l₂) = true := by
  induction l₁ with
  | nil => simp [dormant]
  | cons e l₁ ih =>
    have he : e ≠ .explicit s := fun he => h (by simp [he])
    rw [List.cons_append,dormant,if_neg he,ih fun hm => h (by simp [hm])]
    simp

/-- Where every stop finds things clear, a service that is launched after a stop that returned TRUE has been
started explicitly in between. -/
theorem stop_wins {s t : State} {ls : List Label} (hi : clearSystem.init s)
    (hr : System.Run clearSystem s ls t) (sv : Service) (l₁ l₂ l₃ : List Event)
    (hl : t.log = l₁ ++ .launched sv::(l₂ ++ .stopped sv true::l₃)) : .explicit sv ∈ l₂ := by
  have h : Inv t := hr.invariant (fun _ _ _ hinv hs => hinv.step hs) (Inv.init hi)
  by_contra hn
  have hd := h.launched sv l₁ _ hl
  rw [dormant_stopped hn] at hd
  exact absurd hd (by simp)

def nothing : State where
  files := ⟨fun _ => none,[],fun _ => false⟩
  phase := .reading
  listq := []
  buff := []
  running := none
  admin := none
  log := []

instance (s : Service) (st : State) : Decidable (Undisturbed s st) :=
  decidable_of_iff ((∀ e ∈ st.listq, e.prog = s → e.status = true) ∧ (∀ t ∈ st.buff, t.service ≠ s) ∧
    ∀ r ∈ st.running, r.1 ≠ s)
    ⟨fun ⟨h₁,h₂,h₃⟩ => ⟨h₁,h₂,fun q c hr => h₃ (q,c) hr⟩,fun h => ⟨h.listq,h.buff,fun r hr => h.running r.1 r.2 hr⟩⟩

instance (s : Service) (st : State) : Decidable (Quiet s st) :=
  decidable_of_iff (Undisturbed s st ∧ st.files.check s = none ∧ ∀ t ∈ st.files.taskq, t.service ≠ s)
    ⟨fun ⟨h₁,h₂,h₃⟩ => ⟨h₁,h₂,h₃⟩,fun h => ⟨h.toUndisturbed,h.check,h.taskq⟩⟩

theorem clear_iff {st : State} : Clear st ↔ ∀ r ∈ st.admin,
    (r.2 = .find → st.files.check r.1 = none → Quiet r.1 st) ∧
    (r.2 = .unqueue → st.files.check r.1 = none ∧ Undisturbed r.1 st ∧
      ∀ t ∈ st.files.taskq, t.service = r.1 → t.kind = .up) := by
  unfold Clear
  cases st.admin with
  | none => simp
  | some r =>
    obtain ⟨s,c⟩ := r
    cases c <;> simp

instance (st : State) : Decidable (Clear st) := decidable_of_iff _ clear_iff.symm

def clearStep (st : State) (l : Label) : Option State := if Clear st then step st l else none

theorem clearStep_step (st : State) (l : Label) (u : State) (h : clearStep st l = some u) : clearSystem.step st l u := by
  obtain ⟨hc,hs⟩ := Option.ite_none_right_eq_some.mp h
  exact ⟨hs,fun _ _ => hc⟩

/-- The web server and the SSH server run and are registered. -/
def manned : State :=
  { nothing with files := ⟨fun s => if s = .http ∨ s = .ssh then some .up else none,[],fun s => s = .http ∨ s = .ssh⟩ }

/-- The SSH server is stopped and started while the watchdog finds the web server gone and the queue starts it. -/
def httpGone : List Label :=
  [.read .http,.stop .ssh,.admin true,.die .http,.scan,.admin true,.check,.admin true,.entry,.glob [⟨.http,.up⟩],.admin true,
    .take,.exec true,.start .ssh,.admin true,.exec true,.clear,.admin true,.admin true]

theorem httpGone_run : System.Run clearSystem manned httpGone ((httpGone.foldlM clearStep manned).getD manned) :=
  System.run_of_foldlM clearStep_step (by decide)

theorem stop_wins_ssh : .explicit .ssh ∈ [Event.launched .http,.explicit .ssh] :=
  stop_wins ⟨rfl,rfl⟩ httpGone_run .ssh [] _ [] rfl

/-- At boot a start that fails registers `ssh_restart`; the watchdog queues it, and a stop deletes `ssh_up`
only. -/
def restartQueued : List Label :=
  [.start .ssh,.admin true,.admin true,.admin false,
    .read .ssh,.scan,.check,.entry,
    .stop .ssh,.admin true,.admin true,.admin true,.admin false,.admin true,
    .glob [⟨.ssh,.restart⟩],.take,.exec true,.exec true,.exec true,.exec false,.exec true]

def readBefore : List Label :=
  [.start .ssh,.admin true,.admin false,.admin true,.admin true,
    .read .ssh,
    .stop .ssh,.admin true,.admin true,.admin true,.admin true,
    .scan,.check,.entry,.glob [⟨.ssh,.up⟩],.take,.exec true,.exec true]

theorem stop_loses :
    ¬∀ ls t, System.Run system nothing ls t → ∀ sv l₁ l₂ l₃,
      t.log = l₁ ++ .launched sv::(l₂ ++ .stopped sv true::l₃) → .explicit sv ∈ l₂ := by
  intro h
  have hr : System.Run system nothing restartQueued ((restartQueued.foldlM step nothing).getD nothing) :=
    System.run_of_foldlM (fun _ _ _ h => h) (by decide)
  exact absurd (h restartQueued _ hr .ssh [] [] [.explicit .ssh] rfl) List.not_mem_nil

/-- The race alone does it too. -/
example : (readBefore.foldlM step nothing).map State.log =
    some [.launched .ssh,.stopped .ssh true,.launched .ssh,.explicit .ssh] := by rfl

end Watchdog
end Mybox
