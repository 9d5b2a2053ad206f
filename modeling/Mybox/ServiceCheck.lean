import Mybox.Buffers
import Mybox.Php

/-! One cycle of `chkprog`: it reads which services are registered, searches the command name and command line of every
process for their names, and queues the tasks of those that it has not found. -/
namespace Mybox
namespace ServiceCheck

open Buffers

/-- What `isspace` holds of. -/
def space (c : Char) : Bool := c = ' ' || c = '\n' || c = '\r' || c = '\t' || c = '\x0b' || c = '\x0c'

def trim (s : Str) : Str := LineText.strip space s

def always : List Str := ["",".",".."]

/-- A file of `/var/sys/check`: its name is that of the program, what is in it is the name of the task. -/
structure Registration where
  file : Str
  content : Str
  task : trim content ∉ always ∧ '/' ∉ content

def Registration.prog (r : Registration) : Str := trim r.file

def Registration.cmd (r : Registration) : Str := trim r.content

structure Process where
  prog : Str
  cmdline : Str

/-- The kernel knows a program by fifteen characters of its name. -/
def Process.comm (p : Process) : Str := p.prog.take 15

/-- `listq`; `status` is 1 when the service is up. -/
structure Listq where
  prog : Str
  cmd : Str
  status : Bool

/-- What is written outside `status` or `buf` is no outcome. -/
def setConfig (r : Registration) : Option Listq :=
  if 15 + r.file.length < 32 ∧ r.content.length < 1023 then some ⟨r.prog.take 149,r.cmd.take 149,false⟩ else none

def checkConfig (regs : List Registration) : Option (List Listq) :=
  if regs.length ≤ 200 then regs.mapM setConfig else none

/-- The name of the file that a task is queued as: there is room for 149 characters of the path. -/
def slot (cmd : Str) : Str := cmd.take 134

def fileExists (q : List Str) (cmd : Str) : Bool := slot cmd ∈ always || slot cmd ∈ q

/-- `sscanf` reads fifteen characters from behind the first parenthesis on, and `splitc` takes what stands before the
next one. The sixteenth character is taken to be the end. -/
def scmd (comm : Str) : Str := if ')' ∈ (comm ++ [')']).take 15 then comm.takeWhile (· ≠ ')') else []

def oneLine (s : Str) : Str :=
  (if s.getLast? = some '\n' then s.dropLast else s).map fun c => if c.toNat < 32 then ' ' else c

def procText (p : Process) : Option Str :=
  if p.cmdline.length < 1023 then
    let str := scmd p.comm ++ [' ']
    let buf := oneLine p.cmdline
    if buf = [] then some (trim str)
    else if (str ++ ' '::(buf ++ [' '])).length < 1024 then some (trim (str ++ ' '::(buf ++ [' '])))
    else none
  else none

def setCheck (q : List Str) (str : Str) (l : List Listq) : List Listq :=
  l.map fun e => if fileExists q e.cmd then e else if (strstr e.prog str).isSome then { e with status := true } else e

/-- What one process does to the list, and to the mark that `taskq-check` is up. -/
def procTurn (q : List Str) (s : List Listq × Bool) (p : Process) : Option (List Listq × Bool) :=
  (procText p).map fun str => if (strstr "taskq-check" str).isSome then (s.1,true) else (setCheck q str s.1,s.2)

def checkProg (q : List Str) (procs : List Process) (l : List Listq) : Option (List Listq × Bool) :=
  procs.foldlM (procTurn q) (l,false)

/-- What one service does to the queue and to the log. -/
def queueTurn (s : List Str × List Str) (e : Listq) : List Str × List Str :=
  if e.status then s
  else if fileExists s.1 e.cmd then s
  else (s.1 ++ [slot e.cmd],s.2 ++ ["Service " ++ e.prog ++ " down"])

def runCheck (q : List Str) (l : List Listq) : List Str × List Str := l.foldl queueTurn (q,[])

structure Cycle where
  queue : List Str
  log : List Str
  taskq : Bool

def cycle (q : List Str) (regs : List Registration) (procs : List Process) : Option Cycle :=
  (checkConfig regs).bind fun l => (checkProg q procs l).map fun s =>
    ⟨(runCheck q s.1).1,(runCheck q s.1).2,s.2⟩

/-- Just the services whose programs do not run are to be started. -/
def Restarts (q : List Str) (regs : List Registration) (procs : List Process) (queue : List Str) : Prop :=
  ∀ r ∈ regs, r.cmd ∉ q → (r.cmd ∈ queue ↔ ∀ p ∈ procs, p.prog ≠ r.prog)

def Registration.Fits (r : Registration) : Prop := r.file.length ≤ 16 ∧ r.content.length ≤ 1022

def Process.Fits (p : Process) : Prop :=
  p.cmdline.length ≤ 1022 ∧ (scmd p.comm).length + (oneLine p.cmdline).length ≤ 1020

instance (r : Registration) : Decidable r.Fits := inferInstanceAs (Decidable (_ ∧ _))

instance (p : Process) : Decidable p.Fits := inferInstanceAs (Decidable (_ ∧ _))

/-- Some process has the name in its text; the one with `taskq-check` in it does not count. -/
def Told (procs : List Process) (prog : Str) : Prop :=
  ∃ p ∈ procs, ∃ str, procText p = some str ∧ ¬Str.of "taskq-check" <:+: str ∧ prog <:+: str

variable {q : List Str} {regs : List Registration} {procs : List Process}

theorem length_takeWhile_le {α : Type} {f : α → Bool} {x : α} (hx : f x = false) (a b : List α) :
    ((a ++ x::b).takeWhile f).length ≤ a.length := by
  induction a with
  | nil => simp [hx]
  | cons y a ih =>
    rw [List.cons_append,List.takeWhile_cons]
    split
    · exact Nat.succ_le_succ ih
    · exact Nat.zero_le _

theorem takeWhile_concat {α : Type} {f : α → Bool} {x : α} (hx : f x = false) (s : List α) :
    (s ++ [x]).takeWhile f = s.takeWhile f := by
  induction s with
  | nil => simp [hx]
  | cons y s ih => rw [List.cons_append,List.takeWhile_cons,List.takeWhile_cons,ih]

theorem length_scmd (comm : Str) : (scmd comm).length ≤ 14 := by
  unfold scmd
  split
  next h =>
    obtain ⟨a,b,hab⟩ := List.append_of_mem h
    have hl := congrArg List.length hab
    simp only [List.length_take,List.length_append,List.length_cons,List.length_nil] at hl
    have hw := length_takeWhile_le (f := (· ≠ ')')) (x := ')') (by decide) a (b ++ (comm ++ [')']).drop 15)
    rw [← List.cons_append,← List.append_assoc,← hab,List.take_append_drop,takeWhile_concat (by decide)] at hw
    omega
  next => exact Nat.zero_le _

theorem procText_isSome {p : Process} : (procText p).isSome ↔ p.Fits := by
  have hs := length_scmd p.comm
  unfold procText Process.Fits
  split
  next h =>
    dsimp only
    split
    next hb =>
      refine iff_of_true rfl ⟨by omega,?_⟩
      rw [hb,List.length_nil]
      omega
    next hb =>
      split
      next hl =>
        simp only [List.length_append,List.length_cons,List.length_nil] at hl
        exact iff_of_true rfl ⟨by omega,by omega⟩
      next hl =>
        simp only [List.length_append,List.length_cons,List.length_nil] at hl
        exact iff_of_false (by simp) (by omega)
  next h => exact iff_of_false (by simp) (by omega)

theorem setConfig_eq (r : Registration) :
    setConfig r = if r.Fits then some ⟨r.prog.take 149,r.cmd.take 149,false⟩ else none := by
  rw [setConfig]
  by_cases h : r.Fits
  · rw [if_pos h,if_pos (by have := h.1; have := h.2; omega)]
  · rw [if_neg h,if_neg fun hh => h ⟨by omega,by omega⟩]

theorem checkConfig_eq (h : regs.length ≤ 200) : checkConfig regs =
    if ∀ r ∈ regs, r.Fits then some (regs.map fun r => ⟨r.prog.take 149,r.cmd.take 149,false⟩) else none := by
  rw [checkConfig,if_pos h]
  clear h
  induction regs with
  | nil => rfl
  | cons r regs ih =>
    rw [List.mapM_cons,ih,setConfig_eq]
    simp only [List.forall_mem_cons]
    by_cases hr : r.Fits
    · by_cases hrest : ∀ r ∈ regs, r.Fits
      · rw [if_pos hr,if_pos hrest,if_pos ⟨hr,hrest⟩]
        rfl
      · rw [if_pos hr,if_neg hrest,if_neg fun hh => hrest hh.2]
        rfl
    · rw [if_neg hr,if_neg fun hh : r.Fits ∧ ∀ r ∈ regs, r.Fits => hr hh.1]
      rfl

def seen (texts : List Str) (prog : Str) : Bool :=
  texts.any fun str => !(strstr "taskq-check" str).isSome && (strstr prog str).isSome

theorem seen_cons (str : Str) (texts : List Str) (prog : Str) : seen (str::texts) prog =
    (!(strstr "taskq-check" str).isSome && (strstr prog str).isSome || seen texts prog) := List.any_cons

theorem checkProg_eq {l : List Listq} {up : Bool} (h : ∀ p ∈ procs, p.Fits) :
    ∃ up', procs.foldlM (procTurn q) (l,up) = some (l.map fun e =>
      { e with status := e.status || (!fileExists q e.cmd && seen (procs.filterMap procText) e.prog) },up') := by
  induction procs generalizing l up with
  | nil => exact ⟨up,by simp [seen]⟩
  | cons p procs ih =>
    rw [List.forall_mem_cons] at h
    obtain ⟨str,hstr⟩ := Option.isSome_iff_exists.mp (procText_isSome.mpr h.1)
    rw [List.foldlM_cons,procTurn,hstr,Option.map_some,Option.bind_eq_bind,Option.bind_some,List.filterMap_cons_some hstr]
    simp only [seen_cons]
    cases hq : (strstr "taskq-check" str).isSome with
    | true =>
      obtain ⟨up',he⟩ := @ih l true h.2
      exact ⟨up',by simpa using he⟩
    | false =>
      obtain ⟨up',he⟩ := @ih (setCheck q str l) up h.2
      rw [setCheck,List.map_map] at he
      refine ⟨up',he.trans ?_⟩
      refine congrArg (fun l => some (l,up')) (List.map_congr_left fun e _ => ?_)
      simp only [Function.comp]
      cases hf : fileExists q e.cmd with
      | true => simp [hf]
      | false => cases hs : (strstr e.prog str).isSome <;> simp [hf]

theorem checkProg_none {s : List Listq × Bool} (h : ¬∀ p ∈ procs, p.Fits) : procs.foldlM (procTurn q) s = none := by
  induction procs generalizing s with
  | nil => exact absurd nofun h
  | cons p procs ih =>
    rw [List.foldlM_cons,procTurn]
    cases hp : procText p with
    | none => rfl
    | some str =>
      have hfit : p.Fits := procText_isSome.mp (Option.isSome_of_eq_some hp)
      exact ih fun hh => h (List.forall_mem_cons.mpr ⟨hfit,hh⟩)

/-- A name is in the queue afterwards if it was, or if it is that of a task whose program was not found. -/
theorem mem_runCheck (l : List Listq) (s : List Str × List Str) (x : Str) :
    x ∈ (l.foldl queueTurn s).1 ↔
      x ∈ s.1 ∨ ∃ e ∈ l, e.status = false ∧ slot e.cmd ∉ always ∧ slot e.cmd = x := by
  induction l generalizing s with
  | nil => simp
  | cons e l ih =>
    rw [List.foldl_cons,ih,List.exists_mem_cons_iff,queueTurn]
    cases he : e.status with
    | true => simp
    | false =>
      simp only [Bool.false_eq_true,if_false]
      split
      next hf =>
        simp only [fileExists,Bool.or_eq_true,decide_eq_true_eq] at hf
        constructor
        · rintro (h | h)
          · exact Or.inl h
          · exact Or.inr (Or.inr h)
        · rintro (h | ⟨-,hn,rfl⟩ | h)
          · exact Or.inl h
          · exact Or.inl (hf.resolve_left hn)
          · exact Or.inr h
      next hf =>
        simp only [fileExists,Bool.or_eq_true,decide_eq_true_eq,not_or] at hf
        rw [List.mem_append,List.mem_singleton]
        constructor
        · rintro ((h | rfl) | h)
          · exact Or.inl h
          · exact Or.inr (Or.inl ⟨trivial,hf.1,rfl⟩)
          · exact Or.inr (Or.inr h)
        · rintro (h | ⟨-,-,rfl⟩ | h)
          · exact Or.inl (Or.inl h)
          · exact Or.inl (Or.inr rfl)
          · exact Or.inr h

theorem slot_proper (r : Registration) : slot r.cmd ∉ always := by
  have h : r.cmd ∉ always := r.task.1
  by_cases hl : r.cmd.length ≤ 134
  · rwa [slot,List.take_of_length_le hl]
  · intro hm
    have hlen : (slot r.cmd).length = 134 := by
      rw [slot,List.length_take]
      omega
    have hshort : ∀ s ∈ always, s.length ≤ 2 := by decide
    have := hshort _ hm
    omega

theorem slot_take (cmd : Str) : slot (cmd.take 149) = slot cmd := by simp [slot,List.take_take]

theorem prog_take {r : Registration} (h : r.Fits) : r.prog.take 149 = r.prog := by
  have hl : r.prog.length ≤ r.file.length := by
    rw [Registration.prog,trim,LineText.strip]
    exact ((List.rdropWhile_prefix _ _).length_le).trans (List.dropWhile_sublist _).length_le
  have := h.1
  exact List.take_of_length_le (by omega)

theorem seen_iff (prog : Str) : seen (procs.filterMap procText) prog = true ↔ Told procs prog := by
  simp only [seen,List.any_eq_true,List.mem_filterMap,Bool.and_eq_true,Bool.not_eq_true',Told]
  constructor
  · rintro ⟨str,⟨p,hp,hstr⟩,hq,hs⟩
    refine ⟨p,hp,str,hstr,fun h => ?_,strstr_isSome.mp hs⟩
    rw [strstr_isSome.mpr h] at hq
    cases hq
  · rintro ⟨p,hp,str,hstr,hq,hs⟩
    refine ⟨str,⟨p,hp,hstr⟩,?_,strstr_isSome.mpr hs⟩
    rw [Bool.eq_false_iff]
    exact fun h => hq (strstr_isSome.mp h)

theorem cycle_spec (h : regs.length ≤ 200) (hr : ∀ r ∈ regs, r.Fits) (hp : ∀ p ∈ procs, p.Fits) :
    ∃ c, cycle q regs procs = some c ∧
      ∀ x ∉ q, (x ∈ c.queue ↔ ∃ r ∈ regs, slot r.cmd = x ∧ ¬Told procs r.prog) := by
  obtain ⟨up,hup⟩ := @checkProg_eq q procs (regs.map fun r => ⟨r.prog.take 149,r.cmd.take 149,false⟩) false hp
  refine ⟨_,by rw [cycle,checkConfig_eq h,if_pos hr,Option.bind_some,checkProg,hup,Option.map_some],fun x hx => ?_⟩
  rw [runCheck,mem_runCheck,or_iff_right hx]
  simp only [List.mem_map,exists_exists_and_eq_and]
  refine exists_congr fun r => and_congr_right fun hmem => ?_
  rw [slot_take,prog_take (hr r hmem),← seen_iff]
  constructor
  · rintro ⟨hs,-,rfl⟩
    have hf : fileExists q (r.cmd.take 149) = false := by
      rw [fileExists,slot_take,Bool.or_eq_false_iff,decide_eq_false_iff_not,decide_eq_false_iff_not]
      exact ⟨slot_proper r,hx⟩
    rw [hf] at hs
    exact ⟨rfl,by simpa using hs⟩
  · rintro ⟨rfl,hs⟩
    exact ⟨by simp [hs],slot_proper r,rfl⟩

theorem cycle_none (h : regs.length ≤ 200) (hf : ¬((∀ r ∈ regs, r.Fits) ∧ ∀ p ∈ procs, p.Fits)) :
    cycle q regs procs = none := by
  rw [cycle,checkConfig_eq h]
  by_cases hr : ∀ r ∈ regs, r.Fits
  · rw [if_pos hr,Option.bind_some,checkProg,checkProg_none fun hp => hf ⟨hr,hp⟩]
    rfl
  · rw [if_neg hr]
    rfl

/-- What is queued that was not is what should be started, exactly if the texts of the processes tell of the programs
that run and of no others. -/
theorem cycle_iff (h : regs.length ≤ 200) :
    (∃ c, cycle q regs procs = some c ∧ Restarts q regs procs c.queue) ↔
      (∀ r ∈ regs, r.Fits) ∧ (∀ p ∈ procs, p.Fits) ∧ ∀ r ∈ regs, r.cmd ∉ q →
        ((∃ p ∈ procs, p.prog = r.prog) ↔ ∀ s ∈ regs, slot s.cmd = r.cmd → Told procs s.prog) := by
  by_cases hf : (∀ r ∈ regs, r.Fits) ∧ ∀ p ∈ procs, p.Fits
  · obtain ⟨c,hc,hq⟩ := cycle_spec (q := q) h hf.1 hf.2
    have hrun : ∀ r : Registration, r.cmd ∉ q → ((r.cmd ∈ c.queue ↔ ∀ p ∈ procs, p.prog ≠ r.prog) ↔
        ((∃ p ∈ procs, p.prog = r.prog) ↔ ∀ s ∈ regs, slot s.cmd = r.cmd → Told procs s.prog)) := by
      intro r hr
      have hdown : (∀ s ∈ regs, slot s.cmd = r.cmd → Told procs s.prog) ↔
          ¬∃ s ∈ regs, slot s.cmd = r.cmd ∧ ¬Told procs s.prog := by simp
      have hup : (∃ p ∈ procs, p.prog = r.prog) ↔ ¬∀ p ∈ procs, p.prog ≠ r.prog := by simp
      rw [hq _ hr,hdown,hup,not_iff_not]
      exact iff_comm
    rw [hc]
    constructor
    · rintro ⟨c',hc',hres⟩
      obtain rfl := Option.some.inj hc'
      exact ⟨hf.1,hf.2,fun r hr hn => (hrun r hn).mp (hres r hr hn)⟩
    · rintro ⟨-,-,hcond⟩
      exact ⟨c,rfl,fun r hr hn => (hrun r hn).mpr (hcond r hr hn)⟩
  · rw [cycle_none h hf]
    refine iff_of_false (by simp) fun hh => hf ⟨hh.1,hh.2.1⟩

/-- What has no blanks at its ends is still in front when more is stripped with it. -/
theorem prefix_strip {α : Type} {blank : α → Bool} {s : List α} (hs : LineText.strip blank s = s) (t : List α) :
    s <+: LineText.strip blank (s ++ t) := by
  induction t using List.reverseRecOn with
  | nil =>
    rw [List.append_nil,hs]
  | append_singleton t x ih =>
    rw [← List.append_assoc]
    cases hx : blank x with
    | true =>
      rw [LineText.strip_concat_blank blank hx]
      exact ih
    | false =>
      cases s with
      | nil => exact List.nil_prefix
      | cons a s =>
        have ha : ¬blank a = true := by
          intro ha
          have hl := congrArg List.length hs
          rw [LineText.strip_cons_blank blank ha,LineText.strip] at hl
          have := (List.rdropWhile_prefix blank (s.dropWhile blank)).length_le
          have := (List.dropWhile_sublist blank (l := s)).length_le
          rw [List.length_cons] at hl
          omega
        rw [List.append_assoc,List.cons_append,LineText.strip_cons_of_not blank ha,← List.append_assoc,
          List.rdropWhile_concat_neg _ _ _ (by simp [hx]),List.append_assoc]
        exact List.prefix_append _ _

/-- A program that runs is found, when it has a short name without a parenthesis and its text does not have
`taskq-check` in it: what can go wrong for it is only that others are taken for it. -/
theorem told_of_running {p : Process} {r : Registration} (hp : p ∈ procs) (hr : p.prog = r.prog)
    (hl : r.prog.length ≤ 14) (hparen : ')' ∉ r.prog) {str : Str} (hstr : procText p = some str)
    (hq : ¬Str.of "taskq-check" <:+: str) : Told procs r.prog := by
  have hs : scmd p.comm = r.prog := by
    rw [Process.comm,hr,List.take_of_length_le (by omega),scmd,if_pos]
    · refine List.takeWhile_eq_self_iff.mpr fun c hc => ?_
      have hne : c ≠ ')' := by
        rintro rfl
        exact hparen hc
      simpa using hne
    · rw [List.take_of_length_le (by simp; omega)]
      simp
  have hpre : ∀ t, r.prog <+: trim (r.prog ++ t) := prefix_strip (LineText.strip_strip space r.file)
  refine ⟨p,hp,str,hstr,hq,List.IsPrefix.isInfix ?_⟩
  rw [procText,hs] at hstr
  dsimp only at hstr
  split at hstr
  · split at hstr
    · rw [← Option.some.inj hstr]
      exact hpre _
    · split at hstr
      · rw [← Option.some.inj hstr,List.append_assoc]
        exact hpre _
      · cases hstr
  · cases hstr

def sshd : Registration := ⟨"sshd","ssh_up",by decide⟩

/-- An editor that was started for a file whose name has the program's name in it. -/
def editor : Process := ⟨"vi","vi\x00/etc/ssh/sshd_config\x00"⟩

def httpd : Registration := ⟨"httpd","http_up",by decide⟩

def crond : Registration := ⟨"crond","cron_up",by decide⟩

def web : Process := ⟨"httpd","/bin/httpd\x00-k\x00start\x00"⟩

instance (prog : Str) : Decidable (Told procs prog) := decidable_of_iff _ (seen_iff prog)

/-- The web server runs, the task of `crond` is queued already, and that of `sshd` is to be. -/
theorem cycle_iff_httpd : ∃ c, cycle ["cron_up"] [sshd,httpd,crond] [web] = some c ∧
    Restarts ["cron_up"] [sshd,httpd,crond] [web] c.queue :=
  (cycle_iff (by decide)).mpr ⟨by decide,by decide,by decide⟩

/-- No `sshd` runs, and its task is not queued. -/
theorem editor_for_server : (cycle [] [sshd] [editor]).map Cycle.queue = some [] ∧
    ¬∃ c, cycle [] [sshd] [editor] = some c ∧ Restarts [] [sshd] [editor] c.queue := by
  have h : (cycle [] [sshd] [editor]).map Cycle.queue = some [] := by decide
  refine ⟨h,?_⟩
  rintro ⟨c,hc,hres⟩
  rw [hc,Option.map_some,Option.some.injEq] at h
  have hin := (hres sshd (by simp) (by decide)).mpr (by decide)
  rw [h] at hin
  cases hin

end ServiceCheck
end Mybox
