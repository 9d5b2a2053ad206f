import Mybox.Inodes
import Mybox.Php
import Mybox.Runs

/-! The task queue of version 3.1: a request leaves a file under the task's name, an executor lists the files
and takes them one by one, each out of the directory before its task is run. -/
namespace Mybox
namespace TaskFiles
open Php

def Plain (name : Str) : Prop := name ≠ [] ∧ '/' ∉ name ∧ name.head? ≠ some '.'

instance (name : Str) : Decidable (Plain name) := inferInstanceAs (Decidable (_ ∧ _ ∧ _))

/-- The functions a program has. Their names are made of letters, digits and the like. -/
structure Functions where
  functionExists : Str → Bool
  plain : ∀ f, functionExists f = true → Plain f

/-- `str_replace("FUNC","",$_name)` -/
def unprefixed (name : Str) : Str := LineText.replaceAll ("FUNC" : Str) [] name

/-- What `_INIT_TASKQ` checks before it calls `_FILE_SAVE`. -/
def initTaskq (fs : Functions) (name : Str) : Bool :=
  if name.head? ≠ some '_' ∧ fs.functionExists name = true then true
  else if name.take 4 = ("FUNC" : Str) then fs.functionExists (unprefixed name)
  else false

def taskqPath : Str := "/var/sys/taskq"

def path (name : Str) : Str := taskqPath ++ '/'::name

def basename (file : Str) : Str := (file.reverse.takeWhile (· ≠ '/')).reverse

/-- The files `_GLOB(_TASKQ_PATH."/*")` finds, in order. -/
def glob (d : Files Str Char) : List Str :=
  (d.entry.sortKeys nameLe).keys.filter fun f =>
    f = path (basename f) ∧ basename f ≠ [] ∧ (basename f).head? ≠ some '.'

/-- Where a call of `_INIT_TASKQ` has got to. -/
inductive Request
  | idle
  | called (name : Str)
  | created (name : Str) (fd : ℕ)
  | written (name : Str) (fd : ℕ)
  | returned (name : Str) (ok : Bool)
  deriving DecidableEq

/-- Where a run of `taskq_exec` has got to; `todo` is what is left of its listing. -/
inductive Executor
  | idle
  | working (todo : List Str)
  /-- The file is unlinked, `_INIT_EXEC` is next. -/
  | about (func : Str) (todo : List Str)
  | inside (func : Str) (todo : List Str)
  | ended

variable {ρ κ : Type} [DecidableEq ρ] [DecidableEq κ]

structure Config (ρ κ : Type) where
  files : Files Str Char
  request : ρ → Request
  executor : κ → Executor

inductive Label (ρ κ : Type)
  | call (r : ρ) (name : Str)
  | create (r : ρ)
  /-- The file cannot be opened. -/
  | refuse (r : ρ)
  | write (r : ρ) (time : Str)
  | close (r : ρ)
  | list (e : κ)
  | unlink (e : κ)
  /-- `_INIT_EXEC` of a name begins. -/
  | exec (e : κ) (func : Str)
  | finish (e : κ)
  | die (e : κ)
  | leave (e : κ)

namespace Config

def setRequest (c : Config ρ κ) (r : ρ) (q : Request) : Config ρ κ :=
  { c with request := Function.update c.request r q }

def setExecutor (c : Config ρ κ) (e : κ) (x : Executor) : Config ρ κ :=
  { c with executor := Function.update c.executor e x }

def setFiles (c : Config ρ κ) (d : Files Str Char) : Config ρ κ := { c with files := d }

end Config

/-- One step of `_INIT_TASKQ` or of `taskq_exec`. -/
def step (fs : ρ → Functions) (c : Config ρ κ) : Label ρ κ → Option (Config ρ κ)
  | .call r name =>
    match c.request r with
    | .idle => some (c.setRequest r (if initTaskq (fs r) name then .called name else .returned name false))
    | _ => none
  | .create r =>
    match c.request r with
    | .called name =>
      let o := c.files.openTrunc (path name)
      some ((c.setFiles o.2).setRequest r (.created name o.1))
    | _ => none
  | .refuse r =>
    match c.request r with
    | .called name => some (c.setRequest r (.returned name false))
    | _ => none
  | .write r time =>
    match c.request r with
    -- written from the start of the file on
    | .created name fd => some ((c.setFiles (c.files.update fd fun s => time ++ s.drop time.length)).setRequest r (.written name fd))
    | _ => none
  | .close r =>
    match c.request r with
    | .written name _ => some (c.setRequest r (.returned name true))
    | _ => none
  | .list e =>
    match c.executor e with
    | .idle => some (c.setExecutor e (.working (glob c.files)))
    | _ => none
  | .unlink e =>
    match c.executor e with
    | .working (file::todo) => some ((c.setFiles (c.files.unlink file)).setExecutor e (.about (basename file) todo))
    | _ => none
  | .exec e func =>
    match c.executor e with
    | .about f todo => if f = func then some (c.setExecutor e (.inside func todo)) else none
    | _ => none
  | .finish e =>
    match c.executor e with
    | .inside _ todo => some (c.setExecutor e (.working todo))
    | _ => none
  | .die e =>
    match c.executor e with
    | .inside .. => some (c.setExecutor e .ended)
    | _ => none
  | .leave e =>
    match c.executor e with
    | .working [] => some (c.setExecutor e .ended)
    | _ => none

/-- Requests and executors in any order; nobody has begun, and there may be files already. -/
def queue (fs : ρ → Functions) : System (Config ρ κ) (Label ρ κ) where
  init c := c.request = (fun _ => .idle) ∧ c.executor = fun _ => .idle
  step c l c' := step fs c l = some c'

variable {fs : ρ → Functions} {c c' : Config ρ κ} {l : Label ρ κ}

theorem basename_path {name : Str} (h : '/' ∉ name) : basename (path name) = name := by
  unfold basename path
  have hr : ∀ a ∈ name.reverse, decide (a ≠ '/') = true := by
    intro a ha
    rw [List.mem_reverse] at ha
    simp only [decide_eq_true_eq]
    rintro rfl
    exact h ha
  rw [List.reverse_append,List.reverse_cons,List.append_assoc,List.takeWhile_append_of_pos hr]
  simp

theorem unprefixed_slash {name : Str} (h : '/' ∈ name) : '/' ∈ unprefixed name := by
  obtain ⟨s,t,rfl⟩ := List.append_of_mem h
  rw [unprefixed,LineText.replaceAll_append_cons [] (by decide) (by decide)]
  simp

theorem initTaskq_plain {fs : Functions} {name : Str} (h : initTaskq fs name = true) : Plain name := by
  unfold initTaskq at h
  split at h
  · rename_i hn
    exact fs.plain name hn.2
  · split at h
    · rename_i hf
      refine ⟨?_,fun hs => (fs.plain _ h).2.1 (unprefixed_slash hs),?_⟩ <;> intro he <;> cases name <;> simp_all [Str.of_ascii]
    · cases h

def Request.task : Request → Option Str
  | .called name | .created name _ | .written name _ | .returned name true => some name
  | _ => none

def Request.made : Request → Option Str
  | .created name _ | .written name _ | .returned name true => some name
  | _ => none

theorem Request.task_of_made {q : Request} {name : Str} (h : q.made = some name) : q.task = some name := by
  unfold Request.made at h
  unfold Request.task
  split at h <;> simp_all

/-- A step is one of a request, which takes no file away, or one of an executor, which is about to run the task
of the file it takes away. -/
theorem step_cases (h : step fs c l = some c') :
    (∃ r q, c'.request = Function.update c.request r q ∧ c'.executor = c.executor ∧
      (∀ f, (c.files.find f).isSome → (c'.files.find f).isSome) ∧
      (∀ name, q.task = some name → (c.request r).task = some name ∨ l = .call r name ∧ '/' ∉ name) ∧
      ∀ name, q.made = some name → (c.request r).made = some name ∨ (c'.files.find (path name)).isSome) ∨
    ∃ e x, c'.request = c.request ∧ c'.executor = Function.update c.executor e x ∧
      (∀ f, (c.files.find f).isSome → (c'.files.find f).isSome ∨ ∃ todo, x = .about (basename f) todo) ∧
      ∀ name todo, c.executor e = .about name todo → l = .exec e name := by
  cases l with
  | call r name =>
    simp only [step] at h
    split at h <;> cases h
    refine Or.inl ⟨r,_,rfl,rfl,fun _ => id,fun name' hq => Or.inr ?_,fun name' hq => ?_⟩
    · split at hq
      · rename_i hi
        obtain rfl : name = name' := by simpa [Request.task] using hq
        exact ⟨rfl,(initTaskq_plain hi).2.1⟩
      · simp [Request.task] at hq
    · split at hq <;> simp [Request.made] at hq
  | create r =>
    simp only [step] at h
    split at h <;> cases h
    rename_i name hr
    have hf : ((c.files.openTrunc (path name)).2.find (path name)).isSome := by
      simp [Files.openTrunc]
    refine Or.inl ⟨r,_,rfl,rfl,fun f hs => ?_,fun name' hq => Or.inl ?_,fun name' hq => Or.inr ?_⟩
    · change ((c.files.openTrunc (path name)).2.find f).isSome
      rw [Files.openTrunc,Files.find_update]
      exact c.files.find_openFile_isSome _ hs
    · rw [hr]
      exact hq
    · obtain rfl : name = name' := by simpa [Request.made] using hq
      exact hf
  | refuse r =>
    simp only [step] at h
    split at h <;> cases h
    exact Or.inl ⟨r,_,rfl,rfl,fun _ => id,fun _ hq => by simp [Request.task] at hq,fun _ hq => by simp [Request.made] at hq⟩
  | write r time =>
    simp only [step] at h
    split at h <;> cases h
    rename_i name fd hr
    refine Or.inl ⟨r,_,rfl,rfl,fun _ => id,fun _ hq => Or.inl ?_,fun _ hq => Or.inl ?_⟩ <;> rw [hr] <;> exact hq
  | close r =>
    simp only [step] at h
    split at h <;> cases h
    rename_i name fd hr
    refine Or.inl ⟨r,_,rfl,rfl,fun _ => id,fun _ hq => Or.inl ?_,fun _ hq => Or.inl ?_⟩ <;> rw [hr] <;> exact hq
  | unlink e =>
    simp only [step] at h
    split at h <;> cases h
    rename_i file todo he
    refine Or.inr ⟨e,_,rfl,rfl,fun f hf => ?_,fun _ _ ha => by rw [he] at ha; cases ha⟩
    change ((c.files.unlink file).find f).isSome ∨ _
    rw [Files.find_unlink]
    split
    · rename_i hff
      exact Or.inr ⟨todo,by rw [hff]⟩
    · exact Or.inl hf
  | exec e func =>
    simp only [step] at h
    split at h
    · rename_i f todo he
      split at h <;> cases h
      rename_i hff
      refine Or.inr ⟨e,_,rfl,rfl,fun _ => Or.inl,fun name _ ha => ?_⟩
      rw [he] at ha
      cases ha
      rw [hff]
    · cases h
  | list e | finish e | die e | leave e =>
    simp only [step] at h
    split at h <;> cases h
    rename_i he
    exact Or.inr ⟨e,_,rfl,rfl,fun _ => Or.inl,fun _ _ ha => by rw [he] at ha; cases ha⟩

def Executed (r : ρ) (name : Str) (ls : List (Label ρ κ)) : Prop :=
  ∃ before after e, ls = before ++ .call r name::after ∧ .exec e name ∈ after

omit [DecidableEq ρ] [DecidableEq κ] in
theorem Executed.snoc {r : ρ} {name : Str} {ls : List (Label ρ κ)} (h : Executed r name ls) (l : Label ρ κ) :
    Executed r name (ls ++ [l]) := by
  obtain ⟨before,after,e,rfl,he⟩ := h
  exact ⟨before,after ++ [l],e,by simp,by simp [he]⟩

omit [DecidableEq ρ] [DecidableEq κ] in
theorem executed_of_call {r : ρ} {name : Str} {ls : List (Label ρ κ)} (h : .call r name ∈ ls) (e : κ) :
    Executed r name (ls ++ [.exec e name]) := by
  obtain ⟨before,after,rfl⟩ := List.append_of_mem h
  exact ⟨before,after ++ [.exec e name],e,by simp,by simp⟩

def Pending (c : Config ρ κ) (name : Str) : Prop :=
  (c.files.find (path name)).isSome ∨ ∃ e todo, c.executor e = .about name todo

theorem step_pending {name : Str} (hn : '/' ∉ name) (hp : Pending c name) (h : step fs c l = some c') :
    Pending c' name ∨ ∃ e, l = .exec e name := by
  obtain ⟨r,q,-,hx,hf,-,-⟩ | ⟨e,x,-,hx,hf,ha⟩ := step_cases h
  · refine Or.inl (hp.imp (hf _) ?_)
    rw [hx]
    exact id
  · rcases hp with hs | ⟨e',todo,he⟩
    · rcases hf _ hs with hs | ⟨todo,rfl⟩
      · exact Or.inl (Or.inl hs)
      · refine Or.inl (Or.inr ⟨e,todo,?_⟩)
        rw [hx,basename_path hn,Function.update_self]
    · by_cases hee : e' = e
      · subst hee
        exact Or.inr ⟨e',ha name todo he⟩
      · refine Or.inl (Or.inr ⟨e',todo,?_⟩)
        rw [hx,Function.update_of_ne hee]
        exact he

/-- What holds of a request that has been let in, and of one that has made its file. -/
structure Kept (ls : List (Label ρ κ)) (c : Config ρ κ) : Prop where
  called : ∀ r name, (c.request r).task = some name → .call r name ∈ ls ∧ '/' ∉ name
  made : ∀ r name, (c.request r).made = some name → Pending c name ∨ Executed r name ls

theorem Kept.step {ls : List (Label ρ κ)} (hk : Kept ls c) (h : step fs c l = some c') : Kept (ls ++ [l]) c' := by
  have hcalled : ∀ r name, (c'.request r).task = some name → .call r name ∈ ls ++ [l] ∧ '/' ∉ name := by
    intro r name hq
    have hold : (c.request r).task = some name → .call r name ∈ ls ++ [l] ∧ '/' ∉ name := fun ho =>
      ⟨List.mem_append_left _ (hk.called r name ho).1,(hk.called r name ho).2⟩
    obtain ⟨r',q,hr,-,-,ht,-⟩ | ⟨e,x,hr,-⟩ := step_cases h
    · rw [hr] at hq
      by_cases hrr : r = r'
      · subst hrr
        rw [Function.update_self] at hq
        rcases ht name hq with ho | ⟨rfl,hn⟩
        · exact hold ho
        · exact ⟨by simp,hn⟩
      · rw [Function.update_of_ne hrr] at hq
        exact hold hq
    · rw [hr] at hq
      exact hold hq
  refine ⟨hcalled,fun r name hq => ?_⟩
  obtain ⟨hc,hn⟩ := hcalled r name (Request.task_of_made hq)
  have hold : (c.request r).made = some name → Pending c' name ∨ Executed r name (ls ++ [l]) := by
    intro ho
    rcases hk.made r name ho with hp | he
    · rcases step_pending hn hp h with hp | ⟨e,rfl⟩
      · exact Or.inl hp
      · exact Or.inr (executed_of_call (hk.called r name (Request.task_of_made ho)).1 e)
    · exact Or.inr (he.snoc l)
  obtain ⟨r',q,hr,-,-,-,hm⟩ | ⟨e,x,hr,-⟩ := step_cases h
  · rw [hr] at hq
    by_cases hrr : r = r'
    · subst hrr
      rw [Function.update_self] at hq
      rcases hm name hq with ho | hs
      · exact hold ho
      · exact Or.inl (Or.inl hs)
    · rw [Function.update_of_ne hrr] at hq
      exact hold hq
  · rw [hr] at hq
    exact hold hq

theorem Kept.run {c₀ : Config ρ κ} {ls : List (Label ρ κ)} (hi : (queue fs).init c₀)
    (h : System.Run (queue fs) c₀ ls c) : Kept ls c := by
  induction h with
  | nil =>
    obtain ⟨hr,-⟩ := hi
    refine ⟨fun r name hq => ?_,fun r name hq => ?_⟩ <;> rw [hr] at hq <;> cases hq
  | snoc _ hs ih => exact ih.step hs

/-- A task whose request has returned TRUE is not lost. -/
theorem task_kept {c₀ : Config ρ κ} {ls : List (Label ρ κ)} (hi : (queue fs).init c₀)
    (h : System.Run (queue fs) c₀ ls c) {r : ρ} {name : Str} (hr : c.request r = .returned name true) :
    (c.files.find (path name)).isSome ∨ (∃ e todo, c.executor e = .about name todo) ∨
      ∃ before after e, ls = before ++ .call r name::after ∧ .exec e name ∈ after := by
  have hm : (c.request r).made = some name := by rw [hr]; rfl
  rcases (Kept.run hi h).made r name hm with (hs | ha) | he
  · exact Or.inl hs
  · exact Or.inr (Or.inl ha)
  · exact Or.inr (Or.inr he)

def policyOnly : Functions where
  functionExists f := f = ("policy_reload" : Str)
  plain f h := by
    rw [decide_eq_true_eq] at h
    subst h
    decide

/-- A second request while an executor has taken the file of the first. -/
def twice : List (Label Bool Unit) :=
  [.call true "policy_reload",.create true,.write true "1",.close true,.list (),.unlink (),.call false "policy_reload",
    .create false,.write false "2",.exec () "policy_reload",.close false]

def atStart : Config Bool Unit := ⟨.empty,fun _ => .idle,fun _ => .idle⟩

def afterTwice : Config Bool Unit := (twice.foldlM (step fun _ => policyOnly) atStart).getD atStart

theorem task_kept_policy_reload : (afterTwice.files.find (path "policy_reload")).isSome ∨
    (∃ e todo, afterTwice.executor e = .about "policy_reload" todo) ∨
      ∃ before after e, twice = before ++ .call true "policy_reload"::after ∧ .exec e "policy_reload" ∈ after :=
  task_kept (show (queue fun _ => policyOnly).init atStart from ⟨rfl,rfl⟩)
    (System.run_of_foldlM (fun _ _ _ => id) (by decide)) (by decide)

end TaskFiles
end Mybox
