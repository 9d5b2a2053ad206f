import Mybox.Inodes
import Mybox.Stdio
import Mybox.Runs
import Mathlib.Data.List.Flatten

/-! The task queue of version 3.0. Processes append commands to one file; the daemon moves the file away, reads
it line by line, removes it and runs what it has read. -/
namespace Mybox
namespace CommandQueue
open Stdio

def mfsque : Text := "/var/sys/mfsque".toList

def mfsqueP : Text := "/var/sys/mfsque.p".toList

def cString (s : Text) : Text := s.takeWhile (· ≠ '\x00')

/-- What `read_config` stores of a line; nothing of a blank one. -/
def stored (buff : Text) : Option Text :=
  if strip (cString buff) = [] then none else some (strip (cString buff))

/-- The commands `read_config` finds in a text. -/
def commands (s : Text) : List Text := (pieces 149 149 [] s).filterMap stored

/-- `mybox_append_to_file`; the command itself is that of the process. -/
inductive Writer
  | idle
  | opened (fd : ℕ)
  | written (fd : ℕ)
  | closed
  deriving DecidableEq

/-- The loop of `taskq_main`. -/
inductive Daemon
  | waiting
  /-- The queue file exists. -/
  | found
  | renamed
  | reading (fd off : ℕ) (listq : List Text)
  | finished (listq : List Text)
  | running (todo : List Text)
  /-- The end of `listq` has been written over. -/
  | overrun
  deriving DecidableEq

/-- The rest of the round after a call of `fgets`. -/
def afterLine (fd off : ℕ) (listq : List Text) : Option Text → Daemon
  | none => .reading fd off listq
  -- the index is not checked, and there is room for 150
  | some x => if listq.length < 150 then .reading fd off (listq ++ [x]) else .overrun

variable {ω : Type}

structure Config (ω : Type) where
  files : Files Text Char
  writer : ω → Writer
  daemon : Daemon
  /-- The processes whose append has completed. -/
  completed : List ω
  /-- What `run_query` has been called with. -/
  executed : List Text

inductive Label (ω : Type)
  | open (w : ω)
  | write (w : ω)
  | close (w : ω)
  | exists
  | rename
  | renameFails
  | fopen
  | fopenFails
  | fgets
  | eof
  | unlink
  | run
  | free

variable [DecidableEq ω]

/-- One step of a process that appends its command, or of the daemon. -/
def step (cmd : ω → Text) (c : Config ω) : Label ω → Option (Config ω)
  | .open w =>
    match c.writer w with
    | .idle => some { c with
        files := (c.files.openFile mfsque).2
        writer := Function.update c.writer w (.opened (c.files.openFile mfsque).1) }
    | _ => none
  | .write w =>
    match c.writer w with
    | .opened fd => some { c with
        files := c.files.update fd (· ++ (cmd w ++ ['\n']))
        writer := Function.update c.writer w (.written fd) }
    | _ => none
  | .close w =>
    match c.writer w with
    | .written _ => some { c with writer := Function.update c.writer w .closed, completed := w::c.completed }
    | _ => none
  | .exists =>
    match c.daemon with
    | .waiting => some { c with daemon := if (c.files.find mfsque).isSome then .found else .waiting }
    | _ => none
  | .rename =>
    match c.daemon, c.files.rename mfsque mfsqueP with
    | .found, some d => some { c with files := d, daemon := .renamed }
    | _, _ => none
  | .renameFails =>
    match c.daemon with
    | .found => some { c with daemon := .finished [] }
    | _ => none
  | .fopen =>
    match c.daemon, c.files.find mfsqueP with
    | .renamed, some fd => some { c with daemon := .reading fd 0 [] }
    | _, _ => none
  | .fopenFails =>
    match c.daemon with
    | .renamed => some { c with daemon := .finished [] }
    | _ => none
  | .fgets =>
    match c.daemon with
    | .reading fd off listq =>
      let rest := (c.files.text fd).drop off
      if rest = [] then none
      else some { c with daemon := afterLine fd (off + (fgets 149 rest).length) listq (stored (fgets 149 rest)) }
    | _ => none
  | .eof =>
    match c.daemon with
    | .reading fd off listq => if (c.files.text fd).drop off = [] then some { c with daemon := .finished listq } else none
    | _ => none
  | .unlink =>
    match c.daemon with
    | .finished listq => some { c with files := c.files.unlink mfsqueP, daemon := .running listq }
    | _ => none
  | .run =>
    match c.daemon with
    | .running (x::todo) => some { c with daemon := .running todo, executed := c.executed ++ [x] }
    | _ => none
  | .free =>
    match c.daemon with
    | .running [] => some { c with daemon := .waiting }
    | _ => none

/-- The processes and the daemon in any order, under a condition on the steps. -/
def queue (cmd : ω → Text) (guard : Config ω → Label ω → Prop) : System (Config ω) (Label ω) where
  init c := c = ⟨.empty,fun _ => .idle,.waiting,[],[]⟩
  step c l c' := guard c l ∧ step cmd c l = some c'

/-- What the daemon has still to read of the renamed file. -/
def unread (c : Config ω) : Text :=
  match c.daemon with
  | .renamed => c.files.read mfsqueP
  | .reading fd off _ => (c.files.text fd).drop off
  | _ => []

def batch (c : Config ω) : List Text :=
  match c.daemon with
  | .reading _ _ listq => listq
  | .finished listq => listq
  | .running todo => todo
  | _ => []

/-- The commands that are in the queue file, in the unread part of the renamed one, in the batch, or have been
run. -/
def accounted (c : Config ω) : List Text :=
  commands (c.files.read mfsque) ++ commands (unread c) ++ batch c ++ c.executed

/-- Every command whose append has completed is somewhere, and as often as it has been appended. -/
def NoneLost (cmd : ω → Text) (c : Config ω) : Prop :=
  (c.completed.flatMap fun w => commands (cmd w ++ ['\n'])).Subperm (accounted c)

/-- Whether the daemon has the renamed file to read. -/
def Daemon.hasFile : Daemon → Bool
  | .renamed | .reading .. => true
  | _ => false

def Daemon.position : Daemon → Option (ℕ × ℕ × List Text)
  | .reading fd off listq => some (fd,off,listq)
  | _ => none

def Writer.target : Writer → Option ℕ
  | .opened fd => some fd
  | _ => none

/-- The file is the queue, or the renamed one before the daemon has come to its end. -/
def Awaited (c : Config ω) (fd : ℕ) : Prop :=
  c.files.find mfsque = some fd ∨ c.files.find mfsqueP = some fd ∧ c.daemon.hasFile = true

instance (c : Config ω) (fd : ℕ) : Decidable (Awaited c fd) := inferInstanceAs (Decidable (_ ∨ _))

/-- No command is written to a file that will not be read any more, no more than 150 commands are read at
once, and the renamed file can be opened if there are commands in it. -/
def Safe (c : Config ω) : Label ω → Prop
  | .write w => ∀ fd ∈ (c.writer w).target, Awaited c fd
  | .fgets => ∀ p ∈ c.daemon.position, stored (fgets 149 ((c.files.text p.1).drop p.2.1)) = none ∨ p.2.2.length < 150
  | .fopenFails => commands (c.files.read mfsqueP) = []
  | _ => True

instance (c : Config ω) : (l : Label ω) → Decidable (Safe c l)
  | .write w => inferInstanceAs (Decidable (∀ fd ∈ (c.writer w).target, Awaited c fd))
  | .fgets => inferInstanceAs (Decidable (∀ p ∈ c.daemon.position, _ ∨ _))
  | .fopenFails => inferInstanceAs (Decidable (_ = _))
  | .open _ | .close _ | .exists | .rename | .renameFails | .fopen | .eof | .unlink | .run | .free =>
    inferInstanceAs (Decidable True)

def Ended (s : Text) : Prop := s = [] ∨ s.getLast? = some '\n'

theorem ended_append (s t : Text) : Ended (s ++ (t ++ ['\n'])) := Or.inr (by simp)

theorem Ended.drop {s : Text} (h : Ended s) (n : ℕ) : Ended (s.drop n) := by
  by_cases hn : s.length ≤ n
  · exact Or.inl (List.drop_eq_nil_of_le hn)
  · rcases h with rfl | h
    · simp at hn
    · refine Or.inr ?_
      rw [List.getLast?_drop,if_neg hn]
      exact h

theorem commands_nil : commands [] = [] := rfl

theorem commands_append {s : Text} (h : Ended s) (t : Text) : commands (s ++ t) = commands s ++ commands t := by
  rcases h with rfl | h
  · rfl
  · rw [commands,pieces_append 149 149 [] h t,List.filterMap_append]
    rfl

theorem commands_fgets {s : Text} (h : s ≠ []) : commands s =
    (stored (fgets 149 s)).toList ++ commands (s.drop (fgets 149 s).length) := by
  rw [commands,pieces_fgets 149 149 [] h,List.nil_append,List.filterMap_cons]
  cases stored (fgets 149 s) <;> rfl

variable {cmd : ω → Text} {c c' : Config ω} {l : Label ω}

def taken (cmd : ω → Text) (w : ω) : List Text := commands (cmd w ++ ['\n'])

def added (cmd : ω → Text) : Label ω → List Text
  | .write w => taken cmd w
  | _ => []

/-- The files hold whole lines, and the daemon reads the renamed one. -/
structure Lines (c : Config ω) : Prop where
  queue : Ended (c.files.read mfsque)
  rest : Ended (unread c)
  reading : ∀ fd off listq, c.daemon = .reading fd off listq →
    c.files.find mfsqueP = some fd ∧ off ≤ (c.files.text fd).length

theorem mfsque_ne : mfsque ≠ mfsqueP := by decide

theorem Lines.openFile {w : ω} (hl : Lines c) (h : step cmd c (.open w) = some c') :
    Lines c' ∧ accounted c' = accounted c := by
  simp only [CommandQueue.step] at h
  split at h <;> cases h
  have hq : (c.files.openFile mfsque).2.read mfsque = c.files.read mfsque := c.files.read_openFile_self mfsque
  have hp : (c.files.openFile mfsque).2.read mfsqueP = c.files.read mfsqueP :=
    c.files.read_openFile_ne mfsque_ne
  have hf : (c.files.openFile mfsque).2.find mfsqueP = c.files.find mfsqueP :=
    c.files.find_openFile_ne mfsque_ne
  have hr : ∀ fd off listq, c.daemon = .reading fd off listq →
      (c.files.openFile mfsque).2.text fd = c.files.text fd := fun fd off listq hd =>
    c.files.text_openFile mfsque (c.files.find_lt (hl.reading fd off listq hd).1)
  have hu : ∀ v, unread { c with files := (c.files.openFile mfsque).2, writer := v } = unread c := by
    intro v
    unfold unread
    cases hd : c.daemon with
    | renamed => exact hp
    | reading fd off listq => exact congrArg (List.drop off) (hr fd off listq hd)
    | _ => rfl
  refine ⟨⟨?_,?_,fun fd off listq hd => ?_⟩,?_⟩
  · rw [hq]
    exact hl.queue
  · rw [hu]
    exact hl.rest
  · rw [hf,hr fd off listq hd]
    exact hl.reading fd off listq hd
  · unfold accounted
    rw [hq,hu]
    rfl

theorem Lines.write {w : ω} (hl : Lines c) (hs : Safe c (.write w)) (h : step cmd c (.write w) = some c') :
    Lines c' ∧ (accounted c').Perm (taken cmd w ++ accounted c) := by
  simp only [CommandQueue.step] at h
  split at h <;> cases h
  rename_i fd hw
  rcases hs fd (by rw [hw]; rfl) with hq | ⟨hp,hd⟩
  · have hp : c.files.find mfsqueP ≠ some fd := fun hp => mfsque_ne (c.files.single _ _ _ hq hp)
    have hrq := c.files.read_update_self (· ++ (cmd w ++ ['\n'])) hq
    have hrp := c.files.read_update_ne (· ++ (cmd w ++ ['\n'])) hp
    have hr : ∀ fd' off listq, c.daemon = .reading fd' off listq →
        (c.files.update fd (· ++ (cmd w ++ ['\n']))).text fd' = c.files.text fd' := fun fd' off listq hd =>
      c.files.text_update_ne _ fun he => hp (he ▸ (hl.reading fd' off listq hd).1)
    have hu : ∀ v, unread { c with files := c.files.update fd (· ++ (cmd w ++ ['\n'])), writer := v } = unread c := by
      intro v
      unfold unread
      cases hd : c.daemon with
      | renamed => exact hrp
      | reading fd off listq => exact congrArg (List.drop off) (hr fd off listq hd)
      | _ => rfl
    refine ⟨⟨?_,?_,fun fd' off listq hd => ?_⟩,?_⟩
    · rw [hrq]
      exact ended_append _ _
    · rw [hu]
      exact hl.rest
    · rw [hr fd' off listq hd]
      exact hl.reading fd' off listq hd
    · unfold accounted
      rw [hrq,hu,commands_append hl.queue]
      simp only [List.append_assoc]
      exact List.perm_append_comm_assoc ..
  · have hq : c.files.find mfsque ≠ some fd := fun hq => mfsque_ne (c.files.single _ _ _ hq hp)
    have hrq := c.files.read_update_ne (· ++ (cmd w ++ ['\n'])) hq
    have hrp := c.files.read_update_self (· ++ (cmd w ++ ['\n'])) hp
    have hu : ∀ v, unread { c with files := c.files.update fd (· ++ (cmd w ++ ['\n'])), writer := v } =
        unread c ++ (cmd w ++ ['\n']) := by
      intro v
      unfold unread
      cases hd' : c.daemon with
      | renamed => exact hrp
      | reading fd' off listq =>
        obtain ⟨hf,ho⟩ := hl.reading fd' off listq hd'
        obtain rfl : fd = fd' := Option.some.inj (hp.symm.trans hf)
        simp only [Files.text_update_self]
        exact List.drop_append_of_le_length ho
      | waiting | found | finished | running | overrun =>
        rw [hd'] at hd
        cases hd
    refine ⟨⟨?_,?_,fun fd' off listq hd => ?_⟩,?_⟩
    · rw [hrq]
      exact hl.queue
    · rw [hu]
      exact ended_append _ _
    · obtain ⟨hf,ho⟩ := hl.reading fd' off listq hd
      obtain rfl : fd = fd' := Option.some.inj (hp.symm.trans hf)
      refine ⟨hf,?_⟩
      rw [Files.text_update_self,List.length_append]
      exact Nat.le_add_right_of_le ho
    · unfold accounted
      rw [hrq,hu,commands_append hl.rest]
      simp only [List.append_assoc]
      rw [← List.append_assoc (commands (c.files.read mfsque))]
      refine (List.perm_append_comm_assoc ..).trans ?_
      rw [List.append_assoc]
      exact List.Perm.refl _

theorem Lines.rename (hl : Lines c) (h : step cmd c .rename = some c') :
    Lines c' ∧ accounted c' = accounted c := by
  simp only [CommandQueue.step] at h
  split at h
  · rename_i d hd hr
    cases h
    obtain ⟨hp,-,hq⟩ := c.files.read_rename mfsque_ne hr
    have hn : unread c = [] := by simp [unread,hd]
    have hu : unread { c with files := d, daemon := .renamed } = c.files.read mfsque := hp
    refine ⟨⟨?_,?_,fun fd off listq hd => by cases hd⟩,?_⟩
    · exact Or.inl hq
    · rw [hu]
      exact hl.queue
    · unfold accounted
      rw [hu,hn,hq]
      simp [batch,hd,commands_nil]
  · cases h

theorem Lines.fgets (hl : Lines c) (hs : Safe c .fgets) (h : step cmd c .fgets = some c') :
    Lines c' ∧ (accounted c').Perm (accounted c) := by
  simp only [CommandQueue.step] at h
  split at h
  · rename_i fd off listq hd
    split at h
    · cases h
    · rename_i hne
      cases h
      obtain ⟨hf,ho⟩ := hl.reading fd off listq hd
      let buff := Stdio.fgets 149 ((c.files.text fd).drop off)
      have hb : buff.length ≤ ((c.files.text fd).drop off).length := fgets_length_le 149 _
      have hu : unread c = (c.files.text fd).drop off := by simp [unread,hd]
      have hx : ∃ xs : List Text, (stored buff).toList = xs ∧
          afterLine fd (off + buff.length) listq (stored buff) = .reading fd (off + buff.length) (listq ++ xs) := by
        cases hx : stored buff with
        | none => exact ⟨[],rfl,by simp [afterLine]⟩
        | some x =>
          refine ⟨[x],rfl,if_pos ?_⟩
          exact (hs (fd,off,listq) (by rw [hd]; rfl)).resolve_left (by rw [hx]; simp)
      obtain ⟨xs,hxs,ha⟩ := hx
      change Lines { c with daemon := afterLine fd (off + buff.length) listq (stored buff) } ∧
        (accounted { c with daemon := afterLine fd (off + buff.length) listq (stored buff) }).Perm _
      rw [ha]
      have hu' : unread { c with daemon := .reading fd (off + buff.length) (listq ++ xs) } =
          ((c.files.text fd).drop off).drop buff.length := by
        rw [List.drop_drop]
        rfl
      have hr := hl.rest
      rw [hu] at hr
      refine ⟨⟨hl.queue,?_,fun fd' off' listq' hd' => ?_⟩,?_⟩
      · rw [hu']
        exact hr.drop _
      · cases hd'
        rw [List.length_drop] at hb
        exact ⟨hf,show off + buff.length ≤ (c.files.text fd).length by omega⟩
      · have hc : commands (unread c) = xs ++ commands (((c.files.text fd).drop off).drop buff.length) := by
          rw [hu,commands_fgets hne,← hxs]
        unfold accounted
        rw [hu',hc]
        have hbt : batch c = listq := by simp [batch,hd]
        rw [hbt]
        change (_ ++ _ ++ (listq ++ xs) ++ _).Perm _
        simp only [List.append_assoc]
        refine List.Perm.append_left _ ?_
        rw [← List.append_assoc _ listq,← List.append_assoc _ listq]
        exact (List.perm_append_comm_assoc ..)
  · cases h

omit [DecidableEq ω] in
/-- A step of the daemon that leaves the queue, and of the rest what is accounted for. -/
theorem Lines.quiet (hl : Lines c) (hq : c'.files.read mfsque = c.files.read mfsque) (he : Ended (unread c'))
    (hr : ∀ fd off listq, c'.daemon = .reading fd off listq →
      c'.files.find mfsqueP = some fd ∧ off ≤ (c'.files.text fd).length)
    (hu : commands (unread c') = commands (unread c))
    (hb : (batch c' ++ c'.executed).Perm (batch c ++ c.executed)) :
    Lines c' ∧ (accounted c').Perm (accounted c) := by
  refine ⟨⟨hq ▸ hl.queue,he,hr⟩,?_⟩
  unfold accounted
  rw [hq,hu,List.append_assoc _ (batch c'),List.append_assoc _ (batch c)]
  exact hb.append_left _

theorem Lines.step (hl : Lines c) (hs : Safe c l) (h : step cmd c l = some c') :
    Lines c' ∧ (accounted c').Perm (added cmd l ++ accounted c) := by
  cases l with
  | «open» w => exact (hl.openFile h).imp_right fun he => .of_eq he
  | write w => exact hl.write hs h
  | rename => exact (hl.rename h).imp_right fun he => .of_eq he
  | fgets => exact hl.fgets hs h
  | close w =>
    simp only [CommandQueue.step] at h
    split at h <;> cases h
    exact hl.quiet rfl hl.rest hl.reading rfl (.refl _)
  | «exists» =>
    simp only [CommandQueue.step] at h
    split at h <;> cases h
    rename_i hd
    split
    · exact hl.quiet rfl (Or.inl rfl) (fun _ _ _ h => by cases h) (by simp [unread,hd]) (by simp [batch,hd])
    · exact hl.quiet rfl (Or.inl rfl) (fun _ _ _ h => by cases h) (by simp [unread,hd]) (by simp [batch,hd])
  | renameFails =>
    simp only [CommandQueue.step] at h
    split at h <;> cases h
    rename_i hd
    exact hl.quiet rfl (Or.inl rfl) (fun _ _ _ h => by cases h) (by simp [unread,hd]) (by simp [batch,hd])
  | fopen =>
    simp only [CommandQueue.step] at h
    split at h
    · rename_i fd hd hf
      cases h
      have hu : unread { c with daemon := .reading fd 0 [] } = unread c := by
        simp [unread,hd,c.files.read_eq hf]
      exact hl.quiet rfl (hu ▸ hl.rest) (fun _ _ _ h => by cases h; exact ⟨hf,Nat.zero_le _⟩)
        (congrArg commands hu) (by simp [batch,hd])
    · cases h
  | fopenFails =>
    simp only [CommandQueue.step] at h
    split at h <;> cases h
    rename_i hd
    have hc : commands (unread c) = [] := by
      rw [unread,hd]
      exact hs
    exact hl.quiet rfl (Or.inl rfl) (fun _ _ _ h => by cases h) hc.symm (by simp [batch,hd])
  | eof =>
    simp only [CommandQueue.step] at h
    split at h
    · rename_i fd off listq hd
      split at h <;> cases h
      rename_i he
      have hu : unread c = [] := by simp [unread,hd,he]
      exact hl.quiet rfl (Or.inl rfl) (fun _ _ _ h => by cases h) (by rw [hu]; rfl) (by simp [batch,hd])
    · cases h
  | unlink =>
    simp only [CommandQueue.step] at h
    split at h <;> cases h
    rename_i listq hd
    exact hl.quiet (c.files.read_unlink_ne mfsque_ne.symm) (Or.inl rfl) (fun _ _ _ h => by cases h)
      (by simp [unread,hd]) (by simp [batch,hd])
  | run =>
    simp only [CommandQueue.step] at h
    split at h <;> cases h
    rename_i x todo hd
    refine hl.quiet rfl (Or.inl rfl) (fun _ _ _ h => by cases h) (by simp [unread,hd]) ?_
    have hb : batch c = x::todo := by simp [batch,hd]
    rw [hb]
    change (todo ++ (c.executed ++ [x])).Perm _
    rw [← List.append_assoc]
    exact List.perm_append_singleton x _
  | free =>
    simp only [CommandQueue.step] at h
    split at h <;> cases h
    rename_i hd
    exact hl.quiet rfl (Or.inl rfl) (fun _ _ _ h => by cases h) (by simp [unread,hd]) (by simp [batch,hd])

def Writer.hasWritten : Writer → Bool
  | .written _ | .closed => true
  | _ => false

def writes : Label ω → List ω
  | .write w => [w]
  | _ => []

/-- Each process has written once if it has come that far, and the completed appends are those that are closed. -/
structure Once (ws : List ω) (c : Config ω) : Prop where
  written : ws.Nodup ∧ ∀ w, w ∈ ws ↔ (c.writer w).hasWritten = true
  closed : c.completed.Nodup ∧ ∀ w, w ∈ c.completed ↔ c.writer w = .closed

theorem Once.step {ws : List ω} (ho : Once ws c) (h : CommandQueue.step cmd c l = some c') : Once (writes l ++ ws) c' := by
  obtain ⟨⟨hwn,hw⟩,hcn,hc⟩ := ho
  cases l with
  | «open» w =>
    simp only [CommandQueue.step] at h
    split at h <;> cases h
    rename_i hi
    refine ⟨⟨hwn,fun v => ?_⟩,hcn,fun v => ?_⟩
    · by_cases hv : v = w
      · subst hv
        simp [writes,hw,hi,Writer.hasWritten]
      · simp [writes,hw,Function.update_of_ne hv]
    · by_cases hv : v = w
      · subst hv
        simp [hc,hi]
      · simp [hc,Function.update_of_ne hv]
  | write w =>
    simp only [CommandQueue.step] at h
    split at h <;> cases h
    rename_i fd hi
    have hnw : w ∉ ws := fun hm => by
      have := (hw w).mp hm
      rw [hi] at this
      cases this
    refine ⟨⟨List.nodup_cons.mpr ⟨hnw,hwn⟩,fun v => ?_⟩,hcn,fun v => ?_⟩
    · by_cases hv : v = w
      · subst hv
        simp [writes,Writer.hasWritten]
      · simp [writes,hw,hv]
    · by_cases hv : v = w
      · subst hv
        simp [hc,hi]
      · simp [hc,Function.update_of_ne hv]
  | close w =>
    simp only [CommandQueue.step] at h
    split at h <;> cases h
    rename_i fd hi
    have hnc : w ∉ c.completed := fun hm => by
      have := (hc w).mp hm
      rw [hi] at this
      cases this
    refine ⟨⟨hwn,fun v => ?_⟩,List.nodup_cons.mpr ⟨hnc,hcn⟩,fun v => ?_⟩
    · by_cases hv : v = w
      · subst hv
        simp [writes,hw,hi,Writer.hasWritten]
      · simp [writes,hw,Function.update_of_ne hv]
    · by_cases hv : v = w
      · subst hv
        simp
      · simp [hc,hv]
  | rename =>
    simp only [CommandQueue.step] at h
    split at h <;> cases h
    exact ⟨⟨hwn,hw⟩,hcn,hc⟩
  | fopen =>
    simp only [CommandQueue.step] at h
    split at h <;> cases h
    exact ⟨⟨hwn,hw⟩,hcn,hc⟩
  | fgets | eof =>
    simp only [CommandQueue.step] at h
    split at h
    · split at h <;> cases h
      exact ⟨⟨hwn,hw⟩,hcn,hc⟩
    · cases h
  | «exists» | renameFails | fopenFails | unlink | run | free =>
    simp only [CommandQueue.step] at h
    split at h <;> cases h
    exact ⟨⟨hwn,hw⟩,hcn,hc⟩

omit [DecidableEq ω] in
theorem writes_taken (cmd : ω → Text) (l : Label ω) : (writes l).flatMap (taken cmd) = added cmd l := by
  cases l <;> simp [writes,added]

theorem safe_run {c₀ : Config ω} {ls : List (Label ω)} (hi : (queue cmd Safe).init c₀)
    (h : System.Run (queue cmd Safe) c₀ ls c) :
    Lines c ∧ ∃ ws, Once ws c ∧ (accounted c).Perm (ws.flatMap (taken cmd)) := by
  induction h with
  | nil =>
    subst hi
    exact ⟨⟨Or.inl rfl,Or.inl rfl,fun _ _ _ h => by cases h⟩,[],⟨⟨.nil,by simp [Writer.hasWritten]⟩,.nil,by simp⟩,.refl _⟩
  | @snoc ls t u l _ hs ih =>
    obtain ⟨hl,ws,ho,hp⟩ := ih
    obtain ⟨hl',hp'⟩ := hl.step hs.1 hs.2
    refine ⟨hl',writes l ++ ws,ho.step hs.2,?_⟩
    rw [List.flatMap_append,writes_taken]
    exact hp'.trans (hp.append_left _)

/-- No command is lost in a run whose steps are all safe. -/
theorem none_lost {c₀ : Config ω} {ls : List (Label ω)} (hi : (queue cmd Safe).init c₀)
    (h : System.Run (queue cmd Safe) c₀ ls c) : NoneLost cmd c := by
  obtain ⟨-,ws,⟨⟨-,hw⟩,hcn,hc⟩,hp⟩ := safe_run hi h
  have hsub : c.completed ⊆ ws := fun w hm => by
    rw [hw,(hc w).mp hm]
    rfl
  obtain ⟨vs,hvs,hl⟩ := List.subperm_of_subset hcn hsub
  have hv : (c.completed.flatMap (taken cmd)).Perm (vs.flatMap (taken cmd)) := hvs.symm.flatMap_right _
  exact hv.subperm.trans ((hl.flatMap _).subperm.trans hp.symm.subperm)

def atStart : Config Bool := ⟨.empty,fun _ => .idle,.waiting,[],[]⟩

def restarts : Bool → Text
  | true => "policy-restart".toList
  | false => "dns-restart".toList

/-- The second process has the queue file open when the daemon moves it away, and writes before it is read. -/
def inTime : List (Label Bool) :=
  [.open true,.write true,.open false,.close true,.exists,.rename,.fopen,.fgets,.write false,.fgets,.eof,.unlink,
    .close false,.run]

/-- Where a schedule leads if all its steps are safe. -/
def safely (cmd : ω → Text) (c : Config ω) (l : Label ω) : Option (Config ω) :=
  if Safe c l then step cmd c l else none

theorem safely_step (h : safely cmd c l = some c') : (queue cmd Safe).step c l c' := by
  unfold safely at h
  split at h
  · rename_i hs
    exact ⟨hs,h⟩
  · cases h

theorem none_lost_restarts : NoneLost restarts ((inTime.foldlM (safely restarts) atStart).getD atStart) :=
  none_lost (show (queue restarts Safe).init atStart from rfl) (System.run_of_foldlM (fun _ _ _ => safely_step) (by decide))

def tooLate : List (Label Bool) := [.open true,.exists,.rename,.fopen,.eof,.unlink,.write true,.close true]

theorem command_lost : ¬ ∀ (cmd : Bool → Text) (c₀ c : Config Bool) (ls : List (Label Bool)),
    (∀ w, (cmd w).length ≤ 100) → (queue cmd fun _ _ => True).init c₀ →
      System.Run (queue cmd fun _ _ => True) c₀ ls c → NoneLost cmd c := by
  intro h
  have hr : System.Run (queue restarts fun _ _ => True) atStart tooLate
      ((tooLate.foldlM (CommandQueue.step restarts) atStart).getD atStart) :=
    System.run_of_foldlM (S := queue restarts fun _ _ => True) (fun _ _ _ h => ⟨trivial,h⟩) (by decide)
  exact absurd (h restarts atStart _ tooLate (by decide) rfl hr) (by unfold NoneLost; decide)

end CommandQueue
end Mybox
