import Mybox.SettingsBackup

/-! Version 3.0: a backup put back. The database is moved away and unpacked, and then both sets of settings are unpacked
and gone through; what was done before a step that fails is not all undone. -/
namespace Mybox
namespace BackupRestore
open Php Serialize SettingsBackup

/-- An archive, if there is one, by its members that can be unpacked. -/
structure Backup where
  found : Bool
  db : Option Str
  ips : Option Str
  cf : Option Str

/-- How the steps go. A member that cannot be unpacked may leave something behind, or something may be there from
before. -/
structure Faults where
  renamed : Bool
  back : Bool
  /-- What `tar` exits with when the database cannot be unpacked. -/
  code : ℕ
  failed : code ≠ 0
  left : Option Str
  ipsLeft : Option Str
  cfLeft : Option Str
  writable : Str → Bool

/-- The database and all other files. -/
structure World where
  db : Option Str
  files : Disk

/-- A file that cannot be opened for writing stays as it is. -/
def guarded (writable : Str → Bool) (f : Str → Value → Str → Str) (p : Str) (v : Value) (s : Str) : Str :=
  if writable p then f p v s else s

/-- The first `tar`: what it exits with, and the database it leaves. -/
def unpack (b : Backup) (x : Faults) : ℕ × Option Str :=
  match b.db with
  | some t => (0,some t)
  | none => (x.code,x.left)

/-- `mybox_backup_restore` with 2 for `$opt`. -/
def backupRestore (b : Backup) (x : Faults) (w : World) : ℕ × World :=
  if b.found = true ∧ x.renamed = true ∧ w.db.isSome = true then
    let (ret,db) := unpack b x
    let undone := if x.back then w.db else db
    if ret = 0 then
      let (ret,files) := restoreSetting (guarded x.writable restoreFile) (b.ips.or x.ipsLeft) w.files
      let (ret1,files) := restoreSetting (guarded x.writable restoreList) (b.cf.or x.cfLeft) files
      if ret = true ∧ ret1 = true then (1,⟨db,files⟩) else (ret.toNat,⟨undone,files⟩)
    else (ret,⟨undone,w.files⟩)
  else (0,w)

def contents (s : Str) : Option (List (Key × Value)) :=
  match unserialize (trim s) with
  | some (.arr es) => if es = [] then none else some es
  | _ => none

def replaced (is cs : List (Key × Value)) (p s : Str) : Str := rewritten restoreList cs p (rewritten restoreFile is p s)

/-- The database and the settings are those of the backup. -/
def Replaced (b : Backup) (w w' : World) : Prop :=
  b.db.isSome = true ∧ w'.db = b.db ∧ ∃ is cs, b.ips.bind contents = some is ∧ b.cf.bind contents = some cs ∧
    ∀ p, w'.files.get? p = (w.files.get? p).map (replaced is cs p)

def Unchanged (w w' : World) : Prop := w'.db = w.db ∧ ∀ p, w'.files.get? p = w.files.get? p

/-- Either 1 is returned and everything is replaced, or something else and all is as before. -/
def AllOrNothing (b : Backup) (x : Faults) (w : World) : Prop :=
  ((backupRestore b x w).1 = 1 ∧ Replaced b w (backupRestore b x w).2) ∨
    ((backupRestore b x w).1 ≠ 1 ∧ Unchanged w (backupRestore b x w).2)

/-- What is gone through of a file with settings, when there is anything. -/
def read (file : Option Str) : Option (List (Key × Value)) :=
  match file with
  | none => none
  | some s =>
    let config := unserialize (trim s)
    if count config = 0 then none else some ((config.map Value.each).getD [])

theorem restoreSetting_eq (f : Str → Value → Str → Str) (file : Option Str) (d : Disk) :
    restoreSetting f file d = ((read file).isSome,((read file).getD []).foldl (restoreEntry f) d) := by
  unfold restoreSetting read
  cases file with
  | none => rfl
  | some s =>
    dsimp only
    split <;> rfl

theorem read_contents {s : Str} {es : List (Key × Value)} (h : contents s = some es) : read (some s) = some es := by
  unfold contents at h
  unfold read
  dsimp only
  cases hu : unserialize (trim s) with
  | none =>
    rw [hu] at h
    cases h
  | some v =>
    rw [hu] at h
    cases v with
    | arr fs =>
      dsimp only at h
      obtain ⟨hne,he⟩ := Option.ite_none_left_eq_some.mp h
      obtain rfl := Option.some.inj he
      exact if_neg fun hc => hne (List.length_eq_zero_iff.mp hc)
    | _ => cases h

theorem rewritten_guarded (g : Str → Bool) (f : Str → Value → Str → Str) (es : List (Key × Value)) (p s : Str) :
    rewritten (guarded g f) es p s = if g p = true then rewritten f es p s else s := by
  unfold rewritten
  induction es generalizing s with
  | nil => exact (ite_self s).symm
  | cons e es ih =>
    rw [List.foldl_cons,List.foldl_cons,ih]
    unfold guarded
    cases g p <;> simp

/-- What both sets make of the files, as far as they can be written. -/
theorem get?_both (g : Str → Bool) (is cs : List (Key × Value)) (d : Disk) (p : Str) :
    (cs.foldl (restoreEntry (guarded g restoreList)) (is.foldl (restoreEntry (guarded g restoreFile)) d)).get? p =
      (d.get? p).map fun s => if g p = true then replaced is cs p s else s := by
  rw [get?_foldl_restoreEntry,get?_foldl_restoreEntry,Option.map_map]
  congr 1
  funext s
  rw [Function.comp_apply,rewritten_guarded,rewritten_guarded]
  cases g p <;> rfl

theorem both_iff (g : Str → Bool) (r : Str → Str → Str) (d : Disk) :
    (∀ p, ((d.get? p).map fun s => if g p = true then r p s else s) = (d.get? p).map (r p)) ↔
      ∀ p s, d.get? p = some s → r p s ≠ s → g p = true := by
  refine forall_congr' fun p => ?_
  cases d.get? p with
  | none => exact iff_of_true rfl nofun
  | some s =>
    simp only [Option.map_some,Option.some.injEq,forall_eq']
    cases g p with
    | true => simp
    | false => simpa using eq_comm

theorem same_iff (g : Str → Bool) (r : Str → Str → Str) (d : Disk) :
    (∀ p, ((d.get? p).map fun s => if g p = true then r p s else s) = d.get? p) ↔
      ∀ p s, d.get? p = some s → g p = true → r p s = s := by
  refine forall_congr' fun p => ?_
  cases d.get? p with
  | none => exact iff_of_true rfl nofun
  | some s =>
    simp only [Option.map_some,Option.some.injEq,forall_eq']
    cases g p <;> simp

/-- Both sets are in the backup, and every file that they change can be written. -/
def SetsFit (b : Backup) (x : Faults) (w : World) : Prop :=
  ∃ is cs, b.ips.bind contents = some is ∧ b.cf.bind contents = some cs ∧
    ∀ p s, w.files.get? p = some s → replaced is cs p s ≠ s → x.writable p = true

/-- Nothing of the first set can be read, and the second one changes no file that can be written. -/
def NoneRead (b : Backup) (x : Faults) (w : World) : Prop :=
  read (b.ips.or x.ipsLeft) = none ∧ ∀ p s, w.files.get? p = some s → x.writable p = true →
    rewritten restoreList ((read (b.cf.or x.cfLeft)).getD []) p s = s

/-- The old database comes back, or what is in its place is the same. -/
def DbBack (b : Backup) (x : Faults) (w : World) : Prop := x.back = true ∨ (unpack b x).2 = w.db

theorem read_or {o l : Option Str} {es : List (Key × Value)} (h : o.bind contents = some es) : read (o.or l) = some es := by
  obtain ⟨s,rfl,hs⟩ := Option.bind_eq_some_iff.mp h
  exact read_contents hs

theorem undone_iff (b : Backup) (x : Faults) (w : World) :
    (if x.back = true then w.db else (unpack b x).2) = w.db ↔ DbBack b x w := by
  unfold DbBack
  cases x.back <;> simp

theorem unchanged_refl (w : World) : Unchanged w w := ⟨rfl,fun _ => rfl⟩

section Steps

variable {b : Backup} {x : Faults} {w : World}

theorem backupRestore_closed (h : ¬(b.found = true ∧ x.renamed = true ∧ w.db.isSome = true)) :
    backupRestore b x w = (0,w) := if_neg h

theorem backupRestore_damaged (h : b.found = true ∧ x.renamed = true ∧ w.db.isSome = true) (hd : b.db = none) :
    backupRestore b x w = (x.code,⟨if x.back = true then w.db else (unpack b x).2,w.files⟩) := by
  have hu : unpack b x = (x.code,x.left) := by rw [unpack,hd]
  unfold backupRestore
  rw [if_pos h,hu]
  exact if_neg x.failed

def after (b : Backup) (x : Faults) (w : World) : Disk :=
  ((read (b.cf.or x.cfLeft)).getD []).foldl (restoreEntry (guarded x.writable restoreList))
    (((read (b.ips.or x.ipsLeft)).getD []).foldl (restoreEntry (guarded x.writable restoreFile)) w.files)

theorem backupRestore_unpacked (h : b.found = true ∧ x.renamed = true ∧ w.db.isSome = true) {t : Str}
    (hd : b.db = some t) : backupRestore b x w =
      if (read (b.ips.or x.ipsLeft)).isSome = true ∧ (read (b.cf.or x.cfLeft)).isSome = true then
        (1,⟨some t,after b x w⟩)
      else ((read (b.ips.or x.ipsLeft)).isSome.toNat,⟨if x.back = true then w.db else (unpack b x).2,after b x w⟩) := by
  have hu : unpack b x = (0,some t) := by rw [unpack,hd]
  unfold backupRestore
  simp only [if_pos h,hu,restoreSetting_eq]
  rfl

theorem replaced_iff {t : Str} (hd : b.db = some t) {is cs : List (Key × Value)} (hi : read (b.ips.or x.ipsLeft) = some is)
    (hc : read (b.cf.or x.cfLeft) = some cs) : Replaced b w ⟨some t,after b x w⟩ ↔ SetsFit b x w := by
  have hget : ∀ p, (after b x w).get? p = (w.files.get? p).map fun s => if x.writable p = true then replaced is cs p s else s := by
    intro p
    rw [after,hi,hc]
    exact get?_both x.writable is cs w.files p
  unfold Replaced SetsFit
  rw [and_iff_right (by rw [hd]; rfl),and_iff_right hd.symm]
  refine exists_congr fun is' => exists_congr fun cs' => and_congr_right fun h1 => and_congr_right fun h2 => ?_
  obtain rfl := Option.some.inj (hi.symm.trans (read_or h1))
  obtain rfl := Option.some.inj (hc.symm.trans (read_or h2))
  rw [← both_iff]
  exact forall_congr' fun p => by rw [hget p]

theorem unchanged_iff (hi : read (b.ips.or x.ipsLeft) = none) :
    Unchanged w ⟨if x.back = true then w.db else (unpack b x).2,after b x w⟩ ↔ NoneRead b x w ∧ DbBack b x w := by
  have hget : ∀ p, (after b x w).get? p = (w.files.get? p).map fun s => if x.writable p = true then
      rewritten restoreList ((read (b.cf.or x.cfLeft)).getD []) p s else s := by
    intro p
    rw [after,hi]
    exact get?_both x.writable [] _ w.files p
  unfold Unchanged NoneRead
  rw [and_iff_right hi,undone_iff,← same_iff,and_comm]
  refine and_congr_left fun _ => forall_congr' fun p => ?_
  rw [hget p]

end Steps

/-- Restoring is all or nothing exactly when it fails before anything is unpacked; when the database cannot be unpacked,
`tar` exits with another code than 1 and the old one comes back; and when it can, both sets are whole and can be
written, or nothing is read of the first and done with the second one, and the old database comes back. -/
theorem restore_allOrNothing_iff (b : Backup) (x : Faults) (w : World) : AllOrNothing b x w ↔
    (b.found = true → x.renamed = true → w.db.isSome = true →
      (b.db = none → x.code ≠ 1 ∧ DbBack b x w) ∧
      (b.db ≠ none → SetsFit b x w ∨ (NoneRead b x w ∧ DbBack b x w))) := by
  by_cases ho : b.found = true ∧ x.renamed = true ∧ w.db.isSome = true
  swap
  · unfold AllOrNothing
    rw [backupRestore_closed ho]
    exact iff_of_true (Or.inr ⟨Nat.zero_ne_one,unchanged_refl w⟩) fun h1 h2 h3 => absurd ⟨h1,h2,h3⟩ ho
  rw [imp_iff_right ho.1,imp_iff_right ho.2.1,imp_iff_right ho.2.2]
  unfold AllOrNothing
  cases hd : b.db with
  | none =>
    have hn : ¬Replaced b w ⟨if x.back = true then w.db else (unpack b x).2,w.files⟩ := by
      rintro ⟨hs,-⟩
      rw [hd] at hs
      cases hs
    rw [backupRestore_damaged ho hd]
    dsimp only
    rw [or_iff_right fun h => hn h.2,and_iff_left fun h => absurd rfl h,imp_iff_right rfl]
    exact and_congr_right fun _ => (and_iff_left fun _ => rfl).trans (undone_iff b x w)
  | some t =>
    have hfit : SetsFit b x w → ∃ is cs, read (b.ips.or x.ipsLeft) = some is ∧ read (b.cf.or x.cfLeft) = some cs :=
      fun ⟨is,cs,hi,hc,_⟩ => ⟨is,cs,read_or hi,read_or hc⟩
    have hv : some t = none → x.code ≠ 1 ∧ DbBack b x w := nofun
    rw [backupRestore_unpacked ho hd,and_iff_right hv,imp_iff_right (Option.some_ne_none t)]
    cases hi : read (b.ips.or x.ipsLeft) with
    | none =>
      have hno : ¬SetsFit b x w := fun h => by
        obtain ⟨is,-,hr,-⟩ := hfit h
        rw [hi] at hr
        cases hr
      rw [if_neg fun h => Bool.false_ne_true h.1,or_iff_right hno]
      have hz : ∀ w', ¬(0 = 1 ∧ Replaced b w w') := fun _ h => Nat.zero_ne_one h.1
      exact (or_iff_right (hz _)).trans ((and_iff_right Nat.zero_ne_one).trans (unchanged_iff hi))
    | some is =>
      have hread : ¬NoneRead b x w := fun h => by
        rw [h.1] at hi
        cases hi
      rw [or_iff_left (b:=NoneRead b x w ∧ DbBack b x w) fun h => hread h.1]
      cases hc : read (b.cf.or x.cfLeft) with
      | none =>
        have hno : ¬SetsFit b x w := fun h => by
          obtain ⟨-,cs,-,hr⟩ := hfit h
          rw [hc] at hr
          cases hr
        have hrep : ∀ w', ¬Replaced b w w' := by
          rintro w' ⟨-,-,is,cs,-,hcs,-⟩
          rw [read_or hcs] at hc
          cases hc
        rw [if_neg fun h => Bool.false_ne_true h.2]
        exact iff_of_false (fun h => h.elim (fun h => hrep _ h.2) fun h => h.1 rfl) hno
      | some cs =>
        rw [if_pos ⟨rfl,rfl⟩,or_iff_left fun h => h.1 rfl,and_iff_right rfl]
        exact replaced_iff hd hi hc

/-- A backup without the set of the content filter. -/
def incomplete : Backup := ⟨true,some "new",some "a:1:\x7bs:1:\"x\";a:0:\x7b\x7d\x7d",none⟩

def smooth : Faults := ⟨true,true,2,by decide,none,none,none,fun _ => true⟩

/-- 1 is returned, and the old database is in place. -/
theorem incomplete_restored : ¬AllOrNothing incomplete smooth ⟨some "old",∅⟩ := by
  have hr : (backupRestore incomplete smooth ⟨some "old",∅⟩).1 = 1 := by decide
  rintro (h | h)
  · obtain ⟨-,-,is,cs,-,hc,-⟩ := h.2
    cases hc
  · exact h.1 hr

end BackupRestore
end Mybox
