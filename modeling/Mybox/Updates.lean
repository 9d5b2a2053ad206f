import Mybox.OrderedMap
import Mybox.Versions
import Mathlib.Data.List.Dedup
import Mathlib.Data.List.Perm.Subperm

/-! Firmware updates: `_UPDATE_INSTALL` checks the control file of every package in the update directory,
keeps the accepted ones in an array under their times, and installs what the array holds. -/
namespace Mybox
namespace Updates

open Php Versions

/-- The control file of a package. -/
structure Control where
  version : Str
  build : Str
  time : ℤ
  postInstall : Str
  reboot : Bool
  deriving DecidableEq

def Control.full (c : Control) : Str := c.version ++ '.'::c.build

/-- What a run finds and does not change. A package goes by its file name without `.mpu`. -/
structure Box where
  /-- `/etc/version_core` and `/etc/firmware`. -/
  core : Str
  build : Str
  /-- `SAVE_DOWNLOAD` of `update.cfg` is 1. -/
  save : Bool
  /-- The control file inside a package, where it can be read. -/
  inside : Str → Option Control
  /-- Whether a package can be unpacked. -/
  unpacks : Str → Bool
  /-- Whether the pattern `a.*` covers the files of `b`. -/
  covers : Str → Str → Bool

structure Disk where
  /-- The packages in the update directory. -/
  mpu : List Str
  nodup : mpu.Nodup
  /-- The control files kept in `info-cache/update`. -/
  control : Str → Option Control
  firmwareVersion : Option Str

variable (box : Box)

/-- `_UNLINK(_UPDATE_PATH."/{$_file}.*")` and the same in `info-cache/update`. -/
def unlinkPackage (x : Str) (d : Disk) : Disk :=
  { d with mpu := d.mpu.filter fun y => !box.covers x y, nodup := d.nodup.filter _ }

def unlinkInfo (x : Str) (d : Disk) : Disk :=
  { d with control := fun y => if box.covers x y then none else d.control y }

def updateKeepFile (x : Str) (d : Disk) : Disk :=
  if box.save then unlinkInfo box x { d with mpu := d.mpu.filter (· ≠ x), nodup := d.nodup.filter _ }
  else unlinkInfo box x (unlinkPackage box x d)

inductive Verdict
  | missing
  | accepted (c : Control)
  | installed
  | corrupted
  deriving DecidableEq

def updateReadControl (x : Str) (d : Disk) : Verdict × Disk :=
  if x ∉ d.mpu then (.missing,d)
  else
    match (d.control x).or (box.inside x) with
    | some c =>
      if !null c.version && !null c.build then
        if versionCompare (box.core ++ '.'::box.build) c.full then
          (.accepted c,{ d with control := Function.update d.control x (some c) })
        else (.installed,updateKeepFile box x d)
      else (.corrupted,unlinkInfo box x (unlinkPackage box x d))
    | none => (.corrupted,unlinkInfo box x (unlinkPackage box x d))

/-- An element of `$_cbuff`. -/
structure Line where
  /-- `VERSION`; the text `build-BUILD` behind it is for the messages only. -/
  version : Str
  build : Str
  postInstall : Str
  file : Str
  reboot : Bool
  deriving DecidableEq

def Control.line (c : Control) (x : Str) : Line := ⟨c.version,c.build,c.postInstall,x,c.reboot⟩

structure Run where
  disk : Disk
  reboot : Bool
  install : ℕ
  /-- What has been installed, with its time, first one first. -/
  applied : List (ℤ × Line)

/-- `_GLOB(_UPDATE_PATH."/*.mpu")` -/
def glob (d : Disk) : List Str := d.mpu.mergeSort fun x y => nameLe (x ++ Str.of ".mpu") (y ++ Str.of ".mpu")

def verdicts : List Str → Disk → List (Str × Verdict)
  | [], _ => []
  | x::xs, d => (x,(updateReadControl box x d).1)::verdicts xs (updateReadControl box x d).2

/-- The packages accepted, in the order of the directory. -/
def accepted (xs : List Str) (d : Disk) : List (Str × Control) :=
  (verdicts box xs d).filterMap fun v => match v.2 with
    | .accepted c => some (v.1,c)
    | _ => none

/-- Whether the verdict on `x` takes the file of `y` away. -/
def Verdict.removes (v : Verdict) (x y : Str) : Bool :=
  match v with
  | installed => if box.save then x = y else box.covers x y
  | corrupted => box.covers x y
  | _ => false

/-- Whether installing `x` takes the file of `y` away. -/
def installRemoves (x y : Str) : Bool := if box.save then x = y else box.covers x y

def entry (a : Str × Control) : ℤ × Line := (a.2.time,a.2.line a.1)

variable {box}

def Line.full (l : Line) : Str := l.version ++ '.'::l.build

/-- Every accepted package is installed once, in the order of the times, and the version left is that of an
installed package than which none of the others is later. -/
structure Complete (acc : List (Str × Control)) (r : Run) : Prop where
  once : ∀ a ∈ acc, (r.applied.map fun e => e.2.file).count a.1 = 1
  ordered : (r.applied.map Prod.fst).Pairwise (· ≤ ·)
  version : r.applied ≠ [] → ∃ p ∈ r.applied, r.disk.firmwareVersion = some p.2.build ∧
    ∀ q ∈ r.applied, versionCompare p.2.full q.2.full = false

/-- The accepted packages can be unpacked, have increasing times in the order of their names, and none of their
files goes with another package; the last one has the build of a latest one. -/
structure Ready (box : Box) (vs : List (Str × Verdict)) (acc : List (Str × Control)) : Prop where
  times : (acc.map fun a => a.2.time).Pairwise (· < ·)
  unpacks : ∀ a ∈ acc, box.unpacks a.1 = true
  rejected : ∀ a ∈ acc, ∀ v ∈ vs, v.2.removes box v.1 a.1 = false
  installed : acc.Pairwise fun a b => installRemoves box a.1 b.1 = false
  last : ∀ l ∈ acc.getLast?, ∃ p ∈ acc, p.2.build = l.2.build ∧
    ∀ q ∈ acc, versionCompare p.2.full q.2.full = false

theorem setAll_subset (es : List (ℤ × Line)) : ((∅ : OrdMap ℤ Line).setAll es).entries ⊆ es := by
  suffices h : ∀ (es : List (ℤ × Line)) (m : OrdMap ℤ Line), ∀ e ∈ (m.setAll es).entries,
      e ∈ m.entries ∨ e ∈ es by
    exact fun e he => (h es ∅ e he).resolve_left (by simp)
  intro es
  induction es with
  | nil => exact fun m e he => Or.inl he
  | cons a es ih =>
    intro m e he
    rw [OrdMap.setAll_cons] at he
    rcases ih _ e he with h | h
    · rcases OrdMap.mem_set h with rfl | h
      · exact Or.inr (by simp)
      · exact Or.inl h
    · exact Or.inr (List.mem_cons_of_mem a h)

theorem setAll_length_le (es : List (ℤ × Line)) :
    ((∅ : OrdMap ℤ Line).setAll es).entries.length ≤ (es.map Prod.fst).dedup.length := by
  have hnodup : ((∅ : OrdMap ℤ Line).setAll es).keys.Nodup := OrdMap.nodup _
  have hsub : ((∅ : OrdMap ℤ Line).setAll es).keys ⊆ (es.map Prod.fst).dedup := fun k hk =>
    List.mem_dedup.mpr (List.map_subset _ (setAll_subset es) hk)
  have hle := (List.Nodup.subperm hnodup hsub).length_le
  simpa [OrdMap.keys] using hle

theorem map_fst_entry (acc : List (Str × Control)) :
    (acc.map entry).map Prod.fst = acc.map fun a => a.2.time := by
  simp [entry,Function.comp_def]

theorem map_file_entry (acc : List (Str × Control)) :
    (acc.map entry).map (fun e => e.2.file) = acc.map Prod.fst := by
  simp [entry,Control.line,Function.comp_def]

theorem setAll_entries_times {acc : List (Str × Control)} (h : (acc.map fun a => a.2.time).Nodup) :
    ((∅ : OrdMap ℤ Line).setAll (acc.map entry)).entries = acc.map entry := by
  rw [OrdMap.setAll_entries_fresh _ _ (by rwa [map_fst_entry]) (by simp [OrdMap.keys])]
  rfl

/-- When every accepted package is installed once, nothing in the array has been overwritten, and all of it is
installed. -/
theorem once_iff {acc : List (Str × Control)} {l : List (ℤ × Line)} (hacc : (acc.map Prod.fst).Nodup)
    (hl : l.Sublist ((∅ : OrdMap ℤ Line).setAll (acc.map entry)).entries) :
    (∀ a ∈ acc, (l.map fun e => e.2.file).count a.1 = 1) ↔
      (acc.map fun a => a.2.time).Nodup ∧ l = acc.map entry := by
  constructor
  · intro h
    have hsub : acc.map Prod.fst ⊆ l.map fun e => e.2.file := by
      intro x hx
      obtain ⟨a,ha,rfl⟩ := List.mem_map.mp hx
      exact List.count_pos_iff.mp (by rw [h a ha]; exact Nat.one_pos)
    have hlen : acc.length ≤ l.length := by simpa using (List.Nodup.subperm hacc hsub).length_le
    have hle := hl.length_le.trans (setAll_length_le (acc.map entry))
    have hdedup := (List.dedup_sublist (acc.map fun a => a.2.time)).length_le
    rw [map_fst_entry] at hle
    rw [List.length_map] at hdedup
    have heq : (acc.map fun a => a.2.time).dedup = acc.map fun a => a.2.time :=
      (List.dedup_sublist _).eq_of_length_le (by rw [List.length_map]; omega)
    have htimes : (acc.map fun a => a.2.time).Nodup := List.dedup_eq_self.mp heq
    rw [setAll_entries_times htimes] at hl
    exact ⟨htimes,hl.eq_of_length_le (by simpa using hlen)⟩
  · rintro ⟨-,rfl⟩ a ha
    rw [map_file_entry]
    exact List.count_eq_one_of_mem hacc (List.mem_map_of_mem ha)

/-- Firmware 3.1.08.1, with updates 3.1.08.9 and 3.1.08.10 in the directory. -/
def november : Box where
  core := Str.of "3.1"
  build := Str.of "08.1"
  save := true
  inside := fun x =>
    if x = Str.of "u-08.10" then some ⟨Str.of "3.1",Str.of "08.10",200,[],false⟩
    else if x = Str.of "u-08.9" then some ⟨Str.of "3.1",Str.of "08.9",100,[],false⟩
    else none
  unpacks := fun _ => true
  covers := fun x y => x == y

end Updates
end Mybox
