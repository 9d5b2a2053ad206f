import Mathlib.Algebra.BigOperators.Group.Finset.Basic
import Mathlib.Algebra.Order.BigOperators.Group.List
import Mathlib.Algebra.Order.Group.Nat
import Mathlib.Data.Finset.Lattice.Fold
import Mathlib.Data.Finset.Sort
import Mathlib.Order.Lattice.Nat
import Mybox.Backups
import Mybox.StorageShell

/-! The storage viewer: the command that shows a file and the one that lists a directory. Two file systems that are the
same at and below `/config` should look the same through both. -/
namespace Mybox
namespace StorageViewer

open Php DirTree StorageShell
open Backups (pad)

/-- What the decompressing stream reads from a file, its size and its time. -/
structure File where
  data : Str
  size : ℕ
  mtime : ℕ

/-- The trees are the same at and below `/config`. -/
def SameStore (t t' : FileTree File) : Prop := ∀ p, Stored p → t.node p = t'.node p

variable (fits : Str → Bool)

/-- What a path stands for; the system takes no path that does not fit. -/
def found (t : FileTree File) (cwd : Pos) (path : Str) : Option Pos := if fits path then t.resolve cwd path else none

def fileGet (t : FileTree File) (cwd : Pos) (path : Str) : Str :=
  match (found fits t cwd path).bind t.node with
  | some (.file f) => trim f.data
  | _ => []

def refused (file : Str) : Bool :=
  ("/" : Str).isPrefixOf file || (".." : Str).isPrefixOf file || ("./." : Str).isPrefixOf file

def notThere : Str := "%% File does not exist !!\n"

def fileread (t : FileTree File) (file : Str) : Str :=
  if null file then []
  else if refused file || (found fits t [] ("/config/" ++ file)).isNone then notThere
  else fileGet fits t [] ("/config/" ++ file)

def way (cwd : Pos) (path : Str) : List Pos := visited (start cwd path) (components path)

def aim (cwd : Pos) (path : Str) : Pos := goal (start cwd path) (components path)

/-- The path is refused, or it comes by nothing but the root and what is at or below `/config`. -/
def FileInside (file : Str) : Prop :=
  null file = true ∨ refused file = true ∨ fits ("/config/" ++ file) = false ∨
    ∀ x ∈ way [] ("/config/" ++ file), x = [] ∨ Stored x

instance (file : Str) : Decidable (FileInside fits file) := by
  unfold FileInside
  infer_instance

variable {fits}

theorem start_isSome {κ : Type} {t : FileTree κ} {cwd : Pos} (hc : t.isDir cwd = true) (path : Str) :
    (t.node (start cwd path)).isSome = true := by
  rw [start]
  split
  · exact isSome_of_isDir isDir_root
  · exact isSome_of_isDir hc

theorem resolve_eq {κ : Type} {t : FileTree κ} {cwd : Pos} {path : Str} (h : path ≠ []) :
    t.resolve cwd path = t.walk (start cwd path) (components path) := if_neg h

theorem config_ne (file : Str) : ("/config/" : Str) ++ file ≠ [] := by simp [Str.of_ascii]

theorem found_congr {t t' : FileTree File} {cwd : Pos} {path : Str} (hp : path ≠ [])
    (h : ∀ x ∈ way cwd path, t.node x = t'.node x) : found fits t cwd path = found fits t' cwd path := by
  rw [found,found,resolve_eq hp,resolve_eq hp,walk_congr h]

theorem found_aim {t : FileTree File} {cwd : Pos} {path : Str} (hc : t.isDir cwd = true) {q : Pos}
    (h : found fits t cwd path = some q) : q = aim cwd path := by
  rw [found] at h
  split at h
  · rw [FileTree.resolve] at h
    split at h
    · cases h
    · exact ((walk_eq_some (start_isSome hc path)).mp h).1
  · cases h

theorem fileGet_congr {t t' : FileTree File} {path : Str} (hp : path ≠ [])
    (h : ∀ x ∈ way [] path, t.node x = t'.node x) : fileGet fits t [] path = fileGet fits t' [] path := by
  have he : (found fits t [] path).bind t.node = (found fits t' [] path).bind t'.node := by
    rw [found_congr hp h]
    cases hq : found fits t' [] path with
    | none => rfl
    | some q =>
      obtain rfl := found_aim isDir_root hq
      exact h _ (goal_mem_visited _ _)
  rw [fileGet,fileGet,he]

theorem stored_concat {p : Pos} {n : Name} (h : Stored (p ++ [n])) : p = [] ∨ Stored p := by
  cases p with
  | nil => exact Or.inl rfl
  | cons m p => exact Or.inr h

/-- The root, and what is at or below `/config`. -/
def rootOrStored (t : FileTree File) : FileTree File :=
  t.restrict (fun p => p = [] ∨ Stored p) (Or.inl rfl) fun _ _ h => stored_concat (h.resolve_left (by simp))

theorem rootOrStored_same (t : FileTree File) : SameStore t (rootOrStored t) := fun p hp =>
  (if_pos (Or.inr hp) : (rootOrStored t).node p = t.node p).symm

theorem fileread_inside {file : Str} (h : FileInside fits file) {t t' : FileTree File} (hs : SameStore t t') :
    fileread fits t file = fileread fits t' file := by
  unfold fileread
  rcases h with h | h | h | h
  · rw [if_pos h,if_pos h]
  · rw [h]
    rfl
  · have hg : ∀ u : FileTree File, found fits u [] ("/config/" ++ file) = none := fun u => by
      rw [found,h]
      rfl
    rw [hg,hg,Option.isNone_none,Bool.or_true,if_pos rfl,if_pos rfl]
  · have hx : ∀ x ∈ way [] ("/config/" ++ file), t.node x = t'.node x := by
      intro x hx
      rcases h x hx with rfl | hx
      · rw [t.root,t'.root]
      · exact hs x hx
    rw [found_congr (config_ne file) hx,fileGet_congr (config_ne file) hx]

theorem notThere_ne : notThere ≠ [] := by decide

/-- The file command shows only what is at or below `/config` exactly when the path is refused or stays there. -/
theorem fileread_iff (file : Str) :
    (∀ t t' : FileTree File, SameStore t t' → fileread fits t file = fileread fits t' file) ↔ FileInside fits file := by
  refine ⟨fun h => ?_,fun h t t' => fileread_inside h⟩
  by_contra hn
  simp only [FileInside,not_or,Bool.not_eq_true,Bool.not_eq_false] at hn
  obtain ⟨hnull,href,hfits,hout⟩ := hn
  have hne := config_ne file
  -- every position on the way is a directory, or only those at or below `/config`
  have hdirs : ∀ x ∈ way [] ("/config/" ++ file), (ofLists (way [] ("/config/" ++ file)) [] ⟨[],0,0⟩ : FileTree File).isDir x =
      true := fun x hx => ofLists_isDir.mpr (Or.inr ⟨x,hx,List.prefix_rfl⟩)
  generalize (ofLists (way [] ("/config/" ++ file)) [] ⟨[],0,0⟩ : FileTree File) = t at hdirs
  have hthere : found fits t [] ("/config/" ++ file) = some (aim [] ("/config/" ++ file)) := by
    rw [found,hfits,if_pos rfl,resolve_eq hne]
    refine (walk_eq_some (start_isSome isDir_root _)).mpr ⟨rfl,fun x hx => hdirs x ?_,?_⟩
    · exact List.mem_append_left _ hx
    · exact isSome_of_isDir (hdirs _ (goal_mem_visited _ _))
  have hgone : found fits (rootOrStored t) [] ("/config/" ++ file) = none := by
    rw [found,hfits,if_pos rfl,resolve_eq hne,Option.eq_none_iff_forall_ne_some]
    intro q hq
    obtain ⟨rfl,htr,hend⟩ := (walk_eq_some (start_isSome isDir_root _)).mp hq
    refine hout fun x hx => ?_
    have hsome : ((rootOrStored t).node x).isSome = true := by
      rcases List.mem_append.mp hx with hx | hx
      · exact isSome_of_isDir (htr x hx)
      · rwa [List.mem_singleton.mp hx]
    by_contra hk
    rw [show (rootOrStored t).node x = none from if_neg hk] at hsome
    cases hsome
  have hcontent : fileGet fits t [] ("/config/" ++ file) = [] := by
    rw [fileGet,hthere]
    have hd := isDir_iff.mp (hdirs _ (goal_mem_visited _ _))
    change (match t.node (aim [] ("/config/" ++ file)) with | some (.file f) => trim f.data | _ => []) = []
    rw [show t.node (aim [] ("/config/" ++ file)) = some .dir from hd]
  have hboth := h t (rootOrStored t) (rootOrStored_same t)
  rw [fileread,fileread,hthere,hgone,hnull,href,hcontent] at hboth
  exact notThere_ne hboth.symm

/-- What the shell may take for something else in a word. -/
def special : Str := " \t\n\\$&|;<>()*?[\x22\x27\x60\x7b"

/-- The shell hands the name on as it is, and `du` takes it for a file. -/
def PlainName (n : Name) : Prop := (∀ c ∈ n, c ∉ special) ∧ n.head? ∉ [some '~',some '#',some '-']

instance (n : Name) : Decidable (PlainName n) := inferInstanceAs (Decidable (_ ∧ _))

/-- A file system. The directories at and below `/config` have names the shell leaves alone: `du` gets them unquoted. -/
structure Disk where
  tree : FileTree File
  /-- The size and the time of a directory itself. -/
  own : Pos → ℕ × ℕ
  entries : Finset Pos
  mem_entries : ∀ {p}, p ∈ entries ↔ (tree.node p).isSome = true
  names : ∀ {p}, p ∈ entries → ∀ n ∈ p, Proper n ∧ '/' ∉ n
  plain : ∀ {p}, tree.isDir p = true → Stored p → ∀ n ∈ p, PlainName n

def NameLe (a b : Name) : Prop := nameLe a b = true

instance (a b : Name) : Decidable (NameLe a b) := inferInstanceAs (Decidable (_ = true))

instance nameLe_isTrans : IsTrans Name NameLe := ⟨fun _ _ _ => nameLe_trans⟩

instance nameLe_isAntisymm : Std.Antisymm NameLe := ⟨fun _ _ => nameLe_antisymm⟩

instance nameLe_isTotal : Std.Total NameLe := ⟨nameLe_total⟩

/-- `_GLOB("*")` in a directory -/
def Disk.glob (k : Disk) (p : Pos) : List Name :=
  (((k.entries.filter fun q => q ≠ [] ∧ q.dropLast = p).image fun q => q.getLast?.getD []).filter
    fun n => n.head? ≠ some '.').sort NameLe

def Disk.stat (k : Disk) (p : Pos) : ℕ × ℕ :=
  match k.tree.node p with
  | some (.file f) => (f.size,f.mtime)
  | _ => k.own p

/-- `du -bs --time`: the size of all that is there, and the last time anything of it was changed. -/
def Disk.du (k : Disk) (p : Pos) : ℕ × ℕ :=
  ((k.entries.filter (p <+: ·)).sum fun q => (k.stat q).1,(k.entries.filter (p <+: ·)).sup fun q => (k.stat q).2)

structure Info where
  size : ℕ
  mtime : ℕ
  ftype : Char

/-- `/\.gz$/` -/
def compressed (n : Name) : Bool := (".gz" : Str).isSuffixOf n || (".gz\n" : Str).isSuffixOf n

def Disk.getstat (k : Disk) (p : Pos) (n : Name) : Option Info :=
  (k.tree.node (p ++ [n])).map fun x =>
    if x.isDir then ⟨(k.du (p ++ [n])).1,(k.du (p ++ [n])).2,'D'⟩
    else ⟨(k.stat (p ++ [n])).1,(k.stat (p ++ [n])).2,if compressed n then 'C' else 'F'⟩

def pathTrim (n : Str) : Str :=
  LineText.replaceAll "//" "/" (LineText.replaceAll ".." [] (LineText.replaceAll "/.." [] (LineText.replaceAll "/config" [] n)))

/-- `_BYTE_FORMAT` with no decimals; `s` is what the size has been divided by. -/
def byteFormatFrom (n s : ℕ) : List Str → Str
  | [] => []
  | [u] => decimal ((2*n + s)/(2*s)) ++ u
  | u::v::us => if n > 1024*s then byteFormatFrom n (1024*s) (v::us) else decimal ((2*n + s)/(2*s)) ++ u

def units : List Str := ["B","kB","MB","GB","TB","PB","EB","ZB","YB"]

def byteFormat (n : ℕ) : Str := byteFormatFrom n 1 units

structure Row where
  date : Str
  size : Str
  ftype : Char
  item : Str

inductive Shown
  | invalid
  | noData
  | table (rows : List Row)

def months : List Str := ["Jan","Feb","Mar","Apr","May","Jun","Jul","Aug","Sep","Oct","Nov","Dec"]

/-- `date('d-M-Y H:i:s')`, where `zone` gives the seconds of the local time. -/
def date (zone : ℕ → ℕ) (s : ℕ) : Str :=
  let t := Calendar.ofSeconds (zone s)
  pad 2 t.day ++ '-' :: months.getD (t.month - 1) [] ++ '-' :: pad 4 t.year ++ ' ' :: pad 2 t.hour ++
    ':' :: pad 2 t.minute ++ ':' :: pad 2 (zone s % 60)

variable (zone : ℕ → ℕ)

def Disk.rows (k : Disk) (p : Pos) : List Row :=
  (k.glob p).filterMap fun n => (k.getstat p n).map fun i => ⟨date zone i.mtime,byteFormat i.size,i.ftype,pathTrim n⟩

def Disk.list (k : Disk) (p : Pos) : Shown := if (k.rows zone p).isEmpty then .noData else .table (k.rows zone p)

variable (fits)

/-- `___CLI_VSTORAGE_CHECKDIRS`: the answer, and the directory one is in then. -/
def checkdirs (k : Disk) (cwd : Pos) (dirs : Str) : Bool × Pos := dochdir k.tree (fun _ => fits) cwd dirs

def Disk.dirs (k : Disk) (cwd : Pos) (dirs : Str) : Shown :=
  if null dirs then k.list zone cwd
  else if dirs.take 7 = Str.of "/config" then .noData
  else
    let first := checkdirs fits k cwd dirs
    if first.1 then k.list zone first.2
    else
      let second := checkdirs fits k first.2 ("/config/" ++ dirs)
      if second.1 then k.list zone second.2 else .noData

/-- `___CLI_VSTORAGE_CHROOT`: the directory one is in then. -/
def chroot (k : Disk) (cwd : Pos) : Option Pos :=
  if prefixed cwd then some cwd else if k.tree.isDir ["config"] then some ["config"] else none

/-- `_CLI_TRIM_ARGS` -/
def trimArg (v : Str) : Str := if null v || v == Str.of "NULL" then [] else v

/-- `_cli_vstorage` with the words `dirs` and `arg` -/
def Disk.vstorage (k : Disk) (cwd : Pos) (arg : Str) : Shown :=
  match chroot k cwd with
  | none => .invalid
  | some base => k.dirs fits zone base (trimArg arg)

/-- Two disks are the same at and below `/config`. -/
def SameDisk (k k' : Disk) : Prop := SameStore k.tree k'.tree ∧ ∀ p, Stored p → k.own p = k'.own p

def Fair (ds : List Pos) : Prop :=
  (∀ p ∈ ds, ∀ n ∈ p, Proper n ∧ '/' ∉ n) ∧ ∀ p ∈ ds, Stored p → ∀ n ∈ p, PlainName n

instance (ds : List Pos) : Decidable (Fair ds) := inferInstanceAs (Decidable (_ ∧ _))

def home (cwd : Pos) : Pos := if prefixed cwd then cwd else ["config"]

def Openable (cwd : Pos) (path : Str) : Prop :=
  fits path = true ∧ prefixed (aim cwd path) = true ∧ ∀ x ∈ way cwd path, Stored x → ∀ n ∈ x, PlainName n

instance (cwd : Pos) (path : Str) : Decidable (Openable fits cwd path) := inferInstanceAs (Decidable (_ ∧ _))

/-- What is on every disk with these directories, and what is at or below `/config`. -/
def Known (cwd x : Pos) : Prop := Stored x ∨ x <+: cwd

instance (cwd x : Pos) : Decidable (Known cwd x) := inferInstanceAs (Decidable (_ ∨ _))

/-- The path comes by nothing else on its way to something at or below `/config`. -/
def Inside (cwd base : Pos) (path : Str) : Prop := Stored (aim base path) ∧ ∀ x ∈ way base path, Known cwd x

instance (cwd base : Pos) (path : Str) : Decidable (Inside cwd base path) := inferInstanceAs (Decidable (_ ∧ _))

/-- Where there is all of `ws`, there is all of `vs`. -/
def Covered (cwd : Pos) (vs ws : List Pos) : Prop := ∀ x ∈ vs, x <+: cwd ∨ x <+: home cwd ∨ ∃ y ∈ ws, x <+: y

instance (cwd : Pos) (vs ws : List Pos) : Decidable (Covered cwd vs ws) := by
  unfold Covered
  infer_instance

/-- What is shown is at or below `/config`, whether the path is taken as it is or from `/config`, and what decides
between the two is so too, or it makes no difference. -/
def PathInside (cwd : Pos) (dirs : Str) : Prop :=
  (Openable fits (home cwd) dirs → Inside cwd (home cwd) dirs ∨
    Openable fits [] ("/config/" ++ dirs) ∧ Inside cwd [] ("/config/" ++ dirs) ∧
      aim (home cwd) dirs = aim [] ("/config/" ++ dirs) ∧
      Covered cwd (way [] ("/config/" ++ dirs)) (way (home cwd) dirs)) ∧
  (Openable fits [] ("/config/" ++ dirs) → Inside cwd [] ("/config/" ++ dirs) ∨
    Openable fits (home cwd) dirs ∧ Covered cwd (way (home cwd) dirs) (way [] ("/config/" ++ dirs)))

instance (cwd : Pos) (dirs : Str) : Decidable (PathInside fits cwd dirs) := by
  unfold PathInside
  infer_instance

def DirInside (cwd : Pos) (arg : Str) : Prop :=
  if null (trimArg arg) then Stored (home cwd)
  else (trimArg arg).take 7 = Str.of "/config" ∨ PathInside fits cwd (trimArg arg)

instance (cwd : Pos) (arg : Str) : Decidable (DirInside fits cwd arg) := by
  unfold DirInside
  infer_instance

variable {fits zone} {k k' : Disk} {cwd p : Pos} {dirs : Str}

theorem mem_glob {n : Name} : n ∈ k.glob p ↔ p ++ [n] ∈ k.entries ∧ n.head? ≠ some '.' := by
  rw [Disk.glob,Finset.mem_sort,Finset.mem_filter,Finset.mem_image]
  refine and_congr_left fun _ => ⟨?_,fun h => ⟨p ++ [n],?_,by simp⟩⟩
  · rintro ⟨q,hq,rfl⟩
    obtain ⟨hm,hne,rfl⟩ := Finset.mem_filter.mp hq
    rw [List.getLast?_eq_some_getLast hne,Option.getD_some,List.dropLast_append_getLast hne]
    exact hm
  · exact Finset.mem_filter.mpr ⟨h,by simp,List.dropLast_concat⟩

theorem filter_congr_disk (h : SameDisk k k') {f : Pos → Prop} [DecidablePred f] (hf : ∀ q, f q → Stored q) :
    k.entries.filter f = k'.entries.filter f :=
  Finset.filter_inj.mpr fun q hq => by rw [k.mem_entries,k'.mem_entries,h.1 q (hf q hq)]

theorem glob_congr (h : SameDisk k k') (hp : Stored p) : k.glob p = k'.glob p := by
  rw [Disk.glob,Disk.glob,filter_congr_disk h]
  rintro q ⟨-,rfl⟩
  exact hp.mono (List.dropLast_prefix q)

theorem stat_congr (h : SameDisk k k') (hp : Stored p) : k.stat p = k'.stat p := by
  rw [Disk.stat,Disk.stat,h.1 p hp,h.2 p hp]

theorem du_congr (h : SameDisk k k') (hp : Stored p) : k.du p = k'.du p := by
  have hs : ∀ q ∈ k'.entries.filter (p <+: ·), k.stat q = k'.stat q := fun q hq =>
    stat_congr h (hp.mono (Finset.mem_filter.mp hq).2)
  rw [Disk.du,Disk.du,filter_congr_disk h fun q hq => hp.mono hq]
  exact Prod.ext (Finset.sum_congr rfl fun q hq => congrArg Prod.fst (hs q hq))
    (Finset.sup_congr rfl fun q hq => congrArg Prod.snd (hs q hq))

theorem list_congr (h : SameDisk k k') (hp : Stored p) : k.list zone p = k'.list zone p := by
  have hr : k.rows zone p = k'.rows zone p := by
    rw [Disk.rows,Disk.rows,glob_congr h hp]
    refine List.filterMap_congr fun n _ => ?_
    have hn : Stored (p ++ [n]) := hp.mono (List.prefix_append p [n])
    rw [Disk.getstat,Disk.getstat,h.1 _ hn,du_congr h hn,stat_congr h hn]
  rw [Disk.list,Disk.list,hr]

def Opens (fits : Str → Bool) (k : Disk) (cwd : Pos) (path : Str) : Prop :=
  fits path = true ∧ prefixed (aim cwd path) = true ∧ ∀ x ∈ way cwd path, k.tree.isDir x = true

instance (k : Disk) (cwd : Pos) (path : Str) : Decidable (Opens fits k cwd path) := inferInstanceAs (Decidable (_ ∧ _))

theorem Opens.openable {path : Str} (h : Opens fits k cwd path) : Openable fits cwd path :=
  ⟨h.1,h.2.1,fun x hx => k.plain (h.2.2 x hx)⟩

theorem checkdirs_spec (hc : k.tree.isDir cwd = true) {path : Str} (hp : path ≠ []) :
    ((checkdirs fits k cwd path).1 = true ↔ Opens fits k cwd path) ∧
      (Opens fits k cwd path → (checkdirs fits k cwd path).2 = aim cwd path) := by
  have hw : ∀ q, chdir k.tree (fun _ => fits) cwd path = some q ↔
      fits path = true ∧ q = aim cwd path ∧ ∀ x ∈ way cwd path, k.tree.isDir x = true := by
    intro q
    rw [chdir]
    split
    · rename_i hf
      rw [resolve_eq hp,walk_dir_iff (start_isSome hc path)]
      exact (and_iff_right hf).symm
    · rename_i hf
      exact iff_of_false (Option.some_ne_none q).symm fun h => hf h.1
  rw [checkdirs,dochdir]
  cases hq : chdir k.tree (fun _ => fits) cwd path with
  | none =>
    have hn : ¬Opens fits k cwd path := fun h => by
      have := (hw _).mpr ⟨h.1,rfl,h.2.2⟩
      rw [hq] at this
      cases this
    exact ⟨iff_of_false Bool.false_ne_true hn,fun h => absurd h hn⟩
  | some q =>
    obtain ⟨hf,rfl,hd⟩ := (hw q).mp hq
    exact ⟨⟨fun h => ⟨hf,h,hd⟩,fun h => h.2.1⟩,fun _ => rfl⟩

def Disk.answer (fits : Str → Bool) (zone : ℕ → ℕ) (k : Disk) (cwd : Pos) (dirs : Str) : Shown :=
  if Opens fits k cwd dirs then k.list zone (aim cwd dirs)
  else if Opens fits k [] ("/config/" ++ dirs) then k.list zone (aim [] ("/config/" ++ dirs)) else .noData

theorem dirs_eq (hc : k.tree.isDir cwd = true) (hn : null dirs = false) (h7 : dirs.take 7 ≠ Str.of "/config") :
    k.dirs fits zone cwd dirs = k.answer fits zone cwd dirs := by
  obtain ⟨hf,hto⟩ := @checkdirs_spec fits k cwd hc dirs (null_false_iff.mp hn)
  rw [Disk.dirs,hn,if_neg Bool.false_ne_true,if_neg h7,Disk.answer]
  by_cases ho : Opens fits k cwd dirs
  · rw [if_pos ho,← hto ho]
    exact if_pos (hf.mpr ho)
  · have hin : k.tree.isDir (checkdirs fits k cwd dirs).2 = true := by
      rw [checkdirs,dochdir]
      cases hq : chdir k.tree (fun _ => fits) cwd dirs with
      | none => exact hc
      | some q =>
        rw [chdir] at hq
        split at hq
        · exact (Option.filter_eq_some_iff.mp hq).2
        · cases hq
    obtain ⟨hs,hto'⟩ := @checkdirs_spec fits k _ hin _ (config_ne dirs)
    rw [if_neg ho]
    refine (if_neg fun h => ho (hf.mp h)).trans ?_
    by_cases ho' : Opens fits k [] ("/config/" ++ dirs)
    · rw [if_pos ho',← show aim (checkdirs fits k cwd dirs).2 ("/config/" ++ dirs) = aim [] ("/config/" ++ dirs) from rfl,
        ← hto' ho']
      exact if_pos (hs.mpr ho')
    · rw [if_neg ho']
      exact if_neg fun h => ho' (hs.mp h)

theorem chroot_eq (hc : k.tree.isDir cwd = true) :
    chroot k cwd = none ∧ k.tree.isDir ["config"] = false ∧ prefixed cwd = false ∨
      chroot k cwd = some (home cwd) ∧ k.tree.isDir (home cwd) = true := by
  rw [chroot,home]
  cases hp : prefixed cwd with
  | true => exact Or.inr ⟨rfl,hc⟩
  | false =>
    cases hd : k.tree.isDir ["config"] with
    | true => exact Or.inr ⟨rfl,hd⟩
    | false => exact Or.inl ⟨rfl,rfl,rfl⟩

-- Disks made for a path: the directories it comes by, and one file where it ends.
def Shown.Has (m : Name) : Shown → Prop
  | table rows => ∃ r ∈ rows, r.item = m
  | _ => False

theorem has_list {m : Name} : (k.list zone p).Has m ↔ ∃ r ∈ k.rows zone p, r.item = m := by
  rw [Disk.list]
  cases h : k.rows zone p with
  | nil => exact iff_of_false id (by simp)
  | cons r rs => exact Iff.rfl

theorem pathTrim_length_le (n : Str) : (pathTrim n).length ≤ n.length := by
  have hle : ∀ {old new : Str}, old ≠ [] → new.length ≤ old.length → ∀ s, (LineText.replaceAll old new s).length ≤ s.length :=
    fun ho hl s => LineText.replaceAll_length_le _ ho hl s
  calc (pathTrim n).length
    _ ≤ _ := hle (by decide) (by decide) _
    _ ≤ _ := hle (by decide) (by decide) _
    _ ≤ _ := hle (by decide) (by decide) _
    _ ≤ n.length := hle (by decide) (by decide) n

theorem pathTrim_eq {n : Str} (hs : '/' ∉ n) (hd : '.' ∉ n) : pathTrim n = n := by
  have hc : ∀ {old : Str} {c : Char}, c ∈ old → c ∉ n → ¬old <:+: n := fun hc hn hi => hn (hi.mem hc)
  rw [pathTrim,LineText.replaceAll_of_not_infix _ (hc (c := '/') (by decide) hs),
    LineText.replaceAll_of_not_infix _ (hc (c := '/') (by decide) hs),
    LineText.replaceAll_of_not_infix _ (hc (c := '.') (by decide) hd),
    LineText.replaceAll_of_not_infix _ (hc (c := '/') (by decide) hs)]

/-- A name longer than all others is shown where it is. -/
theorem has_list_iff {m : Name} (hs : '/' ∉ m) (hd : '.' ∉ m) (hl : ∀ q ∈ k.entries, ∀ n ∈ q, n = m ∨ n.length < m.length) :
    (k.list zone p).Has m ↔ p ++ [m] ∈ k.entries := by
  rw [has_list,Disk.rows]
  constructor
  · rintro ⟨r,hr,hm⟩
    obtain ⟨n,hn,hr⟩ := List.mem_filterMap.mp hr
    obtain ⟨i,-,rfl⟩ := Option.map_eq_some_iff.mp hr
    have hmem := (mem_glob.mp hn).1
    rcases hl _ hmem n (by simp) with rfl | hlt
    · exact hmem
    · have := pathTrim_length_le n
      rw [show pathTrim n = m from hm] at this
      omega
  · intro hm
    obtain ⟨x,hx⟩ := Option.isSome_iff_exists.mp (k.mem_entries.mp hm)
    have hg : m ∈ k.glob p := mem_glob.mpr ⟨hm,fun h => hd (List.mem_of_mem_head? h)⟩
    cases hi : k.getstat p m with
    | none =>
      rw [Disk.getstat,hx] at hi
      cases hi
    | some i => exact ⟨_,List.mem_filterMap.mpr ⟨m,hg,by rw [hi]; rfl⟩,pathTrim_eq hs hd⟩

variable {ds : List Pos}

def marker (ds : List Pos) : Name := List.replicate ((ds.flatten.map List.length).sum + 1) 'f'

theorem length_lt_marker {n : Name} (hp : p ∈ ds) (hn : n ∈ p) : n.length < (marker ds).length := by
  rw [marker,List.length_replicate]
  exact Nat.lt_succ_of_le (List.le_sum_of_mem (List.mem_map_of_mem (List.mem_flatten.mpr ⟨p,hp,hn⟩)))

theorem marker_not_mem {c : Char} (hc : c ≠ 'f') : c ∉ marker ds := fun h => hc (List.eq_of_mem_replicate h)

theorem marker_proper : Proper (marker ds) := by
  refine ⟨by simp [marker,List.replicate_succ],?_,?_⟩ <;>
  · intro h
    have hd : '.' ∈ marker ds := by simp [h]
    exact marker_not_mem (by decide) hd

/-- The directories `ds` and a file with a new name in one of them. -/
def sampleTree (ds : List Pos) (p : Pos) : FileTree File := ofLists ds [p ++ [marker ds]] ⟨[],0,0⟩

theorem sampleTree_isSome {q : Pos} (h : ((sampleTree ds p).node q).isSome = true) :
    q = [] ∨ (∃ d ∈ ds, q <+: d) ∨ q = p ++ [marker ds] := by
  rcases ofLists_isSome h with h | h | h
  · exact Or.inl h
  · exact Or.inr (Or.inl h)
  · exact Or.inr (Or.inr (List.mem_singleton.mp h))

def sample (h : Fair ds) (hp : p ∈ ds) : Disk where
  tree := sampleTree ds p
  own _ := (0,0)
  entries := ([]::(p ++ [marker ds])::ds.flatMap List.inits).toFinset.filter fun q => ((sampleTree ds p).node q).isSome = true
  mem_entries := by
    intro q
    rw [Finset.mem_filter,List.mem_toFinset]
    refine and_iff_right_of_imp fun hq => ?_
    rcases sampleTree_isSome hq with rfl | ⟨d,hd,hq⟩ | rfl
    · simp
    · exact List.mem_cons_of_mem _ (List.mem_cons_of_mem _ (List.mem_flatMap.mpr ⟨d,hd,(List.mem_inits _ _).mpr hq⟩))
    · simp
  names := by
    intro q hq n hn
    rcases sampleTree_isSome (Finset.mem_filter.mp hq).2 with rfl | ⟨d,hd,hq⟩ | rfl
    · cases hn
    · exact h.1 d hd n (hq.mem hn)
    · rcases List.mem_append.mp hn with hn | hn
      · exact h.1 p hp n hn
      · rw [List.mem_singleton.mp hn]
        exact ⟨marker_proper,marker_not_mem (by decide)⟩
  plain := by
    intro q hd hq n hn
    rcases ofLists_isDir.mp hd with rfl | ⟨d,hd,hqd⟩
    · cases hn
    · exact h.2 d hd (hq.mono hqd) n (hqd.mem hn)

def Disk.restrict (k : Disk) (K : Pos → Prop) [DecidablePred K] (h : K []) (hK : ∀ p n, K (p ++ [n]) → K p) : Disk where
  tree := k.tree.restrict K h hK
  own := k.own
  entries := k.entries.filter K
  mem_entries := by
    intro p
    rw [Finset.mem_filter,restrict_isSome,k.mem_entries,and_comm]
  names hp := k.names (Finset.mem_filter.mp hp).1
  plain hd := k.plain (restrict_isDir.mp hd).2

variable {h : Fair ds} {hp : p ∈ ds}

theorem sample_isDir {q : Pos} : (sample h hp).tree.isDir q = true ↔ q = [] ∨ ∃ d ∈ ds, q <+: d := ofLists_isDir

theorem sample_dir {q : Pos} (hq : q ∈ ds) : (sample h hp).tree.isDir q = true :=
  sample_isDir.mpr (Or.inr ⟨q,hq,List.prefix_rfl⟩)

theorem marker_free {q : Pos} (hq : (sample h hp).tree.isDir q = true) : ¬p ++ [marker ds] <+: q := by
  intro hm
  rcases sample_isDir.mp hq with rfl | ⟨d,hd,hqd⟩
  · simp at hm
  · exact lt_irrefl _ (length_lt_marker hd ((hm.trans hqd).mem (by simp)))

theorem sample_entries {q : Pos} : q ++ [marker ds] ∈ (sample h hp).entries ↔ q = p := by
  rw [(sample h hp).mem_entries]
  constructor
  · intro hq
    rcases sampleTree_isSome hq with hq | ⟨d,hd,hq⟩ | hq
    · simp at hq
    · exact absurd (length_lt_marker hd (hq.mem (by simp))) (lt_irrefl _)
    · exact (List.append_inj' hq rfl).1
  · rintro rfl
    have hn : ¬(q ++ [marker ds] = [] ∨ ∃ d ∈ ds, q ++ [marker ds] <+: d) := by
      rintro (hq | ⟨d,hd,hq⟩)
      · simp at hq
      · exact lt_irrefl _ (length_lt_marker hd (hq.mem (by simp)))
    have hf : (sampleTree ds q).node (q ++ [marker ds]) = some (.file ⟨[],0,0⟩) :=
      ofLists_file hn (List.mem_singleton_self _) (by
        rw [List.dropLast_concat]
        exact Or.inr ⟨q,hp,List.prefix_rfl⟩)
    change ((sampleTree ds q).node (q ++ [marker ds])).isSome = true
    rw [hf]
    rfl

theorem sample_names {q : Pos} (hq : q ∈ (sample h hp).entries) {n : Name} (hn : n ∈ q) :
    n = marker ds ∨ n.length < (marker ds).length := by
  rcases sampleTree_isSome ((sample h hp).mem_entries.mp hq) with rfl | ⟨d,hd,hq⟩ | rfl
  · cases hn
  · exact Or.inr (length_lt_marker hd (hq.mem hn))
  · rcases List.mem_append.mp hn with hn | hn
    · exact Or.inr (length_lt_marker hp hn)
    · exact Or.inl (List.mem_singleton.mp hn)

section Cuts

variable {K : Pos → Prop} [DecidablePred K] {h₀ : K []} {hK : ∀ p n, K (p ++ [n]) → K p}

theorem cut_isDir {q : Pos} : (k.restrict K h₀ hK).tree.isDir q = true ↔ K q ∧ k.tree.isDir q = true := by
  rw [Disk.restrict,restrict_isDir]

theorem opens_restrict {path : Str} : Opens fits (k.restrict K h₀ hK) cwd path ↔
    Opens fits k cwd path ∧ ∀ x ∈ way cwd path, K x := by
  have hd : (∀ x ∈ way cwd path, (k.restrict K h₀ hK).tree.isDir x = true) ↔
      (∀ x ∈ way cwd path, k.tree.isDir x = true) ∧ ∀ x ∈ way cwd path, K x := by
    rw [← forall₂_and]
    exact forall₂_congr fun x _ => cut_isDir.trans and_comm
  rw [Opens,Opens,hd,and_assoc,and_assoc]

theorem restrict_has {q : Pos} : (((sample h hp).restrict K h₀ hK).list zone q).Has (marker ds) ↔
    q = p ∧ K (p ++ [marker ds]) := by
  rw [has_list_iff (marker_not_mem (by decide)) (marker_not_mem (by decide)) fun q hq n hn =>
    sample_names (Finset.mem_filter.mp hq).1 hn]
  refine Finset.mem_filter.trans ?_
  rw [sample_entries]
  exact and_congr_right fun hq => by rw [hq]

end Cuts

theorem sample_has {q : Pos} : ((sample h hp).list zone q).Has (marker ds) ↔ q = p := by
  rw [has_list_iff (marker_not_mem (by decide)) (marker_not_mem (by decide)) fun q hq n hn => sample_names hq hn]
  exact sample_entries

theorem stored_above {q r : Pos} (hq : q ≠ []) (hqr : q <+: r) (hr : Stored r) : Stored q := by
  obtain ⟨s,rfl⟩ := hqr
  cases q with
  | nil => exact absurd rfl hq
  | cons n q => exact hr

theorem known_nil (cwd : Pos) : Known cwd [] := Or.inr List.nil_prefix

theorem known_concat (cwd p : Pos) (n : Name) (hk : Known cwd (p ++ [n])) : Known cwd p := by
  rcases hk with hk | hk
  · rcases stored_concat hk with rfl | hs
    · exact known_nil cwd
    · exact Or.inl hs
  · exact Or.inr ((List.prefix_append p [n]).trans hk)

def Disk.known (k : Disk) (cwd : Pos) : Disk := k.restrict (Known cwd) (known_nil cwd) (known_concat cwd)

theorem known_same (k : Disk) (cwd : Pos) : SameDisk k (k.known cwd) :=
  ⟨fun _ hq => (if_pos (Or.inl hq)).symm,fun _ _ => rfl⟩

def bare (h : Fair ds) (hp : p ∈ ds) : Disk :=
  (sample h hp).restrict (fun q => ¬p ++ [marker ds] <+: q) (by simp) fun _ n hq hm => hq (hm.trans (List.prefix_append _ [n]))

theorem bare_same (hne : p ≠ []) (hs : ¬Stored p) : SameDisk (sample h hp) (bare h hp) := by
  refine ⟨fun q hq => (if_pos fun hm => ?_).symm,fun _ _ => rfl⟩
  rcases stored_concat (stored_above (by simp) hm hq) with h | h
  · exact hne h
  · exact hs h

theorem bare_isDir {q : Pos} : (bare h hp).tree.isDir q = true ↔ (sample h hp).tree.isDir q = true :=
  cut_isDir.trans (and_iff_right_of_imp marker_free)

theorem opens_bare {path : Str} : Opens fits (bare h hp) cwd path ↔ Opens fits (sample h hp) cwd path :=
  opens_restrict.trans (and_iff_left_of_imp fun ho x hx => marker_free (ho.2.2 x hx))

theorem bare_has {q : Pos} : ¬((bare h hp).list zone q).Has (marker ds) := fun hh =>
  (restrict_has.mp hh).2 List.prefix_rfl

/-- On all disks that are the same at and below `/config` the command shows the same. -/
def DirsAlike (fits : Str → Bool) (zone : ℕ → ℕ) (cwd : Pos) (arg : Str) : Prop :=
  ∀ k k' : Disk, k.tree.isDir cwd = true → k'.tree.isDir cwd = true → SameDisk k k' →
    k.vstorage fits zone cwd arg = k'.vstorage fits zone cwd arg

theorem prefixed_home (cwd : Pos) : prefixed (home cwd) = true := by
  rw [home]
  split
  · assumption
  · rfl

theorem ne_nil_of_prefixed (hp : prefixed p = true) : p ≠ [] := by
  rintro rfl
  exact absurd hp (by decide)

theorem vstorage_home (hc : k.tree.isDir cwd = true) (hh : k.tree.isDir (home cwd) = true) (arg : Str) :
    k.vstorage fits zone cwd arg = k.dirs fits zone (home cwd) (trimArg arg) := by
  rw [Disk.vstorage]
  rcases chroot_eq hc with ⟨-,hd,hp⟩ | ⟨he,-⟩
  · rw [home,hp,if_neg Bool.false_ne_true,hd] at hh
    cases hh
  · rw [he]

variable {base : Pos} {path : Str}

theorem opens_congr (hs : SameDisk k k') (hc : k.tree.isDir cwd = true) (hc' : k'.tree.isDir cwd = true)
    (hi : ∀ x ∈ way base path, Known cwd x) : Opens fits k base path ↔ Opens fits k' base path := by
  refine and_congr_right fun _ => and_congr_right fun _ => forall₂_congr fun x hx => ?_
  rcases hi x hx with hx | hx
  · rw [FileTree.isDir,FileTree.isDir,hs.1 x hx]
  · by_cases he : x = cwd
    · rw [he,hc,hc']
    · rw [isDir_above (isSome_of_isDir hc) hx he,isDir_above (isSome_of_isDir hc') hx he]

/-- Where there is all that a path comes by, it passes the test if it does so anywhere. -/
theorem Openable.opens (ho : Openable fits base path) (hc : k.tree.isDir cwd = true) (hh : k.tree.isDir (home cwd) = true)
    {ws : List Pos} (hcov : Covered cwd (way base path) ws) (hw : ∀ y ∈ ws, k.tree.isDir y = true) :
    Opens fits k base path := by
  have hup : ∀ {x y}, k.tree.isDir y = true → x <+: y → k.tree.isDir x = true := by
    intro x y hy hxy
    by_cases he : x = y
    · rwa [he]
    · exact isDir_above (isSome_of_isDir hy) hxy he
  refine ⟨ho.1,ho.2.1,fun x hx => ?_⟩
  rcases hcov x hx with hx | hx | ⟨y,hy,hx⟩
  · exact hup hc hx
  · exact hup hh hx
  · exact hup (hw y hy) hx

theorem dirs_congr (hs : SameDisk k k') (hc : k.tree.isDir cwd = true) (hc' : k'.tree.isDir cwd = true)
    (hh : k.tree.isDir (home cwd) = true) (hh' : k'.tree.isDir (home cwd) = true) (hn : null dirs = false)
    (h7 : dirs.take 7 ≠ Str.of "/config") (hin : PathInside fits cwd dirs) :
    k.dirs fits zone (home cwd) dirs = k'.dirs fits zone (home cwd) dirs := by
  rw [dirs_eq hh hn h7,dirs_eq hh' hn h7]
  obtain ⟨h₁,h₂⟩ := hin
  by_cases hi₂ : Openable fits [] ("/config/" ++ dirs) → Inside cwd [] ("/config/" ++ dirs)
  · have he₂ : Opens fits k [] ("/config/" ++ dirs) ↔ Opens fits k' [] ("/config/" ++ dirs) := by
      by_cases ho : Openable fits [] ("/config/" ++ dirs)
      · exact opens_congr hs hc hc' (hi₂ ho).2
      · exact iff_of_false (fun h => ho h.openable) fun h => ho h.openable
    have hl₂ : Opens fits k' [] ("/config/" ++ dirs) →
        k.list zone (aim [] ("/config/" ++ dirs)) = k'.list zone (aim [] ("/config/" ++ dirs)) := fun ho =>
      list_congr hs (hi₂ ho.openable).1
    by_cases hi₁ : Openable fits (home cwd) dirs → Inside cwd (home cwd) dirs
    · have he₁ : Opens fits k (home cwd) dirs ↔ Opens fits k' (home cwd) dirs := by
        by_cases ho : Openable fits (home cwd) dirs
        · exact opens_congr hs hc hc' (hi₁ ho).2
        · exact iff_of_false (fun h => ho h.openable) fun h => ho h.openable
      rw [Disk.answer,Disk.answer,if_congr he₁ rfl rfl,if_congr he₂ rfl rfl]
      split
      · rename_i ho
        exact list_congr hs (hi₁ ho.openable).1
      · split
        · rename_i ho
          exact hl₂ ho
        · rfl
    · -- the second test decides alone
      rw [Classical.not_imp] at hi₁
      obtain ⟨ho₂,-,ha,hcov⟩ := (h₁ hi₁.1).resolve_left hi₁.2
      have halone : ∀ {u : Disk}, u.tree.isDir cwd = true → u.tree.isDir (home cwd) = true →
          u.answer fits zone (home cwd) dirs = if Opens fits u [] ("/config/" ++ dirs) then u.list zone (aim [] ("/config/" ++ dirs)) else .noData := by
        intro u hu huh
        rw [Disk.answer]
        split
        · rename_i ho
          rw [if_pos (ho₂.opens hu huh hcov ho.2.2),ha]
        · rfl
      rw [halone hc hh,halone hc' hh',if_congr he₂ rfl rfl]
      split
      · rename_i ho
        exact hl₂ ho
      · rfl
  · -- the first test decides alone
    rw [Classical.not_imp] at hi₂
    obtain ⟨ho₁,hcov⟩ := (h₂ hi₂.1).resolve_left hi₂.2
    have hi₁ := (h₁ ho₁).resolve_right fun h => hi₂.2 h.2.1
    have halone : ∀ {u : Disk}, u.tree.isDir cwd = true → u.tree.isDir (home cwd) = true →
        u.answer fits zone (home cwd) dirs = if Opens fits u (home cwd) dirs then u.list zone (aim (home cwd) dirs) else .noData := by
      intro u hu huh
      rw [Disk.answer]
      split
      · rfl
      · rename_i ho
        exact if_neg fun ho' => ho (ho₁.opens hu huh hcov ho'.2.2)
    rw [halone hc hh,halone hc' hh',if_congr (opens_congr hs hc hc' hi₁.2) rfl rfl,list_congr hs hi₁.1]

theorem DirInside.alike {arg : Str} (hin : DirInside fits cwd arg) : DirsAlike fits zone cwd arg := by
  intro k k' hc hc' hs
  rcases chroot_eq hc with ⟨hch,hd,hp⟩ | ⟨-,hh⟩
  · have hd' : k'.tree.isDir ["config"] = false := by
      rw [← hd,FileTree.isDir,FileTree.isDir,hs.1 ["config"] rfl]
    rw [Disk.vstorage,Disk.vstorage,hch,chroot,hp,if_neg Bool.false_ne_true,hd',if_neg Bool.false_ne_true]
  · have hh' : k'.tree.isDir (home cwd) = true := by
      rw [home] at hh ⊢
      split
      · exact hc'
      · rename_i hp
        rw [if_neg hp,FileTree.isDir,hs.1 ["config"] rfl] at hh
        exact hh
    rw [vstorage_home hc hh,vstorage_home hc' hh']
    rw [DirInside] at hin
    split at hin
    · rename_i hn
      rw [Disk.dirs,Disk.dirs,if_pos hn,if_pos hn,list_congr hs hin]
    · rename_i hn
      by_cases h7 : (trimArg arg).take 7 = Str.of "/config"
      · rw [Disk.dirs,Disk.dirs,if_neg hn,if_neg hn,if_pos h7,if_pos h7]
      · exact dirs_congr hs hc hc' hh hh' (Bool.not_eq_true _ ▸ hn) h7 (hin.resolve_left h7)

theorem Fair.append {ds es : List Pos} (h : Fair ds) (h' : Fair es) : Fair (ds ++ es) :=
  ⟨fun p hp => (List.mem_append.mp hp).elim (h.1 p) (h'.1 p),fun p hp => (List.mem_append.mp hp).elim (h.2 p) (h'.2 p)⟩

theorem fair_home (hc : Fair [cwd]) : Fair [home cwd] := by
  rw [home]
  split
  · exact hc
  · decide

theorem Openable.fair (hb : Fair [base]) (ho : Openable fits base path) : Fair (way base path) := by
  refine ⟨fun x hx n hn => ?_,ho.2.2⟩
  rcases mem_visited hx hn with hn | ⟨hn,hp⟩
  · rw [start] at hn
    split at hn
    · cases hn
    · exact hb.1 base (List.mem_singleton_self _) n hn
  · exact ⟨hp,mem_components hn⟩

def dirsOf (cwd base : Pos) (path : Str) : List Pos := way base path ++ [cwd,home cwd]

theorem dirsOf_fair (hc : Fair [cwd]) (hb : Fair [base]) (ho : Openable fits base path) : Fair (dirsOf cwd base path) :=
  (ho.fair hb).append (hc.append (fair_home hc))

theorem aim_mem_dirsOf : aim base path ∈ dirsOf cwd base path := List.mem_append_left _ (goal_mem_visited _ _)

theorem covered_of_dirs {h : Fair (dirsOf cwd base path)} {hp : p ∈ dirsOf cwd base path} {vs : List Pos}
    (hv : ∀ x ∈ vs, (sample h hp).tree.isDir x = true) : Covered cwd vs (way base path) := by
  intro x hx
  rcases sample_isDir.mp (hv x hx) with rfl | ⟨d,hd,hx⟩
  · exact Or.inl List.nil_prefix
  · rcases List.mem_append.mp hd with hd | hd
    · exact Or.inr (Or.inr ⟨d,hd,hx⟩)
    · rcases List.mem_pair.mp hd with rfl | rfl
      · exact Or.inl hx
      · exact Or.inr (Or.inl hx)

section Samples

variable {h : Fair (dirsOf cwd base path)} {hp : p ∈ dirsOf cwd base path}

theorem sample_cwd : (sample h hp).tree.isDir cwd = true := sample_dir (by simp [dirsOf])

theorem sample_home : (sample h hp).tree.isDir (home cwd) = true := sample_dir (by simp [dirsOf])

theorem sample_opens (ho : Openable fits base path) : Opens fits (sample h hp) base path :=
  ⟨ho.1,ho.2.1,fun _ hx => sample_dir (List.mem_append_left _ hx)⟩

theorem known_cwd : ((sample h hp).known cwd).tree.isDir cwd = true :=
  cut_isDir.mpr ⟨Or.inr List.prefix_rfl,sample_cwd⟩

theorem known_home : ((sample h hp).known cwd).tree.isDir (home cwd) = true := by
  refine cut_isDir.mpr ⟨?_,sample_home⟩
  rw [home]
  split
  · exact Or.inr List.prefix_rfl
  · exact Or.inl rfl

theorem bare_cwd : (bare h hp).tree.isDir cwd = true := bare_isDir.mpr sample_cwd

theorem bare_home : (bare h hp).tree.isDir (home cwd) = true := bare_isDir.mpr sample_home

end Samples

theorem has_noData {m : Name} : ¬Shown.noData.Has m := id

theorem DirsAlike.stored {arg : Str} (hc : Fair [cwd]) (hn : null (trimArg arg) = true) (ha : DirsAlike fits zone cwd arg) :
    Stored (home cwd) := by
  by_contra hs
  have hd : Fair ([] ++ [cwd,home cwd]) := hc.append (fair_home hc)
  have hmem : home cwd ∈ [] ++ [cwd,home cwd] := by simp
  have hc₁ : (sample hd hmem).tree.isDir cwd = true := sample_dir (by simp)
  have hh₁ : (sample hd hmem).tree.isDir (home cwd) = true := sample_dir (by simp)
  have he := ha (sample hd hmem) (bare hd hmem) hc₁ (bare_isDir.mpr hc₁)
    (bare_same (ne_nil_of_prefixed (prefixed_home cwd)) hs)
  rw [vstorage_home hc₁ hh₁,vstorage_home (bare_isDir.mpr hc₁) (bare_isDir.mpr hh₁),Disk.dirs,Disk.dirs,if_pos hn,
    if_pos hn] at he
  have hhas : ((sample hd hmem).list zone (home cwd)).Has _ := sample_has.mpr rfl
  rw [he] at hhas
  exact bare_has hhas

section Paths

variable {arg : Str} (hc : Fair [cwd]) (hn : null (trimArg arg) = false) (h7 : (trimArg arg).take 7 ≠ Str.of "/config")
  (ha : DirsAlike fits zone cwd arg)

theorem DirsAlike.eq {k k' : Disk} (hn : null (trimArg arg) = false) (h7 : (trimArg arg).take 7 ≠ Str.of "/config")
    (ha : DirsAlike fits zone cwd arg) (hs : SameDisk k k') (hc : k.tree.isDir cwd = true) (hc' : k'.tree.isDir cwd = true)
    (hh : k.tree.isDir (home cwd) = true) (hh' : k'.tree.isDir (home cwd) = true) :
    k.answer fits zone (home cwd) (trimArg arg) = k'.answer fits zone (home cwd) (trimArg arg) := by
  have he := ha k k' hc hc' hs
  rwa [vstorage_home hc hh,vstorage_home hc' hh',dirs_eq hh hn h7,dirs_eq hh' hn h7] at he

include hc hn h7 ha

theorem DirsAlike.first (ho : Openable fits (home cwd) (trimArg arg)) : Inside cwd (home cwd) (trimArg arg) ∨
    Openable fits [] ("/config/" ++ trimArg arg) ∧ Inside cwd [] ("/config/" ++ trimArg arg) ∧
      aim (home cwd) (trimArg arg) = aim [] ("/config/" ++ trimArg arg) ∧
      Covered cwd (way [] ("/config/" ++ trimArg arg)) (way (home cwd) (trimArg arg)) := by
  by_contra hout
  rw [not_or] at hout
  have hd := dirsOf_fair hc (fair_home hc) ho
  have hmem := @aim_mem_dirsOf cwd (home cwd) (trimArg arg)
  have hk : Opens fits (sample hd hmem) (home cwd) (trimArg arg) := sample_opens ho
  have hhas : ((sample hd hmem).list zone (aim (home cwd) (trimArg arg))).Has _ := sample_has.mpr rfl
  by_cases hs : Stored (aim (home cwd) (trimArg arg))
  · have he := ha.eq hn h7 (known_same (sample hd hmem) cwd) sample_cwd known_cwd sample_home known_home
    have hclosed : ¬Opens fits ((sample hd hmem).known cwd) (home cwd) (trimArg arg) := fun hk' =>
      hout.1 ⟨hs,(opens_restrict.mp hk').2⟩
    rw [Disk.answer,if_pos hk,Disk.answer,if_neg hclosed] at he
    rw [he] at hhas
    split at hhas
    · rename_i hk'
      obtain ⟨hk₂,hway⟩ := opens_restrict.mp hk'
      have haim := (restrict_has.mp hhas).1
      exact hout.2 ⟨hk₂.openable,⟨haim ▸ hs,hway⟩,haim.symm,covered_of_dirs hk₂.2.2⟩
    · exact has_noData hhas
  · have he := ha.eq hn h7 (@bare_same _ _ hd hmem (ne_nil_of_prefixed ho.2.1) hs) sample_cwd bare_cwd sample_home bare_home
    rw [Disk.answer,if_pos hk,Disk.answer,if_pos (opens_bare.mpr hk)] at he
    rw [he] at hhas
    exact bare_has hhas

theorem DirsAlike.second (ho : Openable fits [] ("/config/" ++ trimArg arg)) : Inside cwd [] ("/config/" ++ trimArg arg) ∨
    Openable fits (home cwd) (trimArg arg) ∧
      Covered cwd (way (home cwd) (trimArg arg)) (way [] ("/config/" ++ trimArg arg)) := by
  by_contra hout
  rw [not_or] at hout
  have hd := dirsOf_fair hc (by decide) ho
  have hmem := @aim_mem_dirsOf cwd [] ("/config/" ++ trimArg arg)
  have hk : Opens fits (sample hd hmem) [] ("/config/" ++ trimArg arg) := sample_opens ho
  have hclosed : ¬Opens fits (sample hd hmem) (home cwd) (trimArg arg) := fun hk₁ =>
    hout.2 ⟨hk₁.openable,covered_of_dirs hk₁.2.2⟩
  have hhas : ((sample hd hmem).list zone (aim [] ("/config/" ++ trimArg arg))).Has _ := sample_has.mpr rfl
  by_cases hs : Stored (aim [] ("/config/" ++ trimArg arg))
  · have he := ha.eq hn h7 (known_same (sample hd hmem) cwd) sample_cwd known_cwd sample_home known_home
    have hclosed₁ : ¬Opens fits ((sample hd hmem).known cwd) (home cwd) (trimArg arg) := fun hk' =>
      hclosed (opens_restrict.mp hk').1
    have hclosed₂ : ¬Opens fits ((sample hd hmem).known cwd) [] ("/config/" ++ trimArg arg) := fun hk' =>
      hout.1 ⟨hs,(opens_restrict.mp hk').2⟩
    rw [Disk.answer,if_neg hclosed,if_pos hk,Disk.answer,if_neg hclosed₁,if_neg hclosed₂] at he
    rw [he] at hhas
    exact has_noData hhas
  · have he := ha.eq hn h7 (@bare_same _ _ hd hmem (ne_nil_of_prefixed ho.2.1) hs) sample_cwd bare_cwd sample_home bare_home
    rw [Disk.answer,if_neg hclosed,if_pos hk,Disk.answer,if_neg fun hk' => hclosed (opens_bare.mp hk'),if_pos (opens_bare.mpr hk)] at he
    rw [he] at hhas
    exact bare_has hhas

end Paths

theorem dirs_alike_iff (hc : Fair [cwd]) (arg : Str) : DirsAlike fits zone cwd arg ↔ DirInside fits cwd arg := by
  refine ⟨fun ha => ?_,DirInside.alike⟩
  rw [DirInside]
  split
  · rename_i hn
    exact ha.stored hc hn
  · rename_i hn
    have hn' := Bool.eq_false_of_not_eq_true hn
    refine or_iff_not_imp_left.mpr fun h7 => ?_
    exact ⟨ha.first hc hn' h7,ha.second hc hn' h7⟩

/-- Both commands show only what is at or below `/config` exactly as long as the path keeps there, all the way. -/
theorem viewer_iff (fits : Str → Bool) (zone : ℕ → ℕ) (cwd : Pos) (hc : Fair [cwd]) (file arg : Str) :
    ((∀ t t' : FileTree File, SameStore t t' → fileread fits t file = fileread fits t' file) ↔ FileInside fits file) ∧
      (DirsAlike fits zone cwd arg ↔ DirInside fits cwd arg) :=
  ⟨fileread_iff file,dirs_alike_iff hc arg⟩

def pathMax (path : Str) : Bool := path.length < 4096 && (components path).all (·.length ≤ 255) && path.all (· ≠ '\x00')

theorem viewer_iff_logs : (∀ t t' : FileTree File, SameStore t t' → fileread pathMax t "boot.cfg" = fileread pathMax t' "boot.cfg") ∧
    DirsAlike pathMax id ["config"] "logs" :=
  ⟨(viewer_iff pathMax id ["config"] (by decide) "boot.cfg" "logs").1.mpr (by decide),
    (viewer_iff pathMax id ["config"] (by decide) "boot.cfg" "logs").2.mpr (by decide)⟩

/-- A way back in the middle of a path, and a directory whose name begins like that of the store. -/
theorem shadow_shown :
    ¬(∀ file : Str, ∀ t t' : FileTree File, SameStore t t' → fileread pathMax t file = fileread pathMax t' file) ∧
      ¬∀ arg : Str, DirsAlike pathMax id ["config"] arg := by
  constructor
  · intro h
    exact absurd ((fileread_iff "logs/../../etc/shadow").mp (h "logs/../../etc/shadow")) (by decide)
  · intro h
    exact absurd ((dirs_alike_iff (by decide) "../configs").mp (h "../configs")) (by decide)

end StorageViewer
end Mybox
