import Mybox.LinkTree
import Mybox.ShellText
import Mybox.Buffers
import Mybox.MakeDirs
import Mybox.Stdio

/-! `exec` of the restricted shell: what stands behind it names a program and gives it its arguments, and the whole is
handed to the system's shell as one text, with some characters taken out. -/
namespace Mybox
namespace RestrictedShell

open DirTree LinkTree ShellText Buffers Php

def S_IFREG : ℕ := 0o100000
def S_IFDIR : ℕ := 0o040000
def S_IFLNK : ℕ := 0o120000

/-- What the shell finds, which runs as root: the tree of directories, where what is neither directory nor link has its
mode; `PWD` in its environment; what `readline` answers to a prompt; and the status of a command that was run. -/
structure World where
  tree : FileTree (Leaf ℕ)
  pwd : Option Str
  readline : Str → Option Str
  status : Str → ℤ

namespace World

variable (w : World)

def find (path : Str) : Option Pos := resolve w.tree false [] path

/-- The mode that `stat` tells. -/
def stat (path : Str) : Option ℕ :=
  (w.find path).bind fun p =>
    match w.tree.node p with
    | some .dir => some S_IFDIR
    | some (.file (.other mode)) => some mode
    | _ => none

def chdir (path : Str) : Option Pos := (w.find path).filter fun p => w.tree.isDir p

def fileExists (path : Str) : Bool :=
  (w.stat path).any fun mode => mode &&& S_IFREG ≠ 0 || mode &&& S_IFLNK ≠ 0 || mode &&& S_IFDIR ≠ 0

def isDir (path : Str) : Bool := (w.stat path).any fun mode => mode &&& S_IFREG ≠ 0 || mode &&& S_IFDIR ≠ 0

/-- `get_current_dir_name` in the directory `d`: `PWD`, if that is what it stands for. -/
def getCurrentDirName (d : Pos) : Str := (w.pwd.filter fun pwd => resolve w.tree false d pwd = some d).getD (text d)

def passes (d : Pos) : Bool :=
  let b := w.getCurrentDirName d
  b ≠ ("/" : Str) && !(b.length < 7) && b.take 7 = ("/config" : Str)

def chkPath (f : Str) : Bool :=
  match w.chdir f with
  | some d => w.passes d
  | none => if f.length < 7 then false else chkPath (dirname f)
termination_by f.length
decreasing_by exact length_dirname (by omega)

def isLink (path : Str) : Bool :=
  (w.chdir (dirname path)).any fun d =>
    match w.tree.node (d ++ [(components path).getLastD []]) with
    | some (.file (.link _)) => true
    | _ => false

/-- At or below `/config`. -/
def Inside (p : Pos) : Prop := ∃ r, w.chdir "/config" = some r ∧ r <+: p

/-- Whatever is found, or made, under this path is inside. -/
def Kept (path : Str) : Prop := ∀ p, resolve w.tree true [] path = some p → w.Inside p

/-- A directory outside with a name that begins as the names inside do. -/
def LookAlike (d : Pos) : Prop := w.passes d = true ∧ ¬w.Inside d

/-- The path leads to a directory that but looks as if it was inside, or to something in such a directory, or to a
link that leads out. -/
def Strays (path : Str) : Prop :=
  match w.chdir path with
  | some d => w.LookAlike d
  | none => if w.isLink path then ¬w.Kept path else ∃ d, w.chdir (dirname path) = some d ∧ w.LookAlike d

end World

def stripshellargv (string : Str) : Str := string.filter fun c => c ∉ ['|',',','\x60',';','$']

def commandsExec : List Str :=
  ["ping","telnet","nslookup","traceroute","ssh","ftp","scpget","scpput","edit","delete"].map String.toList

def cliSearchCommandExec (name : Str) : Option Str :=
  commandsExec.find? fun c => (strstr name c).isSome && 2 ≤ name.length

inductive Tool
  | ping
  | traceroute
  | telnet
  | ssh
  | ftp
  | scpget
  | scpput
  | nslookup
  | delete
  | edit
  deriving DecidableEq

def Tool.named (name : Str) : Option Tool :=
  if name = "ping" then some .ping
  else if name = "traceroute" then some .traceroute
  else if name = "telnet" then some .telnet
  else if name = "ssh" then some .ssh
  else if name = "ftp" then some .ftp
  else if name = "scpget" then some .scpget
  else if name = "scpput" then some .scpput
  else if name = "nslookup" ∨ name = "ns" then some .nslookup
  else if name = "delete" ∨ name = "del" then some .delete
  else if name = "edit" then some .edit
  else none

inductive Request
  | help
  | invalid
  | tool (t : Tool) (args : List Str)
  deriving DecidableEq

/-- Which program the words of the line name, and what stands behind its name. -/
def request (line : Str) : Request :=
  let chargv := tokens [' '] (stripshellargv line)
  if 0 < chargv.length % 2^8 then
    match chargv with
    | _::name::args =>
      match cliSearchCommandExec name with
      | none => .invalid
      | some _ => (Tool.named name).elim .invalid fun t => .tool t args
    | _ => .help
  else .invalid

def isspace (c : Char) : Bool := c ∈ [' ','\t','\n','\x0b','\x0c','\r']

def digits (s : Str) : ℕ := digitsVal 10 (s.takeWhile digit)

/-- `atoi`, which stays at the greatest and the smallest `int`. -/
def atoi (s : Str) : ℤ :=
  let v : ℤ := match s.dropWhile isspace with
    | '-'::r => -digits r
    | '+'::r => digits r
    | r => digits r
  max (-2^31) (min v (2^31 - 1))

/-- `cnt`, as the word gives it, if it is there. -/
def cnt (n : ℤ) (word : Option Str) : Str := Stdio.intText ((word.map atoi).getD n)

/-- `snprintf(file,sizeof(file),"/config/%s",name)` -/
def file (name : Str) : Str := (("/config/" : Str) ++ name).take 499

/-- `snprintf(msgconfirm,sizeof(msgconfirm),"delete file/directory %s? [y/n] ",name)` -/
def msgconfirm (name : Str) : Str := (("delete file/directory " : Str) ++ name ++ ("? [y/n] " : Str)).take 99

/-- How the command ends: with the shell's answer or without one, with a text handed to the system's shell and maybe
`Invalid options` after that, in a fault, or with more written into `aopt` than it holds. -/
inductive Outcome
  | printHelp
  | invalidOptions
  | prints (message : Str)
  | quiet
  | fault
  | overrun
  | ran (text : Str) (invalid : Bool)

/-- The branches of `cmd_exec`; `aopt` is what its array holds before anything is written there. -/
def run (w : World) (aopt : Str) : Tool → List Str → Outcome
  | .ping, host::r => .ran ("ping -c " ++ cnt 5 r.head? ++ " -w " ++ cnt 5 r.head? ++ " " ++ host) false
  | .traceroute, [host] => .ran ("traceroute " ++ host ++ " " ++ aopt) false
  | .traceroute, host::opt::_ => if opt.length < 50 then .ran ("traceroute " ++ host ++ " " ++ opt) false else .overrun
  | .telnet, host::r => .ran ("telnet " ++ host ++ " " ++ cnt 23 r.head?) false
  | .ssh, host::user::r => .ran ("exec_ssh " ++ host ++ " " ++ user ++ " " ++ cnt 22 r.head?) false
  | .ftp, op::host::user::file::r =>
    .ran ("exec_ftp " ++ op ++ " " ++ host ++ " " ++ user ++ " " ++ file ++ " " ++ cnt 21 r.head?) false
  | .scpget, host::user::file::r =>
    .ran ("scp -C -P " ++ cnt 22 r.head? ++ " -rp " ++ user ++ "@" ++ host ++ ":" ++ file ++ " /config/.") false
  | .scpput, host::user::name::r =>
    if (!w.fileExists (file name) && !w.isDir (file name)) || !w.chkPath (file name) then
      .prints "% No such file or directory\n"
    else .ran ("scp -C -P " ++ cnt 22 r.head? ++ " -rp /config/" ++ name ++ " " ++ user ++ "@" ++ host ++ ":.") false
  | .nslookup, [host] => .ran ("nslookup " ++ host) false
  | .nslookup, host::server::_ => .ran ("nslookup " ++ host ++ " " ++ server) false
  | .delete, [] => .quiet
  | .delete, name::_ =>
    if (!w.fileExists (file name) && !w.isDir (file name)) || !w.chkPath (file name) then
      .prints "% No such file or directory\n"
    else
      match w.readline (msgconfirm name) with
      | none => .fault
      | some answer => if answer = "y" then .ran ("rm -rf " ++ file name) false else .quiet
  | .edit, name::_ =>
    if !w.fileExists (file name) || !w.chkPath (file name) then .prints "% No such file\n"
    else .ran ("vi " ++ name) (w.status ("vi " ++ name) != 0)
  | _, _ => .invalidOptions

def cmdExec (w : World) (aopt line : Str) : Outcome :=
  match request line with
  | .help => .printHelp
  | .invalid => .invalidOptions
  | .tool t args => run w aopt t args

/-- The program that the branch is for, with the words as its arguments. -/
def argv : Tool → List Str → List Str
  | .ping, host::r => ["ping","-c",cnt 5 r.head?,"-w",cnt 5 r.head?,host]
  | .traceroute, host::r => ("traceroute" : Str)::host::r.take 1
  | .telnet, host::r => ["telnet",host,cnt 23 r.head?]
  | .ssh, host::user::r => ["exec_ssh",host,user,cnt 22 r.head?]
  | .ftp, op::host::user::file::r => ["exec_ftp",op,host,user,file,cnt 21 r.head?]
  | .scpget, host::user::file::r => ["scp","-C","-P",cnt 22 r.head?,"-rp",user ++ "@" ++ host ++ ":" ++ file,"/config/."]
  | .scpput, host::user::name::r => ["scp","-C","-P",cnt 22 r.head?,"-rp","/config/" ++ name,user ++ "@" ++ host ++ ":."]
  | .nslookup, host::r => ("nslookup" : Str)::host::r.take 1
  | .delete, name::_ => ["rm","-rf","/config/" ++ name]
  | .edit, name::_ => ["vi",name]
  | _, _ => []

/-- The path of the machine's own that the program is for. A name without a slash in front is one in `/config`. -/
def acts : Tool → List Str → Option Str
  | .scpget, _ => some ("/config/." : Str)
  | .scpput, _::_::name::_ => some ("/config/" ++ name)
  | .delete, name::_ => some ("/config/" ++ name)
  | .edit, name::_ => some (if name.head? = some '/' then name else "/config/" ++ name)
  | _, _ => none

/-- What is run is just the program, with the words as its arguments, and its path is inside. -/
def Outcome.Right (w : World) (r : Request) : Outcome → Prop
  | .ran text _ => ∃ t args, r = .tool t args ∧ RunsJust text (argv t args) ∧ ∀ path ∈ acts t args, w.Kept path
  | .overrun => False
  | _ => True

/-- So it is for the line, whatever stands in the array that nothing is written to. -/
def Confined (w : World) (line : Str) : Prop := ∀ aopt, (cmdExec w aopt line).Right w (request line)

/-- The words suffice, and what the branch looks at before it runs the program is as it must be. -/
def Reaches (w : World) : Tool → List Str → Prop
  | .ping, _::_ | .traceroute, _::_ | .telnet, _::_ | .nslookup, _::_ | .ssh, _::_::_ => True
  | .ftp, _::_::_::_::_ | .scpget, _::_::_::_ => True
  | .scpput, _::_::name::_ => (w.fileExists (file name) ∨ w.isDir (file name)) ∧ w.chkPath (file name)
  | .delete, name::_ => ((w.fileExists (file name) ∨ w.isDir (file name)) ∧ w.chkPath (file name)) ∧
      w.readline (msgconfirm name) = some ("y" : Str)
  | .edit, name::_ => w.fileExists (file name) ∧ w.chkPath (file name)
  | _, _ => False

/-- `traceroute` has an option for the array, which holds it, and a name that is deleted is not cut off. -/
def Fits : Tool → List Str → Prop
  | .traceroute, _::r => ∃ opt ∈ r.head?, opt.length < 50
  | .delete, name::_ => name.length ≤ 491
  | _, _ => True

/-- The path that was looked at does not stray; a path that was not, being cut off or `vi`'s own, is inside. -/
def Steady (w : World) : Tool → List Str → Prop
  | .scpput, _::_::name::_ => if name.length ≤ 491 then ¬w.Strays ("/config/" ++ name) else w.Kept ("/config/" ++ name)
  | .delete, name::_ => ¬w.Strays ("/config/" ++ name)
  | .edit, name::_ =>
    if name.head? = some '/' then w.Kept name
    else if name.length ≤ 491 then ¬w.Strays ("/config/" ++ name) else w.Kept ("/config/" ++ name)
  | _, _ => True

def Safe (w : World) (line : Str) : Prop :=
  match request line with
  | .tool t args => Reaches w t args → Fits t args ∧ (∀ a ∈ argv t args, Plain a) ∧ Steady w t args
  | _ => True

namespace World

variable {w : World} {path : Str} {d : Pos}

theorem chdir_eq_some : w.chdir path = some d ↔ w.find path = some d ∧ w.tree.isDir d = true := Option.filter_eq_some_iff

theorem find_eq_some {p : Pos} : w.find path = some p ↔
    ¬(path = [] ∨ pathMax ≤ path.length) ∧ follow w.tree false maxLinks [] (components path) = some p := by
  rw [find,resolve,start,ite_self]
  split
  next h => simp [h]
  next h => simp [h]

theorem kept_of_find {p : Pos} (h : w.find path = some p) : w.Kept path ↔ w.Inside p := by
  have hr : resolve w.tree true [] path = some p := by
    obtain ⟨hc,hf⟩ := find_eq_some.mp h
    rw [resolve,if_neg hc,start,ite_self]
    exact follow_mono hf
  rw [Kept,hr]
  exact ⟨fun hk => hk p rfl,fun hi q hq => Option.some.inj hq ▸ hi⟩

theorem exists_last (name : Str) : ∃ a c, ("/config/" ++ name : Str) = a ++ '/'::c ∧ '/' ∉ c ∧ stripSlashes a ≠ [] := by
  obtain ⟨a,c,hac,hc⟩ := @MakeDirs.exists_last ("/config/" ++ name : Str) (List.mem_cons_self ..)
  refine ⟨a,c,hac,hc,fun hs => ?_⟩
  have hg : 'g' ∈ a := by
    have h : ("/config" : Str) ++ '/'::name = a ++ '/'::c := hac
    rcases List.append_eq_append_iff.mp h with ⟨x,rfl,-⟩ | ⟨x,hx,hy⟩
    · exact List.mem_append_left _ (by decide)
    · cases x with
      | nil =>
        rw [List.append_nil] at hx
        rw [← hx]
        decide
      | cons y x =>
        refine absurd ?_ hc
        rw [(List.cons.inj hy).2]
        simp
  have := List.rdropWhile_eq_nil_iff.mp hs 'g' hg
  exact absurd this (by decide)

/-- What a path in `/config` leads to, if that is no directory, is an entry of the directory that `dirname` leads to, or
what a link there leads to. -/
theorem entry_of_find {p : Pos} {name : Str} (h : w.find ("/config/" ++ name) = some p) (hp : w.tree.isDir p = false) :
    ∃ d, w.chdir (dirname ("/config/" ++ name)) = some d ∧
      (w.isLink ("/config/" ++ name) = true ∨ w.isLink ("/config/" ++ name) = false ∧ ∃ c, p = d ++ [c]) := by
  obtain ⟨a,c,hac,hc,hs⟩ := exists_last name
  rw [hac] at h ⊢
  obtain ⟨hl,hf⟩ := find_eq_some.mp h
  rw [components_append,components_single hc] at hf
  have hne : c ≠ [] := by
    rintro rfl
    rw [(follow_concat_stay (.inl rfl) hf).2] at hp
    cases hp
  obtain ⟨d,hd,hdir,he⟩ := follow_entry hf hp
  have hch : w.chdir (dirname (a ++ '/'::c)) = some d := by
    rw [dirname_append hc hne hs,chdir_eq_some,find_eq_some]
    refine ⟨⟨?_,follow_stripSlashes hd⟩,hdir⟩
    rintro (h | h)
    · exact hs h
    · have := length_stripSlashes a
      rw [List.length_append] at hl
      omega
  have hlink : w.isLink (a ++ '/'::c) = match w.tree.node (d ++ [c]) with
      | some (.file (.link _)) => true
      | _ => false := by
    rw [isLink,hch,components_append,components_single hc,List.getLastD_concat]
    rfl
  refine ⟨d,hch,?_⟩
  rw [hlink]
  rcases he with ⟨l,hn⟩ | ⟨⟨k,hn⟩,rfl⟩
  · simp [hn]
  · simp [hn]

theorem passes_of_chkPath (h : w.chkPath path = true) (hd : w.chdir path = some d) : w.passes d = true := by
  rw [chkPath,hd] at h
  exact h

theorem chkPath_of_none (h : w.chkPath path = true) (hd : w.chdir path = none) : w.chkPath (dirname path) = true := by
  rw [chkPath,hd] at h
  dsimp only at h
  split at h
  · cases h
  · exact h

theorem inside_concat {c : Name} (hd : w.tree.isDir (d ++ [c]) = false) : w.Inside (d ++ [c]) ↔ w.Inside d := by
  constructor
  · rintro ⟨r,hr,hp⟩
    refine ⟨r,hr,(List.prefix_concat_iff.mp hp).resolve_left fun he => ?_⟩
    rw [← he,(chdir_eq_some.mp hr).2] at hd
    cases hd
  · rintro ⟨r,hr,hp⟩
    exact ⟨r,hr,hp.trans (List.prefix_append _ _)⟩

theorem not_lookAlike (h : w.passes d = true) : ¬w.LookAlike d ↔ w.Inside d := by simp [LookAlike,h]

/-- A path in `/config` that is there and that `chk_path` lets pass is inside if and only if it does not stray. -/
theorem kept_iff {name : Str} (he : w.stat ("/config/" ++ name) ≠ none) (hc : w.chkPath ("/config/" ++ name) = true) :
    w.Kept ("/config/" ++ name) ↔ ¬w.Strays ("/config/" ++ name) := by
  obtain ⟨p,hp⟩ : ∃ p, w.find ("/config/" ++ name) = some p := by
    cases hf : w.find ("/config/" ++ name) with
    | none => simp [stat,hf] at he
    | some p => exact ⟨p,rfl⟩
  rw [kept_of_find hp,Strays]
  cases hd : w.chdir ("/config/" ++ name) with
  | some d =>
    obtain rfl : d = p := Option.some.inj ((chdir_eq_some.mp hd).1.symm.trans hp)
    exact (not_lookAlike (passes_of_chkPath hc hd)).symm
  | none =>
    have hdir : w.tree.isDir p = false := by
      by_contra hn
      simp [chdir,hp,hn] at hd
    obtain ⟨d,hd',hl | ⟨hl,c,rfl⟩⟩ := entry_of_find hp hdir
    · simp only [hl,if_true]
      rw [kept_of_find hp,not_not]
    · have hpass := passes_of_chkPath (chkPath_of_none hc hd) hd'
      rw [inside_concat hdir,← not_lookAlike hpass]
      simp [hl,hd']

end World

variable {w : World} {aopt : Str}

theorem join_cons (a b : Str) (as : List Str) : join (a::b::as) = a ++ ' '::join (b::as) := by
  rw [join,List.intercalate_cons_cons,List.append_assoc]
  rfl

theorem join_single (a : Str) : join [a] = a := List.intercalate_singleton

theorem file_eq {name : Str} (h : name.length ≤ 491) : file name = "/config/" ++ name := by
  rw [file,List.take_of_length_le]
  rw [List.length_append]
  change 8 + _ ≤ _
  omega

theorem looked_iff {a b c : Bool} : ¬((!a && !b) || !c) = true ↔ (a ∨ b) ∧ c := by
  cases a <;> cases b <;> cases c <;> decide

/-- Where it gets so far, the text that is handed over is made of the words that are meant. -/
theorem run_of_reaches {t : Tool} {args : List Str} (h : Reaches w t args) (hf : Fits t args) :
    ∃ b, run w aopt t args = .ran (join (argv t args)) b := by
  match t, args, h, hf with
  | .ping, _::_, _, _ | .telnet, _::_, _, _ | .ssh, _::_::_, _, _ | .ftp, _::_::_::_::_, _, _
  | .scpget, _::_::_::_, _, _ | .nslookup, [_], _, _ | .nslookup, _::_::_, _, _ =>
    refine ⟨false,?_⟩
    simp only [run,argv,List.take_succ_cons,List.take_zero,List.take_nil,join_cons,join_single,List.append_assoc]
    rfl
  | .traceroute, _::opt::_, _, hf =>
    have ho : opt.length < 50 := by simpa [Fits] using hf
    refine ⟨false,?_⟩
    simp only [run,if_pos ho,argv,List.take_succ_cons,List.take_zero,join_cons,join_single,List.append_assoc]
    rfl
  | .traceroute, [_], _, hf => simp [Fits] at hf
  | .scpput, host::user::name::r, h, _ =>
    refine ⟨false,?_⟩
    simp only [run,if_neg (looked_iff.mpr h),argv,join_cons,join_single,List.append_assoc]
    rfl
  | .delete, name::_, ⟨h,ha⟩, hf =>
    refine ⟨false,?_⟩
    simp only [run,if_neg (looked_iff.mpr h),ha,argv,join_cons,join_single]
    rw [file_eq hf]
    rfl
  | .edit, name::_, ⟨he,hc⟩, _ =>
    refine ⟨w.status ("vi " ++ name) != 0,?_⟩
    simp only [run,he,hc,argv,join_cons,join_single,Bool.not_true,Bool.or_false,Bool.false_eq_true,if_false]
    rfl

def Outcome.Idle : Outcome → Prop
  | .ran _ _ | .overrun => False
  | _ => True

theorem run_idle {t : Tool} {args : List Str} (h : ¬Reaches w t args) : (run w aopt t args).Idle := by
  fun_cases run w aopt t args
  case case10 hn => exact absurd (looked_iff.mp hn) h
  case case16 hn ha => exact absurd ⟨looked_iff.mp hn,ha⟩ h
  case case19 hn => exact absurd (by simpa [Reaches] using hn) h
  all_goals first
    | trivial
    | exact absurd trivial h

/-- A text that shows what stood in the array, or not all of a name, is another one. -/
theorem run_unfit {t : Tool} {args : List Str} (h : Reaches w t args) (hf : ¬Fits t args) :
    ∃ aopt, run w aopt t args = .overrun ∨
      ∃ text b, run w aopt t args = .ran text b ∧ ¬RunsJust text (argv t args) := by
  match t, args, h, hf with
  | .traceroute, host::opt::_, _, hf =>
    have ho : ¬opt.length < 50 := by simpa [Fits] using hf
    exact ⟨[],.inl (if_neg ho)⟩
  | .traceroute, [host], _, _ =>
    refine ⟨['\n'],.inr ⟨_,_,rfl,fun hr => ?_⟩⟩
    have hn := hr.2 fun a => [a]
    rw [fields,List.append_assoc,show (" " : Str) ++ ['\n'] = [' ','\n'] from rfl,scan_newline] at hn
    cases hn
  | .delete, name::_, ⟨h,ha⟩, hf =>
    refine ⟨[],.inr ⟨"rm -rf " ++ file name,false,?_,fun hr => ?_⟩⟩
    · simp only [run,if_neg (looked_iff.mpr h),ha,if_true]
    · have hj : ("rm -rf " ++ file name : Str) = join ["rm","-rf",file name] := by
        rw [join_cons,join_cons,join_single]
        rfl
      have hs : file name ++ ("/config/" ++ name : Str).drop 499 = "/config/" ++ name := List.take_append_drop ..
      have hne : ("/config/" ++ name : Str).drop 499 ≠ [] := by
        rw [Ne,List.drop_eq_nil_iff,List.length_append]
        change ¬8 + _ ≤ _
        simp only [Fits] at hf
        omega
      obtain ⟨c,hm⟩ := List.exists_mem_of_ne_nil _ hne
      have hi := ink_append (file name) (("/config/" ++ name : Str).drop 499)
      rw [hs] at hi
      rw [hj] at hr
      -- what is cut off would be blank, and part of a plain word
      have hle : inkAll ["rm","-rf","/config/" ++ name] ≤ ink (join ["rm","-rf",file name]) := hr.inkAll_le
      have hp := hr.plain (by
        rw [ink_join]
        simp only [inkAll,argv,List.map_cons,List.map_nil,List.sum_cons,List.sum_nil]
        omega) _ (show ("/config/" ++ name : Str) ∈ argv .delete (name::_) from by simp [argv])
      have hb := (hp.ordinary c (by rw [← hs]; exact List.mem_append_right _ hm)).1
      have hpos : 0 < ink (("/config/" ++ name : Str).drop 499) := List.countP_pos_iff.mpr ⟨c,hm,by simp [hb]⟩
      rw [ink_join] at hle
      simp only [inkAll,List.map_cons,List.map_nil,List.sum_cons,List.sum_nil] at hle
      omega
  | .ping, _, _, hf | .telnet, _, _, hf | .ssh, _, _, hf | .ftp, _, _, hf | .scpget, _, _, hf | .scpput, _, _, hf
  | .nslookup, _, _, hf | .edit, _, _, hf => exact absurd trivial hf

theorem argv_names {t : Tool} {args : List Str} (h : Reaches w t args) : Names (argv t args) := by
  match t, args, h with
  | .ping, _::_, _ | .traceroute, _::_, _ | .telnet, _::_, _ | .ssh, _::_::_, _ | .ftp, _::_::_::_::_, _
  | .scpget, _::_::_::_, _ | .scpput, _::_::_::_, _ | .nslookup, _::_, _ | .delete, _::_, _ | .edit, _::_, _ =>
    exact ⟨_,_,rfl,by decide,by decide⟩

theorem kept_config : w.Kept "/config/." := by
  intro p hp
  have hc : components ("/config/." : Str) = components ("/config" : Str) ++ [['.']] := by decide
  rw [resolve,if_neg (by decide),start,ite_self,hc] at hp
  obtain ⟨hf,hd⟩ := follow_concat_stay (.inr rfl) hp
  exact ⟨p,World.chdir_eq_some.mpr ⟨World.find_eq_some.mpr ⟨by decide,hf⟩,hd⟩,List.prefix_rfl⟩

theorem stat_of_exists {path : Str} (h : w.fileExists path = true ∨ w.isDir path = true) : w.stat path ≠ none := by
  intro hn
  rcases h with h | h
  · simp [World.fileExists,hn] at h
  · simp [World.isDir,hn] at h

theorem forall_mem_some {α : Type} {p : α → Prop} {a : α} : (∀ x ∈ some a, p x) ↔ p a := by simp

/-- The path that was looked at is inside if it does not stray. -/
theorem steady_iff {t : Tool} {args : List Str} (h : Reaches w t args) (hf : Fits t args) :
    (∀ path ∈ acts t args, w.Kept path) ↔ Steady w t args := by
  match t, args, h, hf with
  | .scpget, _, _, _ => exact iff_of_true (fun path hp => Option.mem_some_iff.mp hp ▸ kept_config) trivial
  | .scpput, _::_::name::_, ⟨he,hc⟩, _ =>
    rw [acts,forall_mem_some,Steady]
    split
    next hl =>
      rw [file_eq hl] at he hc
      exact World.kept_iff (stat_of_exists he) hc
    next => rfl
  | .delete, name::_, ⟨⟨he,hc⟩,_⟩, hf =>
    rw [file_eq hf] at he hc
    rw [acts,forall_mem_some]
    exact World.kept_iff (stat_of_exists he) hc
  | .edit, name::_, ⟨he,hc⟩, _ =>
    rw [acts,forall_mem_some,Steady]
    split
    · rfl
    · split
      next hl =>
        rw [file_eq hl] at he hc
        exact World.kept_iff (stat_of_exists (.inl he)) hc
      next => rfl
  | .ping, _, _, _ | .telnet, _, _, _ | .ssh, _, _, _ | .ftp, _, _, _ | .nslookup, _, _, _ | .traceroute, _, _, _ =>
    exact iff_of_true nofun trivial

/-- The restricted shell runs just the program that the line names, with the line's words, and not outside `/config`,
if and only if the line gets no program run, or one whose words are all plain, where `traceroute` has an option that
fits and the path that is looked at is the one that is used and does not stray. -/
theorem confined_iff (w : World) (line : Str) : Confined w line ↔ Safe w line := by
  rw [Confined,Safe]
  cases hr : request line with
  | help => exact iff_of_true (fun aopt => by rw [cmdExec,hr]; trivial) trivial
  | invalid => exact iff_of_true (fun aopt => by rw [cmdExec,hr]; trivial) trivial
  | tool t args =>
    have hc : ∀ aopt, cmdExec w aopt line = run w aopt t args := fun aopt => by rw [cmdExec,hr]
    simp only [hc]
    by_cases hre : Reaches w t args
    · by_cases hf : Fits t args
      · rw [← steady_iff hre hf,← runsJust_join (argv_names hre)]
        constructor
        · intro h _
          obtain ⟨b,hb⟩ := @run_of_reaches w [] _ _ hre hf
          have hrun := h []
          rw [hb] at hrun
          obtain ⟨t',args',he,hrun⟩ := hrun
          cases he
          exact ⟨hf,hrun⟩
        · intro h aopt
          obtain ⟨b,hb⟩ := @run_of_reaches w aopt _ _ hre hf
          rw [hb]
          exact ⟨t,args,rfl,(h hre).2⟩
      · refine iff_of_false (fun h => ?_) fun h => hf (h hre).1
        obtain ⟨aopt,ho | ⟨text,b,hb,hn⟩⟩ := run_unfit hre hf
        · have hrun := h aopt
          rwa [ho] at hrun
        · have hrun := h aopt
          rw [hb] at hrun
          obtain ⟨t',args',he,hrun,-⟩ := hrun
          cases he
          exact hn hrun
    · refine iff_of_true (fun aopt => ?_) fun h => absurd h hre
      have hi := @run_idle w aopt _ _ hre
      cases hrun : run w aopt t args with
      | ran text b => rw [hrun] at hi; exact hi.elim
      | overrun => rw [hrun] at hi; exact hi
      | _ => trivial

/-- `/config` and nothing else. -/
def bareWorld : World := ⟨ofLists [["config"]] [] (.other 0),none,fun _ => none,fun _ => 0⟩

/-- `exec ping a&reboot` is two commands, the first one in the background. -/
theorem second_command : (∀ aopt, cmdExec bareWorld aopt "exec ping a&reboot" = .ran "ping -c 5 -w 5 a&reboot" false) ∧
    (∀ expand, fields expand "ping -c 5 -w 5 a&reboot" = none) ∧ ¬Confined bareWorld "exec ping a&reboot" := by
  have hr : request "exec ping a&reboot" = .tool .ping ["a&reboot"] := by decide
  have hc : ∀ aopt, cmdExec bareWorld aopt "exec ping a&reboot" = .ran "ping -c 5 -w 5 a&reboot" false := fun aopt => by
    rw [cmdExec,hr]
    rfl
  have hn : scan .free none ("ping -c 5 -w 5 a&reboot" : Str) = none := by decide
  have hf : ∀ expand, fields expand "ping -c 5 -w 5 a&reboot" = none := fun expand => by rw [fields,hn]; rfl
  refine ⟨hc,hf,fun h => ?_⟩
  have h₀ := h []
  rw [hc] at h₀
  obtain ⟨t,args,-,hrun,-⟩ := h₀
  cases (hf _).symm.trans (hrun.2 fun a => [a])

end RestrictedShell
end Mybox
