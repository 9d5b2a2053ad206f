import Mybox.OrderedMap
import Mybox.Php

/-! The accounts of the access classes: the settings of `system.cfg`, from which `_SESSION_RESET_AUTH_PASSWORD` writes
lines of `/etc/passwd`, and the checks a new user name and a new password have to pass. -/
namespace Mybox
namespace AccessAccounts
open Php

/-- The keys of `etc_passwd.obj`. -/
inductive Access
  | console
  | ssh
  | ftp
  | admin
  | look
  deriving DecidableEq

/-- What can stand in a field of `/etc/passwd`. -/
def Field (s : Str) : Prop := ':' ∉ s ∧ '\n' ∉ s ∧ ∀ c ∈ s.head?, trimChar c = false

instance (s : Str) : Decidable (Field s) := inferInstanceAs (Decidable (_ ∧ _))

abbrev Value := {s : Str // Field s}

def value (s : Str) (h : Field s := by decide) : Value := ⟨s,h⟩

def Access.fname : Access → Str
  | console => "console"
  | ssh => "ssh"
  | ftp => "ftp"
  | admin => "sysadmin"
  | look => "syslook"

def Access.fixedUser : Access → Option Value
  | console => some (value "console")
  | admin => some (value "sysadmin")
  | look => some (value "syslook")
  | ssh | ftp => none

def Access.home : Access → Str
  | admin | look => "/tmp"
  | _ => "/config"

def Access.shell : Access → Str
  | admin | look => "/bin/false"
  | _ => "/bin/iosh"

def classes : List Access := [.console,.ssh,.ftp,.admin,.look]

/-- The passwords and the user names of `system.cfg`; what is not set is empty. -/
structure Config where
  passwd : Access → Value
  user : Access → Value

def Config.userOf (cfg : Config) (c : Access) : Value := c.fixedUser.getD (cfg.user c)

def Config.complete (cfg : Config) (c : Access) : Bool := (cfg.passwd c).1 ≠ [] ∧ (cfg.userOf c).1 ≠ []

structure Line where
  user : Str
  pass : Str
  uid : Str
  gid : Str
  fname : Str
  home : Str
  shell : Str
  deriving DecidableEq

def readLine (l : Str) : Line :=
  let ws := split ':' l
  ⟨ws.getD 0 [],ws.getD 1 [],ws.getD 2 [],ws.getD 3 [],ws.getD 4 [],ws.getD 5 [],ws.getD 6 []⟩

def Line.text (l : Line) : Str := [':'].intercalate [l.user,l.pass,l.uid,l.gid,l.fname,l.home,l.shell]

/-- The class whose line it is, when the settings have what is written into it. -/
def accountOf (cfg : Config) (fname : Str) : Option Access :=
  classes.find? fun c => fname = c.fname && cfg.complete c

def resetLine (cfg : Config) (l : Line) : Line :=
  match accountOf cfg l.fname with
  | none => l
  | some c => ⟨(cfg.userOf c).1,(cfg.passwd c).1,l.uid,l.gid,l.fname,c.home,c.shell⟩

/-- An entry of `etc_passwd.obj`. -/
structure Entry where
  user : Str
  pass : Str
  salt : Str
  deriving DecidableEq

def entry (cfg : Config) (c : Access) : Entry := ⟨(cfg.userOf c).1,(cfg.passwd c).1,(cfg.passwd c).1.take 11⟩

def objOf (cfg : Config) (ls : List Line) : OrdMap Access Entry :=
  ls.foldl (fun m l => match accountOf cfg l.fname with
    | none => m
    | some c => m.set c (entry cfg c)) ∅

/-- The settings, the text of `/etc/passwd`, and the passwords themselves, which are stored nowhere. -/
structure State where
  cfg : Config
  etcPasswd : Str
  secret : Access → Option Str

def State.lines (st : State) : List Line := (file st.etcPasswd).map readLine

def State.obj (st : State) : OrdMap Access Entry := objOf st.cfg st.lines

/-- `_SESSION_RESET_AUTH_PASSWORD` -/
def reset (st : State) : State :=
  if file st.etcPasswd = [] then st
  else { st with etcPasswd := (st.lines.map (resetLine st.cfg)).flatMap fun l => l.text ++ ['\n'] }

def alnum (c : Char) : Bool := digit c || ('a' ≤ c && c ≤ 'z') || ('A' ≤ c && c ≤ 'Z')

theorem field_of_alnum {s : Str} (h : ∀ c ∈ s, alnum c = true) : Field s := by
  refine ⟨fun hm => absurd (h _ hm) (by decide),fun hm => absurd (h _ hm) (by decide),fun c hc => ?_⟩
  have ha := h c (List.mem_of_mem_head? hc)
  rw [Bool.eq_false_iff]
  intro ht
  simp only [trimChar,Bool.or_eq_true,decide_eq_true_eq] at ht
  rcases ht with ((((rfl | rfl) | rfl) | rfl) | rfl) | rfl <;> exact absurd ha (by decide)

/-- `_SESSION_CHECK_UNIX_USERNAME`; the loop over the characters finds nothing more. -/
def unixUsername (name : Str) : Option Value :=
  if h : name ≠ [] ∧ name.length ≤ 8 ∧ ∀ c ∈ name, alnum c = true then some ⟨name,field_of_alnum h.2.2⟩ else none

-- The commands. `crypt` is handed in; without a salt it makes one of eight characters up.
def saltChar (c : Char) : Bool := alnum c || c = '.' || c = '/'

abbrev Salt := {s : Str // s.length = 8 ∧ ∀ c ∈ s, saltChar c = true}

def saltText (s : Salt) : Str := ("$1$" : Str) ++ s.1

/-- A password of a class, for `ssh` and `ftp` with a user name. -/
structure Change where
  access : Access
  passwd : Str
  user : Str
  salt : Salt

def Access.named (c : Access) : Bool := c.fixedUser.isNone

def Change.name (ch : Change) : Str := if ch.access.named then ch.user else []

section Commands

variable (crypt : Str → Str → Value)

def userIn (obj : OrdMap Access Entry) (c : Access) : Str := ((obj.get? c).map Entry.user).getD []

/-- The loop of `_SESSION_CHECK_ACCESS_PASSWORD`. -/
def checkLoop (obj : OrdMap Access Entry) (access : Access) (passwd user : Str) : List (Access × Entry) → ℤ
  | [] => 1
  | (k,e)::es =>
    if k = access then checkLoop obj access passwd user es
    else if e.pass = [] ∨ e.salt = [] then checkLoop obj access passwd user es
    else if looseEq (crypt passwd e.salt).1 e.pass then 0
    else if user ≠ [] ∧ e.user ≠ [] ∧ ((access = .ssh ∧ looseEq user (userIn obj .ftp)) ∨
      (access = .ftp ∧ looseEq user (userIn obj .ssh))) then -1
    else checkLoop obj access passwd user es

def checkAccessPassword (obj : OrdMap Access Entry) (access : Access) (passwd user : Str) : ℤ :=
  if user ≠ [] ∧ (unixUsername user).isNone then -2 else checkLoop crypt obj access passwd user obj.entries

def setAccessPassword (st : State) (ch : Change) : State :=
  if ch.name ≠ [] ∧ (unixUsername ch.name).isNone then st
  else reset { st with
    cfg := {
      passwd := Function.update st.cfg.passwd ch.access (crypt ch.passwd (saltText ch.salt))
      user := Function.update st.cfg.user ch.access ((unixUsername ch.name).getD (st.cfg.user ch.access)) }
    secret := Function.update st.secret ch.access (some ch.passwd) }

/-- `___CLI_ACCESS_CONTROL_PASSWORD_SET`; the web page does the same. -/
def passwordSet (st : State) (ch : Change) : State :=
  if ch.passwd = [] then st
  else
    let st := reset st
    let ret := checkAccessPassword crypt st.obj ch.access ch.passwd ch.name
    if ret = 0 ∨ (ch.access.named = true ∧ (ret = -1 ∨ ret = -2)) then st else setAccessPassword crypt st ch

end Commands

def Line.named (l : Line) : Str × Str := (l.user,l.fname)

/-- The user names of `/etc/passwd`, each with the fifth field of its line. -/
def State.names (st : State) : List (Str × Str) := st.lines.map Line.named

def rename (cfg : Config) (n : Str × Str) : Str × Str :=
  match accountOf cfg n.2 with
  | none => n
  | some c => ((cfg.userOf c).1,n.2)

theorem named_resetLine (cfg : Config) (l : Line) : (resetLine cfg l).named = rename cfg l.named := by
  unfold resetLine rename Line.named
  cases accountOf cfg l.fname <;> rfl

theorem fname_injective {c d : Access} (h : c.fname = d.fname) : c = d := by
  cases c <;> cases d <;> first | rfl | exact absurd h (by decide)

theorem fixedUser_fname {c : Access} {u : Value} (h : c.fixedUser = some u) : u.1 = c.fname := by
  cases c with
  | ssh | ftp => cases h
  | console | admin | look =>
    obtain rfl := Option.some.inj h
    rfl

theorem mem_classes (c : Access) : c ∈ classes := by cases c <;> decide

theorem accountOf_eq_some {cfg : Config} {f : Str} {c : Access} :
    accountOf cfg f = some c ↔ f = c.fname ∧ cfg.complete c = true := by
  constructor
  · intro h
    have hp := List.find?_some h
    simpa using hp
  · rintro ⟨rfl,hc⟩
    cases hd : accountOf cfg c.fname with
    | none =>
      have hn := List.find?_eq_none.mp hd c (mem_classes c)
      simp [hc] at hn
    | some d =>
      have hp := List.find?_some hd
      simp only [Bool.and_eq_true,decide_eq_true_eq] at hp
      rw [fname_injective hp.1]

theorem accountOf_eq_none {cfg : Config} {f : Str} :
    accountOf cfg f = none ↔ ∀ c, cfg.complete c = true → f ≠ c.fname := by
  constructor
  · intro h c hc hf
    rw [accountOf_eq_some.mpr ⟨hf,hc⟩] at h
    cases h
  · intro h
    cases hd : accountOf cfg f with
    | none => rfl
    | some c =>
      obtain ⟨hf,hc⟩ := accountOf_eq_some.mp hd
      exact absurd hf (h c hc)

theorem rename_snd (cfg : Config) (n : Str × Str) : (rename cfg n).2 = n.2 := by
  unfold rename
  cases accountOf cfg n.2 <;> rfl

theorem rename_rename (cfg : Config) (n : Str × Str) : rename cfg (rename cfg n) = rename cfg n := by
  unfold rename
  cases h : accountOf cfg n.2 with
  | none => simp [h]
  | some c => simp [h]

theorem field_split {l w : Str} (hw : w ∈ split ':' l) : ':' ∉ w ∧ ∀ c ∈ w, c ∈ l :=
  ⟨fun hm => (LineText.mem_splitOn ':' hw hm).2 rfl,fun _ hc => (LineText.mem_splitOn ':' hw hc).1⟩

theorem head_split {l : Str} {c : Char} (h : c ∈ ((split ':' l).getD 0 []).head?) : c ∈ l.head? := by
  have hl : [':'].intercalate (split ':' l) = l := List.intercalate_splitOn ':'
  cases hs : split ':' l with
  | nil =>
    rw [hs] at h
    simp at h
  | cons w ws =>
    rw [hs] at h hl
    have hw : c ∈ w.head? := h
    cases ws with
    | nil => rwa [← hl,List.intercalate_singleton]
    | cons v vs =>
      rw [← hl,List.intercalate_cons_cons]
      cases w with
      | nil => simp at hw
      | cons d w => simpa using hw

structure Line.Fine (l : Line) : Prop where
  colon : ∀ w ∈ [l.user,l.pass,l.uid,l.gid,l.fname,l.home,l.shell], ':' ∉ w
  newline : ∀ w ∈ [l.user,l.pass,l.uid,l.gid,l.fname,l.home,l.shell], '\n' ∉ w
  start : ∀ c ∈ l.user.head?, trimChar c = false

theorem fine_readLine {s l : Str} (h : l ∈ file s) : (readLine l).Fine := by
  obtain ⟨-,ht,hn⟩ := mem_file h
  have key : ∀ k, ':' ∉ (split ':' l).getD k [] ∧ '\n' ∉ (split ':' l).getD k [] := by
    intro k
    rw [List.getD_eq_getElem?_getD]
    cases hk : (split ':' l)[k]? with
    | none => simp
    | some w =>
      have hm := List.mem_of_getElem? hk
      exact ⟨(field_split hm).1,fun hc => hn ((field_split hm).2 _ hc)⟩
  have hw : ∀ w ∈ [(readLine l).user,(readLine l).pass,(readLine l).uid,(readLine l).gid,(readLine l).fname,
      (readLine l).home,(readLine l).shell], ':' ∉ w ∧ '\n' ∉ w := by
    intro w hw
    simp only [readLine,List.mem_cons,List.not_mem_nil,or_false] at hw
    rcases hw with rfl | rfl | rfl | rfl | rfl | rfl | rfl <;> exact key _
  refine ⟨fun w h => (hw w h).1,fun w h => (hw w h).2,fun c hc => ?_⟩
  have hstart := ((LineText.stripped_iff trimChar).mp ht).1 c (head_split hc)
  simpa using hstart

theorem fine_resetLine {cfg : Config} {l : Line} (h : l.Fine) : (resetLine cfg l).Fine := by
  unfold resetLine
  cases accountOf cfg l.fname with
  | none => exact h
  | some c =>
    have hu := (cfg.userOf c).2
    have hp := (cfg.passwd c).2
    have hh : ':' ∉ c.home ∧ '\n' ∉ c.home ∧ ':' ∉ c.shell ∧ '\n' ∉ c.shell := by cases c <;> decide
    refine ⟨fun w hw => ?_,fun w hw => ?_,hu.2.2⟩
    · simp only [List.mem_cons,List.not_mem_nil,or_false] at hw
      rcases hw with rfl | rfl | rfl | rfl | rfl | rfl | rfl
      · exact hu.1
      · exact hp.1
      · exact h.colon _ (by simp)
      · exact h.colon _ (by simp)
      · exact h.colon _ (by simp)
      · exact hh.1
      · exact hh.2.2.1
    · simp only [List.mem_cons,List.not_mem_nil,or_false] at hw
      rcases hw with rfl | rfl | rfl | rfl | rfl | rfl | rfl
      · exact hu.2.1
      · exact hp.2.1
      · exact h.newline _ (by simp)
      · exact h.newline _ (by simp)
      · exact h.newline _ (by simp)
      · exact hh.2.1
      · exact hh.2.2.2

/-- Behind a black character blanks are only stripped at the end. -/
theorem rdropWhile_append_black {c : Char} (hc : trimChar c = false) (x y : Str) :
    (x ++ c::y).rdropWhile trimChar = x ++ c::y.rdropWhile trimChar := by
  rw [List.rdropWhile,List.reverse_append,List.reverse_cons,List.append_assoc,List.dropWhile_append]
  by_cases hy : (y.reverse.dropWhile trimChar).isEmpty = true
  · rw [if_pos hy,List.singleton_append,List.dropWhile_cons_of_neg (by simp [hc])]
    simp [List.rdropWhile,List.isEmpty_iff.mp hy]
  · rw [if_neg hy]
    simp [List.rdropWhile]

theorem Line.text_eq (l : Line) : l.text =
    (l.user ++ ':'::(l.pass ++ ':'::(l.uid ++ ':'::(l.gid ++ ':'::(l.fname ++ ':'::l.home))))) ++ ':'::l.shell := by
  simp [Line.text,List.intercalate_cons_cons]

theorem trim_text {l : Line} (h : ∀ c ∈ l.user.head?, trimChar c = false) :
    trim l.text = { l with shell := l.shell.rdropWhile trimChar }.text := by
  have hcolon : trimChar ':' = false := by decide
  have hstart : l.text.dropWhile trimChar = l.text := by
    rw [l.text_eq]
    cases hu : l.user with
    | nil => exact List.dropWhile_cons_of_neg (by simp [hcolon])
    | cons c u => exact List.dropWhile_cons_of_neg (by simp [h c (by simp [hu])])
  rw [trim,LineText.strip,hstart,l.text_eq,rdropWhile_append_black hcolon,Line.text_eq]

theorem readLine_text {l : Line} (h : ∀ w ∈ [l.user,l.pass,l.uid,l.gid,l.fname,l.home,l.shell], ':' ∉ w) :
    readLine l.text = l := by
  have hs : split ':' l.text = [l.user,l.pass,l.uid,l.gid,l.fname,l.home,l.shell] :=
    List.splitOn_intercalate ':' h (by simp)
  simp [readLine,hs]

theorem read_text {l : Line} (h : l.Fine) : '\n' ∉ l.text ∧ trim l.text ≠ [] ∧
    (readLine (trim l.text)).named = l.named := by
  rw [trim_text h.start]
  refine ⟨?_,?_,?_⟩
  · have hn : ∀ w ∈ [l.user,l.pass,l.uid,l.gid,l.fname,l.home,l.shell], '\n' ∉ w := h.newline
    simp only [List.forall_mem_cons] at hn
    rw [l.text_eq]
    simp [hn]
  · simp [Line.text_eq]
  · rw [readLine_text]
    · rfl
    · have hc := h.colon
      simp only [List.forall_mem_cons] at hc ⊢
      obtain ⟨h₁,h₂,h₃,h₄,h₅,h₆,h₇,-⟩ := hc
      exact ⟨h₁,h₂,h₃,h₄,h₅,h₆,fun hm => h₇ ((List.rdropWhile_prefix _ _).sublist.mem hm),by simp⟩

theorem names_reset (st : State) : (reset st).names = st.names.map (rename st.cfg) := by
  unfold reset
  split
  · rename_i h
    simp [State.names,State.lines,h]
  · have key : ∀ ls : List Line, (∀ l ∈ ls, l.Fine) →
        ((file (ls.flatMap fun l => l.text ++ ['\n'])).map readLine).map Line.named = ls.map Line.named := by
      intro ls
      induction ls with
      | nil => exact fun _ => rfl
      | cons l ls ih =>
        intro hls
        obtain ⟨hn,ht,hr⟩ := read_text (hls l (by simp))
        rw [List.flatMap_cons,List.append_assoc,List.singleton_append,file_line hn,if_neg ht,List.singleton_append,
          List.map_cons,List.map_cons,hr,ih fun m hm => hls m (List.mem_cons_of_mem l hm),List.map_cons]
    rw [State.names,State.lines,key]
    · simp [State.names,List.map_map,Function.comp_def,named_resetLine]
    · intro l hl
      obtain ⟨m,hm,rfl⟩ := List.mem_map.mp hl
      obtain ⟨w,hw,rfl⟩ := List.mem_map.mp hm
      exact fine_resetLine (fine_readLine hw)

theorem get?_objOf (cfg : Config) (ls : List Line) (c : Access) : (objOf cfg ls).get? c =
    if cfg.complete c = true ∧ ∃ l ∈ ls, l.fname = c.fname then some (entry cfg c) else none := by
  induction ls using List.reverseRecOn with
  | nil => simp [objOf]
  | append_singleton ls l ih =>
    have hstep : objOf cfg (ls ++ [l]) = match accountOf cfg l.fname with
        | none => objOf cfg ls
        | some d => (objOf cfg ls).set d (entry cfg d) := by
      rw [objOf,List.foldl_append,← objOf]
      rfl
    have hex : (∃ m ∈ ls ++ [l], m.fname = c.fname) ↔ (∃ m ∈ ls, m.fname = c.fname) ∨ l.fname = c.fname := by
      simp [or_and_right,exists_or]
    rw [hstep]
    simp only [hex]
    cases ha : accountOf cfg l.fname with
    | none =>
      have hno := accountOf_eq_none.mp ha c
      rw [ih]
      by_cases hc : cfg.complete c = true
      · simp [hc,hno hc]
      · simp [hc]
    | some d =>
      obtain ⟨hf,hd⟩ := accountOf_eq_some.mp ha
      rw [OrdMap.get?_set,ih]
      by_cases hdc : d = c
      · subst hdc
        rw [if_pos rfl,if_pos ⟨hd,Or.inr hf⟩]
      · have hne : l.fname ≠ c.fname := fun h => hdc (fname_injective (hf.symm.trans h))
        simp [hdc,hne]

theorem get?_obj (st : State) (c : Access) : st.obj.get? c =
    if st.cfg.complete c = true ∧ ∃ n ∈ st.names, n.2 = c.fname then some (entry st.cfg c) else none := by
  have h : (∃ n ∈ st.names, n.2 = c.fname) ↔ ∃ l ∈ st.lines, l.fname = c.fname := by
    simp [State.names,Line.named]
  rw [State.obj,get?_objOf]
  simp only [h]

variable {crypt : Str → Str → Value}

/-- A password and a name that pass are those of no entry they are compared with. -/
theorem checkLoop_passed {obj : OrdMap Access Entry} {access : Access} {passwd user : Str}
    {es : List (Access × Entry)} (h₀ : checkLoop crypt obj access passwd user es ≠ 0)
    (h₁ : checkLoop crypt obj access passwd user es ≠ -1) {k : Access} {e : Entry} (he : (k,e) ∈ es)
    (hk : k ≠ access) (hp : e.pass ≠ []) (hs : e.salt ≠ []) :
    looseEq (crypt passwd e.salt).1 e.pass = false ∧ (user ≠ [] → e.user ≠ [] →
      (access = .ssh → looseEq user (userIn obj .ftp) = false) ∧
        (access = .ftp → looseEq user (userIn obj .ssh) = false)) := by
  induction es with
  | nil => exact absurd he List.not_mem_nil
  | cons p es ih =>
    obtain ⟨j,f⟩ := p
    rw [checkLoop] at h₀ h₁
    by_cases hj : j = access
    · rw [if_pos hj] at h₀ h₁
      refine ih h₀ h₁ ((List.mem_cons.mp he).resolve_left fun heq => hk ?_)
      rw [← hj]
      exact congrArg Prod.fst heq
    rw [if_neg hj] at h₀ h₁
    by_cases hf : f.pass = [] ∨ f.salt = []
    · rw [if_pos hf] at h₀ h₁
      refine ih h₀ h₁ ((List.mem_cons.mp he).resolve_left fun heq => ?_)
      obtain ⟨-,rfl⟩ := Prod.mk.inj heq
      exact hf.elim hp hs
    rw [if_neg hf] at h₀ h₁
    by_cases hl : looseEq (crypt passwd f.salt).1 f.pass = true
    · rw [if_pos hl] at h₀
      exact absurd rfl h₀
    rw [if_neg hl] at h₀ h₁
    by_cases hu : user ≠ [] ∧ f.user ≠ [] ∧ ((access = .ssh ∧ looseEq user (userIn obj .ftp) = true) ∨
        (access = .ftp ∧ looseEq user (userIn obj .ssh) = true))
    · rw [if_pos hu] at h₁
      exact absurd rfl h₁
    rw [if_neg hu] at h₀ h₁
    rcases List.mem_cons.mp he with heq | he
    · obtain ⟨rfl,rfl⟩ := Prod.mk.inj heq
      refine ⟨by simpa using hl,fun hne hue => ⟨fun ha => ?_,fun ha => ?_⟩⟩
      · rw [Bool.eq_false_iff]
        exact fun hb => hu ⟨hne,hue,Or.inl ⟨ha,hb⟩⟩
      · rw [Bool.eq_false_iff]
        exact fun hb => hu ⟨hne,hue,Or.inr ⟨ha,hb⟩⟩
    · exact ih h₀ h₁ he

/-- The user names after the file is written anew are pairwise distinct, also from the fixed names of the other
classes, and no two classes share a password. -/
structure Distinct (st : State) : Prop where
  names : ((reset st).names.map Prod.fst).Nodup
  fixed : ∀ n ∈ (reset st).names, ∀ c : Access, n.2 ≠ c.fname → ∀ u ∈ c.fixedUser, n.1 ≠ u.1
  passwords : ∀ c d, c ≠ d → ∀ p ∈ st.secret c, p ∉ st.secret d

def Stored (crypt : Str → Str → Value) (st : State) : Prop := ∀ c,
  (st.secret c = none → (st.cfg.passwd c).1 = []) ∧
    ∀ p ∈ st.secret c, ∃ s : Salt, st.cfg.passwd c = crypt p (saltText s)

/-- The class the name of `ssh` or `ftp` is compared with. -/
def Access.other : Access → Access
  | ssh => ftp
  | ftp => ssh
  | c => c

def effectiveName (st : State) (ch : Change) : Str := if ch.name = [] then (st.cfg.user ch.access).1 else ch.name

/-- The class has a line in `/etc/passwd` and everything that is written into it. -/
def Entered (st : State) (c : Access) : Prop := st.cfg.complete c = true ∧ ∃ n ∈ st.names, n.2 = c.fname

/-- The class has at most one line; its new user name is not the name of another account, but for the one it is
compared with; and its new password is not that of a class that is not entered. -/
structure Unshared (st : State) (ch : Change) : Prop where
  line : st.names.Pairwise fun a b => ¬(a.2 = ch.access.fname ∧ b.2 = ch.access.fname)
  name : ch.access.named = true → ∀ n ∈ (reset st).names, n.2 ≠ ch.access.fname →
    n.1 ≠ effectiveName st ch ∨ (ch.name ≠ [] ∧ n.2 = ch.access.other.fname ∧ Entered st ch.access.other)
  fixed : ch.access.named = true → ∀ c : Access, ∀ u ∈ c.fixedUser, effectiveName st ch ≠ u.1
  password : ∀ c, c ≠ ch.access → ch.passwd ∈ st.secret c → Entered st c

theorem reset_cfg (st : State) : (reset st).cfg = st.cfg := by
  unfold reset
  split <;> rfl

theorem reset_secret (st : State) : (reset st).secret = st.secret := by
  unfold reset
  split <;> rfl

theorem names_reset_reset (st : State) : (reset (reset st)).names = (reset st).names := by
  rw [names_reset (reset st),reset_cfg,names_reset,List.map_map]
  refine List.map_congr_left fun n _ => ?_
  exact rename_rename st.cfg n

theorem Distinct.reset {st : State} (h : Distinct st) : Distinct (reset st) := by
  refine ⟨?_,?_,?_⟩
  · rw [names_reset_reset]
    exact h.names
  · rw [names_reset_reset]
    exact h.fixed
  · rw [reset_secret]
    exact h.passwords

theorem Stored.reset {st : State} (h : Stored crypt st) : Stored crypt (reset st) := by
  unfold Stored
  rw [reset_cfg,reset_secret]
  exact h

theorem entered_reset (st : State) (c : Access) : Entered (reset st) c ↔ Entered st c := by
  have h : (∃ n ∈ (reset st).names, n.2 = c.fname) ↔ ∃ n ∈ st.names, n.2 = c.fname := by
    rw [names_reset]
    constructor
    · rintro ⟨n,hn,hf⟩
      obtain ⟨m,hm,rfl⟩ := List.mem_map.mp hn
      exact ⟨m,hm,(rename_snd _ m).symm.trans hf⟩
    · rintro ⟨m,hm,hf⟩
      exact ⟨_,List.mem_map_of_mem hm,(rename_snd _ m).trans hf⟩
  unfold Entered
  rw [reset_cfg,h]

theorem name_of_reset {st : State} {n : Str × Str} (hn : n ∈ (reset st).names) {c : Access}
    (hc : st.cfg.complete c = true) (hf : n.2 = c.fname) : n.1 = (st.cfg.userOf c).1 := by
  rw [names_reset] at hn
  obtain ⟨m,-,rfl⟩ := List.mem_map.mp hn
  rw [rename_snd] at hf
  rw [rename,accountOf_eq_some.mpr ⟨hf,hc⟩]

theorem unixUsername_val {name : Str} {v : Value} (h : unixUsername name = some v) : v.1 = name ∧ name ≠ [] := by
  unfold unixUsername at h
  split at h
  · rename_i hc
    rw [Option.some.injEq] at h
    exact ⟨by rw [← h],hc.1⟩
  · cases h

def changed (crypt : Str → Str → Value) (cfg : Config) (ch : Change) : Config where
  passwd := Function.update cfg.passwd ch.access (crypt ch.passwd (saltText ch.salt))
  user := Function.update cfg.user ch.access ((unixUsername ch.name).getD (cfg.user ch.access))

theorem changed_other (crypt : Str → Str → Value) (cfg : Config) (ch : Change) {c : Access} (h : c ≠ ch.access) :
    (changed crypt cfg ch).userOf c = cfg.userOf c ∧ (changed crypt cfg ch).complete c = cfg.complete c := by
  have hu : (changed crypt cfg ch).userOf c = cfg.userOf c := by
    simp [changed,Config.userOf,Function.update_of_ne h]
  have hp : (changed crypt cfg ch).passwd c = cfg.passwd c := Function.update_of_ne h _ _
  exact ⟨hu,by rw [Config.complete,hu,hp]; rfl⟩

theorem checkLoop_nameless (obj : OrdMap Access Entry) (access : Access) (passwd : Str) (es : List (Access × Entry)) :
    checkLoop crypt obj access passwd [] es ≠ -1 := by
  have h₀ : (0 : ℤ) ≠ -1 := by decide
  have h₁ : (1 : ℤ) ≠ -1 := by decide
  induction es with
  | nil => exact h₁
  | cons p es ih =>
    obtain ⟨k,e⟩ := p
    rw [checkLoop]
    split_ifs with hk hp hl hu
    · exact ih
    · exact ih
    · exact h₀
    · exact absurd rfl hu.1
    · exact ih

/-- A command leaves the file, writes it anew, or takes over a password and a name that pass the check. -/
theorem passwordSet_cases (crypt : Str → Str → Value) (st : State) (ch : Change) : passwordSet crypt st ch = st ∨
    passwordSet crypt st ch = reset st ∨
    (checkLoop crypt (reset st).obj ch.access ch.passwd ch.name (reset st).obj.entries ≠ 0 ∧
      checkLoop crypt (reset st).obj ch.access ch.passwd ch.name (reset st).obj.entries ≠ -1 ∧
      (ch.name ≠ [] → ∃ v, unixUsername ch.name = some v) ∧
      passwordSet crypt st ch = reset { reset st with
        cfg := changed crypt st.cfg ch
        secret := Function.update st.secret ch.access (some ch.passwd) }) := by
  unfold passwordSet
  by_cases hp : ch.passwd = []
  · exact Or.inl (if_pos hp)
  rw [if_neg hp]
  refine Or.inr ?_
  dsimp only
  set ret := checkAccessPassword crypt (reset st).obj ch.access ch.passwd ch.name with hret
  by_cases hr : ret = 0 ∨ (ch.access.named = true ∧ (ret = -1 ∨ ret = -2))
  · exact Or.inl (if_pos hr)
  rw [if_neg hr]
  rw [not_or,not_and,not_or] at hr
  obtain ⟨h₀,h₁⟩ := hr
  have hname : ¬(ch.name ≠ [] ∧ (unixUsername ch.name).isNone = true) := by
    intro hn
    have hm : ch.access.named = true := by
      by_contra hm
      exact hn.1 (if_neg hm)
    rw [checkAccessPassword,if_pos hn] at hret
    exact (h₁ hm).2 hret
  have hloop : ret = checkLoop crypt (reset st).obj ch.access ch.passwd ch.name (reset st).obj.entries := by
    rw [hret,checkAccessPassword,if_neg hname]
  refine Or.inr ⟨hloop ▸ h₀,?_,fun hne => ?_,?_⟩
  · by_cases hm : ch.access.named = true
    · exact hloop ▸ (h₁ hm).1
    · have hn : ch.name = [] := if_neg hm
      rw [hn]
      exact checkLoop_nameless _ _ _ _
  · rw [not_and,Option.isNone_iff_eq_none] at hname
    exact Option.ne_none_iff_exists'.mp (hname hne)
  · rw [setAccessPassword,if_neg hname,reset_cfg,reset_secret]
    rfl

/-- The user name of a class after the change. -/
theorem userOf_changed (crypt : Str → Str → Value) (st : State) {ch : Change} (hv : ch.name ≠ [] → ∃ v, unixUsername ch.name = some v) :
    ((changed crypt st.cfg ch).userOf ch.access).1 =
      match ch.access.fixedUser with
      | some u => u.1
      | none => effectiveName st ch := by
  unfold Config.userOf changed effectiveName
  cases ch.access.fixedUser with
  | some u => rfl
  | none =>
    rw [Option.getD_none]
    dsimp only
    rw [Function.update_self]
    by_cases hn : ch.name = []
    · have hnone : unixUsername ch.name = none := by
        rw [hn]
        exact dif_neg fun h => h.1 rfl
      rw [if_pos hn,hnone]
      rfl
    · obtain ⟨v,hv⟩ := hv hn
      rw [if_neg hn,hv]
      exact (unixUsername_val hv).1

/-- The names after a change: that of the class is a new one. -/
theorem rename_changed (st : State) (ch : Change) {n : Str × Str} (hn : n ∈ (reset st).names) :
    rename (changed crypt st.cfg ch) n =
      if n.2 = ch.access.fname ∧ (changed crypt st.cfg ch).complete ch.access = true then
        (((changed crypt st.cfg ch).userOf ch.access).1,n.2)
      else n := by
  split
  · rename_i h
    rw [rename,accountOf_eq_some.mpr h]
  · rename_i h
    unfold rename
    cases ha : accountOf (changed crypt st.cfg ch) n.2 with
    | none => rfl
    | some c =>
      obtain ⟨hf,hc⟩ := accountOf_eq_some.mp ha
      have hne : c ≠ ch.access := by
        rintro rfl
        exact h ⟨hf,hc⟩
      obtain ⟨hu,hcc⟩ := changed_other crypt st.cfg ch hne
      have hnn := name_of_reset hn (hcc ▸ hc) hf
      dsimp only
      rw [hu,← hnn]

theorem entry_entered {st : State} {c : Access} (h : Entered st c) :
    (c,entry st.cfg c) ∈ (reset st).obj.entries ∧ (entry st.cfg c).pass ≠ [] ∧ (entry st.cfg c).salt ≠ [] ∧
      (entry st.cfg c).user ≠ [] := by
  have hget : (reset st).obj.get? c = some (entry st.cfg c) := by
    have h' := (entered_reset st c).mpr h
    unfold Entered at h'
    rw [get?_obj,if_pos h',reset_cfg]
  have hc := h.1
  simp only [Config.complete,decide_eq_true_eq] at hc
  refine ⟨OrdMap.get?_eq_some.mp hget,hc.1,fun hs => hc.1 ?_,hc.2⟩
  exact (List.take_eq_nil_iff.mp hs).resolve_left (by decide)

/-- A name that passes is not the one of the class it is compared with. -/
theorem name_compared {st : State} {ch : Change}
    (h₀ : checkLoop crypt (reset st).obj ch.access ch.passwd ch.name (reset st).obj.entries ≠ 0)
    (h₁ : checkLoop crypt (reset st).obj ch.access ch.passwd ch.name (reset st).obj.entries ≠ -1)
    (hm : ch.access.named = true) (hn : ch.name ≠ []) (he : Entered st ch.access.other) :
    ch.name ≠ (st.cfg.userOf ch.access.other).1 := by
  obtain ⟨hmem,hp,hs,hu⟩ := entry_entered he
  have hne : ch.access.other ≠ ch.access := by
    intro h
    cases ha : ch.access <;> rw [ha] at h hm <;> first | exact absurd h (by decide) | exact absurd hm (by decide)
  have hcmp := (checkLoop_passed h₀ h₁ hmem hne hp hs).2 hn hu
  have huser : userIn (reset st).obj ch.access.other = (st.cfg.userOf ch.access.other).1 := by
    rw [userIn,OrdMap.get?_eq_some.mpr hmem]
    rfl
  intro heq
  rw [← heq] at huser
  cases ha : ch.access with
  | ssh =>
    have hf := hcmp.1 ha
    rw [ha] at huser
    rw [show userIn (reset st).obj .ftp = ch.name from huser,looseEq_self] at hf
    exact absurd hf (by decide)
  | ftp =>
    have hf := hcmp.2 ha
    rw [ha] at huser
    rw [show userIn (reset st).obj .ssh = ch.name from huser,looseEq_self] at hf
    exact absurd hf (by decide)
  | console | admin | look =>
    rw [ha] at hm
    exact absurd hm (by decide)

/-- The name of the class after the change is that of no other account. -/
theorem name_unshared {st : State} (hd : Distinct st) {ch : Change} (hu : Unshared st ch)
    (h₀ : checkLoop crypt (reset st).obj ch.access ch.passwd ch.name (reset st).obj.entries ≠ 0)
    (h₁ : checkLoop crypt (reset st).obj ch.access ch.passwd ch.name (reset st).obj.entries ≠ -1)
    (hv : ch.name ≠ [] → ∃ v, unixUsername ch.name = some v) :
    (∀ n ∈ (reset st).names, n.2 ≠ ch.access.fname → n.1 ≠ ((changed crypt st.cfg ch).userOf ch.access).1) ∧
      ∀ c : Access, ch.access.fname ≠ c.fname → ∀ u ∈ c.fixedUser,
        ((changed crypt st.cfg ch).userOf ch.access).1 ≠ u.1 := by
  have hname := userOf_changed crypt st hv
  cases hf : ch.access.fixedUser with
  | some u =>
    rw [hf] at hname
    rw [hname]
    refine ⟨fun n hn hne => hd.fixed n hn ch.access hne u hf,fun c hc w hw => ?_⟩
    dsimp only
    rw [fixedUser_fname hf,fixedUser_fname hw]
    exact hc
  | none =>
    rw [hf] at hname
    have hm : ch.access.named = true := by rw [Access.named,hf]; rfl
    rw [hname]
    refine ⟨fun n hn hne => ?_,fun c _ u hc => hu.fixed hm c u hc⟩
    rcases hu.name hm n hn hne with h | ⟨hnn,hfn,he⟩
    · exact h
    · rw [effectiveName,if_neg hnn,name_of_reset hn he.1 hfn]
      exact (name_compared h₀ h₁ hm hnn he).symm

section Step

variable (hcrypt : ∀ p (s : Salt), (crypt p (saltText s)).1.take 11 = saltText s)
include hcrypt

/-- A password that passes is not the one of a class that is entered. -/
theorem password_compared {st : State} (hs : Stored crypt st) {ch : Change}
    (h₀ : checkLoop crypt (reset st).obj ch.access ch.passwd ch.name (reset st).obj.entries ≠ 0)
    (h₁ : checkLoop crypt (reset st).obj ch.access ch.passwd ch.name (reset st).obj.entries ≠ -1) {c : Access}
    (hc : c ≠ ch.access) (he : Entered st c) : ch.passwd ∉ st.secret c := by
  intro hp
  obtain ⟨s,hsalt⟩ := (hs c).2 _ hp
  obtain ⟨hmem,hpass,hne,-⟩ := entry_entered he
  have hl := (checkLoop_passed h₀ h₁ hmem hc hpass hne).1
  have htake : (entry st.cfg c).salt = saltText s := by
    rw [entry,hsalt]
    exact hcrypt _ s
  rw [htake,entry,hsalt,looseEq_self] at hl
  exact absurd hl (by decide)

theorem distinct_changed {st : State} (hd : Distinct st) (hs : Stored crypt st) {ch : Change} (hu : Unshared st ch)
    (h₀ : checkLoop crypt (reset st).obj ch.access ch.passwd ch.name (reset st).obj.entries ≠ 0)
    (h₁ : checkLoop crypt (reset st).obj ch.access ch.passwd ch.name (reset st).obj.entries ≠ -1)
    (hv : ch.name ≠ [] → ∃ v, unixUsername ch.name = some v) :
    Distinct (reset { reset st with
      cfg := changed crypt st.cfg ch
      secret := Function.update st.secret ch.access (some ch.passwd) }) := by
  obtain ⟨hother,hfixed⟩ := name_unshared hd hu h₀ h₁ hv
  have hline : (reset st).names.Pairwise fun a b => ¬(a.2 = ch.access.fname ∧ b.2 = ch.access.fname) := by
    rw [names_reset,List.pairwise_map]
    simpa only [rename_snd] using hu.line
  refine Distinct.reset ⟨?_,?_,?_⟩
  · rw [names_reset]
    change (((reset st).names.map (rename (changed crypt st.cfg ch))).map Prod.fst).Nodup
    have hn := List.pairwise_map.mp hd.names
    rw [List.map_map,List.Nodup,List.pairwise_map]
    refine (hn.and hline).imp_of_mem fun {a b} ha hb hab => ?_
    rw [Function.comp_apply,Function.comp_apply,rename_changed st ch ha,rename_changed st ch hb]
    split_ifs with h₁ h₂ h₂
    · exact absurd ⟨h₁.1,h₂.1⟩ hab.2
    · have hb2 : b.2 ≠ ch.access.fname := fun h => h₂ ⟨h,h₁.2⟩
      exact Ne.symm (hother b hb hb2)
    · have ha2 : a.2 ≠ ch.access.fname := fun h => h₁ ⟨h,h₂.2⟩
      exact hother a ha ha2
    · exact hab.1
  · rw [names_reset]
    change ∀ n ∈ (reset st).names.map (rename (changed crypt st.cfg ch)), _
    intro n hn c hc u hcu
    obtain ⟨m,hm,rfl⟩ := List.mem_map.mp hn
    rw [rename_snd] at hc
    rw [rename_changed st ch hm]
    split_ifs with h
    · exact hfixed c (h.1 ▸ hc) u hcu
    · exact hd.fixed m hm c hc u hcu
  · intro c d hcd p hp hp'
    dsimp only at hp hp'
    by_cases hca : c = ch.access
    · subst hca
      rw [Function.update_self,Option.mem_def,Option.some.injEq] at hp
      subst hp
      rw [Function.update_of_ne (Ne.symm hcd)] at hp'
      exact password_compared hcrypt hs h₀ h₁ (Ne.symm hcd) (hu.password d (Ne.symm hcd) hp') hp'
    · rw [Function.update_of_ne hca] at hp
      by_cases hda : d = ch.access
      · subst hda
        rw [Function.update_self,Option.mem_def,Option.some.injEq] at hp'
        subst hp'
        exact password_compared hcrypt hs h₀ h₁ hca (hu.password c hca hp) hp
      · rw [Function.update_of_ne hda] at hp'
        exact hd.passwords c d hcd p hp hp'

omit hcrypt in
theorem stored_changed {st : State} (hs : Stored crypt st) (ch : Change) : Stored crypt (reset { reset st with
    cfg := changed crypt st.cfg ch
    secret := Function.update st.secret ch.access (some ch.passwd) }) := by
  refine Stored.reset fun c => ?_
  dsimp only [changed]
  by_cases hc : c = ch.access
  · subst hc
    rw [Function.update_self,Function.update_self]
    refine ⟨fun h => absurd h (Option.some_ne_none _),fun p hp => ?_⟩
    obtain rfl := Option.some.inj hp
    exact ⟨ch.salt,rfl⟩
  · rw [Function.update_of_ne hc,Function.update_of_ne hc]
    exact hs c

theorem distinct_step {st : State} (hd : Distinct st) (hs : Stored crypt st) {ch : Change} (hu : Unshared st ch) :
    Distinct (passwordSet crypt st ch) ∧ Stored crypt (passwordSet crypt st ch) := by
  rcases passwordSet_cases crypt st ch with h | h | ⟨h₀,h₁,hv,h⟩ <;> rw [h]
  · exact ⟨hd,hs⟩
  · exact ⟨hd.reset,hs.reset⟩
  · exact ⟨distinct_changed hcrypt hd hs hu h₀ h₁ hv,stored_changed hs ch⟩

end Step

/-- In every run of commands that meet the condition the accounts stay distinct. -/
theorem accounts_distinct (crypt : Str → Str → Value)
    (hcrypt : ∀ p (s : Salt), (crypt p (saltText s)).1.take 11 = saltText s) (st : State) (hd : Distinct st)
    (hs : Stored crypt st) (chs : List Change)
    (hu : ∀ ms ch ns, chs = ms ++ ch::ns → Unshared (ms.foldl (passwordSet crypt) st) ch) :
    ∀ ms ns, chs = ms ++ ns → Distinct (ms.foldl (passwordSet crypt) st) := by
  have key : ∀ ms ns, chs = ms ++ ns → Distinct (ms.foldl (passwordSet crypt) st) ∧
      Stored crypt (ms.foldl (passwordSet crypt) st) := by
    intro ms
    induction ms using List.reverseRecOn with
    | nil => exact fun _ _ => ⟨hd,hs⟩
    | append_singleton ms ch ih =>
      intro ns h
      rw [List.append_assoc,List.singleton_append] at h
      obtain ⟨hd',hs'⟩ := ih _ h
      rw [List.foldl_append,List.foldl_cons,List.foldl_nil]
      exact distinct_step hcrypt hd' hs' (hu ms ch ns h)
  exact fun ms ns h => (key ms ns h).1

def fieldChar (c : Char) : Bool := c ≠ ':' && !trimChar c

theorem field_filter (s : Str) : Field (s.filter fieldChar) := by
  have h : ∀ c ∈ s.filter fieldChar, fieldChar c = true := fun c hc => (List.mem_filter.mp hc).2
  refine ⟨fun hm => absurd (h _ hm) (by decide),fun hm => absurd (h _ hm) (by decide),fun c hc => ?_⟩
  have hf := h c (List.mem_of_mem_head? hc)
  rw [fieldChar,Bool.and_eq_true] at hf
  simpa using hf.2

theorem fieldChar_salt {c : Char} (h : saltChar c = true) : fieldChar c = true := by
  have hcolon : c ≠ ':' := by
    rintro rfl
    exact absurd h (by decide)
  have ht : trimChar c = false := by
    rw [Bool.eq_false_iff]
    intro ht
    simp only [trimChar,Bool.or_eq_true,decide_eq_true_eq] at ht
    rcases ht with ((((rfl | rfl) | rfl) | rfl) | rfl) | rfl <;> exact absurd h (by decide)
  simp [fieldChar,hcolon,ht]

/-- The digest of one password; others are written behind their salt. -/
def md5crypt (passwd salt : Str) : Value :=
  if passwd = ("secret1" : Str) ∧ salt = ("$1$abcdefgh" : Str) then value "$1$abcdefgh$ywpTNDTYPzAT3Ohgseebp/"
  else ⟨(salt ++ '$'::passwd).filter fieldChar,field_filter _⟩

theorem take_md5crypt (p : Str) (s : Salt) : (md5crypt p (saltText s)).1.take 11 = saltText s := by
  unfold md5crypt
  split
  · rename_i h
    rw [h.2]
    decide
  · have hall : ∀ c ∈ saltText s, fieldChar c = true := by
      intro c hc
      rcases List.mem_append.mp hc with hc | hc
      · exact (by decide : ∀ c ∈ ("$1$" : Str), fieldChar c = true) c hc
      · exact fieldChar_salt (s.2.2 c hc)
    have hlen : (saltText s).length = 11 := by
      rw [saltText,List.length_append,s.2.1]
      rfl
    dsimp only
    rw [List.filter_append,List.filter_eq_self.mpr hall,List.take_left' hlen]

def freshBox : State where
  cfg := ⟨fun _ => value [],fun _ => value []⟩
  etcPasswd := List.flatMap (· ++ ['\n']) ["root:*:0:0:root:/root:/bin/false","console:*:500:500:console:/config:/bin/iosh",
    "remote:*:501:501:ssh:/config:/bin/iosh","files:*:502:502:ftp:/config:/bin/iosh",
    "sysadmin:*:503:503:sysadmin:/tmp:/bin/false","syslook:*:504:504:syslook:/tmp:/bin/false"]
  secret := fun _ => none

def freshNames : List (Str × Str) := [("root","root"),("console","console"),("remote","ssh"),("files","ftp"),
  ("sysadmin","sysadmin"),("syslook","syslook")]

theorem names_freshBox : freshBox.names = freshNames := by
  decide +kernel

theorem names_reset_freshBox : (reset freshBox).names = freshNames := by
  rw [names_reset,names_freshBox]
  decide

theorem distinct_freshBox : Distinct freshBox := by
  refine ⟨?_,?_,fun _ _ _ p hp => by cases hp⟩
  · rw [names_reset_freshBox]
    decide
  · rw [names_reset_freshBox]
    intro n hn c
    revert n
    cases c <;> decide

def salt1 : Salt := ⟨"abcdefgh",by decide⟩

/-- The name of the console's account is taken by the one for `ssh`. -/
theorem console_name_taken : Distinct freshBox ∧
    ¬Distinct (passwordSet md5crypt freshBox ⟨.ssh,"secret1","console",salt1⟩) :=
  ⟨distinct_freshBox,fun h => absurd h.names (by
    decide +kernel)⟩

theorem accounts_distinct_admin1 :
    Distinct ([(⟨.ssh,"secret1","admin1",salt1⟩ : Change)].foldl (passwordSet md5crypt) freshBox) := by
  refine accounts_distinct md5crypt take_md5crypt freshBox distinct_freshBox
    (fun c => ⟨fun _ => rfl,fun p hp => by cases hp⟩) [⟨.ssh,"secret1","admin1",salt1⟩] (fun ms ch ns h => ?_) _ [] rfl
  match ms, h with
  | [], h =>
    obtain rfl : _ = ch := (List.cons.inj h).1
    refine ⟨?_,?_,fun _ c => by cases c <;> decide,fun c _ hp => by cases hp⟩
    · rw [List.foldl_nil,names_freshBox]
      decide
    · rw [List.foldl_nil,names_reset_freshBox]
      intro _ n hn hne
      refine Or.inl ?_
      revert n
      decide
  | _::_, h => simp at h

end AccessAccounts
end Mybox
