import Mybox.AccessAccounts
import Mybox.Deletion

/-! `_SESSION_RESET_AUTH_PASSWORD` on the whole file: the settings as `_INI_TOKEN_GET` reads them, and every line of
`/etc/passwd`. -/
namespace Mybox
namespace AccessAccounts
open Php RegistryFormat Registry References

/-- Where `system.cfg` has the password of a class. -/
def Access.passwdKey : Access → Str × Str
  | console => ("system","CONSOLE_PASSWD")
  | ssh => ("service_ssh","PASSWD")
  | ftp => ("service_ftp","PASSWD")
  | admin => ("service_http","ADMIN")
  | look => ("service_http","LOOK")

/-- Where `system.cfg` has the user name, for a class with one that can be changed. -/
def Access.userKey : Access → Option (Str × Str)
  | ssh => some ("service_ssh","USER")
  | ftp => some ("service_ftp","USER")
  | console | admin | look => none

def settingAt (t : Token) (k : Str × Str) : Str := (t.getD k.1 ∅).val k.2

def passwdOf (t : Token) (c : Access) : Str := settingAt t c.passwdKey

def usernameOf (t : Token) (c : Access) : Str := (c.userKey.map (settingAt t)).getD []

/-- Settings that can stand in the fields of `/etc/passwd`. -/
abbrev Settings := {t : Token // ∀ c, Field (passwdOf t c) ∧ Field (usernameOf t c)}

def Settings.config (s : Settings) : Config := ⟨fun c => ⟨passwdOf s.1 c,(s.2 c).1⟩,fun c => ⟨usernameOf s.1 c,(s.2 c).2⟩⟩

/-- `/etc/passwd` and `etc_passwd.obj`; the latter is empty when there is none. -/
structure Files where
  etcPasswd : Str
  obj : OrdMap Access Entry
  deriving DecidableEq

def linesOf (s : Str) : List Line := (file s).map readLine

def saveText (ls : List Line) : Str := ls.flatMap fun l => l.text ++ ['\n']

/-- `_SESSION_RESET_AUTH_PASSWORD`, with whether it returns `TRUE`. -/
def sessionResetAuthPassword (s : Settings) (f : Files) : Bool × Files :=
  if s.1.isEmpty then (false,f)
  else if file f.etcPasswd = [] then (false,⟨f.etcPasswd,∅⟩)
  else (true,⟨saveText ((linesOf f.etcPasswd).map (resetLine s.config)),objOf s.config (linesOf f.etcPasswd)⟩)

def SevenFields (s : Str) : Prop := ∀ l ∈ file s, (split ':' l).length = 7

instance (s : Str) : Decidable (SevenFields s) := inferInstanceAs (Decidable (∀ l ∈ file s, _))

theorem text_readLine {l : Str} (h : (split ':' l).length = 7) : (readLine l).text = l := by
  have hi : [':'].intercalate (split ':' l) = l := List.intercalate_splitOn ':'
  obtain ⟨a,b,c,d,e,f,g,hs⟩ : ∃ a b c d e f g, split ':' l = [a,b,c,d,e,f,g] := by
    match hs : split ':' l, h with
    | [a,b,c,d,e,f,g], _ => exact ⟨a,b,c,d,e,f,g,rfl⟩
  rw [hs] at hi
  simpa [readLine,Line.text,hs] using hi

structure Line.Solid (l : Line) : Prop extends l.Fine where
  stop : ∀ c ∈ l.shell.getLast?, trimChar c = false

theorem Line.Solid.trim {l : Line} (h : l.Solid) : trim l.text = l.text := by
  have hs : l.shell.rdropWhile trimChar = l.shell := by
    rw [List.rdropWhile_eq_self_iff]
    intro hne
    simp [h.stop _ (List.getLast_mem_getLast? hne)]
  rw [trim_text h.start,hs]

theorem Line.Solid.file {ls : List Line} (h : ∀ l ∈ ls, l.Solid) : file (saveText ls) = ls.map Line.text := by
  induction ls with
  | nil => rfl
  | cons l ls ih =>
    have hl := h l (by simp)
    obtain ⟨hn,ht,-⟩ := read_text hl.toFine
    rw [hl.trim] at ht
    rw [saveText,List.flatMap_cons,List.append_assoc,List.singleton_append,file_line hn,hl.trim,if_neg ht,
      List.singleton_append,← saveText,ih fun m hm => h m (List.mem_cons_of_mem l hm),List.map_cons]

theorem last_split {l : Str} (h : (split ':' l).length = 7) {c : Char} (hc : c ∈ (readLine l).shell.getLast?) :
    c ∈ l.getLast? := by
  rw [← text_readLine h,Line.text_eq]
  cases hs : (readLine l).shell with
  | nil => simp [hs] at hc
  | cons d s =>
    rw [List.getLast?_append_of_ne_nil _ (by simp),List.getLast?_cons_cons,← hs]
    exact hc

theorem solid_readLine {s l : Str} (h : l ∈ file s) (h7 : (split ':' l).length = 7) : (readLine l).Solid := by
  refine ⟨fine_readLine h,fun c hc => ?_⟩
  simpa using (trimmed_iff.mp (mem_file h).2.1).2 c (last_split h7 hc)

theorem solid_resetLine {cfg : Config} {l : Line} (h : l.Solid) : (resetLine cfg l).Solid := by
  refine ⟨fine_resetLine h.toFine,?_⟩
  have hshell : ∀ c : Access, ∀ d ∈ c.shell.getLast?, trimChar d = false := by
    intro c
    cases c <;> decide
  unfold resetLine
  cases accountOf cfg l.fname with
  | none => exact h.stop
  | some c => exact hshell c

theorem resetLine_resetLine (cfg : Config) (l : Line) : resetLine cfg (resetLine cfg l) = resetLine cfg l := by
  cases h : accountOf cfg l.fname with
  | none =>
    have hl : resetLine cfg l = l := by rw [resetLine,h]
    rw [hl,hl]
  | some c => simp [resetLine,h]

theorem resetLine_fname (cfg : Config) (l : Line) : (resetLine cfg l).fname = l.fname := by
  unfold resetLine
  cases accountOf cfg l.fname <;> rfl

theorem objOf_congr (cfg : Config) {ls ls' : List Line} (h : ls.map Line.fname = ls'.map Line.fname) :
    objOf cfg ls = objOf cfg ls' := by
  have key : ∀ ls : List Line, objOf cfg ls =
      (ls.map Line.fname).foldl (fun m f => (accountOf cfg f).elim m fun c => m.set c (entry cfg c)) ∅ := by
    intro ls
    rw [List.foldl_map,objOf]
    congr 1
    funext m l
    cases accountOf cfg l.fname <;> rfl
  rw [key,key,h]

/-- What is kept of a line: all of it, unless its account is managed, and then only the fields of the class. -/
structure Reset (cfg : Config) (l l' : Line) : Prop where
  uid : l'.uid = l.uid
  gid : l'.gid = l.gid
  fname : l'.fname = l.fname
  unmanaged : accountOf cfg l.fname = none → l' = l
  managed : ∀ c, l.fname = c.fname → cfg.complete c = true →
    l'.user = (cfg.userOf c).1 ∧ l'.pass = (cfg.passwd c).1

theorem reset_resetLine (cfg : Config) (l : Line) : Reset cfg l (resetLine cfg l) := by
  unfold resetLine
  cases h : accountOf cfg l.fname with
  | none =>
    refine ⟨rfl,rfl,rfl,fun _ => rfl,fun c hf hc => ?_⟩
    rw [accountOf_eq_some.mpr ⟨hf,hc⟩] at h
    cases h
  | some d =>
    refine ⟨rfl,rfl,rfl,fun hn => by simp [h] at hn,fun c hf hc => ?_⟩
    rw [accountOf_eq_some.mpr ⟨hf,hc⟩,Option.some.injEq] at h
    rw [h]
    exact ⟨rfl,rfl⟩

theorem solid_lines {s : Str} (h : SevenFields s) (cfg : Config) : ∀ l ∈ (linesOf s).map (resetLine cfg), l.Solid := by
  intro l hl
  obtain ⟨m,hm,rfl⟩ := List.mem_map.mp hl
  obtain ⟨w,hw,rfl⟩ := List.mem_map.mp hm
  exact solid_resetLine (solid_readLine hw (h w hw))

theorem linesOf_saveText {ls : List Line} (h : ∀ l ∈ ls, l.Solid) : linesOf (saveText ls) = ls := by
  rw [linesOf,Line.Solid.file h,List.map_map]
  calc
    ls.map (readLine ∘ Line.text) = ls.map id := List.map_congr_left fun l hl => readLine_text (h l hl).colon
    _ = ls := List.map_id ls

theorem saveText_reset {s : Str} (h7 : SevenFields s) (cfg : Config) :
    List.Forall₂ (fun l l' => Reset cfg (readLine l) (readLine l') ∧
        (accountOf cfg (readLine l).fname = none → l' = l))
      (file s) (file (saveText ((linesOf s).map (resetLine cfg)))) := by
  have hsolid := solid_lines h7 cfg
  rw [Line.Solid.file hsolid,linesOf,List.map_map,List.map_map,List.forall₂_map_right_iff]
  refine List.forall₂_same.mpr fun l hl => ?_
  have hr : readLine (resetLine cfg (readLine l)).text = resetLine cfg (readLine l) :=
    readLine_text (hsolid _ (List.mem_map_of_mem (List.mem_map_of_mem hl))).colon
  simp only [Function.comp_apply]
  refine ⟨?_,fun hn => ?_⟩
  · rw [hr]
    exact reset_resetLine cfg (readLine l)
  · rw [(reset_resetLine cfg (readLine l)).unmanaged hn,text_readLine (h7 l hl)]

theorem saveText_again {s : Str} (h7 : SevenFields s) (cfg : Config) :
    linesOf (saveText ((linesOf s).map (resetLine cfg))) = (linesOf s).map (resetLine cfg) ∧
    ((linesOf s).map (resetLine cfg)).map (resetLine cfg) = (linesOf s).map (resetLine cfg) ∧
    objOf cfg ((linesOf s).map (resetLine cfg)) = objOf cfg (linesOf s) := by
  refine ⟨linesOf_saveText (solid_lines h7 cfg),?_,objOf_congr cfg ?_⟩
  · rw [List.map_map]
    exact List.map_congr_left fun l _ => resetLine_resetLine cfg l
  · rw [List.map_map]
    exact List.map_congr_left fun l _ => resetLine_fname cfg l

theorem Settings.empty_complete {s : Settings} (h : s.1.isEmpty = true) (c : Access) :
    s.config.complete c = false := by
  have hp : (s.config.passwd c).1 = [] := by
    change settingAt s.1 c.passwdKey = []
    rw [OrdMap.isEmpty_iff.mp h]
    rfl
  simp [Config.complete,hp]

/-- The settings of a `system.cfg` whose account fields have no colon in them. -/
def readSettings (env : Env) {w : World} (hc : Coherent "system" "system.cfg" w)
    (h : ∀ c, ':' ∉ passwdOf (entries "system" "system.cfg" w) c ∧ ':' ∉ usernameOf (entries "system" "system.cfg" w) c) :
    Settings :=
  ⟨(iniTokenGet env "system" "system.cfg" ∅ w).1,by
    have hval : ∀ k : Str × Str, k.2 ≠ dataId → ':' ∉ settingAt (entries "system" "system.cfg" w) k →
        Field (settingAt (entries "system" "system.cfg" w) k) := by
      intro k hk hn
      obtain ⟨ht,hl,-⟩ := readText_val hk (text "system" "system.cfg" w) k.1
      exact ⟨hn,hl,fun c hm => by simpa using (trimmed_iff.mp ht).1 c hm⟩
    rw [iniTokenGet_fst env "system" "system.cfg" hc]
    intro c
    constructor
    · exact hval _ (by cases c <;> decide) (h c).1
    · cases hu : c.userKey with
      | none =>
        rw [usernameOf,hu]
        exact ⟨by simp,by simp,by simp⟩
      | some k =>
        have hn := (h c).2
        rw [usernameOf,hu] at hn ⊢
        refine hval k ?_ hn
        cases c <;> simp only [Access.userKey,Option.some.injEq,reduceCtorEq] at hu
        iterate 2 rw [← hu]; decide⟩

/-- A second reset changes nothing, and the first changes only the lines of the managed accounts. -/
theorem reset_stable (env : Env) {w : World} (hc : Coherent "system" "system.cfg" w)
    (h : ∀ c, ':' ∉ passwdOf (entries "system" "system.cfg" w) c ∧ ':' ∉ usernameOf (entries "system" "system.cfg" w) c)
    (f : Files) (h7 : SevenFields f.etcPasswd) :
    List.Forall₂ (fun l l' => Reset (readSettings env hc h).config (readLine l) (readLine l') ∧
        (accountOf (readSettings env hc h).config (readLine l).fname = none → l' = l))
      (file f.etcPasswd) (file (sessionResetAuthPassword (readSettings env hc h) f).2.etcPasswd) ∧
    sessionResetAuthPassword (readSettings env hc h) (sessionResetAuthPassword (readSettings env hc h) f).2 =
      sessionResetAuthPassword (readSettings env hc h) f := by
  generalize readSettings env hc h = s
  by_cases he : s.1.isEmpty = true
  · have hs : ∀ g, sessionResetAuthPassword s g = (false,g) := fun g => by
      rw [sessionResetAuthPassword,if_pos he]
    simp only [hs,and_true]
    refine List.forall₂_same.mpr fun l _ => ⟨⟨rfl,rfl,rfl,fun _ => rfl,fun c _ hcm => ?_⟩,fun _ => rfl⟩
    simp [s.empty_complete he c] at hcm
  · by_cases hf : file f.etcPasswd = []
    · have hs : ∀ o, sessionResetAuthPassword s ⟨f.etcPasswd,o⟩ = (false,⟨f.etcPasswd,∅⟩) := fun o => by
        rw [sessionResetAuthPassword,if_neg he,if_pos hf]
      have hsf : sessionResetAuthPassword s f = (false,⟨f.etcPasswd,∅⟩) := hs f.obj
      rw [hsf]
      exact ⟨by simp [hf],hs ∅⟩
    · have hs : sessionResetAuthPassword s f =
          (true,⟨saveText ((linesOf f.etcPasswd).map (resetLine s.config)),objOf s.config (linesOf f.etcPasswd)⟩) := by
        rw [sessionResetAuthPassword,if_neg he,if_neg hf]
      have hlines := saveText_reset h7 s.config
      obtain ⟨h₁,h₂,h₃⟩ := saveText_again h7 s.config
      have hne : file (saveText ((linesOf f.etcPasswd).map (resetLine s.config))) ≠ [] := by
        intro hn
        rw [hn] at hlines
        exact hf (List.forall₂_nil_right_iff.mp hlines)
      rw [hs]
      refine ⟨hlines,?_⟩
      rw [sessionResetAuthPassword,if_neg he,if_neg hne,h₁,h₂,h₃]

/-- A box with a console password and an account for `ftp`. -/
def systemWorld : World := World.ofFiles [("system","system.cfg",
  "ID=system\nCONSOLE_PASSWD=$1$abcdefgh$x\n\nID=service_ftp\nUSER=files\nPASSWD=$1$ijklmnop$y\n")]

def passwdFiles : Files := ⟨("root:x:0:0:root:/root:/bin/sh\n" : Str) ++
  ("console:*:500:500:console:/config:/bin/iosh\nftp:*:502:502:ftp:/config:/bin/iosh\n" : Str),∅⟩

theorem reset_stable_ftp :
    List.Forall₂ (fun l l' => (readLine l').uid = (readLine l).uid ∧ (readLine l').fname = (readLine l).fname)
      (file passwdFiles.etcPasswd)
      (file (sessionResetAuthPassword (readSettings noonEnv (w:=systemWorld) (Or.inl (by decide))
        (by intro c; cases c <;> decide)) passwdFiles).2.etcPasswd) := by
  have h := (reset_stable noonEnv (w:=systemWorld) (Or.inl (by decide))
    (by intro c; cases c <;> decide) passwdFiles (by decide)).1
  exact h.imp fun l l' hl => ⟨hl.1.uid,hl.1.fname⟩

end AccessAccounts
end Mybox
