import Mybox.Glob
import Mybox.Ipcalc
import Mybox.SshLog

/-! The files of the console, SSH and FTP sessions: the log lines of a login create them, those of a logout remove
them by a pattern. -/
namespace Mybox
namespace SessionFiles

open Php Patterns

/-- The names under the sessions path, and the addresses kept for the processes in `ssh_session.obj` and
`ftp_session.obj`. -/
structure Dir where
  files : List Str
  ssh : OrdMap Str Str
  ftp : OrdMap Str Str
  deriving DecidableEq

def Dir.empty : Dir := ⟨[],∅,∅⟩

def timeText : ℤ → Str
  | .ofNat n => decimal n
  | .negSucc n => '-'::decimal (n+1)

/-- `touch`; there are no directories under the path. -/
def touch (name : Str) (d : Dir) : Dir :=
  if name.contains '/' || d.files.contains name then d else { d with files := d.files ++ [name] }

/-- `_UNLINK`: the file of that name, otherwise the files the pattern finds. -/
def unlink (file : Str) (d : Dir) : Dir :=
  if d.files.contains file then { d with files := d.files.filter (· ≠ file) }
  else { d with files := d.files.filter fun f => !Glob.finds file f }

/-- `"{$_type}_{$_pid}_{$_ip}_"` -/
def stem (type pid ip : Str) : Str := type ++ '_'::pid ++ '_'::ip ++ ['_']

/-- `_SESSION_SSH` with `'1'`. -/
def sessionSshIn (pid : Str) (ldate : ℤ) (ip : Str) (d : Dir) : Dir :=
  touch (stem "ssh" pid ip ++ timeText ldate) { d with ssh := d.ssh.set pid ip }

/-- `_SESSION_SSH` with `'2'`. -/
def sessionSshOut (pid : Str) (d : Dir) : Dir :=
  let ip := (d.ssh.get? pid).getD []
  if ip ≠ [] then
    let d := unlink (stem "ssh" pid ip ++ ['*']) d
    { d with ssh := d.ssh.erase pid }
  else d

/-- `_SESSION_FTP` with `'1'`. -/
def sessionFtpIn (pid pid2 : Str) (ldate : ℤ) (ip : Str) (d : Dir) : Dir :=
  touch (stem "ftp" pid ip ++ timeText ldate ++ ['_']) { d with ftp := d.ftp.set pid (ip ++ '|'::pid2) }

/-- What both ways out of an FTP session do with an entry of `ftp_session.obj`. -/
def ftpClose (pid lx : Str) (d : Dir) : Dir :=
  let ip := (split '|' lx).headD []
  let d := unlink (stem "ftp" pid ip ++ ['*']) d
  { d with ftp := d.ftp.erase pid }

/-- `_SESSION_FTP` with `'2'`, for the processes that `_CHECK_PID` does not find. -/
def sessionFtpSweep (alive : Str → Bool) (d : Dir) : Dir :=
  d.ftp.entries.foldl (fun d e => if alive e.1 then d else ftpClose e.1 e.2 d) d

/-- `_SESSION_FTP` with `'3'`. -/
def sessionFtpOut (pid : Str) (d : Dir) : Dir :=
  match d.ftp.get? pid with
  | some lx => if lx ≠ [] then ftpClose pid lx d else d
  | none => d

/-- What the handlers find on the machine: `/etc/ssh/ssh_user`, `/etc/vsftpd/ftp_user` and what `_GET_PID` finds for
`ftpd`. -/
structure Machine where
  sshUser : Str
  ftpUser : Str
  ftpd : List Str

/-- A line of the log: date, program, process and message. -/
structure Line where
  time : ℤ
  prog : Str
  pid : Str
  msg : Str

def host (isIpv6 : Str → Bool) (m : Machine) (d : Dir) : SshLog.Host :=
  ⟨m.sshUser,fun pid => (d.ssh.get? pid).getD [],isIpv6⟩

/-- What an action of `_parse_sshlog` does to the files. -/
def perform (time : ℤ) (d : Dir) : SshLog.Action → Dir
  | .login pid _ ip => sessionSshIn pid time ip d
  | .logout pid _ => sessionSshOut pid d
  | _ => d

def parseSshlog (isIpv6 : Str → Bool) (m : Machine) (ldate : ℤ) (pid str : Str) (d : Dir) : Dir :=
  (SshLog.parseSshlog (host isIpv6 m d) (timeText ldate) pid str).2.foldl (perform ldate) d

/-- `\s+\[(\S+)\]\s+OK\s+LOGIN\:\s+Client\s+\"(\S+)\"` -/
def ftpPat : Pattern :=
  [SshLog.gap,.char '[',.plus SshLog.blackChar true,.char ']',SshLog.gap] ++ (word ("OK" : Str) ++ SshLog.gap::
    (word ("LOGIN:" : Str) ++ SshLog.gap::(word ("Client" : Str) ++
      [SshLog.gap,.char '"',.plus SshLog.blackChar true,.char '"'])))

/-- `$_pid2`: what follows the process in the list, the last time it does. -/
def pid2 (ppid : List Str) (pid : Str) : Str :=
  (ppid.foldl (fun (s : Bool × Str) x => if looseEq x pid then (true,s.2) else if s.1 then (false,x) else s)
    (false,[])).2

/-- The address of an FTP login, of the login account. -/
def ftpLogin (isIpv6 : Str → Bool) (m : Machine) (str : Str) : Option Str :=
  match search ftpPat str with
  | some [user,client] =>
    let ip := if SshLog.isIpv4 client || isIpv6 client then client else ("unknown" : Str)
    let ftpuser := if null m.ftpUser then ("ftpuser" : Str) else m.ftpUser
    if looseEq (trim user) ftpuser then some ip else none
  | _ => none

def parseFtplog (isIpv6 : Str → Bool) (m : Machine) (ldate : ℤ) (pid str : Str) (d : Dir) : Dir :=
  match ftpLogin isIpv6 m str with
  | some ip => sessionFtpIn pid (pid2 m.ftpd pid) ldate ip d
  | none => d

/-- `ECODE=(\d+)\s+TYPE=console\s+USER=console\s+IP=` and what follows it. -/
def consolePat : Pattern :=
  word ("ECODE=" : Str) ++ [.plus digit true,SshLog.gap] ++ (word ("TYPE=console" : Str) ++ SshLog.gap::
    (word ("USER=console" : Str) ++ SshLog.gap::(word ("IP=" : Str) ++ [.plus (fun _ => true) true])))

/-- `(.*?)\s+MSG=`, as short as it can be. -/
def upToMsg : Str → Option Str
  | [] => none
  | c::s =>
    if (matchAt (SshLog.gap::word ("MSG=" : Str)) (c::s)).isSome then some []
    else if c = '\n' then none
    else (upToMsg s).map (c::·)

def console : Str → Option (Str × Str)
  | [] => none
  | c::s =>
    match matchAt consolePat (c::s) with
    | some [code,rest] => ((upToMsg rest).map fun dev => (code,dev)).or (console s)
    | _ => console s

def parseLoginlog (time : ℤ) (msg pid : Str) (d : Dir) : Dir :=
  match console msg with
  | some (ecode,dev) =>
    if null dev then d
    else if looseEq ecode "00" then touch (stem "console" pid dev ++ timeText time) d
    else unlink (("console_" : Str) ++ pid ++ '_'::dev ++ (":*" : Str)) d
  | none => d

def read (isIpv6 : Str → Bool) (m : Machine) (l : Line) (d : Dir) : Dir :=
  if null l.prog || null l.msg then d
  else if lower l.prog = ("sshd" : Str) then parseSshlog isIpv6 m l.time l.pid l.msg d
  else if lower l.prog = ("vsftpd" : Str) then parseFtplog isIpv6 m l.time l.pid l.msg d
  else if lower l.prog = ("login" : Str) then parseLoginlog l.time l.msg l.pid d
  else d

/-- A line of the log, or a call of `_SESSION_FTP` that ends sessions: no line of the log does. -/
inductive Event
  | line (m : Machine) (l : Line)
  | ftpSweep (alive : Str → Bool)
  | ftpOut (pid : Str)

def step (isIpv6 : Str → Bool) (d : Dir) : Event → Dir
  | .line m l => read isIpv6 m l d
  | .ftpSweep alive => sessionFtpSweep alive d
  | .ftpOut pid => sessionFtpOut pid d

/-- The directory after a run; it is empty to begin with. -/
def after (isIpv6 : Str → Bool) (es : List Event) : Dir := es.foldl (step isIpv6) Dir.empty

inductive Kind
  | console
  | ssh
  | ftp
  deriving DecidableEq

def Kind.text : Kind → Str
  | console => "console"
  | ssh => "ssh"
  | ftp => "ftp"

structure Session where
  kind : Kind
  pid : Str
  addr : Str
  deriving DecidableEq

/-- The names of the files of a session begin with its kind, process and address. -/
def Session.Owns (s : Session) (f : Str) : Prop := stem s.kind.text s.pid s.addr <+: f

instance (s : Session) (f : Str) : Decidable (s.Owns f) := inferInstanceAs (Decidable (_ <+: _))

/-- What an event says about sessions; the logout of an SSH or FTP session names the process only. -/
inductive Mark
  | opens (s : Session)
  | consoleOut (pid dev : Str)
  | out (kind : Kind) (gone : Str → Bool)
  | other

def sshMark (isIpv6 : Str → Bool) (m : Machine) (pid str : Str) : Mark :=
  match search SshLog.pat1 str with
  | some r =>
    if looseEq (trim (r.getD 0 [])) (if null m.sshUser then ("sshuser" : Str) else m.sshUser) then
      .opens ⟨.ssh,pid,SshLog.peerIp (host isIpv6 m Dir.empty) (r.getD 1 [])⟩
    else .other
  | none => if (search SshLog.pat2 str).isSome then .out .ssh (· = pid) else .other

def consoleMark (pid msg : Str) : Mark :=
  match console msg with
  | some (ecode,dev) =>
    if null dev then .other else if looseEq ecode "00" then .opens ⟨.console,pid,dev⟩ else .consoleOut pid dev
  | none => .other

def ftpMark (isIpv6 : Str → Bool) (m : Machine) (pid str : Str) : Mark :=
  match ftpLogin isIpv6 m str with
  | some ip => .opens ⟨.ftp,pid,ip⟩
  | none => .other

def mark (isIpv6 : Str → Bool) : Event → Mark
  | .line m l =>
    if null l.prog || null l.msg then .other
    else if lower l.prog = ("sshd" : Str) then sshMark isIpv6 m l.pid l.msg
    else if lower l.prog = ("vsftpd" : Str) then ftpMark isIpv6 m l.pid l.msg
    else if lower l.prog = ("login" : Str) then consoleMark l.pid l.msg
    else .other
  | .ftpSweep alive => .out .ftp fun p => !alive p
  | .ftpOut pid => .out .ftp (· = pid)

def latest (k : Kind) (pid : Str) (ms : List Mark) : Option Str :=
  ms.foldl (fun a m => match m with
    | .opens s => if s.kind = k ∧ s.pid = pid then some s.addr else a
    | _ => a) none

/-- The sessions an event closes, after what has been before. -/
def Closes (ms : List Mark) (m : Mark) (s : Session) : Prop :=
  match m with
  | .consoleOut pid dev => s = ⟨.console,pid,dev⟩ ∧ .opens s ∈ ms
  | .out k gone => s.kind = k ∧ gone s.pid = true ∧ latest k s.pid ms = some s.addr
  | _ => False

/-- At every event of a run: nothing is left of the sessions it closes, and nothing else is removed. -/
def LifeCycle (isIpv6 : Str → Bool) (es : List Event) : Prop :=
  ∀ before e rest, es = before ++ e::rest →
    (∀ s, Closes (before.map (mark isIpv6)) (mark isIpv6 e) s →
      ∀ f ∈ (after isIpv6 (before ++ [e])).files, ¬ s.Owns f) ∧
    ∀ f ∈ (after isIpv6 before).files, f ∉ (after isIpv6 (before ++ [e])).files →
      ∃ s, Closes (before.map (mark isIpv6)) (mark isIpv6 e) s ∧ s.Owns f

def alnum (c : Char) : Bool := SshLog.wordChar c && c ≠ '_'

/-- Processes are numbers, and the terminals that the login program names are letters and digits. -/
def Logged : Event → Prop
  | .line _ l => (l.pid ≠ [] ∧ ∀ c ∈ l.pid, digit c = true) ∧
      ∀ r ∈ console l.msg, ∀ c ∈ r.2, alnum c = true
  | _ => True

instance (e : Event) : Decidable (Logged e) := by
  cases e <;> unfold Logged <;> infer_instance

def addrChar (c : Char) : Bool := alnum c || c = ':' || c = '.'

def Session.Good (s : Session) : Prop :=
  (∀ c ∈ s.pid, digit c = true) ∧ s.addr ≠ [] ∧ (∀ c ∈ s.addr, addrChar c = true) ∧
    (s.kind = .console → ∀ c ∈ s.addr, alnum c = true)

theorem alnum_plain {c : Char} (h : addrChar c = true) : c ∉ ['*','?','[','\\','{','/'] ∧ c ≠ '_' ∧ c ≠ '|' := by
  refine ⟨fun hm => ?_,?_,?_⟩
  · simp only [List.mem_cons,List.not_mem_nil,or_false] at hm
    rcases hm with rfl | rfl | rfl | rfl | rfl | rfl <;> exact absurd h (by decide)
  · rintro rfl
    exact absurd h (by decide)
  · rintro rfl
    exact absurd h (by decide)

theorem digit_addr {c : Char} (h : digit c = true) : addrChar c = true := by
  have hu : c ≠ '_' := by rintro rfl; exact absurd h (by decide)
  simp [addrChar,alnum,SshLog.wordChar,h,hu]

theorem kind_text (k : Kind) : ∀ c ∈ k.text, addrChar c = true := by
  cases k <;> decide

/-- Words before an underscore are the same when one text begins the other. -/
theorem word_prefix {a b x y : Str} (ha : '_' ∉ a) (hb : '_' ∉ b) (h : a ++ '_'::x <+: b ++ '_'::y) :
    a = b ∧ x <+: y := by
  induction a generalizing b with
  | nil =>
    cases b with
    | nil => exact ⟨rfl,(List.cons_prefix_cons.mp h).2⟩
    | cons c b => exact absurd (by simp [← (List.cons_prefix_cons.mp h).1]) hb
  | cons c a ih =>
    rw [List.mem_cons,not_or] at ha
    cases b with
    | nil => exact absurd (List.cons_prefix_cons.mp h).1.symm ha.1
    | cons d b =>
      rw [List.mem_cons,not_or] at hb
      obtain ⟨rfl,ht⟩ := List.cons_prefix_cons.mp h
      obtain ⟨rfl,hp⟩ := ih ha.2 hb.2 ht
      exact ⟨rfl,hp⟩

theorem under_not_mem {w : Str} (h : ∀ c ∈ w, addrChar c = true) : '_' ∉ w :=
  fun hm => (alnum_plain (h _ hm)).2.1 rfl

theorem Kind.text_inj {k k' : Kind} (h : k.text = k'.text) : k = k' := by
  revert h
  cases k <;> cases k' <;> decide

theorem Session.Good.pid {s : Session} (h : s.Good) : ∀ c ∈ s.pid, addrChar c = true :=
  fun c hc => digit_addr (h.1 c hc)

theorem Owns.unique {s s' : Session} (h : s.Good) (h' : s'.Good) {f : Str} (hf : s.Owns f) (hf' : s'.Owns f) :
    s = s' := by
  obtain ⟨k,p,a⟩ := s
  obtain ⟨k',p',a'⟩ := s'
  have key : ∀ {s s' : Session}, s.Good → s'.Good →
      stem s.kind.text s.pid s.addr <+: stem s'.kind.text s'.pid s'.addr → s = s' := by
    rintro ⟨k,p,a⟩ ⟨k',p',a'⟩ h h' hp
    have hw : ∀ (t p a : Str), stem t p a = t ++ '_'::(p ++ '_'::(a ++ '_'::[])) := fun t p a => by simp [stem]
    rw [hw,hw] at hp
    obtain ⟨hk,hp⟩ := word_prefix (under_not_mem (kind_text k)) (under_not_mem (kind_text k')) hp
    obtain ⟨rfl,hp⟩ := word_prefix (under_not_mem h.pid) (under_not_mem h'.pid) hp
    obtain ⟨rfl,-⟩ := word_prefix (under_not_mem h.2.2.1) (under_not_mem h'.2.2.1) hp
    rw [Kind.text_inj hk]
  rcases List.prefix_or_prefix_of_prefix hf hf' with hp | hp
  · exact key h h' hp
  · exact (key h' h hp).symm

theorem stem_plain {s : Session} (h : s.Good) : Glob.Plain (stem s.kind.text s.pid s.addr) := by
  have hall : ∀ c ∈ stem s.kind.text s.pid s.addr, addrChar c = true ∨ c = '_' := by
    intro c hc
    simp only [stem,List.mem_append,List.mem_cons,List.not_mem_nil,or_false] at hc
    rcases hc with ((hc | rfl | hc) | rfl | hc) | rfl
    · exact Or.inl (kind_text _ c hc)
    · exact Or.inr rfl
    · exact Or.inl (h.pid c hc)
    · exact Or.inr rfl
    · exact Or.inl (h.2.2.1 c hc)
    · exact Or.inr rfl
  intro c hc
  rcases hall c hc with ha | rfl
  · exact (alnum_plain ha).1
  · decide

theorem stem_ne (t p a : Str) : stem t p a ≠ [] := by simp [stem]

def kept (k : Kind) (d : Dir) (pid : Str) : Option Str :=
  match k with
  | .console => none
  | .ssh => d.ssh.get? pid
  | .ftp => (d.ftp.get? pid).map fun lx => (split '|' lx).headD []

def Dir.Starless (d : Dir) : Prop := ∀ f ∈ d.files, '*' ∉ f

theorem unlink_files {w : Str} (h : Glob.Plain w) (hne : w ≠ []) {d : Dir} (hd : d.Starless) (f : Str) :
    f ∈ (unlink (w ++ ['*']) d).files ↔ f ∈ d.files ∧ ¬ w <+: f := by
  have hn : d.files.contains (w ++ ['*']) = false := by
    rw [← Bool.not_eq_true,List.contains_iff_mem]
    intro hm
    exact hd _ hm (by simp)
  rw [unlink,hn,if_neg (by simp),List.mem_filter,Bool.not_eq_true',← Bool.not_eq_true,Glob.finds_plain h hne]

theorem unlink_ssh (w : Str) (d : Dir) : (unlink w d).ssh = d.ssh := by
  unfold unlink
  split <;> rfl

theorem unlink_ftp (w : Str) (d : Dir) : (unlink w d).ftp = d.ftp := by
  unfold unlink
  split <;> rfl

structure Opened (s : Session) (d d' : Dir) : Prop where
  file : ∃ f, s.Owns f ∧ '*' ∉ f ∧ ∀ g, g ∈ d'.files ↔ g ∈ d.files ∨ g = f
  kept : ∀ k p, k ≠ .console → kept k d' p = if s.kind = k ∧ s.pid = p then some s.addr else kept k d p

structure Shut (k : Kind) (gone : Str → Bool) (d d' : Dir) : Prop where
  files : ∀ f, f ∈ d'.files ↔ f ∈ d.files ∧ ∀ p a, gone p = true → kept k d p = some a → ¬ Session.Owns ⟨k,p,a⟩ f
  kept : ∀ k' p, kept k' d' p = if k' = k ∧ gone p = true then none else kept k' d p

theorem timeText_plain (t : ℤ) : ∀ c ∈ timeText t, c ≠ '*' ∧ c ≠ '/' := by
  have hd : ∀ n, ∀ c ∈ decimal n, c ≠ '*' ∧ c ≠ '/' := by
    intro n c hc
    have h := Nat.isDigit_of_mem_toDigits (by decide) (by decide) hc
    constructor <;> rintro rfl <;> exact absurd h (by decide)
  cases t with
  | ofNat n => exact hd n
  | negSucc n =>
    intro c hc
    rcases List.mem_cons.mp hc with rfl | hc
    · decide
    · exact hd _ c hc

theorem touch_files {w t : Str} (hw : Glob.Plain w) (ht : ∀ c ∈ t, c ≠ '*' ∧ c ≠ '/') (d : Dir) :
    w <+: w ++ t ∧ '*' ∉ w ++ t ∧ ∀ g, g ∈ (touch (w ++ t) d).files ↔ g ∈ d.files ∨ g = w ++ t := by
  have hm : ∀ c, c ∈ ['*','/'] → c ∉ w ++ t := by
    intro c hc hin
    rcases List.mem_append.mp hin with h | h
    · have := hw c h
      simp only [List.mem_cons,List.not_mem_nil,or_false] at hc
      rcases hc with rfl | rfl <;> simp at this
    · have := ht c h
      simp only [List.mem_cons,List.not_mem_nil,or_false] at hc
      rcases hc with rfl | rfl <;> simp at this
  refine ⟨List.prefix_append _ _,hm _ (by simp),fun g => ?_⟩
  have hs : (w ++ t).contains '/' = false := by
    rw [← Bool.not_eq_true,List.contains_iff_mem]
    exact hm _ (by simp)
  rw [touch,hs,Bool.false_or]
  split
  · rename_i hc
    rw [List.contains_iff_mem] at hc
    exact ⟨Or.inl,fun h => h.elim id fun h => h ▸ hc⟩
  · simp

theorem touch_ssh (w : Str) (d : Dir) : (touch w d).ssh = d.ssh := by
  unfold touch
  split <;> rfl

theorem touch_ftp (w : Str) (d : Dir) : (touch w d).ftp = d.ftp := by
  unfold touch
  split <;> rfl

theorem split_bar {ip : Str} (h : '|' ∉ ip) (t : Str) : (split '|' (ip ++ '|'::t)).headD [] = ip := by
  rw [split,List.splitOn_append_cons_self_of_not_mem h]
  rfl

theorem opened_ssh {s : Session} (h : s.Good) (hk : s.kind = .ssh) (t : ℤ) (d : Dir) :
    Opened s d (sessionSshIn s.pid t s.addr d) := by
  have hp := stem_plain h
  have ht := touch_files hp (timeText_plain t) { d with ssh := d.ssh.set s.pid s.addr }
  rw [hk] at ht
  refine ⟨⟨_,by rw [Session.Owns,hk]; exact ht.1,ht.2⟩,fun k p hc => ?_⟩
  cases k with
  | console => exact absurd rfl hc
  | ssh =>
    rw [kept,kept,sessionSshIn,touch_ssh,OrdMap.get?_set,hk]
    simp
  | ftp =>
    rw [kept,kept,sessionSshIn,touch_ftp,hk]
    simp

theorem opened_ftp {s : Session} (h : s.Good) (hk : s.kind = .ftp) (pid2 : Str) (t : ℤ) (d : Dir) :
    Opened s d (sessionFtpIn s.pid pid2 t s.addr d) := by
  have hp := stem_plain h
  have hu : ∀ c ∈ timeText t ++ ['_'], c ≠ '*' ∧ c ≠ '/' := by
    intro c hc
    rcases List.mem_append.mp hc with hc | hc
    · exact timeText_plain t c hc
    · rw [List.mem_singleton.mp hc]
      decide
  have ht := touch_files hp hu { d with ftp := d.ftp.set s.pid (s.addr ++ '|'::pid2) }
  rw [hk,← List.append_assoc] at ht
  have hb : '|' ∉ s.addr := fun hm => (alnum_plain (h.2.2.1 _ hm)).2.2 rfl
  refine ⟨⟨_,by rw [Session.Owns,hk]; exact ht.1,ht.2⟩,fun k p hc => ?_⟩
  cases k with
  | console => exact absurd rfl hc
  | ssh =>
    rw [kept,kept,sessionFtpIn,touch_ssh,hk]
    simp
  | ftp =>
    rw [kept,kept,sessionFtpIn,touch_ftp,OrdMap.get?_set,hk]
    by_cases hpid : s.pid = p
    · rw [if_pos hpid,if_pos ⟨rfl,hpid⟩,Option.map_some,split_bar hb]
    · rw [if_neg hpid,if_neg fun h => hpid h.2]

theorem opened_console {s : Session} (h : s.Good) (hk : s.kind = .console) (t : ℤ) (d : Dir) :
    Opened s d (touch (stem ("console" : Str) s.pid s.addr ++ timeText t) d) := by
  have ht := touch_files (stem_plain h) (timeText_plain t) d
  rw [hk] at ht
  refine ⟨⟨_,by rw [Session.Owns,hk]; exact ht.1,ht.2⟩,fun k p hc => ?_⟩
  rw [if_neg (by rw [hk]; exact fun h => hc h.1.symm)]
  cases k with
  | console => exact absurd rfl hc
  | ssh => rw [kept,kept,touch_ssh]
  | ftp => rw [kept,kept,touch_ftp]

def Dir.Good (d : Dir) : Prop := d.Starless ∧ ∀ k p a, kept k d p = some a → Session.Good ⟨k,p,a⟩

theorem shut_ssh {d : Dir} (h : d.Good) (pid : Str) : Shut .ssh (· = pid) d (sessionSshOut pid d) := by
  cases hg : d.ssh.get? pid with
  | none =>
    have hd : sessionSshOut pid d = d := by simp [sessionSshOut,hg]
    have hn : kept .ssh d pid = none := hg
    rw [hd]
    refine ⟨fun f => ⟨fun hf => ⟨hf,fun p a hp hk => ?_⟩,fun hf => hf.1⟩,fun k p => ?_⟩
    · obtain rfl : p = pid := by simpa using hp
      rw [hn] at hk
      simp at hk
    · split
      · rename_i hk
        obtain ⟨rfl,hp⟩ := hk
        obtain rfl : p = pid := by simpa using hp
        exact hn
      · rfl
  | some ip =>
    have hgood := h.2 .ssh pid ip hg
    have hne : ip ≠ [] := hgood.2.1
    have hd : sessionSshOut pid d = { unlink (stem "ssh" pid ip ++ ['*']) d with ssh := d.ssh.erase pid } := by
      simp [sessionSshOut,hg,hne,unlink_ssh]
    rw [hd]
    refine ⟨fun f => (unlink_files (stem_plain hgood) (stem_ne _ _ _) h.1 f).trans
      (and_congr_right fun _ => ⟨fun hn p a hp hk => ?_,fun hn => ?_⟩),fun k p => ?_⟩
    · obtain rfl : p = pid := by simpa using hp
      obtain rfl : ip = a := Option.some.inj (hg.symm.trans hk)
      exact hn
    · exact hn pid ip (by simp) hg
    · cases k with
      | console => simp [kept]
      | ssh => simp [kept,OrdMap.get?_erase,eq_comm]
      | ftp => simp [kept,unlink_ftp]

/-- The address in an entry of `ftp_session.obj`. -/
def entryIp (lx : Str) : Str := (split '|' lx).headD []

theorem ftpCloses {es : List (Str × Str)} {d : Dir} (hd : d.Starless)
    (hg : ∀ e ∈ es, Session.Good ⟨.ftp,e.1,entryIp e.2⟩) :
    let d' := es.foldl (fun d e => ftpClose e.1 e.2 d) d
    d'.ssh = d.ssh ∧ (∀ f, f ∈ d'.files ↔ f ∈ d.files ∧ ∀ e ∈ es, ¬ Session.Owns ⟨.ftp,e.1,entryIp e.2⟩ f) ∧
      ∀ p, d'.ftp.get? p = if p ∈ es.map Prod.fst then none else d.ftp.get? p := by
  induction es generalizing d with
  | nil => exact ⟨rfl,by simp,by simp⟩
  | cons e es ih =>
    have hu := unlink_files (stem_plain (hg e (by simp))) (stem_ne _ _ _) hd
    have hs : (ftpClose e.1 e.2 d).Starless := fun f hf => hd f ((hu f).mp hf).1
    obtain ⟨h₁,h₂,h₃⟩ := ih hs fun x hx => hg x (List.mem_cons_of_mem _ hx)
    refine ⟨h₁.trans (unlink_ssh _ _),fun f => (h₂ f).trans ?_,fun p => (h₃ p).trans ?_⟩
    · rw [List.forall_mem_cons,← and_assoc]
      exact and_congr_left fun _ => hu f
    · have he : (ftpClose e.1 e.2 d).ftp.get? p = if e.1 = p then none else d.ftp.get? p := by
        rw [ftpClose,OrdMap.get?_erase,unlink_ftp]
      rw [he]
      by_cases hp : e.1 = p
      · simp [hp]
      · have hm : p ∈ (e::es).map Prod.fst ↔ p ∈ es.map Prod.fst :=
          List.mem_cons.trans (or_iff_right (Ne.symm hp))
        simp only [hm,if_neg hp]

theorem kept_ftp {d : Dir} {p a : Str} : kept .ftp d p = some a ↔ ∃ lx, d.ftp.get? p = some lx ∧ entryIp lx = a :=
  Option.map_eq_some_iff

theorem shut_ftp {d : Dir} (h : d.Good) {es : List (Str × Str)} {gone : Str → Bool}
    (he : ∀ p lx, (p,lx) ∈ es ↔ d.ftp.get? p = some lx ∧ gone p = true) :
    Shut .ftp gone d (es.foldl (fun d e => ftpClose e.1 e.2 d) d) := by
  have hg : ∀ e ∈ es, Session.Good ⟨.ftp,e.1,entryIp e.2⟩ := fun e hm =>
    h.2 .ftp e.1 _ (kept_ftp.mpr ⟨e.2,((he e.1 e.2).mp hm).1,rfl⟩)
  obtain ⟨h₁,h₂,h₃⟩ := ftpCloses h.1 hg
  refine ⟨fun f => (h₂ f).trans (and_congr_right fun _ => ⟨fun hn p a hp hk => ?_,fun hn e hm => ?_⟩),fun k p => ?_⟩
  · obtain ⟨lx,hl,rfl⟩ := kept_ftp.mp hk
    exact hn (p,lx) ((he p lx).mpr ⟨hl,hp⟩)
  · obtain ⟨hl,hp⟩ := (he e.1 e.2).mp hm
    exact hn e.1 _ hp (kept_ftp.mpr ⟨e.2,hl,rfl⟩)
  · cases k with
    | console => simp [kept]
    | ssh => simp [kept,h₁]
    | ftp =>
      have hm : p ∈ es.map Prod.fst ↔ gone p = true ∧ (d.ftp.get? p).isSome = true := by
        rw [List.mem_map,Option.isSome_iff_exists]
        constructor
        · rintro ⟨e,hm,rfl⟩
          obtain ⟨hl,hp⟩ := (he e.1 e.2).mp hm
          exact ⟨hp,e.2,hl⟩
        · rintro ⟨hp,lx,hl⟩
          exact ⟨(p,lx),(he p lx).mpr ⟨hl,hp⟩,rfl⟩
      rw [kept,kept,h₃]
      cases hl : d.ftp.get? p with
      | none => simp
      | some lx =>
        rw [hl,Option.isSome_some,eq_self,and_true] at hm
        simp only [hm,true_and]
        split <;> rfl

theorem shut_sweep {d : Dir} (h : d.Good) (alive : Str → Bool) :
    Shut .ftp (fun p => !alive p) d (sessionFtpSweep alive d) := by
  have hf : sessionFtpSweep alive d =
      (d.ftp.entries.filter fun e => !alive e.1).foldl (fun d e => ftpClose e.1 e.2 d) d := by
    rw [sessionFtpSweep,List.foldl_filter]
    congr 1
    funext d e
    cases alive e.1 <;> rfl
  rw [hf]
  exact shut_ftp h fun p lx => by rw [List.mem_filter,OrdMap.get?_eq_some]

theorem shut_out {d : Dir} (h : d.Good) (pid : Str) : Shut .ftp (· = pid) d (sessionFtpOut pid d) := by
  cases hl : d.ftp.get? pid with
  | none =>
    have hf : sessionFtpOut pid d = ([] : List (Str × Str)).foldl (fun d e => ftpClose e.1 e.2 d) d := by
      rw [sessionFtpOut,hl]
      rfl
    rw [hf]
    refine shut_ftp h fun p lx => ⟨fun hm => by simp at hm,fun ⟨hp,hpid⟩ => ?_⟩
    obtain rfl : p = pid := by simpa using hpid
    rw [hl] at hp
    simp at hp
  | some lx =>
    have hgood := h.2 .ftp pid _ (kept_ftp.mpr ⟨lx,hl,rfl⟩)
    have hne : lx ≠ [] := by
      rintro rfl
      exact hgood.2.1 rfl
    have hf : sessionFtpOut pid d = [(pid,lx)].foldl (fun d e => ftpClose e.1 e.2 d) d := by
      rw [sessionFtpOut,hl]
      exact if_pos hne
    rw [hf]
    refine shut_ftp h fun p lx' => ?_
    rw [List.mem_singleton,Prod.mk.injEq]
    constructor
    · rintro ⟨rfl,rfl⟩
      exact ⟨hl,by simp⟩
    · rintro ⟨hp,hpid⟩
      obtain rfl : p = pid := by simpa using hpid
      exact ⟨rfl,Option.some.inj (hp.symm.trans hl)⟩

def Mark.Good : Mark → Prop
  | .opens s => s.Good
  | .consoleOut pid dev => Session.Good ⟨.console,pid,dev⟩
  | .out k _ => k ≠ .console
  | .other => True

def Moves : Mark → Dir → Dir → Prop
  | .opens s, d, d' => Opened s d d'
  | .out k gone, d, d' => Shut k gone d d'
  | _, d, d' => d' = d

def Dir.Owned (d : Dir) : Prop := ∀ f ∈ d.files, ∃ s : Session, s.Good ∧ s.Owns f

/-- The pattern of a console logout begins no name. -/
theorem console_missed {pid dev f : Str} (h : Session.Good ⟨.console,pid,dev⟩) {s : Session} (hs : s.Good)
    (hf : s.Owns f) : ¬ ("console_" : Str) ++ pid ++ '_'::dev ++ [':'] <+: f := by
  intro hp
  have hc : ("console_" : Str) ++ pid ++ '_'::dev ++ [':'] = Kind.console.text ++ '_'::(pid ++ '_'::(dev ++ [':'])) := by
    simp only [List.append_assoc,List.cons_append]
    rfl
  have hw : stem s.kind.text s.pid s.addr = s.kind.text ++ '_'::(s.pid ++ '_'::(s.addr ++ ['_'])) := by simp [stem]
  have hk := under_not_mem (kind_text .console)
  have hk' := under_not_mem (kind_text s.kind)
  have hd := under_not_mem h.2.2.1
  rw [hc] at hp
  rw [Session.Owns,hw] at hf
  rcases List.prefix_or_prefix_of_prefix hp hf with hq | hq
  · obtain ⟨ht,hq⟩ := word_prefix hk hk' hq
    obtain ⟨-,hq⟩ := word_prefix (under_not_mem h.pid) (under_not_mem hs.pid) hq
    have hm : ':' ∈ s.addr ++ ['_'] := hq.subset (by simp)
    have ha : ':' ∈ s.addr := (List.mem_append.mp hm).resolve_right (by simp)
    exact absurd (hs.2.2.2 (Kind.text_inj ht).symm _ ha) (by decide)
  · obtain ⟨-,hq⟩ := word_prefix hk' hk hq
    obtain ⟨-,hq⟩ := word_prefix (under_not_mem hs.pid) (under_not_mem h.pid) hq
    have hm : '_' ∈ dev ++ [':'] := hq.subset (by simp)
    exact hd ((List.mem_append.mp hm).resolve_right (by simp))

theorem unlink_console {pid dev : Str} (h : Session.Good ⟨.console,pid,dev⟩) {d : Dir} (hd : d.Starless)
    (ho : d.Owned) : unlink (("console_" : Str) ++ pid ++ '_'::dev ++ (":*" : Str)) d = d := by
  have hp : Glob.Plain (("console_" : Str) ++ pid ++ '_'::dev ++ [':']) := by
    intro c hc
    simp only [List.mem_append,List.mem_cons,List.not_mem_nil,or_false] at hc
    rcases hc with ((hc | hc) | rfl | hc) | rfl
    · exact (by decide : ∀ c ∈ ("console_" : Str), c ∉ ['*','?','[','\\','{','/']) c hc
    · exact (alnum_plain (h.pid c hc)).1
    · decide
    · exact (alnum_plain (h.2.2.1 c hc)).1
    · decide
  have hw : ("console_" : Str) ++ pid ++ '_'::dev ++ (":*" : Str) =
      ("console_" : Str) ++ pid ++ '_'::dev ++ [':'] ++ ['*'] := by
    simp only [List.append_assoc]
    rfl
  have hn : d.files.contains (("console_" : Str) ++ pid ++ '_'::dev ++ [':'] ++ ['*']) = false := by
    rw [← Bool.not_eq_true,List.contains_iff_mem]
    exact fun hm => hd _ hm (by simp)
  have hall : d.files.filter (fun f => !Glob.finds (("console_" : Str) ++ pid ++ '_'::dev ++ [':'] ++ ['*']) f) =
      d.files := by
    refine List.filter_eq_self.mpr fun f hf => ?_
    obtain ⟨s,hs,hsf⟩ := ho f hf
    rw [Bool.not_eq_true',← Bool.not_eq_true,Glob.finds_plain hp (by simp)]
    exact console_missed h hs hsf
  rw [hw,unlink,hn,if_neg (by simp),hall]

section Step

variable {isIpv6 : Str → Bool} (hv : ∀ s, isIpv6 s = true → s ≠ [] ∧ ∀ c ∈ s, hexDigit c = true ∨ c = ':' ∨ c = '.')

include hv

theorem ip_good {s : Str} (h : (SshLog.isIpv4 s || isIpv6 s) = true) : s ≠ [] ∧ ∀ c ∈ s, addrChar c = true := by
  rcases Bool.or_eq_true_iff.mp h with h | h
  · obtain ⟨hc,⟨c,t,rfl,-⟩,-⟩ := SshLog.isIpv4_chars h
    refine ⟨by simp,fun c hm => ?_⟩
    rcases hc c hm with rfl | hd
    · decide
    · exact digit_addr hd
  · obtain ⟨hne,hc⟩ := hv s h
    refine ⟨hne,fun c hm => ?_⟩
    rcases hc c hm with hx | rfl | rfl
    · have hu : c ≠ '_' := by rintro rfl; exact absurd hx (by decide)
      have hr : digit c = true ∨ ('a' ≤ c ∧ c ≤ 'z') ∨ 'A' ≤ c ∧ c ≤ 'Z' := by
        simp only [hexDigit,Bool.or_eq_true,Bool.and_eq_true,decide_eq_true_eq] at hx
        rcases hx with (hx | hx) | hx
        · exact Or.inl hx
        · exact Or.inr (Or.inl ⟨hx.1,Char.le_trans hx.2 (by decide)⟩)
        · exact Or.inr (Or.inr ⟨hx.1,Char.le_trans hx.2 (by decide)⟩)
      simp only [addrChar,alnum,SshLog.wordChar,Bool.or_eq_true,Bool.and_eq_true,decide_eq_true_eq]
      exact Or.inl (Or.inl ⟨Or.inl (or_assoc.mpr hr),hu⟩)
    · decide
    · decide

theorem unknown_good (s : Str) : (if SshLog.isIpv4 s || isIpv6 s then s else ("unknown" : Str)) ≠ [] ∧
    ∀ c ∈ (if SshLog.isIpv4 s || isIpv6 s then s else ("unknown" : Str)), addrChar c = true := by
  split
  · rename_i h
    exact ip_good hv h
  · decide

theorem sshMark_good {m : Machine} {pid str : Str} (hp : ∀ c ∈ pid, digit c = true) :
    (sshMark isIpv6 m pid str).Good := by
  unfold sshMark
  split
  · rename_i r _
    have hgood : Session.Good ⟨.ssh,pid,SshLog.peerIp (host isIpv6 m Dir.empty) (r.getD 1 [])⟩ := by
      obtain ⟨hne,hc⟩ := unknown_good hv (r.getD 1 [])
      exact ⟨hp,hne,hc,fun h => by simp at h⟩
    exact iteInduction (fun _ => hgood) fun _ => trivial
  · exact iteInduction (fun _ => show Kind.ssh ≠ Kind.console by simp) fun _ => trivial

theorem ftpLogin_good {m : Machine} {str ip : Str} (h : ftpLogin isIpv6 m str = some ip) :
    ip ≠ [] ∧ ∀ c ∈ ip, addrChar c = true := by
  unfold ftpLogin at h
  split at h
  · obtain ⟨-,hi⟩ := Option.ite_none_right_eq_some.mp h
    rw [← Option.some.inj hi]
    exact unknown_good hv _
  · simp at h

theorem ftpMark_good {m : Machine} {pid str : Str} (hp : ∀ c ∈ pid, digit c = true) :
    (ftpMark isIpv6 m pid str).Good := by
  unfold ftpMark
  split
  · rename_i ip hip
    obtain ⟨hne,hc⟩ := ftpLogin_good hv hip
    exact ⟨hp,hne,hc,fun h => by simp at h⟩
  · trivial

omit hv in
theorem consoleMark_good {pid msg : Str} (hp : ∀ c ∈ pid, digit c = true)
    (h : ∀ r ∈ console msg, ∀ c ∈ r.2, alnum c = true) : (consoleMark pid msg).Good := by
  unfold consoleMark
  split
  · rename_i ecode dev hc
    have hd := h _ hc
    by_cases hn : null dev = true
    · rw [if_pos hn]
      trivial
    · have hgood : Session.Good ⟨.console,pid,dev⟩ :=
        ⟨hp,by simpa using hn,fun c hm => by simp [addrChar,hd c hm],fun _ => hd⟩
      rw [if_neg hn]
      split
      · exact hgood
      · exact hgood
  · trivial

theorem mark_good {e : Event} (h : Logged e) : (mark isIpv6 e).Good := by
  cases e with
  | line m l =>
    obtain ⟨⟨-,hp⟩,hc⟩ := h
    unfold mark
    refine iteInduction (fun _ => trivial) fun _ => iteInduction (fun _ => sshMark_good hv hp) fun _ =>
      iteInduction (fun _ => ftpMark_good hv hp) fun _ => iteInduction (fun _ => consoleMark_good hp hc) fun _ => trivial
  | ftpSweep alive => simp [mark,Mark.Good]
  | ftpOut pid => simp [mark,Mark.Good]

omit hv in
theorem moves_sshd {m : Machine} {pid str : Str} (t : ℤ) {d : Dir} (hd : d.Good)
    (hg : (sshMark isIpv6 m pid str).Good) : Moves (sshMark isIpv6 m pid str) d (parseSshlog isIpv6 m t pid str d) := by
  unfold sshMark at hg ⊢
  unfold parseSshlog SshLog.parseSshlog
  cases h₁ : search SshLog.pat1 str with
  | some r =>
    rw [h₁] at hg
    dsimp only [SshLog.decideLine,SshLog.onAccepted,host] at hg ⊢
    generalize (if null m.sshUser then ("sshuser" : Str) else m.sshUser) = name at hg ⊢
    cases hb : looseEq (trim (r.getD 0 [])) name with
    | true =>
      rw [hb] at hg
      exact opened_ssh (s:=⟨.ssh,pid,_⟩) hg rfl t d
    | false => exact rfl
  | none =>
    cases h₂ : search SshLog.pat2 str with
    | some r => exact shut_ssh hd pid
    | none =>
      cases search SshLog.pat3 str with
      | some r => exact rfl
      | none => cases search SshLog.pat4 str <;> exact rfl

omit hv in
theorem moves_vsftpd {m : Machine} {pid str : Str} (t : ℤ) {d : Dir} (hg : (ftpMark isIpv6 m pid str).Good) :
    Moves (ftpMark isIpv6 m pid str) d (parseFtplog isIpv6 m t pid str d) := by
  unfold ftpMark at hg ⊢
  unfold parseFtplog
  cases hl : ftpLogin isIpv6 m str with
  | none => exact rfl
  | some ip =>
    rw [hl] at hg
    exact opened_ftp (s:=⟨.ftp,pid,ip⟩) hg rfl _ _ d

omit hv in
theorem moves_login {pid msg : Str} (t : ℤ) {d : Dir} (hd : d.Good) (ho : d.Owned)
    (hg : (consoleMark pid msg).Good) : Moves (consoleMark pid msg) d (parseLoginlog t msg pid d) := by
  unfold consoleMark at hg ⊢
  unfold parseLoginlog
  cases hc : console msg with
  | none => exact rfl
  | some r =>
    obtain ⟨ecode,dev⟩ := r
    rw [hc] at hg
    dsimp only at hg ⊢
    cases hn : null dev with
    | true => exact rfl
    | false =>
      cases hz : looseEq ecode "00" with
      | true =>
        simp only [hn,hz,Bool.false_eq_true,if_true,if_false] at hg
        exact opened_console (s:=⟨.console,pid,dev⟩) hg rfl _ d
      | false =>
        simp only [hn,hz,Bool.false_eq_true,if_false] at hg
        exact unlink_console hg hd.1 ho

theorem moves {e : Event} (h : Logged e) {d : Dir} (hd : d.Good) (ho : d.Owned) :
    Moves (mark isIpv6 e) d (step isIpv6 d e) := by
  have hg := mark_good hv h
  cases e with
  | line m l =>
    simp only [mark,step,read] at hg ⊢
    cases hz : null l.prog || null l.msg with
    | true => exact rfl
    | false =>
      simp only [hz,Bool.false_eq_true,if_false] at hg ⊢
      by_cases h₁ : lower l.prog = ("sshd" : Str)
      · simp only [h₁,if_true] at hg ⊢
        exact moves_sshd l.time hd hg
      · by_cases h₂ : lower l.prog = ("vsftpd" : Str)
        · simp only [h₂,if_true] at hg ⊢
          exact moves_vsftpd l.time hg
        · by_cases h₃ : lower l.prog = ("login" : Str)
          · simp only [h₃,if_true] at hg ⊢
            exact moves_login l.time hd ho hg
          · simp only [h₁,h₂,h₃,if_false]
            exact rfl
  | ftpSweep alive => exact shut_sweep hd alive
  | ftpOut pid => exact shut_out hd pid

end Step

theorem latest_concat (k : Kind) (p : Str) (ms : List Mark) (m : Mark) : latest k p (ms ++ [m]) =
    match m with
    | .opens s => if s.kind = k ∧ s.pid = p then some s.addr else latest k p ms
    | _ => latest k p ms := by
  rw [latest,List.foldl_concat]
  rfl

theorem latest_opens {k : Kind} {p a : Str} {ms : List Mark} (h : latest k p ms = some a) :
    Mark.opens ⟨k,p,a⟩ ∈ ms := by
  induction ms using List.reverseRecOn with
  | nil => simp [latest] at h
  | append_singleton ms m ih =>
    rw [latest_concat] at h
    cases m with
    | opens s =>
      dsimp only at h
      split at h
      · rename_i hs
        obtain ⟨rfl,rfl⟩ := hs
        rw [← Option.some.inj h]
        simp
      · exact List.mem_append_left _ (ih h)
    | consoleOut _ _ => exact List.mem_append_left _ (ih h)
    | out _ _ => exact List.mem_append_left _ (ih h)
    | other => exact List.mem_append_left _ (ih h)

structure Kept (ms : List Mark) (d : Dir) : Prop where
  good : d.Good
  owned : d.Owned
  marks : ∀ m ∈ ms, m.Good
  /-- The files of consoles stay. -/
  console : ∀ s : Session, s.kind = .console → Mark.opens s ∈ ms → ∃ f ∈ d.files, s.Owns f
  addr : ∀ k p a, kept k d p = some a → latest k p ms = some a
  gone : ∀ k p a, k ≠ .console → latest k p ms = some a → kept k d p = none →
    ∀ f ∈ d.files, ¬ Session.Owns ⟨k,p,a⟩ f

theorem Kept.empty : Kept [] Dir.empty where
  good := ⟨fun f hf => by simp [Dir.empty] at hf,fun k p a h => by cases k <;> simp [kept,Dir.empty] at h⟩
  owned f hf := by simp [Dir.empty] at hf
  marks := by simp
  console := by simp
  addr k p a h := by cases k <;> simp [kept,Dir.empty] at h
  gone _ _ _ _ _ _ f hf := by simp [Dir.empty] at hf

section Mark

variable {ms : List Mark} {d d' : Dir} (h : Kept ms d)

include h

theorem Kept.opens {s : Session} (hs : s.Good) (hm : Opened s d d') : Kept (ms ++ [.opens s]) d' := by
  obtain ⟨f,hf,hstar,hfiles⟩ := hm.file
  have hkept : ∀ k p a, kept k d' p = some a → s = ⟨k,p,a⟩ ∨ ¬ (s.kind = k ∧ s.pid = p) ∧ kept k d p = some a := by
    intro k p a hk
    by_cases hc : k = .console
    · subst hc
      simp [kept] at hk
    · rw [hm.kept k p hc] at hk
      split at hk
      · rename_i hs
        obtain ⟨rfl,rfl⟩ := hs
        rw [← Option.some.inj hk]
        exact Or.inl rfl
      · rename_i hs
        exact Or.inr ⟨hs,hk⟩
  constructor
  · refine ⟨fun g hg => ?_,fun k p a hk => ?_⟩
    · rcases (hfiles g).mp hg with hg | rfl
      · exact h.good.1 g hg
      · exact hstar
    · rcases hkept k p a hk with rfl | ⟨-,hk⟩
      · exact hs
      · exact h.good.2 k p a hk
  · intro g hg
    rcases (hfiles g).mp hg with hg | rfl
    · exact h.owned g hg
    · exact ⟨s,hs,hf⟩
  · rw [List.forall_mem_append,List.forall_mem_singleton]
    exact ⟨h.marks,hs⟩
  · intro s' hk hin
    rcases List.mem_append.mp hin with hin | hin
    · obtain ⟨g,hg,ho⟩ := h.console s' hk hin
      exact ⟨g,(hfiles g).mpr (Or.inl hg),ho⟩
    · obtain rfl : s' = s := by simpa using hin
      exact ⟨f,(hfiles f).mpr (Or.inr rfl),hf⟩
  · intro k p a hk
    rw [latest_concat]
    rcases hkept k p a hk with rfl | ⟨hn,hk⟩
    · exact if_pos ⟨rfl,rfl⟩
    · exact (if_neg hn).trans (h.addr k p a hk)
  · intro k p a hc hl hk g hg
    rw [latest_concat] at hl
    rw [hm.kept k p hc] at hk
    dsimp only at hl
    by_cases hs' : s.kind = k ∧ s.pid = p
    · rw [if_pos hs'] at hk
      simp at hk
    · rw [if_neg hs'] at hl hk
      rcases (hfiles g).mp hg with hg | rfl
      · exact h.gone k p a hc hl hk g hg
      · intro ho
        have hgood : Session.Good ⟨k,p,a⟩ := h.marks _ (latest_opens hl)
        have he := Owns.unique hs hgood hf ho
        rw [he] at hs'
        exact hs' ⟨rfl,rfl⟩

theorem Kept.same {m : Mark} (hg : m.Good) (hm : ∀ s, m ≠ .opens s) : Kept (ms ++ [m]) d := by
  have hl : ∀ k p, latest k p (ms ++ [m]) = latest k p ms := fun k p => by
    rw [latest_concat]
    cases m with
    | opens s => exact absurd rfl (hm s)
    | consoleOut _ _ => rfl
    | out _ _ => rfl
    | other => rfl
  refine ⟨h.good,h.owned,?_,fun s hk hin => ?_,fun k p a => ?_,fun k p a hc => ?_⟩
  · rw [List.forall_mem_append,List.forall_mem_singleton]
    exact ⟨h.marks,hg⟩
  · rcases List.mem_append.mp hin with hin | hin
    · exact h.console s hk hin
    · exact absurd (List.mem_singleton.mp hin).symm (hm s)
  · rw [hl]
    exact h.addr k p a
  · rw [hl]
    exact h.gone k p a hc

theorem Kept.out {k : Kind} {gone : Str → Bool} (hk : k ≠ .console) (hm : Shut k gone d d') :
    Kept (ms ++ [.out k gone]) d' := by
  have hkept : ∀ k' p a, SessionFiles.kept k' d' p = some a → SessionFiles.kept k' d p = some a := by
    intro k' p a hp
    rw [hm.kept] at hp
    exact (Option.ite_none_left_eq_some.mp hp).2
  have hs := h.same (m:=.out k gone) hk (by simp)
  refine ⟨⟨fun f hf => h.good.1 f ((hm.files f).mp hf).1,fun k' p a hp => h.good.2 k' p a (hkept k' p a hp)⟩,
    fun f hf => h.owned f ((hm.files f).mp hf).1,hs.marks,fun s hc hin => ?_,fun k' p a hp => hs.addr k' p a (hkept k' p a hp),
    fun k' p a hc hl hp f hf => ?_⟩
  · obtain ⟨f,hf,ho⟩ := hs.console s hc hin
    refine ⟨f,(hm.files f).mpr ⟨hf,fun p a _ hp hown => ?_⟩,ho⟩
    have hsg : s.Good := hs.marks _ hin
    have he := Owns.unique hsg (h.good.2 k p a hp) ho hown
    exact hk (by rw [← hc,he])
  · obtain ⟨hf,hout⟩ := (hm.files f).mp hf
    rw [hm.kept] at hp
    split at hp
    · rename_i hg
      obtain ⟨rfl,hgone⟩ := hg
      -- an address that is still kept is the last one
      cases hd : SessionFiles.kept k' d p with
      | none => exact hs.gone k' p a hc hl hd f hf
      | some b =>
        have hb := hs.addr k' p b hd
        rw [hl] at hb
        obtain rfl := Option.some.inj hb
        exact hout p a hgone hd
    · exact hs.gone k' p a hc hl hp f hf

theorem Kept.mark {m : Mark} (hg : m.Good) (hm : Moves m d d') : Kept (ms ++ [m]) d' := by
  cases m with
  | opens s => exact h.opens hg hm
  | out k gone => exact h.out hg hm
  | consoleOut pid dev =>
    obtain rfl : d' = d := hm
    exact h.same hg (by simp)
  | other =>
    obtain rfl : d' = d := hm
    exact h.same hg (by simp)

/-- Only what a session that is closed has is removed, and all of it if it is not of a console. -/
theorem Kept.closes {m : Mark} (hg : m.Good) (hm : Moves m d d') :
    (∀ s, Closes ms m s → (s.kind ≠ .console ↔ ∀ f ∈ d'.files, ¬ s.Owns f)) ∧
      ∀ f ∈ d.files, f ∉ d'.files → ∃ s, Closes ms m s ∧ s.Owns f := by
  cases m with
  | opens s =>
    obtain ⟨_,-,-,hf⟩ := Opened.file hm
    exact ⟨fun s hs => hs.elim,fun f hin hout => absurd ((hf f).mpr (Or.inl hin)) hout⟩
  | other =>
    obtain rfl : d' = d := hm
    exact ⟨fun s hs => hs.elim,fun f hin hout => absurd hin hout⟩
  | consoleOut pid dev =>
    obtain rfl : d' = d := hm
    refine ⟨fun s hs => ?_,fun f hin hout => absurd hin hout⟩
    obtain ⟨rfl,hop⟩ := hs
    obtain ⟨f,hf,ho⟩ := h.console _ rfl hop
    exact ⟨fun hc => absurd rfl hc,fun hall => absurd ho (hall f hf)⟩
  | out k gone =>
    have hs : Shut k gone d d' := hm
    refine ⟨fun s hc => ?_,fun f hin hout => ?_⟩
    · obtain ⟨rfl,hgone,hl⟩ := hc
      refine iff_of_true hg fun f hf => ?_
      refine (h.out hg hs).gone s.kind s.pid s.addr hg ?_ ?_ f hf
      · rw [latest_concat]
        exact hl
      · rw [hs.kept,if_pos ⟨rfl,hgone⟩]
    · rw [hs.files,not_and] at hout
      have hx := hout hin
      push Not at hx
      obtain ⟨p,a,hp,hk,ho⟩ := hx
      exact ⟨⟨k,p,a⟩,⟨rfl,hp,h.addr k p a hk⟩,ho⟩

end Mark

section Runs

variable {isIpv6 : Str → Bool} (hv : ∀ s, isIpv6 s = true → s ≠ [] ∧ ∀ c ∈ s, hexDigit c = true ∨ c = ':' ∨ c = '.')

include hv

theorem kept_run {es : List Event} (h : ∀ e ∈ es, Logged e) : Kept (es.map (mark isIpv6)) (after isIpv6 es) := by
  induction es using List.reverseRecOn with
  | nil => exact Kept.empty
  | append_singleton es e ih =>
    rw [List.forall_mem_append,List.forall_mem_singleton] at h
    have hk := ih h.1
    rw [List.map_append,List.map_singleton,after,List.foldl_concat]
    exact hk.mark (mark_good hv h.2) (moves hv h.2 hk.good hk.owned)

/-- The files of sessions have their life cycle exactly in the runs that close no console session. -/
theorem lifeCycle_iff {es : List Event} (h : ∀ e ∈ es, Logged e) : LifeCycle isIpv6 es ↔
    ∀ before e rest, es = before ++ e::rest →
      ∀ s, Closes (before.map (mark isIpv6)) (mark isIpv6 e) s → s.kind ≠ .console := by
  refine forall_congr' fun before => forall_congr' fun e => forall_congr' fun rest => forall_congr' fun hes => ?_
  rw [hes,List.forall_mem_append,List.forall_mem_cons] at h
  have hk := kept_run hv h.1
  have hs : after isIpv6 (before ++ [e]) = step isIpv6 (after isIpv6 before) e := by
    rw [after,List.foldl_concat]
    rfl
  obtain ⟨hclosed,hkept⟩ := hk.closes (mark_good hv h.2.1) (moves hv h.2.1 hk.good hk.owned)
  rw [hs]
  exact ⟨fun hl s hc => (hclosed s hc).mpr (hl.1 s hc),fun hl => ⟨fun s hc => (hclosed s hc).mp (hl s hc),hkept⟩⟩

end Runs

/-- A login and the logout of a process, for the program that logs them. -/
def visit (prog msgIn msgOut : Str) : List Event :=
  [.line ⟨[],[],[]⟩ ⟨1000,prog,"100",msgIn⟩,.line ⟨[],[],[]⟩ ⟨2000,prog,"100",msgOut⟩]

def sshVisit : List Event := visit "sshd" "Accepted password for sshuser from 10.0.0.5 port 4022 ssh2"
  "Connection closed by 10.0.0.5"

theorem sshVisit_lifeCycle : LifeCycle (fun _ => false) sshVisit ∧
    (after (fun _ => false) (sshVisit.take 1)).files = [("ssh_100_10.0.0.5_1000" : Str)] ∧
    (after (fun _ => false) sshVisit).files = [] := by
  refine ⟨(lifeCycle_iff (by simp) (by decide)).mpr ?_,by decide⟩
  have hm : sshVisit.map (mark fun _ => false) =
      [.opens ⟨.ssh,"100","10.0.0.5"⟩,.out .ssh (· = ("100" : Str))] := rfl
  intro before e rest hes s hc
  have hin : mark (fun _ => false) e ∈ sshVisit.map (mark fun _ => false) :=
    List.mem_map_of_mem (by rw [hes]; simp)
  rw [hm] at hin
  simp only [List.mem_cons,List.not_mem_nil,or_false] at hin
  rcases hin with he | he <;> rw [he] at hc
  · exact hc.elim
  · rw [hc.1]
    simp

def consoleVisit : List Event := visit "LOGIN" "ECODE=00 TYPE=console USER=console IP=tty1 MSG=Password Accepted"
  "ECODE=01 TYPE=console USER=console IP=tty1 MSG=Session logout"

/-- The file of a console session is still there after the logout. -/
theorem console_left : ¬ ∀ es, (∀ e ∈ es, Logged e) → LifeCycle (fun _ => false) es := by
  intro h
  have hl := (h consoleVisit (by decide) (consoleVisit.take 1) _ [] rfl).1 ⟨.console,"100","tty1"⟩
    ⟨rfl,List.mem_singleton.mpr rfl⟩
  have hf : (after (fun _ => false) consoleVisit).files = [("console_100_tty1_1000" : Str)] := by decide
  exact absurd (hl "console_100_tty1_1000" (hf ▸ List.mem_singleton_self _)) (by decide)

end SessionFiles
end Mybox
