import Mybox.Definitions
import Mybox.SshLog

/-! The configuration of syslog-ng: sources, filters and destinations are written in one place and referred to in
another, each class of messages by its own switches. -/
namespace Mybox
namespace SyslogConfig
open Php Patterns Registry Definitions

/-- `/^(\S+)\_STAT/` -/
def statPat : Pattern := .plus SshLog.blackChar true::word ("_STAT" : Str)

/-- The name of the file that a parameter of a switched section creates, if any. -/
def settingName (name value : Str) : Option Str :=
  let name := trim name
  let value := trim value
  if null name || null value then none
  else if looseZero value then none
  else match matchAt statPat name with
  | some [m] => if null (lower (trim m)) then none else some (lower (trim m))
  | _ => none

/-- The files under `log_setting` or `rlog_setting`. -/
def settingFiles (d : Params) : List Str :=
  (if null (d.val "STAT") || looseZero (d.val "STAT") then [("nolog" : Str)] else []) ++
    if looseOne (d.val "STAT") then (d.erase "STAT").entries.filterMap fun e => settingName e.1 e.2 else []

/-- What `_syslog_setting` leaves behind: the files of both directories and the data of the remote server. -/
structure Setting where
  log : List Str
  rlog : List Str
  remote : Option (Str × Str × Str)

variable (pcre : Pcre) (env : Env)

def remoteData (d : Params) (w : World) : Option (Str × Str × Str) × World :=
  if !looseOne (d.val "STAT") then (none,w) else
  let d : Params := d.erase "STAT"
  let s : Params × World :=
    if !null (d.val "SERVER") then definitionsGetByname pcre env .networks (d.val "SERVER") ∅ "host" w else (∅,w)
  let host := s.1.val "ADDR"
  let t : Params × World :=
    if !null (d.val "SERVICE") then definitionsGetByname pcre env .services (d.val "SERVICE") s.1 [] s.2 else s
  let port : Str :=
    if null (d.val "SERVICE") || t.1.isEmpty || null (t.1.val "__DATA_TYPE") then []
    else if looseEq (t.1.val "__DATA_TYPE") "tcp" || looseEq (t.1.val "__DATA_TYPE") "udp" then t.1.val "DPORT"
    else []
  -- no value is ever given to `$_proto`
  let proto : Str := []
  (if !null host && !null proto && !null port then some (host,proto,port) else none,t.2)

def syslogSetting (w : World) : Setting × World :=
  let g := iniTokenGet env "reporting" "syslog.cfg" ∅ w
  let r := remoteData pcre env (g.1.getD "remote" ∅) g.2
  (⟨settingFiles (g.1.getD "local" ∅),settingFiles (g.1.getD "remote" ∅),r.1⟩,r.2)

/-- `_LOG_NOLOG_LOCAL` and `_LOG_NOLOG_REMOTE` -/
def nolog (files : List Str) (prog : Str) : Bool := files.contains "nolog" || (!null prog && !files.contains prog)

def logNologLocal (s : Setting) (prog : Str) : Bool := nolog s.log prog

def logNologRemote (s : Setting) (prog : Str) : Bool := nolog s.rlog prog

inductive Kind
  | source
  | filter
  | destination
  deriving DecidableEq

def Kind.text : Kind → Str
  | source => "source"
  | filter => "filter"
  | destination => "destination"

/-- What stands in a log statement. -/
inductive Item
  | ref (k : Kind) (name : Str)
  | gap

def Item.text : Item → Str
  | ref k name => k.text ++ '('::name ++ (");" : Str)
  | gap => [' ']

inductive Stmt
  | options (body : Str)
  | define (k : Kind) (name body : Str)
  | log (items : List Item)

def Stmt.text : Stmt → Str
  | options body => ("options \x7b" : Str) ++ body ++ ("\x7d;\n" : Str)
  | define k name body => k.text ++ ' '::name ++ (" \x7b" : Str) ++ body ++ ("\x7d;\n" : Str)
  | log items => ("log \x7b " : Str) ++ items.flatMap Item.text ++ ("flags(final); \x7d;\n" : Str)

/-- A class of messages: its name, the name of its switches and of its log file, its filter, and whether its
messages also go to the session program. -/
structure Class where
  name : Str
  setting : Str
  filter : Option Str
  toSyslog : Bool

def Class.filterName (c : Class) : Str := ("f_" : Str) ++ c.name

def Class.destName (c : Class) : Str := ("d_" : Str) ++ c.name

/-- The classes in their order; the filter of the kernel messages stands before them. -/
def classes : List Class := [
  ⟨"kernel","kernel",none,false⟩,
  ⟨"flood","flood",some "program('ulogd') and match(\"__UID=103\") or match(\"TYPE=(tcp|udp|icmp)\");",false⟩,
  ⟨"portscan","portscan",some "program('ulogd') and match(\"__UID=102\");",false⟩,
  ⟨"packetfilter","packetfilter",some "program('ulogd') and match(\"__UID=101\");",false⟩,
  ⟨"httpd","httpd",some "program('httpd');",false⟩,
  ⟨"named","named",some "program('named');",false⟩,
  ⟨"ntpd","ntpd",some "program('ntpd');",false⟩,
  ⟨"pptpd","pptpd",some "program('pptpd');",false⟩,
  ⟨"pppd","pppd",some "program('pppd');",false⟩,
  ⟨"pppoe","pppoe",some "program('pppoe') or program('pppoe-connect');",false⟩,
  ⟨"nmbd","nmbd",some "program('nmbd') or program('winbindd');",false⟩,
  ⟨"dhcpd","dhcpd",some "program('dhcpd') or program('dhrelay') or program('dhrelayd');",false⟩,
  ⟨"dhcpcd","dhcpcd",some "program('dhcpcd');",false⟩,
  ⟨"snmpd","snmpd",some "program('snmpd');",false⟩,
  ⟨"crond","crond",some "program('crond');",false⟩,
  ⟨"inadynd","inadynd",some "program('INADYN');",false⟩,
  ⟨"spamfilter","spamfilter",some "program('spamd');",false⟩,
  ⟨"sophosav","sophosav",some "program('sophos');",false⟩,
  ⟨"mailproxy","mailproxy",some "program('p3scan');",false⟩,
  ⟨"chkprog","chkprog",some "program('CHKPROG');",false⟩,
  ⟨"uplinkd","uplinkd",some "program('UPLINKD');",false⟩,
  ⟨"login","auth",some "program('LOGIN');",true⟩,
  ⟨"sshd","sshd",some "program('sshd');",true⟩,
  ⟨"vsftpd","ftpd",some "program('vsftpd');",true⟩,
  ⟨"system","system",some "program('SYSTEM');",true⟩,
  ⟨"ipwatchd","ipwatchd",some "program('IPwatchD');",false⟩,
  ⟨"update","update",some "program('UPDATE');",true⟩]

/-- `$_debug` -/
def debugItems (debug : Bool) : List Item := if debug then [.ref .destination "d_debug"] else []

def drop (filters : List Str) (debug : Bool) : Stmt :=
  let passed : List Item := filters.flatMap fun f => [.ref .filter f,.gap]
  let dest : List Item := .ref .destination "d_devnull":: .gap::debugItems debug
  .log (.ref .source "s_sys":: .gap::(passed ++ (dest ++ [.gap])))

/-- The log statement of a class; the kernel class names its filter twice. -/
def Class.log (c : Class) (debug : Bool) (dest : List Item) : Stmt :=
  let again : List Item := if c.filter.isNone then [.ref .filter c.filterName] else []
  let syslog : List Item := if c.toSyslog then [.ref .destination "d_syslog",.gap] else []
  .log (.ref .source "s_sys":: .gap:: .ref .filter c.filterName::
    (again ++ .gap::(dest ++ .gap::(syslog ++ (debugItems debug ++ [.gap])))))

/-- `destination d_name` of a class. -/
def Class.file (c : Class) : Stmt :=
  .define .destination c.destName ((" file(\"/logfs/" : Str) ++ c.setting ++ ("-$YEAR$MONTH$DAY.log\" " : Str) ++
    ("template(\"[$DAY-$MONTHNAME-$YEAR $HOUR:$MIN:$SEC] $MSGONLY\\n\") template_escape(no)); " : Str))

def Class.dest (c : Class) (s : Setting) : List Item :=
  (if !logNologLocal s c.setting then [.ref .destination c.destName] else []) ++
    if !logNologRemote s c.setting then [.ref .destination "d_remote"] else []

def Class.block (s : Setting) (debug : Bool) (c : Class) : List Stmt :=
  (match c.filter with
    | some body => [.define .filter c.filterName (' '::body ++ [' '])]
    | none => []) ++
  if logNologLocal s c.setting && logNologRemote s c.setting then [drop [c.filterName] debug]
  else (if !logNologLocal s c.setting then [c.file] else []) ++
    if !(c.dest s).isEmpty then [c.log debug (c.dest s)] else []

def optionsBody : Str := "\n\tsync(0);\n\ttime_reopen(10);\n\tlog_fifo_size(1000);\n\tlong_hostnames(off);\n \tuse_dns(no);\n\tuse_fqdn(no);\n\tcreate_dirs(no);\n\tperm(0640);\n\tstats(43200);\n\tkeep_hostname(yes);\n"

def sourceBody : Str :=
  "\n\tfile(\"/proc/kmsg\" log_prefix(\"kernel: \"));\n\tunix-stream(\"/dev/log\");\n\tinternal();\n"

def remoteBody (d : Str × Str × Str) : Str :=
  ' '::d.2.1 ++ '('::d.1 ++ (" port(" : Str) ++ d.2.2 ++ (") template(\"<$PRI>[$DAY-$MONTHNAME-$YEAR " : Str) ++
    ("$HOUR:$MIN:$SEC] $MSGONLY\\n\") template_escape(no));  " : Str)

def programTemplate : Str :=
  " template(\"$DAY-$MONTHNAME-$YEAR $HOUR:$MIN:$SEC,$PROGRAM,$PID,$MSGONLY\\n\") template_escape(no)); "

/-- `destination d_debug` -/
def debugFile : Stmt := .define .destination "d_debug" ((" file(\"/var/log/debug\"" : Str) ++ programTemplate)

/-- The destinations and filters that do not depend on the setting. -/
def fixed : List Stmt := [
  .define .destination "d_devnull" " file(\"/dev/null\"); ",
  .define .destination "d_syslog" ((" program(\"/bin/syslog-filter\"" : Str) ++ programTemplate),
  .define .filter "f_kernel" " facility(kern); ",
  .define .filter "f_kdebug" " level(debug); ",
  .define .filter "f_kerntrim" " match(\"(?i)netfilter\") or match(\"(?i)ramdisk\") or match(\"(?i)squashfs\"); "]

def dropped (debug : Bool) : List Stmt := [
  drop ["f_kernel","f_kerntrim","f_kdebug"] debug,
  drop ["f_kernel","f_kerntrim"] debug,
  .define .filter "f_me" " program('syslog-ng') or program('xinetd'); ",
  drop ["f_me"] debug]

def head (s : Setting) (debug : Bool) : List Stmt :=
  let remote : List Stmt := match s.remote with
    | some d => [.define .destination "d_remote" (remoteBody d)]
    | none => []
  let debugged : List Stmt := if debug then [debugFile] else []
  .options optionsBody:: .define .source "s_sys" sourceBody::
    (remote ++ (fixed ++ (debugged ++ dropped debug)))

def tail (debug : Bool) : List Stmt :=
  if !(debugItems debug).isEmpty then
    [debugFile,.log [.ref .source "s_sys",.gap,.ref .destination "d_debug",.gap]]
  else []

def written (s : Setting) (debug : Bool) : List Stmt :=
  head s debug ++ classes.flatMap (Class.block s debug) ++ tail debug

/-- What `syslog_config` writes to `/etc/syslog-ng.conf`; the flag is `_INIT_DEBUG`. -/
def syslogConfig (debug : Bool) (w : World) : List Stmt × World :=
  let s := syslogSetting pcre env w
  (written s.1 debug,s.2)

def names (k : Kind) (c : List Stmt) : List Str :=
  c.filterMap fun s => match s with
    | .define k' name _ => if k' = k then some name else none
    | _ => none

def Item.reference : Item → Option (Kind × Str)
  | .ref k name => some (k,name)
  | .gap => none

def references (c : List Stmt) : List (Kind × Str) :=
  c.flatMap fun s => match s with
    | .log is => is.filterMap Item.reference
    | _ => []

/-- What the daemon asks of its configuration. -/
structure WellFormed (c : List Stmt) : Prop where
  defined : ∀ r ∈ references c, r.2 ∈ names r.1 c
  once : ∀ k, (names k c).Nodup

@[simp] theorem names_append (k : Kind) (a b : List Stmt) : names k (a ++ b) = names k a ++ names k b :=
  List.filterMap_append

theorem names_flatMap {α : Type} (k : Kind) (f : α → List Stmt) (as : List α) :
    names k (as.flatMap f) = as.flatMap fun a => names k (f a) := by
  induction as with
  | nil => rfl
  | cons a as ih => rw [List.flatMap_cons,List.flatMap_cons,names_append,ih]

@[simp] theorem references_append (a b : List Stmt) : references (a ++ b) = references a ++ references b :=
  List.flatMap_append

theorem references_flatMap {α : Type} (f : α → List Stmt) (as : List α) :
    references (as.flatMap f) = as.flatMap fun a => references (f a) := List.flatMap_assoc

section Parts

variable (s : Setting) (debug : Bool) (c : Class)

theorem names_block_source : names .source (c.block s debug) = [] := by
  unfold Class.block
  cases c.filter <;> cases logNologLocal s c.setting <;> cases logNologRemote s c.setting <;>
    cases (c.dest s).isEmpty <;> rfl

theorem names_block_filter : names .filter (c.block s debug) = if c.filter.isSome then [c.filterName] else [] := by
  unfold Class.block
  cases c.filter <;> cases logNologLocal s c.setting <;> cases logNologRemote s c.setting <;>
    cases (c.dest s).isEmpty <;> rfl

theorem names_block_destination :
    names .destination (c.block s debug) = if !logNologLocal s c.setting then [c.destName] else [] := by
  unfold Class.block
  cases c.filter <;> cases logNologLocal s c.setting <;> cases logNologRemote s c.setting <;>
    cases (c.dest s).isEmpty <;> rfl

end Parts

def filterNames : List Str :=
  [("f_kernel" : Str),"f_kdebug","f_kerntrim","f_me"] ++
    classes.flatMap fun c => if c.filter.isSome then [c.filterName] else []

def localNames (s : Setting) : List Str :=
  classes.flatMap fun c => if !logNologLocal s c.setting then [c.destName] else []

theorem mem_localNames {s : Setting} {n : Str} : n ∈ localNames s ↔
    ∃ c ∈ classes, logNologLocal s c.setting = false ∧ c.destName = n := by
  simp only [localNames,List.mem_flatMap]
  refine exists_congr fun c => and_congr_right fun _ => ?_
  cases logNologLocal s c.setting <;> simp [eq_comm]

theorem localNames_sublist (s : Setting) : (localNames s).Sublist (classes.map Class.destName) := by
  unfold localNames
  generalize classes = cs
  induction cs with
  | nil => exact .slnil
  | cons c cs ih =>
    rw [List.flatMap_cons,List.map_cons]
    cases logNologLocal s c.setting with
    | true => exact ih.cons _
    | false => exact ih.cons_cons _

theorem destNames_nodup : ([("d_devnull" : Str),"d_syslog"] ++ classes.map Class.destName).Nodup := by
  decide

theorem filterNames_nodup : filterNames.Nodup := by decide

section Written

variable {s : Setting} (hr : s.remote = none) (debug : Bool)

include hr

theorem names_source : names .source (written s debug) = [("s_sys" : Str)] := by
  have hc : names .source (classes.flatMap (Class.block s debug)) = [] := by
    rw [names_flatMap,List.flatMap_eq_nil_iff]
    exact fun c _ => names_block_source s debug c
  rw [written,names_append,names_append,hc,head,hr]
  cases debug <;> rfl

theorem names_filter : names .filter (written s debug) = filterNames := by
  have hc : names .filter (classes.flatMap (Class.block s debug)) =
      classes.flatMap fun c => if c.filter.isSome then [c.filterName] else [] := by
    rw [names_flatMap]
    exact congrArg (fun f => classes.flatMap f) (funext fun c => names_block_filter s debug c)
  rw [written,names_append,names_append,hc,head,hr,filterNames]
  cases debug <;> simp only [tail,debugItems,names,if_true,if_false,Bool.false_eq_true,List.isEmpty_cons,
    List.isEmpty_nil,Bool.not_true,Bool.not_false] <;> rfl

theorem names_destination : names .destination (written s debug) =
    [("d_devnull" : Str),"d_syslog"] ++ (if debug then [("d_debug" : Str)] else []) ++ localNames s ++
      (if debug then [("d_debug" : Str)] else []) := by
  have hc : names .destination (classes.flatMap (Class.block s debug)) = localNames s := by
    rw [names_flatMap]
    exact congrArg (fun f => classes.flatMap f) (funext fun c => names_block_destination s debug c)
  rw [written,names_append,names_append,hc,head,hr]
  cases debug <;> rfl

end Written

def headReferences : List (Kind × Str) :=
  [(.source,"s_sys"),(.filter,"f_kernel"),(.filter,"f_kerntrim"),(.filter,"f_kdebug"),(.destination,"d_devnull"),
    (.source,"s_sys"),(.filter,"f_kernel"),(.filter,"f_kerntrim"),(.destination,"d_devnull"),
    (.source,"s_sys"),(.filter,"f_me"),(.destination,"d_devnull")]

theorem references_head (s : Setting) : references (head s false) = headReferences := by
  unfold head
  cases s.remote <;> rfl

theorem references_log (c : Class) (debug : Bool) (dest : List Item) : references [c.log debug dest] =
    [(Kind.source,("s_sys" : Str)),(.filter,c.filterName)] ++
      (if c.filter.isNone then [(Kind.filter,c.filterName)] else []) ++ dest.filterMap Item.reference ++
      (if c.toSyslog then [(Kind.destination,("d_syslog" : Str))] else []) ++
      if debug then [(Kind.destination,("d_debug" : Str))] else [] := by
  simp only [references,Class.log,List.flatMap_cons,List.flatMap_nil,List.append_nil,List.filterMap_cons,
    List.filterMap_append]
  cases c.filter <;> cases c.toSyslog <;> cases debug <;>
    simp [List.filterMap_cons,Item.reference,debugItems]

/-- A class that is not logged remotely refers to its own names and to those written before the classes. -/
theorem references_block {s : Setting} {c : Class} (h : logNologRemote s c.setting = true) {r : Kind × Str}
    (hr : r ∈ references (c.block s false)) : r ∈ [(Kind.source,("s_sys" : Str)),(.filter,c.filterName),
      (.destination,"d_devnull"),(.destination,"d_syslog")] ∨
        logNologLocal s c.setting = false ∧ r = (.destination,c.destName) := by
  have hd : ∀ b : List Stmt, references ((match c.filter with
      | some body => [.define .filter c.filterName (' '::body ++ [' '])]
      | none => []) ++ b) = references b := fun b => by
    rw [references_append]
    cases c.filter <;> rfl
  rw [Class.block,hd] at hr
  cases hl : logNologLocal s c.setting with
  | true =>
    rw [hl,h] at hr
    have hr : r ∈ [(Kind.source,("s_sys" : Str)),(.filter,c.filterName),(.destination,"d_devnull")] := hr
    exact Or.inl (by simp only [List.mem_cons,List.not_mem_nil,or_false] at hr ⊢; tauto)
  | false =>
    have hdest : c.dest s = [.ref .destination c.destName] := by
      rw [Class.dest,hl,h]
      rfl
    have hw : r ∈ references [c.log false (c.dest s)] := by
      rw [hl,hdest] at hr
      rw [hdest]
      exact hr
    rw [references_log,hdest] at hw
    simp only [List.mem_append,List.mem_cons,List.not_mem_nil,or_false,List.filterMap_cons,List.filterMap_nil,
      Item.reference,List.mem_ite_nil_right] at hw ⊢
    tauto

/-- A class that is logged remotely refers to the remote destination. -/
theorem references_remote {s : Setting} {c : Class} (h : logNologRemote s c.setting = false) (debug : Bool) :
    (Kind.destination,("d_remote" : Str)) ∈ references (c.block s debug) := by
  have hm : Item.ref .destination ("d_remote" : Str) ∈ c.dest s := by simp [Class.dest,h]
  have hne : (c.dest s).isEmpty = false := by
    cases hd : c.dest s with
    | nil => simp [hd] at hm
    | cons i is => rfl
  have hw : (Kind.destination,("d_remote" : Str)) ∈ references [c.log debug (c.dest s)] := by
    rw [references_log]
    have hf := List.mem_filterMap.mpr ⟨_,hm,(rfl : Item.reference _ = some (Kind.destination,("d_remote" : Str)))⟩
    simp [hf]
  rw [Class.block,references_append,h,hne,Bool.and_false,if_neg (by simp),references_append]
  exact List.mem_append_right _ (List.mem_append_right _ hw)

/-- What stands before the classes refers to what is defined there, the classes name their own filters, and none of
their files is the remote destination. -/
theorem fixed_names : (∀ r ∈ headReferences, r = (Kind.source,("s_sys" : Str)) ∨
    r = (Kind.destination,("d_devnull" : Str)) ∨ r.1 = .filter ∧ r.2 ∈ filterNames) ∧
    (∀ c ∈ classes, c.filterName ∈ filterNames) ∧ ∀ c ∈ classes, c.destName.drop 2 ≠ ("remote" : Str) := by
  decide

theorem written_iff {s : Setting} (hr : s.remote = none) (debug : Bool) :
    WellFormed (written s debug) ↔ debug = false ∧ ∀ c ∈ classes, logNologRemote s c.setting = true := by
  constructor
  · rintro ⟨hdef,honce⟩
    have hdebug : debug = false := by
      have ho := honce .destination
      rw [names_destination hr] at ho
      cases debug with
      | false => rfl
      | true =>
        -- the file of the debug messages is defined before and behind the classes
        rw [List.nodup_append] at ho
        exact absurd rfl (ho.2.2 "d_debug" (by simp) "d_debug" (by simp))
    refine ⟨hdebug,fun c hc => ?_⟩
    by_contra hn
    rw [Bool.not_eq_true] at hn
    have hin : (Kind.destination,("d_remote" : Str)) ∈ references (written s debug) := by
      rw [written,references_append,references_append,references_flatMap]
      exact List.mem_append_left _ (List.mem_append_right _
        (List.mem_flatMap.mpr ⟨c,hc,references_remote hn debug⟩))
    have hd := hdef _ hin
    rw [names_destination hr,hdebug] at hd
    simp only [Bool.false_eq_true,if_false,List.append_nil,List.mem_append] at hd
    rcases hd with hd | hd
    · exact absurd hd (by decide)
    · obtain ⟨c',hc',-,he⟩ := mem_localNames.mp hd
      exact fixed_names.2.2 c' hc' (congrArg (List.drop 2) he)
  · rintro ⟨rfl,hall⟩
    constructor
    · intro r hin
      rw [written,references_append,references_append,List.mem_append,List.mem_append] at hin
      rcases hin with (hin | hin) | hin
      · rw [references_head] at hin
        rcases fixed_names.1 r hin with rfl | rfl | ⟨hk,hn⟩
        · rw [names_source hr]
          exact List.mem_singleton_self _
        · rw [names_destination hr]
          exact List.mem_append_left _ (List.mem_append_left _ (by simp))
        · rw [hk,names_filter hr]
          exact hn
      · rw [references_flatMap,List.mem_flatMap] at hin
        obtain ⟨c,hc,hin⟩ := hin
        rcases references_block (hall c hc) hin with hin | ⟨hl,rfl⟩
        · simp only [List.mem_cons,List.not_mem_nil,or_false] at hin
          rcases hin with rfl | rfl | rfl | rfl
          · rw [names_source hr]
            exact List.mem_singleton_self _
          · rw [names_filter hr]
            exact fixed_names.2.1 c hc
          · rw [names_destination hr]
            exact List.mem_append_left _ (List.mem_append_left _ (by simp))
          · rw [names_destination hr]
            exact List.mem_append_left _ (List.mem_append_left _ (by simp))
        · rw [names_destination hr]
          exact List.mem_append_left _ (List.mem_append_right _ (mem_localNames.mpr ⟨c,hc,hl,rfl⟩))
      · simp [tail,debugItems,references] at hin
    · intro k
      cases k with
      | source =>
        rw [names_source hr]
        simp
      | filter =>
        rw [names_filter hr]
        exact filterNames_nodup
      | destination =>
        rw [names_destination hr]
        simp only [Bool.false_eq_true,if_false,List.append_nil]
        exact destNames_nodup.sublist ((localNames_sublist s).append_left _)

theorem remoteData_none (pcre : Pcre) (env : Env) (d : Params) (w : World) : (remoteData pcre env d w).1 = none := by
  unfold remoteData
  split
  · rfl
  · exact if_neg (by simp)

/-- The section of `syslog.cfg` for the remote server. -/
def remoteSection (env : Env) (w : World) : Params :=
  (iniTokenGet env "reporting" "syslog.cfg" ∅ w).1.getD "remote" ∅

/-- The configuration is well formed exactly when nothing is debugged and no class is logged remotely. -/
theorem syslogConfig_iff (pcre : Pcre) (env : Env) (debug : Bool) (w : World) :
    WellFormed (syslogConfig pcre env debug w).1 ↔
      debug = false ∧ ∀ c ∈ classes, nolog (settingFiles (remoteSection env w)) c.setting = true :=
  written_iff (remoteData_none pcre env _ _) debug

def loggerWorld : World := World.ofFiles [
  ("reporting","syslog.cfg","ID=local
STAT=1
KERNEL_STAT=1

ID=remote
STAT=1
SERVER=logger
SERVICE=syslog
KERNEL_STAT=1
"),
  ("definitions","network_host.cfg","ID=a1
NAME=logger
ADDR=10.0.0.9
"),
  ("definitions","service_udp.cfg","ID=b2
NAME=syslog
DPORT=514
")]

/-- The destination `d_remote` is referred to and not defined. -/
theorem remote_undefined : ¬ ∀ w, WellFormed (syslogConfig Pcre.plain noonEnv false w).1 := by
  intro h
  have hall := ((written_iff (remoteData_none _ _ _ _) false).mp (h loggerWorld)).2
  have hk : nolog (settingFiles (remoteSection noonEnv loggerWorld)) "kernel" = false := by decide
  have hc := hall ⟨"kernel","kernel",none,false⟩ (List.mem_cons_self ..)
  exact absurd (hk.symm.trans hc) (by simp)

end SyslogConfig
end Mybox
