import Mybox.Glob
import Mybox.Ipcalc
import Mybox.OrderedMap

/-! Version 3.0: the log files of a name and a date, and the line `mybox_write_log` appends. A full file is followed by
a file with the next number; which file is the last is counted in the directory at every line. Texts are bytes. -/
namespace Mybox
namespace LogRotation

open Php Ipcalc

def maxsize : ℕ := 2097152

/-- `$_LOG_PATH`: the names in the directory with what the files hold. -/
abbrev Dir := OrdMap Str Str

def logGetsize (logfile : Str) (d : Dir) : ℕ :=
  match d.get? logfile with
  | some s => s.length
  | none => 0

def baseFile (name date : Str) : Str := name ++ '-'::date ++ (".log" : Str)

def numbered (name date : Str) (lcnt : ℕ) : Str := name ++ '-'::date ++ '.'::decimal lcnt ++ (".log" : Str)

def pattern (name date : Str) : Str := name ++ '-'::date ++ (".*.log" : Str)

/-- `mybox_dir2array` for a pattern in the directory. -/
def dir2array (p : Str) (d : Dir) : List Str := d.keys.filter (Glob.finds p)

def logSetname (name date : Str) (max : ℕ) (d : Dir) : Str :=
  let n := (dir2array (pattern name date) d).length
  let lcnt := if n = 0 then 1 else n
  if (d.get? (numbered name date lcnt)).isSome then
    if max ≤ logGetsize (numbered name date lcnt) d then numbered name date (lcnt + 1) else numbered name date lcnt
  else numbered name date lcnt

def logName (name date : Str) (d : Dir) : Str :=
  if maxsize ≤ logGetsize (baseFile name date) d then logSetname name date maxsize d else baseFile name date

def appendToFile (filename text : Str) (d : Dir) : Dir := d.set filename (d.getD filename [] ++ text)

/-- What a line is written under: the calendar, and the files in `/var/sys` that turn logs on and off. -/
structure Machine where
  date : Str → ℤ → Str
  nolog : Bool
  logSetting : Str → Bool
  logger : Bool
  rlogSetting : Str → Bool

structure State where
  /-- `$_LOG_DUP` -/
  logDup : List Str
  dir : Dir
  /-- What `mybox_send_remotelog` was called with. -/
  remote : List (ℤ × Str)

structure Call where
  ldate : ℤ
  name : Str
  lname : Str
  txt : Str

def chkdupLog (txt : Str) (logDup : List Str) : Bool × List Str :=
  if txt ∈ logDup then (true,logDup) else (false,txt::if 1000 ≤ logDup.length then [] else logDup)

def chkNolog (m : Machine) (prog : Str) : Bool := m.nolog || (prog ≠ [] && !m.logSetting prog)

def msg (m : Machine) (c : Call) : Str := '['::m.date "d/m/Y H:i:s" c.ldate ++ ("] " : Str) ++ trim c.txt

def msgx (c : Call) : Str := '['::c.lname ++ ("] " : Str) ++ trim c.txt

def writeLog (m : Machine) (c : Call) (s : State) : State :=
  if c.txt = [] then s
  else if toNumber (m.date "Y" c.ldate) < 2007 then s
  else
    let r := chkdupLog (msg m c) s.logDup
    if r.1 then { s with logDup := r.2 }
    else
      { logDup := r.2
        dir :=
          if chkNolog m c.name then s.dir
          else appendToFile (logName c.name (m.date "Ymd" c.ldate) s.dir) (msg m c ++ ['\n']) s.dir
        remote := if m.logger && m.rlogSetting c.name then s.remote ++ [(c.ldate,msgx c)] else s.remote }

def run (es : List (Machine × Call)) (s : State) : State := es.foldl (fun s e => writeLog e.1 e.2 s) s

def line (m : Machine) (c : Call) (s : State) : Option Str :=
  if c.txt = [] ∨ toNumber (m.date "Y" c.ldate) < 2007 ∨ msg m c ∈ s.logDup ∨ chkNolog m c.name = true then none
  else some (msg m c ++ ['\n'])

/-- The line goes to the log of this name and date. -/
def Own (name date : Str) (e : Machine × Call) : Prop := e.2.name = name ∧ e.1.date "Ymd" e.2.ldate = date

instance (name date : Str) (e : Machine × Call) : Decidable (Own name date e) := inferInstanceAs (Decidable (_ ∧ _))

/-- The lines that were appended to the log of this name and date. -/
def lines (name date : Str) : List (Machine × Call) → State → List Str
  | [], _ => []
  | e::es, s => (if Own name date e then (line e.1 e.2 s).toList else []) ++ lines name date es (writeLog e.1 e.2 s)

def fileAt (name date : Str) : ℕ → Str
  | 0 => baseFile name date
  | k+1 => numbered name date (k+1)

/-- What the files hold, line by line: the lines of each file, the files in the directory, and where one ends. -/
structure Filed (name date : Str) (d : Dir) (parts : List (List Str)) : Prop where
  texts : ∀ i p, parts[i]? = some p → d.get? (fileAt name date i) = some p.flatten
  base : parts = [] → d.get? (baseFile name date) = none
  numbers : dir2array (pattern name date) d = (List.range (parts.length - 1)).map fun k => numbered name date (k+1)
  filled : ∀ p ∈ parts, p ≠ []
  full : ∀ p ∈ parts.dropLast, maxsize ≤ p.flatten.length
  room : ∀ p ∈ parts, p.dropLast.flatten.length < maxsize

/-- The files hold just these lines in this order, under consecutive numbers, and each but the last is full by its last
line. -/
def Rotated (name date : Str) (d : Dir) (ls : List Str) : Prop := ∃ parts, parts.flatten = ls ∧ Filed name date d parts

def Foreign (name date f : Str) : Prop := f ≠ baseFile name date ∧ Glob.finds (pattern name date) f = false

/-- A call for another log that has no file in common with this one. -/
def Apart (name date : Str) (e : Machine × Call) : Prop :=
  Foreign name date (baseFile e.2.name (e.1.date "Ymd" e.2.ldate)) ∧
  ∀ k, Foreign name date (numbered e.2.name (e.1.date "Ymd" e.2.ldate) k)

section

variable {name date : Str} (h : Glob.Plain (name ++ '-'::date))

include h

theorem found_iff (f : Str) : Glob.finds (pattern name date) f = true ↔
    ∃ t, f = name ++ '-'::date ++ '.'::t ++ (".log" : Str) := by
  have hw : Glob.Plain (name ++ '-'::date ++ ['.']) := by
    intro c hc
    rcases List.mem_append.mp hc with hc | hc
    · exact h c hc
    · rw [List.mem_singleton.mp hc]
      decide
  have hv : Glob.Plain ".log".toList := by
    intro c hc
    simp at hc
    rcases hc with rfl | rfl | rfl | rfl <;> decide
  have hp : pattern name date = (name ++ '-'::date ++ ['.']) ++ '*'::".log".toList := by simp [pattern,Str.of_ascii]
  rw [hp,Glob.finds_around hw hv (by simp)]
  simp [Str.of_ascii]

theorem numbered_found (k : ℕ) : Glob.finds (pattern name date) (numbered name date k) = true :=
  (found_iff h _).mpr ⟨decimal k,rfl⟩

theorem base_missed : Glob.finds (pattern name date) (baseFile name date) = false := by
  rw [Bool.eq_false_iff]
  intro hf
  obtain ⟨t,ht⟩ := (found_iff h _).mp hf
  have hl := congrArg List.length ht
  simp [baseFile,Str.of_ascii] at hl

theorem fileAt_found (i : ℕ) : Glob.finds (pattern name date) (fileAt name date i) = decide (0 < i) := by
  cases i with
  | zero => exact base_missed h
  | succ k => exact numbered_found h (k+1)

end

theorem numbered_inj {name date : Str} {j k : ℕ} (h : numbered name date j = numbered name date k) : j = k := by
  rw [numbered,numbered] at h
  exact decimal_injective (List.cons.inj (List.append_cancel_left (List.append_cancel_right h))).2

theorem dir2array_set (p f s : Str) (d : Dir) : dir2array p (d.set f s) =
    if d.get? f = none ∧ Glob.finds p f = true then dir2array p d ++ [f] else dir2array p d := by
  rw [dir2array,OrdMap.keys_set]
  by_cases hk : f ∈ d.keys
  · rw [if_pos hk,if_neg fun hn => OrdMap.get?_eq_none.mp hn.1 hk]
    rfl
  · rw [if_neg hk,List.filter_append]
    by_cases hf : Glob.finds p f = true
    · rw [if_pos ⟨OrdMap.get?_eq_none.mpr hk,hf⟩]
      simp [dir2array,hf]
    · rw [if_neg fun hn => hf hn.2]
      simp [dir2array,hf]

section

variable {name date : Str} (h : Glob.Plain (name ++ '-'::date))

include h

theorem fileAt_inj {i j : ℕ} (he : fileAt name date i = fileAt name date j) : i = j := by
  have hd : decide (0 < i) = decide (0 < j) := by rw [← fileAt_found h i,he,fileAt_found h]
  cases i with
  | zero =>
    cases j with
    | zero => rfl
    | succ j => simp at hd
  | succ i =>
    cases j with
    | zero => simp at hd
    | succ j => exact numbered_inj he

variable {d : Dir} {parts ps : List (List Str)} {p : List Str}

theorem Filed.free (hf : Filed name date d parts) : d.get? (fileAt name date parts.length) = none := by
  cases hp : parts.length with
  | zero => exact hf.base (List.length_eq_zero_iff.mp hp)
  | succ n =>
    rw [OrdMap.get?_eq_none]
    intro hk
    have hm : numbered name date (n+1) ∈ dir2array (pattern name date) d :=
      List.mem_filter.mpr ⟨hk,numbered_found h (n+1)⟩
    rw [hf.numbers,hp] at hm
    obtain ⟨k,hk,he⟩ := List.mem_map.mp hm
    have hlt := List.mem_range.mp hk
    have := numbered_inj he
    omega

omit h in
theorem Filed.size {i : ℕ} (hf : Filed name date d parts) (hp : parts[i]? = some p) :
    logGetsize (fileAt name date i) d = p.flatten.length := by
  rw [logGetsize,hf.texts i p hp]

omit h in
theorem last_place : (ps ++ [p])[ps.length]? = some p := by simp

omit h in
theorem Filed.logName_nil (hf : Filed name date d []) : logName name date d = fileAt name date 0 := by
  rw [logName,logGetsize,hf.base rfl]
  exact if_neg (by decide)

/-- The count names the last file, and the next one if it is full. -/
theorem Filed.logName_concat (hf : Filed name date d (ps ++ [p])) : logName name date d =
    fileAt name date (if maxsize ≤ p.flatten.length then (ps ++ [p]).length else ps.length) := by
  have hl : (ps ++ [p]).length = ps.length + 1 := by simp
  have hfree := hf.free h
  rw [hl] at hfree ⊢
  cases ps with
  | nil =>
    have hn : (dir2array (pattern name date) d).length = 0 := by
      rw [hf.numbers]
      rfl
    rw [logName,show baseFile name date = fileAt name date 0 from rfl,hf.size (p := p) rfl]
    split
    · rw [logSetname]
      simp only [hn,if_true]
      have hg : d.get? (numbered name date 1) = none := hfree
      exact if_neg (by rw [hg]; decide)
    · rfl
  | cons q ps =>
    have hn : (dir2array (pattern name date) d).length = (q::ps).length := by
      rw [hf.numbers,hl,List.length_map,List.length_range,Nat.add_sub_cancel]
    have hq : maxsize ≤ logGetsize (baseFile name date) d := by
      rw [show baseFile name date = fileAt name date 0 from rfl,hf.size (p := q) rfl]
      exact hf.full q (List.dropLast_concat ▸ List.mem_cons_self)
    have hs := hf.size (@last_place (q::ps) p)
    have hg := hf.texts _ _ (@last_place (q::ps) p)
    rw [logName,if_pos hq,logSetname]
    simp only [hn]
    rw [if_neg (show ¬ (q::ps).length = 0 by simp),
      show numbered name date (q::ps).length = fileAt name date (q::ps).length from rfl,hg,hs,Option.isSome_some,
      if_pos rfl]
    split <;> rfl

/-- A line in a file of its own, behind files that are all full. -/
theorem Filed.put_new (hf : Filed name date d parts) (hl : ∀ q ∈ parts, maxsize ≤ q.flatten.length) (t : Str) :
    Filed name date (appendToFile (fileAt name date parts.length) t d) (parts ++ [[t]]) := by
  have hfree := hf.free h
  have he : appendToFile (fileAt name date parts.length) t d = d.set (fileAt name date parts.length) t := by
    rw [appendToFile,OrdMap.getD,hfree]
    rfl
  rw [he]
  constructor
  case texts =>
    intro i q hi
    rcases Nat.lt_trichotomy i parts.length with hlt | rfl | hlt
    · rw [OrdMap.get?_set_ne _ _ fun hn => absurd (fileAt_inj h hn) (by omega)]
      exact hf.texts i q (by rwa [List.getElem?_append_left hlt] at hi)
    · rw [last_place,Option.some.injEq] at hi
      rw [OrdMap.get?_set_self,← hi,List.flatten_singleton]
    · rw [List.getElem?_eq_none (by simp; omega)] at hi
      exact absurd hi (by simp)
  case base => exact fun hn => absurd hn (by simp)
  case numbers =>
    rw [dir2array_set,hf.numbers,fileAt_found h,List.length_append,List.length_singleton,Nat.add_sub_cancel]
    cases hp : parts.length with
    | zero => rw [if_neg (by simp)]
    | succ n =>
      rw [hp] at hfree
      rw [if_pos ⟨hfree,by simp⟩,Nat.add_sub_cancel,List.range_succ,List.map_append]
      rfl
  case filled =>
    intro q hq
    rcases List.mem_append.mp hq with hq | hq
    · exact hf.filled q hq
    · rw [List.mem_singleton.mp hq]
      simp
  case full =>
    rw [List.dropLast_concat]
    exact hl
  case room =>
    intro q hq
    rcases List.mem_append.mp hq with hq | hq
    · exact hf.room q hq
    · rw [List.mem_singleton.mp hq]
      exact Nat.two_pow_pos 21

/-- A line behind the others of the last file, which is not full. -/
theorem Filed.put_last (hf : Filed name date d (ps ++ [p])) (hl : p.flatten.length < maxsize) (t : Str) :
    Filed name date (appendToFile (fileAt name date ps.length) t d) (ps ++ [p ++ [t]]) := by
  have hg := hf.texts _ _ (@last_place ps p)
  have he : appendToFile (fileAt name date ps.length) t d =
      d.set (fileAt name date ps.length) (p ++ [t]).flatten := by
    rw [appendToFile,OrdMap.getD,hg,List.flatten_append,List.flatten_singleton]
    rfl
  rw [he]
  constructor
  case texts =>
    intro i q hi
    rcases Nat.lt_trichotomy i ps.length with hlt | rfl | hlt
    · rw [OrdMap.get?_set_ne _ _ fun hn => absurd (fileAt_inj h hn) (by omega)]
      rw [List.getElem?_append_left hlt] at hi
      exact hf.texts i q (by rw [List.getElem?_append_left hlt,hi])
    · rw [last_place,Option.some.injEq] at hi
      rw [OrdMap.get?_set_self,← hi]
    · rw [List.getElem?_eq_none (by simp; omega)] at hi
      exact absurd hi (by simp)
  case base => exact fun hn => absurd hn (by simp)
  case numbers =>
    rw [dir2array_set,if_neg fun hn => absurd (hg ▸ hn.1) (by simp),hf.numbers,List.length_append,
      List.length_append,List.length_singleton,List.length_singleton]
  case filled =>
    intro q hq
    rcases List.mem_append.mp hq with hq | hq
    · exact hf.filled q (by simp [hq])
    · rw [List.mem_singleton.mp hq]
      simp
  case full =>
    have hd := hf.full
    rw [List.dropLast_concat] at hd ⊢
    exact hd
  case room =>
    intro q hq
    rcases List.mem_append.mp hq with hq | hq
    · exact hf.room q (by simp [hq])
    · rw [List.mem_singleton.mp hq,List.dropLast_concat]
      exact hl

theorem Rotated.append {ls : List Str} (hr : Rotated name date d ls) (t : Str) :
    Rotated name date (appendToFile (logName name date d) t d) (ls ++ [t]) := by
  obtain ⟨parts,rfl,hf⟩ := hr
  rcases List.eq_nil_or_concat parts with rfl | ⟨ps,p,rfl⟩
  · rw [hf.logName_nil]
    exact ⟨[[t]],rfl,hf.put_new h (by simp) t⟩
  · rw [List.concat_eq_append] at hf ⊢
    rw [hf.logName_concat h]
    by_cases hl : maxsize ≤ p.flatten.length
    · have hall : ∀ q ∈ ps ++ [p], maxsize ≤ q.flatten.length := by
        intro q hq
        rcases List.mem_append.mp hq with hq | hq
        · exact hf.full q (by rwa [List.dropLast_concat])
        · rwa [List.mem_singleton.mp hq]
      rw [if_pos hl]
      exact ⟨ps ++ [p] ++ [[t]],by simp,hf.put_new h hall t⟩
    · rw [if_neg hl]
      exact ⟨ps ++ [p ++ [t]],by simp,hf.put_last h (Nat.lt_of_not_le hl) t⟩

end

theorem writeLog_dir (m : Machine) (c : Call) (s : State) : (writeLog m c s).dir =
    match line m c s with
    | some t => appendToFile (logName c.name (m.date "Ymd" c.ldate) s.dir) t s.dir
    | none => s.dir := by
  rw [writeLog,line,chkdupLog]
  by_cases ht : c.txt = []
  · rw [if_pos ht,if_pos (Or.inl ht)]
  by_cases hy : toNumber (m.date "Y" c.ldate) < 2007
  · rw [if_neg ht,if_pos hy,if_pos (Or.inr (Or.inl hy))]
  by_cases hd : msg m c ∈ s.logDup
  · rw [if_neg ht,if_neg hy,if_pos hd,if_pos (Or.inr (Or.inr (Or.inl hd)))]
    rfl
  by_cases hn : chkNolog m c.name = true
  · rw [if_neg ht,if_neg hy,if_neg hd,if_pos (Or.inr (Or.inr (Or.inr hn)))]
    exact if_pos hn
  · have ha : ¬ (c.txt = [] ∨ toNumber (m.date "Y" c.ldate) < 2007 ∨ msg m c ∈ s.logDup ∨ chkNolog m c.name = true) := by
      rintro (h | h | h | h)
      exacts [ht h,hy h,hd h,hn h]
    rw [if_neg ht,if_neg hy,if_neg hd,if_neg ha]
    exact if_neg hn

theorem logName_mem (name date : Str) (d : Dir) :
    logName name date d = baseFile name date ∨ ∃ k, logName name date d = numbered name date k := by
  have hs : ∀ n, ∃ k, (if (d.get? (numbered name date n)).isSome then
      if maxsize ≤ logGetsize (numbered name date n) d then numbered name date (n + 1) else numbered name date n
    else numbered name date n) = numbered name date k := by
    intro n
    split
    · split
      · exact ⟨n+1,rfl⟩
      · exact ⟨n,rfl⟩
    · exact ⟨n,rfl⟩
  rw [logName]
  split
  · exact Or.inr (hs _)
  · exact Or.inl rfl

variable {name date : Str}

theorem Apart.logName {e : Machine × Call} (ha : Apart name date e) (d : Dir) :
    Foreign name date (logName e.2.name (e.1.date "Ymd" e.2.ldate) d) := by
  rcases logName_mem e.2.name (e.1.date "Ymd" e.2.ldate) d with he | ⟨k,he⟩
  · rw [he]
    exact ha.1
  · rw [he]
    exact ha.2 k

theorem Filed.foreign (h : Glob.Plain (name ++ '-'::date)) {d : Dir} {parts : List (List Str)}
    (hf : Filed name date d parts) {f : Str} (hn : Foreign name date f) (t : Str) :
    Filed name date (appendToFile f t d) parts := by
  have hne : ∀ i, f ≠ fileAt name date i := by
    rintro (_ | i) rfl
    · exact hn.1 rfl
    · exact absurd (hn.2.symm.trans (numbered_found h (i+1))) (by decide)
  exact {
    texts := fun i p hp => by
      rw [appendToFile,OrdMap.get?_set_ne _ _ (hne i)]
      exact hf.texts i p hp
    base := fun hp => by
      rw [appendToFile,OrdMap.get?_set_ne _ _ hn.1]
      exact hf.base hp
    numbers := by
      rw [appendToFile,dir2array_set,if_neg fun hx => absurd (hn.2 ▸ hx.2) (by decide)]
      exact hf.numbers
    filled := hf.filled
    full := hf.full
    room := hf.room }

theorem Rotated.writeLog (h : Glob.Plain (name ++ '-'::date)) {e : Machine × Call} {s : State} {ls : List Str}
    (he : Own name date e ∨ Apart name date e) (hr : Rotated name date s.dir ls) :
    Rotated name date (writeLog e.1 e.2 s).dir (ls ++ if Own name date e then (line e.1 e.2 s).toList else []) := by
  rw [writeLog_dir]
  cases hl : line e.1 e.2 s with
  | none => simpa using hr
  | some t =>
    by_cases ho : Own name date e
    · rw [if_pos ho,ho.1,ho.2]
      exact hr.append h t
    · rw [if_neg ho,List.append_nil]
      obtain ⟨parts,hp,hf⟩ := hr
      exact ⟨parts,hp,hf.foreign h ((he.resolve_left ho).logName s.dir) t⟩

theorem Rotated.run (h : Glob.Plain (name ++ '-'::date)) {es : List (Machine × Call)}
    (he : ∀ e ∈ es, Own name date e ∨ Apart name date e) {s : State} {ls : List Str}
    (hr : Rotated name date s.dir ls) : Rotated name date (run es s).dir (ls ++ lines name date es s) := by
  induction es generalizing s ls with
  | nil => simpa [LogRotation.run,lines] using hr
  | cons e es ih =>
    have hs := ih (fun f hf => he f (by simp [hf])) (hr.writeLog h (he e (by simp)))
    rw [List.append_assoc] at hs
    exact hs

/-- From a directory without files of the log, for calls for this log and for logs that have no file in common with
it: its files hold the lines in order. -/
theorem rotated_run (h : Glob.Plain (name ++ '-'::date)) {es : List (Machine × Call)}
    (he : ∀ e ∈ es, Own name date e ∨ Apart name date e) {s : State} (hs : ∀ f ∈ s.dir.keys, Foreign name date f) :
    Rotated name date (run es s).dir (lines name date es s) := by
  have h₀ : Rotated name date s.dir [] := by
    refine ⟨[],rfl,fun i p hp => absurd hp (by simp),fun _ => ?_,?_,by simp,by simp,by simp⟩
    · exact OrdMap.get?_eq_none.mpr fun hk => (hs _ hk).1 rfl
    · exact List.filter_eq_nil_iff.mpr fun f hf => by rw [(hs f hf).2]; decide
  exact h₀.run h he

/-- A line that fills the first file leaves the next one for the second. -/
theorem Filed.second {d : Dir} {parts : List (List Str)} (hf : Filed name date d parts) {a b : Str}
    (hl : parts.flatten = [a,b]) (ha : maxsize ≤ a.length) : d.get? (numbered name date 1) = some b := by
  have hroom : [a,b] ∉ parts := by
    intro hp
    have hr : [a].flatten.length < maxsize := hf.room _ hp
    rw [List.flatten_singleton] at hr
    exact absurd hr (Nat.not_lt.mpr ha)
  match parts,hl with
  | [p],hl =>
    rw [List.flatten_singleton] at hl
    exact absurd (hl ▸ List.mem_singleton_self p) hroom
  | p::q::ps,hl =>
    obtain ⟨x,xs,rfl⟩ := List.exists_cons_of_ne_nil (hf.filled p (by simp))
    obtain ⟨y,ys,rfl⟩ := List.exists_cons_of_ne_nil (hf.filled q (by simp))
    simp only [List.flatten_cons,List.cons_append,List.cons.injEq] at hl
    obtain ⟨rfl,hl⟩ := hl
    cases xs with
    | nil =>
      obtain ⟨rfl,hys⟩ := List.cons.inj hl
      have hy := hf.texts 1 (y::ys) rfl
      rwa [(List.append_eq_nil_iff.mp hys).1,List.flatten_singleton] at hy
    | cons z zs => exact absurd (congrArg List.length hl) (by simp)

/-- A machine on the first day of 2026, with the logs on. -/
def newYear : Machine where
  date f _ := if f = ("Y" : Str) then "2026" else "20260101"
  nolog := false
  logSetting _ := true
  logger := false
  rlogSetting _ := false

/-- A line as long as one chooses. -/
def long (n : ℕ) : Call := ⟨1767225600,"auth","AUTH",List.replicate n 'x'⟩

def login : Call := ⟨1767225601,"system","SYSTEM","TYPE=INFO MSG=login"⟩

def granted : Call := ⟨1767225602,"auth","AUTH","TYPE=https MSG=Access granted"⟩

def morning (n : ℕ) : List (Machine × Call) := [(newYear,long n),(newYear,login),(newYear,granted)]

theorem trim_long (n : ℕ) : trim (long n).txt = (long n).txt := by
  have hx : ∀ c ∈ (long n).txt, ¬ trimChar c = true := by
    intro c hc
    rw [List.eq_of_mem_replicate hc]
    decide
  exact (LineText.stripped_iff _).mpr
    ⟨fun c hc => hx c (List.mem_of_mem_head? hc),fun c hc => hx c (List.mem_of_getLast? hc)⟩

theorem granted_ne_long (n : ℕ) : trim granted.txt ≠ trim (long n).txt := by
  rw [trim_long]
  intro h
  have hx : 'T' = 'x' := List.eq_of_mem_replicate (h ▸ (by decide : 'T' ∈ trim granted.txt))
  exact absurd hx (by decide)

theorem long_length (n : ℕ) : n ≤ (msg newYear (long n) ++ ['\n']).length := by
  rw [msg,trim_long,List.length_append,List.length_append,long,List.length_replicate]
  omega

theorem mem_logDup {m : Machine} {c : Call} {s : State} {t : Str} (h : t ∈ (writeLog m c s).logDup) :
    t = msg m c ∨ t ∈ s.logDup := by
  have hd : t ∈ (chkdupLog (msg m c) s.logDup).2 → t = msg m c ∨ t ∈ s.logDup := by
    rw [chkdupLog]
    split
    · exact Or.inr
    · intro ht
      refine (List.mem_cons.mp ht).imp_right fun ht => ?_
      split at ht
      · exact absurd ht List.not_mem_nil
      · exact ht
  rw [writeLog] at h
  split at h
  · exact Or.inr h
  split at h
  · exact Or.inr h
  simp only at h
  split at h <;> exact hd h

theorem line_newYear {c : Call} {s : State} (ht : c.txt ≠ []) (hd : msg newYear c ∉ s.logDup) :
    line newYear c s = some (msg newYear c ++ ['\n']) := by
  have hy : ¬ toNumber (newYear.date "Y" c.ldate) < 2007 := (by decide +kernel : ¬ toNumber ("2026" : Str) < 2007)
  have hn : ¬ chkNolog newYear c.name = true := by simp [chkNolog,newYear]
  rw [line,if_neg]
  rintro (h | h | h | h)
  exacts [ht h,hy h,hd h,hn h]

theorem lines_morning {n : ℕ} (hn : 0 < n) : lines "auth" "20260101" (morning n) ⟨[],∅,[]⟩ =
    [msg newYear (long n) ++ ['\n'],msg newYear granted ++ ['\n']] := by
  have hlong : (long n).txt ≠ [] := List.ne_nil_of_length_pos (by rw [long,List.length_replicate]; exact hn)
  have htxt : ∀ {c : Call}, msg newYear granted = msg newYear c → trim granted.txt = trim c.txt :=
    fun he => List.append_cancel_left he
  have hnew : msg newYear granted ∉ (writeLog newYear login (writeLog newYear (long n) ⟨[],∅,[]⟩)).logDup := by
    intro h
    rcases mem_logDup h with h | h
    · exact absurd (htxt h) (by decide)
    rcases mem_logDup h with h | h
    · exact granted_ne_long n (htxt h)
    · exact absurd h List.not_mem_nil
  have ho : Own "auth" "20260101" (newYear,long n) := ⟨rfl,rfl⟩
  have hl : ¬ Own "auth" "20260101" (newYear,login) := fun h => absurd h.1 (by decide)
  have hg : Own "auth" "20260101" (newYear,granted) := ⟨rfl,rfl⟩
  simp only [morning,lines]
  rw [if_pos ho,if_neg hl,if_pos hg,line_newYear hlong List.not_mem_nil,line_newYear (by decide) hnew]
  rfl

theorem plain_auth : Glob.Plain (("auth" : Str) ++ '-'::("20260101" : Str)) := by
  unfold Glob.Plain
  decide

theorem morning_apart (n : ℕ) : ∀ e ∈ morning n, Own "auth" "20260101" e ∨ Apart "auth" "20260101" e := by
  intro e he
  have hf : ∀ t, Foreign "auth" "20260101" ('s'::t) := by
    intro t
    refine ⟨fun h => absurd (List.cons.inj h).1 (by decide),?_⟩
    rw [Bool.eq_false_iff]
    intro hx
    obtain ⟨u,hu⟩ := (found_iff plain_auth _).mp hx
    exact absurd (List.cons.inj hu).1 (by decide)
  simp only [morning,List.mem_cons,List.not_mem_nil,or_false] at he
  rcases he with rfl | rfl | rfl
  · exact Or.inl ⟨rfl,rfl⟩
  · exact Or.inr ⟨hf _,fun k => hf _⟩
  · exact Or.inl ⟨rfl,rfl⟩

/-- The first line fills a file, so the next one for the log begins the second. -/
theorem rotated_run_morning : Rotated "auth" "20260101" (run (morning maxsize) ⟨[],∅,[]⟩).dir
      [msg newYear (long maxsize) ++ ['\n'],msg newYear granted ++ ['\n']] ∧
    (run (morning maxsize) ⟨[],∅,[]⟩).dir.get? (numbered "auth" "20260101" 1) =
      some (msg newYear granted ++ ['\n']) := by
  have hr := rotated_run plain_auth (morning_apart maxsize) (s := ⟨[],∅,[]⟩)
    fun f hf => absurd hf List.not_mem_nil
  rw [lines_morning (n := maxsize) (Nat.two_pow_pos 21)] at hr
  obtain ⟨parts,hp,hd⟩ := hr
  exact ⟨⟨parts,hp,hd⟩,hd.second hp (long_length maxsize)⟩

end LogRotation
end Mybox
