import Mybox.Buffers
import Mybox.Glob
import Mybox.Php
import Mybox.Spool
import Mathlib.Data.List.Count

/-! Version 3.0: the queue of the alerts. An alert is written as tagged lines into a file that is named after the second
it is written in, and `mybox_alert_send` reads the lines back. -/
namespace Mybox
namespace AlertQueue
open Php Buffers

/-- What `mybox_alert_config` hands over. -/
structure Config where
  alertconf : OrdMap Str Str
  alertemail : List Str

/-- `$alertconf[$k]==0`, and not set. -/
def Config.zero (g : Config) (k : Str) : Bool := looseZero (g.alertconf.getD k [])

def Config.takes (g : Config) (type : Str) : Bool :=
  !(g.alertconf.isEmpty || g.alertemail.isEmpty) && !g.zero "stat" && !g.zero ("alert".toList ++ type)

structure Alert where
  title : Str
  time : Str
  msg : Str
  deriving DecidableEq

def timeText (time : ℕ) : Str := Nat.toDigits 10 time

/-- What stands between the first opening tag and the closing tag after it. -/
def between (opening closing s : Str) : Option Str := do
  let i ← strstr opening s
  let r := s.drop (i + opening.length)
  let j ← strstr closing r
  return r.take j

def titleTag (s : Str) : Option Str := between "[TITLE]" "[/TITLE]" s

def timeTag (s : Str) : Option Str := between "[TIME]" "[/TIME]" s

/-- The variables of `mybox_alert_get_data`. -/
structure Reading where
  title : Str
  time : Str
  tok : ℕ
  data : Str

def readLine (st : Reading) (buff : Str) : Reading :=
  match titleTag buff with
  | some t => {st with title := trim t}
  | none =>
    match timeTag buff with
    | some t => {st with time := trim t}
    | none =>
      if ("[MSG]" : Str) <:+: buff then {st with tok := 1}
      else
        let tok := if ("[/MSG]" : Str) <:+: buff then 2 else st.tok
        {st with tok := tok, data := if tok = 1 then st.data ++ buff else st.data}

/-- What `fgets` returns one after the other, `cur` being read already. -/
def fgets : Str → Str → List Str
  | cur, [] => if cur = [] then [] else [cur]
  | cur, c::s => if c = '\n' then (cur ++ [c])::fgets [] s else fgets (cur ++ [c]) s

/-- The loop ends at the end of the file, and at a line that counts as false. -/
def mailLines (s : Str) : List Str := (fgets [] s).takeWhile (· ≠ ("0" : Str))

/-- The test in `mybox_alert_send`. -/
def Reading.alert (st : Reading) : Option Alert :=
  if st.title ≠ [] ∧ trim st.data ≠ [] ∧ st.time ≠ [] then some ⟨st.title,st.time,trim st.data⟩ else none

def alertGetData (s : Str) : Option Alert := ((mailLines s).foldl readLine ⟨[],[],0,[]⟩).alert

/-- `$data` -/
def alertData (title : Str) (time : ℕ) (msg : Str) : Str :=
  "[TITLE]".toList ++ title ++ "[/TITLE]".toList ++ ['\n'] ++ ("[TIME]".toList ++ timeText time ++ "[/TIME]".toList ++
    ['\n']) ++ ("[MSG]".toList ++ ['\n'] ++ (msg ++ ['\n']) ++ ("[/MSG]".toList ++ ['\n']))

/-- A call of `mybox_alert_queue`, at a time; `opt` tells whether `$opt` is 1. -/
structure Call where
  config : Config
  title : Str
  msg : Str
  type : Str
  opt : Bool
  time : ℕ
  line : '\n' ∉ title
  title_black : trim title ≠ []
  msg_black : trim msg ≠ []

/-- The files of `/var/spool/mqueue`, and what has been handed to `mybox_alert_smtp`. -/
structure World where
  files : OrdMap Str Str
  handed : List Alert

def msgFile (time : ℕ) : Str := "msg:".toList ++ timeText time

def alertQueue (w : World) (c : Call) : World :=
  if c.config.takes c.type = false then w
  else if c.opt = true then ⟨w.files,w.handed ++ [⟨c.title,timeText c.time,c.msg⟩]⟩
  else ⟨w.files.set (msgFile c.time) (alertData c.title c.time c.msg),w.handed⟩

def isMsg (name : Str) : Bool := Glob.finds ("msg:".toList ++ ['*']) name

def alertSend (w : World) : World :=
  ⟨w.files.select fun n _ => !isMsg n,
    w.handed ++ ((w.files.select fun n _ => isMsg n).sortKeys nameLe).entries.filterMap fun e => alertGetData e.2⟩

inductive Event
  | queue (c : Call)
  | send

def step (w : World) : Event → World
  | .queue c => alertQueue w c
  | .send => alertSend w

def run (w : World) (evs : List Event) : World := evs.foldl step w

def Call.Queued (c : Call) : Prop := c.config.takes c.type = true ∧ c.opt = false

instance (c : Call) : Decidable c.Queued := inferInstanceAs (Decidable (_ ∧ _))

def Call.alert (c : Call) : Alert := ⟨trim c.title,timeText c.time,trim c.msg⟩

/-- What an event asks for: the alert that is queued, or the one that goes out at once as it is. -/
def Event.asked : Event → List Alert
  | .queue c =>
    if c.config.takes c.type = false then [] else if c.opt = true then [⟨c.title,timeText c.time,c.msg⟩] else [c.alert]
  | .send => []

/-- After a last `mybox_alert_send`, each alert has been handed over once, and nothing else has. -/
def Delivered (evs : List Event) : Prop := (run ⟨∅,[]⟩ (evs ++ [.send])).handed.Perm (evs.flatMap Event.asked)

/-- A line that `mybox_alert_get_data` does not take for text. -/
def Special (l : Str) : Prop :=
  (titleTag l).isSome = true ∨ (timeTag l).isSome = true ∨ ("[MSG]" : Str) <:+: l ∨ ("[/MSG]" : Str) <:+: l

instance (l : Str) : Decidable (Special l) := inferInstanceAs (Decidable (_ ∨ _))

/-- The title does not hold its own closing tag, and no line of the message is special. -/
structure Call.Untagged (c : Call) : Prop where
  title : ¬("[/TITLE]" : Str) <:+: c.title
  msg : ∀ l ∈ split '\n' c.msg, ¬Special l

/-- Between two alerts that are queued in the same second the queue is sent. -/
def Apart (evs : List Event) : Prop :=
  ∀ before c middle c' after, evs = before ++ .queue c::(middle ++ .queue c'::after) → c.Queued → c'.Queued →
    c.time = c'.time → .send ∈ middle

theorem between_isSome {o c s t : Str} (h : between o c s = some t) : ∃ a b, s = a ++ o ++ t ++ c ++ b := by
  simp only [between,Option.bind_eq_bind,Option.bind_eq_some_iff,Option.pure_def,Option.some.injEq] at h
  obtain ⟨i,hi,j,hj,rfl⟩ := h
  obtain ⟨hs,-,-⟩ := strstr_some hi
  obtain ⟨hr,-,-⟩ := strstr_some hj
  refine ⟨s.take i,(s.drop (i + o.length)).drop (j + c.length),?_⟩
  calc s = s.take i ++ o ++ s.drop (i + o.length) := hs
    _ = s.take i ++ o ++ ((s.drop (i + o.length)).take j ++ c ++ (s.drop (i + o.length)).drop (j + c.length)) :=
      congrArg (s.take i ++ o ++ ·) hr
    _ = _ := by simp only [List.append_assoc]

theorem between_some_of {o c a t b : Str} : (between o c (a ++ o ++ t ++ c ++ b)).isSome = true := by
  have ho : (strstr o (a ++ o ++ t ++ c ++ b)).isSome = true :=
    strstr_isSome.mpr ⟨a,t ++ c ++ b,by simp only [List.append_assoc]⟩
  obtain ⟨i,hi⟩ := Option.isSome_iff_exists.mp ho
  obtain ⟨-,-,hfirst⟩ := strstr_some hi
  have hle : i ≤ a.length := hfirst a (t ++ c ++ b) (by simp only [List.append_assoc])
  have hc : (strstr c ((a ++ o ++ t ++ c ++ b).drop (i + o.length))).isSome = true := by
    refine strstr_isSome.mpr ?_
    have hd : (a ++ o ++ t ++ c ++ b).drop (i + o.length) = (a ++ o).drop (i + o.length) ++ (t ++ c ++ b) := by
      rw [List.append_assoc (a ++ o),List.append_assoc (a ++ o),List.append_assoc t,List.drop_append_of_le_length]
      rw [List.length_append]
      omega
    rw [hd]
    exact ⟨(a ++ o).drop (i + o.length) ++ t,b,by simp only [List.append_assoc]⟩
  obtain ⟨j,hj⟩ := Option.isSome_iff_exists.mp hc
  rw [between,hi,Option.bind_eq_bind,Option.bind_some]
  dsimp only
  rw [hj]
  rfl

/-- A tag whose first character is nowhere else in it is found right behind a text that does not hold it. -/
theorem strstr_own {a : Char} {w s : Str} (ha : a ∉ w) (h : ¬(a::w) <:+: s) (t : Str) :
    strstr (a::w) (s ++ (a::w ++ t)) = some s.length := by
  induction s with
  | nil => simp [strstr]
  | cons b s ih =>
    have hs : ¬(a::w) <:+: s := fun hi => h (hi.trans (List.suffix_cons b s).isInfix)
    have hp : ¬(a::w) <+: b::s ++ (a::w ++ t) := by
      intro hp
      rcases List.prefix_or_prefix_of_prefix hp (List.prefix_append (b::s) _) with hl | ⟨r,hr⟩
      · exact h hl.isInfix
      · rw [← hr,List.prefix_append_right_inj] at hp
        cases r with
        | nil => exact h ⟨[],[],by simp only [List.nil_append,List.append_nil] at hr ⊢; exact hr.symm⟩
        | cons c r =>
          -- the tag would begin again inside itself
          obtain ⟨rfl,-⟩ := List.cons_prefix_cons.mp hp
          obtain ⟨rfl,rfl⟩ := List.cons.inj hr
          exact ha (List.mem_append_right s List.mem_cons_self)
    rw [List.cons_append,strstr,← List.cons_append,if_neg hp,ih hs]
    rfl

/-- A tag without a line end is found in a line exactly when it is found in its text. -/
theorem infix_line {o l : Str} (ho : '\n' ∉ o) : o <:+: l ++ ['\n'] ↔ o <:+: l := by
  constructor
  · rintro ⟨a,b,h⟩
    rcases List.eq_nil_or_concat b with rfl | ⟨b,c,rfl⟩
    · rw [List.append_nil] at h
      rcases List.eq_nil_or_concat o with rfl | ⟨o,c,rfl⟩
      · exact List.nil_infix
      · rw [List.concat_eq_append,← List.append_assoc] at h
        obtain ⟨-,hc⟩ := List.append_inj' h rfl
        obtain rfl : c = '\n' := List.singleton_inj.mp hc
        exact absurd (by simp) ho
    · rw [List.concat_eq_append,← List.append_assoc] at h
      obtain ⟨h,-⟩ := List.append_inj' h rfl
      exact ⟨a,b,h⟩
  · exact fun h => h.trans (List.prefix_append l _).isInfix

theorem between_line {o c l : Str} (hc : '\n' ∉ c) (hne : c ≠ []) :
    (between o c (l ++ ['\n'])).isSome = true ↔ (between o c l).isSome = true := by
  constructor
  · intro h
    obtain ⟨t,ht⟩ := Option.isSome_iff_exists.mp h
    obtain ⟨a,b,hs⟩ := between_isSome ht
    rcases List.eq_nil_or_concat b with rfl | ⟨b,d,rfl⟩
    · rcases List.eq_nil_or_concat c with rfl | ⟨c,d,rfl⟩
      · exact absurd rfl hne
      · rw [List.append_nil,List.concat_eq_append,← List.append_assoc] at hs
        obtain ⟨-,hd⟩ := List.append_inj' hs rfl
        obtain rfl : '\n' = d := List.singleton_inj.mp hd
        exact absurd (by simp) hc
    · rw [List.concat_eq_append,← List.append_assoc] at hs
      obtain ⟨rfl,-⟩ := List.append_inj' hs rfl
      exact between_some_of
  · intro h
    obtain ⟨t,ht⟩ := Option.isSome_iff_exists.mp h
    obtain ⟨a,b,rfl⟩ := between_isSome ht
    rw [List.append_assoc _ b]
    exact between_some_of

theorem special_line (l : Str) : Special (l ++ ['\n']) ↔ Special l := by
  unfold Special titleTag timeTag
  rw [between_line (by decide) (by decide),between_line (by decide) (by decide),infix_line (by decide),
    infix_line (by decide)]

def black (s : Str) : ℕ := s.countP fun c => !trimChar c

theorem black_append (s t : Str) : black (s ++ t) = black s + black t := List.countP_append

theorem black_eq_zero {s : Str} : black s = 0 ↔ ∀ c ∈ s, trimChar c = true := by
  simp [black,List.countP_eq_zero]

theorem black_pos {s : Str} (h : trim s ≠ []) : 0 < black s := by
  rw [Nat.pos_iff_ne_zero]
  exact fun hz => h (trim_eq_nil.mpr (black_eq_zero.mp hz))

theorem black_trim (s : Str) : black (trim s) = black s := by
  have hfront : black (s.takeWhile trimChar) = 0 := black_eq_zero.mpr fun c hc => List.mem_takeWhile_imp hc
  have hback : black ((s.dropWhile trimChar).rtakeWhile trimChar) = 0 :=
    black_eq_zero.mpr fun c hc => List.mem_rtakeWhile_imp hc
  have h₁ := congrArg black (List.takeWhile_append_dropWhile (p:=trimChar) (l:=s))
  have h₂ := congrArg black (List.rdropWhile_append_rtakeWhile (p:=trimChar) (l:=s.dropWhile trimChar))
  rw [black_append] at h₁ h₂
  change black ((s.dropWhile trimChar).rdropWhile trimChar) = black s
  omega

theorem black_infix {o s : Str} (h : o <:+: s) : black o ≤ black s := h.sublist.countP_le

theorem fgets_line {l : Str} (h : '\n' ∉ l) (cur t : Str) : fgets cur (l ++ '\n'::t) = (cur ++ l ++ ['\n'])::fgets [] t := by
  induction l generalizing cur with
  | nil => simp [fgets]
  | cons c l ih =>
    rw [List.mem_cons,not_or] at h
    rw [List.cons_append,fgets,if_neg fun hc => h.1 hc.symm,ih h.2]
    simp

theorem mailLines_lines {ls : List Str} (h : ∀ l ∈ ls, '\n' ∉ l) :
    mailLines (ls.flatMap (· ++ ['\n'])) = ls.map (· ++ ['\n']) := by
  have hf : fgets [] (ls.flatMap (· ++ ['\n'])) = ls.map (· ++ ['\n']) := by
    induction ls with
    | nil => simp [fgets]
    | cons l ls ih =>
      rw [List.flatMap_cons,List.append_assoc,List.singleton_append,fgets_line (h l (by simp)),
        ih fun m hm => h m (List.mem_cons_of_mem l hm)]
      rfl
  rw [mailLines,hf,List.takeWhile_eq_self_iff]
  intro l hl
  obtain ⟨m,-,rfl⟩ := List.mem_map.mp hl
  refine decide_eq_true fun he => ?_
  have hlast := congrArg List.getLast? he
  rw [List.getLast?_concat] at hlast
  exact absurd hlast (by decide)

theorem readLine_text {l : Str} (h : ¬Special l) (st : Reading) :
    readLine st l = {st with data := if st.tok = 1 then st.data ++ l else st.data} := by
  unfold Special at h
  simp only [not_or,Bool.not_eq_true,Option.isSome_eq_false_iff,Option.isNone_iff_eq_none] at h
  obtain ⟨h₁,h₂,h₃,h₄⟩ := h
  rw [readLine,h₁]
  dsimp only
  rw [h₂]
  dsimp only
  rw [if_neg h₃,if_neg h₄]

theorem foldl_text {ls : List Str} (h : ∀ l ∈ ls, ¬Special l) (st : Reading) (ht : st.tok = 1) :
    ls.foldl readLine st = {st with data := st.data ++ ls.flatten} := by
  induction ls generalizing st with
  | nil => simp
  | cons l ls ih =>
    rw [List.foldl_cons,readLine_text (h l (by simp)),if_pos ht]
    have hi := ih (fun m hm => h m (List.mem_cons_of_mem l hm)) {st with data := st.data ++ l} ht
    refine hi.trans ?_
    simp

def Reading.black (st : Reading) : ℕ := AlertQueue.black st.title + AlertQueue.black st.data

theorem between_black {o c s t : Str} (h : between o c s = some t) : black t + black o + black c ≤ black s := by
  obtain ⟨a,b,rfl⟩ := between_isSome h
  simp only [black_append]
  omega

/-- A line adds no more than it has, and less when it is special. -/
theorem readLine_black (st : Reading) (l : Str) :
    (readLine st l).black ≤ st.black + black l ∧ (Special l → (readLine st l).black < st.black + black l) := by
  by_cases h : Special l
  · suffices hlt : (readLine st l).black < st.black + black l from ⟨hlt.le,fun _ => hlt⟩
    have hopen : 0 < black ("[MSG]" : Str) ∧ 0 < black ("[/MSG]" : Str) ∧ 0 < black ("[TIME]" : Str) ∧
        0 < black ("[TITLE]" : Str) := by decide
    unfold readLine
    cases h₁ : titleTag l with
    | some t =>
      have hb := between_black h₁
      simp only [Reading.black,black_trim]
      omega
    | none =>
      dsimp only
      cases h₂ : timeTag l with
      | some t =>
        have hb := between_black h₂
        simp only [Reading.black]
        omega
      | none =>
        dsimp only
        by_cases h₃ : ("[MSG]" : Str) <:+: l
        · have hb := black_infix h₃
          rw [if_pos h₃]
          simp only [Reading.black]
          omega
        · have h₄ : ("[/MSG]" : Str) <:+: l := by
            rcases h with h | h | h | h
            · rw [h₁] at h
              cases h
            · rw [h₂] at h
              cases h
            · exact absurd h h₃
            · exact h
          have hb := black_infix h₄
          rw [if_neg h₃,if_pos h₄,if_neg (by decide)]
          simp only [Reading.black]
          omega
  · refine ⟨?_,fun hs => absurd hs h⟩
    rw [readLine_text h]
    simp only [Reading.black]
    split
    · rw [black_append]
      omega
    · omega

theorem foldl_black (ls : List Str) (st : Reading) :
    (ls.foldl readLine st).black ≤ st.black + (ls.map black).sum ∧
      ((∃ l ∈ ls, Special l) → (ls.foldl readLine st).black < st.black + (ls.map black).sum) := by
  induction ls generalizing st with
  | nil => simp
  | cons l ls ih =>
    obtain ⟨hle,hlt⟩ := readLine_black st l
    obtain ⟨hle',hlt'⟩ := ih (readLine st l)
    rw [List.foldl_cons,List.map_cons,List.sum_cons]
    refine ⟨by omega,?_⟩
    rintro ⟨m,hm,hs⟩
    rcases List.mem_cons.mp hm with rfl | hm
    · have := hlt hs
      omega
    · have := hlt' ⟨m,hm,hs⟩
      omega

def Call.lines (c : Call) : List Str :=
  ("[TITLE]".toList ++ c.title ++ "[/TITLE]".toList)::("[TIME]".toList ++ timeText c.time ++ "[/TIME]".toList)::
    "[MSG]".toList::(split '\n' c.msg ++ ["[/MSG]".toList])

def Call.data (c : Call) : Str := alertData c.title c.time c.msg

theorem lines_text (s : Str) : (split '\n' s).flatMap (· ++ ['\n']) = s ++ ['\n'] := by
  refine (LineText.intercalate_concat '\n' (List.splitOn_ne_nil '\n' s)).symm.trans ?_
  exact congrArg (· ++ ['\n']) (List.intercalate_splitOn '\n')

theorem Call.data_lines (c : Call) : c.data = c.lines.flatMap (· ++ ['\n']) := by
  unfold Call.data Call.lines alertData
  rw [List.flatMap_cons,List.flatMap_cons,List.flatMap_cons,List.flatMap_append,lines_text,List.flatMap_singleton]
  simp only [List.append_assoc]

theorem timeText_chars {time : ℕ} {c : Char} (h : c ∈ timeText time) : c.isDigit = true :=
  Nat.isDigit_of_mem_toDigits (by decide) (by decide) h

theorem not_mem_timeText {t : ℕ} {c : Char} (h : c.isDigit = false) : c ∉ timeText t := fun hm => by
  rw [timeText_chars hm] at h
  cases h

theorem Call.lines_line (c : Call) : ∀ l ∈ c.lines, '\n' ∉ l := by
  intro l hl
  simp only [Call.lines,List.mem_append,List.mem_cons,List.not_mem_nil,or_false] at hl
  rcases hl with rfl | rfl | rfl | hl | rfl
  · have := c.line
    simp [this]
  · have := not_mem_timeText (t:=c.time) (c:= '\n') (by decide)
    simp [this]
  · decide
  · exact fun hm => (LineText.mem_splitOn '\n' hl hm).2 rfl
  · decide

theorem strstr_front {α : Type} [DecidableEq α] (o s : List α) : strstr o (o ++ s) = some 0 := by
  cases h : o ++ s with
  | nil =>
    obtain ⟨rfl,-⟩ := List.append_eq_nil_iff.mp h
    rfl
  | cons a t => rw [strstr,if_pos (h ▸ List.prefix_append o s)]

theorem between_front (o c s : Str) : between o c (o ++ s) = (strstr c s).map fun j => s.take j := by
  rw [between,strstr_front,Option.bind_eq_bind,Option.bind_some]
  dsimp only
  rw [Nat.zero_add,List.drop_left]
  cases strstr c s <;> rfl

/-- The title ends at its own closing tag, or loses what is behind another one. -/
theorem titleTag_line (title : Str) : ∃ t, titleTag ("[TITLE]".toList ++ title ++ "[/TITLE]".toList ++ ['\n']) = some t ∧
    (("[/TITLE]" : Str) <:+: title → black t < black title) ∧ (¬("[/TITLE]" : Str) <:+: title → t = title) := by
  have hp : titleTag ("[TITLE]".toList ++ title ++ "[/TITLE]".toList ++ ['\n']) =
      (strstr ("[/TITLE]" : Str) (title ++ ("[/TITLE]".toList ++ ['\n']))).map fun j =>
        (title ++ ("[/TITLE]".toList ++ ['\n'])).take j := by
    rw [List.append_assoc,List.append_assoc]
    exact between_front _ _ _
  by_cases h : ("[/TITLE]" : Str) <:+: title
  · have hs : (strstr ("[/TITLE]" : Str) (title ++ ("[/TITLE]".toList ++ ['\n']))).isSome = true :=
      strstr_isSome.mpr (h.trans (List.prefix_append title _).isInfix)
    obtain ⟨j,hj⟩ := Option.isSome_iff_exists.mp hs
    obtain ⟨hr,-,hfirst⟩ := strstr_some hj
    obtain ⟨u,v,huv⟩ := h
    have hle : j ≤ u.length := hfirst u (v ++ ("[/TITLE]".toList ++ ['\n'])) (by rw [← huv,List.append_assoc])
    have hlen : j + 8 ≤ title.length := by
      have hl := congrArg List.length huv
      have h8 : (Str.of "[/TITLE]").length = 8 := rfl
      simp only [List.length_append,h8] at hl
      omega
    rw [hp,hj,Option.map_some,List.take_append_of_le_length (by omega)]
    refine ⟨_,rfl,fun _ => ?_,fun hn => absurd ⟨u,v,huv⟩ hn⟩
    have hdrop : title.drop j ++ ("[/TITLE]".toList ++ ['\n']) = "[/TITLE]".toList ++ (title ++
        ("[/TITLE]".toList ++ ['\n'])).drop (j + ("[/TITLE]" : Str).length) := by
      have hd := congrArg (List.drop j) hr
      rw [List.drop_append_of_le_length (by omega),List.append_assoc,
        List.drop_left' (by rw [List.length_take,List.length_append]; omega)] at hd
      exact hd
    obtain ⟨d,r,hd⟩ := List.exists_cons_of_ne_nil (List.drop_eq_nil_iff.not.mpr (show ¬title.length ≤ j by omega))
    rw [hd] at hdrop
    obtain rfl : d = '[' := (List.cons.inj hdrop).1
    have hb := congrArg black (List.take_append_drop j title)
    have hpos : 0 < black ('['::r) := by simp [black,trimChar]
    rw [black_append,hd] at hb
    omega
  · have ho : strstr ("[/TITLE]" : Str) (title ++ ("[/TITLE]".toList ++ ['\n'])) = some title.length :=
      strstr_own (a:= '[') (w:="/TITLE]".toList) (by decide) h ['\n']
    rw [hp,ho,Option.map_some,List.take_left]
    exact ⟨title,rfl,fun hi => absurd hi h,fun _ => rfl⟩

theorem timeTag_line (time : ℕ) : titleTag ("[TIME]".toList ++ timeText time ++ "[/TIME]".toList ++ ['\n']) = none ∧
    timeTag ("[TIME]".toList ++ timeText time ++ "[/TIME]".toList ++ ['\n']) = some (timeText time) := by
  constructor
  · rw [← Option.isNone_iff_eq_none,← Option.not_isSome,Bool.not_eq_true',Bool.eq_false_iff]
    intro h
    obtain ⟨t,ht⟩ := Option.isSome_iff_exists.mp h
    obtain ⟨a,b,hs⟩ := between_isSome ht
    -- the line has no such letter
    have hm : 'L' ∈ "[TIME]".toList ++ timeText time ++ "[/TIME]".toList ++ ['\n'] := by
      rw [hs]
      simp [Str.of_ascii]
    have := not_mem_timeText (t:=time) (c:= 'L') (by decide)
    simp [this] at hm
  · have hn : ¬("[/TIME]" : Str) <:+: timeText time := fun hi =>
      not_mem_timeText (c:= '[') (by decide) (hi.mem (by decide))
    have ho := strstr_own (a:= '[') (w:="/TIME]".toList) (by decide) hn ['\n']
    rw [List.append_assoc,List.append_assoc]
    refine (between_front _ _ _).trans ?_
    have hj : strstr ("[/TIME]" : Str) (timeText time ++ ("[/TIME]".toList ++ ['\n'])) = some (timeText time).length := ho
    rw [hj,Option.map_some,List.take_left]

def opened (c : Call) (t : Str) : Reading := ⟨trim t,timeText c.time,1,[]⟩

def Call.text (c : Call) : List Str := (split '\n' c.msg).map (· ++ ['\n'])

theorem Call.text_flatten (c : Call) : c.text.flatten = c.msg ++ ['\n'] := by
  rw [← lines_text,List.flatMap_def]
  rfl

theorem Call.text_special (c : Call) : (∃ l ∈ c.text, Special l) ↔ ∃ l ∈ split '\n' c.msg, Special l := by
  simp [Call.text,special_line]

theorem trim_timeText (time : ℕ) : trim (timeText time) = timeText time := by
  have hblack : ∀ d ∈ timeText time, ¬trimChar d = true := by
    intro d hd ht
    have hdigit := timeText_chars hd
    simp only [trimChar,Bool.or_eq_true,decide_eq_true_eq] at ht
    rcases ht with ((((rfl | rfl) | rfl) | rfl) | rfl) | rfl <;> exact absurd hdigit (by decide)
  refine (LineText.stripped_iff trimChar).mpr ⟨fun d hd => ?_,fun d hd => ?_⟩
  · simpa using hblack d (List.mem_of_mem_head? hd)
  · simpa using hblack d (List.mem_of_mem_getLast? hd)

theorem readLine_last (st : Reading) : readLine st ("[/MSG]".toList ++ ['\n']) = {st with tok := 2} := by
  have hn : titleTag ("[/MSG]".toList ++ ['\n']) = none ∧ timeTag ("[/MSG]".toList ++ ['\n']) = none ∧
      ¬("[MSG]" : Str) <:+: "[/MSG]".toList ++ ['\n'] := by decide
  rw [readLine,hn.1]
  dsimp only
  rw [hn.2.1]
  dsimp only
  have hi : ("[/MSG]" : Str) <:+: "[/MSG]".toList ++ ['\n'] := (List.prefix_append _ _).isInfix
  rw [if_neg hn.2.2,if_pos hi,if_neg (by decide)]

/-- The lines of the message are read between the marks. -/
theorem Call.reading (c : Call) : ∃ t, (("[/TITLE]" : Str) <:+: c.title → black t < black c.title) ∧
    (¬("[/TITLE]" : Str) <:+: c.title → t = c.title) ∧ (mailLines c.data).foldl readLine ⟨[],[],0,[]⟩ =
      {c.text.foldl readLine (opened c t) with tok := 2} := by
  obtain ⟨t,ht,hlt,heq⟩ := titleTag_line c.title
  obtain ⟨h₁,h₂⟩ := timeTag_line c.time
  refine ⟨t,hlt,heq,?_⟩
  rw [c.data_lines,mailLines_lines c.lines_line,Call.lines]
  simp only [List.map_cons,List.map_append,List.map_nil,List.foldl_cons,List.foldl_append,List.foldl_nil]
  have hm : ("[MSG]" : Str) <:+: "[MSG]".toList ++ ['\n'] := (List.prefix_append _ _).isInfix
  have hmsg : readLine ⟨trim t,timeText c.time,0,[]⟩ ("[MSG]".toList ++ ['\n']) = opened c t := by
    have hn : titleTag ("[MSG]".toList ++ ['\n']) = none ∧ timeTag ("[MSG]".toList ++ ['\n']) = none := by decide
    rw [readLine,hn.1]
    dsimp only
    rw [hn.2]
    dsimp only
    rw [if_pos hm]
    rfl
  have htitle : readLine ⟨[],[],0,[]⟩ ("[TITLE]".toList ++ c.title ++ "[/TITLE]".toList ++ ['\n']) = ⟨trim t,[],0,[]⟩ := by
    rw [readLine,ht]
  have htime : readLine ⟨trim t,[],0,[]⟩ ("[TIME]".toList ++ timeText c.time ++ "[/TIME]".toList ++ ['\n']) =
      ⟨trim t,timeText c.time,0,[]⟩ := by
    rw [readLine,h₁]
    dsimp only
    rw [h₂]
    dsimp only
    rw [trim_timeText]
  rw [htitle,htime,hmsg,readLine_last]
  rfl

theorem Call.text_black (c : Call) : (c.text.map AlertQueue.black).sum = AlertQueue.black c.msg := by
  have h := congrArg AlertQueue.black c.text_flatten
  have hn : AlertQueue.black ['\n'] = 0 := by decide
  rw [black_append,hn,Nat.add_zero] at h
  rw [← h]
  exact List.countP_flatten.symm

def Alert.black (a : Alert) : ℕ := AlertQueue.black a.title + AlertQueue.black a.msg

theorem Call.alert_black (c : Call) : c.alert.black = AlertQueue.black c.title + AlertQueue.black c.msg := by
  simp only [Alert.black,Call.alert,black_trim]

/-- What is read of a file weighs no more than the alert, and less when the alert has tags in it. -/
theorem Call.read_black {c : Call} {a : Alert} (h : alertGetData c.data = some a) :
    a.black ≤ c.alert.black ∧ (¬c.Untagged → a.black < c.alert.black) := by
  obtain ⟨t,hlt,heq,hread⟩ := c.reading
  obtain ⟨hle,hspecial⟩ := foldl_black c.text (opened c t)
  have ho : (opened c t).black = AlertQueue.black t := black_trim t
  rw [c.text_black,ho] at hle hspecial
  have ha : a.black = (c.text.foldl readLine (opened c t)).black := by
    rw [alertGetData,hread,Reading.alert] at h
    dsimp only at h
    split at h
    · cases h
      simp only [Alert.black,black_trim,Reading.black]
    · cases h
  rw [ha,c.alert_black]
  have ht : AlertQueue.black t ≤ AlertQueue.black c.title := by
    by_cases hi : ("[/TITLE]" : Str) <:+: c.title
    · exact (hlt hi).le
    · rw [heq hi]
  refine ⟨by omega,fun hn => ?_⟩
  by_cases hi : ("[/TITLE]" : Str) <:+: c.title
  · have := hlt hi
    omega
  · have hs : ∃ l ∈ c.text, Special l := by
      by_contra hno
      exact hn ⟨hi,fun l hl hs => hno (c.text_special.mpr ⟨l,hl,hs⟩)⟩
    have := hspecial hs
    omega

theorem Call.read_untagged {c : Call} (h : c.Untagged) : alertGetData c.data = some c.alert := by
  obtain ⟨t,-,heq,hread⟩ := c.reading
  obtain rfl := heq h.title
  have hplain : ∀ l ∈ c.text, ¬Special l := fun l hl hs =>
    let ⟨m,hm,hsm⟩ := c.text_special.mp ⟨l,hl,hs⟩
    h.msg m hm hsm
  have hfold := foldl_text hplain (opened c c.title) rfl
  have hmsg : trim (c.msg ++ ['\n']) = trim c.msg := LineText.strip_concat_blank trimChar (by decide) c.msg
  have hst : (mailLines c.data).foldl readLine ⟨[],[],0,[]⟩ = ⟨trim c.title,timeText c.time,2,c.msg ++ ['\n']⟩ := by
    rw [hread,hfold,c.text_flatten]
    rfl
  have hne : trim (c.msg ++ ['\n']) ≠ [] := hmsg ▸ c.msg_black
  rw [alertGetData,hst,Reading.alert,if_pos ⟨c.title_black,hne,Nat.toDigits_ne_nil⟩,hmsg]
  rfl

theorem Call.read_iff (c : Call) : alertGetData c.data = some c.alert ↔ c.Untagged := by
  refine ⟨fun h => ?_,Call.read_untagged⟩
  by_contra hn
  exact absurd ((Call.read_black h).2 hn) (lt_irrefl _)

def weighing : Spool.Weighing (fun c : Call => alertGetData c.data) Call.alert where
  weight := Alert.black
  pos c := by
    have := black_pos c.title_black
    rw [c.alert_black]
    omega
  le h := (Call.read_black h).1
  eq {c a} h heq := by
    have hu : c.Untagged := by
      by_contra hn
      exact absurd heq ((Call.read_black h).2 hn).ne
    exact Option.some.inj (h.symm.trans (Call.read_untagged hu))

def decode (c : Call) : Option Alert := alertGetData c.data

def Event.spool : Event → Option (Spool.Event Str Call Alert)
  | .queue c =>
    if c.config.takes c.type = false then none
    else if c.opt = true then some (.hand ⟨c.title,timeText c.time,c.msg⟩)
    else some (.file (msgFile c.time) c)
  | .send => some .drain

theorem Event.spool_queue (c : Call) : (Event.queue c).spool =
    if c.config.takes c.type = false then none
    else if c.opt = true then some (.hand ⟨c.title,timeText c.time,c.msg⟩)
    else some (.file (msgFile c.time) c) := rfl

structure Holds (b : Spool.Box Str Call Alert) (w : World) : Prop where
  files : w.files = b.files.mapEntries fun _ c => c.data
  handed : w.handed = b.out
  named : ∀ k ∈ b.files.keys, isMsg k = true

theorem isMsg_msgFile (time : ℕ) : isMsg (msgFile time) = true :=
  (Glob.finds_plain (fun c hc => by simp at hc; rcases hc with rfl | rfl | rfl | rfl <;> decide) (by decide) _).mpr
    (List.prefix_append _ _)

theorem msgFile_inj {s t : ℕ} : msgFile s = msgFile t ↔ s = t := by
  refine ⟨fun h => ?_,fun h => by rw [h]⟩
  have hd : timeText s = timeText t := List.append_cancel_left h
  have hv := congrArg (fun d => Nat.ofDigitChars 10 d 0) hd
  simpa only [timeText,Nat.ofDigitChars_ten_toDigits] using hv

theorem Holds.file {b : Spool.Box Str Call Alert} {w : World} (h : Holds b w) (c : Call) :
    Holds ⟨b.files.set (msgFile c.time) c,b.out⟩ ⟨w.files.set (msgFile c.time) c.data,w.handed⟩ := by
  refine ⟨by rw [OrdMap.mapEntries_set,h.files],h.handed,fun k hk => ?_⟩
  rcases (OrdMap.mem_keys_set _ _).mp hk with hk | rfl
  · exact h.named k hk
  · exact isMsg_msgFile c.time

theorem Holds.send {b : Spool.Box Str Call Alert} {w : World} (h : Holds b w) :
    Holds (Spool.step nameLe decode b .drain) (alertSend w) := by
  have hall : ∀ e ∈ w.files.entries, isMsg e.1 = true := by
    intro e he
    rw [h.files] at he
    obtain ⟨d,hd,rfl⟩ := List.mem_map.mp he
    exact h.named d.1 (List.mem_map_of_mem hd)
  have hnone : (w.files.select fun n _ => !isMsg n) = ∅ := by
    apply OrdMap.ext
    exact List.filter_eq_nil_iff.mpr fun e he => by simp [hall e he]
  have hsome : (w.files.select fun n _ => isMsg n) = w.files := by
    apply OrdMap.ext
    exact List.filter_eq_self.mpr hall
  refine ⟨?_,?_,fun k hk => (List.not_mem_nil hk).elim⟩
  · rw [alertSend,hnone]
    rfl
  · rw [alertSend,hsome,h.files,h.handed,OrdMap.sortKeys_mapEntries]
    exact congrArg (b.out ++ ·) List.filterMap_map

theorem Holds.step {b : Spool.Box Str Call Alert} {w : World} (h : Holds b w) (e : Event) :
    Holds (Spool.run nameLe decode b e.spool.toList) (step w e) := by
  cases e with
  | send => exact h.send
  | queue c =>
    rw [Event.spool_queue]
    change Holds _ (alertQueue w c)
    unfold alertQueue
    split
    · exact h
    · split
      · exact ⟨h.files,congrArg (· ++ _) h.handed,h.named⟩
      · exact h.file c

theorem holds_run (evs : List Event) :
    Holds (Spool.run nameLe decode .new (evs.filterMap Event.spool)) (run ⟨∅,[]⟩ evs) := by
  induction evs using List.reverseRecOn with
  | nil => exact ⟨rfl,rfl,fun k hk => (List.not_mem_nil hk).elim⟩
  | append_singleton evs e ih =>
    have hs : [e].filterMap Event.spool = e.spool.toList := by cases h : e.spool <;> simp [h]
    rw [List.filterMap_append,hs,run,List.foldl_concat,Spool.run,List.foldl_append]
    exact ih.step e

theorem asked_spool (e : Event) : e.spool.toList.flatMap (Spool.Event.asked Call.alert) = e.asked := by
  cases e with
  | send => rfl
  | queue c =>
    rw [Event.spool_queue]
    change _ = if c.config.takes c.type = false then [] else if c.opt = true then _ else _
    split
    · rfl
    · split <;> rfl

theorem delivered_spool (evs : List Event) :
    Delivered evs ↔ Spool.Delivered nameLe decode Call.alert (evs.filterMap Event.spool) := by
  have hh := (holds_run (evs ++ [.send])).handed
  have ha : evs.flatMap Event.asked = (evs.filterMap Event.spool).flatMap (Spool.Event.asked Call.alert) := by
    induction evs with
    | nil => rfl
    | cons e evs ih =>
      have hi := ih (holds_run _).handed
      rw [List.flatMap_cons,hi,← asked_spool]
      cases h : e.spool <;> simp [h]
  rw [List.filterMap_append] at hh
  rw [Delivered,Spool.Delivered,hh,ha]
  rfl

theorem spool_file {e : Event} {k : Str} {c : Call} (h : e.spool = some (.file k c)) :
    e = .queue c ∧ c.Queued ∧ k = msgFile c.time := by
  cases e with
  | send => cases h
  | queue d =>
    rw [Event.spool_queue] at h
    split at h
    · cases h
    · split at h
      · cases h
      · cases h
        exact ⟨rfl,⟨by simp_all,by simp_all⟩,rfl⟩

theorem Call.Queued.spool {c : Call} (h : c.Queued) : (Event.queue c).spool = some (.file (msgFile c.time) c) := by
  rw [Event.spool_queue,if_neg (by simp [h.1]),if_neg (by simp [h.2])]

theorem spool_drain {e : Event} : e.spool = some .drain ↔ e = .send := by
  cases e with
  | send => exact iff_of_true rfl rfl
  | queue c =>
    refine iff_of_false (fun h => ?_) (by simp)
    rw [Event.spool_queue] at h
    split at h
    · cases h
    · split at h <;> cases h

theorem apart_spool (evs : List Event) : Spool.Free (evs.filterMap Event.spool) ↔ Apart evs := by
  constructor
  · rintro h before c middle c' after rfl hc hc' ht
    have hm := h (before.filterMap Event.spool) (msgFile c.time) c (middle.filterMap Event.spool) c'
      (after.filterMap Event.spool) (by
        rw [List.filterMap_append,List.filterMap_cons_some hc.spool,List.filterMap_append,
          List.filterMap_cons_some hc'.spool,ht])
    obtain ⟨e,he,hs⟩ := List.mem_filterMap.mp hm
    exact spool_drain.mp hs ▸ he
  · intro h before k c middle c' after he
    obtain ⟨front,rest,rfl,rfl,hrest⟩ := List.filterMap_eq_append_iff.mp he
    obtain ⟨quiet,e,rest,rfl,hquiet,hfile,hrest⟩ := List.filterMap_eq_cons_iff.mp hrest
    obtain ⟨inner,last,rfl,rfl,hlast⟩ := List.filterMap_eq_append_iff.mp hrest
    obtain ⟨quiet',e',rest,rfl,hquiet',hfile',rfl⟩ := List.filterMap_eq_cons_iff.mp hlast
    obtain ⟨rfl,hc,hk⟩ := spool_file hfile
    obtain ⟨rfl,hc',hk'⟩ := spool_file hfile'
    have hm := h (front ++ quiet) c (inner ++ quiet') c' rest (by simp) hc hc' (msgFile_inj.mp (hk.symm.trans hk'))
    rcases List.mem_append.mp hm with hm | hm
    · exact List.mem_filterMap.mpr ⟨.send,hm,rfl⟩
    · exact absurd (hquiet' _ hm) (by simp [Event.spool])

/-- No alert is lost or altered exactly when none has tags in it and none takes the place of another one that is
waiting. -/
theorem delivered_iff (evs : List Event) :
    Delivered evs ↔ (∀ c, .queue c ∈ evs → c.Queued → c.Untagged) ∧ Apart evs := by
  rw [delivered_spool,@Spool.drained_iff _ _ _ _ _ decode _ weighing,apart_spool]
  refine and_congr_left fun _ => ⟨fun h c hm hc => ?_,fun h k c hm => ?_⟩
  · exact c.read_iff.mp (h (msgFile c.time) c (List.mem_filterMap.mpr ⟨_,hm,hc.spool⟩))
  · obtain ⟨e,he,hs⟩ := List.mem_filterMap.mp hm
    obtain ⟨rfl,hc,-⟩ := spool_file hs
    exact c.read_iff.mpr (h c he hc)

def alertsOn : Config where
  alertconf := ((∅ : OrdMap Str Str).set "stat" "1").set "alert13" "1"
  alertemail := ["admin@example.com"]

def stopped (msg : Str) (h : trim msg ≠ []) : Call where
  config := alertsOn
  title := "[INFO] Service stop"
  msg := msg
  type := "13"
  opt := false
  time := 1190000000
  line := by decide
  title_black := by decide
  msg_black := h

theorem alert_lost : ¬Delivered [.queue (stopped "Shutting down DHCP" (by decide)),
    .queue (stopped "Shutting down NTP" (by decide))] := by
  intro h
  have hl := h.length_eq
  have hrun : (run ⟨∅,[]⟩ ([.queue (stopped "Shutting down DHCP" (by decide)),
      .queue (stopped "Shutting down NTP" (by decide))] ++ [.send])).handed.length = 1 := by decide
  rw [hrun] at hl
  exact absurd hl (by decide)

end AlertQueue
end Mybox
