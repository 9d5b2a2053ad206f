import Mybox.Calendar
import Mybox.FilterChain
import Mybox.PolicyTables

/-! Version 3.0: what the time of an event means. The form stores a set of week days and two bounds, and `time_policy`
makes options of the `time` match of iptables of them, which is not part of the repository: its documented behaviour
is what the results rest on. -/
namespace Mybox
namespace TimeMatches
open Php PolicyTables Calendar
open PacketFilter (Word tokens Splits PlainWord)

def dayNames : List Str := ["Mon","Tue","Wed","Thu","Fri","Sat","Sun"]

def weekday (t : Time) : Str := dayNames.getD ((t.days + 3) % 7) []

def clockOf (t : Time) : ℕ := t.hour * 60 + t.minute

instance (t : Time) : Decidable t.Valid :=
  decidable_of_iff (1970 ≤ t.year ∧ (1 ≤ t.month ∧ t.month ≤ 12) ∧ (1 ≤ t.day ∧ t.day ≤ monthDays t.year t.month) ∧
    t.hour < 24 ∧ t.minute < 60) ⟨fun h => ⟨h.1,h.2.1,h.2.2.1,h.2.2.2.1,h.2.2.2.2⟩,
      fun h => ⟨h.year,h.month,h.day,h.hour,h.minute⟩⟩

def num (s : Str) : ℕ := Nat.ofDigitChars 10 s 0

def readDate (v : Str) : Option Time :=
  match split ':' v with
  | [y,mo,d,h,mi] =>
    let t : Time := ⟨num y,num mo,num d,num h,num mi⟩
    if t.Valid then some t else none
  | _ => none

def readClock (v : Str) : Option ℕ :=
  match split ':' v with
  | [h,mi] => if num h < 24 ∧ num mi < 60 then some (num h * 60 + num mi) else none
  | _ => none

inductive TimeOpt
  | days (v : Str)
  | datestart (v : Str)
  | datestop (v : Str)
  | timestart (v : Str)
  | timestop (v : Str)
  deriving DecidableEq

def TimeOpt.words : TimeOpt → List Word
  | days v => ["--days",v]
  | datestart v => ["--datestart",v]
  | datestop v => ["--datestop",v]
  | timestart v => ["--timestart",v]
  | timestop v => ["--timestop",v]

/-- What an option asks of the time; one that cannot be read is refused, and the rule with it. -/
def TimeOpt.holds (t : Time) : TimeOpt → Prop
  | days v => weekday t ∈ split ',' v
  | datestart v => ∃ d, readDate v = some d ∧ d.minutes ≤ t.minutes
  | datestop v => ∃ d, readDate v = some d ∧ t.minutes ≤ d.minutes
  | timestart v => ∃ c, readClock v = some c ∧ c ≤ clockOf t
  | timestop v => ∃ c, readClock v = some c ∧ clockOf t ≤ c

/-- The words of a match, and the times it is satisfied at. -/
abbrev Match := List Word → Time → Prop

/-- The match is satisfied when its options are, each of them given once at most. -/
def Documented (m : Match) : Prop :=
  ∀ os : List TimeOpt, (os.map fun o => o.words.head?).Nodup → ∀ t : Time, t.Valid →
    (m ("-m"::"time"::os.flatMap TimeOpt.words) t ↔ ∀ o ∈ os, o.holds t)

def Satisfied (m : Match) (text : Str) (t : Time) : Prop := text = [] ∨ m (tokens text) t

/-- `n` digits. -/
abbrev Digits (n : ℕ) := {s : Str // s.length = n ∧ ∀ c ∈ s, digit c = true}

abbrev Blanks := {s : Str // s ≠ [] ∧ ∀ c ∈ s, regexSpace c = true}

/-- A bound the form accepts: nothing, HH:MM or dd-mm-yyyy HH:MM. -/
inductive Bound
  | empty
  | clock (h m : Digits 2)
  | date (d mo : Digits 2) (y : Digits 4) (s : Blanks) (h m : Digits 2)

def Bound.text : Bound → Str
  | empty => []
  | clock h m => h.1 ++ ':'::m.1
  | date d mo y s h m => d.1 ++ '-'::(mo.1 ++ '-'::(y.1 ++ (s.1 ++ (h.1 ++ ':'::m.1))))

/-- What the form accepts. -/
structure Event where
  days : List Str
  start : Bound
  stop : Bound
  named : ∀ d ∈ days, d ∈ dayNames
  given : days ≠ [] ∨ start ≠ .empty ∨ stop ≠ .empty

/-- `$timedays`, as it is stored. -/
def Event.val (e : Event) : Str := [','].intercalate e.days

def Event.policy (e : Event) : Str := timePolicy e.val e.start.text e.stop.text

/-- The bound is a time of day, or a day and a time of day, since 1970. -/
def Bound.Denotes : Bound → Prop
  | empty => True
  | clock h m => num h < 24 ∧ num m < 60
  | date d mo y _ h m => (⟨num y,num mo,num d,num h,num m⟩ : Time).Valid

def Bound.NotBefore (t : Time) : Bound → Prop
  | empty => True
  | clock h m => num h * 60 + num m ≤ clockOf t
  | date d mo y _ h m => (⟨num y,num mo,num d,num h,num m⟩ : Time).minutes ≤ t.minutes

def Bound.NotAfter (t : Time) : Bound → Prop
  | empty => True
  | clock h m => clockOf t ≤ num h * 60 + num m
  | date d mo y _ h m => t.minutes ≤ (⟨num y,num mo,num d,num h,num m⟩ : Time).minutes

def Event.OnDay (e : Event) (t : Time) : Prop := e.days = [] ∨ weekday t ∈ e.days

/-- The bounds are times, and the match is satisfied on the days of the event between them and at no other time. -/
def Event.Means (m : Match) (e : Event) : Prop :=
  e.start.Denotes ∧ e.stop.Denotes ∧ ∀ t : Time, t.Valid →
    (Satisfied m e.policy t ↔ e.OnDay t ∧ e.start.NotBefore t ∧ e.stop.NotAfter t)

/-- There is no start; or it is a time of day, and midnight; or it is a date, and its day and its month have the same
number; or the stop comes before all days of the event that lie behind the start, also behind the start with the day
for its month. -/
def Event.Kept (e : Event) : Prop :=
  e.start.Denotes ∧ e.stop.Denotes ∧
    match e.start with
    | .empty => True
    | .clock h m => num h = 0 ∧ num m = 0 ∨ ∀ t : Time, t.Valid → e.OnDay t → ¬e.stop.NotAfter t
    | .date d mo y _ h m => num d = num mo ∨ ∀ t : Time, t.Valid → e.OnDay t → e.stop.NotAfter t →
        t.minutes < (⟨num y,num mo,num d,num h,num m⟩ : Time).minutes ∧
          (num d ≤ 12 → t.minutes < (⟨num y,num d,num d,num h,num m⟩ : Time).minutes)

theorem number_append {d rest : Str} (hd : d ≠ []) (hdig : ∀ c ∈ d, digit c = true)
    (hr : ∀ c ∈ rest.head?, digit c = false) : number (d ++ rest) = some (d,rest) := by
  have hrest : rest.takeWhile digit = [] := by
    cases rest with
    | nil => rfl
    | cons c rest => exact List.takeWhile_cons_of_neg (by simp [hr c rfl])
  have hdrop : rest.dropWhile digit = rest := by
    cases rest with
    | nil => rfl
    | cons c rest => exact List.dropWhile_cons_of_neg (by simp [hr c rfl])
  have ht : (d ++ rest).takeWhile digit = d := by
    rw [List.takeWhile_append_of_pos hdig,hrest,List.append_nil]
  rw [number,ht,if_neg hd,List.dropWhile_append_of_pos hdig,hdrop]

theorem Digits.ne {n : ℕ} (d : Digits (n + 1)) : d.1 ≠ [] := List.ne_nil_of_length_eq_add_one d.2.1

theorem number_digits {n : ℕ} (d : Digits (n + 1)) {r : Str} (hr : ∀ c ∈ r.head?, digit c = false) :
    number (d.1 ++ r) = some (d.1,r) := number_append d.ne d.2.2 hr

theorem number_all {n : ℕ} (d : Digits (n + 1)) : number d.1 = some (d.1,[]) := by
  have h := number_digits d (r:=[]) (by simp)
  rwa [List.append_nil] at h

theorem regexSpace_digit {c : Char} (h : regexSpace c = true) : digit c = false := by
  simp only [regexSpace,Bool.or_eq_true,decide_eq_true_eq] at h
  rcases h with (((rfl | rfl) | rfl) | rfl) | rfl <;> decide

theorem digit_regexSpace {c : Char} (h : digit c = true) : regexSpace c = false := by
  by_contra hn
  rw [Bool.not_eq_false] at hn
  rw [regexSpace_digit hn] at h
  exact absurd h (by decide)

section Texts

variable (d mo : Digits 2) (y : Digits 4) (s : Blanks) (h m : Digits 2)

theorem blanks_digits : blanks (s.1 ++ (h.1 ++ ':'::m.1)) = some (h.1 ++ ':'::m.1) := by
  obtain ⟨c,w,hw⟩ := List.exists_cons_of_ne_nil h.ne
  have hc : ¬regexSpace c = true := by simp [digit_regexSpace (h.2.2 c (by rw [hw]; simp))]
  have ht : (h.1 ++ ':'::m.1).takeWhile regexSpace = [] := by rw [hw]; exact List.takeWhile_cons_of_neg hc
  have hd : (h.1 ++ ':'::m.1).dropWhile regexSpace = h.1 ++ ':'::m.1 := by
    rw [hw]
    exact List.dropWhile_cons_of_neg hc
  rw [blanks,List.takeWhile_append_of_pos s.2.2,ht,List.append_nil,if_neg s.2.1,List.dropWhile_append_of_pos s.2.2,hd]

theorem numbers_clock : numbers ':' 2 (h.1 ++ ':'::m.1) = some ([h.1,m.1],[]) := by
  have hh := number_digits h (r:= ':'::m.1) (by simp; decide)
  simp [numbers,hh,separator,number_all m]

theorem numbers_date (rest : Str) (hr : ∀ c ∈ rest.head?, digit c = false) :
    numbers '-' 3 (d.1 ++ '-'::(mo.1 ++ '-'::(y.1 ++ rest))) = some ([d.1,mo.1,y.1],rest) := by
  have hd := number_digits d (r:= '-'::(mo.1 ++ '-'::(y.1 ++ rest))) (by simp; decide)
  have hm := number_digits mo (r:= '-'::(y.1 ++ rest)) (by simp; decide)
  have hy := number_digits y hr
  simp [numbers,hd,hm,hy,separator]

theorem blanks_head : ∀ c ∈ (s.1 ++ (h.1 ++ ':'::m.1)).head?, digit c = false := by
  obtain ⟨a,w,hw⟩ := List.exists_cons_of_ne_nil s.2.1
  intro c hc
  rw [hw,List.cons_append,List.head?_cons,Option.mem_some_iff] at hc
  exact regexSpace_digit (s.2.2 c (by rw [hw,hc]; simp))

theorem dateTime_date : dateTime (Bound.date d mo y s h m).text = some [d.1,mo.1,y.1,h.1,m.1] := by
  simp [dateTime,Bound.text,numbers_date d mo y _ (blanks_head s h m),blanks_digits,numbers_clock,ending]

theorem date_date : date (Bound.date d mo y s h m).text = none := by
  have he : ending (s.1 ++ (h.1 ++ ':'::m.1)) = none := by
    have hl := List.length_pos_of_ne_nil s.2.1
    have hh := h.2.1
    refine if_neg ?_
    rintro (hn | hn)
    · simp at hn
    · have := congrArg List.length hn
      simp at this
      omega
  simp [date,Bound.text,numbers_date d mo y _ (blanks_head s h m),he]

theorem numbers_colon (k : ℕ) : numbers ':' (k + 2) (Bound.date d mo y s h m).text = none := by
  have hd := number_digits d (r:= '-'::(mo.1 ++ '-'::(y.1 ++ (s.1 ++ (h.1 ++ ':'::m.1))))) (by simp; decide)
  simp [numbers,Bound.text,hd,separator]

theorem clock_date : clock 2 (Bound.date d mo y s h m).text = none ∧ clock 3 (Bound.date d mo y s h m).text = none := by
  simp [clock,numbers_colon]

theorem numbers_hyphen : numbers '-' 3 (Bound.clock h m).text = none := by
  have hh := number_digits h (r:= ':'::m.1) (by simp; decide)
  simp [numbers,Bound.text,hh,separator]

theorem dateTime_clock : dateTime (Bound.clock h m).text = none := by simp [dateTime,numbers_hyphen]

theorem date_clock : date (Bound.clock h m).text = none := by simp [date,numbers_hyphen]

theorem clock_three : clock 3 (Bound.clock h m).text = none := by
  have hh := number_digits h (r:= ':'::m.1) (by simp; decide)
  simp [clock,numbers,Bound.text,hh,separator,number_all m]

theorem clock_two : clock 2 (Bound.clock h m).text = some [h.1,m.1] := by
  simp [clock,Bound.text,numbers_clock,ending]

end Texts

def Event.dayOpts (e : Event) : List TimeOpt := if e.days = [] then [] else [.days e.val]

def Bound.startOpts : Bound → List TimeOpt
  | date d _ y _ h m => [.datestart (parts [d.1,d.1,y.1,h.1,m.1] [3,2,1,4,5])]
  | _ => []

def Bound.stopOpts : Bound → List TimeOpt
  | empty => []
  | clock h m => [.timestop (h.1 ++ ':'::m.1)]
  | date d mo y _ h m => [.datestop (parts [d.1,mo.1,y.1,h.1,m.1] [3,2,1,4,5])]

def Event.opts (e : Event) : List TimeOpt := e.dayOpts ++ (e.start.startOpts ++ e.stop.stopOpts)

theorem digits_plain {n : ℕ} (d : Digits (n + 1)) : PlainWord d.1 := by
  refine ⟨d.ne,fun c hc => ?_⟩
  have h := d.2.2 c hc
  refine ⟨?_,?_,?_⟩ <;> rintro rfl <;> revert h <;> decide

theorem val_ne {e : Event} (h : e.days ≠ []) : e.val ≠ [] := by
  obtain ⟨d,ds,hd⟩ := List.exists_cons_of_ne_nil h
  have hn : d ≠ [] := by
    have := e.named d (by rw [hd]; simp)
    rintro rfl
    revert this
    decide
  rw [Event.val,hd]
  cases ds with
  | nil => simpa using hn
  | cons f ds => simp [List.intercalate_cons_cons,hn]

theorem val_nil {e : Event} (h : e.days = []) : e.val = [] := by
  rw [Event.val,h]
  rfl

theorem dayNames_chars : ∀ n ∈ dayNames, ∀ c ∈ n, c ≠ ' ' ∧ c ≠ '"' ∧ c ≠ '\n' ∧ c ≠ ',' := by decide

theorem val_plain {e : Event} (h : e.days ≠ []) : PlainWord e.val := by
  refine ⟨val_ne h,fun c hc => ?_⟩
  have hm : c ∈ e.val ++ [','] := List.mem_append_left _ hc
  rw [Event.val,LineText.intercalate_concat ',' h] at hm
  obtain ⟨w,hw,hcw⟩ := List.mem_flatMap.mp hm
  rcases List.mem_append.mp hcw with hcw | hcw
  · have := dayNames_chars w (e.named w hw) c hcw
    exact ⟨this.1,this.2.1,this.2.2.1⟩
  · rw [List.mem_singleton.mp hcw]
    decide

theorem split_val {e : Event} (h : e.days ≠ []) : split ',' e.val = e.days :=
  List.splitOn_intercalate ',' (fun w hw hc => (dayNames_chars w (e.named w hw) ',' hc).2.2.2 rfl) h

theorem colons_plain {ws : List Str} (hn : ws ≠ []) (h : ∀ w ∈ ws, PlainWord w) :
    PlainWord ([':'].intercalate ws) := by
  constructor
  · obtain ⟨w,ws,rfl⟩ := List.exists_cons_of_ne_nil hn
    have hw := (h w (by simp)).ne
    cases ws with
    | nil => simpa using hw
    | cons v ws => simp [List.intercalate_cons_cons,hw]
  · intro c hc
    have hm : c ∈ [':'].intercalate ws ++ [':'] := List.mem_append_left _ hc
    rw [LineText.intercalate_concat ':' hn] at hm
    obtain ⟨w,hw,hcw⟩ := List.mem_flatMap.mp hm
    rcases List.mem_append.mp hcw with hcw | hcw
    · exact (h w hw).chars c hcw
    · rw [List.mem_singleton.mp hcw]
      decide

theorem parts_date (d mo : Digits 2) (y : Digits 4) (h m : Digits 2) :
    parts [d.1,mo.1,y.1,h.1,m.1] [3,2,1,4,5] = [':'].intercalate [y.1,mo.1,d.1,h.1,m.1] := rfl

theorem date_plain (d mo : Digits 2) (y : Digits 4) (h m : Digits 2) :
    PlainWord (parts [d.1,mo.1,y.1,h.1,m.1] [3,2,1,4,5]) := by
  rw [parts_date]
  refine colons_plain (by simp) ?_
  simp only [List.forall_mem_cons]
  exact ⟨digits_plain y,digits_plain mo,digits_plain d,digits_plain h,digits_plain m,by simp⟩

theorem clock_plain (h m : Digits 2) : PlainWord (h.1 ++ ':'::m.1) := by
  have hp : PlainWord ([':'].intercalate [h.1,m.1]) := colons_plain (by simp) (by simpa using ⟨digits_plain h,digits_plain m⟩)
  simpa [List.intercalate_cons_cons] using hp

theorem Splits.option {s opt v : Str} {ws : List Word} (hs : Splits s ws) (ho : PlainWord opt) (hv : PlainWord v) :
    Splits (s ++ ' '::(opt ++ ' '::v)) (ws ++ [opt,v]) := hs.append (ho.splits.append hv.splits)

theorem splits_head (e : Event) :
    Splits ("-m time ".toList ++ (if e.val = [] then [] else "--days ".toList ++ e.val))
      ("-m"::"time"::e.dayOpts.flatMap TimeOpt.words) := by
  have hm : Splits ("-m" ++ ' '::"time" : Str) ["-m","time"] :=
    PlainWord.splits (by decide) |>.append (PlainWord.splits (by decide))
  by_cases hd : e.days = []
  · rw [val_nil hd,if_pos rfl,Event.dayOpts,if_pos hd]
    exact hm.append PacketFilter.splits_nil
  · rw [if_neg (val_ne hd),Event.dayOpts,if_neg hd]
    exact hm.append (PlainWord.splits (w:="--days") (by decide) |>.append (val_plain hd).splits)

theorem dateTime_nil : dateTime Bound.empty.text = none := by decide

theorem date_nil : date Bound.empty.text = none := by decide

theorem clock_nil : clock 2 Bound.empty.text = none ∧ clock 3 Bound.empty.text = none := by decide

theorem begin_eq (st : TimeState) (b : Bound) :
    (((st.begin "--datestart" [3,1,1,4,5] (dateTime b.text)).begin "--datestart" [3,2,1] (date b.text)).begin
      "--timestart" [1,2,2] (clock 3 b.text)) =
    match b with
    | .date d _ y _ h m => ⟨"-m time ".toList ++ st.days ++ ' '::("--datestart" : Str) ++ ' '::
        parts [d.1,d.1,y.1,h.1,m.1] [3,2,1,4,5],[]⟩
    | _ => st := by
  cases b with
  | empty =>
    rw [dateTime_nil,date_nil,clock_nil.2]
    rfl
  | clock h m =>
    rw [dateTime_clock,date_clock,clock_three]
    rfl
  | date d mo y s h m =>
    rw [dateTime_date,date_date,(clock_date d mo y s h m).2]
    rfl

def TimeOpt.text (o : TimeOpt) : Str := [' '].intercalate o.words

theorem TimeOpt.text_timestop (v : Str) : (TimeOpt.timestop v).text = ("--timestop" : Str) ++ ' '::v := by
  rw [TimeOpt.text,TimeOpt.words,List.intercalate_cons_cons,List.intercalate_singleton,List.append_assoc]
  rfl

theorem TimeOpt.text_datestop (v : Str) : (TimeOpt.datestop v).text = ("--datestop" : Str) ++ ' '::v := by
  rw [TimeOpt.text,TimeOpt.words,List.intercalate_cons_cons,List.intercalate_singleton,List.append_assoc]
  rfl

theorem stop_none (opt : Str) (ks : List ℕ) (st : TimeState) : st.stop opt ks none = st := rfl

theorem stop_some (opt : Str) (ks : List ℕ) (m : List Str) (st : TimeState) : st.stop opt ks (some m) =
    if st.cmdtime = [] then ⟨"-m time ".toList ++ st.days ++ ' '::opt ++ ' '::parts m ks,[]⟩
    else ⟨st.cmdtime ++ ' '::opt ++ ' '::parts m ks,st.days⟩ := rfl

theorem stop_eq (st : TimeState) (b : Bound) :
    (((st.stop "--datestop" [3,2,1,4,5] (dateTime b.text)).stop "--datestop" [3,2,1] (date b.text)).stop
      "--timestop" [1,2] (clock 2 b.text)) =
    match b.stopOpts with
    | [] => st
    | o::_ => if st.cmdtime = [] then ⟨"-m time ".toList ++ st.days ++ ' '::o.text,[]⟩
        else ⟨st.cmdtime ++ ' '::o.text,st.days⟩ := by
  cases b with
  | empty => rw [dateTime_nil,date_nil,clock_nil.1,stop_none,stop_none,stop_none,Bound.stopOpts]
  | clock h m =>
    have hp : parts [h.1,m.1] [1,2] = h.1 ++ ':'::m.1 := by simp [parts,List.intercalate_cons_cons]
    rw [dateTime_clock,date_clock,clock_two,stop_none,stop_none,stop_some,Bound.stopOpts]
    dsimp only
    rw [TimeOpt.text_timestop,hp]
    simp only [List.append_assoc,List.cons_append]
  | date d mo y s h m =>
    rw [dateTime_date,date_date,(clock_date d mo y s h m).1,stop_none,stop_none,stop_some,Bound.stopOpts]
    dsimp only
    rw [TimeOpt.text_datestop]
    simp only [List.append_assoc,List.cons_append]

theorem stopOpts_cases (b : Bound) :
    b.stopOpts = [] ∨ ∃ o, b.stopOpts = [o] ∧ Splits o.text o.words := by
  cases b with
  | empty => exact Or.inl rfl
  | clock h m =>
    refine Or.inr ⟨_,rfl,?_⟩
    rw [TimeOpt.text_timestop]
    exact (PlainWord.splits (by decide)).append (clock_plain h m).splits
  | date d mo y s h m =>
    refine Or.inr ⟨_,rfl,?_⟩
    rw [TimeOpt.text_datestop]
    exact (PlainWord.splits (by decide)).append (date_plain d mo y h m).splits

def Bound.state (b : Bound) (days : Str) : TimeState :=
  match b with
  | .date d _ y _ h m => ⟨"-m time ".toList ++ days ++ ' '::("--datestart" : Str) ++ ' '::
      parts [d.1,d.1,y.1,h.1,m.1] [3,2,1,4,5],[]⟩
  | _ => ⟨[],days⟩

def finish (timeday : Str) (st : TimeState) : Str :=
  if timeday ≠ [] ∧ st.cmdtime = [] then "-m time --days ".toList ++ timeday else st.cmdtime

theorem finish_ne (timeday : Str) {st : TimeState} (h : st.cmdtime ≠ []) : finish timeday st = st.cmdtime :=
  if_neg fun hc => h hc.2

theorem policy_eq (e : Event) :
    e.policy = finish e.val (match e.stop.stopOpts with
      | [] => e.start.state (if e.val = [] then [] else "--days ".toList ++ e.val)
      | o::_ => if (e.start.state (if e.val = [] then [] else "--days ".toList ++ e.val)).cmdtime = [] then
            ⟨"-m time ".toList ++ (e.start.state (if e.val = [] then [] else "--days ".toList ++ e.val)).days ++
              ' '::o.text,[]⟩
          else ⟨(e.start.state (if e.val = [] then [] else "--days ".toList ++ e.val)).cmdtime ++ ' '::o.text,
            (e.start.state (if e.val = [] then [] else "--days ".toList ++ e.val)).days⟩) := by
  change finish e.val (((TimeState.stop _ _ _ (((TimeState.begin _ _ _ ⟨[],_⟩).begin _ _ _).begin _ _ _)).stop _ _ _).stop
    _ _ _) = _
  rw [begin_eq,stop_eq]
  rfl

theorem state_date (d mo : Digits 2) (y : Digits 4) (s : Blanks) (h m : Digits 2) (days : Str) :
    (Bound.date d mo y s h m).state days = ⟨"-m time ".toList ++ days ++ ' '::(("--datestart" : Str) ++ ' '::
      parts [d.1,d.1,y.1,h.1,m.1] [3,2,1,4,5]),[]⟩ := by
  unfold Bound.state
  simp only [List.append_assoc,List.cons_append]

theorem start_cases (b : Bound) : (b.startOpts = [] ∧ ∀ days, b.state days = ⟨[],days⟩) ∨
    ∃ v, b.startOpts = [.datestart v] ∧ PlainWord v ∧ ∀ days, b.state days =
      ⟨"-m time ".toList ++ days ++ ' '::(("--datestart" : Str) ++ ' '::v),[]⟩ := by
  cases b with
  | empty => exact Or.inl ⟨rfl,fun _ => rfl⟩
  | clock h m => exact Or.inl ⟨rfl,fun _ => rfl⟩
  | date d mo y s h m => exact Or.inr ⟨_,rfl,date_plain d d y h m,state_date d mo y s h m⟩

/-- The words of the match are those of its options; without options there is none. -/
theorem policy_opts (e : Event) : (e.opts = [] ∧ e.policy = []) ∨
    (e.opts ≠ [] ∧ Splits e.policy ("-m"::"time"::e.opts.flatMap TimeOpt.words)) := by
  have hhead := splits_head e
  have hp := policy_eq e
  have hne : ∀ t u : Str, t ++ ' '::u ≠ [] := fun t u => List.append_ne_nil_of_right_ne_nil _ (List.cons_ne_nil _ _)
  rcases start_cases e.start with ⟨hs,hst⟩ | ⟨v,hs,hv,hst⟩ <;> rcases stopOpts_cases e.stop with hn | ⟨o,ho,hw⟩
  · -- neither bound: the days alone, if there are any
    rw [hst,hn] at hp
    have hopts : e.opts = e.dayOpts := by simp [Event.opts,hs,hn]
    by_cases hd : e.days = []
    · refine Or.inl ⟨by rw [hopts,Event.dayOpts,if_pos hd],?_⟩
      rw [hp,val_nil hd,finish,if_neg (fun h => h.1 rfl)]
    · refine Or.inr ⟨by rw [hopts,Event.dayOpts,if_neg hd]; simp,?_⟩
      rw [hp,finish,if_pos ⟨val_ne hd,rfl⟩,hopts]
      rw [if_neg (val_ne hd)] at hhead
      exact hhead
  · rw [hst,ho] at hp
    dsimp only at hp
    rw [if_pos rfl] at hp
    have hopts : e.opts = e.dayOpts ++ [o] := by simp [Event.opts,hs,ho]
    refine Or.inr ⟨by rw [hopts]; simp,?_⟩
    rw [hp,finish_ne _ (hne _ _),hopts,List.flatMap_append,List.flatMap_singleton]
    exact hhead.append hw
  · rw [hst,hn] at hp
    have hopts : e.opts = e.dayOpts ++ [.datestart v] := by simp [Event.opts,hs,hn]
    refine Or.inr ⟨by rw [hopts]; simp,?_⟩
    rw [hp,finish_ne _ (hne _ _),hopts,List.flatMap_append,List.flatMap_singleton]
    exact Splits.option hhead (by decide) hv
  · rw [hst,ho] at hp
    dsimp only at hp
    rw [if_neg (hne _ _)] at hp
    have hopts : e.opts = e.dayOpts ++ [.datestart v] ++ [o] := by simp [Event.opts,hs,ho]
    refine Or.inr ⟨by rw [hopts]; simp,?_⟩
    rw [hp,finish_ne _ (hne _ _),hopts,List.flatMap_append,List.flatMap_append,List.flatMap_singleton,
      List.flatMap_singleton]
    exact (Splits.option hhead (by decide) hv).append hw

theorem opts_nodup (e : Event) : (e.opts.map fun o => o.words.head?).Nodup := by
  have hd : e.dayOpts.map (fun o => o.words.head?) = [] ∨ e.dayOpts.map (fun o => o.words.head?) = [some ("--days" : Word)] := by
    unfold Event.dayOpts
    split
    · exact Or.inl rfl
    · exact Or.inr rfl
  have hs : e.start.startOpts.map (fun o => o.words.head?) = [] ∨
      e.start.startOpts.map (fun o => o.words.head?) = [some ("--datestart" : Word)] := by
    cases e.start with
    | date => exact Or.inr rfl
    | empty | clock => exact Or.inl rfl
  have he : e.stop.stopOpts.map (fun o => o.words.head?) = [] ∨
      e.stop.stopOpts.map (fun o => o.words.head?) = [some ("--timestop" : Word)] ∨
      e.stop.stopOpts.map (fun o => o.words.head?) = [some ("--datestop" : Word)] := by
    cases e.stop with
    | empty => exact Or.inl rfl
    | clock => exact Or.inr (Or.inl rfl)
    | date => exact Or.inr (Or.inr rfl)
  rw [Event.opts,List.map_append,List.map_append]
  rcases hd with hd | hd <;> rcases hs with hs | hs <;> rcases he with he | he | he <;> rw [hd,hs,he] <;> decide

theorem satisfied_iff {m : Match} (hm : Documented m) (e : Event) {t : Time} (ht : t.Valid) :
    Satisfied m e.policy t ↔ ∀ o ∈ e.opts, o.holds t := by
  rcases policy_opts e with ⟨hn,hp⟩ | ⟨hn,hp⟩
  · rw [hn]
    exact iff_of_true (Or.inl hp) fun o ho => (List.not_mem_nil ho).elim
  · have hne : e.policy ≠ [] := by
      intro h
      have := hp.alone
      rw [h] at this
      cases this
    rw [Satisfied,hp.alone,hm e.opts (opts_nodup e) t ht]
    exact ⟨fun h => h.resolve_left hne,Or.inr⟩

theorem dayOpts_holds (e : Event) (t : Time) : (∀ o ∈ e.dayOpts, o.holds t) ↔ e.OnDay t := by
  unfold Event.dayOpts Event.OnDay
  by_cases hd : e.days = []
  · simp [hd]
  · rw [if_neg hd,List.forall_mem_singleton,TimeOpt.holds,split_val hd]
    exact ⟨Or.inr,fun h => h.resolve_left hd⟩

theorem digits_colon {n : ℕ} (d : Digits n) : ':' ∉ d.1 := fun h => absurd (d.2.2 ':' h) (by decide)

theorem readDate_parts (d mo : Digits 2) (y : Digits 4) (h m : Digits 2) :
    readDate (parts [d.1,mo.1,y.1,h.1,m.1] [3,2,1,4,5]) =
      if (⟨num y,num mo,num d,num h,num m⟩ : Time).Valid then some ⟨num y,num mo,num d,num h,num m⟩ else none := by
  have hs : split ':' (parts [d.1,mo.1,y.1,h.1,m.1] [3,2,1,4,5]) = [y.1,mo.1,d.1,h.1,m.1] := by
    rw [parts_date]
    refine List.splitOn_intercalate ':' ?_ (by simp)
    simp only [List.forall_mem_cons]
    exact ⟨digits_colon y,digits_colon mo,digits_colon d,digits_colon h,digits_colon m,by simp⟩
  rw [readDate,hs]

theorem readClock_digits (h m : Digits 2) : readClock (h.1 ++ ':'::m.1) =
    if num h < 24 ∧ num m < 60 then some (num h * 60 + num m) else none := by
  have hs : split ':' (h.1 ++ ':'::m.1) = [h.1,m.1] := by
    have hi : h.1 ++ ':'::m.1 = [':'].intercalate [h.1,m.1] := by simp [List.intercalate_cons_cons]
    rw [hi]
    refine List.splitOn_intercalate ':' ?_ (by simp)
    simp only [List.forall_mem_cons]
    exact ⟨digits_colon h,digits_colon m,by simp⟩
  rw [readClock,hs]

theorem stopOpts_holds {b : Bound} (hb : b.Denotes) (t : Time) : (∀ o ∈ b.stopOpts, o.holds t) ↔ b.NotAfter t := by
  cases b with
  | empty => exact iff_of_true (fun o ho => (List.not_mem_nil ho).elim) trivial
  | clock h m =>
    rw [Bound.Denotes] at hb
    rw [Bound.stopOpts,List.forall_mem_singleton,TimeOpt.holds,readClock_digits,if_pos hb]
    simp [Bound.NotAfter]
  | date d mo y s h m =>
    rw [Bound.Denotes] at hb
    rw [Bound.stopOpts,List.forall_mem_singleton,TimeOpt.holds,readDate_parts,if_pos hb]
    simp [Bound.NotAfter]

def Bound.Shifted (t : Time) : Bound → Prop
  | date d _ y _ h m => (⟨num y,num d,num d,num h,num m⟩ : Time).Valid ∧
      (⟨num y,num d,num d,num h,num m⟩ : Time).minutes ≤ t.minutes
  | _ => True

theorem startOpts_holds (b : Bound) (t : Time) : (∀ o ∈ b.startOpts, o.holds t) ↔ b.Shifted t := by
  cases b with
  | empty => exact iff_of_true (fun o ho => (List.not_mem_nil ho).elim) trivial
  | clock h m => exact iff_of_true (fun o ho => (List.not_mem_nil ho).elim) trivial
  | date d mo y s h m =>
    rw [Bound.startOpts,List.forall_mem_singleton,TimeOpt.holds,readDate_parts,Bound.Shifted]
    split
    · next hv => simp [hv]
    · next hv => simp [hv]

theorem satisfied_bounds {m : Match} (hm : Documented m) {e : Event} (hs : e.stop.Denotes) {t : Time} (ht : t.Valid) :
    Satisfied m e.policy t ↔ e.OnDay t ∧ e.start.Shifted t ∧ e.stop.NotAfter t := by
  rw [satisfied_iff hm e ht,Event.opts]
  simp only [List.forall_mem_append,dayOpts_holds,startOpts_holds,stopOpts_holds hs]

theorem Time.Valid.clock {t : Time} (h : t.Valid) : t.minutes % 1440 = clockOf t ∧ t.minutes / 1440 = t.days := by
  have hh := h.hour
  have hm := h.minute
  unfold Time.minutes clockOf
  omega

/-- Some weeks earlier it is the same day of the week, and the same time of day. -/
theorem weeks_before {t : Time} (ht : t.Valid) {k : ℕ} (hk : 10080 * k ≤ t.minutes) :
    ∃ u : Time, u.Valid ∧ u.minutes = t.minutes - 10080 * k ∧ weekday u = weekday t ∧ clockOf u = clockOf t := by
  obtain ⟨hv,hu⟩ := ofSeconds_spec (60 * (t.minutes - 10080 * k))
  rw [Nat.mul_div_cancel_left _ (by decide)] at hu
  obtain ⟨hc,hd⟩ := Time.Valid.clock hv
  obtain ⟨hc',hd'⟩ := Time.Valid.clock ht
  refine ⟨_,hv,hu,?_,by omega⟩
  have hw : (ofSeconds (60 * (t.minutes - 10080 * k))).days % 7 = t.days % 7 := by omega
  unfold weekday
  rw [Nat.add_mod,hw,← Nat.add_mod]

theorem monthDays_ge (year month : ℕ) : 28 ≤ monthDays year month := by
  unfold monthDays
  split
  · split <;> omega
  all_goals omega

theorem months_apart {a b : Time} (ha : a.Valid) (hy : a.year = b.year) (hd : a.day = b.day)
    (hh : a.hour = b.hour) (hm : a.minute = b.minute) (hlt : a.month < b.month) : a.minutes + 10080 ≤ b.minutes := by
  have hs := @before_succ (monthLen a.year) (a.month - 1)
  have hle := @before_mono (monthLen a.year) (a.month - 1 + 1) (b.month - 1) (by have := ha.month; omega)
  have hlen : 28 ≤ monthLen a.year (a.month - 1) := monthDays_ge _ _
  have hdays : a.days + 28 ≤ b.days := by
    unfold Time.days
    rw [← hy,← hd]
    omega
  unfold Time.minutes
  omega

theorem NotAfter.earlier {b : Bound} {t u : Time} (h : b.NotAfter t) (hm : u.minutes ≤ t.minutes)
    (hc : clockOf u ≤ clockOf t) : b.NotAfter u := by
  cases b with
  | empty => trivial
  | clock _ _ => exact hc.trans h
  | date _ _ _ _ _ _ => exact hm.trans h

theorem Event.OnDay.of_weekday {e : Event} {t u : Time} (h : e.OnDay t) (hw : weekday u = weekday t) : e.OnDay u := by
  rw [Event.OnDay,hw]
  exact h

theorem week_between {a b : ℕ} (hab : a + 10080 ≤ b) {t : Time} (ht : t.Valid) (hb : b ≤ t.minutes) :
    ∃ u : Time, u.Valid ∧ a ≤ u.minutes ∧ u.minutes < b ∧ u.minutes ≤ t.minutes ∧ weekday u = weekday t ∧
      clockOf u = clockOf t := by
  obtain ⟨u,hv,hu,hw,hc⟩ := weeks_before ht (k:=(t.minutes - a) / 10080) (by omega)
  exact ⟨u,hv,by omega,by omega,by omega,hw,hc⟩

/-- The start of an event is kept as a date, whatever the other parts are. -/
theorem date_iff {m : Match} (hm : Documented m) {e : Event} {d mo : Digits 2} {y : Digits 4} {s : Blanks}
    {h mi : Digits 2} (he : e.start = .date d mo y s h mi) (hstart : e.start.Denotes) (hstop : e.stop.Denotes) :
    (∀ t : Time, t.Valid → (Satisfied m e.policy t ↔ e.OnDay t ∧ e.start.NotBefore t ∧ e.stop.NotAfter t)) ↔
      (num d = num mo ∨ ∀ t : Time, t.Valid → e.OnDay t → e.stop.NotAfter t →
        t.minutes < (⟨num y,num mo,num d,num h,num mi⟩ : Time).minutes ∧
          (num d ≤ 12 → t.minutes < (⟨num y,num d,num d,num h,num mi⟩ : Time).minutes)) := by
  rw [he,Bound.Denotes] at hstart
  have hvalid : (⟨num y,num d,num d,num h,num mi⟩ : Time).Valid ↔ num d ≤ 12 := by
    refine ⟨fun hv => hv.month.2,fun hd => ⟨hstart.year,⟨hstart.day.1,hd⟩,⟨hstart.day.1,?_⟩,hstart.hour,hstart.minute⟩⟩
    exact (show num d ≤ 28 by omega).trans (monthDays_ge _ _)
  constructor
  · intro hall
    by_contra hn
    obtain ⟨hne,t,ht,hday,hna,hlate⟩ : num d ≠ num mo ∧ ∃ t : Time, t.Valid ∧ e.OnDay t ∧ e.stop.NotAfter t ∧
        ¬(t.minutes < (⟨num y,num mo,num d,num h,num mi⟩ : Time).minutes ∧
          (num d ≤ 12 → t.minutes < (⟨num y,num d,num d,num h,num mi⟩ : Time).minutes)) := by
      rw [not_or] at hn
      simpa only [not_forall,exists_prop] using hn
    -- at each time on a day of the event, up to the stop, both starts agree
    have hsame : ∀ u : Time, u.Valid → e.OnDay u → e.stop.NotAfter u →
        ((num d ≤ 12 ∧ (⟨num y,num d,num d,num h,num mi⟩ : Time).minutes ≤ u.minutes) ↔
          (⟨num y,num mo,num d,num h,num mi⟩ : Time).minutes ≤ u.minutes) := by
      intro u hu hud hun
      have := hall u hu
      rw [satisfied_bounds hm hstop hu,he,Bound.Shifted,Bound.NotBefore,hvalid] at this
      exact ⟨fun hs => (this.mp ⟨hud,hs,hun⟩).2.1,fun hs => (this.mpr ⟨hud,hs,hun⟩).2.1⟩
    have ht' := hsame t ht hday hna
    by_cases hd : num d ≤ 12
    · have hvd := hvalid.mpr hd
      have hafter : (⟨num y,num mo,num d,num h,num mi⟩ : Time).minutes ≤ t.minutes ∧
          (⟨num y,num d,num d,num h,num mi⟩ : Time).minutes ≤ t.minutes := by
        simp only [hd,true_and,true_implies] at ht' hlate
        omega
      -- a week between the two starts tells them apart
      rcases Nat.lt_or_gt_of_ne hne with hlt | hlt
      · have hap := months_apart hvd rfl rfl rfl rfl hlt (b:=⟨num y,num mo,num d,num h,num mi⟩)
        obtain ⟨u,hu,ha,hb,hle,hw,hc⟩ := week_between hap ht hafter.1
        have := (hsame u hu (hday.of_weekday hw) (NotAfter.earlier hna hle hc.le)).mp ⟨hd,ha⟩
        omega
      · have hap := months_apart hstart rfl rfl rfl rfl hlt (b:=⟨num y,num d,num d,num h,num mi⟩)
        obtain ⟨u,hu,ha,hb,hle,hw,hc⟩ := week_between hap ht hafter.2
        have := ((hsame u hu (hday.of_weekday hw) (NotAfter.earlier hna hle hc.le)).mpr ha).2
        omega
    · simp only [hd,false_and,false_iff] at ht'
      exact hlate ⟨by omega,fun hd' => absurd hd' hd⟩
  · intro hk t ht
    rw [satisfied_bounds hm hstop ht,he,Bound.Shifted,Bound.NotBefore,hvalid]
    rcases hk with hk | hk
    · have hd : num d ≤ 12 := hk ▸ hstart.month.2
      rw [← hk]
      simp only [hd,true_and]
    · refine and_congr_right fun hday => and_congr_left fun hna => ?_
      obtain ⟨hlt,hlt'⟩ := hk t ht hday hna
      refine iff_of_false (fun hs => ?_) (by omega)
      have := hlt' hs.1
      omega

theorem clock_iff {m : Match} (hm : Documented m) {e : Event} {h mi : Digits 2} (he : e.start = .clock h mi)
    (hstop : e.stop.Denotes) :
    (∀ t : Time, t.Valid → (Satisfied m e.policy t ↔ e.OnDay t ∧ e.start.NotBefore t ∧ e.stop.NotAfter t)) ↔
      (num h = 0 ∧ num mi = 0 ∨ ∀ t : Time, t.Valid → e.OnDay t → ¬e.stop.NotAfter t) := by
  constructor
  · intro hall
    by_contra hn
    obtain ⟨hne,t,ht,hday,hna⟩ : ¬(num h = 0 ∧ num mi = 0) ∧ ∃ t : Time, t.Valid ∧ e.OnDay t ∧ e.stop.NotAfter t := by
      rw [not_or] at hn
      simpa only [not_forall,exists_prop,not_not] using hn
    -- midnight of this day
    have hu : (⟨t.year,t.month,t.day,0,0⟩ : Time).Valid := ⟨ht.year,ht.month,ht.day,Nat.succ_pos 23,Nat.succ_pos 59⟩
    have hud : e.OnDay ⟨t.year,t.month,t.day,0,0⟩ := hday.of_weekday rfl
    have hun : e.stop.NotAfter ⟨t.year,t.month,t.day,0,0⟩ := by
      refine NotAfter.earlier hna ?_ (Nat.zero_le _)
      change t.days * 1440 + 0 * 60 + 0 ≤ t.days * 1440 + t.hour * 60 + t.minute
      omega
    have := (hall _ hu).mp ((satisfied_bounds hm hstop hu).mpr ⟨hud,by rw [he]; trivial,hun⟩)
    rw [he,Bound.NotBefore] at this
    have hz : num h * 60 + num mi ≤ 0 := this.2.1
    omega
  · intro hk t ht
    rw [satisfied_bounds hm hstop ht,he]
    refine and_congr_right fun hday => and_congr_left fun hna => iff_of_true trivial ?_
    rcases hk with hk | hk
    · rw [Bound.NotBefore,hk.1,hk.2]
      omega
    · exact absurd hna (hk t ht hday)

/-- What is stored is what the match means exactly when the start survives. -/
theorem means_iff {m : Match} (hm : Documented m) (e : Event) : e.Means m ↔ e.Kept := by
  unfold Event.Means Event.Kept
  refine and_congr_right fun hstart => and_congr_right fun hstop => ?_
  cases he : e.start with
  | empty =>
    refine iff_of_true (fun t ht => ?_) trivial
    rw [satisfied_bounds hm hstop ht,he]
    simp only [Bound.Shifted,Bound.NotBefore]
  | clock h mi =>
    have hc := clock_iff hm he hstop
    rwa [he] at hc
  | date d mo y s h mi =>
    have hd := date_iff hm he hstart hstop
    rwa [he] at hd

def readOpt (n v : Word) : Option TimeOpt :=
  if n = ("--days" : Word) then some (.days v)
  else if n = ("--datestart" : Word) then some (.datestart v)
  else if n = ("--datestop" : Word) then some (.datestop v)
  else if n = ("--timestart" : Word) then some (.timestart v)
  else if n = ("--timestop" : Word) then some (.timestop v)
  else none

def readOpts : List Word → Option (List TimeOpt)
  | [] => some []
  | [_] => none
  | n::v::ws => do
    let o ← readOpt n v
    let os ← readOpts ws
    return o::os

theorem readOpts_words (os : List TimeOpt) : readOpts (os.flatMap TimeOpt.words) = some os := by
  have hone : ∀ o : TimeOpt, ∃ n v, o.words = [n,v] ∧ readOpt n v = some o := by
    intro o
    cases o with
    | days v => exact ⟨_,v,rfl,if_pos rfl⟩
    | datestart v => exact ⟨_,v,rfl,by unfold readOpt; rw [if_neg (by decide),if_pos rfl]⟩
    | datestop v => exact ⟨_,v,rfl,by unfold readOpt; rw [if_neg (by decide),if_neg (by decide),if_pos rfl]⟩
    | timestart v =>
      exact ⟨_,v,rfl,by unfold readOpt; rw [if_neg (by decide),if_neg (by decide),if_neg (by decide),if_pos rfl]⟩
    | timestop v =>
      exact ⟨_,v,rfl,by
        unfold readOpt
        rw [if_neg (by decide),if_neg (by decide),if_neg (by decide),if_neg (by decide),if_pos rfl]⟩
  induction os with
  | nil => rfl
  | cons o os ih =>
    obtain ⟨n,v,hw,hr⟩ := hone o
    rw [List.flatMap_cons,hw]
    change ((readOpt n v).bind fun o => (readOpts (os.flatMap TimeOpt.words)).bind fun os => some (o::os)) = _
    rw [hr,ih]
    rfl

def timeMatch : Match := fun ws t =>
  ws.take 2 = ["-m","time"] ∧ ∃ os, readOpts (ws.drop 2) = some os ∧ ∀ o ∈ os, o.holds t

theorem timeMatch_documented : Documented timeMatch := by
  intro os _ t _
  constructor
  · rintro ⟨-,os',hr,hall⟩
    cases hr.symm.trans (readOpts_words os)
    exact hall
  · exact fun hall => ⟨rfl,os,readOpts_words os,hall⟩

def fromMarch : Event where
  days := []
  start := .date ⟨"05",by decide⟩ ⟨"03",by decide⟩ ⟨"2008",by decide⟩ ⟨" ",by decide⟩ ⟨"08",by decide⟩ ⟨"00",by decide⟩
  stop := .empty
  named := by simp
  given := Or.inr (Or.inl (by simp))

theorem means_iff_fromMarch : fromMarch.Means timeMatch ↔ fromMarch.Kept := means_iff timeMatch_documented fromMarch

/-- The event starts two months later. -/
theorem month_lost : Documented timeMatch ∧ ¬fromMarch.Means timeMatch := by
  refine ⟨timeMatch_documented,fun h => ?_⟩
  have hall := (date_iff timeMatch_documented rfl h.1 h.2.1).mp h.2.2
  rcases hall with hn | hn
  · exact absurd hn (by decide)
  · have := (hn ⟨2009,1,1,0,0⟩ (by decide) (Or.inl rfl) trivial).1
    exact absurd this (by decide)

end TimeMatches
end Mybox
