import Mybox.Calendar
import Mybox.Ipcalc

/-! The idle time of a session: `_SESSION_IDLE` takes the difference of two times field by field. -/
namespace Mybox
namespace IdleTime

open Php Calendar

/-- What stands before the hours. -/
inductive Span
  | none
  | years (n : ℕ)
  | months (n : ℕ)
  | days (n : ℕ)
  deriving DecidableEq

structure Report where
  span : Span
  hours : ℕ
  minutes : ℕ
  deriving DecidableEq

def Span.text : Span → Str
  | none => []
  | years n => decimal n ++ ("\x7dy " : Str)
  | months n => decimal n ++ ("m " : Str)
  | days n => decimal n ++ ("d " : Str)

/-- `if(strlen($_hc)==1) $_hc="0$_hc"` -/
def two (n : ℕ) : Str := if (decimal n).length = 1 then '0'::decimal n else decimal n

def Report.text (r : Report) : Str := r.span.text ++ two r.hours ++ ':'::two r.minutes

/-- The differences of the fields; one that is negative counts as zero. Nothing is reported when the year of `n`
is before that of `s`. -/
def idle (s n : Time) : Option Report :=
  if s.year ≤ n.year then
    some ⟨if s.year < n.year then .years (n.year - s.year)
      else if s.month < n.month then .months (n.month - s.month)
      else if s.day < n.day then .days (n.day - s.day) else .none,
      n.hour - s.hour,n.minute - s.minute⟩
  else none

/-- `_SESSION_IDLE` at the time `now`, in seconds on the clock of the machine. -/
def sessionIdle (tm now : ℕ) : Str :=
  match idle (ofSeconds tm) (ofSeconds now) with
  | some r => (trim r.text).rdropWhile (· = ':')
  | none => "00:00"

/-- The same day and time of day so many years and months later. -/
def advance (t : Time) (years months : ℕ) : Time :=
  let k := (t.year + years)*12 + (t.month - 1) + months
  { t with year := k/12, month := k%12 + 1 }

/-- The years and months lead to a day of the calendar, and the days, hours and minutes from there to `n`. -/
def Elapsed (s n : Time) (r : Report) : Prop :=
  let ym := match r.span with
    | .years y => (y,0)
    | .months m => (0,m)
    | _ => (0,0)
  let d := match r.span with
    | .days d => d
    | _ => 0
  let t := advance s ym.1 ym.2
  t.day ≤ monthDays t.year t.month ∧ t.minutes + d*1440 + r.hours*60 + r.minutes = n.minutes

/-- No field has to borrow from a field that is reported or left out. -/
structure Aligned (s n : Time) : Prop where
  hour : s.hour ≤ n.hour
  minute : s.minute ≤ n.minute
  year : s.year < n.year → s.month = n.month ∧ s.day = n.day
  month : s.year = n.year → s.month < n.month → s.day = n.day

theorem advance_eq {t : Time} (h : t.Valid) (y : ℕ) {m : ℕ} (hm : t.month + m ≤ 12) :
    advance t y m = { t with year := t.year + y, month := t.month + m } := by
  have := h.month
  simp only [advance,Time.mk.injEq,and_true]
  omega

theorem minutes_eq_iff {d e hs is hn i : ℕ} (h₁ : hs < 24) (h₂ : is < 60) (h₃ : hn < 24) (h₄ : i < 60) (k : ℕ) :
    d*1440 + hs*60 + is + k*1440 + (hn - hs)*60 + (i - is) = e*1440 + hn*60 + i ↔
      hs ≤ hn ∧ is ≤ i ∧ d + k = e := by
  omega

section Valid

variable {s n : Time} (hs : s.Valid) (hn : n.Valid)

include hs hn

theorem elapsed_iff {t : Time} (ht : t.hour = s.hour ∧ t.minute = s.minute) (k : ℕ) :
    t.minutes + k*1440 + (n.hour - s.hour)*60 + (n.minute - s.minute) = n.minutes ↔
      s.hour ≤ n.hour ∧ s.minute ≤ n.minute ∧ t.days + k = n.days := by
  rw [Time.minutes,Time.minutes,ht.1,ht.2]
  exact minutes_eq_iff hs.hour hs.minute hn.hour hn.minute k

theorem idle_iff (h : s.days ≤ n.days) : ∃ r, idle s n = some r ∧ (Elapsed s n r ↔ Aligned s n) := by
  obtain ⟨hy,hle⟩ := days_le hs hn h
  have hsm := hs.month
  have hnm := hn.month
  have hnd := hn.day
  refine ⟨_,if_pos hy,?_⟩
  by_cases hlt : s.year < n.year
  · rw [if_pos hlt]
    have hadv : advance s (n.year - s.year) 0 = { s with year := n.year } := by
      rw [advance_eq hs _ (by omega)]
      simp only [Time.mk.injEq,Nat.add_zero,and_true]
      omega
    simp only [Elapsed,hadv]
    rw [elapsed_iff hs hn (t:={ s with year := n.year }) ⟨rfl,rfl⟩,Nat.add_zero]
    constructor
    · rintro ⟨hd,hh,hi,hdays⟩
      have ht : Time.Valid { s with year := n.year } :=
        ⟨hn.year,hs.month,⟨hs.day.1,hd⟩,hs.hour,hs.minute⟩
      obtain ⟨-,hm,hd'⟩ := days_inj ht hn hdays
      exact ⟨hh,hi,fun _ => ⟨hm,hd'⟩,fun he => by omega⟩
    · rintro ⟨hh,hi,hyear,-⟩
      obtain ⟨hm,hd⟩ := hyear hlt
      exact ⟨by simp only [hm,hd]; exact hnd.2,hh,hi,by simp only [Time.days,hm,hd]⟩
  · have hye : s.year = n.year := by omega
    obtain ⟨hml,hdl⟩ := hle hye
    rw [if_neg hlt]
    by_cases hmlt : s.month < n.month
    · rw [if_pos hmlt]
      have hadv : advance s 0 (n.month - s.month) = { s with month := n.month } := by
        rw [advance_eq hs _ (by omega)]
        simp only [Time.mk.injEq,Nat.add_zero,and_true,true_and]
        omega
      simp only [Elapsed,hadv]
      rw [elapsed_iff hs hn (t:={ s with month := n.month }) ⟨rfl,rfl⟩,Nat.add_zero]
      constructor
      · rintro ⟨hd,hh,hi,hdays⟩
        have ht : Time.Valid { s with month := n.month } :=
          ⟨hs.year,hn.month,⟨hs.day.1,hd⟩,hs.hour,hs.minute⟩
        obtain ⟨-,-,hd'⟩ := days_inj ht hn hdays
        exact ⟨hh,hi,fun hc => by omega,fun _ _ => hd'⟩
      · rintro ⟨hh,hi,-,hmonth⟩
        have hd := hmonth hye hmlt
        exact ⟨by simp only [hd,hye]; exact hnd.2,hh,hi,by simp only [Time.days,hd,hye]⟩
    · have hme : s.month = n.month := by omega
      have hde := hdl hme
      have hadv : advance s 0 0 = s := advance_eq hs 0 (by omega)
      have hdays : s.days + (n.day - s.day) = n.days := by
        have := hs.day
        simp only [Time.days,hye,hme]
        omega
      have hal : Aligned s n ↔ s.hour ≤ n.hour ∧ s.minute ≤ n.minute :=
        ⟨fun ha => ⟨ha.hour,ha.minute⟩,fun ha => ⟨ha.1,ha.2,fun hc => by omega,fun _ hc => by omega⟩⟩
      rw [if_neg hmlt,hal]
      by_cases hdlt : s.day < n.day
      · rw [if_pos hdlt]
        simp only [Elapsed,hadv]
        rw [elapsed_iff hs hn ⟨rfl,rfl⟩]
        exact ⟨fun he => ⟨he.2.1,he.2.2.1⟩,fun hf => ⟨hs.day.2,hf.1,hf.2,hdays⟩⟩
      · rw [if_neg hdlt]
        simp only [Elapsed,hadv]
        rw [elapsed_iff hs hn ⟨rfl,rfl⟩]
        exact ⟨fun he => ⟨he.2.1,he.2.2.1⟩,fun hf => ⟨hs.day.2,hf.1,hf.2,by omega⟩⟩

end Valid

theorem two_digits (n : ℕ) : two n ≠ [] ∧ ∀ c ∈ two n, digit c = true := by
  unfold two
  split
  · refine ⟨by simp,fun c hc => ?_⟩
    rcases List.mem_cons.mp hc with rfl | hc
    · decide
    · exact digit_decimal n c hc
  · exact ⟨decimal_ne n,digit_decimal n⟩

theorem digit_trim {c : Char} (h : digit c = true) : trimChar c = false ∧ c ≠ ':' := by
  constructor
  · by_contra ht
    rw [Bool.not_eq_false] at ht
    simp only [trimChar,Bool.or_eq_true,decide_eq_true_eq] at ht
    rcases ht with ((((rfl | rfl) | rfl) | rfl) | rfl) | rfl <;> exact absurd h (by decide)
  · rintro rfl
    exact absurd h (by decide)

/-- Nothing is trimmed from a report: it begins and ends with a digit. -/
theorem text_trim (r : Report) : (trim r.text).rdropWhile (· = ':') = r.text := by
  have hfirst : ∀ c ∈ r.text.head?, digit c = true := by
    have hb : ∀ w t : Str, w ≠ [] → (∀ c ∈ w, digit c = true) → ∀ c ∈ (w ++ t).head?, digit c = true := by
      intro w t hne hd c hc
      obtain ⟨x,w,rfl⟩ := List.exists_cons_of_ne_nil hne
      obtain rfl : x = c := Option.some.inj hc
      exact hd x (by simp)
    have ht : ∃ w t, r.text = w ++ t ∧ w ≠ [] ∧ ∀ c ∈ w, digit c = true := by
      unfold Report.text
      cases r.span with
      | none => exact ⟨two r.hours,_,rfl,two_digits _⟩
      | years n => exact ⟨decimal n,_,by simp only [Span.text,List.append_assoc]; rfl,decimal_ne n,digit_decimal n⟩
      | months n => exact ⟨decimal n,_,by simp only [Span.text,List.append_assoc]; rfl,decimal_ne n,digit_decimal n⟩
      | days n => exact ⟨decimal n,_,by simp only [Span.text,List.append_assoc]; rfl,decimal_ne n,digit_decimal n⟩
    obtain ⟨w,t,hw,hne,hd⟩ := ht
    rw [hw]
    exact hb w t hne hd
  have hlast : ∀ c ∈ r.text.getLast?, digit c = true := by
    obtain ⟨hne,hd⟩ := two_digits r.minutes
    intro c hc
    have ht : r.text = (r.span.text ++ two r.hours ++ [':']) ++ two r.minutes := by simp [Report.text]
    rw [ht,List.getLast?_append_of_ne_nil _ hne] at hc
    exact hd c (List.mem_of_getLast? hc)
  have hs : trim r.text = r.text := (LineText.stripped_iff trimChar).mpr
    ⟨fun c hc => by simp [(digit_trim (hfirst c hc)).1],fun c hc => by simp [(digit_trim (hlast c hc)).1]⟩
  rw [hs]
  refine List.rdropWhile_eq_self_iff.mpr fun hne => ?_
  have hl := hlast _ (List.getLast?_eq_some_getLast hne)
  simpa using (digit_trim hl).2

/-- The report is the time elapsed exactly when the fields are aligned. -/
theorem sessionIdle_iff {s n : ℕ} (h : s ≤ n) : ∃ r, idle (ofSeconds s) (ofSeconds n) = some r ∧
    sessionIdle s n = r.text ∧
    (Elapsed (ofSeconds s) (ofSeconds n) r ↔ Aligned (ofSeconds s) (ofSeconds n)) := by
  obtain ⟨hs,hsm⟩ := ofSeconds_spec s
  obtain ⟨hn,hnm⟩ := ofSeconds_spec n
  have hdays : (ofSeconds s).days ≤ (ofSeconds n).days := by
    have := hs.hour
    have := hs.minute
    have := hn.hour
    have := hn.minute
    rw [Time.minutes] at hsm hnm
    omega
  obtain ⟨r,hr,hiff⟩ := idle_iff hs hn hdays
  refine ⟨r,hr,?_,hiff⟩
  rw [sessionIdle,hr]
  exact text_trim r

instance (s n : Time) (r : Report) : Decidable (Elapsed s n r) := inferInstanceAs (Decidable (_ ∧ _))

/-- From noon on the fifth of January 2009 to five past two on the seventh. -/
theorem sessionIdle_days : ∃ r, idle (ofSeconds 1231156800) (ofSeconds 1231337100) = some r ∧
    sessionIdle 1231156800 1231337100 = r.text ∧ Elapsed (ofSeconds 1231156800) (ofSeconds 1231337100) r := by
  obtain ⟨r,hr,ht,hiff⟩ := sessionIdle_iff (show 1231156800 ≤ 1231337100 by decide)
  have hs : ofSeconds 1231156800 = ⟨2009,1,5,12,0⟩ := by decide
  have hn : ofSeconds 1231337100 = ⟨2009,1,7,14,5⟩ := by decide
  refine ⟨r,hr,ht,hiff.mpr ?_⟩
  rw [hs,hn]
  exact ⟨by decide,by decide,by decide,by decide⟩

/-- Two minutes over the end of a year count as one year. -/
theorem newYear_idle : ¬ ∀ s n, s ≤ n → ∃ r, idle (ofSeconds s) (ofSeconds n) = some r ∧
    sessionIdle s n = r.text ∧ Elapsed (ofSeconds s) (ofSeconds n) r := by
  intro h
  obtain ⟨r,hr,-,he⟩ := h 1230767940 1230768060 (by decide)
  have hs : idle (ofSeconds 1230767940) (ofSeconds 1230768060) = some ⟨.years 1,0,0⟩ := by decide
  obtain rfl := Option.some.inj (hs.symm.trans hr)
  exact absurd he (by decide)

example : sessionIdle 1230767940 1230768060 = ("1\x7dy 00:00" : Str) := by decide

end IdleTime
end Mybox
