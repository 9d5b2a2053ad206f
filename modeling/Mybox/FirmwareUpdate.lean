import Mybox.Climb
import Mybox.Php
import Mathlib.Data.Int.ConditionallyCompleteOrder
import Mathlib.Data.List.Sort
import Mathlib.Order.Monotone.Defs
import Mathlib.Tactic.IntervalCases

/-! Firmware updates of version 3.0: the packages are installed in the order of their file names, and each of them
only if it is later than the recorded version, which moves as packages are installed. -/
namespace Mybox
namespace FirmwareUpdate
open Php Climb

def twoDigits (a b : Char) : ℕ := (a.toNat - 48)*10 + (b.toNat - 48)

/-- `/(\d\d)\.(\d\d)(\d\d)(\d\d)/` at the front: year, month, hour and day. -/
def fieldsAt : Str → Option (ℕ × ℕ × ℕ × ℕ)
  | y :: y' :: '.' :: m :: m' :: h :: h' :: d :: d' :: _ =>
    if [y,y',m,m',h,h',d,d'].all digit then some (twoDigits y y',twoDigits m m',twoDigits h h',twoDigits d d') else none
  | _ => none

def fields : Str → Option (ℕ × ℕ × ℕ × ℕ)
  | [] => none
  | c::s => (fieldsAt (c::s)).or (fields s)

def leapDays (year : ℕ) : ℤ := (year - 1)/4 - (year - 1)/100 + (year - 1)/400

def leap (year : ℕ) : Bool := year%4 = 0 && (year%100 ≠ 0 || year%400 = 0)

def monthDays (year month : ℕ) : ℤ :=
  ([0,31,59,90,120,151,181,212,243,273,304,334] : List ℤ).getD (month - 1) 0 + if leap year && 2 < month then 1 else 0

/-- The days from the first of January 1970; a month without number is the last one of the year before. -/
def days (year month day : ℕ) : ℤ :=
  let y := if month = 0 then year - 1 else year
  let m := if month = 0 then 12 else month
  365*(y - 1970) + (leapDays y - leapDays 1970) + monthDays y m + (day - 1)

def fullYear (y : ℕ) : ℕ := if y < 70 then 2000 + y else 1900 + y

/-- `strtotime("$m/$d/$y $h:00:00")`; what the clock shows is taken to the time by `utc`. -/
def strtotime (utc : ℤ → ℤ) (m d y h : ℕ) : Option ℤ :=
  if m ≤ 12 ∧ d ≤ 31 ∧ h ≤ 24 then some (utc ((days (fullYear y) m d*24 + h)*3600)) else none

/-- `mybox_update_version_convert`, `none` for FALSE. -/
def updateVersionConvert (utc : ℤ → ℤ) (ver : Str) : Option ℤ :=
  match fields ver with
  | some (y,m,h,d) => strtotime utc m d y h
  | none => some 0

/-- `>=` on times, of which FALSE may be one. -/
def timeGe : Option ℤ → Option ℤ → Bool
  | some x, some y => y ≤ x
  | some _, none => true
  | none, some y => y = 0
  | none, none => true

structure Box where
  utc : ℤ → ℤ
  /-- The package can be unpacked and has a `setup`, which succeeds. -/
  setup : Str → Bool
  /-- The command was `update-firmware-force`. -/
  force : Bool
  /-- `update_save` -/
  save : Bool

/-- A package goes by its file name without `.mpu`. -/
structure Disk where
  packages : List Str
  nodup : packages.Nodup
  /-- `/etc/firmware` and `SYSTEM.VERSION`. -/
  firmware : Option Str
  systemVersion : Option Str
  /-- `/var/sys/firm_update` -/
  updating : Bool

variable (b : Box)

/-- What `mybox_fget_contents` gives of a file. -/
def contents (file : Option Str) : Str := (file.map trim).getD []

def updateVersionCheck (firmware : Option Str) (ver : Str) : Bool :=
  !timeGe (updateVersionConvert b.utc (contents firmware)) (updateVersionConvert b.utc ver)

/-- `/update-(.*)/` -/
def packageVersion : Str → Option Str
  | [] => none
  | c::s =>
    if ("update-" : Str).isPrefixOf (c::s) then some (((c::s).drop 7).takeWhile (· ≠ '\n')) else packageVersion s

structure Run where
  disk : Disk
  /-- `$del` -/
  applied : List Str

def install (x pn : Str) (r : Run) : Run where
  disk := { r.disk with firmware := some (pn ++ ['\n']), systemVersion := some (pn ++ ['\n']) }
  applied := r.applied ++ [x]

/-- The loop over the packages, with whether it comes to its end. -/
def updateLoop : List Str → Run → Bool × Run
  | [], r => (true,r)
  | x::xs, r =>
    match packageVersion x with
    | none => (false,r)
    | some pn =>
      if updateVersionCheck b r.disk.firmware pn = false ∧ b.force = false then updateLoop xs r
      else if b.setup x = true then updateLoop xs (install x pn r)
      else updateLoop xs r

/-- `mybox_dir2array("$_UPDATE_PATH/files/*.mpu")` -/
def listing (d : Disk) : List Str :=
  (d.packages.filter fun x => (x ++ ".mpu" : Str).head? ≠ some '.').insertionSort fun x y => nameLe (x ++ ".mpu") (y ++ ".mpu") = true

def updateFirmware (d : Disk) : Run :=
  if listing d = [] then ⟨d,[]⟩
  else
    match updateLoop b (listing d) ⟨{ d with updating := true },[]⟩ with
    | (false,r) => r
    | (true,r) =>
      { r with
        disk := { r.disk with
          packages := if b.save then r.disk.packages else r.disk.packages.filter (· ∉ r.applied)
          nodup := by
            split
            · exact r.disk.nodup
            · exact r.disk.nodup.filter _
          updating := false } }

def monthLength (year month : ℕ) : ℕ :=
  ([31,28,31,30,31,30,31,31,30,31,30,31] : List ℕ).getD (month - 1) 0 + if leap year && month = 2 then 1 else 0

structure Dated (v : ℕ × ℕ × ℕ × ℕ) : Prop where
  month : 1 ≤ v.2.1 ∧ v.2.1 ≤ 12
  hour : v.2.2.1 < 24
  day : 1 ≤ v.2.2.2 ∧ v.2.2.2 ≤ monthLength (fullYear v.1) v.2.1

def Earlier (v w : ℕ × ℕ × ℕ × ℕ) : Prop :=
  fullYear v.1 < fullYear w.1 ∨ fullYear v.1 = fullYear w.1 ∧
    (v.2.1 < w.2.1 ∨ v.2.1 = w.2.1 ∧ (v.2.2.2 < w.2.2.2 ∨ v.2.2.2 = w.2.2.2 ∧ v.2.2.1 < w.2.2.1))

theorem leapDays_succ (year : ℕ) : leapDays (year + 1) = leapDays year + if leap year then 1 else 0 := by
  unfold leapDays leap
  by_cases h₄ : year%4 = 0 <;> by_cases h₁ : year%100 = 0 <;> by_cases h₂ : year%400 = 0 <;>
    simp [h₄,h₁,h₂] <;> omega

theorem monthDays_succ (year : ℕ) {month : ℕ} (_h : 1 ≤ month) (h' : month < 12) :
    monthDays year (month + 1) = monthDays year month + monthLength year month := by
  unfold monthDays monthLength
  interval_cases month <;> cases leap year <;> rfl

theorem monthDays_le (year : ℕ) {m n : ℕ} (h : 1 ≤ m) (hm : m ≤ n) (hn : n ≤ 12) :
    monthDays year m ≤ monthDays year n := by
  induction n,hm using Nat.le_induction with
  | base => exact le_rfl
  | succ n hmn ih =>
    rw [monthDays_succ year (h.trans hmn) hn]
    have := ih (Nat.le_of_succ_le hn)
    omega

theorem days_pos {year month day : ℕ} (h : 1 ≤ month) :
    days year month day = 365*(year - 1970) + (leapDays year - leapDays 1970) + monthDays year month + (day - 1) := by
  rw [days,if_neg (by omega),if_neg (by omega)]

theorem newYear_le {y z : ℕ} (h : y ≤ z) : days y 1 1 + 365*(z - y) ≤ days z 1 1 := by
  induction z,h using Nat.le_induction with
  | base => simp
  | succ z hz ih =>
    have hm : ∀ y, monthDays y 1 = 0 := fun y => by simp [monthDays]
    rw [days_pos le_rfl,hm] at ih ⊢
    rw [days_pos le_rfl,hm] at ih ⊢
    rw [leapDays_succ z]
    split <;> push_cast <;> omega

theorem days_lt_newYear {year month day : ℕ} (h : 1 ≤ month) (h' : month ≤ 12)
    (hd : day ≤ monthLength year month) : days year month day < days (year + 1) 1 1 := by
  have h12 : monthDays year 12 + 31 = 365 + if leap year then 1 else 0 := by
    unfold monthDays
    cases leap year <;> rfl
  have hlen : monthDays year month + monthLength year month ≤ monthDays year 12 + 31 := by
    rcases h'.lt_or_eq with hlt | rfl
    · rw [← monthDays_succ year h hlt]
      have := monthDays_le year (show 1 ≤ month + 1 by omega) hlt le_rfl
      omega
    · have : monthLength year 12 = 31 := by simp [monthLength]
      omega
  have hone : monthDays (year + 1) 1 = 0 := by simp [monthDays]
  rw [days_pos h,days_pos le_rfl,leapDays_succ year,hone]
  split at h12 <;> rename_i hl <;> simp only [hl,if_true,if_false,Bool.false_eq_true] <;> push_cast <;> omega

theorem newYear_le_days {year month day : ℕ} (h : 1 ≤ month) (h' : month ≤ 12) (hd : 1 ≤ day) :
    days year 1 1 ≤ days year month day := by
  have := monthDays_le year le_rfl h h'
  rw [days_pos h,days_pos le_rfl]
  omega

/-- What the clock shows goes up with the date. -/
theorem clock_lt {v w : ℕ × ℕ × ℕ × ℕ} (hv : Dated v) (hw : Dated w) (h : Earlier v w) :
    (days (fullYear v.1) v.2.1 v.2.2.2*24 + v.2.2.1)*3600 < (days (fullYear w.1) w.2.1 w.2.2.2*24 + w.2.2.1)*3600 := by
  obtain ⟨⟨hm,hm'⟩,hh,hd,hd'⟩ := hv
  obtain ⟨⟨km,km'⟩,kh,kd,kd'⟩ := hw
  have hday : days (fullYear v.1) v.2.1 v.2.2.2 < days (fullYear w.1) w.2.1 w.2.2.2 ∨
      days (fullYear v.1) v.2.1 v.2.2.2 = days (fullYear w.1) w.2.1 w.2.2.2 ∧ v.2.2.1 < w.2.2.1 := by
    rcases h with hy | ⟨hy,hmd⟩
    · left
      have h₁ := days_lt_newYear hm hm' hd'
      have h₂ := newYear_le (y := fullYear v.1 + 1) hy
      have h₃ : days (fullYear w.1) 1 1 ≤ days (fullYear w.1) w.2.1 w.2.2.2 := newYear_le_days km km' kd
      omega
    · rw [hy] at hd' ⊢
      rcases hmd with hlt | ⟨he,hlt | ⟨hde,hhe⟩⟩
      · left
        have h₁ := monthDays_succ (fullYear w.1) hm (hlt.trans_le km')
        have h₂ := monthDays_le (fullYear w.1) (show 1 ≤ v.2.1 + 1 by omega) hlt km'
        rw [days_pos hm,days_pos km]
        omega
      · left
        rw [days_pos hm,days_pos km,he]
        omega
      · right
        rw [he,hde]
        exact ⟨rfl,hhe⟩
  omega

theorem earlier_trichotomy {v w : ℕ × ℕ × ℕ × ℕ} (hv : v.1 < 100) (hw : w.1 < 100) : Earlier v w ∨ v = w ∨ Earlier w v := by
  have hy : fullYear v.1 = fullYear w.1 ↔ v.1 = w.1 := by
    unfold fullYear
    split <;> split <;> omega
  unfold Earlier
  rw [Prod.ext_iff,Prod.ext_iff,Prod.ext_iff]
  omega

/-- The times of two dates go with the dates, as long as the clock is not put back. -/
theorem strtotime_lt_iff {utc : ℤ → ℤ} (hu : StrictMono utc) {v w : ℕ × ℕ × ℕ × ℕ} (hv : Dated v) (hw : Dated w)
    (hv' : v.1 < 100) (hw' : w.1 < 100) :
    timeGe (strtotime utc v.2.1 v.2.2.2 v.1 v.2.2.1) (strtotime utc w.2.1 w.2.2.2 w.1 w.2.2.1) = false ↔ Earlier v w := by
  have hlen : ∀ y m, monthLength y m ≤ 31 := by
    intro y m
    unfold monthLength
    have h : ∀ n, ([31,28,31,30,31,30,31,31,30,31,30,31] : List ℕ).getD n 0 ≤ 31 := by
      intro n
      rcases lt_or_ge n 12 with h | h
      · interval_cases n <;> decide
      · rw [List.getD_eq_getElem?_getD,List.getElem?_eq_none h]
        decide
    by_cases hm : m = 2
    · subst hm
      cases leap y <;> decide
    · simpa [hm] using h (m - 1)
  have hsome : ∀ {x : ℕ × ℕ × ℕ × ℕ}, Dated x → strtotime utc x.2.1 x.2.2.2 x.1 x.2.2.1 =
      some (utc ((days (fullYear x.1) x.2.1 x.2.2.2*24 + x.2.2.1)*3600)) := fun hx =>
    if_pos ⟨hx.month.2,hx.day.2.trans (hlen _ _),hx.hour.le⟩
  rw [hsome hv,hsome hw,timeGe,decide_eq_false_iff_not,not_le,hu.lt_iff_lt]
  constructor
  · intro h
    rcases earlier_trichotomy hv' hw' with he | rfl | he
    · exact he
    · exact absurd h (lt_irrefl _)
    · exact absurd h (clock_lt hw hv he).le.not_gt
  · exact clock_lt hv hw

theorem fieldsAt_cons {c : Char} (h : digit c = false) (s : Str) : fieldsAt (c::s) = none := by
  unfold fieldsAt
  split
  · rename_i he
    obtain ⟨rfl,-⟩ := List.cons.inj he
    rw [if_neg (by simp [h])]
  · rfl

theorem fieldsAt_concat {c : Char} (h : digit c = false) (s : Str) : fieldsAt (s ++ [c]) = fieldsAt s := by
  rcases s with _ | ⟨y,_ | ⟨y',_ | ⟨p,_ | ⟨m,_ | ⟨m',_ | ⟨k,_ | ⟨k',_ | ⟨d,_ | ⟨d',s⟩⟩⟩⟩⟩⟩⟩⟩⟩
  case cons.cons.cons.cons.cons.cons.cons.cons.nil =>
    unfold fieldsAt
    by_cases hp : p = '.'
    · subst hp
      simp [h]
    · simp [hp]
  case cons.cons.cons.cons.cons.cons.cons.cons.cons =>
    by_cases hp : p = '.'
    · subst hp
      rfl
    · unfold fieldsAt
      simp [hp]
  all_goals
    unfold fieldsAt
    simp

theorem fields_cons {c : Char} (h : digit c = false) (s : Str) : fields (c::s) = fields s := by
  rw [fields,fieldsAt_cons h,Option.none_or]

theorem fields_concat {c : Char} (h : digit c = false) (s : Str) : fields (s ++ [c]) = fields s := by
  induction s with
  | nil => exact fields_cons h []
  | cons x s ih =>
    have hx : fieldsAt (x::(s ++ [c])) = fieldsAt (x::s) := fieldsAt_concat h (x::s)
    rw [List.cons_append,fields,fields,hx,ih]

theorem trimChar_not_digit {c : Char} (h : trimChar c = true) : digit c = false := by
  simp only [trimChar,Bool.or_eq_true,decide_eq_true_eq] at h
  rcases h with ((((rfl | rfl) | rfl) | rfl) | rfl) | rfl <;> decide

theorem fields_trim (s : Str) : fields (trim s) = fields s := by
  have hleft : ∀ s : Str, fields (s.dropWhile trimChar) = fields s := by
    intro s
    induction s with
    | nil => rfl
    | cons c s ih =>
      rw [List.dropWhile_cons]
      split
      · rename_i h
        rw [ih,fields_cons (trimChar_not_digit h)]
      · rfl
  have hright : ∀ s : Str, fields (s.rdropWhile trimChar) = fields s := by
    intro s
    induction s using List.reverseRecOn with
    | nil => rfl
    | append_singleton s c ih =>
      rw [List.rdropWhile_concat]
      split
      · rename_i h
        rw [ih,fields_concat (trimChar_not_digit h)]
      · rfl
  rw [trim,LineText.strip,hright,hleft]

def stamp (x : Str) : Option ℤ := updateVersionConvert b.utc ((packageVersion x).getD [])

theorem convert_recorded (pn : Str) :
    updateVersionConvert b.utc (contents (some (pn ++ ['\n']))) = updateVersionConvert b.utc pn := by
  have hf : fields (trim (pn ++ ['\n'])) = fields pn := by
    rw [fields_trim,fields_concat (by decide)]
  unfold updateVersionConvert
  rw [contents,Option.map_some,Option.getD_some,hf]

/-- The package is later than the installed version. -/
def Newer (firmware : Option Str) (x : Str) : Prop :=
  ∃ pn, packageVersion x = some pn ∧ updateVersionCheck b firmware pn = true

def Later (x y : Str) : Prop := timeGe (stamp b y) (stamp b x) = false

instance (firmware : Option Str) (x : Str) : Decidable (Newer b firmware x) :=
  match h : packageVersion x with
  | none => .isFalse fun ⟨_,hp,_⟩ => by rw [h] at hp; cases hp
  | some pn => decidable_of_iff (updateVersionCheck b firmware pn = true)
      ⟨fun hc => ⟨pn,h,hc⟩,fun ⟨_,hp,hc⟩ => by rw [h] at hp; exact Option.some.inj hp ▸ hc⟩

instance (x y : Str) : Decidable (Later b x y) := inferInstanceAs (Decidable (_ = false))

/-- Every package that is newer than the installed version, and has a setup that succeeds, is applied once, none is
applied before an earlier one, and the version of the latest one is recorded. -/
structure Complete (d : Disk) (r : Run) : Prop where
  once : r.applied.Nodup
  all : ∀ x ∈ d.packages, Newer b d.firmware x → b.setup x = true → x ∈ r.applied
  ordered : r.applied.Pairwise fun x y => ¬Later b x y
  unchanged : r.applied = [] → r.disk.firmware = d.firmware
  recorded : r.applied ≠ [] → ∃ x ∈ r.applied, (∃ pn, packageVersion x = some pn ∧ r.disk.firmware = some (pn ++ ['\n'])) ∧
    ∀ y ∈ r.applied, ¬Later b y x

def Due (d : Disk) (x : Str) : Prop := Newer b d.firmware x ∧ b.setup x = true

/-- The packages to be applied are found, no file without version comes before one of them, and the order of the names
is that of the dates: among the packages to be applied, and where another one is later than one of them and would
stand between it and a third. -/
structure InOrder (d : Disk) : Prop where
  found : ∀ x ∈ d.packages, Due b d x → (x ++ ".mpu" : Str).head? ≠ some '.'
  named : ∀ p x, List.Sublist [p,x] (listing d) → Due b d x → packageVersion p ≠ none
  rising : b.force = false → ∀ x y, List.Sublist [x,y] (listing d) → Due b d x → Due b d y → Later b y x
  between : b.force = false → ∀ w x y, List.Sublist [w,x,y] (listing d) → Due b d w → b.setup x = true → Due b d y →
    Later b x w → Later b y x
  forced : b.force = true → ∀ x y, List.Sublist [x,y] ((listing d).takeWhile fun p => (packageVersion p).isSome) →
    b.setup x = true → b.setup y = true → ¬Later b x y

def attempt (r : Run) (x : Str) : Run :=
  if updateVersionCheck b r.disk.firmware ((packageVersion x).getD []) = false ∧ b.force = false ∨ b.setup x = false then r
  else install x ((packageVersion x).getD []) r

def reached (xs : List Str) : List Str := xs.takeWhile fun x => (packageVersion x).isSome

theorem updateLoop_eq (xs : List Str) (r : Run) :
    updateLoop b xs r = (xs.all fun x => (packageVersion x).isSome,(reached xs).foldl (attempt b) r) := by
  induction xs generalizing r with
  | nil => rfl
  | cons x xs ih =>
    unfold updateLoop reached
    cases hx : packageVersion x with
    | none => simp [hx]
    | some pn =>
      have ha : attempt b r x = if updateVersionCheck b r.disk.firmware pn = false ∧ b.force = false then r
          else if b.setup x = true then install x pn r else r := by
        unfold attempt
        rw [hx,Option.getD_some]
        by_cases hc : updateVersionCheck b r.disk.firmware pn = false ∧ b.force = false
        · rw [if_pos (Or.inl hc),if_pos hc]
        · rw [if_neg hc]
          cases hs : b.setup x with
          | true => rw [if_neg (by simp [hc]),if_pos rfl]
          | false => rw [if_pos (Or.inr rfl),if_neg Bool.false_ne_true]
      rw [List.all_cons,List.takeWhile_cons_of_pos (by rw [hx]; rfl),List.foldl_cons,ha,hx]
      dsimp only
      split
      · exact ih r
      · split
        · exact ih _
        · exact ih r

def candidates (xs : List Str) : List Str := xs.filter fun x => b.setup x && (stamp b x).isSome

def key (x : Str) : ℤ := (stamp b x).getD 0

def fresh (firmware : Option Str) (x : Str) : Bool := updateVersionCheck b firmware ((packageVersion x).getD [])

def kept (firmware : Option Str) (xs : List Str) : List Str :=
  if b.force = true then xs.filter b.setup else climb (key b) (fresh b firmware) (candidates b xs)

def recorded (firmware : Option Str) (xs : List Str) : Option Str :=
  xs.getLast?.elim firmware fun x => some ((packageVersion x).getD [] ++ ['\n'])

theorem recorded_cons (firmware : Option Str) (x : Str) (xs : List Str) : recorded firmware (x::xs) =
    recorded (some ((packageVersion x).getD [] ++ ['\n'])) xs := by
  unfold recorded
  cases xs with
  | nil => rfl
  | cons y ys => rw [List.getLast?_cons_cons,List.getLast?_cons]; rfl

theorem timeGe_none (t : Option ℤ) : timeGe t none = true := by
  cases t <;> rfl

theorem fresh_recorded (x y : Str) : fresh b (some ((packageVersion x).getD [] ++ ['\n'])) y = !timeGe (stamp b x) (stamp b y) := by
  rw [fresh,updateVersionCheck,convert_recorded]
  rfl

theorem fresh_stamp {firmware : Option Str} {x : Str} (h : fresh b firmware x = true) : (stamp b x).isSome = true := by
  cases hs : stamp b x with
  | some t => rfl
  | none =>
    have hs' : updateVersionConvert b.utc ((packageVersion x).getD []) = none := hs
    rw [fresh,updateVersionCheck,hs',timeGe_none] at h
    cases h

theorem later_iff {x y : Str} (hx : (stamp b x).isSome = true) (hy : (stamp b y).isSome = true) :
    Later b x y ↔ key b y < key b x := by
  obtain ⟨s,hs⟩ := Option.isSome_iff_exists.mp hx
  obtain ⟨t,ht⟩ := Option.isSome_iff_exists.mp hy
  rw [Later,key,key,hs,ht,timeGe,Option.getD_some,Option.getD_some,decide_eq_false_iff_not,not_le]

theorem fresh_later (x y : Str) : fresh b (some ((packageVersion x).getD [] ++ ['\n'])) y = true ↔ Later b y x := by
  rw [fresh_recorded,Later,Bool.not_eq_true']

theorem candidates_cons (x : Str) (xs : List Str) : candidates b (x::xs) =
    if b.setup x = true ∧ (stamp b x).isSome = true then x::candidates b xs else candidates b xs := by
  unfold candidates
  rw [List.filter_cons]
  simp only [Bool.and_eq_true]

theorem attempt_skip {r : Run} {x : Str} (hf : b.force = false) (h : ¬(fresh b r.disk.firmware x = true ∧ b.setup x = true)) :
    attempt b r x = r := by
  rw [attempt,if_pos]
  cases hs : b.setup x with
  | false => exact Or.inr rfl
  | true => exact Or.inl ⟨Bool.eq_false_iff.mpr fun hc => h ⟨hc,hs⟩,hf⟩

theorem attempt_install {r : Run} {x : Str} (h : fresh b r.disk.firmware x = true ∨ b.force = true) (hs : b.setup x = true) :
    attempt b r x = install x ((packageVersion x).getD []) r := by
  rw [attempt,if_neg]
  rintro (⟨hc,hf⟩ | hn)
  · rcases h with h | h
    · exact absurd (hc.symm.trans h) Bool.false_ne_true
    · exact absurd (hf.symm.trans h) Bool.false_ne_true
  · exact absurd (hn.symm.trans hs) Bool.false_ne_true

/-- After a package has been installed, what exceeds it is installed, and so on. -/
theorem foldl_rising (hf : b.force = false) (xs : List Str) (r : Run) {x : Str} (hx : (stamp b x).isSome = true)
    (hr : r.disk.firmware = some ((packageVersion x).getD [] ++ ['\n'])) :
    (xs.foldl (attempt b) r).applied = r.applied ++ rising (key b) (key b x) (candidates b xs) ∧
      (xs.foldl (attempt b) r).disk.firmware = recorded r.disk.firmware (rising (key b) (key b x) (candidates b xs)) := by
  induction xs generalizing r x with
  | nil => exact ⟨(List.append_nil _).symm,rfl⟩
  | cons y ys ih =>
    have hfresh : fresh b r.disk.firmware y = true ↔ Later b y x := by
      rw [hr]
      exact fresh_later b x y
    rw [List.foldl_cons,candidates_cons]
    by_cases hc : fresh b r.disk.firmware y = true ∧ b.setup y = true
    · have hy := fresh_stamp b hc.1
      have hlt := (later_iff b hy hx).mp (hfresh.mp hc.1)
      rw [attempt_install b (Or.inl hc.1) hc.2,if_pos ⟨hc.2,hy⟩,rising,if_pos hlt,recorded_cons]
      obtain ⟨ha,hw⟩ := ih (install y ((packageVersion y).getD []) r) hy rfl
      refine ⟨ha.trans ?_,hw⟩
      rw [install,List.append_assoc]
      rfl
    · rw [attempt_skip b hf hc]
      obtain ⟨ha,hw⟩ := ih r hx hr
      split
      · rename_i hs
        have hlt : ¬key b x < key b y := fun hlt => hc ⟨hfresh.mpr ((later_iff b hs.2 hx).mpr hlt),hs.1⟩
        rw [rising,if_neg hlt]
        exact ⟨ha,hw⟩
      · exact ⟨ha,hw⟩

theorem foldl_climb (hf : b.force = false) (xs : List Str) (r : Run) :
    (xs.foldl (attempt b) r).applied = r.applied ++ climb (key b) (fresh b r.disk.firmware) (candidates b xs) ∧
      (xs.foldl (attempt b) r).disk.firmware =
        recorded r.disk.firmware (climb (key b) (fresh b r.disk.firmware) (candidates b xs)) := by
  induction xs with
  | nil => exact ⟨(List.append_nil _).symm,rfl⟩
  | cons y ys ih =>
    rw [List.foldl_cons,candidates_cons]
    by_cases hc : fresh b r.disk.firmware y = true ∧ b.setup y = true
    · have hy := fresh_stamp b hc.1
      rw [attempt_install b (Or.inl hc.1) hc.2,if_pos ⟨hc.2,hy⟩,climb,if_pos hc.1,recorded_cons]
      obtain ⟨ha,hw⟩ := foldl_rising b hf ys (install y ((packageVersion y).getD []) r) hy rfl
      refine ⟨ha.trans ?_,hw⟩
      rw [install,List.append_assoc]
      rfl
    · rw [attempt_skip b hf hc]
      split
      · rename_i hs
        have hn : ¬fresh b r.disk.firmware y = true := fun h => hc ⟨h,hs.1⟩
        rw [climb,if_neg hn]
        exact ih
      · exact ih

theorem foldl_forced (hf : b.force = true) (xs : List Str) (r : Run) :
    (xs.foldl (attempt b) r).applied = r.applied ++ xs.filter b.setup ∧
      (xs.foldl (attempt b) r).disk.firmware = recorded r.disk.firmware (xs.filter b.setup) := by
  induction xs generalizing r with
  | nil => exact ⟨(List.append_nil _).symm,rfl⟩
  | cons y ys ih =>
    rw [List.foldl_cons,List.filter_cons]
    cases hs : b.setup y with
    | true =>
      rw [attempt_install b (Or.inr hf) hs,if_pos rfl,recorded_cons]
      obtain ⟨ha,hw⟩ := ih (install y ((packageVersion y).getD []) r)
      refine ⟨ha.trans ?_,hw⟩
      rw [install,List.append_assoc]
      rfl
    | false =>
      have ha : attempt b r y = r := by rw [attempt,if_pos (Or.inr hs)]
      rw [ha,if_neg Bool.false_ne_true]
      exact ih r

theorem foldl_kept (xs : List Str) (r : Run) :
    (xs.foldl (attempt b) r).applied = r.applied ++ kept b r.disk.firmware xs ∧
      (xs.foldl (attempt b) r).disk.firmware = recorded r.disk.firmware (kept b r.disk.firmware xs) := by
  unfold kept
  cases hf : b.force with
  | true => exact foldl_forced b hf xs r
  | false => exact foldl_climb b hf xs r

theorem updateFirmware_spec (d : Disk) :
    (updateFirmware b d).applied = kept b d.firmware (reached (listing d)) ∧
      (updateFirmware b d).disk.firmware = recorded d.firmware (kept b d.firmware (reached (listing d))) := by
  have h := foldl_kept b (reached (listing d)) ⟨{ d with updating := true },[]⟩
  rw [List.nil_append] at h
  unfold updateFirmware
  split
  · rename_i he
    have hk : kept b d.firmware (reached []) = [] := by
      unfold kept
      cases b.force <;> rfl
    rw [he,hk]
    exact ⟨rfl,rfl⟩
  · rw [updateLoop_eq]
    cases (listing d).all fun x => (packageVersion x).isSome <;> exact h

theorem sublist_filter_iff {α : Type} {p : α → Bool} {xs ys : List α} (h : ∀ x ∈ xs, p x = true) :
    List.Sublist xs (ys.filter p) ↔ List.Sublist xs ys := by
  constructor
  · exact fun hs => hs.trans List.filter_sublist
  · intro hs
    have hf := hs.filter p
    rwa [List.filter_eq_self.mpr h] at hf

theorem mem_candidates {x : Str} {xs : List Str} : x ∈ candidates b xs ↔ x ∈ xs ∧ b.setup x = true ∧ (stamp b x).isSome = true := by
  rw [candidates,List.mem_filter,Bool.and_eq_true]

theorem newer_iff {firmware : Option Str} {x : Str} (h : packageVersion x ≠ none) :
    Newer b firmware x ↔ fresh b firmware x = true := by
  obtain ⟨pn,hp⟩ := Option.ne_none_iff_exists'.mp h
  unfold Newer fresh
  rw [hp]
  simp

theorem kept_sublist (firmware : Option Str) (xs : List Str) : List.Sublist (kept b firmware xs) xs := by
  unfold kept
  split
  · exact List.filter_sublist
  · exact (climb_sublist (key b) _ _).trans List.filter_sublist

theorem later_irrefl (x : Str) : ¬Later b x x := by
  unfold Later
  cases stamp b x with
  | none => exact Bool.noConfusion
  | some t => simp [timeGe]

theorem kept_ordered {firmware : Option Str} (xs : List Str) (hf : b.force = false) :
    (kept b firmware xs).Pairwise fun x y => ¬Later b x y := by
  rw [kept,if_neg (by rw [hf]; exact Bool.false_ne_true)]
  refine (climb_pairwise (key b) (fresh b firmware) (candidates b xs)).imp_of_mem fun {x y} hx hy hxy hl => ?_
  have hs : ∀ z ∈ climb (key b) (fresh b firmware) (candidates b xs), (stamp b z).isSome = true := fun z hz =>
    ((mem_candidates b).mp ((climb_sublist (key b) _ _).subset hz)).2.2
  exact absurd ((later_iff b (hs x hx) (hs y hy)).mp hl) (not_lt.mpr hxy.le)

/-- What is recorded is the version of the last package applied, and with an ordered list that is the latest one. -/
theorem recorded_latest {firmware : Option Str} {xs : List Str} (hv : ∀ x ∈ xs, packageVersion x ≠ none)
    (ho : xs.Pairwise fun x y => ¬Later b x y) (hne : xs ≠ []) :
    ∃ x ∈ xs, (∃ pn, packageVersion x = some pn ∧ recorded firmware xs = some (pn ++ ['\n'])) ∧ ∀ y ∈ xs, ¬Later b y x := by
  obtain ⟨ys,x,rfl⟩ := List.eq_nil_or_concat xs |>.resolve_left hne
  rw [List.concat_eq_append] at *
  obtain ⟨pn,hp⟩ := Option.ne_none_iff_exists'.mp (hv x (by simp))
  refine ⟨x,by simp,⟨pn,hp,?_⟩,fun y hy => ?_⟩
  · rw [recorded,List.getLast?_concat]
    simp [hp]
  · rcases List.mem_append.mp hy with hy | hy
    · exact (List.pairwise_append.mp ho).2.2 y hy x (by simp)
    · rw [List.mem_singleton.mp hy]
      exact later_irrefl b x

theorem reached_named {xs : List Str} {x : Str} (h : x ∈ reached xs) : packageVersion x ≠ none :=
  Option.isSome_iff_ne_none.mp (List.mem_takeWhile_imp (p := fun x => (packageVersion x).isSome) h)

/-- All packages to be applied are reached exactly if no file without version comes before one of them. -/
theorem reached_iff {P : Str → Prop} {xs : List Str} (hd : xs.Nodup) (hP : ∀ x, P x → packageVersion x ≠ none) :
    (∀ x ∈ xs, P x → x ∈ reached xs) ↔ ∀ p x, List.Sublist [p,x] xs → P x → packageVersion p ≠ none := by
  induction xs with
  | nil => simp [reached]
  | cons y ys ih =>
    obtain ⟨hy,hd⟩ := List.nodup_cons.mp hd
    have hsplit : (∀ p x, List.Sublist [p,x] (y::ys) → P x → packageVersion p ≠ none) ↔
        (∀ x ∈ ys, P x → packageVersion y ≠ none) ∧ ∀ p x, List.Sublist [p,x] ys → P x → packageVersion p ≠ none := by
      constructor
      · exact fun h => ⟨fun x hx => h y x ((List.singleton_sublist.mpr hx).cons_cons y),fun p x hs => h p x (hs.cons y)⟩
      · rintro ⟨h₁,h₂⟩ p x hs
        rcases List.sublist_cons_iff.mp hs with hs | ⟨r,hr,hs⟩
        · exact h₂ p x hs
        · obtain ⟨rfl,rfl⟩ := List.cons.inj hr
          exact h₁ x (List.singleton_sublist.mp hs)
    rw [hsplit,← ih hd]
    cases hv : packageVersion y with
    | none =>
      rw [reached,List.takeWhile_cons_of_neg (by rw [hv]; exact Bool.false_ne_true)]
      constructor
      · exact fun h => ⟨fun x hx hp => absurd (h x (List.mem_cons_of_mem y hx) hp) List.not_mem_nil,
          fun x hx hp => absurd (h x (List.mem_cons_of_mem y hx) hp) List.not_mem_nil⟩
      · rintro ⟨h,-⟩ x hx hp
        rcases List.mem_cons.mp hx with rfl | hx
        · exact absurd hv (hP x hp)
        · exact absurd rfl (h x hx hp)
    | some pn =>
      have hr : reached (y::ys) = y::reached ys := List.takeWhile_cons_of_pos (by rw [hv]; rfl)
      rw [hr,kept_head_iff hy]
      exact ⟨fun h => ⟨fun _ _ _ => Option.some_ne_none pn,h⟩,And.right⟩

theorem mem_listing {d : Disk} {x : Str} : x ∈ listing d ↔ x ∈ d.packages ∧ (x ++ ".mpu" : Str).head? ≠ some '.' := by
  rw [listing,List.mem_insertionSort,List.mem_filter,decide_eq_true_eq]

theorem listing_nodup (d : Disk) : (listing d).Nodup :=
  (List.perm_insertionSort ..).nodup_iff.mpr (d.nodup.filter _)

variable {b}

theorem due_named {d : Disk} {x : Str} (h : Due b d x) : packageVersion x ≠ none := by
  obtain ⟨⟨pn,hp,-⟩,-⟩ := h
  rw [hp]
  exact Option.some_ne_none pn

/-- What ends in a package to be applied is listed in front of the first file without version, if that is reached. -/
theorem sublist_reached {d : Disk} {xs : List Str} {y : Str} (hy : y ∈ reached (listing d)) :
    List.Sublist (xs ++ [y]) (reached (listing d)) ↔ List.Sublist (xs ++ [y]) (listing d) := by
  let rest := (listing d).dropWhile fun x => (packageVersion x).isSome
  have hr : reached (listing d) ++ rest = listing d := List.takeWhile_append_dropWhile
  constructor
  · exact fun h => h.trans (List.takeWhile_sublist _)
  · intro h
    rw [← hr] at h
    obtain ⟨us,vs,he,hu,hv⟩ := List.sublist_append_iff.mp h
    rcases List.eq_nil_or_concat vs with rfl | ⟨ws,w,rfl⟩
    · rw [List.append_nil] at he
      rwa [he]
    · rw [List.concat_eq_append,← List.append_assoc] at he
      obtain ⟨-,hw⟩ := List.append_inj' he rfl
      obtain rfl : y = w := by simpa using hw
      have hn := listing_nodup d
      rw [← hr] at hn
      have hy' : y ∈ rest := hv.subset (by simp)
      exact absurd rfl ((List.nodup_append.mp hn).2.2 y hy y hy')

/-- Every package to be applied is, exactly if it is found, is reached, and is kept of those that are reached. -/
theorem all_iff (d : Disk) : (∀ x ∈ d.packages, Newer b d.firmware x → b.setup x = true → x ∈ kept b d.firmware (reached (listing d))) ↔
    (∀ x ∈ d.packages, Due b d x → (x ++ ".mpu" : Str).head? ≠ some '.') ∧
    (∀ x ∈ listing d, Due b d x → x ∈ reached (listing d)) ∧
    ∀ x ∈ reached (listing d), Due b d x → x ∈ kept b d.firmware (reached (listing d)) := by
  have hsub : ∀ x ∈ reached (listing d), x ∈ listing d := fun x hx => (List.takeWhile_sublist _).subset hx
  constructor
  · intro h
    have hk : ∀ x ∈ d.packages, Due b d x → x ∈ reached (listing d) := fun x hx hdue =>
      (kept_sublist b _ _).subset (h x hx hdue.1 hdue.2)
    exact ⟨fun x hx hdue => (mem_listing.mp (hsub x (hk x hx hdue))).2,
      fun x hx hdue => hk x (mem_listing.mp hx).1 hdue,
      fun x hx hdue => h x (mem_listing.mp (hsub x hx)).1 hdue.1 hdue.2⟩
  · rintro ⟨hf,hr,hk⟩ x hx hn hs
    exact hk x (hr x (mem_listing.mpr ⟨hx,hf x hx ⟨hn,hs⟩⟩) ⟨hn,hs⟩) ⟨hn,hs⟩

/-- Without force, the packages to be applied are kept exactly if they come in the order of their dates. -/
theorem kept_all_iff {d : Disk} (hf : b.force = false) (hr : ∀ x ∈ listing d, Due b d x → x ∈ reached (listing d)) :
    (∀ x ∈ reached (listing d), Due b d x → x ∈ kept b d.firmware (reached (listing d))) ↔
      (∀ x y, List.Sublist [x,y] (listing d) → Due b d x → Due b d y → Later b y x) ∧
      ∀ w x y, List.Sublist [w,x,y] (listing d) → Due b d w → b.setup x = true → Due b d y → Later b x w → Later b y x := by
  have hstamp : ∀ {x}, Due b d x → (stamp b x).isSome = true := fun {x} hx =>
    fresh_stamp b ((newer_iff b (due_named hx)).mp hx.1)
  have hsome : ∀ {x w}, Later b x w → (stamp b x).isSome = true := by
    intro x w h
    cases hs : stamp b x with
    | some t => rfl
    | none =>
      rw [Later,hs,timeGe_none] at h
      cases h
  have hdue : ∀ x ∈ candidates b (reached (listing d)), fresh b d.firmware x = true ↔ Due b d x := by
    intro x hx
    obtain ⟨hx,hs,-⟩ := (mem_candidates b).mp hx
    rw [Due,newer_iff b (reached_named hx)]
    simp [hs]
  have hnd : (candidates b (reached (listing d))).Nodup :=
    (listing_nodup d).sublist (List.filter_sublist.trans (List.takeWhile_sublist _))
  have hleft : (∀ x ∈ reached (listing d), Due b d x → x ∈ kept b d.firmware (reached (listing d))) ↔
      ∀ x ∈ candidates b (reached (listing d)), fresh b d.firmware x = true →
        x ∈ climb (key b) (fresh b d.firmware) (candidates b (reached (listing d))) := by
    rw [kept,if_neg (by rw [hf]; exact Bool.false_ne_true)]
    constructor
    · exact fun h x hx hfr => h x ((mem_candidates b).mp hx).1 ((hdue x hx).mp hfr)
    · intro h x hx hd
      have hc := (mem_candidates b).mpr ⟨hx,hd.2,hstamp hd⟩
      exact h x hc ((hdue x hc).mpr hd)
  have hsub : ∀ (xs : List Str) {y : Str}, (∀ x ∈ xs ++ [y], b.setup x = true ∧ (stamp b x).isSome = true) → Due b d y →
      List.Sublist (xs ++ [y]) (listing d) → List.Sublist (xs ++ [y]) (candidates b (reached (listing d))) := by
    intro xs y hs hy hsub
    refine (sublist_filter_iff fun x hx => ?_).mpr ((sublist_reached (hr y (hsub.subset (by simp)) hy)).mpr hsub)
    rw [(hs x hx).1,(hs x hx).2]
    rfl
  have hback : ∀ {xs : List Str}, List.Sublist xs (candidates b (reached (listing d))) → List.Sublist xs (listing d) := fun h =>
    h.trans (List.filter_sublist.trans (List.takeWhile_sublist _))
  rw [hleft,climb_all_iff hnd]
  refine and_congr ⟨fun h x y hs hx hy => ?_,fun h x y hs hx hy => ?_⟩
    ⟨fun h w x y hs hw hx hy hl => ?_,fun h w x y hs hw hy hl => ?_⟩
  · have hc := hsub [x] (by simp [hx.2,hy.2,hstamp hx,hstamp hy]) hy hs
    exact (later_iff b (hstamp hy) (hstamp hx)).mpr
      (h x y hc ((hdue x (hc.subset (by simp))).mpr hx) ((hdue y (hc.subset (by simp))).mpr hy))
  · have hdx := (hdue x (hs.subset (by simp))).mp hx
    have hdy := (hdue y (hs.subset (by simp))).mp hy
    exact (later_iff b (hstamp hdy) (hstamp hdx)).mp (h x y (hback hs) hdx hdy)
  · have hc := hsub [w,x] (by simp [hw.2,hx,hy.2,hstamp hw,hsome hl,hstamp hy]) hy hs
    exact (later_iff b (hstamp hy) (hsome hl)).mpr (h w x y hc ((hdue w (hc.subset (by simp))).mpr hw)
      ((hdue y (hc.subset (by simp))).mpr hy) ((later_iff b (hsome hl) (hstamp hw)).mp hl))
  · have hdw := (hdue w (hs.subset (by simp))).mp hw
    have hdy := (hdue y (hs.subset (by simp))).mp hy
    obtain ⟨-,hsx,htx⟩ := (mem_candidates b).mp (hs.subset (by simp) : x ∈ _)
    exact (later_iff b (hstamp hdy) htx).mp (h w x y (hback hs) hdw hsx hdy ((later_iff b htx (hstamp hdw)).mpr hl))

theorem kept_forced_iff {d : Disk} (hf : b.force = true) :
    ((kept b d.firmware (reached (listing d))).Pairwise fun x y => ¬Later b x y) ↔
      ∀ x y, List.Sublist [x,y] (reached (listing d)) → b.setup x = true → b.setup y = true → ¬Later b x y := by
  rw [kept,if_pos hf,List.pairwise_iff_forall_sublist]
  constructor
  · intro h x y hs hx hy
    exact h ((sublist_filter_iff (by simp [hx,hy])).mpr hs)
  · intro h x y hs
    have hp : ∀ z ∈ [x,y], b.setup z = true := fun z hz => (List.mem_filter.mp (hs.subset hz)).2
    exact h x y (hs.trans List.filter_sublist) (hp x (by simp)) (hp y (by simp))

/-- A run is complete exactly if the order of the file names is that of the dates, as far as the packages that are to
be applied go, and no file stops it before them. -/
theorem updateFirmware_iff (b : Box) (d : Disk) : Complete b d (updateFirmware b d) ↔ InOrder b d := by
  obtain ⟨happ,hrec⟩ := updateFirmware_spec b d
  have hreach := reached_iff (P := Due b d) (listing_nodup d) fun x => due_named
  have hforce : b.force = true → ∀ x ∈ reached (listing d), Due b d x → x ∈ kept b d.firmware (reached (listing d)) := by
    intro hf x hx hd
    rw [kept,if_pos hf]
    exact List.mem_filter.mpr ⟨hx,hd.2⟩
  constructor
  · intro h
    have hall := h.all
    have ho := h.ordered
    rw [happ] at hall ho
    obtain ⟨hfound,hr,hk⟩ := (all_iff d).mp hall
    refine ⟨hfound,hreach.mp hr,fun hf => ?_,fun hf => ?_,fun hf => ?_⟩
    · exact ((kept_all_iff hf hr).mp hk).1
    · exact ((kept_all_iff hf hr).mp hk).2
    · exact (kept_forced_iff hf).mp ho
  · rintro ⟨hfound,hnamed,hrising,hbetween,hforced⟩
    have hr := hreach.mpr hnamed
    have ho : (kept b d.firmware (reached (listing d))).Pairwise fun x y => ¬Later b x y := by
      cases hf : b.force with
      | false => exact kept_ordered b _ hf
      | true => exact (kept_forced_iff hf).mpr (hforced hf)
    have hk : ∀ x ∈ reached (listing d), Due b d x → x ∈ kept b d.firmware (reached (listing d)) := by
      cases hf : b.force with
      | false => exact (kept_all_iff hf hr).mpr ⟨hrising hf,hbetween hf⟩
      | true => exact hforce hf
    have hsub : List.Sublist (kept b d.firmware (reached (listing d))) (reached (listing d)) := kept_sublist b _ _
    refine ⟨?_,?_,?_,?_,?_⟩
    · rw [happ]
      exact (listing_nodup d).sublist (hsub.trans (List.takeWhile_sublist _))
    · rw [happ]
      exact (all_iff d).mpr ⟨hfound,hr,hk⟩
    · rw [happ]
      exact ho
    · intro hn
      rw [happ] at hn
      rw [hrec,hn]
      rfl
    · rw [happ,hrec]
      exact recorded_latest b (fun x hx => reached_named (hsub.subset hx)) ho

def november : Disk where
  packages := ["update-08.110219","update-08.110120"]
  nodup := by decide
  firmware := some "08.100101\n"
  systemVersion := none
  updating := false

theorem update_skipped : ¬∀ (b : Box) (d : Disk), Complete b d (updateFirmware b d) := by
  intro h
  let b : Box := ⟨id,fun _ => true,false,true⟩
  have hm := (h b november).all "update-08.110219" (by decide) (by decide) rfl
  revert hm
  decide

end FirmwareUpdate
end Mybox
