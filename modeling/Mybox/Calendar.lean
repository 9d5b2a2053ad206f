import Mathlib.Algebra.BigOperators.Group.Finset.Basic
import Mathlib.Algebra.Order.BigOperators.Group.Finset
import Mathlib.Tactic.Common
import Mathlib.Tactic.Linarith

/-! Calendar times to the minute. A day is found in its year and its month by going through the lengths of the years
and months; the order of times is that of their fields. -/
namespace Mybox
namespace Calendar

open Finset

section Blocks

variable (len : ℕ → ℕ)

def before (k : ℕ) : ℕ := ∑ i ∈ range k, len i

/-- From a block on, the block a place lies in and the place inside it. -/
def locate : ℕ → ℕ → ℕ → ℕ × ℕ
  | 0, k, d => (k,d)
  | n+1, k, d => if d < len k then (k,d) else locate n (k+1) (d - len k)

variable {len}

theorem before_succ (k : ℕ) : before len (k+1) = before len k + len k := sum_range_succ len k

theorem locate_spec {n k d : ℕ} (h : before len k + d < before len (k+n)) :
    before len (locate len n k d).1 + (locate len n k d).2 = before len k + d ∧
      (locate len n k d).2 < len (locate len n k d).1 ∧ k ≤ (locate len n k d).1 ∧
        (locate len n k d).1 < k + n := by
  induction n generalizing k d with
  | zero =>
    rw [Nat.add_zero] at h
    omega
  | succ n ih =>
    rw [locate]
    split
    · rename_i hd
      exact ⟨rfl,hd,le_rfl,by omega⟩
    · rename_i hd
      have hs := @before_succ len k
      have hk : k + 1 + n = k + (n + 1) := by omega
      obtain ⟨h₁,h₂,h₃,h₄⟩ := ih (k:=k+1) (d:=d - len k) (by rw [hk]; omega)
      exact ⟨by omega,h₂,by omega,by omega⟩

theorem before_mono {j k : ℕ} (h : j ≤ k) : before len j ≤ before len k :=
  sum_le_sum_of_subset (range_mono h)

theorem before_lt {j k a b : ℕ} (ha : a < len j) (h : j < k) : before len j + a < before len k + b := by
  have hs := @before_succ len j
  have hm : before len (j+1) ≤ before len k := before_mono h
  omega

theorem before_inj {j k a b : ℕ} (ha : a < len j) (hb : b < len k) (h : before len j + a = before len k + b) :
    j = k ∧ a = b := by
  rcases Nat.lt_trichotomy j k with hj | rfl | hj
  · have := before_lt (b:=b) ha hj
    omega
  · exact ⟨rfl,by omega⟩
  · have := before_lt (b:=a) hb hj
    omega

end Blocks

def leap (year : ℕ) : Bool := year % 4 = 0 && (year % 100 ≠ 0 || year % 400 = 0)

def monthDays (year month : ℕ) : ℕ :=
  match month with
  | 2 => if leap year then 29 else 28
  | 4 | 6 | 9 | 11 => 30
  | _ => 31

def yearDays (year : ℕ) : ℕ := if leap year then 366 else 365

/-- The lengths of the years from 1970 on, and of the months of a year. -/
def yearLen (k : ℕ) : ℕ := yearDays (1970 + k)

def monthLen (year j : ℕ) : ℕ := monthDays year (j+1)

theorem before_monthLen (year : ℕ) : before (monthLen year) 12 = yearDays year := by
  unfold before yearDays
  simp only [sum_range_succ,sum_range_zero,monthLen,monthDays]
  cases leap year <;> rfl

theorem yearDays_pos (year : ℕ) : 365 ≤ yearDays year := by
  unfold yearDays
  split <;> omega

/-- A time to the minute. -/
structure Time where
  year : ℕ
  month : ℕ
  day : ℕ
  hour : ℕ
  minute : ℕ
  deriving DecidableEq

structure Time.Valid (t : Time) : Prop where
  year : 1970 ≤ t.year
  month : 1 ≤ t.month ∧ t.month ≤ 12
  day : 1 ≤ t.day ∧ t.day ≤ monthDays t.year t.month
  hour : t.hour < 24
  minute : t.minute < 60

def Time.days (t : Time) : ℕ :=
  before yearLen (t.year - 1970) + (before (monthLen t.year) (t.month - 1) + (t.day - 1))

def Time.minutes (t : Time) : ℕ := t.days*1440 + t.hour*60 + t.minute

/-- The time that lies so many seconds after the beginning of 1970. -/
def ofSeconds (s : ℕ) : Time :=
  let d := s/86400
  let y := locate yearLen (d/365 + 1) 0 d
  let m := locate (monthLen (1970 + y.1)) 12 0 y.2
  ⟨1970 + y.1,m.1 + 1,m.2 + 1,s%86400/3600,s%3600/60⟩

theorem le_before (k : ℕ) : 365*k ≤ before yearLen k := by
  induction k with
  | zero => simp
  | succ k ih =>
    have := @before_succ yearLen k
    have hy : 365 ≤ yearLen k := yearDays_pos _
    omega

theorem ofSeconds_spec (s : ℕ) : (ofSeconds s).Valid ∧ (ofSeconds s).minutes = s/60 := by
  have hd : before yearLen 0 + s/86400 < before yearLen (0 + (s/86400/365 + 1)) := by
    have h := le_before (0 + (s/86400/365 + 1))
    simp only [before,range_zero,sum_empty] at h ⊢
    omega
  obtain ⟨h₁,h₂,-,-⟩ := locate_spec hd
  have hm : before (monthLen (1970 + (locate yearLen (s/86400/365 + 1) 0 (s/86400)).1)) 0 +
      (locate yearLen (s/86400/365 + 1) 0 (s/86400)).2 <
      before (monthLen (1970 + (locate yearLen (s/86400/365 + 1) 0 (s/86400)).1)) (0 + 12) := by
    rw [Nat.zero_add,before_monthLen]
    simpa [before,yearLen] using h₂
  obtain ⟨h₅,h₆,h₇,h₈⟩ := locate_spec hm
  constructor
  · exact ⟨by simp [ofSeconds],⟨by simp [ofSeconds],by simp only [ofSeconds]; omega⟩,
      ⟨by simp [ofSeconds],h₆⟩,by simp only [ofSeconds]; omega,by simp only [ofSeconds]; omega⟩
  · have hdays : (ofSeconds s).days = s/86400 := by
      simp only [Time.days,ofSeconds,Nat.add_sub_cancel_left,Nat.add_sub_cancel]
      simp only [before,range_zero,sum_empty,Nat.zero_add] at h₁ h₅ ⊢
      rw [h₅,h₁]
    rw [Time.minutes,hdays]
    simp only [ofSeconds]
    omega

section Order

variable {a b : Time} (ha : a.Valid) (hb : b.Valid)

include ha

theorem Time.Valid.offset : before (monthLen a.year) (a.month - 1) + (a.day - 1) < yearLen (a.year - 1970) := by
  have hy : 1970 + (a.year - 1970) = a.year := by have := ha.year; omega
  have hm : a.month - 1 + 1 = a.month := by have := ha.month; omega
  have hd : a.day - 1 < monthLen a.year (a.month - 1) := by
    rw [monthLen,hm]
    have := ha.day
    omega
  have hl := @before_succ (monthLen a.year) (a.month - 1)
  have hle := @before_mono (monthLen a.year) (a.month - 1 + 1) 12 (by have := ha.month; omega)
  rw [before_monthLen] at hle
  rw [yearLen,hy]
  omega

theorem Time.Valid.dayLt : a.day - 1 < monthLen a.year (a.month - 1) := by
  have hm : a.month - 1 + 1 = a.month := by have := ha.month; omega
  rw [monthLen,hm]
  have := ha.day
  omega

include hb

theorem days_inj (h : a.days = b.days) : a.year = b.year ∧ a.month = b.month ∧ a.day = b.day := by
  obtain ⟨hy,hr⟩ := before_inj ha.offset hb.offset h
  have hyear : a.year = b.year := by have := ha.year; have := hb.year; omega
  rw [← hyear] at hr
  obtain ⟨hm,hd⟩ := before_inj ha.dayLt (by rw [hyear]; exact hb.dayLt) hr
  have := ha.month
  have := hb.month
  have := ha.day
  have := hb.day
  exact ⟨hyear,by omega,by omega⟩

/-- A day that is not later has no later year, no later month in the same year and no later day in the same
month. -/
theorem days_le (h : a.days ≤ b.days) : a.year ≤ b.year ∧ (a.year = b.year → a.month ≤ b.month ∧
    (a.month = b.month → a.day ≤ b.day)) := by
  refine ⟨?_,fun hy => ⟨?_,fun hm => ?_⟩⟩
  · by_contra hlt
    have hk : b.year - 1970 < a.year - 1970 := by have := hb.year; omega
    have hx : b.days < a.days := before_lt hb.offset hk
    omega
  · by_contra hlt
    have hk : b.month - 1 < a.month - 1 := by have := hb.month; omega
    have hx := before_lt (b:=a.day - 1) hb.dayLt hk
    simp only [Time.days,hy] at h
    omega
  · simp only [Time.days,hy,hm] at h
    have := ha.day
    have := hb.day
    omega

end Order

end Calendar
end Mybox
