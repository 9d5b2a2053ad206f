import Mybox.Calendar
import Mybox.Decimal
import Mybox.DefaultGateway
import Mybox.Ipcalc
import Mybox.ObjectForms

/-! The automatic backups: `_BACKUP_AUTO` makes room by the names of the files, and makes the new backup after that. -/
namespace Mybox

namespace Calendar

def Time.date (t : Time) : ℕ := (t.year*100 + t.month)*100 + t.day

def Time.number (t : Time) : ℕ := (t.date*100 + t.hour)*100 + t.minute

theorem minutes_inj {a b : Time} (ha : a.Valid) (hb : b.Valid) (h : a.minutes = b.minutes) : a = b := by
  rw [Time.minutes,Time.minutes] at h
  have hah := ha.hour
  have ham := ha.minute
  have hbh := hb.hour
  have hbm := hb.minute
  obtain ⟨hy,hm,hd⟩ := days_inj ha hb (by omega)
  have hd' : a.days = b.days := by rw [Time.days,Time.days,hy,hm,hd]
  have hh : a.hour = b.hour := by omega
  have hn : a.minute = b.minute := by omega
  cases a
  cases b
  obtain rfl := hy
  obtain rfl := hm
  obtain rfl := hd
  obtain rfl := hh
  obtain rfl := hn
  rfl

theorem monthDays_le (year month : ℕ) : monthDays year month ≤ 31 := by
  unfold monthDays
  split
  · split <;> decide
  all_goals decide

theorem date_lt {a b : Time} (ha : a.Valid) (hb : b.Valid) (h : a.days < b.days) : a.date < b.date := by
  obtain ⟨hy,hrest⟩ := days_le ha hb h.le
  have ham := ha.month
  have had := ha.day
  have hbd := hb.day
  have hal := monthDays_le a.year a.month
  rw [Time.date,Time.date]
  rcases Nat.lt_or_eq_of_le hy with hy | hy
  · omega
  · obtain ⟨hm,hrest⟩ := hrest hy
    rcases Nat.lt_or_eq_of_le hm with hm | hm
    · omega
    · have hd := hrest hm
      have hne : a.day ≠ b.day := by
        intro he
        rw [Time.days,Time.days,hy,hm,he] at h
        exact lt_irrefl _ h
      omega

theorem number_le_iff {a b : Time} (ha : a.Valid) (hb : b.Valid) : a.number ≤ b.number ↔ a.minutes ≤ b.minutes := by
  have hah := ha.hour
  have ham := ha.minute
  have hbh := hb.hour
  have hbm := hb.minute
  rw [Time.number,Time.number,Time.minutes,Time.minutes]
  rcases Nat.lt_trichotomy a.days b.days with h | h | h
  · have hd := date_lt ha hb h
    exact iff_of_true (by omega) (by omega)
  · obtain ⟨hy,hm,hd⟩ := days_inj ha hb h
    rw [Time.date,Time.date,hy,hm,hd,h]
    omega
  · have hd := date_lt hb ha h
    exact iff_of_false (by omega) (by omega)

end Calendar

namespace Php

theorem nameLe_append_left (u s t : Str) : nameLe (u ++ s) (u ++ t) = nameLe s t := by
  induction u with
  | nil => rfl
  | cons a u ih => simp [nameLe,ih]

theorem nameLe_append_right {s t : Str} (h : s.length = t.length) (u : Str) : nameLe (s ++ u) (t ++ u) = nameLe s t := by
  induction s generalizing t with
  | nil =>
    rw [List.eq_nil_of_length_eq_zero h.symm]
    have hu : nameLe u u = true := (nameLe_total u u).elim id id
    rw [List.nil_append,hu]
    rfl
  | cons a s ih =>
    cases t with
    | nil => cases h
    | cons b t =>
      rw [List.cons_append,List.cons_append,nameLe,nameLe,ih (Nat.succ.inj h)]

end Php

namespace Backups

open Php Calendar Registry
open DefaultGateway (isOne)

def digitOf (c : Char) : ℕ := c.toNat - '0'.toNat

theorem value_eq (s : Str) : Decimal.value 10 digitOf s = Nat.ofDigitChars 10 s 0 := rfl

theorem toNat_of_digit {c : Char} (h : digit c = true) : digitOf c < 10 ∧ c.toNat = digitOf c + 48 := by
  simp only [digit,Bool.and_eq_true,decide_eq_true_eq,Char.le_def,UInt32.le_iff_toNat_le] at h
  have h₀ : '0'.toNat = 48 := rfl
  have h₁ : 48 ≤ c.toNat := h.1
  have h₂ : c.toNat ≤ 57 := h.2
  rw [digitOf,h₀]
  omega

theorem nameLe_iff {s t : Str} (h : s.length = t.length) (hs : ∀ c ∈ s, digit c = true) (ht : ∀ c ∈ t, digit c = true) :
    nameLe s t = true ↔ Decimal.value 10 digitOf s ≤ Decimal.value 10 digitOf t := by
  induction s generalizing t with
  | nil =>
    rw [List.eq_nil_of_length_eq_zero h.symm]
    exact iff_of_true rfl le_rfl
  | cons a s ih =>
    cases t with
    | nil => cases h
    | cons b t =>
      rw [List.forall_mem_cons] at hs ht
      have hl := Nat.succ.inj h
      have hsv : Decimal.value 10 digitOf s < 10^t.length :=
        hl ▸ Decimal.value_lt fun c hc => (toNat_of_digit (hs.2 c hc)).1
      have htv : Decimal.value 10 digitOf t < 10^t.length := Decimal.value_lt fun c hc => (toNat_of_digit (ht.2 c hc)).1
      have hone : ∀ c, Decimal.value 10 digitOf [c] = digitOf c := fun c => by simp [Decimal.value]
      have ha := (toNat_of_digit hs.1).2
      have hb := (toNat_of_digit ht.1).2
      have hab : a = b ↔ digitOf a = digitOf b := by
        refine ⟨fun he => he ▸ rfl,fun he => Char.ext (UInt32.toNat_inj.mp ?_)⟩
        show a.toNat = b.toNat
        omega
      rw [← List.singleton_append,← List.singleton_append (l := t),Decimal.value_append,Decimal.value_append,hone,hone,hl,
        ← not_lt,Decimal.lex_iff htv hsv,List.singleton_append,List.singleton_append,nameLe]
      simp only [Bool.or_eq_true,decide_eq_true_eq,Bool.and_eq_true,ih hl hs.2 ht.2,hab]
      omega

/-- A number of `date`, with zeros in front. -/
def pad (w n : ℕ) : Str := (decimal n).leftpad w '0'

/-- `date('YmdHi')` -/
def stamp (t : Time) : Str := pad 4 t.year ++ pad 2 t.month ++ pad 2 t.day ++ pad 2 t.hour ++ pad 2 t.minute

theorem value_pad (w n : ℕ) : Decimal.value 10 digitOf (pad w n) = n := by
  rw [value_eq,pad,List.leftpad,Nat.ofDigitChars_append,Nat.ofDigitChars_replicate_zero,Nat.mul_zero,decimal,
    Nat.ofDigitChars_ten_toDigits]

theorem length_pad {w n : ℕ} (hw : 0 < w) (h : n < 10^w) : (pad w n).length = w := by
  have hl : (decimal n).length ≤ w := (Nat.length_toDigits_le_iff (by decide) hw).mpr h
  rw [pad,List.leftpad,List.length_append,List.length_replicate]
  omega

theorem digit_pad (w n : ℕ) : ∀ c ∈ pad w n, digit c = true := by
  intro c hc
  rw [pad,List.leftpad,List.mem_append,List.mem_replicate] at hc
  rcases hc with ⟨-,rfl⟩ | hc
  · decide
  · exact digit_decimal n c hc

/-- A time whose year has four digits. -/
structure Dated (t : Time) : Prop where
  valid : t.Valid
  year : t.year < 10000

theorem Dated.lengths {t : Time} (h : Dated t) : (pad 4 t.year).length = 4 ∧ (pad 2 t.month).length = 2 ∧
    (pad 2 t.day).length = 2 ∧ (pad 2 t.hour).length = 2 ∧ (pad 2 t.minute).length = 2 := by
  have hm := h.valid.month
  have hd := h.valid.day
  have hl := monthDays_le t.year t.month
  have hh := h.valid.hour
  have hn := h.valid.minute
  have hy := h.year
  exact ⟨length_pad (by decide) hy,length_pad (by decide) (by omega),length_pad (by decide) (by omega),
    length_pad (by decide) (by omega),length_pad (by decide) (by omega)⟩

theorem length_stamp {t : Time} (h : Dated t) : (stamp t).length = 12 := by
  obtain ⟨h₁,h₂,h₃,h₄,h₅⟩ := h.lengths
  simp only [stamp,List.length_append,h₁,h₂,h₃,h₄,h₅]

theorem value_stamp {t : Time} (h : Dated t) : Decimal.value 10 digitOf (stamp t) = t.number := by
  obtain ⟨-,h₂,h₃,h₄,h₅⟩ := h.lengths
  simp only [stamp,Decimal.value_append,value_pad,h₂,h₃,h₄,h₅,Time.number,Time.date]
  omega

theorem digit_stamp (t : Time) : ∀ c ∈ stamp t, digit c = true := by
  intro c hc
  simp only [stamp,List.mem_append] at hc
  rcases hc with (((hc | hc) | hc) | hc) | hc <;> exact digit_pad _ _ c hc

theorem stamp_le_iff {s t : Time} (hs : Dated s) (ht : Dated t) :
    nameLe (stamp s) (stamp t) = true ↔ s.minutes ≤ t.minutes := by
  rw [nameLe_iff ((length_stamp hs).trans (length_stamp ht).symm) (digit_stamp s) (digit_stamp t),value_stamp hs,
    value_stamp ht,number_le_iff hs.valid ht.valid]

def hostChar (c : Char) : Bool := c.isAlphanum || c = '-' || c = '_'

/-- The first part of a host name. -/
structure Named (host : Str) : Prop where
  ne : host ≠ []
  plain : ∀ c ∈ host, hostChar c = true

/-- A backup, by what stands in the name of its file. -/
structure Backup where
  host : Str
  time : Time
  named : Named host
  dated : Dated time
  deriving DecidableEq

def Backup.file (b : Backup) : Str := b.host ++ '-'::stamp b.time ++ ".mbk"

/-- What comes of the pipeline: the backup, nothing, or a file that was begun. -/
inductive Outcome
  | made
  | nothing
  | begun
  deriving DecidableEq

/-- What `_BACKUP_BACKUP_CONFIG` finds. -/
structure Machine where
  registry : Bool
  hostname : Str
  core : Str
  firm : Str
  now : Time
  outcome : Outcome
  plain : ∀ c ∈ hostname, hostChar c = true ∨ c = '.'
  dated : Dated now

/-- `_STR_ARRAY("$_hostname","\.")`, the first of it. -/
def Machine.host (m : Machine) : Str := m.hostname.takeWhile (· ≠ '.')

theorem Machine.host_plain (m : Machine) : ∀ c ∈ m.host, hostChar c = true := by
  intro c hc
  have hne : c ≠ '.' := by simpa using List.mem_takeWhile_imp hc
  exact (m.plain c ((List.takeWhile_sublist _).subset hc)).resolve_right hne

/-- The backup that is begun, if there is all that is asked for. -/
def Machine.dst (m : Machine) : Option Backup :=
  if h : m.registry = true ∧ m.host ≠ [] ∧ m.core ≠ [] ∧ m.firm ≠ [] then
    some ⟨m.host,m.now,⟨h.2.1,m.host_plain⟩,m.dated⟩
  else none

def backupConfig (m : Machine) (dir : List Backup) : Bool × List Backup :=
  match m.dst with
  | none => (false,dir)
  | some b =>
    match m.outcome with
    | .made => (true,b::dir.filter (· ≠ b))
    | .nothing => (false,dir)
    | .begun => (false,dir.filter (· ≠ b))

/-- `_GLOB(_BACKUP_PATH."/*.mbk")` -/
def glob (dir : List Backup) : List Backup := dir.insertionSort fun a b => nameLe a.file b.file = true

/-- The loop over the names: what is there after it, and how many were removed. -/
def purgeLoop (max : ℕ) : ℕ → List Backup → List Backup × ℕ → List Backup × ℕ
  | _, [], s => s
  | cnt, fl::fls, s =>
    if max ≤ cnt + 1 then purgeLoop max (cnt + 1) fls (s.1.filter (· ≠ fl),s.2 + 1) else purgeLoop max (cnt + 1) fls s

def number (s : Str) : ℕ := Nat.ofDigitChars 10 (s.takeWhile digit) 0

structure Run where
  ok : Bool
  dir : List Backup
  log : Option Str
  deriving DecidableEq

def rotated (purge max : ℕ) : Option Str :=
  if 0 < purge then
    some ("Rotating '" ++ decimal purge ++ "' " ++ (if 1 < purge then ("files" : Str) else "file") ++ " from maximum of " ++
      decimal max ++ " files")
  else none

/-- `_BACKUP_AUTO`, `data` being the section `backup` of `system.cfg`. -/
def backupAuto (m : Machine) (data : Params) (dir : List Backup) : Run :=
  if !isOne (data.val "AUTO_STAT") then ⟨false,dir,none⟩
  else if null (data.val "AUTO_COUNT") || number (data.val "AUTO_COUNT") = 0 then ⟨false,dir,none⟩
  else
    let max := number (data.val "AUTO_COUNT")
    let r := purgeLoop max 0 (glob dir).reverse (dir,0)
    let b := backupConfig m r.1
    ⟨b.1,b.2,rotated r.2 max⟩

def Machine.made (m : Machine) : Option Backup := if m.outcome = .made then m.dst else none

/-- The backups there were and the one that was made, if the answer is that one was. -/
def present (m : Machine) (dir : List Backup) (ok : Bool) : List Backup := dir ++ (if ok then m.dst else none).toList

/-- None that is left out is younger than one that is kept. -/
def Newest (all kept : List Backup) : Prop :=
  (∀ b ∈ kept, b ∈ all) ∧ ∀ b ∈ all, b ∉ kept → ∀ a ∈ kept, b.time.minutes ≤ a.time.minutes

/-- What a run of `_BACKUP_AUTO` should leave: no more than `n` backups, the youngest ones, and all there were if no
backup was made. -/
structure Keeps (n : ℕ) (m : Machine) (dir : List Backup) (r : Run) : Prop where
  few : r.dir.length ≤ n
  newest : Newest (present m dir r.ok) r.dir
  failed : r.ok = false → ∀ b ∈ dir, b ∈ r.dir

/-- The name of the first stands behind that of the second. -/
def before (a b : Backup) : Bool := nameLe b.file a.file && decide (a ≠ b)

def above (dir : List Backup) (b : Backup) : ℕ := dir.countP fun a => before a b

/-- If a backup is made, those with fewer than `n - 1` names behind theirs, and the new one, are not older than the
others. If none is made there are fewer than `n`, and what was begun is not one of them. -/
def Orderly (n : ℕ) (m : Machine) (dir : List Backup) : Prop :=
  match m.made with
  | some new => ∀ b ∈ dir, b ≠ new → n - 1 ≤ above dir b → b.time.minutes ≤ new.time.minutes ∧
      ∀ a ∈ dir, above dir a < n - 1 → b.time.minutes ≤ a.time.minutes
  | none => dir.length < n ∧ (m.outcome = .begun → ∀ b, m.dst = some b → b ∉ dir)

theorem file_injective : Function.Injective Backup.file := by
  intro a b h
  have hl : ('-'::stamp a.time ++ ".mbk" : Str).length = ('-'::stamp b.time ++ ".mbk" : Str).length := by
    simp [length_stamp a.dated,length_stamp b.dated]
  simp only [Backup.file,List.append_assoc] at h
  obtain ⟨hh,ht⟩ := List.append_inj' h hl
  have hs : stamp a.time = stamp b.time := List.append_cancel_right (List.cons.inj ht).2
  have hle := (stamp_le_iff a.dated b.dated).mp (by rw [hs]; exact (nameLe_total _ _).elim id id)
  have hge := (stamp_le_iff b.dated a.dated).mp (by rw [hs]; exact (nameLe_total _ _).elim id id)
  have htime := minutes_inj a.dated.valid b.dated.valid (le_antisymm hle hge)
  cases a
  cases b
  obtain rfl := hh
  obtain rfl := htime
  rfl

theorem file_le_iff {a b : Backup} (h : a.host = b.host) :
    nameLe a.file b.file = true ↔ a.time.minutes ≤ b.time.minutes := by
  have hl : ('-'::stamp a.time).length = ('-'::stamp b.time).length := by simp [length_stamp a.dated,length_stamp b.dated]
  rw [Backup.file,Backup.file,List.append_assoc,List.append_assoc,h,nameLe_append_left,nameLe_append_right hl,
    ← stamp_le_iff a.dated b.dated]
  simp [nameLe]

theorem mem_drop_iff {α : Type} {r : α → α → Bool} (hr : ∀ a b, r a b = true → r b a = false) {l : List α}
    (h : l.Pairwise fun a b => r a b = true) {b : α} (hb : b ∈ l) (k : ℕ) :
    b ∈ l.drop k ↔ k ≤ l.countP fun a => r a b := by
  induction l generalizing k with
  | nil => cases hb
  | cons a l ih =>
    rw [List.pairwise_cons] at h
    cases k with
    | zero => exact iff_of_true hb (Nat.zero_le _)
    | succ k =>
      rw [List.drop_succ_cons,List.countP_cons]
      by_cases hbl : b ∈ l
      · rw [if_pos (h.1 b hbl),ih h.2 hbl]
        omega
      · obtain rfl : b = a := (List.mem_cons.mp hb).resolve_right hbl
        have hno : (l.countP fun a => r a b) = 0 := by
          rw [List.countP_eq_zero]
          intro x hx
          simp [hr b x (h.1 x hx)]
        have hself : r b b = false := by
          cases hs : r b b with
          | false => rfl
          | true => exact absurd hs (by simp [hr b b hs])
        rw [hno,hself]
        exact iff_of_false (fun hm => hbl (List.mem_of_mem_drop hm)) (by simp)

section Rotation

variable {m : Machine} {dir : List Backup} {n : ℕ}

theorem before_asymm (a b : Backup) (h : before a b = true) : before b a = false := by
  simp only [before,Bool.and_eq_true,decide_eq_true_eq] at h
  by_contra hh
  simp only [Bool.not_eq_false,before,Bool.and_eq_true,decide_eq_true_eq] at hh
  exact h.2 (file_injective (nameLe_antisymm hh.1 h.1))

theorem glob_pairwise (hd : dir.Nodup) : (glob dir).reverse.Pairwise fun a b => before a b = true := by
  rw [List.pairwise_reverse]
  have : Std.Total fun a b : Backup => nameLe a.file b.file = true := ⟨fun a b => nameLe_total a.file b.file⟩
  have : IsTrans Backup fun a b => nameLe a.file b.file = true := ⟨fun a b c => nameLe_trans⟩
  have hs := List.pairwise_insertionSort (fun a b : Backup => nameLe a.file b.file = true) dir
  have hn : (glob dir).Nodup := (List.perm_insertionSort _ dir).nodup_iff.mpr hd
  refine (hs.and hn).imp ?_
  rintro a b ⟨hle,hne⟩
  simp only [before,Bool.and_eq_true,decide_eq_true_eq]
  exact ⟨hle,Ne.symm hne⟩

theorem mem_glob {b : Backup} : b ∈ (glob dir).reverse ↔ b ∈ dir := by
  rw [List.mem_reverse]
  exact (List.perm_insertionSort _ dir).mem_iff

theorem mem_glob_drop (hd : dir.Nodup) {b : Backup} (hb : b ∈ dir) (k : ℕ) :
    b ∈ (glob dir).reverse.drop k ↔ k ≤ above dir b := by
  rw [mem_drop_iff before_asymm (glob_pairwise hd) (mem_glob.mpr hb),List.countP_reverse]
  have hp : (glob dir).Perm dir := List.perm_insertionSort _ dir
  rw [hp.countP_eq]
  rfl

theorem purgeLoop_fst (max : ℕ) (fls : List Backup) (cnt : ℕ) (s : List Backup × ℕ) :
    (purgeLoop max cnt fls s).1 = s.1.filter (· ∉ fls.drop (max - 1 - cnt)) := by
  induction fls generalizing cnt s with
  | nil => simp [purgeLoop]
  | cons fl fls ih =>
    rw [purgeLoop]
    split
    next h =>
      have hz : max - 1 - cnt = 0 := by omega
      have hz' : max - 1 - (cnt + 1) = 0 := by omega
      rw [ih,hz,hz',List.filter_filter]
      refine List.filter_congr fun x _ => ?_
      simp [Bool.and_comm]
    next h =>
      obtain ⟨k,hk⟩ : ∃ k, max - 1 - cnt = k + 1 := ⟨max - 1 - cnt - 1,by omega⟩
      have hk' : max - 1 - (cnt + 1) = k := by omega
      rw [ih,hk,hk',List.drop_succ_cons]

theorem mem_kept (hd : dir.Nodup) {b : Backup} :
    b ∈ (purgeLoop n 0 (glob dir).reverse (dir,0)).1 ↔ b ∈ dir ∧ above dir b < n - 1 := by
  rw [purgeLoop_fst,List.mem_filter,decide_eq_true_iff,Nat.sub_zero]
  refine and_congr_right fun hb => ?_
  rw [mem_glob_drop hd hb,not_le]

theorem length_kept (hd : dir.Nodup) : (purgeLoop n 0 (glob dir).reverse (dir,0)).1.length ≤ n - 1 := by
  have hsub : ∀ b ∈ (purgeLoop n 0 (glob dir).reverse (dir,0)).1, b ∈ (glob dir).reverse.take (n - 1) := by
    intro b hb
    obtain ⟨hdir,ha⟩ := (mem_kept hd).mp hb
    have hm := mem_glob.mpr hdir
    rw [← List.take_append_drop (n - 1) (glob dir).reverse,List.mem_append,mem_glob_drop hd hdir] at hm
    exact hm.resolve_right (by omega)
  have hnd : (purgeLoop n 0 (glob dir).reverse (dir,0)).1.Nodup := by
    rw [purgeLoop_fst]
    exact hd.filter _
  exact ((hnd.subperm hsub).length_le).trans (List.length_take_le _ _)

/-- All are kept when there are fewer than `n`, and not otherwise. -/
theorem all_kept_iff (hd : dir.Nodup) (hn : 1 ≤ n) : (∀ b ∈ dir, above dir b < n - 1) ↔ dir.length < n := by
  have hl : (glob dir).reverse.length = dir.length := by
    rw [List.length_reverse]
    exact (List.perm_insertionSort _ dir).length_eq
  constructor
  · intro h
    by_contra hle
    have hne : (glob dir).reverse.drop (n - 1) ≠ [] := by
      rw [ne_eq,List.drop_eq_nil_iff]
      omega
    obtain ⟨b,hb⟩ := List.exists_mem_of_ne_nil _ hne
    have hdir := mem_glob.mp (List.mem_of_mem_drop hb)
    have hle := (mem_glob_drop hd hdir _).mp hb
    have := h b hdir
    omega
  · intro h b hb
    by_contra hle
    have hm := (mem_glob_drop hd hb (n - 1)).mpr (by omega)
    rw [List.drop_eq_nil_of_le (by omega)] at hm
    cases hm

theorem number_decimal (n : ℕ) : number (decimal n) = n := by
  rw [number,List.takeWhile_eq_self_iff.mpr (digit_decimal n),decimal,Nat.ofDigitChars_ten_toDigits]

theorem backupAuto_eq {data : Params} (hs : isOne (data.val "AUTO_STAT") = true)
    (hc : data.val "AUTO_COUNT" = decimal n) (hn : 1 ≤ n) :
    (backupAuto m data dir).ok = (backupConfig m (purgeLoop n 0 (glob dir).reverse (dir,0)).1).1 ∧
      (backupAuto m data dir).dir = (backupConfig m (purgeLoop n 0 (glob dir).reverse (dir,0)).1).2 := by
  have hz : ¬(null (data.val "AUTO_COUNT") || number (data.val "AUTO_COUNT") = 0) = true := by
    rw [hc,number_decimal]
    simp [decimal_ne]
    omega
  rw [backupAuto,hs,if_neg (by decide),if_neg hz,hc,number_decimal]
  exact ⟨rfl,rfl⟩

theorem backupConfig_made {new : Backup} (h : m.made = some new) (kept : List Backup) :
    backupConfig m kept = (true,new::kept.filter (· ≠ new)) := by
  rw [Machine.made] at h
  split at h
  next ho => rw [backupConfig,h,ho]
  next => cases h

/-- Without a new backup nothing comes up, and only what was begun goes. -/
theorem backupConfig_failed (h : m.made = none) (kept : List Backup) : (backupConfig m kept).1 = false ∧
    ∀ b, b ∈ (backupConfig m kept).2 ↔ b ∈ kept ∧ ¬(m.outcome = .begun ∧ m.dst = some b) := by
  rw [Machine.made] at h
  rw [backupConfig]
  cases hd : m.dst with
  | none => simp
  | some c =>
    cases ho : m.outcome with
    | made => simp [ho,hd] at h
    | nothing => simp
    | begun =>
      refine ⟨rfl,fun b => ?_⟩
      rw [List.mem_filter,decide_eq_true_iff]
      exact and_congr_right fun _ => ⟨fun h he => h (Option.some.inj he.2).symm,fun h he => h ⟨rfl,by rw [he]⟩⟩

theorem backupConfig_length (h : m.made = none) (kept : List Backup) :
    (backupConfig m kept).2.length ≤ kept.length := by
  rw [Machine.made] at h
  rw [backupConfig]
  cases hd : m.dst with
  | none => exact le_rfl
  | some c =>
    cases ho : m.outcome with
    | made => simp [ho,hd] at h
    | nothing => exact le_rfl
    | begun => exact List.length_filter_le _ _

theorem backupAuto_keeps_iff {data : Params} (hs : isOne (data.val "AUTO_STAT") = true) (hc : data.val "AUTO_COUNT" = decimal n)
    (hn : 1 ≤ n) (hd : dir.Nodup) : Keeps n m dir (backupAuto m data dir) ↔ Orderly n m dir := by
  obtain ⟨hok,hdir⟩ := @backupAuto_eq m dir n data hs hc hn
  have hlen := length_kept (n := n) hd
  have hroom := all_kept_iff (n := n) hd hn
  generalize hk : (purgeLoop n 0 (glob dir).reverse (dir,0)).1 = kept at hok hdir hlen
  have hmem : ∀ b, b ∈ kept ↔ b ∈ dir ∧ above dir b < n - 1 := fun b => by rw [← hk,mem_kept hd]
  rw [Orderly]
  cases hm : m.made with
  | some new =>
    rw [backupConfig_made hm] at hok hdir
    have hin : ∀ b, b ∈ (backupAuto m data dir).dir ↔ b = new ∨ b ∈ dir ∧ above dir b < n - 1 := by
      intro b
      rw [hdir,List.mem_cons,List.mem_filter,hmem,decide_eq_true_iff]
      tauto
    have hall : ∀ b, b ∈ present m dir (backupAuto m data dir).ok ↔ b ∈ dir ∨ b = new := by
      intro b
      rw [Machine.made] at hm
      split at hm
      next => simp [present,hok,hm]
      next => cases hm
    simp only
    constructor
    · intro h b hb hne ha
      have hout : b ∉ (backupAuto m data dir).dir := by
        rw [hin]
        rintro (he | ⟨-,hlt⟩)
        · exact hne he
        · omega
      have hle := h.newest.2 b ((hall b).mpr (Or.inl hb)) hout
      exact ⟨hle new ((hin new).mpr (Or.inl rfl)),fun a hadir hlt => hle a ((hin a).mpr (Or.inr ⟨hadir,hlt⟩))⟩
    · intro h
      refine ⟨?_,⟨fun b hb => ?_,fun b hb hout a ha => ?_⟩,fun hf => ?_⟩
      · rw [hdir,List.length_cons]
        have := List.length_filter_le (· ≠ new) kept
        omega
      · rcases (hin b).mp hb with rfl | hb
        · exact (hall b).mpr (Or.inr rfl)
        · exact (hall b).mpr (Or.inl hb.1)
      · rw [hin,not_or,not_and,not_lt] at hout
        obtain ⟨hne,hge⟩ := hout
        have hbd := ((hall b).mp hb).resolve_right hne
        obtain ⟨hnew,hrest⟩ := h b hbd hne (hge hbd)
        rcases (hin a).mp ha with rfl | ⟨had,hlt⟩
        · exact hnew
        · exact hrest a had hlt
      · rw [hok] at hf
        cases hf
  | none =>
    obtain ⟨hfail,hleft⟩ := backupConfig_failed hm kept
    have hshort := backupConfig_length hm kept
    rw [← hdir] at hleft hshort
    have hall : present m dir (backupAuto m data dir).ok = dir := by simp [present,hok,hfail]
    simp only
    have hiff : (∀ b ∈ dir, b ∈ (backupAuto m data dir).dir) ↔
        dir.length < n ∧ (m.outcome = .begun → ∀ b, m.dst = some b → b ∉ dir) := by
      rw [← hroom]
      constructor
      · intro h
        refine ⟨fun b hb => ((hmem b).mp ((hleft b).mp (h b hb)).1).2,fun ho b hb hbd => ?_⟩
        exact ((hleft b).mp (h b hbd)).2 ⟨ho,hb⟩
      · rintro ⟨hab,hbegun⟩ b hb
        exact (hleft b).mpr ⟨(hmem b).mpr ⟨hb,hab b hb⟩,fun h => hbegun h.1 b h.2 hb⟩
    constructor
    · intro h
      exact hiff.mp (h.failed (hok.trans hfail))
    · intro h
      have hsub := hiff.mpr h
      refine ⟨?_,⟨fun b hb => ?_,fun b hb hout => ?_⟩,fun _ => hsub⟩
      · omega
      · rw [hall]
        exact ((hmem b).mp ((hleft b).mp hb).1).1
      · rw [hall] at hb
        exact absurd (hsub b hb) hout

/-- A run keeps the newest backups exactly if their names are in the order of their times as far as it matters, and
loses none by failing exactly if there is room for one more. What is switched off leaves all there are. -/
theorem backupAuto_iff {data : Params} (hc : data.val "AUTO_COUNT" = decimal n) (hn : 1 ≤ n) (hd : dir.Nodup) :
    Keeps n m dir (backupAuto m data dir) ↔
      if isOne (data.val "AUTO_STAT") = true then Orderly n m dir else dir.length ≤ n := by
  by_cases hs : isOne (data.val "AUTO_STAT") = true
  · rw [if_pos hs,backupAuto_keeps_iff hs hc hn hd]
  · have hoff : backupAuto m data dir = ⟨false,dir,none⟩ := by rw [backupAuto,if_pos (by simpa using hs)]
    rw [if_neg hs,hoff]
    refine ⟨fun h => h.few,fun h => ⟨h,⟨fun b hb => ?_,fun b hb hout => ?_⟩,fun _ _ hb => hb⟩⟩
    · exact List.mem_append_left _ hb
    · rw [present,if_neg Bool.false_ne_true,Option.toList_none,List.append_nil] at hb
      exact absurd hb hout

/-- As long as the host keeps its name and the clock does not go back, the backups are in order. -/
theorem orderly_of_host {new : Backup} (hm : m.made = some new) (hh : ∀ b ∈ dir, b.host = new.host)
    (ht : ∀ b ∈ dir, b.time.minutes ≤ new.time.minutes) : Orderly n m dir := by
  rw [Orderly,hm]
  intro b hb _ hge
  refine ⟨ht b hb,fun a ha hlt => ?_⟩
  rcases le_total b.time.minutes a.time.minutes with hle | hle
  · exact hle
  · have hfile : nameLe a.file b.file = true := (file_le_iff ((hh a ha).trans (hh b hb).symm)).mpr hle
    -- What is behind the younger one is behind the older one as well.
    have hmono : above dir b ≤ above dir a := by
      refine List.countP_mono_left fun x _ hx => ?_
      simp only [before,Bool.and_eq_true,decide_eq_true_eq] at hx ⊢
      refine ⟨nameLe_trans hfile hx.1,?_⟩
      rintro rfl
      exact hx.2 (file_injective (nameLe_antisymm hfile hx.1))
    omega

end Rotation

/-- A backup of the last minute of the year 2023 and one of half a year later, of two host names. -/
def older : Backup := ⟨"zeta",⟨2023,12,31,23,59⟩,⟨by decide,by decide⟩,⟨⟨by decide,by decide,by decide,by decide,by decide⟩,by decide⟩⟩

def newer : Backup := ⟨"alpha",⟨2024,6,1,0,0⟩,⟨by decide,by decide⟩,⟨⟨by decide,by decide,by decide,by decide,by decide⟩,by decide⟩⟩

/-- A machine whose name was changed to `alpha`, in the middle of 2024. -/
def renamed (o : Outcome) : Machine where
  registry := true
  hostname := "alpha.lan"
  core := "3.1"
  firm := "1"
  now := ⟨2024,6,2,0,0⟩
  outcome := o
  plain := by decide
  dated := ⟨⟨by decide,by decide,by decide,by decide,by decide⟩,by decide⟩

def twoBackups : Params := OrdMap.empty.setAll [("AUTO_STAT","1"),("AUTO_COUNT","2")]

/-- A backup of the month before, under the name the machine still has. -/
def may : Backup := ⟨"alpha",⟨2024,5,1,0,0⟩,⟨by decide,by decide⟩,⟨⟨by decide,by decide,by decide,by decide,by decide⟩,by decide⟩⟩

/-- The backup that the run makes. -/
def june : Backup := ⟨"alpha",⟨2024,6,2,0,0⟩,⟨by decide,by decide⟩,(renamed .made).dated⟩

theorem backupAuto_iff_rotated : Keeps 2 (renamed .made) [may,newer] (backupAuto (renamed .made) twoBackups [may,newer]) ∧
    may ∉ (backupAuto (renamed .made) twoBackups [may,newer]).dir := by
  refine ⟨(backupAuto_iff (by decide) (by decide) (by decide)).mpr ?_,by decide⟩
  rw [if_pos (by decide)]
  have hmade : (renamed .made).made = some june := rfl
  exact orderly_of_host hmade (by decide) (by decide)

/-- The younger of two backups goes because its name stands first; when no backup is made it goes all the same. -/
theorem newer_lost : (backupAuto (renamed .made) twoBackups [older,newer]).ok = true ∧
    (backupAuto (renamed .nothing) twoBackups [older,newer]).dir = [older] ∧
    ¬Keeps 2 (renamed .made) [older,newer] (backupAuto (renamed .made) twoBackups [older,newer]) ∧
    ¬Keeps 2 (renamed .nothing) [older,newer] (backupAuto (renamed .nothing) twoBackups [older,newer]) := by
  refine ⟨by decide,by decide,fun h => ?_,fun h => ?_⟩
  · exact absurd (h.newest.2 newer (by decide) (by decide) older (by decide)) (by decide)
  · exact absurd (h.failed (by decide) newer (by decide)) (by decide)

end Backups
end Mybox
