import Mybox.Decimal
import Mybox.Php
import Mathlib.Algebra.Field.Rat
import Mathlib.Algebra.Order.Field.Basic
import Mathlib.Algebra.Order.Ring.Rat
import Mathlib.Tactic.IntervalCases
import Mathlib.Tactic.Linarith

/-! Firmware versions: `_VERSION_COMPARE` writes the components of a version after each other and compares
the results as numbers. -/
namespace Mybox
namespace Php

def Double.rat : Double → ℚ
  | zero => 0
  | finite neg m e => (if neg then -1 else 1)*m*2^e
  | infinite _ => 0

def Double.lt : Double → Double → Bool
  | infinite n, infinite n' => n && !n'
  | infinite n, _ => n
  | _, infinite n' => !n'
  | x, y => x.rat < y.rat

/-- `>` on two strings: numbers as numbers, unless both are too large to have a value, and texts byte by
byte. -/
def looseGt (a b : Str) : Bool :=
  match numeric a, numeric b with
  | some x, some y =>
    match toDouble x, toDouble y with
    | .infinite n, .infinite n' => if n = n' then !nameLe a b else n'
    | u, v => v.lt u
  | _, _ => !nameLe a b

end Php

namespace Versions

open Php Decimal

def versionCompare (current new : Str) : Bool :=
  if null current || null new then false
  else if looseEq current new then false
  else
    let carray := split '.' current
    let narray := split '.' new
    if carray.length < 4 || narray.length < 4 then false
    else
      let ccore := carray.getD 0 [] ++ carray.getD 1 []
      let ncore := narray.getD 0 [] ++ narray.getD 1 []
      let cbuild := carray.getD 2 [] ++ carray.getD 3 []
      let nbuild := narray.getD 2 [] ++ narray.getD 3 []
      let cbuildR := cbuild ++ carray.getD 4 []
      let nbuildR := nbuild ++ narray.getD 4 []
      if !null ccore && !null ncore && looseGt ccore ncore then false
      else if !null cbuild && !null nbuild && (!null cbuildR || !null nbuildR) &&
          looseGt (ccore ++ cbuild ++ cbuildR) (ncore ++ nbuild ++ nbuildR) then false
      else if !null cbuild && !null nbuild && looseGt (ccore ++ cbuild) (ncore ++ nbuild) then false
      else !looseGt (ccore ++ cbuild ++ cbuildR) (ncore ++ nbuild ++ nbuildR)

/-- A component: digits, at least one. -/
structure Digits where
  text : Str
  ne : text ≠ []
  digit : ∀ c ∈ text, digit c = true

/-- `core.sub.year.month` or `core.sub.year.month.day`. -/
structure Version where
  core : Digits
  sub : Digits
  year : Digits
  month : Digits
  day : Option Digits

namespace Version

def build (v : Version) : List Str := [v.core.text,v.sub.text,v.year.text,v.month.text]

def days (v : Version) : List Str := (v.day.map Digits.text).toList

def parts (v : Version) : List Str := v.build ++ v.days

def text (v : Version) : Str := ['.'].intercalate v.parts

/-- The numbers of the components; a list comes before one that it begins. -/
def key (v : Version) : List ℕ := v.parts.map (digitsVal 10)

def widths (v : Version) : List ℕ := v.parts.map List.length

def coreText (v : Version) : Str := v.core.text ++ v.sub.text

def buildText (v : Version) : Str := v.build.flatten

def releaseText (v : Version) : Str := v.buildText ++ (v.year.text ++ v.month.text) ++ v.days.flatten

end Version

theorem numeric_digits {s : Str} (hs : s ≠ []) (hd : ∀ c ∈ s, digit c = true) :
    numeric s = some ⟨false,digitsVal 10 s,1⟩ := by
  have hspace : s.dropWhile (fun c => regexSpace c || c = '\x0b') = s := by
    cases s with
    | nil => rfl
    | cons c s =>
      have hc := hd c (by simp)
      refine List.dropWhile_cons_of_neg ?_
      intro hb
      revert hc
      simp only [regexSpace,Bool.or_eq_true,decide_eq_true_eq] at hb
      rcases hb with ((((rfl | rfl) | rfl) | rfl) | rfl) | rfl <;> decide
  have htake : s.takeWhile digit = s := List.takeWhile_eq_self_iff.mpr hd
  have hdrop : s.dropWhile digit = [] := List.dropWhile_eq_nil_iff.mpr hd
  have hdec : scanDecimal false s = some (⟨false,digitsVal 10 s,1⟩,[]) := by
    simp [scanDecimal,htake,hdrop,hs,scanExponent]
  have hscan : scanNumber s = scanDecimal false s := by
    unfold scanNumber
    rw [hspace]
    split
    · rename_i x h r
      have hx : digit x = true := hd x (by simp)
      have hx' : ¬((x = 'x' ∨ x = 'X') ∧ hexDigit h = true) := by
        rintro ⟨rfl | rfl,-⟩ <;> exact absurd hx (by decide)
      rw [if_neg hx']
    · exact absurd (hd '-' (by simp)) (by decide)
    · exact absurd (hd '+' (by simp)) (by decide)
    · rfl
  rw [numeric,hscan,hdec]

/-- A number below `2^53` is a double. -/
theorem toDouble_nat {n : ℕ} (h : n < 2^53) :
    (toDouble ⟨false,n,1⟩).rat = n ∧ ∀ s, toDouble ⟨false,n,1⟩ ≠ .infinite s := by
  by_cases hn : n = 0
  · subst n
    simp [toDouble,Double.rat]
  · have hg : n.log2 ≤ 52 := Nat.lt_succ_iff.mp ((Nat.log2_lt hn).mpr h)
    have hle : 2^n.log2 ≤ n := Nat.log2_self_le hn
    have hlt : n < 2^(n.log2+1) := Nat.lt_log2_self
    have hone : Nat.log2 1 = 0 := by decide
    have hexp : max ((n.log2 : ℤ) - 52) (-1074) = (n.log2 : ℤ) - 52 := by omega
    have htoNat : (-((n.log2 : ℤ) - 52)).toNat = 52 - n.log2 := by omega
    have htoNat' : ((n.log2 : ℤ) - 52).toNat = 0 := by omega
    have hround : ∀ m, roundHalfEven m 1 = m := fun m => by simp [roundHalfEven,Nat.mod_one]
    have hm : n*2^(52 - n.log2) < 2^53 := by
      calc n*2^(52 - n.log2) < 2^(n.log2+1)*2^(52 - n.log2) :=
            Nat.mul_lt_mul_of_pos_right hlt (by positivity)
        _ = 2^53 := by rw [← pow_add]; congr 1; omega
    have hm₀ : n*2^(52 - n.log2) ≠ 0 := by positivity
    have he : toDouble ⟨false,n,1⟩ = .finite false (n*2^(52 - n.log2)) ((n.log2 : ℤ) - 52) := by
      have hk : 1*2^((n.log2 : ℤ) - (Nat.log2 1 : ℕ)).toNat ≤
          n*2^(-((n.log2 : ℤ) - (Nat.log2 1 : ℕ))).toNat := by
        simpa [hone] using hle
      simp only [toDouble,hn,if_false,if_pos hk]
      simp only [hone,Nat.cast_zero,sub_zero,hexp,htoNat,htoNat',pow_zero,mul_one,hround,hm₀,hm.ne,
        if_false]
      rw [if_neg (by omega)]
    refine ⟨?_,by simp [he]⟩
    have hsplit : (2 : ℚ)^((n.log2 : ℤ) - 52) = (2^(52 - n.log2))⁻¹ := by
      rw [show (n.log2 : ℤ) - 52 = -((52 - n.log2 : ℕ) : ℤ) by omega,zpow_neg,zpow_natCast]
    rw [he]
    simp only [Double.rat,Bool.false_eq_true,if_false,one_mul,hsplit,Nat.cast_mul,Nat.cast_pow,
      Nat.cast_ofNat]
    rw [mul_assoc,mul_inv_cancel₀ (by positivity),mul_one]

theorem looseGt_digits {s t : Str} (hs : s ≠ []) (ht : t ≠ []) (hsd : ∀ c ∈ s, digit c = true)
    (htd : ∀ c ∈ t, digit c = true) (hsv : digitsVal 10 s < 2^53) (htv : digitsVal 10 t < 2^53) :
    looseGt s t = decide (digitsVal 10 t < digitsVal 10 s) := by
  obtain ⟨hx,hxi⟩ := toDouble_nat hsv
  obtain ⟨hy,hyi⟩ := toDouble_nat htv
  have hlt : ∀ x y : Double, (∀ n, x ≠ .infinite n) → (∀ n, y ≠ .infinite n) →
      y.lt x = decide (y.rat < x.rat) := by
    intro x y hx hy
    cases x <;> cases y <;> first | rfl | exact absurd rfl (hx _) | exact absurd rfl (hy _)
  rw [looseGt,numeric_digits hs hsd,numeric_digits ht htd]
  simp only
  split
  · rename_i he _
    exact absurd he (hxi _)
  · rw [hlt _ _ hxi hyi,hx,hy]
    simp

theorem digit_ne_dot {s : Str} (hd : ∀ c ∈ s, digit c = true) : '.' ∉ s := fun h =>
  absurd (hd '.' h) (by decide)

theorem takeWhile_digits {s : Str} (hd : ∀ c ∈ s, digit c = true) {c : Char} (hc : digit c = false)
    (t : Str) : (s ++ c::t).takeWhile digit = s ∧ (s ++ c::t).dropWhile digit = c::t := by
  constructor
  · rw [List.takeWhile_append_of_pos hd,List.takeWhile_cons_of_neg (by simp [hc]),List.append_nil]
  · rw [List.dropWhile_append_of_pos hd,List.dropWhile_cons_of_neg (by simp [hc])]

/-- Two dots and it is no number. -/
theorem numeric_dots {a b : Str} (ha : a ≠ []) (had : ∀ c ∈ a, digit c = true)
    (hbd : ∀ c ∈ b, digit c = true) (t : Str) : numeric (a ++ '.'::(b ++ '.'::t)) = none := by
  obtain ⟨htake,hdrop⟩ := takeWhile_digits had (show digit '.' = false by decide) (b ++ '.'::t)
  obtain ⟨htake',hdrop'⟩ := takeWhile_digits hbd (show digit '.' = false by decide) t
  have hdec : scanDecimal false (a ++ '.'::(b ++ '.'::t)) =
      some (⟨false,digitsVal 10 (a ++ b)*10^0,10^(b.length + 0)⟩,'.'::t) := by
    have he : scanExponent ('.'::t) = ((false,0),'.'::t) := by simp [scanExponent]
    simp only [scanDecimal,htake,hdrop,List.head?_cons,if_true,List.tail_cons,htake',hdrop',he,ha,false_and,
      if_false]
    rfl
  obtain ⟨c,a',rfl⟩ := List.exists_cons_of_ne_nil ha
  have hc := had c (by simp)
  have hspace : (c::a' ++ '.'::(b ++ '.'::t)).dropWhile (fun c => regexSpace c || c = '\x0b') =
      c::a' ++ '.'::(b ++ '.'::t) := by
    refine List.dropWhile_cons_of_neg ?_
    intro hb
    revert hc
    simp only [regexSpace,Bool.or_eq_true,decide_eq_true_eq] at hb
    rcases hb with ((((rfl | rfl) | rfl) | rfl) | rfl) | rfl <;> decide
  have hscan : scanNumber (c::a' ++ '.'::(b ++ '.'::t)) =
      scanDecimal false (c::a' ++ '.'::(b ++ '.'::t)) := by
    unfold scanNumber
    rw [hspace]
    split
    · rename_i x h r he
      have hx : ¬((x = 'x' ∨ x = 'X') ∧ hexDigit h = true) := by
        have hxm : digit x = true ∨ x = '.' := by
          cases a' with
          | nil => exact Or.inr (by simpa using (List.cons.inj (List.cons.inj he).2).1.symm)
          | cons e a'' =>
            obtain rfl : e = x := (List.cons.inj (List.cons.inj he).2).1
            exact Or.inl (had e (by simp))
        rintro ⟨rfl | rfl,-⟩ <;> rcases hxm with hxm | hxm <;> revert hxm <;> decide
      rw [if_neg hx,he]
    · rename_i r he
      obtain rfl : c = '-' := (List.cons.inj he).1
      exact absurd hc (by decide)
    · rename_i r he
      obtain rfl : c = '+' := (List.cons.inj he).1
      exact absurd hc (by decide)
    · rfl
  rw [numeric,hscan,hdec]

namespace Version

variable (v w : Version)

theorem parts_digit : ∀ p ∈ v.parts, p ≠ [] ∧ ∀ c ∈ p, digit c = true := by
  intro p hp
  have hd : ∀ d : Digits, d.text ≠ [] ∧ ∀ c ∈ d.text, digit c = true := fun d => ⟨d.ne,d.digit⟩
  obtain ⟨core,sub,year,month,day⟩ := v
  cases day <;> simp only [parts,build,days,Option.map,Option.toList,List.cons_append,List.nil_append,
    List.mem_cons,List.not_mem_nil,or_false] at hp
  · rcases hp with rfl | rfl | rfl | rfl <;> exact hd _
  · rcases hp with rfl | rfl | rfl | rfl | rfl <;> exact hd _

theorem split_text : split '.' v.text = v.parts := by
  refine List.splitOn_intercalate '.' (fun p hp => digit_ne_dot (v.parts_digit p hp).2) ?_
  simp [parts,build]

theorem text_ne : null v.text = false := by
  have h : v.text = v.core.text ++ '.'::(['.'].intercalate ([v.sub.text,v.year.text,v.month.text] ++ v.days)) := by
    simp [text,parts,build,List.intercalate_cons_cons]
  rw [null_false_iff,h]
  simp

theorem numeric_text : numeric v.text = none := by
  have h : v.text = v.core.text ++ '.'::(v.sub.text ++ '.'::
      (['.'].intercalate ([v.year.text,v.month.text] ++ v.days))) := by
    simp [text,parts,build,List.intercalate_cons_cons]
  rw [h]
  exact numeric_dots v.core.ne v.core.digit v.sub.digit _

end Version

/-- What is left of the comparison for versions: three numbers are compared. -/
theorem versionCompare_text (v w : Version) : versionCompare v.text w.text = true ↔ v.text ≠ w.text ∧
    looseGt v.coreText w.coreText = false ∧ looseGt v.buildText w.buildText = false ∧
      looseGt v.releaseText w.releaseText = false := by
  have hlen : ∀ v : Version, ¬v.parts.length < 4 := fun v => by simp [Version.parts,Version.build]
  have hday : ∀ v : Version, v.parts.getD 4 [] = v.days.flatten := fun v => by
    cases hd : v.day <;> simp [Version.parts,Version.build,Version.days,hd]
  have hcore : ∀ v : Version, v.parts.getD 0 [] ++ v.parts.getD 1 [] = v.coreText := fun v => rfl
  have hbuild : ∀ v : Version, v.parts.getD 2 [] ++ v.parts.getD 3 [] = v.year.text ++ v.month.text :=
    fun v => rfl
  have hne : ∀ v : Version, null v.coreText = false ∧ null (v.year.text ++ v.month.text) = false := fun v => by
    simp [Version.coreText,v.core.ne,v.year.ne]
  have hb : ∀ v : Version, v.coreText ++ (v.year.text ++ v.month.text) = v.buildText := fun v => by
    simp [Version.coreText,Version.buildText,Version.build]
  have hr : ∀ v : Version, v.buildText ++ (v.year.text ++ v.month.text ++ v.days.flatten) = v.releaseText :=
    fun v => by rw [Version.releaseText,List.append_assoc _ (v.year.text ++ v.month.text)]
  have hbr : ∀ v : Version, null (v.year.text ++ v.month.text ++ v.days.flatten) = false := fun v => by
    simp [v.year.ne]
  simp only [versionCompare,v.text_ne,w.text_ne,looseEq_text w.numeric_text,v.split_text,w.split_text,
    hlen,hday,hcore,hbuild,hne,hb,hr,hbr]
  cases looseGt v.coreText w.coreText <;> cases looseGt v.buildText w.buildText <;>
    cases looseGt v.releaseText w.releaseText <;> simp

theorem digitVal_lt {c : Char} (h : digit c = true) : digitVal c < 10 := by
  have hc : '0' ≤ c ∧ c ≤ '9' := by simpa [digit] using h
  have h₁ : c.toNat ≤ 57 := hc.2
  rw [digitVal,if_pos h]
  omega

theorem digitVal_injective {c e : Char} (hc : digit c = true) (he : digit e = true)
    (h : digitVal c = digitVal e) : c = e := by
  have hc' : '0' ≤ c ∧ c ≤ '9' := by simpa [digit] using hc
  have he' : '0' ≤ e ∧ e ≤ '9' := by simpa [digit] using he
  have h₁ : 48 ≤ c.toNat := hc'.1
  have h₂ : 48 ≤ e.toNat := he'.1
  rw [digitVal,if_pos hc,digitVal,if_pos he] at h
  exact Char.toNat_inj.mp (by omega)

namespace Version

variable (v w : Version)

theorem releaseText_digit : ∀ c ∈ v.releaseText, digit c = true := by
  have h := v.parts_digit
  intro c hc
  have hm : ∃ p ∈ v.parts, c ∈ p := by
    simp only [releaseText,buildText,build,List.mem_append,List.mem_flatten] at hc
    rcases hc with (⟨p,hp,hc⟩ | hc | hc) | ⟨p,hp,hc⟩
    · exact ⟨p,by simp only [parts,build,List.mem_append]; exact Or.inl hp,hc⟩
    · exact ⟨v.year.text,by simp [parts,build],hc⟩
    · exact ⟨v.month.text,by simp [parts,build],hc⟩
    · exact ⟨p,by simp only [parts,List.mem_append]; exact Or.inr hp,hc⟩
  obtain ⟨p,hp,hc⟩ := hm
  exact (h p hp).2 c hc

theorem release_split : (∃ t, v.releaseText = v.buildText ++ t) ∧ ∃ t, v.buildText = v.coreText ++ t :=
  ⟨⟨v.year.text ++ v.month.text ++ v.days.flatten,List.append_assoc ..⟩,
    ⟨v.year.text ++ v.month.text,by simp [buildText,build,coreText]⟩⟩

theorem coreText_ne : v.coreText ≠ [] := by simp [coreText,v.core.ne]

theorem buildText_ne : v.buildText ≠ [] := by simp [buildText,build,v.core.ne]

theorem releaseText_ne : v.releaseText ≠ [] := by simp [releaseText,v.buildText_ne]

end Version

theorem looseGt_short {s t : Str} (hs : s ≠ []) (ht : t ≠ []) (hsd : ∀ c ∈ s, digit c = true)
    (htd : ∀ c ∈ t, digit c = true) (hsl : s.length ≤ 15) (htl : t.length ≤ 15) :
    looseGt s t = false ↔ digitsVal 10 s ≤ digitsVal 10 t := by
  have hv : ∀ s : Str, (∀ c ∈ s, digit c = true) → s.length ≤ 15 → digitsVal 10 s < 2^53 := by
    intro s hd hl
    have h : value 10 digitVal s < 10^s.length := value_lt fun c hc => digitVal_lt (hd c hc)
    have hp : 10^s.length ≤ 10^15 := Nat.pow_le_pow_right (by norm_num) hl
    calc digitsVal 10 s < 10^s.length := h
      _ ≤ 10^15 := hp
      _ < 2^53 := by norm_num
  rw [looseGt_digits hs ht hsd htd (hv s hsd hsl) (hv t htd htl)]
  simp

/-- Versions of few digits: the three numbers do not go down, and the texts differ. -/
theorem versionCompare_short {v w : Version} (hv : v.releaseText.length ≤ 15)
    (hw : w.releaseText.length ≤ 15) : versionCompare v.text w.text = true ↔ v.text ≠ w.text ∧
      digitsVal 10 v.coreText ≤ digitsVal 10 w.coreText ∧
      digitsVal 10 v.buildText ≤ digitsVal 10 w.buildText ∧
      digitsVal 10 v.releaseText ≤ digitsVal 10 w.releaseText := by
  have hb : ∀ v : Version, v.releaseText.length ≤ 15 →
      (v.buildText.length ≤ 15 ∧ ∀ c ∈ v.buildText, digit c = true) ∧
        v.coreText.length ≤ 15 ∧ ∀ c ∈ v.coreText, digit c = true := by
    intro v hl
    have hd := v.releaseText_digit
    obtain ⟨⟨t,ht⟩,u,hu⟩ := v.release_split
    rw [ht,hu] at hl hd
    rw [hu]
    simp only [List.length_append,List.mem_append] at hl hd ⊢
    exact ⟨⟨by omega,fun c hc => hd c (Or.inl hc)⟩,by omega,fun c hc => hd c (Or.inl (Or.inl hc))⟩
  obtain ⟨⟨hvb,hvbd⟩,hvc,hvcd⟩ := hb v hv
  obtain ⟨⟨hwb,hwbd⟩,hwc,hwcd⟩ := hb w hw
  rw [versionCompare_text,looseGt_short v.coreText_ne w.coreText_ne hvcd hwcd hvc hwc,
    looseGt_short v.buildText_ne w.buildText_ne hvbd hwbd hvb hwb,
    looseGt_short v.releaseText_ne w.releaseText_ne v.releaseText_digit w.releaseText_digit hv hw]

/-- The components have the same numbers of digits; a version without its day also goes with one that has a
day, whatever the width of the first component. -/
def Matches (v w : Version) : Prop :=
  v.widths = w.widths ∨ v.day.isNone ∧ w.day.isSome ∧ v.widths.tail = (w.widths.take 4).tail

theorem text_inj {v w : Version} : v.text = w.text ↔ v.parts = w.parts :=
  ⟨fun h => by rw [← v.split_text,h,w.split_text],fun h => by rw [Version.text,h,Version.text]⟩

theorem parts_digitVal (v : Version) : ∀ p ∈ v.parts, ∀ c ∈ p, digitVal c < 10 := fun p hp c hc =>
  digitVal_lt ((v.parts_digit p hp).2 c hc)

theorem text_eq_iff {v w : Version} (h : v.widths = w.widths) : v.text = w.text ↔ v.key = w.key := by
  rw [text_inj]
  refine ⟨fun hp => by rw [Version.key,hp,Version.key],fun hk => ?_⟩
  exact eq_of_map_value_eq (b := 10) (d := digitVal)
    (fun s hs t ht x hx y hy => digitVal_injective ((v.parts_digit s hs).2 x hx) ((w.parts_digit t ht).2 y hy))
    (parts_digitVal v) (parts_digitVal w) h hk

/-- The numbers of blocks of digits of the same widths, the first one apart, are ordered as their lists. -/
theorem blocks_lt_iff {v w : Version} {x y : Str} {xs ys : List Str} (hx : ∀ s ∈ xs, s ∈ v.parts)
    (hy : ∀ s ∈ ys, s ∈ w.parts) (hl : xs.map List.length = ys.map List.length) :
    digitsVal 10 (x::xs).flatten < digitsVal 10 (y::ys).flatten ↔
      (x::xs).map (digitsVal 10) < (y::ys).map (digitsVal 10) :=
  value_flatten_lt_iff x y (fun s hs => parts_digitVal v s (hx s hs)) (fun s hs => parts_digitVal w s (hy s hs)) hl

namespace Version

variable (v : Version)

theorem coreText_blocks : v.coreText = (v.core.text::[v.sub.text]).flatten := by simp [coreText]

theorem buildText_blocks : v.buildText = (v.core.text::[v.sub.text,v.year.text,v.month.text]).flatten := rfl

end Version

section Alike

variable {v w : Version}

theorem coreText_lt_iff (hs : v.sub.text.length = w.sub.text.length) :
    digitsVal 10 v.coreText < digitsVal 10 w.coreText ↔
      [v.core.text,v.sub.text].map (digitsVal 10) < [w.core.text,w.sub.text].map (digitsVal 10) := by
  rw [v.coreText_blocks,w.coreText_blocks]
  exact blocks_lt_iff (v := v) (w := w) (by simp [Version.parts,Version.build])
    (by simp [Version.parts,Version.build]) (by simp [hs])

theorem buildText_lt_iff (hs : v.sub.text.length = w.sub.text.length)
    (hy : v.year.text.length = w.year.text.length) (hm : v.month.text.length = w.month.text.length) :
    digitsVal 10 v.buildText < digitsVal 10 w.buildText ↔
      v.build.map (digitsVal 10) < w.build.map (digitsVal 10) := by
  rw [v.buildText_blocks,w.buildText_blocks]
  exact blocks_lt_iff (v := v) (w := w) (by simp [Version.parts,Version.build])
    (by simp [Version.parts,Version.build]) (by simp [hs,hy,hm])

/-- The last comparison, of the components that follow with as many digits in both. -/
theorem release_lt_iff (hs : v.sub.text.length = w.sub.text.length)
    (hy : v.year.text.length = w.year.text.length) (hm : v.month.text.length = w.month.text.length)
    {xs ys : List Str} (hx : xs ⊆ v.parts) (hy' : ys ⊆ w.parts) (hl : xs.map List.length = ys.map List.length) :
    digitsVal 10 (v.build.flatten ++ (v.year.text ++ v.month.text) ++ xs.flatten) <
        digitsVal 10 (w.build.flatten ++ (w.year.text ++ w.month.text) ++ ys.flatten) ↔
      (v.build ++ [v.year.text,v.month.text] ++ xs).map (digitsVal 10) <
        (w.build ++ [w.year.text,w.month.text] ++ ys).map (digitsVal 10) := by
  have he : ∀ (v : Version) (xs : List Str), v.build.flatten ++ (v.year.text ++ v.month.text) ++ xs.flatten =
      (v.core.text::([v.sub.text,v.year.text,v.month.text,v.year.text,v.month.text] ++ xs)).flatten := by
    intro v xs
    simp [Version.build]
  rw [he,he]
  refine blocks_lt_iff (v := v) (w := w) (fun s hs => ?_) (fun s hs => ?_) (by simp [hs,hy,hm,hl])
  · rcases List.mem_append.mp hs with h | h
    · simp [Version.parts,Version.build] at h ⊢
      grind
    · exact hx h
  · rcases List.mem_append.mp hs with h | h
    · simp [Version.parts,Version.build] at h ⊢
      grind
    · exact hy' h

end Alike

/-- Versions written alike are compared as their numbers. -/
theorem matches_compare {v w : Version} (hv : v.releaseText.length ≤ 15) (hw : w.releaseText.length ≤ 15)
    (hm : Matches v w) : versionCompare v.text w.text = true ↔ v.key < w.key := by
  have htail : w.sub.text.length = v.sub.text.length ∧ w.year.text.length = v.year.text.length ∧
      w.month.text.length = v.month.text.length := by
    rcases hm with hm | ⟨-,-,hm⟩ <;>
      simp [Version.widths,Version.parts,Version.build,Version.days] at hm <;> simp [hm]
  obtain ⟨hs,hy,hmo⟩ := htail
  rw [versionCompare_short hv hw,← not_lt,← not_lt,← not_lt,coreText_lt_iff hs,buildText_lt_iff hs hy hmo]
  have hdays : ∀ v : Version, v.days ⊆ v.parts := fun v => by simp [Version.parts]
  rcases hm with hm | ⟨hvd,hwd,-⟩
  · have hl : w.days.map List.length = v.days.map List.length := by
      have h := congrArg (List.drop 4) hm
      simpa [Version.widths,Version.parts,Version.build] using h.symm
    rw [Version.releaseText,Version.releaseText,Version.buildText,Version.buildText,
      release_lt_iff hs hy hmo (hdays w) (hdays v) hl,Ne,text_eq_iff hm]
    cases hvd : v.day <;> cases hwd : w.day <;> simp [Version.days,hvd,hwd] at hl <;>
      simp [Version.key,Version.parts,Version.build,Version.days,hvd,hwd,List.cons_lt_cons_iff] <;> omega
  · obtain ⟨e,he⟩ := Option.isSome_iff_exists.mp hwd
    have hnone : v.day = none := Option.isNone_iff_eq_none.mp hvd
    have htext : v.text ≠ w.text := by
      rw [Ne,text_inj]
      intro hp
      have := congrArg List.length hp
      simp [Version.parts,Version.build,Version.days,he,hnone] at this
    -- The day can only make the later number longer.
    have hrel : digitsVal 10 w.releaseText < digitsVal 10 v.releaseText →
        digitsVal 10 (w.build.flatten ++ (w.year.text ++ w.month.text) ++ ([] : List Str).flatten) <
          digitsVal 10 (v.build.flatten ++ (v.year.text ++ v.month.text) ++ ([] : List Str).flatten) := by
      intro h
      have hvdays : v.days.flatten = [] := by simp [Version.days,hnone]
      have happ : digitsVal 10 w.releaseText = _ :=
        value_append (b := 10) (d := digitVal) (w.buildText ++ (w.year.text ++ w.month.text)) w.days.flatten
      have hpos : 0 < 10^w.days.flatten.length := by positivity
      have hle := Nat.le_mul_of_pos_right (digitsVal 10 (w.buildText ++ (w.year.text ++ w.month.text))) hpos
      rw [happ,Version.releaseText,hvdays] at h
      simp only [List.flatten_nil,List.append_nil] at h ⊢
      exact lt_of_le_of_lt (hle.trans (Nat.le_add_right _ _)) h
    rw [release_lt_iff hs hy hmo (List.nil_subset _) (List.nil_subset _) rfl] at hrel
    simp only [htext,Ne,not_false_eq_true,true_and]
    simp [Version.key,Version.parts,Version.build,Version.days,he,hnone,List.cons_lt_cons_iff] at hrel ⊢
    omega

def digitChar (n : ℕ) : Char := Char.ofNat (48 + n%10)

def pad : ℕ → ℕ → Str
  | 0, _ => []
  | k+1, n => pad k (n/10) ++ [digitChar n]

theorem digitChar_spec (n : ℕ) : digit (digitChar n) = true ∧ digitVal (digitChar n) = n%10 := by
  have h : n%10 < 10 := Nat.mod_lt n (by norm_num)
  unfold digitChar
  generalize n%10 = k at h ⊢
  interval_cases k <;> decide

theorem pad_spec (k n : ℕ) : (pad k n).length = k ∧ (∀ c ∈ pad k n, digit c = true) ∧
    digitsVal 10 (pad k n) = n%10^k := by
  induction k generalizing n with
  | zero => simp [pad,digitsVal,Nat.mod_one]
  | succ k ih =>
    obtain ⟨hl,hd,hv⟩ := ih (n/10)
    obtain ⟨hc,hcv⟩ := digitChar_spec n
    refine ⟨by simp [pad,hl],?_,?_⟩
    · intro c hm
      rcases List.mem_append.mp hm with h | h
      · exact hd c h
      · rwa [List.mem_singleton.mp h]
    · have happ : digitsVal 10 (pad k (n/10) ++ [digitChar n]) = _ := value_append (b := 10) (d := digitVal) _ _
      have hone : value 10 digitVal [digitChar n] = n%10 := by simp [value,hcv]
      rw [pad,happ,hone,show value 10 digitVal (pad k (n/10)) = _ from hv,List.length_singleton,pow_one,pow_succ',
        Nat.mod_mul]
      ring

def Digits.with (d : Digits) (n : ℕ) : Digits where
  text := pad d.text.length n
  ne := fun h => d.ne (by simpa [h] using (pad_spec d.text.length n).1.symm)
  digit := (pad_spec d.text.length n).2.1

@[simp] theorem Digits.with_length (d : Digits) (n : ℕ) : (d.with n).text.length = d.text.length :=
  (pad_spec ..).1

theorem Digits.with_val {d : Digits} {n : ℕ} (h : n < 10^d.text.length) :
    digitsVal 10 (d.with n).text = n := by
  rw [show digitsVal 10 (d.with n).text = _ from (pad_spec ..).2.2,Nat.mod_eq_of_lt h]

def Version.with (v : Version) (c s y m : ℕ) : Version where
  core := v.core.with c
  sub := v.sub.with s
  year := v.year.with y
  month := v.month.with m
  day := v.day.map (Digits.with · 0)

section With

variable (v : Version) (c s y m : ℕ)

theorem with_widths : (v.with c s y m).widths = v.widths := by
  cases h : v.day <;>
    simp [Version.with,Version.widths,Version.parts,Version.build,Version.days,h]

theorem with_length : (v.with c s y m).releaseText.length = v.releaseText.length := by
  cases h : v.day <;>
    simp [Version.with,Version.releaseText,Version.buildText,Version.build,Version.days,h]

variable {c s y m}

theorem with_key (hc : c < 10^v.core.text.length) (hs : s < 10^v.sub.text.length)
    (hy : y < 10^v.year.text.length) (hm : m < 10^v.month.text.length) :
    (v.with c s y m).key = [c,s,y,m] ++ (v.day.map fun _ => 0).toList := by
  have h₀ : ∀ d : Digits, digitsVal 10 (d.with 0).text = 0 := fun d => Digits.with_val (by positivity)
  cases h : v.day <;>
    simp [Version.with,Version.key,Version.parts,Version.build,Version.days,h,Digits.with_val hc,
      Digits.with_val hs,Digits.with_val hy,Digits.with_val hm,h₀]

/-- The three numbers that are compared. -/
theorem with_vals (hc : c < 10^v.core.text.length) (hs : s < 10^v.sub.text.length)
    (hy : y < 10^v.year.text.length) (hm : m < 10^v.month.text.length) :
    digitsVal 10 (v.with c s y m).coreText = c*10^v.sub.text.length + s ∧
    digitsVal 10 (v.with c s y m).buildText =
      (c*10^v.sub.text.length + s)*10^(v.year.text.length + v.month.text.length) +
        (y*10^v.month.text.length + m) ∧
    digitsVal 10 (v.with c s y m).releaseText =
      (((c*10^v.sub.text.length + s)*10^(v.year.text.length + v.month.text.length) +
        (y*10^v.month.text.length + m))*10^(v.year.text.length + v.month.text.length) +
        (y*10^v.month.text.length + m))*10^v.days.flatten.length := by
  have happ : ∀ s t : Str, digitsVal 10 (s ++ t) = digitsVal 10 s*10^t.length + digitsVal 10 t :=
    fun s t => value_append (b := 10) (d := digitVal) s t
  have hcore : digitsVal 10 (v.with c s y m).coreText = c*10^v.sub.text.length + s := by
    simp [Version.coreText,Version.with,happ,Digits.with_val hc,Digits.with_val hs]
  have hym : digitsVal 10 ((v.with c s y m).year.text ++ (v.with c s y m).month.text) =
      y*10^v.month.text.length + m := by
    simp [Version.with,happ,Digits.with_val hy,Digits.with_val hm]
  have hlen : ((v.with c s y m).year.text ++ (v.with c s y m).month.text).length =
      v.year.text.length + v.month.text.length := by
    simp [Version.with]
  have hb : (v.with c s y m).buildText = (v.with c s y m).coreText ++
      ((v.with c s y m).year.text ++ (v.with c s y m).month.text) := by
    simp [Version.buildText,Version.build,Version.coreText]
  have hdays : digitsVal 10 (v.with c s y m).days.flatten = 0 ∧
      (v.with c s y m).days.flatten.length = v.days.flatten.length := by
    have h₀ : ∀ d : Digits, digitsVal 10 (d.with 0).text = 0 := fun d => Digits.with_val (by positivity)
    cases h : v.day <;> simp [Version.with,Version.days,h,h₀]
    rfl
  refine ⟨hcore,?_,?_⟩
  · rw [hb,happ,hcore,hym,hlen]
  · rw [Version.releaseText,happ,happ,hb,happ,hcore,hym,hlen,hdays.1,hdays.2,add_zero]

end With

theorem widths_eq_iff {v w : Version} : v.widths = w.widths ↔ v.core.text.length = w.core.text.length ∧
    v.sub.text.length = w.sub.text.length ∧ v.year.text.length = w.year.text.length ∧
    v.month.text.length = w.month.text.length ∧ v.days.map List.length = w.days.map List.length := by
  simp [Version.widths,Version.parts,Version.build]

theorem days_length {v w : Version} (h : v.days.map List.length = w.days.map List.length) :
    v.days.flatten.length = w.days.flatten.length ∧ v.day.isSome = w.day.isSome := by
  cases hv : v.day <;> cases hw : w.day <;> simp [Version.days,hv,hw] at h ⊢
  exact h

theorem release_length {v w : Version} (h : v.widths = w.widths) :
    v.releaseText.length = w.releaseText.length := by
  obtain ⟨hc,hs,hy,hm,hd⟩ := widths_eq_iff.mp h
  have hlen : ∀ v : Version, v.releaseText.length = v.core.text.length + v.sub.text.length +
      2*(v.year.text.length + v.month.text.length) + v.days.flatten.length := fun v => by
    simp only [Version.releaseText,Version.buildText,Version.build,List.flatten_cons,List.flatten_nil,
      List.length_append,List.length_nil]
    ring
  rw [hlen,hlen,hc,hs,hy,hm,(days_length hd).1]

theorem Matches.widths {v w v' w' : Version} (h : Matches v w) (hv : v'.widths = v.widths)
    (hw : w'.widths = w.widths) : Matches v' w' := by
  have hday : ∀ {v v' : Version}, v'.widths = v.widths → v'.day.isSome = v.day.isSome := fun h =>
    (days_length (widths_eq_iff.mp h).2.2.2.2).2
  rcases h with h | ⟨hnone,hsome,ht⟩
  · exact Or.inl (hv.trans (h.trans hw.symm))
  · refine Or.inr ⟨?_,by rw [hday hw]; exact hsome,by rw [hv,hw]; exact ht⟩
    rw [← Option.not_isSome,hday hv,Option.not_isSome]
    exact hnone

theorem with_compare {v w : Version} {c s y m c' s' y' m' : ℕ} (hv : v.releaseText.length ≤ 15)
    (hw : w.releaseText.length ≤ 15) (hne : (v.with c s y m).text ≠ (w.with c' s' y' m').text) :
    versionCompare (v.with c s y m).text (w.with c' s' y' m').text = true ↔
      digitsVal 10 (v.with c s y m).coreText ≤ digitsVal 10 (w.with c' s' y' m').coreText ∧
      digitsVal 10 (v.with c s y m).buildText ≤ digitsVal 10 (w.with c' s' y' m').buildText ∧
      digitsVal 10 (v.with c s y m).releaseText ≤ digitsVal 10 (w.with c' s' y' m').releaseText := by
  rw [versionCompare_short (by rwa [with_length]) (by rwa [with_length])]
  exact and_iff_right hne

theorem pow_lt {k l : ℕ} (h : k < l) : 10*10^k ≤ 10^l := by
  rw [← pow_succ']
  exact Nat.pow_le_pow_right (by norm_num) h

/-- Numbers for a version without a day and for one with a day whose order is not that of what is written
after each other. -/
theorem wrong_of {v w : Version} (hv : v.releaseText.length ≤ 15) (hw : w.releaseText.length ≤ 15)
    (hvd : v.day = none) (hwd : w.day.isSome) {c s y m c' s' y' m' : ℕ} (hc : c < 10^v.core.text.length)
    (hs : s < 10^v.sub.text.length) (hy : y < 10^v.year.text.length) (hm : m < 10^v.month.text.length)
    (hc' : c' < 10^w.core.text.length) (hs' : s' < 10^w.sub.text.length) (hy' : y' < 10^w.year.text.length)
    (hm' : m' < 10^w.month.text.length)
    (h : let b := (c*10^v.sub.text.length + s)*10^(v.year.text.length + v.month.text.length) +
          (y*10^v.month.text.length + m)
        let b' := (c'*10^w.sub.text.length + s')*10^(w.year.text.length + w.month.text.length) +
          (y'*10^w.month.text.length + m')
        ¬((c*10^v.sub.text.length + s ≤ c'*10^w.sub.text.length + s' ∧ b ≤ b' ∧
            b*10^(v.year.text.length + v.month.text.length) + (y*10^v.month.text.length + m) ≤
              (b'*10^(w.year.text.length + w.month.text.length) + (y'*10^w.month.text.length + m'))*
                10^w.days.flatten.length) ↔
          [c,s,y,m] < [c',s',y',m',0])) :
    ∃ v' w' : Version, v'.widths = v.widths ∧ w'.widths = w.widths ∧
      ¬(versionCompare v'.text w'.text = true ↔ v'.key < w'.key) := by
  obtain ⟨e,he⟩ := Option.isSome_iff_exists.mp hwd
  have hne : (v.with c s y m).text ≠ (w.with c' s' y' m').text := by
    rw [Ne,text_inj]
    intro hp
    have := congrArg List.length hp
    simp [Version.with,Version.parts,Version.build,Version.days,he,hvd] at this
  obtain ⟨h₁,h₂,h₃⟩ := with_vals v hc hs hy hm
  obtain ⟨h₁',h₂',h₃'⟩ := with_vals w hc' hs' hy' hm'
  refine ⟨v.with c s y m,w.with c' s' y' m',with_widths ..,with_widths ..,?_⟩
  have hvdays : v.days.flatten.length = 0 := by simp [Version.days,hvd]
  rw [with_compare hv hw hne,h₁,h₂,h₃,h₁',h₂',h₃',with_key v hc hs hy hm,with_key w hc' hs' hy' hm',hvdays,
    pow_zero,mul_one,hvd,he]
  exact h

/-- For other widths there are such numbers: ones and nines, by the first place where the widths tell. -/
theorem exists_wrong {p q r p' q' r' : ℕ} (d : ℕ) (hq : 0 < q) (hp' : 0 < p') (hq' : 0 < q')
    (hne : ¬(p = p' ∧ q = q' ∧ r = r')) : ∃ c s y m c' s' y' m', (c ≤ 1 ∧ s < 10^p ∧ y < 10^q ∧ m < 10^r) ∧
      (c' ≤ 1 ∧ s' < 10^p' ∧ y' < 10^q' ∧ m' < 10^r') ∧
      let b := (c*10^p + s)*10^(q+r) + (y*10^r + m)
      let b' := (c'*10^p' + s')*10^(q'+r') + (y'*10^r' + m')
      ¬((c*10^p + s ≤ c'*10^p' + s' ∧ b ≤ b' ∧
          b*10^(q+r) + (y*10^r + m) ≤ (b'*10^(q'+r') + (y'*10^r' + m'))*10^d) ↔
        [c,s,y,m] < [c',s',y',m',0]) := by
  have hpos : ∀ k, 0 < 10^k := fun k => by positivity
  have hone : ∀ {k}, 0 < k → 1 < 10^k := fun h => Nat.one_lt_pow h.ne' (by norm_num)
  have hnine : ∀ k, 10^k - 1 < 10^k := fun k => Nat.sub_lt (hpos k) Nat.one_pos
  have hd := hpos d
  rcases Nat.lt_or_ge (q'+r') (q+r) with hT | hT
  · -- the later sub version, but the build number of the current one is longer
    refine ⟨0,0,10^q - 1,10^r - 1,0,1,0,0,⟨by omega,hpos p,hnine q,hnine r⟩,
      ⟨by omega,hone hp',hpos q',hpos r'⟩,?_⟩
    have hT' := pow_lt hT
    have hlen : (10^q - 1)*10^r + (10^r - 1) = 10^(q+r) - 1 := by
      have hq₁ := hpos q
      have hr₁ := hpos r
      obtain ⟨a,ha⟩ := Nat.exists_eq_add_of_lt hq₁
      rw [pow_add,ha]
      simp only [zero_add,Nat.add_sub_cancel]
      have : (a+1)*10^r = a*10^r + 10^r := by ring
      omega
    have hpos' := hpos (q'+r')
    dsimp only
    intro hiff
    have hb := (hiff.mpr (by simp [List.cons_lt_cons_iff])).2.1
    simp only [zero_mul,zero_add,one_mul,add_zero,hlen] at hb
    omega
  · rcases Nat.lt_trichotomy p p' with hpp | hpp | hpp
    · -- the later core, but the sub version of the other one is longer
      refine ⟨1,0,0,0,0,10^p' - 1,10^q' - 1,10^r' - 1,⟨by omega,hpos p,hpos q,hpos r⟩,
        ⟨by omega,hnine p',hnine q',hnine r'⟩,?_⟩
      have hpp' := pow_lt hpp
      have hle : 10^p ≤ 10^p' - 1 := by have := hpos p; omega
      have hTT : 10^(q+r) ≤ 10^(q'+r') := Nat.pow_le_pow_right (by norm_num) hT
      have hb : 10^p*10^(q+r) ≤ (10^p' - 1)*10^(q'+r') := Nat.mul_le_mul hle hTT
      have hb' := hb.trans (Nat.le_add_right _ ((10^q' - 1)*10^r' + (10^r' - 1)))
      have hr := (Nat.mul_le_mul hb' hTT).trans (Nat.le_add_right _ ((10^q' - 1)*10^r' + (10^r' - 1)))
      have hr' := hr.trans (Nat.le_mul_of_pos_right _ hd)
      simp only [zero_mul,zero_add,one_mul,add_zero,List.cons_lt_cons_iff]
      omega
    · subst hpp
      rcases Nat.lt_or_ge (q+r) (q'+r') with hT' | hT'
      · -- the same core version, but the build number of the older one is longer
        refine ⟨1,0,1,0,1,0,0,0,⟨by omega,hpos p,hone hq,hpos r⟩,⟨by omega,hpos p,hpos q',hpos r'⟩,?_⟩
        have hTT := pow_lt hT'
        have hr₁ : 10^r ≤ 10^(q+r) := Nat.pow_le_pow_right (by norm_num) (by omega)
        have hp₁ : 10^(q+r) ≤ 10^p*10^(q+r) := Nat.le_mul_of_pos_left _ (hpos p)
        have hb : 10*(10^p*10^(q+r)) ≤ 10^p*10^(q'+r') := by
          calc 10*(10^p*10^(q+r)) = 10^p*(10*10^(q+r)) := by ring
            _ ≤ 10^p*10^(q'+r') := Nat.mul_le_mul_left _ hTT
        have hb' : 10^p*10^(q+r) + 10^r ≤ 10^p*10^(q'+r') := by omega
        have hrel : (10^p*10^(q+r) + 10^r)*10^(q+r) + 10^r ≤ 10^p*10^(q'+r')*10^(q'+r') := by
          have h₁ := Nat.mul_le_mul_right (10^(q+r)) hb'
          have h₂ : 10*(10^p*10^(q'+r')*10^(q+r)) ≤ 10^p*10^(q'+r')*10^(q'+r') := by
            calc 10*(10^p*10^(q'+r')*10^(q+r)) = 10^p*10^(q'+r')*(10*10^(q+r)) := by ring
              _ ≤ 10^p*10^(q'+r')*10^(q'+r') := Nat.mul_le_mul_left _ hTT
          have h₃ : 10^(q+r) ≤ 10^p*10^(q'+r')*10^(q+r) :=
            Nat.le_mul_of_pos_left _ (Nat.mul_pos (hpos p) (hpos _))
          omega
        have hrel' := hrel.trans (Nat.le_mul_of_pos_right _ hd)
        simp only [zero_mul,one_mul,add_zero,List.cons_lt_cons_iff]
        omega
      · have hqr : q + r = q' + r' := by omega
        rcases Nat.lt_trichotomy r r' with hrr | hrr | hrr
        · -- the later year, but the month of the other one is longer
          refine ⟨0,0,1,0,0,0,0,10^r' - 1,⟨by omega,hpos p,hone hq,hpos r⟩,
            ⟨by omega,hpos p,hpos q',hnine r'⟩,?_⟩
          have hrr' := pow_lt hrr
          have hle : 10^r ≤ 10^r' - 1 := by have := hpos r; omega
          have hrel := Nat.add_le_add (Nat.mul_le_mul_right (10^(q'+r')) hle) hle
          have hrel' := hrel.trans (Nat.le_mul_of_pos_right _ hd)
          rw [← hqr] at hrel' ⊢
          simp only [zero_mul,zero_add,one_mul,add_zero,List.cons_lt_cons_iff]
          omega
        · exact absurd ⟨rfl,by omega,hrr⟩ hne
        · -- the later year, but the month of the current one is longer
          refine ⟨0,0,0,10^r - 1,0,0,1,0,⟨by omega,hpos p,hpos q,hnine r⟩,
            ⟨by omega,hpos p,hone hq',hpos r'⟩,?_⟩
          have hrr' := pow_lt hrr
          have hr₁ := hpos r'
          dsimp only
          intro hiff
          have hb := (hiff.mpr (by simp [List.cons_lt_cons_iff])).2.1
          simp only [zero_mul,zero_add,one_mul,add_zero] at hb
          omega
    · -- the later core, but the sub version of the current one is longer
      refine ⟨0,10^p - 1,0,0,1,0,0,0,⟨by omega,hnine p,hpos q,hpos r⟩,⟨by omega,hpos p',hpos q',hpos r'⟩,?_⟩
      have hpp' := pow_lt hpp
      have hp₁ := hpos p'
      dsimp only
      intro hiff
      have hc := (hiff.mpr (by simp [List.cons_lt_cons_iff])).1
      simp only [zero_mul,zero_add,one_mul,add_zero] at hc
      omega

/-- Among the versions of other widths there are always some that are compared wrongly. -/
theorem not_matches {v w : Version} (hv : v.releaseText.length ≤ 15) (hw : w.releaseText.length ≤ 15)
    (hm : ¬Matches v w) : ∃ v' w' : Version, v'.widths = v.widths ∧ w'.widths = w.widths ∧
      ¬(versionCompare v'.text w'.text = true ↔ v'.key < w'.key) := by
  have hzero : ∀ d : Digits, 0 < 10^d.text.length := fun d => by positivity
  by_cases hday : v.day.isNone ∧ w.day.isSome
  · obtain ⟨hvd,hwd⟩ := hday
    have hnone : v.day = none := Option.isNone_iff_eq_none.mp hvd
    have htail : ¬(v.sub.text.length = w.sub.text.length ∧ v.year.text.length = w.year.text.length ∧
        v.month.text.length = w.month.text.length) := by
      rintro ⟨h₁,h₂,h₃⟩
      exact hm (Or.inr ⟨hvd,hwd,by simp [Version.widths,Version.parts,Version.build,Version.days,hnone,h₁,h₂,h₃]⟩)
    have hlen : ∀ d : Digits, 0 < d.text.length := fun d => List.length_pos_iff.mpr d.ne
    have hone : ∀ (d : Digits) {c : ℕ}, c ≤ 1 → c < 10^d.text.length := fun d c hc =>
      lt_of_le_of_lt hc (Nat.one_lt_pow (hlen d).ne' (by norm_num))
    obtain ⟨c,s,y,m,c',s',y',m',⟨hc,hs,hy,hm⟩,⟨hc',hs',hy',hm'⟩,hwrong⟩ :=
      exists_wrong w.days.flatten.length (hlen v.year) (hlen w.sub) (hlen w.year) htail
    exact wrong_of hv hw hnone hwd (hone _ hc) hs hy hm (hone _ hc') hs' hy' hm' hwrong
  · -- All numbers zero: the texts differ, so that the later one is taken for newer.
    refine ⟨v.with 0 0 0 0,w.with 0 0 0 0,with_widths ..,with_widths ..,?_⟩
    have hne : (v.with 0 0 0 0).text ≠ (w.with 0 0 0 0).text := by
      intro ht
      have hp := congrArg (List.map List.length) (text_inj.mp ht)
      exact hm (Or.inl ((with_widths v 0 0 0 0).symm.trans (hp.trans (with_widths w 0 0 0 0))))
    obtain ⟨h₁,h₂,h₃⟩ := with_vals v (hzero _) (hzero _) (hzero _) (hzero _)
    obtain ⟨h₁',h₂',h₃'⟩ := with_vals w (hzero _) (hzero _) (hzero _) (hzero _)
    rw [with_compare hv hw hne,h₁,h₂,h₃,h₁',h₂',h₃',with_key v (hzero _) (hzero _) (hzero _) (hzero _),
      with_key w (hzero _) (hzero _) (hzero _) (hzero _)]
    cases hvd : v.day <;> cases hwd : w.day <;> simp_all

/-- A later version takes none of the three numbers down; one that is not later, and another text, takes one
of them down. -/
def Ordered (v w : Version) : Prop :=
  if v.key < w.key then looseGt v.coreText w.coreText = false ∧ looseGt v.buildText w.buildText = false ∧
    looseGt v.releaseText w.releaseText = false
  else v.text = w.text ∨ looseGt v.coreText w.coreText = true ∨ looseGt v.buildText w.buildText = true ∨
    looseGt v.releaseText w.releaseText = true

/-- Two versions are compared rightly exactly if what is written after each other is ordered as they are; all
versions of two given widths are, for up to fifteen digits, exactly if the widths match. -/
theorem versionCompare_iff (v w : Version) :
    ((versionCompare v.text w.text = true ↔ v.key < w.key) ↔ Ordered v w) ∧
    (v.releaseText.length ≤ 15 ∧ w.releaseText.length ≤ 15 →
      ((∀ v' w' : Version, v'.widths = v.widths → w'.widths = w.widths →
        (versionCompare v'.text w'.text = true ↔ v'.key < w'.key)) ↔ Matches v w)) := by
  constructor
  · rw [versionCompare_text,Ordered]
    split_ifs with hk
    · have hne : v.text ≠ w.text := fun h => by
        rw [Version.key,Version.key,text_inj.mp h] at hk
        exact List.lt_irrefl _ hk
      simp [hk,hne]
    · simp only [hk,iff_false]
      by_cases ht : v.text = w.text
      · simp [ht]
      · simp only [ht,false_or,not_and,ne_eq,not_false_eq_true,true_and,Bool.not_eq_false]
        cases looseGt v.coreText w.coreText <;> cases looseGt v.buildText w.buildText <;> simp
  · rintro ⟨hv,hw⟩
    constructor
    · intro h
      by_contra hm
      obtain ⟨v',w',hv',hw',hwrong⟩ := not_matches hv hw hm
      exact hwrong (h v' w' hv' hw')
    · intro hm v' w' hv' hw'
      exact matches_compare (release_length hv' ▸ hv) (release_length hw' ▸ hw) (hm.widths hv' hw')

def digitsOf (s : String) (h : Str.of s ≠ [] ∧ ∀ c ∈ Str.of s, digit c = true) : Digits :=
  ⟨Str.of s,h.1,h.2⟩

def november : Version where
  core := digitsOf "3" (by decide)
  sub := digitsOf "1" (by decide)
  year := digitsOf "08" (by decide)
  month := digitsOf "11" (by decide)
  day := some (digitsOf "18" (by decide))

def december : Version where
  core := digitsOf "3" (by decide)
  sub := digitsOf "1" (by decide)
  year := digitsOf "08" (by decide)
  month := digitsOf "12" (by decide)
  day := none

theorem versionCompare_iff_november :
    ((versionCompare november.text december.text = true ↔ november.key < december.key) ↔
      Ordered november december) ∧
    ((∀ v' w' : Version, v'.widths = november.widths → w'.widths = december.widths →
      (versionCompare v'.text w'.text = true ↔ v'.key < w'.key)) ↔ Matches november december) :=
  ⟨(versionCompare_iff november december).1,
    (versionCompare_iff november december).2 ⟨by decide,by decide⟩⟩

/-- A version of December without its day is later than one of November with a day, and is refused. -/
theorem versionCompare_fails :
    ¬(versionCompare november.text december.text = true ↔ november.key < december.key) := by
  have hshort : november.releaseText.length ≤ 15 ∧ december.releaseText.length ≤ 15 := by decide
  have hk : november.key < december.key := by decide
  rw [versionCompare_short hshort.1 hshort.2]
  exact fun h => absurd (h.mpr hk).2.2.2 (by decide)

end Versions
end Mybox
