import Mybox.LineText
import Mathlib.Algebra.Group.Int.Defs
import Mathlib.Algebra.Ring.Nat
import Mathlib.Data.Rat.Defs
import Mathlib.Tactic.Common

/-! The parts of the scripting language the service scripts rest on: strings, trimming,
`_NULL`, the lines of a file, and the loose equality of strings. -/
namespace Mybox

/-- Texts are strings of bytes, with a character for each; a literal stands for the bytes it is written in. -/
abbrev Str := List Char

def Str.of (s : String) : Str := s.toByteArray.data.toList.map fun b => Char.ofNat b.toNat

instance : Coe String Str := ⟨Str.of⟩

theorem utf8EncodeChar_ascii {c : Char} (h : c.toNat < 128) :
    (String.utf8EncodeChar c).map (fun b => Char.ofNat b.toNat) = [c] := by
  have hc : c.toNat ≤ 127 := Nat.le_of_lt_succ h
  have hn : c.toNat % 256 = c.toNat := Nat.mod_eq_of_lt (by omega)
  simp [String.utf8EncodeChar,hc,hn]

theorem Str.of_ascii {s : String} (h : s.toList.all fun c => c.toNat < 128) : Str.of s = s.toList := by
  obtain ⟨l,rfl⟩ : ∃ l, s = String.ofList l := ⟨s.toList,String.ofList_toList.symm⟩
  rw [String.toList_ofList] at h ⊢
  have hb : (l.flatMap String.utf8EncodeChar).toByteArray.data.toList = l.flatMap String.utf8EncodeChar := by simp
  rw [Str.of,String.toByteArray_ofList,List.utf8Encode,hb,List.map_flatMap]
  clear hb
  induction l with
  | nil => rfl
  | cons c l ih =>
    simp only [List.all_cons,Bool.and_eq_true,decide_eq_true_eq] at h
    rw [List.flatMap_cons,utf8EncodeChar_ascii h.1,ih h.2]
    rfl

namespace Php

/-- The characters `trim` strips by default. -/
def trimChar (c : Char) : Bool :=
  c = ' ' || c = '\t' || c = '\n' || c = '\r' || c = '\x00' || c = '\x0b'

/-- The characters `\s` stands for in a pattern; the vertical tab is not one of them. -/
def regexSpace (c : Char) : Bool :=
  c = ' ' || c = '\t' || c = '\n' || c = '\x0c' || c = '\r'

def trim (s : Str) : Str := LineText.strip trimChar s

/-- `trim` with a list of characters. -/
def trimWith (cs s : Str) : Str := LineText.strip (fun c => cs.contains c) s

/-- `_NULL` of a string. -/
def null (s : Str) : Bool := s.isEmpty

@[simp] theorem null_iff {s : Str} : null s = true ↔ s = [] := by simp [null]

@[simp] theorem null_false_iff {s : Str} : null s = false ↔ s ≠ [] := by simp [null]

/-- `_FILE` of a text: its trimmed lines, blank ones dropped. -/
def file (s : Str) : List Str := LineText.lines trimChar '\n' s

/-- `preg_split` at a single character. -/
def split (c : Char) (s : Str) : List Str := s.splitOn c

/-- The order `glob` and `ksort` list names in. -/
def nameLe : Str → Str → Bool
  | [], _ => true
  | _::_, [] => false
  | a::s, b::t => a.toNat < b.toNat || (a = b && nameLe s t)

def lower (s : Str) : Str := s.map Char.toLower

@[simp] theorem trim_nil : trim [] = [] := rfl

theorem trim_eq_nil {s : Str} : trim s = [] ↔ ∀ c ∈ s, trimChar c = true := by
  unfold trim LineText.strip
  rw [List.rdropWhile_eq_nil_iff]
  constructor
  · intro h c hc
    rw [← List.takeWhile_append_dropWhile (p := trimChar) (l := s)] at hc
    rcases List.mem_append.mp hc with hc | hc
    · exact List.mem_takeWhile_imp hc
    · exact h c hc
  · exact fun h c hc => h c ((List.dropWhile_sublist _).mem hc)

@[simp] theorem trim_trim (s : Str) : trim (trim s) = trim s := LineText.strip_strip trimChar s

theorem file_trim (s : Str) : file (trim s) = file s :=
  LineText.lines_strip trimChar '\n' (fun _ => Or.inl) s

theorem file_line {s : Str} (h : '\n' ∉ s) (t : Str) :
    file (s ++ '\n' :: t) = (if trim s = [] then [] else [trim s]) ++ file t :=
  LineText.lines_line trimChar '\n' h t

theorem mem_file {s l : Str} (h : l ∈ file s) : l ≠ [] ∧ trim l = l ∧ '\n' ∉ l :=
  LineText.mem_lines trimChar '\n' h

-- Loose equality: two numeric strings are compared as numbers, any other two as text.
def digit (c : Char) : Bool := '0' ≤ c && c ≤ '9'

def decimal (n : ℕ) : Str := Nat.toDigits 10 n

theorem digit_decimal (n : ℕ) : ∀ c ∈ decimal n, digit c = true := by
  intro c hc
  have h : c.isDigit = true := Nat.isDigit_of_mem_toDigits (by decide) (by decide) hc
  simpa [digit,Char.isDigit,Char.le_def] using h

theorem decimal_ne (n : ℕ) : decimal n ≠ [] := Nat.toDigits_ne_nil

theorem decimal_injective : Function.Injective decimal := fun m n h => by
  rw [← Nat.ofDigitChars_ten_toDigits (n := m),← Nat.ofDigitChars_ten_toDigits (n := n)]
  exact congrArg (fun ds => Nat.ofDigitChars 10 ds 0) h

def hexDigit (c : Char) : Bool := digit c || ('a' ≤ c && c ≤ 'f') || ('A' ≤ c && c ≤ 'F')

def digitVal (c : Char) : Nat :=
  if digit c then c.toNat - 48 else if 'a' ≤ c then c.toNat - 87 else c.toNat - 55

def digitsVal (base : Nat) (ds : Str) : Nat := ds.foldl (fun n c => base*n + digitVal c) 0

/-- A signed fraction. -/
structure Number where
  neg : Bool
  num : Nat
  den : Nat

/-- An optional exponent: its sign and digits, and what follows. -/
def scanExponent : Str → (Bool × Nat) × Str
  | c::s =>
    let sign := s.head? = some '-'
    let t := if s.head? = some '-' ∨ s.head? = some '+' then s.tail else s
    let ds := t.takeWhile digit
    if (c = 'e' ∨ c = 'E') ∧ ds ≠ [] then ((sign,digitsVal 10 ds),t.dropWhile digit)
    else ((false,0),c::s)
  | [] => ((false,0),[])

def scanDecimal (neg : Bool) (s : Str) : Option (Number × Str) :=
  let ip := s.takeWhile digit
  let r := s.dropWhile digit
  let fp := if r.head? = some '.' then r.tail.takeWhile digit else []
  if ip = [] ∧ fp = [] then none else
  let e := scanExponent (if r.head? = some '.' then r.tail.dropWhile digit else r)
  let m := digitsVal 10 (ip ++ fp)
  some (if e.1.1 then ⟨neg,m,10^(fp.length + e.1.2)⟩ else ⟨neg,m*10^e.1.2,10^fp.length⟩,e.2)

/-- The number a string starts with, after blanks, and what follows it. -/
def scanNumber (s : Str) : Option (Number × Str) :=
  match s.dropWhile (fun c => regexSpace c || c = '\x0b') with
  | '0'::x::h::r =>
    if (x = 'x' ∨ x = 'X') ∧ hexDigit h then
      some (⟨false,digitsVal 16 ((h::r).takeWhile hexDigit),1⟩,r.dropWhile hexDigit)
    else scanDecimal false ('0'::x::h::r)
  | '-'::r => scanDecimal true r
  | '+'::r => scanDecimal false r
  | r => scanDecimal false r

/-- The value of a string that is a number as a whole. -/
def numeric (s : Str) : Option Number :=
  match scanNumber s with
  | some (x,[]) => some x
  | _ => none

def roundHalfEven (n d : Nat) : Nat :=
  let q := n/d
  let r := 2*(n%d)
  if r < d ∨ (r = d ∧ q%2 = 0) then q else q + 1

/-- A double: zero, a significand and a power of two, or an infinity. -/
inductive Double
  | zero
  | finite (neg : Bool) (m : Nat) (e : Int)
  | infinite (neg : Bool)
  deriving DecidableEq

def toDouble (x : Number) : Double :=
  if x.num = 0 then .zero else
  let g : Int := x.num.log2 - x.den.log2
  -- the quotient lies in [2^(g-1),2^(g+1))
  let k := if x.den*2^g.toNat ≤ x.num*2^(-g).toNat then g else g - 1
  let e := max (k - 52) (-1074)
  let m := roundHalfEven (x.num*2^(-e).toNat) (x.den*2^e.toNat)
  if m = 0 then .zero
  else if m = 2^53 then (if e ≥ 971 then .infinite x.neg else .finite x.neg (2^52) (e + 1))
  else if e > 971 then .infinite x.neg
  else .finite x.neg m e

/-- `==` on two strings. -/
def looseEq (a b : Str) : Bool :=
  match numeric a, numeric b with
  | some x, some y =>
    match toDouble x, toDouble y with
    | .infinite n, .infinite n' => if n = n' then a = b else false
    | u, v => u = v
  | _, _ => a = b

/-- `==` between a string and the number zero. -/
def looseZero (s : Str) : Bool :=
  match scanNumber s with
  | some (x,_) => toDouble x = .zero
  | none => true

/-- `==` between a string and the number one. -/
def looseOne (s : Str) : Bool :=
  match scanNumber s with
  | some (x,_) => toDouble x = toDouble ⟨false,1,1⟩
  | none => false

def toNumber (s : Str) : ℚ :=
  match scanNumber s with
  | some (x,_) => (if x.neg then -(x.num : ℚ) else x.num)/x.den
  | none => 0

@[simp] theorem looseEq_self (a : Str) : looseEq a a = true := by
  unfold looseEq
  cases numeric a with
  | none => simp
  | some x =>
    cases h : toDouble x <;> simp [h]

theorem looseEq_text {b : Str} (h : numeric b = none) (a : Str) : looseEq a b = decide (a = b) := by
  unfold looseEq
  rw [h]
  cases numeric a <;> rfl

theorem looseEq_comm (a b : Str) : looseEq a b = looseEq b a := by
  have hs : ∀ {α : Type} [DecidableEq α] (x y : α), decide (x = y) = decide (y = x) := by
    intro α _ x y; exact decide_eq_decide.mpr eq_comm
  unfold looseEq
  cases numeric a with
  | none => cases numeric b <;> simp [hs a b]
  | some x =>
    cases numeric b with
    | none => simp [hs a b]
    | some y =>
      cases hx : toDouble x <;> cases hy : toDouble y <;> simp [hx,hy,hs a b,eq_comm,and_comm]

/-- No character of the text is special in a pattern or in a replacement. -/
def Literal (s : Str) : Prop := ∀ c ∈ s, c ∉ "\\^$.[|()?*+\x7b/".toList

instance (s : Str) : Decidable (Literal s) := inferInstanceAs (Decidable (∀ c ∈ s, _))

/-- What a name means as a pattern is left to the engine, except for a name without
special characters, which stands for itself. -/
structure Pcre where
  /-- `preg_match("/^$_key=$_name$/",$_line)` -/
  isMatch : Str → Str → Str → Bool
  /-- `preg_replace("/$_name/",$_newname,$_line)` -/
  replace : Str → Str → Str → Str
  isMatch_literal : ∀ key name line, Literal name → '\n' ∉ line →
    isMatch key name line = decide (line = key ++ '=' :: name)
  replace_literal : ∀ name new line, Literal name → name ≠ [] → Literal new →
    replace name new line = LineText.replaceAll name new line

def Pcre.plain : Pcre where
  isMatch key name line := decide (line = key ++ '=' :: name)
  replace := LineText.replaceAll
  isMatch_literal _ _ _ _ _ := rfl
  replace_literal _ _ _ _ _ _ := rfl

end Php
end Mybox
