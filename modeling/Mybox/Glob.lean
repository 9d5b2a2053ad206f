import Mathlib.Data.List.Infix
import Mathlib.Tactic.Common

/-! File names found by a pattern: alternatives in braces first, then in each of the patterns `*`, `?`, sets in
brackets and quoted characters. -/
namespace Mybox
namespace Glob

abbrev Text := List Char

/-- The alternatives up to the closing brace, and what follows it. -/
def alternatives : ℕ → Text → Text → Option (List Text × Text)
  | _, _, [] => none
  | 0, a, '}'::s => some ([a],s)
  | 0, a, ','::s => (alternatives 0 [] s).map fun r => (a::r.1,r.2)
  | n+1, a, '}'::s => alternatives n (a ++ ['}']) s
  | n, a, '{'::s => alternatives (n+1) (a ++ ['{']) s
  | n, a, c::s => alternatives n (a ++ [c]) s

/-- The first opening brace; a quoted one and one that is closed at once are none. -/
def brace : Text → Option (Text × Text)
  | [] => none
  | '\\'::c::s => (brace s).map fun r => ('\\'::c::r.1,r.2)
  | '{':: '}'::s => (brace s).map fun r => ('{':: '}'::r.1,r.2)
  | '{'::s => some ([],s)
  | c::s => (brace s).map fun r => (c::r.1,r.2)

/-- The patterns without braces that a pattern stands for, for so many braces. -/
def expand : ℕ → Text → List Text
  | 0, p => [p]
  | n+1, p =>
    match brace p with
    | none => [p]
    | some (b,s) =>
      match alternatives 0 [] s with
      | none => [p]
      | some (as,t) => as.flatMap fun a => expand n (b ++ a ++ t)

inductive Item
  | star
  | one
  | char (c : Char)
  | set (neg : Bool) (ranges : List (Char × Char))

def rangesOf : Text → List (Char × Char)
  | [] => []
  | a:: '-'::b::s => (a,b)::rangesOf s
  | a::s => (a,a)::rangesOf s

/-- What stands in a set and what follows it; a bracket right at the beginning does not close it. -/
def bracket : Text → Option (Text × Text)
  | [] => none
  | c::s => if ']' ∈ s then some (c::s.takeWhile (· ≠ ']'),(s.dropWhile (· ≠ ']')).tail) else none

def setOf : Text → Item
  | '!'::s => .set true (rangesOf s)
  | '^'::s => .set true (rangesOf s)
  | s => .set false (rangesOf s)

/-- A bracket that is not closed stands for itself. -/
def items : ℕ → Text → List Item
  | 0, _ => []
  | _, [] => []
  | n+1, '*'::s => .star::items n s
  | n+1, '?'::s => .one::items n s
  | n+1, '\\'::c::s => .char c::items n s
  | n+1, '['::s =>
    match bracket s with
    | some (b,t) => setOf b::items n t
    | none => .char '['::items n s
  | n+1, c::s => .char c::items n s

def Item.holds (c : Char) : Item → Bool
  | .star => false
  | .one => true
  | .char d => d = c
  | .set neg rs => (rs.any fun r => r.1 ≤ c && c ≤ r.2) ≠ neg

def fnmatch : List Item → Text → Bool
  | [], s => s.isEmpty
  | .star::p, s => s.tails.any (fnmatch p)
  | _::_, [] => false
  | i::p, c::s => i.holds c && fnmatch p s

def shown (p : List Item) (s : Text) : Bool :=
  match p, s with
  | .char _::_, _ => true
  | _, '.'::_ => false
  | _, _ => true

/-- Whether a name in a directory is found by a pattern for that directory. -/
def finds (p s : Text) : Bool :=
  (expand p.length p).any fun q => !q.contains '/' && shown (items q.length q) s && fnmatch (items q.length q) s

def Plain (w : Text) : Prop := ∀ c ∈ w, c ∉ ['*','?','[','\\','{','/']

theorem Plain.nil : Plain [] := fun _ hc => absurd hc (by simp)

theorem Plain.cons {c : Char} {w : Text} (h : Plain (c::w)) : c ∉ ['*','?','[','\\','{','/'] ∧ Plain w :=
  ⟨h c (by simp),fun d hd => h d (by simp [hd])⟩

theorem brace_cons {c : Char} {s : Text} (h : c ∉ ['*','?','[','\\','{','/'] ∨ c = '*') (hs : brace s = none) :
    brace (c::s) = none := by
  have hc : c ≠ '\\' ∧ c ≠ '{' := by
    rcases h with h | rfl
    · simp only [List.mem_cons,not_or] at h
      exact ⟨h.2.2.2.1,h.2.2.2.2.1⟩
    · decide
  rw [brace,hs]
  · rfl
  · rintro d s rfl
    exact absurd rfl hc.1
  · rintro s rfl
    exact absurd rfl hc.2
  · rintro rfl
    exact absurd rfl hc.2

theorem brace_plain {w : Text} (h : Plain w) {s : Text} (hs : brace s = none) : brace (w ++ s) = none := by
  induction w with
  | nil => exact hs
  | cons c w ih => exact brace_cons (Or.inl h.cons.1) (ih h.cons.2)

theorem expand_plain {w v : Text} (hw : Plain w) (hv : Plain v) (n : ℕ) :
    expand n (w ++ '*'::v) = [w ++ '*'::v] := by
  have hb : brace v = none := List.append_nil v ▸ brace_plain hv rfl
  cases n with
  | zero => rfl
  | succ n => rw [expand,brace_plain hw (brace_cons (Or.inr rfl) hb)]

theorem items_plain {w : Text} (h : Plain w) (s : Text) :
    items (w ++ s).length (w ++ s) = w.map .char ++ items s.length s := by
  induction w with
  | nil => rfl
  | cons c w ih =>
    have hc := h.cons.1
    simp only [List.mem_cons,not_or] at hc
    obtain ⟨h₁,h₂,h₃,h₄,-⟩ := hc
    rw [List.cons_append,List.length_cons,items,ih h.cons.2]
    · rfl
    · rintro rfl
      exact absurd rfl h₁
    · rintro rfl
      exact absurd rfl h₂
    · rintro d s rfl
      exact absurd rfl h₄
    · rintro rfl
      exact absurd rfl h₃

theorem fnmatch_chars (v s : Text) : fnmatch (v.map .char) s = true ↔ s = v := by
  induction v generalizing s with
  | nil => simp [fnmatch]
  | cons c v ih =>
    cases s with
    | nil => simp [fnmatch]
    | cons d s =>
      rw [List.map_cons,fnmatch,Bool.and_eq_true,ih,Item.holds,decide_eq_true_iff,List.cons_eq_cons,eq_comm]
      exact Item.noConfusion

theorem fnmatch_plain (w v s : Text) :
    fnmatch (w.map .char ++ .star::v.map .char) s = true ↔ ∃ t, s = w ++ t ++ v := by
  induction w generalizing s with
  | nil =>
    rw [List.map_nil,List.nil_append,fnmatch,List.any_eq_true]
    constructor
    · rintro ⟨u,hu,hm⟩
      obtain ⟨t,rfl⟩ := (List.mem_tails _ _).mp hu
      exact ⟨t,by rw [(fnmatch_chars v u).mp hm,List.nil_append]⟩
    · rintro ⟨t,rfl⟩
      exact ⟨v,(List.mem_tails _ _).mpr ⟨t,rfl⟩,(fnmatch_chars v v).mpr rfl⟩
  | cons c w ih =>
    cases s with
    | nil => simp [fnmatch]
    | cons d s =>
      simp only [List.map_cons,List.cons_append,fnmatch,Item.holds,Bool.and_eq_true,decide_eq_true_iff,ih,
        List.cons.injEq,exists_and_left]
      rw [eq_comm]

/-- A plain text, a star and a plain text find the names that begin and end with these texts. -/
theorem finds_around {w v : Text} (hw : Plain w) (hv : Plain v) (hne : w ≠ []) (s : Text) :
    finds (w ++ '*'::v) s = true ↔ ∃ t, s = w ++ t ++ v := by
  obtain ⟨c,r,rfl⟩ := List.exists_cons_of_ne_nil hne
  have hs : '/' ∉ (c::r) ++ '*'::v := by
    intro hm
    rcases List.mem_append.mp hm with hm | hm
    · exact hw _ hm (by simp)
    · rcases List.mem_cons.mp hm with hm | hm
      · exact absurd hm (by decide)
      · exact hv _ hm (by simp)
  have hc : ((c::r ++ '*'::v).contains '/') = false := by simpa using hs
  have hi : items (c::r ++ '*'::v).length (c::r ++ '*'::v) = (c::r).map .char ++ .star::v.map .char := by
    have hv' := items_plain hv []
    rw [List.append_nil,List.length_nil] at hv'
    rw [items_plain hw,List.length_cons,items,hv',items,List.append_nil]
  rw [finds,expand_plain hw hv,List.any_cons,List.any_nil,hi,Bool.or_false,Bool.and_eq_true,Bool.and_eq_true,
    fnmatch_plain,hc]
  simp [shown]

/-- A plain text and a star find the names that begin with the text. -/
theorem finds_plain {w : Text} (h : Plain w) (hne : w ≠ []) (s : Text) :
    finds (w ++ ['*']) s = true ↔ w <+: s := by
  rw [finds_around h Plain.nil hne]
  constructor
  · rintro ⟨t,rfl⟩
    exact ⟨t,(List.append_nil _).symm⟩
  · rintro ⟨t,rfl⟩
    exact ⟨t,(List.append_nil _).symm⟩

end Glob
end Mybox
