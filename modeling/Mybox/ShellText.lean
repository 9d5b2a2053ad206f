import Mathlib.Algebra.GroupWithZero.Nat
import Mathlib.Data.List.Infix
import Mathlib.Data.List.DropRight
import Mathlib.Tactic.Common

/-! What a shell reads in a text: the words, cut at blanks, with the quotes taken away. A text with an operator in it is
more than one command with its words, and a word that is a pattern becomes what the shell finds for it. -/
namespace Mybox
namespace ShellText

/-- In what the reader is: `escaped` is behind a backslash, `half` behind one between double quotes. -/
inductive Mode
  | free
  | single
  | double
  | escaped
  | half
  | comment
  deriving DecidableEq

/-- A word as it is read; in `bare` there is a letter for each character that is quoted. -/
structure Word where
  text : List Char
  bare : List Char
  deriving DecidableEq

def blank (c : Char) : Bool := c = ' ' || c = '\t'

/-- What ends a command, goes on to the next one, moves its input or output or is replaced by something else. -/
def control (c : Char) : Bool := c ∈ ['\n','&','|',';','<','>','(',')','$','\x60']

def quoting (c : Char) : Bool := c ∈ ['\\','\'','"']

def begin (w : Option Word) : Word := w.getD ⟨[],[]⟩

def Word.add (w : Word) (c : Char) : Word := ⟨w.text ++ [c],w.bare ++ [c]⟩

def Word.addQuoted (w : Word) (c : Char) : Word := ⟨w.text ++ [c],w.bare ++ ['a']⟩

/-- The words from here on, where `w` is begun. A backslash that nothing follows stays, unquoted. -/
def scan : Mode → Option Word → List Char → Option (List Word)
  | .free, w, [] => some w.toList
  | .comment, w, [] => some w.toList
  | .escaped, w, [] => some [(begin w).add '\\']
  | .single, _, [] => none
  | .double, _, [] => none
  | .half, _, [] => none
  | .free, w, c::s =>
    if blank c then (scan .free none s).map (w.toList ++ ·)
    else if control c then none
    else if c = '#' ∧ w.isNone then scan .comment none s
    else if c = '\'' then scan .single (begin w) s
    else if c = '"' then scan .double (begin w) s
    else if c = '\\' then scan .escaped w s
    else scan .free ((begin w).add c) s
  | .single, w, c::s => if c = '\'' then scan .free (begin w) s else scan .single ((begin w).addQuoted c) s
  | .double, w, c::s =>
    if c = '"' then scan .free (begin w) s
    else if c = '$' ∨ c = '\x60' then none
    else if c = '\\' then scan .half w s
    else scan .double ((begin w).addQuoted c) s
  | .escaped, w, c::s => if c = '\n' then scan .free w s else scan .free ((begin w).addQuoted c) s
  | .half, w, c::s =>
    if c = '\n' then scan .double w s
    else if c ∈ ['$','\x60','"','\\'] then scan .double ((begin w).addQuoted c) s
    else scan .double (((begin w).addQuoted '\\').addQuoted c) s
  | .comment, w, c::s => if c = '\n' then none else scan .comment w s

/-- `o` with a `c` somewhere behind it. -/
def pair (o c : Char) (s : List Char) : Bool := (s.dropWhile (· ≠ o)).contains c

/-- A pattern for names, a home directory, a list in braces, or an unpaired backslash: what becomes of such a word is
up to the shell, and to the files and users it finds. -/
def unsettled (s : List Char) : Bool :=
  s.contains '*' || s.contains '?' || pair '[' ']' s || s.head? = some '~' ||
    (pair '\x7b' '\x7d' s && (s.contains ',' || decide (['.','.'] <:+: s))) || s.contains '\\'

/-- The words of the one command that the text is, with `expand` for what becomes of words that are not settled. -/
def fields (expand : List Char → List (List Char)) (text : List Char) : Option (List (List Char)) :=
  (scan .free none text).map fun ws => ws.flatMap fun w => if unsettled w.bare then expand w.text else [w.text]

/-- Words of the shell's own that are no program where a command starts. -/
def reserved : List (List Char) :=
  ["!","\x7b","\x7d","case","do","done","elif","else","esac","fi","for","if","in","then","until","while"].map String.toList

def Names (argv : List (List Char)) : Prop := ∃ p as, argv = p::as ∧ '=' ∉ p ∧ p ∉ reserved

/-- For the text a shell runs the program with the arguments, and does nothing else, whatever it finds. -/
def RunsJust (text : List Char) (argv : List (List Char)) : Prop := Names argv ∧ ∀ expand, fields expand text = some argv

/-- A word that stands for itself. -/
structure Plain (a : List Char) : Prop where
  ne : a ≠ []
  ordinary : ∀ c ∈ a, blank c = false ∧ control c = false ∧ quoting c = false
  head : a.head? ≠ some '#'
  settled : unsettled a = false

-- What is no blank of a text comes into its words at most once, and quoting takes something away.
def ink (s : List Char) : ℕ := s.countP fun c => !blank c

def weight (ws : List Word) : ℕ := (ws.map fun w => ink w.text).sum

def held : Mode → ℕ
  | .escaped => 1
  | .half => 1
  | .free | .single | .double | .comment => 0

theorem ink_append (s t : List Char) : ink (s ++ t) = ink s + ink t := List.countP_append

theorem ink_cons (c : Char) (s : List Char) : ink (c::s) = ink [c] + ink s := ink_append [c] s

theorem ink_of_blank {c : Char} (h : blank c = true) : ink [c] = 0 := by simp [ink,h]

theorem ink_of_not_blank {c : Char} (h : blank c = false) : ink [c] = 1 := by simp [ink,h]

theorem weight_toList (w : Option Word) : weight w.toList = ink (begin w).text := by
  cases w <;> simp [weight,begin,ink]

theorem weight_append (us vs : List Word) : weight (us ++ vs) = weight us + weight vs := by simp [weight]

theorem weight_add (w : Option Word) (c : Char) : weight (some ((begin w).add c)).toList = weight w.toList + ink [c] := by
  rw [weight_toList,weight_toList]
  exact ink_append _ _

theorem weight_addQuoted (w : Option Word) (c : Char) :
    weight (some ((begin w).addQuoted c)).toList = weight w.toList + ink [c] := weight_add w c

theorem weight_begin (w : Option Word) : weight (some (begin w)).toList = weight w.toList := by
  rw [weight_toList,weight_toList]
  rfl

theorem weight_none : weight (none : Option Word).toList = 0 := rfl

theorem scan_weight {m : Mode} {w : Option Word} {s : List Char} {ws : List Word} (h : scan m w s = some ws) :
    weight ws ≤ weight w.toList + ink s + held m := by
  induction s generalizing m w ws with
  | nil =>
    cases m with
    | free | comment =>
      cases h
      exact Nat.le_add_right _ _
    | escaped =>
      cases h
      exact (weight_add w '\\').le
    | single | double | half => cases h
  | cons c s ih =>
    rw [ink_cons]
    cases m with
    | free =>
      rw [scan] at h
      split at h
      next hb =>
        obtain ⟨vs,hv,rfl⟩ := Option.map_eq_some_iff.mp h
        have := ih hv
        rw [weight_none,held] at this
        rw [weight_append]
        omega
      next hb =>
        have hc := ink_of_not_blank (Bool.eq_false_iff.mpr hb)
        split_ifs at h
        all_goals
          have := ih h
          simp only [weight_none,weight_begin,weight_add,held] at this
          omega
    | half =>
      have hh : held .half = 1 := rfl
      rw [scan] at h
      split_ifs at h
      · have : weight ws ≤ weight w.toList + ink s := ih h
        omega
      · have : weight ws ≤ weight (some ((begin w).addQuoted c)).toList + ink s := ih h
        rw [weight_addQuoted] at this
        omega
      · have : weight ws ≤ weight (some ((begin (some ((begin w).addQuoted '\\'))).addQuoted c)).toList + ink s := ih h
        rw [weight_addQuoted,weight_addQuoted,show ink ['\\'] = 1 from rfl] at this
        omega
    | double =>
      rw [scan] at h
      split_ifs at h with hq hd hb
      · have : weight ws ≤ weight (some (begin w)).toList + ink s := ih h
        rw [weight_begin] at this
        omega
      · have : weight ws ≤ weight w.toList + ink s + 1 := ih h
        rw [hb,show ink ['\\'] = 1 from rfl]
        omega
      · have : weight ws ≤ weight (some ((begin w).addQuoted c)).toList + ink s := ih h
        rw [weight_addQuoted] at this
        omega
    | single | escaped | comment =>
      rw [scan] at h
      split_ifs at h
      all_goals
        have := ih h
        simp only [weight_begin,weight_addQuoted,held] at this
        omega

/-- A word that is read as it stands, but for a backslash left at the end. -/
structure Word.Read (w : Word) : Prop where
  bare : w.bare = w.text
  ne : w.text ≠ []
  ordinary : ∀ c ∈ w.text, blank c = false ∧ control c = false ∧ (quoting c = true → c = '\\')
  head : w.text.head? ≠ some '#'

theorem Word.Read.add {w : Option Word} {c : Char} (h : ∀ v ∈ w, v.Read)
    (hc : blank c = false ∧ control c = false ∧ (quoting c = true → c = '\\')) (hw : ¬(c = '#' ∧ w.isNone)) :
    ((begin w).add c).Read := by
  cases w with
  | none => exact ⟨rfl,by simp [begin,Word.add],by simpa [begin,Word.add] using hc,by simpa [begin,Word.add] using hw⟩
  | some v =>
    have hv := h v rfl
    refine ⟨congrArg (· ++ [c]) hv.bare,by simp [begin,Word.add],?_,?_⟩
    · intro d hd
      rcases List.mem_append.mp hd with hd | hd
      · exact hv.ordinary d hd
      · rw [List.mem_singleton.mp hd]
        exact hc
    · change (v.text ++ [c]).head? ≠ _
      rw [List.head?_append_of_ne_nil _ hv.ne]
      exact hv.head

/-- Where nothing of the text is lost, its words are read as they stand. -/
theorem scan_read {w : Option Word} {s : List Char} {ws : List Word} (hw : ∀ v ∈ w, v.Read) (h : scan .free w s = some ws)
    (he : weight w.toList + ink s ≤ weight ws) : ∀ v ∈ ws, v.Read := by
  induction s generalizing w ws with
  | nil =>
    cases h
    simpa using hw
  | cons c s ih =>
    rw [ink_cons] at he
    rw [scan] at h
    split at h
    next hb =>
      obtain ⟨vs,hv,rfl⟩ := Option.map_eq_some_iff.mp h
      rw [weight_append,ink_of_blank hb] at he
      intro v hm
      rcases List.mem_append.mp hm with hm | hm
      · exact hw v (by simpa using hm)
      · exact ih (by simp) hv (by rw [weight_none]; omega) v hm
    next hb =>
      have hi := ink_of_not_blank (Bool.eq_false_iff.mpr hb)
      -- behind a quote the rest cannot make up for it
      split_ifs at h with hc hh hq hd hs
      · have : weight ws ≤ weight (none : Option Word).toList + ink s := scan_weight h
        rw [weight_none] at this
        omega
      · have : weight ws ≤ weight (some (begin w)).toList + ink s := scan_weight h
        rw [weight_begin] at this
        omega
      · have : weight ws ≤ weight (some (begin w)).toList + ink s := scan_weight h
        rw [weight_begin] at this
        omega
      · have hn : ¬(c = '#' ∧ w.isNone) := by simp [hs]
        rw [hs] at hb hn
        cases s with
        | nil =>
          cases h
          simpa using Word.Read.add hw ⟨rfl,rfl,fun _ => rfl⟩ hn
        | cons d s =>
          rw [scan] at h
          rw [ink_cons d s] at he
          split at h
          · have : weight ws ≤ weight w.toList + ink s := scan_weight h
            omega
          · have : weight ws ≤ weight (some ((begin w).addQuoted d)).toList + ink s := scan_weight h
            rw [weight_addQuoted] at this
            omega
      · refine ih ?_ h ?_
        · intro v hv
          obtain rfl : _ = v := Option.mem_some_iff.mp hv
          exact .add hw ⟨Bool.eq_false_iff.mpr hb,Bool.eq_false_iff.mpr hc,by simp [quoting,hq,hd,hs]⟩ hh
        · rw [weight_add]
          omega

theorem not_quote {c : Char} (h : quoting c = false) : c ≠ '\'' ∧ c ≠ '"' ∧ c ≠ '\\' := by
  simp only [quoting,decide_eq_false_iff_not,List.mem_cons,not_or] at h
  exact ⟨h.2.1,h.2.2.1,h.1⟩

/-- Words that have nothing of quotes or operators are read as they stand. -/
theorem scan_plain {a : List Char} (h : ∀ c ∈ a, blank c = false ∧ control c = false ∧ quoting c = false) (v : Word)
    (s : List Char) : scan .free (some v) (a ++ s) = scan .free (some ⟨v.text ++ a,v.bare ++ a⟩) s := by
  induction a generalizing v with
  | nil => simp
  | cons c a ih =>
    obtain ⟨⟨hb,hc,hq⟩,h⟩ := List.forall_mem_cons.mp h
    have hn := not_quote hq
    rw [List.cons_append,scan]
    simp only [hb,hc,hn,Option.isNone_some,and_false,Bool.false_eq_true,if_false]
    rw [ih h]
    simp [begin,Word.add]

theorem scan_word {a : List Char} (h : Plain a) (s : List Char) :
    scan .free none (a ++ s) = scan .free (some ⟨a,a⟩) s := by
  obtain ⟨hne,ho,hh,-⟩ := h
  cases a with
  | nil => exact absurd rfl hne
  | cons c a =>
    obtain ⟨⟨hb,hc,hq⟩,ho⟩ := List.forall_mem_cons.mp ho
    have hn := not_quote hq
    have hh' : c ≠ '#' := by simpa using hh
    rw [List.cons_append,scan]
    simp only [hb,hc,hn,hh',false_and,Bool.false_eq_true,if_false]
    rw [scan_plain ho]
    rfl

theorem scan_newline (m : Mode) (w : Option Word) (s : List Char) : scan m w (s ++ [' ','\n']) = none := by
  induction s generalizing m w with
  | nil => cases m <;> simp [scan,blank,control]
  | cons c s ih => cases m <;> simp [scan,ih]

def join (argv : List (List Char)) : List Char := [' '].intercalate argv

def inkAll (argv : List (List Char)) : ℕ := (argv.map ink).sum

theorem ink_join (argv : List (List Char)) : ink (join argv) = inkAll argv := by
  induction argv with
  | nil => rfl
  | cons a as ih =>
    cases as with
    | nil => simp [join,inkAll]
    | cons b bs =>
      rw [join,List.intercalate_cons_cons,ink_append,ink_append,show ink [' '] = 0 from rfl,
        show ink ([' '].intercalate (b::bs)) = _ from ih]
      simp [inkAll]

theorem scan_join {argv : List (List Char)} (h : ∀ a ∈ argv, Plain a) :
    scan .free none (join argv) = some (argv.map fun a => ⟨a,a⟩) := by
  induction argv with
  | nil => rfl
  | cons a as ih =>
    obtain ⟨ha,has⟩ := List.forall_mem_cons.mp h
    cases as with
    | nil =>
      have := scan_word ha []
      rw [List.append_nil] at this
      rw [join,List.intercalate_singleton,this]
      rfl
    | cons b bs =>
      rw [join,List.intercalate_cons_cons,List.append_assoc,scan_word ha,List.singleton_append,scan]
      simp only [show blank ' ' = true from rfl,if_true]
      rw [show scan .free none ([' '].intercalate (b::bs)) = _ from ih has]
      rfl

theorem fields_self {text : List Char} {ws : List Word} (h : scan .free none text = some ws) :
    fields (fun a => [a]) text = some (ws.map Word.text) := by
  simp [fields,h,← List.map_eq_flatMap]

theorem length_doubled {α β : Type} (p : α → Bool) (g : α → β) (ws : List α) :
    (ws.flatMap fun w => if p w then [g w,g w] else [g w]).length = ws.length + ws.countP p := by
  induction ws with
  | nil => rfl
  | cons w ws ih =>
    rw [List.flatMap_cons,List.length_append,ih,List.countP_cons,List.length_cons]
    split <;> simp <;> omega

theorem RunsJust.scanned {text : List Char} {argv : List (List Char)} (h : RunsJust text argv) :
    ∃ ws, scan .free none text = some ws ∧ ws.map Word.text = argv ∧ ∀ w ∈ ws, unsettled w.bare = false := by
  obtain ⟨ws,hws,-⟩ := Option.map_eq_some_iff.mp (h.2 fun a => [a])
  have hs := fields_self hws
  have ht : ws.map Word.text = argv := Option.some.inj (hs.symm.trans (h.2 _))
  refine ⟨ws,hws,ht,?_⟩
  -- two names might be found for each pattern
  have hd := h.2 fun a => [a,a]
  rw [fields,hws,Option.map_some,← ht] at hd
  have hl := congrArg List.length (Option.some.inj hd)
  rw [length_doubled (fun w : Word => unsettled w.bare),List.length_map] at hl
  have hz : ws.countP (fun w => unsettled w.bare) = 0 := by omega
  exact fun w hw => Bool.eq_false_iff.mpr (List.countP_eq_zero.mp hz w hw)

theorem RunsJust.inkAll_le {text : List Char} {argv : List (List Char)} (h : RunsJust text argv) : inkAll argv ≤ ink text := by
  obtain ⟨ws,hws,rfl,-⟩ := h.scanned
  have : weight ws ≤ weight (none : Option Word).toList + ink text := scan_weight hws
  rw [weight_none,Nat.zero_add] at this
  rwa [inkAll,List.map_map]

theorem RunsJust.plain {text : List Char} {argv : List (List Char)} (h : RunsJust text argv) (he : ink text ≤ inkAll argv) :
    ∀ a ∈ argv, Plain a := by
  obtain ⟨ws,hws,rfl,hu⟩ := h.scanned
  rw [inkAll,List.map_map] at he
  have hr := scan_read (w := none) (by simp) hws (by rwa [weight_none,Nat.zero_add])
  intro a ha
  obtain ⟨w,hw,rfl⟩ := List.mem_map.mp ha
  have hrw := hr w hw
  have hs := hu w hw
  rw [hrw.bare] at hs
  refine ⟨hrw.ne,fun c hc => ?_,hrw.head,hs⟩
  obtain ⟨hb,hco,hq⟩ := hrw.ordinary c hc
  refine ⟨hb,hco,Bool.eq_false_iff.mpr fun hq' => ?_⟩
  rw [hq hq'] at hc
  simp [unsettled,hc] at hs

/-- A text made of a program's words with blanks between them runs just the program with the words if and only if each
of them is plain. -/
theorem runsJust_join {argv : List (List Char)} (hn : Names argv) : RunsJust (join argv) argv ↔ ∀ a ∈ argv, Plain a := by
  constructor
  · exact fun h => h.plain (ink_join argv).le
  · intro h
    refine ⟨hn,fun expand => ?_⟩
    rw [fields,scan_join h,Option.map_some,List.flatMap_map]
    refine congrArg some ?_
    rw [List.flatMap_congr fun a ha => if_neg (Bool.eq_false_iff.mp (h a ha).settled),List.flatMap_singleton']

/-- `a&b` in a command is the start of a second one, and `a\b` is another word. -/
example : ¬RunsJust "ping a&b".toList ["ping".toList,"a&b".toList] ∧ fields (fun a => [a]) "ping a\\b".toList =
    some ["ping".toList,"ab".toList] :=
  ⟨fun h => absurd (h.2 fun a => [a]) (by decide),by decide⟩

end ShellText
end Mybox
