import Mybox.OrderedMap
import Mybox.Php

/-! The text of a registry file. A line `ID=x` opens the entry `x`, the lines after it
are its parameters, and lines starting with `#` are comments. The reader is the loop of
`_INI_TOKEN_GET`, the writer the loop `_INI_TOKEN_UPDATE` and `_INI_TOKEN_DELETE` share. -/
namespace Mybox

abbrev Params := OrdMap Str Str

/-- The array a registry file is read into: entry ID to parameters. -/
abbrev Token := OrdMap Str Params

/-- `$_a[k]` as text; an absent key is null. -/
def Params.val (p : Params) (k : Str) : Str := p.getD k []

namespace RegistryFormat

open Php

/-- The key under which the reader records an entry's own ID. -/
def dataId : Str := "__DATA_ID"

/-- `/^ID=(\S+)$/` -/
def sectionName : Str → Option Str
  | 'I' :: 'D' :: '=' :: r => if r ≠ [] ∧ r.all (fun c => !regexSpace c) then some r else none
  | _ => none

/-- `list($_a,$_b)=preg_split("/=/",$_line)`, both trimmed. -/
def splitParam (line : Str) : Str × Str :=
  let ps := split '=' line
  (trim (ps.headD []),trim (ps.tail.headD []))

/-- `preg_match("/^__/",$_a)` -/
def hidden (a : Str) : Bool := ("__" : Str).isPrefixOf a

def skipped (a : Str) : Bool := null a || hidden a

structure Reading where
  tname : Str
  token : Token

def Reading.assign (st : Reading) (n a b : Str) : Reading :=
  ⟨n,st.token.set n ((st.token.getD n ∅).set a b)⟩

def readLine (st : Reading) (line : Str) : Reading :=
  if line.head? = some '#' then st
  else match sectionName line with
  | some n => st.assign n dataId n
  | none =>
    if null st.tname then st
    else if null (splitParam line).1 then st
    else st.assign st.tname (splitParam line).1 (splitParam line).2

/-- The loop of `_INI_TOKEN_GET` over the lines of a text. -/
def readText (text : Str) (t : Token) : Token := ((file text).foldl readLine ⟨[],t⟩).token

def writeParam (a b : Str) : Str := if skipped a then [] else a ++ '=' :: (b ++ ['\n'])

def writeEntry (n : Str) (p : Params) : Str :=
  if null n then [] else '\n' :: (("ID=" : Str) ++ n ++ '\n' :: p.entries.flatMap fun e => writeParam e.1 e.2)

def writeText (t : Token) : Str := t.entries.flatMap fun e => writeEntry e.1 e.2

/-- An ID its section line is read back as. -/
structure IdentOk (n : Str) : Prop where
  ne : n ≠ []
  black : ∀ c ∈ n, ¬ regexSpace c
  last : ∀ c ∈ n.getLast?, ¬ trimChar c

instance (n : Str) : Decidable (IdentOk n) :=
  decidable_of_iff (n ≠ [] ∧ (∀ c ∈ n, ¬ regexSpace c) ∧ ∀ c ∈ n.getLast?, ¬ trimChar c)
    ⟨fun ⟨h₁,h₂,h₃⟩ => ⟨h₁,h₂,h₃⟩,fun ⟨h₁,h₂,h₃⟩ => ⟨h₁,h₂,h₃⟩⟩

/-- A parameter its line is read back as. -/
structure ParamOk (a b : Str) : Prop where
  ne : a ≠ []
  key : trim a = a
  val : trim b = b
  keyLine : '\n' ∉ a
  valLine : '\n' ∉ b
  keyEq : '=' ∉ a
  valEq : '=' ∉ b
  comment : a.head? ≠ some '#'
  plain : sectionName (a ++ '=' :: b) = none

instance (a b : Str) : Decidable (ParamOk a b) :=
  decidable_of_iff (a ≠ [] ∧ trim a = a ∧ trim b = b ∧ '\n' ∉ a ∧ '\n' ∉ b ∧ '=' ∉ a ∧ '=' ∉ b ∧
    a.head? ≠ some '#' ∧ sectionName (a ++ '=' :: b) = none)
    ⟨fun ⟨h₁,h₂,h₃,h₄,h₅,h₆,h₇,h₈,h₉⟩ => ⟨h₁,h₂,h₃,h₄,h₅,h₆,h₇,h₈,h₉⟩,
      fun ⟨h₁,h₂,h₃,h₄,h₅,h₆,h₇,h₈,h₉⟩ => ⟨h₁,h₂,h₃,h₄,h₅,h₆,h₇,h₈,h₉⟩⟩

def paramLine (e : Str × Str) : Str := e.1 ++ '=' :: e.2

def sectionLine (n : Str) : Str := ("ID=" : Str) ++ n

theorem sectionLine_ne (n : Str) : sectionLine n ≠ [] := List.cons_ne_nil 'I' ('D' :: '=' :: n)

theorem trimmed_iff {s : Str} : trim s = s ↔
    (∀ a ∈ s.head?, ¬ trimChar a) ∧ ∀ a ∈ s.getLast?, ¬ trimChar a :=
  LineText.stripped_iff trimChar

theorem IdentOk.newline {n : Str} (h : IdentOk n) : '\n' ∉ n := fun hm => h.black _ hm rfl

theorem sectionName_sectionLine {n : Str} (h : IdentOk n) :
    sectionName (sectionLine n) = some n := by
  have hb : n.all (fun c => !regexSpace c) = true := by
    simpa [List.all_eq_true] using h.black
  change sectionName ('I' :: 'D' :: '=' :: n) = some n
  simp only [sectionName]
  rw [if_pos ⟨h.ne,hb⟩]

theorem sectionName_some {line n : Str} (h : sectionName line = some n) :
    line = sectionLine n ∧ n ≠ [] ∧ ∀ c ∈ n, ¬ regexSpace c := by
  unfold sectionName at h
  split at h
  · rename_i r
    split at h
    · rename_i hr
      simp only [Option.some.injEq] at h
      subst h
      exact ⟨rfl,hr.1,by simpa [List.all_eq_true] using hr.2⟩
    · simp at h
  · simp at h

theorem trim_sectionLine {n : Str} (h : IdentOk n) : trim (sectionLine n) = sectionLine n := by
  rw [trimmed_iff]
  constructor
  · intro a ha
    change some 'I' = some a at ha
    simp only [Option.some.injEq] at ha
    subst ha; decide
  · rw [sectionLine,List.getLast?_append_of_ne_nil _ h.ne]
    exact h.last

theorem newline_sectionLine {n : Str} (h : IdentOk n) : '\n' ∉ sectionLine n := by
  simp only [sectionLine,List.mem_append,not_or]
  exact ⟨by decide,h.newline⟩

theorem trim_paramLine {a b : Str} (h : ParamOk a b) : trim (paramLine (a,b)) = paramLine (a,b) := by
  have hk := (trimmed_iff.mp h.key).1
  have hv := (trimmed_iff.mp h.val).2
  rw [trimmed_iff]
  constructor
  · intro c hc
    rw [paramLine,List.head?_append_of_ne_nil _ h.ne] at hc
    exact hk c hc
  · intro c hc
    simp only [paramLine] at hc
    rw [List.getLast?_append_of_ne_nil _ (by simp)] at hc
    rcases b with - | ⟨d,b⟩
    · simp only [List.getLast?_singleton,Option.mem_some_iff] at hc
      subst hc; decide
    · rw [List.getLast?_cons_cons] at hc
      exact hv c hc

theorem newline_paramLine {a b : Str} (h : ParamOk a b) : '\n' ∉ paramLine (a,b) := by
  simp only [paramLine,List.mem_append,List.mem_cons,not_or]
  exact ⟨h.keyLine,by decide,h.valLine⟩

theorem splitParam_paramLine {a b : Str} (h : ParamOk a b) : splitParam (paramLine (a,b)) = (a,b) := by
  have hs : split '=' (paramLine (a,b)) = [a,b] := by
    rw [split,paramLine,List.splitOn_append_cons_self_of_not_mem h.keyEq,
      List.splitOn_eq_singleton h.valEq]
  simp [splitParam,hs,h.key,h.val]

theorem readLine_section (st : Reading) {n : Str} (h : IdentOk n) :
    readLine st (sectionLine n) = st.assign n dataId n := by
  have hc : (sectionLine n).head? ≠ some '#' := by
    change some 'I' ≠ some '#'; decide
  rw [readLine,if_neg hc,sectionName_sectionLine h]

theorem readLine_param (st : Reading) {a b : Str} (h : ParamOk a b) (ht : st.tname ≠ []) :
    readLine st (paramLine (a,b)) = st.assign st.tname a b := by
  have hc : (paramLine (a,b)).head? ≠ some '#' := by
    rw [paramLine,List.head?_append_of_ne_nil _ h.ne]; exact h.comment
  have hp : sectionName (paramLine (a,b)) = none := h.plain
  simp [readLine,if_neg hc,hp,splitParam_paramLine h,ht,h.ne]

theorem readLine_comment (st : Reading) (s : Str) : readLine st ('#'::s) = st := by
  simp [readLine]

def shown (p : Params) : List (Str × Str) := p.entries.filter fun e => !skipped e.1

/-- An entry as it is read back: its own ID, then what was put out. -/
def readBack (n : Str) (p : Params) : Params := (OrdMap.empty.set dataId n).setAll (shown p)

def entryLines (n : Str) (p : Params) : List Str := sectionLine n :: (shown p).map paramLine

theorem foldl_params (n : Str) (hn : n ≠ []) (es : List (Str × Str)) (he : ∀ e ∈ es, ParamOk e.1 e.2)
    (t : Token) (p : Params) :
    (es.map paramLine).foldl readLine ⟨n,t.set n p⟩ = ⟨n,t.set n (p.setAll es)⟩ := by
  induction es generalizing p with
  | nil => rfl
  | cons e es ih =>
    have h₁ := readLine_param ⟨n,t.set n p⟩ (he e (by simp)) hn
    have h₂ := ih (fun x hx => he x (by simp [hx])) (p.set e.1 e.2)
    rw [List.map_cons,List.foldl_cons,h₁]
    simpa [Reading.assign,OrdMap.getD,OrdMap.set_set_self] using h₂

theorem foldl_entry (st : Reading) {n : Str} (hn : IdentOk n) {p : Params}
    (hp : ∀ e ∈ shown p, ParamOk e.1 e.2) (hf : n ∉ st.token.keys) :
    (entryLines n p).foldl readLine st = ⟨n,st.token.set n (readBack n p)⟩ := by
  have hg : st.token.getD n ∅ = OrdMap.empty := by
    rw [OrdMap.getD,OrdMap.get?_eq_none.mpr hf]; rfl
  rw [entryLines,List.foldl_cons,readLine_section st hn,Reading.assign,hg,
    foldl_params n hn.ne _ hp]
  rfl

/-- Every entry of the array has an ID and parameters that a line can carry. -/
structure TokenOk (t : Token) : Prop where
  ident : ∀ e ∈ t.entries, IdentOk e.1
  param : ∀ e ∈ t.entries, ∀ x ∈ shown e.2, ParamOk x.1 x.2

def readBackAll (t : Token) : Token := t.mapEntries readBack

theorem foldl_entries (es : List (Str × Params)) (st : Reading)
    (hi : ∀ e ∈ es, IdentOk e.1) (hp : ∀ e ∈ es, ∀ x ∈ shown e.2, ParamOk x.1 x.2)
    (hd : (es.map Prod.fst).Nodup) (hf : ∀ e ∈ es, e.1 ∉ st.token.keys) :
    ((es.flatMap fun e => entryLines e.1 e.2).foldl readLine st).token =
      st.token.setAll (es.map fun e => (e.1,readBack e.1 e.2)) := by
  induction es generalizing st with
  | nil => rfl
  | cons e es ih =>
    have he := foldl_entry st (hi e (by simp)) (hp e (by simp)) (hf e (by simp))
    simp only [List.map_cons,List.nodup_cons,List.mem_map,not_exists,not_and] at hd
    rw [List.flatMap_cons,List.foldl_append,he,List.map_cons,OrdMap.setAll_cons]
    apply ih _ (fun x hx => hi x (by simp [hx])) (fun x hx => hp x (by simp [hx])) hd.2
    intro x hx
    rw [OrdMap.keys_set,if_neg (hf e (by simp)),List.mem_append,List.mem_singleton,not_or]
    exact ⟨hf x (by simp [hx]),hd.1 x hx⟩

theorem file_stripped_line {l : Str} (hn : '\n' ∉ l) (ht : trim l = l) (h : l ≠ []) (s : Str) :
    file (l ++ '\n' :: s) = l :: file s := by
  rw [file_line hn,ht,if_neg h]; rfl

theorem file_writeParams (es : List (Str × Str))
    (he : ∀ e ∈ es.filter (fun e => !skipped e.1), ParamOk e.1 e.2) (s : Str) :
    file ((es.flatMap fun e => writeParam e.1 e.2) ++ s) =
      (es.filter fun e => !skipped e.1).map paramLine ++ file s := by
  induction es with
  | nil => rfl
  | cons e es ih =>
    rcases e with ⟨a,b⟩
    cases h : skipped a with
    | true =>
      simp only [List.filter_cons,h,Bool.not_true,Bool.false_eq_true,if_false] at he ⊢
      simpa [writeParam,h] using ih he
    | false =>
      simp only [List.filter_cons,h,Bool.not_false,if_true] at he ⊢
      have ho : ParamOk a b := he (a,b) (by simp)
      have hne : paramLine (a,b) ≠ [] := by simp [paramLine]
      have hw : ((a,b)::es).flatMap (fun e => writeParam e.1 e.2) ++ s =
          paramLine (a,b) ++ '\n' :: (es.flatMap (fun e => writeParam e.1 e.2) ++ s) := by
        simp [writeParam,h,paramLine]
      rw [hw,file_stripped_line (newline_paramLine ho) (trim_paramLine ho) hne,
        ih (fun x hx => he x (List.mem_cons_of_mem _ hx))]
      rfl

theorem file_writeEntry {n : Str} (hn : IdentOk n) {p : Params}
    (hp : ∀ e ∈ shown p, ParamOk e.1 e.2) (s : Str) :
    file (writeEntry n p ++ s) = entryLines n p ++ file s := by
  have hw : writeEntry n p ++ s = '\n' :: (sectionLine n ++ '\n' ::
      (p.entries.flatMap (fun e => writeParam e.1 e.2) ++ s)) := by
    simp [writeEntry,hn.ne,sectionLine]
  have hb : file ('\n' :: (sectionLine n ++ '\n' ::
      (p.entries.flatMap (fun e => writeParam e.1 e.2) ++ s))) =
      file (sectionLine n ++ '\n' :: (p.entries.flatMap (fun e => writeParam e.1 e.2) ++ s)) :=
    file_line (s:=[]) (by simp) _
  rw [hw,hb,file_stripped_line (newline_sectionLine hn) (trim_sectionLine hn) (sectionLine_ne n),
    file_writeParams _ hp]
  rfl

theorem file_writeEntries (es : List (Str × Params)) (hi : ∀ e ∈ es, IdentOk e.1)
    (hp : ∀ e ∈ es, ∀ x ∈ shown e.2, ParamOk x.1 x.2) (s : Str) :
    file ((es.flatMap fun e => writeEntry e.1 e.2) ++ s) =
      (es.flatMap fun e => entryLines e.1 e.2) ++ file s := by
  induction es with
  | nil => rfl
  | cons e es ih =>
    rw [List.flatMap_cons,List.append_assoc,
      file_writeEntry (hi e (by simp)) (hp e (by simp)),
      ih (fun x hx => hi x (by simp [hx])) (fun x hx => hp x (by simp [hx])),
      List.flatMap_cons,List.append_assoc]

theorem readText_writeText {t : Token} (h : TokenOk t) : readText (writeText t) ∅ = readBackAll t := by
  have hl := file_writeEntries t.entries h.ident h.param []
  rw [List.append_nil] at hl
  have hf := foldl_entries t.entries ⟨[],∅⟩ h.ident h.param t.nodup (by simp [OrdMap.keys])
  rw [readText,writeText,hl]
  simp only [file,LineText.lines_nil,List.append_nil]
  rw [hf]
  apply OrdMap.ext
  rw [OrdMap.setAll_entries_fresh]
  · rfl
  · simpa [List.map_map,Function.comp_def] using t.nodup
  · simp [OrdMap.keys]

end RegistryFormat
end Mybox
