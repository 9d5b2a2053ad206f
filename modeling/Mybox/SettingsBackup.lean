import Mybox.Serialize
import Mybox.Stdio

/-! Version 3.0: the settings of the intrusion prevention and of the content filter, saved before the patterns are
replaced and put back afterwards. A rule is off when its line begins with a comment mark. -/
namespace Mybox
namespace SettingsBackup
open Php Serialize

abbrev Disk := OrdMap Str Str

def rootDir : Str := "/strg/mybox"

def patPath : Str := rootDir ++ ("/patterns" : Str)

/-- `mybox_fget_contents`, where no file and an empty one are the same. -/
def fgetContents (d : Disk) (f : Str) : Str := ((d.get? f).map trim).getD []

/-- `mybox_file2array`, of the contents. A file with `.gz` in its name goes through zlib, which leaves plain text as it
is. -/
def file2array (s : Str) : List Str := ((Stdio.pieces 4095 4095 [] s).map trim).filter (· ≠ [])

/-- What `*` matches. -/
def star (s : Str) : Bool := s ≠ [] && s.head? ≠ some '.' && !s.contains '/'

/-- `glob` of a directory, one `*` in it and a last part. -/
def globbed (dir : Str) (last : Str → Bool) (p : Str) : Bool :=
  match dir.isPrefixOf p, (p.drop dir.length).splitOn '/' with
  | true, [a,b] => star a && last b
  | _, _ => false

def dir2array (dir : Str) (last : Str → Bool) (d : Disk) : List Str :=
  (d.keys.filter (globbed dir last)).insertionSort fun p q => nameLe p q

/-- `preg_match` of `/w$/`: a line break may follow. -/
def endsWith (w p : Str) : Bool := w.isSuffixOf p || (w ++ ['\n']).isSuffixOf p

def Value.text : Value → Str
  | .null => []
  | .bool b => if b then ['1'] else []
  | .int n => intText n
  | .float x => x.text
  | .str s => s
  | .arr _ => "Array"

/-- `==0` -/
def Value.isZero : Value → Bool
  | .null => true
  | .bool b => !b
  | .int n => n = 0
  | .float x => (numeric x.text).isSome && looseZero x.text
  | .str s => looseZero s
  | .arr _ => false

/-- `==1` -/
def Value.isOne : Value → Bool
  | .bool b => b
  | .int n => n = 1
  | .float x => looseOne x.text
  | .str s => looseOne s
  | _ => false

/-- `==''` -/
def Value.isEmpty : Value → Bool
  | .str s => s = []
  | .arr _ => false
  | v => Value.isZero v

/-- `$v[$k]`; of a text it is a character. -/
def Value.index (v : Value) (k : Key) : Value :=
  match v with
  | .arr es => (OrdMap.lookup k es).getD .null
  | .str s =>
    let n : ℤ := match k with
      | .int n => n
      | .str t => ((Stdio.scanInt t).map Prod.fst).getD 0
    .str (if n < 0 then [] else (s[n.toNat]?).toList)
  | _ => .null

/-- What `foreach` goes through. -/
def Value.each : Value → List (Key × Value)
  | .arr es => es
  | _ => []

/-- `count` of what `unserialize` returns. -/
def count : Option Value → ℕ
  | some (.arr es) => es.length
  | some .null => 0
  | _ => 1

def Key.name : Key → Str
  | .int n => intText n
  | .str s => s

def rulesDir : Str := patPath ++ ("/rules/" : Str)

def isRules (p : Str) : Bool := endsWith "/rules" p

def isStat (p : Str) : Bool := endsWith "/stat" p

/-- `/sid\:(\S+)\;/` -/
def sidPattern : Patterns.Pattern := Patterns.word "sid:" ++ [.plus (fun c => !regexSpace c) true,.char ';']

def sidOf (ln : Str) : Option Str := (Patterns.search sidPattern ln).bind List.head?

def on (ln : Str) : Bool := ln.head? ≠ some '#'

/-- The rules of a file, on or off; the lines that are no rules go under an empty key. -/
def sidStates (lines : List Str) : OrdMap Key Value :=
  lines.foldl (fun m ln => m.set (Key.of ((sidOf ln).getD [])) (.int (if on ln then 1 else 0))) ∅

def ipsEntry (d : Disk) (lx : Str) : Option Value :=
  if isStat lx = true then
    let stat := fgetContents d lx
    some (.arr [(.str "stat",if stat = [] then .int 0 else .str stat)])
  else if isRules lx = true then
    let bx := file2array ((d.get? lx).getD [])
    if bx = [] then none else some (.arr (sidStates bx).entries)
  else none

def ipsConfig (d : Disk) : List (Key × Value) :=
  (dir2array rulesDir star d).filterMap fun lx => (ipsEntry d lx).map fun v => (Key.of lx,v)

/-- `mybox_backup_ips_setting`, by the file it leaves. -/
def backupIpsSetting (d : Disk) : Option Str :=
  if ipsConfig d = [] then none else some (serialize (.arr (ipsConfig d)))

/-- A line of a file of rules, as it is written back. -/
def restoreLine (v : Value) (ln : Str) : Str :=
  match sidOf ln with
  | some sid =>
    let stat := Value.index v (Key.of sid)
    let ln := if Value.isZero stat = true ∧ on ln = true then '#'::ln else ln
    trim (if Value.isOne stat = true ∧ on ln = false then ln.dropWhile (· = '#') else ln)
  | none => trim ln

def restoreLines (v : Value) (s : Str) : Str :=
  (((file2array s).map (restoreLine v)).filter (· ≠ [])).flatMap (· ++ ['\n'])

def restoreFile (lnx : Str) (v : Value) (s : Str) : Str :=
  let s := if isStat lnx = true then
      (Value.each v).foldl (fun s e => if e.1 = .str "stat" ∨ e.1 = .int 0 then Value.text e.2 ++ ['\n'] else s) s
    else s
  if isRules lnx = true ∧ restoreLines v s ≠ [] then restoreLines v s else s

def restoreEntry (f : Str → Value → Str → Str) (d : Disk) (e : Key × Value) : Disk :=
  match d.get? (Key.name e.1) with
  | some s => d.set (Key.name e.1) (f (Key.name e.1) e.2 s)
  | none => d

/-- What the two functions that put settings back have in common. -/
def restoreSetting (f : Str → Value → Str → Str) (file : Option Str) (d : Disk) : Bool × Disk :=
  match file with
  | none => (false,d)
  | some s =>
    let config := unserialize (trim s)
    if count config = 0 then (false,d) else (true,((config.map Value.each).getD []).foldl (restoreEntry f) d)

def restoreIpsSetting (file : Option Str) (d : Disk) : Bool × Disk := restoreSetting restoreFile file d

def blacklistDir : Str := patPath ++ ("/blacklist/" : Str)

def cfLists : List Str := [blacklistDir ++ ("EXT_BLOCK" : Str),blacklistDir ++ ("EXT_AV" : Str),
  blacklistDir ++ ("EXT_AV_MIME" : Str),blacklistDir ++ ("EXT_URL_MIME" : Str),blacklistDir ++ ("SITE_REDIRECT" : Str),
  blacklistDir ++ ("url_block/urls" : Str),blacklistDir ++ ("FTP_EXT_BLOCK" : Str),
  rootDir ++ ("/sophos/BLACKLIST" : Str),rootDir ++ ("/sophos/WHITELIST" : Str)]

def cfConfig (d : Disk) : List (Key × Value) :=
  ((dir2array blacklistDir (· = ("stat" : Str)) d).map fun lx =>
    (Key.of lx,if fgetContents d lx = [] then .int 0 else .str (fgetContents d lx))) ++
  (cfLists.filter fun lx => fgetContents d lx ≠ []).map fun lx => (Key.of lx,.str (fgetContents d lx))

/-- `mybox_backup_cf_setting`, by the file it leaves. -/
def backupCfSetting (d : Disk) : Option Str :=
  if cfConfig d = [] then none else some (serialize (.arr (cfConfig d)))

def restoreList (_ : Str) (v : Value) (s : Str) : Str := if Value.isEmpty v = true then s else Value.text v ++ ['\n']

def restoreCfSetting (file : Option Str) (d : Disk) : Bool × Disk := restoreSetting restoreList file d

/-- The settings of one disk, put back on another one. -/
def upgrade (o n : Disk) : Disk :=
  (restoreCfSetting (backupCfSetting o) (restoreIpsSetting (backupIpsSetting o) n).2).2

def textLines (s : Str) : List Str :=
  let ls := s.splitOn '\n'
  if ls.getLast? = some [] then ls.dropLast else ls

def rulesFile (p : Str) : Bool := globbed rulesDir star p && isRules p

def Rule (d : Disk) (sid l : Str) : Prop :=
  ∃ p s, rulesFile p = true ∧ d.get? p = some s ∧ l ∈ textLines s ∧ sidOf (trim l) = some sid

def Present (d : Disk) (sid : Str) : Prop := ∃ l, Rule d sid l

def WasOn (d : Disk) (sid : Str) : Prop := ∃ l, Rule d sid l ∧ on (trim l) = true

def body (l : Str) : Str := (trim l).dropWhile fun c => c = '#' || trimChar c

/-- A line of the new files and what becomes of it. -/
def Kept (o : Disk) (l l' : Str) : Prop :=
  match sidOf (trim l) with
  | some sid => (Present o sid → body l' = body l ∧ (on (trim l') = true ↔ WasOn o sid)) ∧ (¬Present o sid → l' = l)
  | none => l' = l

/-- Rules that were there are on or off as before, all other lines are as they come, and the lists are as saved. -/
def Survives (o n : Disk) : Prop :=
  (∀ p s, rulesFile p = true → n.get? p = some s →
    ∃ s', (upgrade o n).get? p = some s' ∧ List.Forall₂ (Kept o) (textLines s) (textLines s')) ∧
  ∀ p ∈ cfLists, ∀ s, o.get? p = some s → file (((upgrade o n).get? p).getD []) = file s

def oldLines (o : Disk) (p : Str) : List Str := file2array ((o.get? p).getD [])

/-- The file of the same name had the rule on where it came last. -/
def recordedOn (o : Disk) (p sid : Str) : Bool :=
  ((oldLines o p).filter fun ln => (sidOf ln).getD [] = sid).getLast?.any on

/-- A rule that was there is marked the way it was; another one is not blank at its ends and is marked already. -/
def LineFit (o : Disk) (p l : Str) : Prop :=
  match sidOf (trim l) with
  | some sid =>
    (Present o sid → (recordedOn o p sid = true ∧ on (trim ((trim l).dropWhile (· = '#'))) = true ↔ WasOn o sid)) ∧
      (¬Present o sid → trim l = l ∧ on l = recordedOn o p sid)
  | none => trim l = l

/-- Where nothing was recorded of a file, its rules are marked already; else all of its lines are short enough, not
blank, and fit. -/
def FileFit (o : Disk) (p s : Str) : Prop :=
  if oldLines o p = [] then
    ∀ l ∈ textLines s, ∀ sid, sidOf (trim l) = some sid → Present o sid → (on (trim l) = true ↔ WasOn o sid)
  else file2array s = [] ∨ ∀ l ∈ textLines s, file2array l = [trim l] ∧ LineFit o p l

/-- A list that was empty is empty, and there is a file for every other one. -/
def ListFit (o n : Disk) (p : Str) : Prop :=
  ∀ s, o.get? p = some s → if trim s = [] then file ((n.get? p).getD []) = [] else (n.get? p).isSome = true

/-- Where every part gives something, a list is related to all that its parts give only part by part. -/
theorem forall₂_flatMap {α β : Type} {R : α → β → Prop} {f : α → List β} {as : List α}
    (h : ∀ a ∈ as, ∀ b ∈ as.flatMap f, R a b → f a ≠ []) : List.Forall₂ R as (as.flatMap f) ↔ ∀ a ∈ as, ∃ b, f a = [b] ∧ R a b := by
  have hle : ∀ as : List α, (∀ a ∈ as, f a ≠ []) → as.length ≤ (as.flatMap f).length := by
    intro as ha
    induction as with
    | nil => exact Nat.le_refl 0
    | cons a as ih =>
      rw [List.forall_mem_cons] at ha
      have h1 := List.length_pos_of_ne_nil ha.1
      have h2 := ih ha.2
      rw [List.flatMap_cons,List.length_append,List.length_cons]
      omega
  constructor
  · intro hr
    have hne : ∀ a ∈ as, f a ≠ [] := by
      intro a ha
      obtain ⟨i,hi,rfl⟩ := List.mem_iff_getElem.mp ha
      have hj : i < (as.flatMap f).length := hr.length_eq ▸ hi
      exact h _ ha _ (List.getElem_mem hj) (hr.get hi hj)
    clear h
    induction as with
    | nil => exact fun _ ha => (List.not_mem_nil ha).elim
    | cons a as ih =>
      rw [List.forall_mem_cons] at hne
      have hlen := hr.length_eq
      have h1 := List.length_pos_of_ne_nil hne.1
      have h2 := hle as hne.2
      rw [List.flatMap_cons,List.length_append,List.length_cons] at hlen
      obtain ⟨b,hb⟩ := List.length_eq_one_iff.mp (show (f a).length = 1 by omega)
      rw [List.flatMap_cons,hb,List.singleton_append,List.forall₂_cons] at hr
      exact List.forall_mem_cons.mpr ⟨⟨b,hb,hr.1⟩,ih hr.2 hne.2⟩
  · intro ha
    clear h
    induction as with
    | nil => exact List.Forall₂.nil
    | cons a as ih =>
      rw [List.forall_mem_cons] at ha
      obtain ⟨⟨b,hb,hr⟩,has⟩ := ha
      rw [List.flatMap_cons,hb]
      exact List.Forall₂.cons hr (ih has)

theorem trimChar_nl : trimChar '\n' = true := by decide

theorem trim_append_blank (s : Str) {t : Str} (h : trim t = []) : trim (s ++ t) = trim s := by
  rw [trim_eq_nil] at h
  induction t using List.reverseRecOn with
  | nil => rw [List.append_nil]
  | append_singleton t c ih =>
    rw [← List.append_assoc]
    exact (LineText.strip_concat_blank trimChar (h c (by simp)) _).trans (ih fun d hd => h d (List.mem_append_left _ hd))

theorem trim_blank_append {s : Str} (h : trim s = []) (t : Str) : trim (s ++ t) = trim t := by
  rw [trim_eq_nil] at h
  induction s with
  | nil => rfl
  | cons c s ih =>
    rw [List.forall_mem_cons] at h
    exact (LineText.strip_cons_blank trimChar h.1 _).trans (ih h.2)

def black (ps : List Str) : List Str := (ps.map trim).filter (· ≠ [])

theorem file2array_eq (s : Str) : file2array s = black (Stdio.pieces 4095 4095 [] s) := rfl

theorem black_append (ps qs : List Str) : black (ps ++ qs) = black ps ++ black qs := by
  simp [black]

theorem black_cons (q : Str) (ps : List Str) : black (q::ps) = (if trim q = [] then [] else [trim q]) ++ black ps := by
  unfold black
  by_cases h : trim q = [] <;> simp [h]

theorem black_eq_nil {ps : List Str} : black ps = [] ↔ trim ps.flatten = [] := by
  induction ps with
  | nil => exact iff_of_true rfl rfl
  | cons q ps ih =>
    rw [black_cons,List.flatten_cons]
    by_cases h : trim q = []
    · rw [if_pos h,trim_blank_append h]
      exact ih
    · rw [if_neg h]
      refine iff_of_false (by simp) fun he => h ?_
      rw [trim_eq_nil] at he ⊢
      exact fun c hc => he c (List.mem_append_left _ hc)

theorem black_eq_singleton {ps : List Str} {y : Str} (h : black ps = [y]) : y = trim ps.flatten := by
  induction ps with
  | nil => cases h
  | cons q ps ih =>
    rw [black_cons] at h
    rw [List.flatten_cons]
    by_cases hq : trim q = []
    · rw [if_pos hq] at h
      rw [trim_blank_append hq]
      exact ih h
    · rw [if_neg hq,List.singleton_append] at h
      obtain ⟨rfl,hn⟩ := List.cons.inj h
      exact (trim_append_blank q (black_eq_nil.mp hn)).symm

theorem flatten_pieces (size room : ℕ) (cur s : Str) : (Stdio.pieces size room cur s).flatten = cur ++ s := by
  induction s generalizing room cur with
  | nil =>
    rw [Stdio.pieces]
    split
    · next h => simp [h]
    · simp
  | cons c s ih =>
    rw [Stdio.pieces]
    split
    · rw [List.flatten_cons,ih]
      simp
    · rw [ih]
      simp

theorem file2array_eq_nil {s : Str} : file2array s = [] ↔ trim s = [] := by
  rw [file2array_eq,black_eq_nil,flatten_pieces,List.nil_append]

theorem file2array_singleton {s y : Str} (h : file2array s = [y]) : y = trim s := by
  have hb := @black_eq_singleton (Stdio.pieces 4095 4095 [] s) _ h
  rwa [flatten_pieces,List.nil_append] at hb

theorem black_pieces_nl (size room : ℕ) (cur l : Str) (h : '\n' ∉ l) :
    black (Stdio.pieces size room cur (l ++ ['\n'])) = black (Stdio.pieces size room cur l) := by
  induction l generalizing room cur with
  | nil =>
    have hc : trim (cur ++ ['\n']) = trim cur := trim_append_blank cur (by decide)
    have hl : Stdio.pieces size room cur ['\n'] = [cur ++ ['\n']] := by simp [Stdio.pieces]
    rw [List.nil_append,hl,Stdio.pieces,black_cons,hc]
    by_cases hn : cur = []
    · rw [hn]
      rfl
    · rw [if_neg hn,black_cons]
  | cons c l ih =>
    rw [List.mem_cons,not_or] at h
    rw [List.cons_append,Stdio.pieces,Stdio.pieces]
    split
    · rw [black_cons,black_cons,ih _ _ h.2]
    · exact ih _ _ h.2

theorem file2array_append {l : Str} (h : '\n' ∉ l) (t : Str) :
    file2array (l ++ '\n'::t) = file2array l ++ file2array t := by
  have hl : (l ++ ['\n']).getLast? = some '\n' := by simp
  have hp := Stdio.pieces_append 4095 4095 [] hl t
  rw [List.append_assoc] at hp
  rw [file2array_eq,show l ++ '\n'::t = l ++ (['\n'] ++ t) from rfl,hp,black_append,black_pieces_nl _ _ _ _ h]
  rfl

theorem textLines_append {l : Str} (h : '\n' ∉ l) (t : Str) : textLines (l ++ '\n'::t) = l::textLines t := by
  have hs : (l ++ '\n'::t).splitOn '\n' = l::t.splitOn '\n' := by
    rw [List.splitOn_append_cons_self,List.splitOn_eq_singleton h,List.singleton_append]
  obtain ⟨v,vs,hv⟩ := List.exists_cons_of_ne_nil (List.splitOn_ne_nil '\n' t)
  unfold textLines
  dsimp only
  rw [hs,hv,List.getLast?_cons_cons,List.dropLast_cons_cons]
  split <;> rfl

theorem textLines_last {l : Str} (h : '\n' ∉ l) : textLines l = if l = [] then [] else [l] := by
  unfold textLines
  dsimp only
  rw [List.splitOn_eq_singleton h]
  by_cases hl : l = []
  · simp [hl]
  · simp [hl]

theorem text_induction {P : Str → Prop} (last : ∀ l, '\n' ∉ l → P l) (line : ∀ l t, '\n' ∉ l → P t → P (l ++ '\n'::t))
    (s : Str) : P s := by
  induction hn : s.length using Nat.strong_induction_on generalizing s with
  | _ n ih =>
    by_cases h : '\n' ∈ s
    · obtain ⟨l,t,rfl,hl⟩ := List.eq_append_cons_of_mem h
      exact line l t hl (ih t.length (by simp at hn; omega) t rfl)
    · exact last s h

theorem file2array_lines (s : Str) : file2array s = (textLines s).flatMap file2array := by
  induction s using text_induction with
  | last l hl =>
    rw [textLines_last hl]
    split
    · next h => rw [h]; rfl
    · simp
  | line l t hl ih => rw [file2array_append hl,textLines_append hl,List.flatMap_cons,← ih]

theorem textLines_written {ls : List Str} (h : ∀ l ∈ ls, '\n' ∉ l) : textLines (ls.flatMap (· ++ ['\n'])) = ls := by
  induction ls with
  | nil => rfl
  | cons l ls ih =>
    rw [List.forall_mem_cons] at h
    rw [List.flatMap_cons,List.append_assoc,List.singleton_append,textLines_append h.1,ih h.2]

theorem dropWhile_mono {α : Type} {p q : α → Bool} (h : ∀ a, p a = true → q a = true) (s : List α) :
    (s.dropWhile p).dropWhile q = s.dropWhile q := by
  induction s with
  | nil => rfl
  | cons a s ih =>
    by_cases ha : p a = true
    · rw [List.dropWhile_cons_of_pos ha,List.dropWhile_cons_of_pos (h a ha),ih]
    · rw [List.dropWhile_cons_of_neg ha]

/-- What is left in front of a text that ends in no blank is stripped in front only. -/
theorem trim_suffix {s t : Str} (h : s <:+ t) (ht : trim t = t) : trim s = s.dropWhile trimChar := by
  have hl := (LineText.stripped_iff trimChar).mp ht
  unfold trim LineText.strip
  rw [List.rdropWhile_eq_self_iff]
  intro hne
  have hs : s.dropWhile trimChar <:+ t := (List.dropWhile_suffix trimChar).trans h
  refine hl.2 _ ?_
  obtain ⟨u,rfl⟩ := hs
  rw [List.getLast?_append_of_ne_nil _ hne,List.getLast?_eq_some_getLast hne]
  rfl

theorem trim_mark {t : Str} (ht : trim t = t) (hne : t ≠ []) : trim ('#'::t) = '#'::t := by
  have hl := (LineText.stripped_iff trimChar).mp ht
  refine (LineText.stripped_iff trimChar).mpr ⟨fun a ha => ?_,fun a ha => hl.2 a ?_⟩
  · cases ha
    decide
  · rwa [List.getLast?_cons_of_ne_nil hne] at ha

theorem dropWhile_on {t : Str} (h : on t = true) : t.dropWhile (· = '#') = t := by
  cases t with
  | nil => rfl
  | cons c t =>
    refine List.dropWhile_cons_of_neg ?_
    simpa [on] using h

def marked (b : Bool) (t : Str) : Str := if b then trim (t.dropWhile (· = '#')) else if on t then '#'::t else t

theorem body_marked (b : Bool) {t : Str} (ht : trim t = t) (hne : t ≠ []) : body (marked b t) = body t := by
  unfold body marked
  rw [ht]
  cases b with
  | true =>
    rw [if_pos rfl,trim_trim,trim_suffix (List.dropWhile_suffix _) ht,dropWhile_mono (by simp +contextual),
      dropWhile_mono (by simp +contextual)]
  | false =>
    rw [if_neg Bool.false_ne_true]
    split
    · rw [trim_mark ht hne]
      exact List.dropWhile_cons_of_pos rfl
    · rw [ht]

theorem on_marked_false {t : Str} : on (marked false t) = false := by
  unfold marked
  rw [if_neg Bool.false_ne_true]
  cases h : on t with
  | true => rfl
  | false => exact h

theorem marked_trimmed (b : Bool) {t : Str} (ht : trim t = t) (hne : t ≠ []) : trim (marked b t) = marked b t := by
  unfold marked
  cases b with
  | true => exact trim_trim _
  | false =>
    rw [if_neg Bool.false_ne_true]
    split
    · exact trim_mark ht hne
    · exact ht

/-- A line stays as it is when it is marked already. -/
theorem marked_eq_iff (b : Bool) {l : Str} (hne : trim l ≠ []) : marked b (trim l) = l ↔ trim l = l ∧ on l = b := by
  have ht := trim_trim l
  constructor
  · intro h
    have hl : trim l = l := by
      rw [← h]
      rw [← h] at ht hne
      have hm := marked_trimmed b (trim_trim l) (by rw [← h]; exact hne)
      exact hm
    rw [hl] at h
    refine ⟨hl,?_⟩
    cases b with
    | false =>
      rw [← h]
      exact on_marked_false
    | true =>
      by_contra ho
      have ho' : l.head? = some '#' := by simpa [on] using ho
      obtain ⟨r,rfl⟩ : ∃ r, l = '#'::r := by
        cases l with
        | nil => cases ho'
        | cons c r => exact ⟨r,by rw [Option.some.inj ho']⟩
      have hlen := congrArg List.length h
      unfold marked at hlen
      rw [if_pos rfl,List.dropWhile_cons_of_pos (by simp)] at hlen
      have h1 : (trim (r.dropWhile (· = '#'))).length ≤ r.length :=
        (((List.rdropWhile_prefix _ _).sublist.trans (List.dropWhile_sublist _)).trans (List.dropWhile_sublist _)).length_le
      rw [List.length_cons] at hlen
      omega
  · rintro ⟨hl,rfl⟩
    rw [hl]
    unfold marked
    cases ho : on l with
    | true => rw [if_pos rfl,dropWhile_on ho,hl]
    | false => rw [if_neg Bool.false_ne_true,if_neg Bool.false_ne_true]

theorem sidOf_nil : sidOf [] = none := by decide

theorem ne_nil_of_sid {t sid : Str} (h : sidOf t = some sid) : t ≠ [] := by
  rintro rfl
  rw [sidOf_nil] at h
  cases h

theorem kept_marked {o : Disk} {p l sid : Str} (hs : sidOf (trim l) = some sid) :
    Kept o l (marked (recordedOn o p sid) (trim l)) ↔ LineFit o p l := by
  have hne := ne_nil_of_sid hs
  have ht := trim_trim l
  unfold Kept LineFit
  rw [hs]
  dsimp only
  rw [marked_eq_iff _ hne,body_marked _ ht hne,marked_trimmed _ ht hne]
  have hb : body (trim l) = body l := by rw [body,body,ht]
  refine and_congr_left fun _ => imp_congr_right fun _ => ?_
  rw [and_iff_right hb]
  cases hr : recordedOn o p sid with
  | true =>
    rw [marked,if_pos rfl,and_iff_right rfl]
  | false =>
    rw [on_marked_false]
    simp

theorem key_name (s : Str) : Key.name (Key.of s) = s := by
  unfold Key.of
  dsimp only
  split <;> split
  · next h =>
    rw [Bool.and_eq_true,decide_eq_true_eq] at h
    exact h.2
  · rfl
  · next h =>
    rw [Bool.and_eq_true,decide_eq_true_eq] at h
    exact h.2
  · rfl

theorem key_injective : Function.Injective Key.of := fun s t h => by
  rw [← key_name s,h,key_name]

theorem key_kept (s : Str) : (Key.of s).Kept := by
  unfold Key.Kept
  cases h : Key.of s with
  | int n => trivial
  | str t =>
    have ht := key_name s
    rw [h] at ht
    obtain rfl : t = s := ht
    exact h

theorem get?_sidStates (bx : List Str) (sid : Str) : (sidStates bx).get? (Key.of sid) =
    ((bx.filter fun ln => (sidOf ln).getD [] = sid).getLast?).map fun ln => .int (if on ln then 1 else 0) := by
  unfold sidStates
  induction bx using List.reverseRecOn with
  | nil => rfl
  | append_singleton bx ln ih =>
    rw [List.foldl_append,List.foldl_cons,List.foldl_nil,OrdMap.get?_set,ih,List.filter_append]
    by_cases h : (sidOf ln).getD [] = sid
    · rw [if_pos (by rw [h])]
      simp [h]
    · rw [if_neg fun he => h (key_injective he)]
      simp [h]

theorem index_recorded (o : Disk) (p sid : Str) :
    let stat := Value.index (.arr (sidStates (oldLines o p)).entries) (Key.of sid)
    Value.isOne stat = recordedOn o p sid ∧ Value.isZero stat = !recordedOn o p sid := by
  have hi : Value.index (.arr (sidStates (oldLines o p)).entries) (Key.of sid) =
      ((sidStates (oldLines o p)).get? (Key.of sid)).getD .null := rfl
  rw [hi,get?_sidStates]
  unfold recordedOn
  cases ((oldLines o p).filter fun ln => (sidOf ln).getD [] = sid).getLast? with
  | none => exact ⟨rfl,rfl⟩
  | some ln =>
    rw [Option.map_some,Option.getD_some,Option.any_some]
    cases on ln <;> exact ⟨rfl,rfl⟩

/-- What is recorded of the file of the same name decides the mark. -/
theorem restoreLine_recorded (o : Disk) (p : Str) {t : Str} (ht : trim t = t) :
    restoreLine (.arr (sidStates (oldLines o p)).entries) t =
      match sidOf t with
      | some sid => marked (recordedOn o p sid) t
      | none => t := by
  unfold restoreLine
  cases hs : sidOf t with
  | none => exact ht
  | some sid =>
    obtain ⟨h1,h0⟩ := index_recorded o p sid
    have hne := ne_nil_of_sid hs
    dsimp only at h1 h0 ⊢
    rw [h1,h0]
    unfold marked
    cases recordedOn o p sid with
    | true =>
      cases ho : on t with
      | true => simp [dropWhile_on ho,ho]
      | false => simp [ho]
    | false =>
      cases ho : on t with
      | true => simpa using trim_mark ht hne
      | false => simpa using ht

theorem kept_restoreLine {o : Disk} {p l : Str} :
    Kept o l (restoreLine (.arr (sidStates (oldLines o p)).entries) (trim l)) ↔ LineFit o p l := by
  rw [restoreLine_recorded o p (trim_trim l)]
  cases hs : sidOf (trim l) with
  | some sid => exact kept_marked hs
  | none =>
    unfold Kept LineFit
    rw [hs]

theorem restoreLine_black (o : Disk) (p : Str) {t : Str} (ht : trim t = t) (hne : t ≠ []) :
    trim (restoreLine (.arr (sidStates (oldLines o p)).entries) t) ≠ [] := by
  rw [restoreLine_recorded o p ht]
  cases hs : sidOf t with
  | none => rwa [ht]
  | some sid =>
    dsimp only
    rw [marked_trimmed _ ht hne]
    unfold marked
    split
    · intro hn
      rw [trim_eq_nil] at hn
      have hm : 's' ∈ t := by
        by_contra hm
        have hno : sidOf t = none := by
          unfold sidOf
          rw [show Patterns.search sidPattern t = none from Patterns.search_absent hm]
          rfl
        rw [hno] at hs
        cases hs
      rw [← List.takeWhile_append_dropWhile (p:=(· = '#')) (l:=t)] at hm
      rcases List.mem_append.mp hm with hm | hm
      · exact absurd (List.mem_takeWhile_imp hm) (by decide)
      · exact absurd (hn _ hm) (by decide)
    · split
      · exact List.cons_ne_nil _ _
      · exact hne

theorem textLines_nl {s : Str} : ∀ l ∈ textLines s, '\n' ∉ l := by
  induction s using text_induction with
  | last l hl =>
    rw [textLines_last hl]
    split
    · exact fun _ h => (List.not_mem_nil h).elim
    · exact List.forall_mem_singleton.mpr hl
  | line l t hl ih =>
    rw [textLines_append hl]
    exact List.forall_mem_cons.mpr ⟨hl,ih⟩

theorem mem_file2array {s t : Str} (h : t ∈ file2array s) : trim t = t ∧ t ≠ [] ∧ '\n' ∉ t := by
  rw [file2array_lines] at h
  obtain ⟨l,hl,ht⟩ := List.mem_flatMap.mp h
  obtain ⟨hm,hne⟩ := List.mem_filter.mp ht
  obtain ⟨q,hq,rfl⟩ := List.mem_map.mp hm
  refine ⟨trim_trim q,by simpa using hne,fun hn => textLines_nl l hl ?_⟩
  have hf := flatten_pieces 4095 4095 [] l
  rw [List.nil_append] at hf
  rw [← hf]
  exact List.mem_flatten.mpr ⟨q,hq,LineText.strip_mem trimChar hn⟩

theorem restoreLine_nl (v : Value) {t : Str} (h : '\n' ∉ t) : '\n' ∉ restoreLine v t := by
  have hc : '\n' ∉ '#'::t := by
    rw [List.mem_cons,not_or]
    exact ⟨by decide,h⟩
  have hd : ∀ u : Str, '\n' ∉ u → '\n' ∉ u.dropWhile (· = '#') := fun u hu hm => hu ((List.dropWhile_sublist _).mem hm)
  unfold restoreLine
  split
  · dsimp only
    intro hm
    have hm := LineText.strip_mem trimChar hm
    split at hm <;> split at hm
    · exact hd _ hc hm
    · exact hc hm
    · exact hd _ h hm
    · exact h hm
  · exact fun hm => h (LineText.strip_mem trimChar hm)

section File

variable {o : Disk} {p : Str}

def recorded (o : Disk) (p : Str) : Value := .arr (sidStates (oldLines o p)).entries

theorem textLines_restoreLines (s : Str) :
    textLines (restoreLines (recorded o p) s) = (file2array s).map (restoreLine (recorded o p)) := by
  have hne : ((file2array s).map (restoreLine (recorded o p))).filter (· ≠ []) =
      (file2array s).map (restoreLine (recorded o p)) := by
    rw [List.filter_eq_self]
    intro y hy
    obtain ⟨t,ht,rfl⟩ := List.mem_map.mp hy
    obtain ⟨htr,hn,-⟩ := mem_file2array ht
    refine decide_eq_true fun he => restoreLine_black o p htr hn ?_
    rw [show restoreLine (.arr (sidStates (oldLines o p)).entries) t = [] from he]
    rfl
  unfold restoreLines
  rw [hne]
  refine textLines_written fun y hy => ?_
  obtain ⟨t,ht,rfl⟩ := List.mem_map.mp hy
  exact restoreLine_nl _ (mem_file2array ht).2.2

theorem restoreLines_eq_nil {s : Str} : restoreLines (recorded o p) s = [] ↔ file2array s = [] := by
  constructor
  · intro h
    have ht := textLines_restoreLines (o:=o) (p:=p) s
    rw [h] at ht
    exact List.map_eq_nil_iff.mp ht.symm
  · intro h
    rw [restoreLines,h]
    rfl

/-- What becomes of a file of rules of which something is recorded. -/
theorem kept_file (s : Str) : List.Forall₂ (Kept o) (textLines s)
      (textLines (if restoreLines (recorded o p) s ≠ [] then restoreLines (recorded o p) s else s)) ↔
    file2array s = [] ∨ ∀ l ∈ textLines s, file2array l = [trim l] ∧ LineFit o p l := by
  by_cases hs : file2array s = []
  · rw [if_neg (not_not.mpr (restoreLines_eq_nil.mpr hs))]
    refine iff_of_true ?_ (Or.inl hs)
    rw [file2array_lines,List.flatMap_eq_nil_iff] at hs
    rw [List.forall₂_same]
    intro l hl
    rw [Kept,file2array_eq_nil.mp (hs l hl),sidOf_nil]
  · rw [if_pos fun he => hs (restoreLines_eq_nil.mp he),textLines_restoreLines,or_iff_right hs]
    have hmap : (file2array s).map (restoreLine (recorded o p)) =
        (textLines s).flatMap fun l => (file2array l).map (restoreLine (recorded o p)) := by
      rw [file2array_lines,List.map_flatMap]
    -- a blank line is kept by a blank line only
    have hne : ∀ l ∈ textLines s, ∀ y ∈ (textLines s).flatMap (fun l => (file2array l).map (restoreLine (recorded o p))),
        Kept o l y → (file2array l).map (restoreLine (recorded o p)) ≠ [] := by
      intro l hl y hy hk he
      have hb := file2array_eq_nil.mp (List.map_eq_nil_iff.mp he)
      rw [Kept,hb,sidOf_nil] at hk
      obtain rfl : y = l := hk
      rw [← hmap] at hy
      obtain ⟨t,ht,rfl⟩ := List.mem_map.mp hy
      obtain ⟨htr,hn,-⟩ := mem_file2array ht
      exact restoreLine_black o p htr hn hb
    rw [hmap,forall₂_flatMap hne]
    refine forall₂_congr fun l _ => ?_
    constructor
    · rintro ⟨y,hy,hk⟩
      obtain ⟨t,ht,rfl⟩ := List.map_eq_singleton_iff.mp hy
      obtain rfl := file2array_singleton ht
      exact ⟨ht,kept_restoreLine.mp hk⟩
    · rintro ⟨ht,hf⟩
      exact ⟨_,by rw [ht]; rfl,kept_restoreLine.mpr hf⟩

theorem kept_same (s : Str) : List.Forall₂ (Kept o) (textLines s) (textLines s) ↔
    ∀ l ∈ textLines s, ∀ sid, sidOf (trim l) = some sid → Present o sid → (on (trim l) = true ↔ WasOn o sid) := by
  rw [List.forall₂_same]
  refine forall₂_congr fun l _ => ?_
  unfold Kept
  cases sidOf (trim l) with
  | none => exact iff_of_true rfl nofun
  | some sid =>
    constructor
    · rintro ⟨h,-⟩ sid' hs hp
      obtain rfl := Option.some.inj hs
      exact (h hp).2
    · exact fun h => ⟨fun hp => ⟨rfl,h sid rfl hp⟩,fun _ => rfl⟩

end File

def saved (ps : List (Str × Value)) : List (Key × Value) := ps.map fun e => (Key.of e.1,e.2)

theorem allKept_iff {es : List (Key × Value)} : AllKept es ↔ ∀ e ∈ es, e.1.Kept ∧ e.2.Kept := by
  induction es with
  | nil => exact iff_of_true trivial fun _ h => (List.not_mem_nil h).elim
  | cons e es ih =>
    obtain ⟨k,v⟩ := e
    rw [AllKept,ih,List.forall_mem_cons,and_assoc]

theorem saved_kept {ps : List (Str × Value)} (hn : (ps.map Prod.fst).Nodup) (hv : ∀ e ∈ ps, e.2.Kept) :
    (Value.arr (saved ps)).Kept := by
  refine ⟨?_,allKept_iff.mpr fun e he => ?_⟩
  · have hm : (saved ps).map Prod.fst = (ps.map Prod.fst).map Key.of := by simp [saved]
    rw [hm]
    exact hn.map key_injective
  · obtain ⟨x,hx,rfl⟩ := List.mem_map.mp he
    exact ⟨key_kept x.1,hv x hx⟩

theorem trim_serialize (es : List (Key × Value)) : trim (serialize (.arr es)) = serialize (.arr es) := by
  refine (LineText.stripped_iff trimChar).mpr ⟨fun c hc => ?_,fun c hc => ?_⟩
  · obtain rfl : 'a' = c := Option.some.inj hc
    decide
  · rw [serialize,List.getLast?_append_of_ne_nil _ (by decide)] at hc
    obtain rfl : '\x7d' = c := Option.some.inj hc
    decide

/-- The functions that put settings back go through what was saved. -/
theorem restoreSetting_saved (f : Str → Value → Str → Str) {ps : List (Str × Value)} (hn : (ps.map Prod.fst).Nodup)
    (hv : ∀ e ∈ ps, e.2.Kept) (d : Disk) :
    (restoreSetting f (if saved ps = [] then none else some (serialize (.arr (saved ps)))) d).2 =
      (saved ps).foldl (restoreEntry f) d := by
  by_cases h : saved ps = []
  · rw [if_pos h,h]
    rfl
  · have hc : count (some (.arr (saved ps))) ≠ 0 := fun hc => h (List.length_eq_zero_iff.mp hc)
    rw [if_neg h]
    unfold restoreSetting
    dsimp only
    rw [trim_serialize,unserialize_serialize (saved_kept hn hv),if_neg hc]
    rfl

theorem get?_restoreEntry (f : Str → Value → Str → Str) (d : Disk) (e : Key × Value) (p : Str) :
    (restoreEntry f d e).get? p = (d.get? p).map fun s => if Key.name e.1 = p then f p e.2 s else s := by
  unfold restoreEntry
  by_cases h : Key.name e.1 = p
  · subst h
    cases hd : d.get? (Key.name e.1) with
    | none =>
      dsimp only
      rw [hd]
      rfl
    | some s =>
      dsimp only
      rw [OrdMap.get?_set,if_pos rfl,Option.map_some,if_pos rfl]
  · simp only [if_neg h,Option.map_id']
    cases hd : d.get? (Key.name e.1) with
    | none => rfl
    | some s => exact OrdMap.get?_set_ne d _ h

def rewritten (f : Str → Value → Str → Str) (es : List (Key × Value)) (p s : Str) : Str :=
  es.foldl (fun s e => if Key.name e.1 = p then f p e.2 s else s) s

theorem get?_foldl_restoreEntry (f : Str → Value → Str → Str) (es : List (Key × Value)) (d : Disk) (p : Str) :
    (es.foldl (restoreEntry f) d).get? p = (d.get? p).map (rewritten f es p) := by
  induction es generalizing d with
  | nil => exact Option.map_id'.symm
  | cons e es ih =>
    rw [List.foldl_cons,ih,get?_restoreEntry,Option.map_map]
    rfl

theorem rewritten_saved (f : Str → Value → Str → Str) {ps : List (Str × Value)} (hn : (ps.map Prod.fst).Nodup) (p s : Str) :
    rewritten f (saved ps) p s = ((OrdMap.lookup p ps).map fun v => f p v s).getD s := by
  induction ps generalizing s with
  | nil => rfl
  | cons e ps ih =>
    obtain ⟨q,v⟩ := e
    rw [List.map_cons,List.nodup_cons] at hn
    change rewritten f (saved ps) p (if Key.name (Key.of q) = p then f p v s else s) = _
    rw [ih hn.2,key_name,OrdMap.lookup]
    by_cases h : q = p
    · have hl : OrdMap.lookup p ps = none := OrdMap.lookup_eq_none.mpr (h ▸ hn.1)
      rw [if_pos h,if_pos h,hl]
      rfl
    · rw [if_neg h,if_neg h]

theorem get?_restored (f : Str → Value → Str → Str) {ps : List (Str × Value)} (hn : (ps.map Prod.fst).Nodup) (d : Disk)
    (p : Str) : ((saved ps).foldl (restoreEntry f) d).get? p =
      (d.get? p).map fun s => ((OrdMap.lookup p ps).map fun v => f p v s).getD s := by
  rw [get?_foldl_restoreEntry]
  congr 1
  funext s
  exact rewritten_saved f hn p s

def entriesOf (f : Str → Option Value) (ls : List Str) : List (Str × Value) := ls.filterMap fun p => (f p).map fun v => (p,v)

theorem mem_entriesOf {f : Str → Option Value} {ls : List Str} {e : Str × Value} :
    e ∈ entriesOf f ls ↔ e.1 ∈ ls ∧ f e.1 = some e.2 := by
  unfold entriesOf
  rw [List.mem_filterMap]
  constructor
  · rintro ⟨p,hp,he⟩
    obtain ⟨v,hv,rfl⟩ := Option.map_eq_some_iff.mp he
    exact ⟨hp,hv⟩
  · rintro ⟨hp,hv⟩
    exact ⟨e.1,hp,by rw [hv]; rfl⟩

theorem entriesOf_nodup (f : Str → Option Value) {ls : List Str} (h : ls.Nodup) : ((entriesOf f ls).map Prod.fst).Nodup := by
  have hs : ((entriesOf f ls).map Prod.fst).Sublist ls := by
    unfold entriesOf
    induction ls with
    | nil => exact List.Sublist.refl _
    | cons p ls ih =>
      rw [List.filterMap_cons]
      cases f p with
      | none => exact (ih h.of_cons).cons p
      | some v => exact (ih h.of_cons).cons_cons p
  exact hs.nodup h

theorem lookup_entriesOf (f : Str → Option Value) {ls : List Str} (h : ls.Nodup) (p : Str) :
    OrdMap.lookup p (entriesOf f ls) = if p ∈ ls then f p else none := by
  split
  · next hp =>
    cases hf : f p with
    | none =>
      rw [OrdMap.lookup_eq_none]
      rintro hm
      obtain ⟨e,he,rfl⟩ := List.mem_map.mp hm
      rw [(mem_entriesOf.mp he).2] at hf
      cases hf
    | some v => exact (OrdMap.lookup_eq_some (entriesOf_nodup f h)).mpr (mem_entriesOf.mpr ⟨hp,hf⟩)
  · next hp =>
    rw [OrdMap.lookup_eq_none]
    intro hm
    obtain ⟨e,he,rfl⟩ := List.mem_map.mp hm
    exact hp (mem_entriesOf.mp he).1

theorem dir2array_nodup (dir : Str) (last : Str → Bool) (d : Disk) : (dir2array dir last d).Nodup := by
  unfold dir2array
  rw [(List.perm_insertionSort _ _).nodup_iff]
  exact d.nodup.filter _

theorem mem_dir2array {dir : Str} {last : Str → Bool} {d : Disk} {p : Str} :
    p ∈ dir2array dir last d ↔ (d.get? p).isSome = true ∧ globbed dir last p = true := by
  unfold dir2array
  rw [(List.perm_insertionSort _ _).mem_iff,List.mem_filter,Option.isSome_iff_ne_none,ne_eq,OrdMap.get?_eq_none,not_not]

theorem mem_sidStates {bx : List Str} {e : Key × Value} (h : e ∈ (sidStates bx).entries) : e.1.Kept ∧ e.2.Kept := by
  unfold sidStates at h
  induction bx using List.reverseRecOn with
  | nil => exact (List.not_mem_nil h).elim
  | append_singleton bx ln ih =>
    rw [List.foldl_append,List.foldl_cons,List.foldl_nil] at h
    rcases OrdMap.mem_set h with rfl | h
    · exact ⟨key_kept _,trivial⟩
    · exact ih h

theorem ipsEntry_kept {d : Disk} {p : Str} {v : Value} (h : ipsEntry d p = some v) : v.Kept := by
  unfold ipsEntry at h
  dsimp only at h
  split at h
  · obtain rfl := Option.some.inj h
    refine ⟨by simp,by unfold Key.Kept; decide,?_,trivial⟩
    split <;> trivial
  · split at h
    · split at h
      · cases h
      · obtain rfl := Option.some.inj h
        exact ⟨(sidStates _).nodup,allKept_iff.mpr fun e he => mem_sidStates he⟩
    · cases h

theorem ipsConfig_eq (d : Disk) : ipsConfig d = saved (entriesOf (ipsEntry d) (dir2array rulesDir star d)) := by
  unfold ipsConfig saved entriesOf
  rw [List.map_filterMap]
  congr 1
  funext p
  rw [Option.map_map]
  rfl

def cfEntry (d : Disk) (p : Str) : Option Value :=
  if fgetContents d p = [] then if p ∈ cfLists then none else some (.int 0) else some (.str (fgetContents d p))

def cfPaths (d : Disk) : List Str := dir2array blacklistDir (· = ("stat" : Str)) d ++ cfLists

theorem cfLists_apart : ∀ p ∈ cfLists, globbed blacklistDir (· = ("stat" : Str)) p = false ∧ globbed rulesDir star p = false := by
  decide

theorem cfPaths_nodup (d : Disk) : (cfPaths d).Nodup := by
  refine List.nodup_append.mpr ⟨dir2array_nodup _ _ d,by decide,?_⟩
  rintro p hp _ hq rfl
  rw [mem_dir2array,(cfLists_apart p hq).1] at hp
  exact Bool.false_ne_true hp.2

theorem cfConfig_eq (d : Disk) : cfConfig d = saved (entriesOf (cfEntry d) (cfPaths d)) := by
  have hstat : ∀ ls : List Str, (∀ p ∈ ls, p ∉ cfLists) → saved (entriesOf (cfEntry d) ls) = ls.map fun lx =>
      (Key.of lx,if fgetContents d lx = [] then .int 0 else .str (fgetContents d lx)) := by
    intro ls h
    induction ls with
    | nil => rfl
    | cons p ls ih =>
      rw [List.forall_mem_cons] at h
      have he : cfEntry d p = some (if fgetContents d p = [] then .int 0 else .str (fgetContents d p)) := by
        unfold cfEntry
        rw [if_neg h.1]
        split <;> rfl
      rw [entriesOf,List.filterMap_cons,he,List.map_cons,← ih h.2]
      rfl
  have hlist : ∀ ls : List Str, (∀ p ∈ ls, p ∈ cfLists) → saved (entriesOf (cfEntry d) ls) =
      (ls.filter fun lx => fgetContents d lx ≠ []).map fun lx => (Key.of lx,.str (fgetContents d lx)) := by
    intro ls h
    induction ls with
    | nil => rfl
    | cons p ls ih =>
      rw [List.forall_mem_cons] at h
      rw [entriesOf,List.filterMap_cons]
      unfold cfEntry
      rw [if_pos h.1]
      by_cases hc : fgetContents d p = []
      · rw [if_pos hc,List.filter_cons_of_neg (by simpa using hc),← ih h.2]
        rfl
      · rw [if_neg hc,List.filter_cons_of_pos (by simpa using hc),List.map_cons,← ih h.2]
        rfl
  have hno : ∀ p ∈ dir2array blacklistDir (· = ("stat" : Str)) d, p ∉ cfLists := by
    intro p hp hq
    rw [mem_dir2array,(cfLists_apart p hq).1] at hp
    exact Bool.false_ne_true hp.2
  have happ : saved (entriesOf (cfEntry d) (cfPaths d)) =
      saved (entriesOf (cfEntry d) (dir2array blacklistDir (· = ("stat" : Str)) d)) ++ saved (entriesOf (cfEntry d) cfLists) := by
    unfold saved entriesOf cfPaths
    rw [List.filterMap_append,List.map_append]
  rw [happ,hstat _ hno,hlist _ fun _ hp => hp]
  rfl

theorem cfEntry_kept {d : Disk} {p : Str} {v : Value} (h : cfEntry d p = some v) : v.Kept := by
  unfold cfEntry at h
  split at h
  · split at h
    · cases h
    · obtain rfl := Option.some.inj h
      trivial
  · obtain rfl := Option.some.inj h
    trivial

theorem get?_upgrade (o n : Disk) (p : Str) : (upgrade o n).get? p = (n.get? p).map fun s =>
    let s := ((if p ∈ dir2array rulesDir star o then ipsEntry o p else none).map fun v => restoreFile p v s).getD s
    ((if p ∈ cfPaths o then cfEntry o p else none).map fun v =>
      if Value.isEmpty v = true then s else Value.text v ++ ['\n']).getD s := by
  have hi := dir2array_nodup rulesDir star o
  have hc := cfPaths_nodup o
  have hik : ∀ e ∈ entriesOf (ipsEntry o) (dir2array rulesDir star o), e.2.Kept := fun e he =>
    ipsEntry_kept (mem_entriesOf.mp he).2
  have hck : ∀ e ∈ entriesOf (cfEntry o) (cfPaths o), e.2.Kept := fun e he => cfEntry_kept (mem_entriesOf.mp he).2
  unfold upgrade restoreIpsSetting restoreCfSetting backupIpsSetting backupCfSetting
  rw [ipsConfig_eq,cfConfig_eq,restoreSetting_saved _ (entriesOf_nodup _ hc) hck,
    restoreSetting_saved _ (entriesOf_nodup _ hi) hik,get?_restored _ (entriesOf_nodup _ hc),
    get?_restored _ (entriesOf_nodup _ hi),Option.map_map,lookup_entriesOf _ hi,lookup_entriesOf _ hc]
  rfl

theorem not_isStat {p : Str} (h : isRules p = true) : isStat p = false := by
  have hap : ∀ u v : Str, u <:+ p → v <:+ p → ¬u <:+ v → ¬v <:+ u → False := fun u v hu hv h1 h2 =>
    (List.suffix_or_suffix_of_suffix hu hv).elim h1 h2
  unfold isRules endsWith at h
  unfold isStat endsWith
  rw [Bool.or_eq_true,List.isSuffixOf_iff_suffix,List.isSuffixOf_iff_suffix] at h
  rw [Bool.eq_false_iff,ne_eq,Bool.or_eq_true,List.isSuffixOf_iff_suffix,List.isSuffixOf_iff_suffix]
  rintro (hs | hs) <;> rcases h with h | h <;> exact hap _ _ h hs (by decide) (by decide)

theorem rulesFile_spec {p : Str} (h : rulesFile p = true) : globbed rulesDir star p = true ∧ isRules p = true :=
  Bool.and_eq_true_iff.mp h

theorem globbed_front {dir : Str} {last : Str → Bool} {p : Str} (h : globbed dir last p = true) : dir <+: p := by
  unfold globbed at h
  split at h
  · next hp _ => exact List.isPrefixOf_iff_prefix.mp hp
  · cases h

theorem rulesFile_cfPaths {o : Disk} {p : Str} (h : rulesFile p = true) : p ∉ cfPaths o := by
  have hg := (rulesFile_spec h).1
  unfold cfPaths
  rw [List.mem_append,not_or,mem_dir2array]
  refine ⟨fun hp => ?_,fun hp => ?_⟩
  · exact (List.prefix_or_prefix_of_prefix (globbed_front hg) (globbed_front hp.2)).elim (by decide) (by decide)
  · rw [(cfLists_apart p hp).2] at hg
    cases hg

/-- A file of rules after the upgrade. -/
theorem upgrade_rules {o : Disk} {p : Str} (h : rulesFile p = true) (n : Disk) : (upgrade o n).get? p =
    (n.get? p).map fun s => if oldLines o p = [] then s else
      if restoreLines (recorded o p) s ≠ [] then restoreLines (recorded o p) s else s := by
  obtain ⟨hg,hr⟩ := rulesFile_spec h
  have hs := not_isStat hr
  have he : ipsEntry o p = if oldLines o p = [] then none else some (recorded o p) := by
    unfold ipsEntry
    rw [hs,hr]
    rfl
  have hd : (if p ∈ dir2array rulesDir star o then ipsEntry o p else none) =
      if oldLines o p = [] then none else some (recorded o p) := by
    by_cases hm : p ∈ dir2array rulesDir star o
    · rw [if_pos hm,he]
    · have hn : o.get? p = none := by
        rw [mem_dir2array,and_iff_left hg] at hm
        exact Option.not_isSome_iff_eq_none.mp hm
      have hno : oldLines o p = [] := by
        unfold oldLines
        rw [hn]
        rfl
      rw [if_neg hm,if_pos hno]
  rw [get?_upgrade,hd,if_neg (rulesFile_cfPaths h)]
  congr 1
  funext s
  by_cases ho : oldLines o p = []
  · rw [if_pos ho,if_pos ho]
    rfl
  · rw [if_neg ho,if_neg ho]
    change restoreFile p (recorded o p) s = _
    unfold restoreFile
    dsimp only
    rw [hs,hr,if_neg Bool.false_ne_true]
    simp only [true_and]

theorem file_eq_nil (s : Str) : file s = [] ↔ trim s = [] := by
  induction s using text_induction with
  | last l hl =>
    have hf : file l = if trim l = [] then [] else [trim l] := LineText.lines_single trimChar '\n' hl
    rw [hf]
    split
    · next h => exact iff_of_true rfl h
    · next h => exact iff_of_false (by simp) h
  | line l t hl ih =>
    have ht : trim (l ++ '\n'::t) = [] ↔ trim l = [] ∧ trim t = [] := by
      simp only [trim_eq_nil,List.forall_mem_append,List.forall_mem_cons,trimChar_nl,true_and]
    rw [file_line hl,List.append_eq_nil_iff,ih,ht]
    refine and_congr_left fun _ => ?_
    split
    · next h => exact iff_of_true rfl h
    · next h => exact iff_of_false (by simp) h

theorem upgrade_list {o : Disk} {p : Str} (h : p ∈ cfLists) (n : Disk) : (upgrade o n).get? p =
    (n.get? p).map fun s => if fgetContents o p = [] then s else fgetContents o p ++ ['\n'] := by
  have hd : p ∉ dir2array rulesDir star o := fun hp => by
    rw [mem_dir2array,(cfLists_apart p h).2] at hp
    exact Bool.false_ne_true hp.2
  have hc : p ∈ cfPaths o := List.mem_append_right _ h
  rw [get?_upgrade,if_neg hd,if_pos hc]
  congr 1
  funext s
  unfold cfEntry
  by_cases he : fgetContents o p = []
  · rw [if_pos he,if_pos he,if_pos h]
    rfl
  · have hv : Value.isEmpty (.str (fgetContents o p)) = false := decide_eq_false he
    rw [if_neg he,if_neg he]
    dsimp only
    rw [Option.map_some,Option.getD_some,hv]
    rfl

theorem list_iff {o n : Disk} {p : Str} (h : p ∈ cfLists) :
    (∀ s, o.get? p = some s → file (((upgrade o n).get? p).getD []) = file s) ↔ ListFit o n p := by
  refine forall₂_congr fun s hs => ?_
  have hf : fgetContents o p = trim s := by rw [fgetContents,hs]; rfl
  rw [upgrade_list h,hf]
  by_cases ht : trim s = []
  · rw [if_pos ht]
    simp only [ht,if_true,Option.map_id']
    rw [(file_eq_nil s).mpr ht]
  · rw [if_neg ht]
    simp only [if_neg ht]
    cases hn : n.get? p with
    | none => exact iff_of_false (fun he => ht ((file_eq_nil s).mp he.symm)) Bool.false_ne_true
    | some t =>
      refine iff_of_true ?_ rfl
      have hl : file (trim s ++ ['\n']) = file (trim s) := LineText.lines_concat_of trimChar '\n' (Or.inr rfl) _
      exact hl.trans (file_trim s)

/-- The settings survive exactly when every file of rules and every list fits what was saved. -/
theorem survives_iff (o n : Disk) : Survives o n ↔
    (∀ p s, rulesFile p = true → n.get? p = some s → FileFit o p s) ∧ ∀ p ∈ cfLists, ListFit o n p := by
  refine and_congr (forall₄_congr fun p s hp hs => ?_) (forall₂_congr fun p hp => list_iff hp)
  have hu := upgrade_rules (o:=o) hp n
  rw [hs,Option.map_some] at hu
  rw [hu]
  simp only [Option.some.injEq,exists_eq_left']
  unfold FileFit
  split
  · exact kept_same s
  · exact kept_file s

def webRules : Str := rulesDir ++ ("web/rules" : Str)

def shipped (text : Str) : Disk := (∅ : Disk).set webRules text

/-- A rule that comes with the new files is switched off. -/
theorem new_rule_lost : ¬Survives (shipped "alert (sid:1;)\n") (shipped "alert (sid:2;)\n") := by
  rintro ⟨h,-⟩
  obtain ⟨s',hs,hk⟩ := h webRules "alert (sid:2;)\n" (by decide) rfl
  have hu : (upgrade (shipped "alert (sid:1;)\n") (shipped "alert (sid:2;)\n")).get? webRules = some ("#alert (sid:2;)\n" : Str) := by
    decide +kernel
  obtain rfl := Option.some.inj (hu.symm.trans hs)
  have hl : textLines "alert (sid:2;)\n" = [("alert (sid:2;)" : Str)] := by decide
  have hl' : textLines "#alert (sid:2;)\n" = [("#alert (sid:2;)" : Str)] := by decide
  have hsid : sidOf (trim "alert (sid:2;)") = some ("2" : Str) := by decide
  have hno : ¬Present (shipped "alert (sid:1;)\n") "2" := by
    rintro ⟨l,p,s,-,hg,hm,hs⟩
    have hone : textLines "alert (sid:1;)\n" = [("alert (sid:1;)" : Str)] := by decide
    rw [shipped,OrdMap.get?_set] at hg
    split at hg
    · obtain rfl := Option.some.inj hg
      rw [hone,List.mem_singleton] at hm
      subst hm
      exact absurd hs (by decide)
    · cases hg
  rw [hl,hl',List.forall₂_cons] at hk
  have hkept := hk.1
  unfold Kept at hkept
  rw [hsid] at hkept
  exact absurd (hkept.2 hno) (by decide)

end SettingsBackup
end Mybox
