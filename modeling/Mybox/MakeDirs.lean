import Mybox.DirTree
import Mybox.Php

/-! `_MKDIR` makes a directory and what is missing above it: it calls itself for what stands before the last slash. -/
namespace Mybox
namespace MakeDirs

open Php DirTree

variable {κ : Type}

def isDir (t : FileTree κ) (cwd : Pos) (path : Str) : Bool := (t.resolve cwd path).any t.isDir

def isFile (t : FileTree κ) (cwd : Pos) (path : Str) : Bool := (t.resolve cwd path).any fun p => !t.isDir p

def fileExists (t : FileTree κ) (cwd : Pos) (path : Str) : Bool := (t.resolve cwd path).isSome

/-- `substr($_pathname, 0, strrpos($_pathname, DIRECTORY_SEPARATOR))` -/
def beforeSlash (path : Str) : Str := (path.reverse.dropWhile (· ≠ '/')).tail.reverse

/-- `_MKDIR`, as long as it does not call itself more than `fuel` times. -/
def mkdirLoop (cwd : Pos) : ℕ → FileTree κ → Str → Option (Bool × FileTree κ)
  | 0, _, _ => none
  | fuel + 1, t, pathname =>
    if null pathname then some (false,t)
    else if isDir t cwd pathname then some (true,t)
    else if isFile t cwd pathname then some (false,t)
    else
      let pathname := if pathname.head? ≠ some '/' then "./" ++ pathname else pathname
      match mkdirLoop cwd fuel t (beforeSlash pathname) with
      | none => none
      | some (false,t) => some (false,t)
      | some (true,t) =>
        if fileExists t cwd pathname then some (false,t)
        else
          match t.mkdir cwd pathname with
          | some t => some (true,t)
          | none => some (false,t)

/-- Where the path begins to be looked for: behind the slash in front, if there is one. -/
def rest (path : Str) : List Name := if path.head? = some '/' then (components path).tail else components path

/-- What the path names is missing from some place on, and from there on there are but names; a path from the root has
to have something in it that is there. -/
def Creatable (t : FileTree κ) (cwd : Pos) (path : Str) : Prop :=
  path ≠ [] ∧ ∃ as bs p, rest path = as ++ bs ∧ (path.head? = some '/' → as ≠ []) ∧
    t.walk (start cwd path) as = some p ∧ t.isDir p = true ∧ ∀ c ∈ bs, Proper c

def Unobstructed (t : FileTree κ) (cwd : Pos) (path : Str) : Prop :=
  ∀ as p, as <+: rest path → t.walk (start cwd path) as = some p → t.isDir p = true

theorem components_injective {a b : Str} (h : components a = components b) : a = b := by
  have hi := congrArg (List.intercalate ['/']) h
  rwa [components,components,List.intercalate_splitOn,List.intercalate_splitOn] at hi

theorem head_slash {path : Str} {c : Name} {cs : List Name} (h : components path = []::c::cs) : path.head? = some '/' := by
  cases path with
  | nil => simp [components] at h
  | cons x r =>
    by_cases hx : x = '/'
    · rw [hx]
      rfl
    · rw [components_char hx] at h
      cases hr : components r with
      | nil => exact absurd hr (components_ne r)
      | cons d ds =>
        rw [hr,List.modifyHead_cons] at h
        cases h

theorem exists_last {path : Str} (h : '/' ∈ path) : ∃ a c, path = a ++ '/'::c ∧ '/' ∉ c := by
  obtain ⟨u,v,huv,hu⟩ := List.eq_append_cons_of_mem (List.mem_reverse.mpr h)
  refine ⟨v.reverse,u.reverse,?_,by simpa using hu⟩
  rw [← List.reverse_reverse path,huv]
  simp

theorem beforeSlash_append (a : Str) {c : Str} (h : '/' ∉ c) : beforeSlash (a ++ '/'::c) = a := by
  have hd : (c.reverse ++ '/'::a.reverse).dropWhile (· ≠ '/') = '/'::a.reverse := by
    rw [List.dropWhile_append_of_pos]
    · simp
    · intro x hx
      simpa using fun he => h (by rw [← he]; simpa using hx)
  rw [beforeSlash,List.reverse_append,List.reverse_cons,List.append_assoc,List.singleton_append,hd]
  simp

theorem components_beforeSlash {path : Str} (h : '/' ∈ path) {cs : List Name} {c : Name}
    (hc : components path = cs ++ [c]) : components (beforeSlash path) = cs := by
  obtain ⟨a,d,rfl,hd⟩ := exists_last h
  rw [components_append,components_single hd] at hc
  rw [beforeSlash_append a hd]
  exact (List.append_inj' hc rfl).1

section Loop

variable {t : FileTree κ} {cwd s p : Pos}

/-- The components from `s` on are missing from some place on, and then but names; at least one is not, if `abs`. -/
def Missing (t : FileTree κ) (s : Pos) (abs : Bool) (cs : List Name) : Prop :=
  ∃ as bs p, cs = as ++ bs ∧ (abs = true → as ≠ []) ∧ t.walk s as = some p ∧ t.isDir p = true ∧ ∀ c ∈ bs, Proper c

def Made (t t' : FileTree κ) (s : Pos) (cs : List Name) : Prop :=
  ∃ p, t'.walk s cs = some p ∧ t'.isDir p = true ∧ ∀ q, ¬q <+: p → t'.node q = t.node q

theorem walk_addDir {n : Name} {h : t.isDir p = true ∧ t.node (p ++ [n]) = none} {q : Pos} {cs : List Name}
    (hs : (t.node s).isSome = true) (hq : t.walk s cs = some q) : (t.addDir p n h).walk s cs = some q := by
  have hsome : ∀ x, (t.node x).isSome = true → ((t.addDir p n h).node x).isSome = true := by
    intro x hx
    rw [addDir_node]
    split
    · rfl
    · exact hx
  have hdir : ∀ x, t.isDir x = true → (t.addDir p n h).isDir x = true := by
    intro x hx
    rw [isDir_iff] at hx ⊢
    rw [addDir_node]
    split
    · rfl
    · exact hx
  obtain ⟨hg,htr,hn⟩ := (walk_eq_some hs).mp hq
  exact (walk_eq_some (hsome s hs)).mpr ⟨hg,fun x hx => hdir x (htr x hx),hsome q hn⟩

theorem not_prefix_self (p : Pos) (n : Name) : ¬p ++ [n] <+: p := by
  intro h
  have hl := h.length_le
  rw [List.length_append,List.length_singleton] at hl
  omega

/-- What is found in the second tree was found in the first, if its own place was. -/
theorem Made.walk {t' : FileTree κ} {cs : List Name} (h : Made t t' s cs) (hs : t.isDir s = true) (hs' : t'.isDir s = true)
    (hp : t'.walk s cs = some p) {c : Name} (hn : (t.node (p ++ [c])).isSome = true) : t.walk s cs = some p := by
  obtain ⟨q,hw,hd,hsame⟩ := h
  obtain rfl : p = q := Option.some.inj (hp.symm.trans hw)
  obtain ⟨hg,htr,-⟩ := (walk_eq_some (isSome_of_isDir hs')).mp hw
  have hpd : t.isDir p = true := by
    have := isDir_dropLast hn
    rwa [List.dropLast_concat] at this
  refine (walk_eq_some (isSome_of_isDir hs)).mpr ⟨hg,fun x hx => ?_,isSome_of_isDir hpd⟩
  by_cases hpre : x <+: p
  · by_cases he : x = p
    · rw [he]
      exact hpd
    · exact isDir_above (isSome_of_isDir hpd) hpre he
  · have hx' := htr x hx
    rw [isDir_iff] at hx' ⊢
    rw [← hsame x hpre]
    exact hx'

/-- The path's components are `cs` behind some that stay where they are: behind the slash in front, or behind dots. -/
structure Leads (abs : Bool) (path : Str) (pre cs : List Name) : Prop where
  comps : components path = pre ++ cs
  ofRoot : abs = true → pre = [[]]
  ofDots : abs = false → path ≠ [] ∧ path.head? ≠ some '/' ∧ ∀ c ∈ pre, c = ['.']

variable {abs : Bool} {path : Str} {pre cs : List Name} {c : Name}

theorem Leads.stay (h : Leads abs path pre cs) : ∀ c ∈ pre, c = [] ∨ c = ['.'] := by
  intro c hc
  cases abs with
  | false => exact Or.inr ((h.ofDots rfl).2.2 c hc)
  | true =>
    rw [h.ofRoot rfl,List.mem_singleton] at hc
    exact Or.inl hc

theorem walk_stays (hd : t.isDir s = true) (h : ∀ c ∈ pre, c = [] ∨ c = ['.']) (cs : List Name) :
    t.walk s (pre ++ cs) = t.walk s cs := by
  induction pre with
  | nil => rfl
  | cons c pre ih =>
    rw [List.forall_mem_cons] at h
    rw [List.cons_append,walk_stay hd h.1,ih h.2]

theorem Leads.head (h : Leads abs path pre (cs ++ [c])) : path.head? = some '/' ↔ abs = true := by
  cases abs with
  | false => simpa using (h.ofDots rfl).2.1
  | true =>
    have hc := h.comps
    rw [h.ofRoot rfl] at hc
    cases cs with
    | nil => exact iff_of_true (head_slash hc) rfl
    | cons d ds => exact iff_of_true (head_slash hc) rfl

theorem Leads.ne_nil (h : Leads abs path pre (cs ++ [c])) : path ≠ [] := by
  cases abs with
  | false => exact (h.ofDots rfl).1
  | true =>
    rintro rfl
    exact absurd (h.head.mpr rfl) (by simp)

theorem Leads.resolve (h : Leads abs path pre (cs ++ [c])) (hs : s = if abs = true then [] else cwd)
    (hd : t.isDir s = true) : t.resolve cwd path = t.walk s (cs ++ [c]) := by
  rw [FileTree.resolve,if_neg h.ne_nil,start,h.comps]
  simp only [h.head]
  rw [← hs,walk_stays hd h.stay]

theorem dot_head {path : Str} {cs : List Name} (h : components path = ['.']::cs) : path ≠ [] ∧ path.head? ≠ some '/' := by
  cases path with
  | nil => simp [components] at h
  | cons x r =>
    refine ⟨List.cons_ne_nil _ _,fun hx => ?_⟩
    obtain rfl : x = '/' := by simpa using hx
    rw [components_slash] at h
    cases h

theorem components_dot (path : Str) : components ("./" ++ path) = ['.']::components path := by
  show components ('.' :: '/' :: path) = _
  rw [components_char (by decide),components_slash,List.modifyHead_cons]

/-- The path that is gone on with, and what stands before its last slash. -/
theorem Leads.next (h : Leads abs path pre (cs ++ [c])) :
    ∃ pre', Leads abs (if path.head? ≠ some '/' then "./" ++ path else path) pre' (cs ++ [c]) ∧
      Leads abs (beforeSlash (if path.head? ≠ some '/' then "./" ++ path else path)) pre' cs := by
  simp only [ne_eq,h.head]
  cases abs with
  | false =>
    have hc : components ("./" ++ path) = (['.']::pre) ++ cs ++ [c] := by
      rw [components_dot,h.comps]
      simp
    have hb := @components_beforeSlash ("./" ++ path) (by simp [Str.of_ascii]) _ _ hc
    have hpre : ∀ d ∈ ['.']::pre, d = ['.'] := List.forall_mem_cons.mpr ⟨rfl,(h.ofDots rfl).2.2⟩
    refine ⟨['.']::pre,⟨?_,nofun,fun _ => ?_⟩,⟨?_,nofun,fun _ => ?_⟩⟩
    · simpa using hc
    · exact ⟨by simp [Str.of_ascii],by simp [Str.of_ascii],hpre⟩
    · simpa using hb
    · have hd := dot_head (by simpa using hb)
      exact ⟨by simpa using hd.1,by simpa using hd.2,hpre⟩
  | true =>
    have hc := h.comps
    have hm : '/' ∈ path := List.mem_of_head? (h.head.mpr rfl)
    rw [← List.append_assoc] at hc
    have hb := components_beforeSlash hm hc
    refine ⟨pre,?_,?_⟩
    · simpa using h
    · exact ⟨by simpa using hb,h.ofRoot,nofun⟩

theorem Missing.concat (h : Missing t s abs cs) (hc : Proper c) : Missing t s abs (cs ++ [c]) := by
  obtain ⟨as,bs,p,rfl,ha,hw,hd,hb⟩ := h
  refine ⟨as,bs ++ [c],p,by simp,ha,hw,hd,fun d hm => ?_⟩
  rcases List.mem_append.mp hm with hm | hm
  · exact hb d hm
  · rw [List.mem_singleton.mp hm]
    exact hc

theorem Missing.ofWalk (hw : t.walk s (cs ++ [c]) = some p) (hd : t.isDir p = true) : Missing t s abs (cs ++ [c]) :=
  ⟨cs ++ [c],[],p,by simp,fun _ => by simp,hw,hd,nofun⟩

/-- Of what cannot be found the last component is a name, and the rest is missing in the same way. -/
theorem Missing.ofConcat (h : Missing t s abs (cs ++ [c])) (hw : t.walk s (cs ++ [c]) = none) :
    Missing t s abs cs ∧ Proper c := by
  obtain ⟨as,bs,p,he,ha,hp,hd,hb⟩ := h
  rcases List.eq_nil_or_concat' bs with rfl | ⟨bs,d,rfl⟩
  · rw [List.append_nil] at he
    rw [he,hp] at hw
    cases hw
  · rw [← List.append_assoc] at he
    obtain ⟨rfl,hcd⟩ := List.append_inj' he rfl
    obtain rfl : c = d := by simpa using hcd
    exact ⟨⟨as,bs,p,rfl,ha,hp,hd,fun e hm => hb e (List.mem_append_left _ hm)⟩,hb c (by simp)⟩

theorem Leads.mkdir (h : Leads abs path pre (cs ++ [c])) (hs : s = if abs = true then [] else cwd)
    (hd : t.isDir s = true) (hw : t.walk s cs = some p) (hc : Proper c)
    (hm : t.isDir p = true ∧ t.node (p ++ [c]) = none) : t.mkdir cwd path = some (t.addDir p c hm) := by
  have hdrop : (components path).rdropWhile (· = []) = (pre ++ cs) ++ [c] := by
    rw [h.comps,← List.append_assoc,List.rdropWhile_concat_neg _ _ _ (by simpa using hc.1)]
  have hstart : start cwd path = s := by simp only [start,h.head,hs]
  rw [FileTree.mkdir,hdrop,hstart]
  simp only [List.getLast?_concat,List.dropLast_concat,walk_stays hd h.stay,hw]
  exact dif_pos ⟨hc,hm⟩

theorem Made.concat {t' : FileTree κ} (h : Made t t' s cs) (hs : (t'.node s).isSome = true) (hw : t'.walk s cs = some p)
    (hc : Proper c) (hm : t'.isDir p = true ∧ t'.node (p ++ [c]) = none) :
    Made t (t'.addDir p c hm) s (cs ++ [c]) := by
  obtain ⟨q,hq,-,hsame⟩ := h
  obtain rfl : p = q := Option.some.inj (hw.symm.trans hq)
  have hnew : (t'.addDir p c hm).isDir (p ++ [c]) = true := by
    rw [isDir_iff,addDir_node,if_pos rfl]
  have hold : (t'.addDir p c hm).isDir p = true := by
    rw [isDir_iff,addDir_node]
    split
    · rfl
    · exact isDir_iff.mp hm.1
  refine ⟨p ++ [c],?_,hnew,fun x hx => ?_⟩
  · rw [walk_concat,walk_addDir hs hw,Option.bind_some,step_proper hc,if_pos ⟨hold,isSome_of_isDir hnew⟩]
  · have hne : x ≠ p ++ [c] := by
      rintro rfl
      exact hx List.prefix_rfl
    rw [addDir_node,if_neg hne]
    exact hsame x fun hp => hx (hp.trans (List.prefix_append _ _))

theorem Made.base {t' : FileTree κ} (h : Made t t' s cs) (hd : t.isDir s = true) : t'.isDir s = true := by
  obtain ⟨p,-,hp,hsame⟩ := h
  by_cases hpre : s <+: p
  · by_cases he : s = p
    · rw [he]
      exact hp
    · exact isDir_above (isSome_of_isDir hp) hpre he
  · rw [isDir_iff] at hd ⊢
    rw [hsame s hpre,hd]

theorem mkdirLoop_stay (h : Leads abs path pre []) (hs : s = if abs = true then [] else cwd) (hd : t.isDir s = true)
    (fuel : ℕ) : mkdirLoop cwd (fuel + 1) t path = some (!abs,t) := by
  cases abs with
  | true =>
    have hc := h.comps
    rw [h.ofRoot rfl] at hc
    obtain rfl : path = [] := components_injective hc
    rfl
  | false =>
    obtain rfl : s = cwd := hs
    obtain ⟨hne,hh,-⟩ := h.ofDots rfl
    have hw : t.resolve s path = some s := by
      rw [FileTree.resolve,if_neg hne,start,if_neg hh,h.comps,walk_stays hd h.stay]
      rfl
    rw [mkdirLoop,if_neg (by simpa using hne),if_pos (by simpa [isDir,hw] using hd)]
    rfl

/-- What `_MKDIR` does where the components are not all there, by what it did for all but the last. -/
theorem mkdirLoop_concat (h : Leads abs path pre (cs ++ [c])) (hs : s = if abs = true then [] else cwd)
    (hd : t.isDir s = true) (hw : t.walk s (cs ++ [c]) = none) {fuel : ℕ} {pre' : List Name} {path' : Str}
    (he : path' = if path.head? ≠ some '/' then "./" ++ path else path) {b : Bool} {t' : FileTree κ}
    (hl : Leads abs path' pre' (cs ++ [c])) (hr : mkdirLoop cwd fuel t (beforeSlash path') = some (b,t'))
    (hm : b = true → Made t t' s cs) :
    ∃ t'', mkdirLoop cwd (fuel + 1) t path = some (b && decide (Proper c),t'') ∧
      (b = true → Proper c → Made t t'' s (cs ++ [c])) := by
  have hres := h.resolve hs hd
  rw [hw] at hres
  rw [mkdirLoop,if_neg (by simpa using h.ne_nil),if_neg (by simp [isDir,hres]),if_neg (by simp [isFile,hres]),← he]
  simp only [hr]
  cases b with
  | false => exact ⟨t',rfl,nofun⟩
  | true =>
    have hmade := hm rfl
    have hd' := hmade.base hd
    obtain ⟨p,hp,hpd,hsame⟩ := hmade
    have hres' : t'.resolve cwd path' = t'.step p c := by
      rw [hl.resolve hs hd',walk_concat,hp,Option.bind_some]
    by_cases hc : Proper c
    · have hnone : t'.node (p ++ [c]) = none := by
        rw [hsame _ (not_prefix_self p c)]
        by_contra hn
        have hn' : (t.node (p ++ [c])).isSome = true := Option.ne_none_iff_isSome.mp hn
        have hpd := isDir_dropLast hn'
        rw [List.dropLast_concat] at hpd
        rw [walk_concat,(hm rfl).walk hd hd' hp hn',Option.bind_some,step_proper hc,if_pos ⟨hpd,hn'⟩] at hw
        cases hw
      have hfile : fileExists t' cwd path' = false := by
        simp [fileExists,hres',step_proper hc,hnone]
      simp only [hfile,hl.mkdir hs hd' hp hc ⟨hpd,hnone⟩]
      exact ⟨_,by simp [hc],fun _ _ => (hm rfl).concat (isSome_of_isDir hd') hp hc ⟨hpd,hnone⟩⟩
    · have hfile : fileExists t' cwd path' = true := by
        simp [fileExists,hres',step_improper hpd hc]
      simp only [hfile]
      exact ⟨t',by simp [hc],fun _ h => absurd h hc⟩

/-- `_MKDIR` is at an end after one call more than there are components, and does what can be done by names alone. -/
theorem mkdirLoop_spec (hs : s = if abs = true then [] else cwd) (hd : t.isDir s = true)
    (hu : ∀ as p, as <+: cs → t.walk s as = some p → t.isDir p = true) (h : Leads abs path pre cs) {fuel : ℕ}
    (hf : cs.length < fuel) : ∃ b t', mkdirLoop cwd fuel t path = some (b,t') ∧ (b = true ↔ Missing t s abs cs) ∧
      (b = true → Made t t' s cs) := by
  obtain ⟨fuel,rfl⟩ : ∃ n, fuel = n + 1 := ⟨fuel - 1,by omega⟩
  induction cs using List.reverseRecOn generalizing path pre fuel with
  | nil =>
    refine ⟨!abs,t,mkdirLoop_stay h hs hd fuel,?_,fun _ => ⟨s,rfl,hd,fun _ _ => rfl⟩⟩
    constructor
    · intro hb
      exact ⟨[],[],s,rfl,by simpa using hb,rfl,hd,nofun⟩
    · rintro ⟨as,bs,p,he,ha,-⟩
      have : as = [] := (List.append_eq_nil_iff.mp he.symm).1
      cases abs with
      | false => rfl
      | true => exact absurd this (ha rfl)
  | append_singleton cs c ih =>
    cases hw : t.walk s (cs ++ [c]) with
    | some p =>
      have hp := hu _ _ List.prefix_rfl hw
      have hres := h.resolve hs hd
      rw [hw] at hres
      refine ⟨true,t,?_,iff_of_true rfl (Missing.ofWalk hw hp),fun _ => ⟨p,hw,hp,fun _ _ => rfl⟩⟩
      rw [mkdirLoop,if_neg (by simpa using h.ne_nil),if_pos (by simpa [isDir,hres] using hp)]
    | none =>
      obtain ⟨pre',hl,hb⟩ := h.next
      rw [List.length_append,List.length_singleton] at hf
      obtain ⟨fuel,rfl⟩ : ∃ n, fuel = n + 1 := ⟨fuel - 1,by omega⟩
      obtain ⟨b,t',hr,hiff,hm⟩ :=
        ih (fun as p ha => hu as p (ha.trans (List.prefix_append _ _))) hb fuel (by omega)
      obtain ⟨t'',hr',hm'⟩ := mkdirLoop_concat h hs hd hw rfl hl hr hm
      refine ⟨_,t'',hr',?_,fun hbc => ?_⟩
      · rw [Bool.and_eq_true,hiff,decide_eq_true_iff]
        exact ⟨fun hx => hx.1.concat hx.2,fun hx => hx.ofConcat hw⟩
      · rw [Bool.and_eq_true,decide_eq_true_iff] at hbc
        exact hm' hbc.1 hbc.2

theorem mkdirLoop_succ {fuel : ℕ} {r : Bool × FileTree κ} (h : mkdirLoop cwd fuel t path = some r) :
    mkdirLoop cwd (fuel + 1) t path = some r := by
  induction fuel generalizing path r with
  | zero => cases h
  | succ fuel ih =>
    rw [mkdirLoop] at h ⊢
    by_cases hn : null path = true
    · rwa [if_pos hn] at h ⊢
    · rw [if_neg hn] at h ⊢
      by_cases hd : isDir t cwd path = true
      · rwa [if_pos hd] at h ⊢
      · rw [if_neg hd] at h ⊢
        by_cases hf : isFile t cwd path = true
        · rwa [if_pos hf] at h ⊢
        · rw [if_neg hf] at h ⊢
          simp only at h ⊢
          cases hr : mkdirLoop cwd fuel t (beforeSlash (if path.head? ≠ some '/' then "./" ++ path else path)) with
          | none =>
            rw [hr] at h
            cases h
          | some x =>
            rw [hr] at h
            rw [ih hr]
            exact h

theorem mkdirLoop_mono {m n : ℕ} {r : Bool × FileTree κ} (h : mkdirLoop cwd m t path = some r) (hmn : m ≤ n) :
    mkdirLoop cwd n t path = some r := by
  induction hmn with
  | refl => exact h
  | step _ ih => exact mkdirLoop_succ ih

theorem leads_rest (h : path ≠ []) :
    ∃ pre, Leads (decide (path.head? = some '/')) path pre (rest path) ∧ pre.length + (rest path).length =
      (components path).length := by
  by_cases hh : path.head? = some '/'
  · obtain ⟨r,rfl⟩ : ∃ r, path = '/'::r := by
      cases path with
      | nil => cases hh
      | cons x r => exact ⟨r,by rw [Option.some.inj hh]⟩
    have hr : rest ('/'::r) = components r := by rw [rest,if_pos hh,components_slash,List.tail_cons]
    refine ⟨[[]],⟨by rw [hr,components_slash,List.singleton_append],fun _ => rfl,by simp⟩,?_⟩
    rw [hr,components_slash]
    simp [Nat.add_comm]
  · have hr : rest path = components path := if_neg hh
    exact ⟨[],⟨by rw [hr,List.nil_append],by simp [hh],fun _ => ⟨h,hh,nofun⟩⟩,by rw [hr]; simp⟩

end Loop

/-- `_MKDIR` always returns, and what it returned TRUE for is a directory then; but where a path has a slash doubled or
at the end, or has dots in what is still missing, it makes the directory and returns FALSE, and it makes nothing in the
root. -/
theorem mkdirs_iff {t : FileTree κ} {cwd : Pos} {path : Str} (hc : t.isDir cwd = true) (hu : Unobstructed t cwd path) :
    ∃ r : Bool × FileTree κ, (∀ fuel, (components path).length < fuel → mkdirLoop cwd fuel t path = some r) ∧
      (r.1 = true → isDir r.2 cwd path = true) ∧
      (r.1 = true ∧ isDir r.2 cwd path = true ↔ Creatable t cwd path) := by
  by_cases hne : path = []
  · subst hne
    refine ⟨(false,t),fun fuel hf => ?_,nofun,iff_of_false (fun h => absurd h.1 Bool.false_ne_true) fun h => h.1 rfl⟩
    obtain ⟨fuel,rfl⟩ : ∃ n, fuel = n + 1 := ⟨fuel - 1,by omega⟩
    rfl
  · obtain ⟨pre,hl,hlen⟩ := leads_rest hne
    have hs : start cwd path = if decide (path.head? = some '/') = true then [] else cwd := by simp [start]
    have hd : t.isDir (start cwd path) = true := by
      rw [start]
      split
      · exact isDir_root
      · exact hc
    obtain ⟨b,t',hr,hiff,hm⟩ := mkdirLoop_spec hs hd hu hl (Nat.lt_succ_self _)
    have hdir : b = true → isDir t' cwd path = true := by
      intro hb
      obtain ⟨p,hw,hp,-⟩ := hm hb
      rw [isDir,FileTree.resolve,if_neg hne,hl.comps,walk_stays ((hm hb).base hd) hl.stay,hw,Option.any_some,hp]
    refine ⟨(b,t'),fun fuel hf => mkdirLoop_mono hr (by omega),hdir,?_⟩
    rw [and_iff_left_of_imp hdir,hiff]
    constructor
    · rintro ⟨as,bs,p,he,ha,hw,hp,hb⟩
      exact ⟨hne,as,bs,p,he,by simpa using ha,hw,hp,hb⟩
    · rintro ⟨-,as,bs,p,he,ha,hw,hp,hb⟩
      exact ⟨as,bs,p,he,by simpa using ha,hw,hp,hb⟩

def bare : FileTree Unit where
  node p := if p = [] then some .dir else none
  root := rfl
  parent := by
    intro p n x h
    rw [if_neg (by simp)] at h
    cases h

theorem bare_unobstructed (path : Str) : Unobstructed bare [] path := by
  intro as p _ hw
  have hs : start [] path = [] := by simp [start]
  rw [hs] at hw
  have hp := walk_isSome rfl hw
  by_cases h : p = []
  · rw [h]
    rfl
  · simp [bare,h] at hp

theorem mkdirs_iff_nested : bare.isDir [] = true ∧ Unobstructed bare [] "var/cache" ∧ ∃ r : Bool × FileTree Unit,
    (∀ fuel, (components "var/cache").length < fuel → mkdirLoop [] fuel bare "var/cache" = some r) ∧
    (r.1 = true → isDir r.2 [] "var/cache" = true) ∧
    (r.1 = true ∧ isDir r.2 [] "var/cache" = true ↔ Creatable bare [] "var/cache") :=
  ⟨rfl,bare_unobstructed _,mkdirs_iff rfl (bare_unobstructed _)⟩

/-- `cache/` is made, and the answer is FALSE. -/
theorem trailing_slash : bare.isDir [] = true ∧ Unobstructed bare [] "cache/" ∧ ∀ fuel, 3 ≤ fuel →
    ∃ t, mkdirLoop [] fuel bare "cache/" = some (false,t) ∧ isDir t [] "cache/" = true := by
  refine ⟨rfl,bare_unobstructed _,fun fuel hf => ?_⟩
  obtain ⟨t,ht,hd⟩ : ∃ t, mkdirLoop [] 3 bare "cache/" = some (false,t) ∧ isDir t [] "cache/" = true :=
    ⟨bare.addDir [] "cache" (by decide),rfl,by decide⟩
  exact ⟨t,mkdirLoop_mono ht hf,hd⟩

end MakeDirs
end Mybox
