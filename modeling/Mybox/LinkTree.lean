import Mybox.DirTree

/-! Trees of directories with symbolic links in them: where a path leads when the links on its way are followed. -/
namespace Mybox
namespace LinkTree

open DirTree

/-- What is no directory: a link with the path it stands for, or something else. -/
inductive Leaf (κ : Type)
  | link (path : List Char)
  | other (k : κ)

/-- Where one component leads. -/
inductive Step
  | at (q : Pos)
  | along (path : List Char)
  | missing
  | stuck

variable {κ : Type} (t : FileTree (Leaf κ))

def step (p : Pos) (c : Name) : Step :=
  if t.isDir p then
    if Proper c then
      match t.node (p ++ [c]) with
      | none => .missing
      | some (.file (.link path)) => .along path
      | some .dir | some (.file (.other _)) => .at (p ++ [c])
    else .at (move p c)
  else .stuck

/-- Follows components up to a link, and leaves what comes then to `next`. If `fresh`, the last component may be one
that is not there. -/
def followWith (fresh : Bool) (next : Pos → List Name → Option Pos) : Pos → List Name → Option Pos
  | p, [] => some p
  | p, c::cs =>
    match step t p c with
    | .at q => followWith fresh next q cs
    | .along path => next (start p path) (components path ++ cs)
    | .missing => if fresh ∧ cs = [] then some (p ++ [c]) else none
    | .stuck => none

/-- Follows components over at most `n` links. -/
def follow (fresh : Bool) : ℕ → Pos → List Name → Option Pos
  | 0 => followWith t fresh fun _ _ => none
  | n + 1 => followWith t fresh (follow fresh n)

def maxLinks : ℕ := 40

def pathMax : ℕ := 4096

/-- What a path stands for in a process with the working directory `cwd`. -/
def resolve (fresh : Bool) (cwd : Pos) (path : List Char) : Option Pos :=
  if path = [] ∨ pathMax ≤ path.length then none else follow t fresh maxLinks (start cwd path) (components path)

variable {t} {fresh : Bool} {n : ℕ} {p q : Pos} {c : Name} {cs : List Name}

theorem follow_nil : follow t fresh n p [] = some p := by cases n <;> rfl

theorem followWith_cons (next : Pos → List Name → Option Pos) : followWith t fresh next p (c::cs) =
    match step t p c with
    | .at q => followWith t fresh next q cs
    | .along path => next (start p path) (components path ++ cs)
    | .missing => if fresh ∧ cs = [] then some (p ++ [c]) else none
    | .stuck => none := rfl

theorem follow_zero : follow t fresh 0 p cs = followWith t fresh (fun _ _ => none) p cs := rfl

theorem follow_succ : follow t fresh (n + 1) p cs = followWith t fresh (follow t fresh n) p cs := rfl

theorem follow_at (h : step t p c = .at q) : follow t fresh n p (c::cs) = follow t fresh n q cs := by
  cases n with
  | zero => rw [follow_zero,followWith_cons,h,follow_zero]
  | succ n => rw [follow_succ,followWith_cons,h,follow_succ]

theorem follow_along {path : List Char} (h : step t p c = .along path) :
    follow t fresh (n + 1) p (c::cs) = follow t fresh n (start p path) (components path ++ cs) := by
  rw [follow_succ,followWith_cons,h]

theorem follow_along_zero {path : List Char} (h : step t p c = .along path) : follow t fresh 0 p (c::cs) = none := by
  rw [follow_zero,followWith_cons,h]

theorem follow_missing (h : step t p c = .missing) :
    follow t fresh n p (c::cs) = if fresh ∧ cs = [] then some (p ++ [c]) else none := by
  cases n with
  | zero => rw [follow_zero,followWith_cons,h]
  | succ n => rw [follow_succ,followWith_cons,h]

theorem follow_stuck (h : step t p c = .stuck) : follow t fresh n p (c::cs) = none := by
  cases n with
  | zero => rw [follow_zero,followWith_cons,h]
  | succ n => rw [follow_succ,followWith_cons,h]

/-- Induction over the components, and over the links that are left where one is followed. -/
theorem follow_induction {motive : ℕ → Pos → List Name → Prop} (nil : ∀ n p, motive n p [])
    (cons : ∀ n p c cs, (∀ q, step t p c = .at q → motive n q cs) →
      (∀ m path, n = m + 1 → step t p c = .along path → motive m (start p path) (components path ++ cs)) →
      motive n p (c::cs)) (n : ℕ) (p : Pos) (cs : List Name) : motive n p cs := by
  induction n generalizing p cs with
  | zero =>
    induction cs generalizing p with
    | nil => exact nil 0 p
    | cons c cs ih => exact cons 0 p c cs (fun q _ => ih q) nofun
  | succ n ihn =>
    induction cs generalizing p with
    | nil => exact nil _ p
    | cons c cs ih =>
      refine cons _ p c cs (fun q _ => ih q) fun m path hm _ => ?_
      obtain rfl : n = m := Nat.succ.inj hm
      exact ihn _ _

theorem isDir_of_step (h : step t p c ≠ .stuck) : t.isDir p = true := by
  by_contra hd
  exact h (if_neg hd)

/-- What is found without the last component's being new is found anyway. -/
theorem follow_mono (h : follow t false n p cs = some q) : follow t fresh n p cs = some q := by
  induction n,p,cs using follow_induction (t := t) with
  | nil n p => rwa [follow_nil] at h ⊢
  | cons n p c cs ih ihl => 
    cases hs : step t p c with
    | «at» r =>
      rw [follow_at hs] at h ⊢
      exact ih r hs h
    | along path =>
      cases n with
      | zero => cases (follow_along_zero hs).symm.trans h
      | succ n =>
        rw [follow_along hs] at h ⊢
        exact ihl n path rfl hs h
    | missing => simp [follow_missing hs] at h
    | stuck => cases (follow_stuck hs).symm.trans h

/-- What stands before the last component leads to a directory, and the last one from there. -/
theorem follow_concat (h : follow t fresh n p (cs ++ [c]) = some q) :
    ∃ m d, follow t false n p cs = some d ∧ t.isDir d = true ∧ follow t fresh m d [c] = some q := by
  induction n,p,cs using follow_induction (t := t) with
  | nil n p =>
    refine ⟨n,p,follow_nil,isDir_of_step (c := c) fun hs => ?_,h⟩
    cases (follow_stuck hs).symm.trans h
  | cons n p b cs ih ihl => 
    rw [List.cons_append] at h
    cases hs : step t p b with
    | «at» r =>
      rw [follow_at hs] at h ⊢
      exact ih r hs h
    | along path =>
      cases n with
      | zero => cases (follow_along_zero hs).symm.trans h
      | succ n =>
        rw [follow_along hs,← List.append_assoc] at h
        rw [follow_along hs]
        exact ihl n path rfl hs h
    | missing => simp [follow_missing hs] at h
    | stuck => cases (follow_stuck hs).symm.trans h

theorem step_improper (hd : t.isDir p = true) (hc : ¬Proper c) : step t p c = .at (move p c) := by
  rw [step,if_pos hd,if_neg hc]

theorem isDir_move (hd : t.isDir p = true) (hc : ¬Proper c) : t.isDir (move p c) = true := by
  rw [move]
  split_ifs with hs hb
  · exact hd
  · exact isDir_dropLast (isSome_of_isDir hd)
  · exact absurd ⟨(not_or.mp hs).1,(not_or.mp hs).2,hb⟩ hc

theorem follow_concat_stay (hc : c = [] ∨ c = ['.']) (h : follow t fresh n p (cs ++ [c]) = some q) :
    follow t false n p cs = some q ∧ t.isDir q = true := by
  obtain ⟨m,d,hf,hd,hl⟩ := follow_concat h
  have hi : ¬Proper c := fun hp => hc.elim hp.1 hp.2.1
  rw [follow_at (step_improper hd hi),move_stay hc,follow_nil] at hl
  obtain rfl := Option.some.inj hl
  exact ⟨hf,hd⟩

/-- The end of a path that is no directory is an entry of one: a link, or what the path stands for. -/
theorem follow_entry (h : follow t false n p (cs ++ [c]) = some q) (hq : t.isDir q = false) :
    ∃ d, follow t false n p cs = some d ∧ t.isDir d = true ∧
      ((∃ path, t.node (d ++ [c]) = some (.file (.link path))) ∨
       (∃ k, t.node (d ++ [c]) = some (.file (.other k))) ∧ q = d ++ [c]) := by
  obtain ⟨m,d,hf,hd,hl⟩ := follow_concat h
  refine ⟨d,hf,hd,?_⟩
  by_cases hc : Proper c
  · cases hn : t.node (d ++ [c]) with
    | none =>
      have hs : step t d c = .missing := by rw [step,if_pos hd,if_pos hc,hn]
      simp [follow_missing hs] at hl
    | some x =>
      match x with
      | .file (.link path) => exact .inl ⟨path,rfl⟩
      | .file (.other k) =>
        have hs : step t d c = .at (d ++ [c]) := by rw [step,if_pos hd,if_pos hc,hn]
        rw [follow_at hs,follow_nil] at hl
        exact .inr ⟨⟨k,rfl⟩,(Option.some.inj hl).symm⟩
      | .dir =>
        have hs : step t d c = .at (d ++ [c]) := by rw [step,if_pos hd,if_pos hc,hn]
        rw [follow_at hs,follow_nil] at hl
        rw [← Option.some.inj hl,isDir_iff.mpr hn] at hq
        cases hq
  · rw [follow_at (step_improper hd hc),follow_nil] at hl
    rw [← Option.some.inj hl,isDir_move hd hc] at hq
    cases hq

def stripSlashes (path : List Char) : List Char := path.rdropWhile (· = '/')

def dirname (path : List Char) : List Char :=
  let s := stripSlashes path
  if '/' ∈ s then
    let d := stripSlashes (s.rdropWhile (· ≠ '/'))
    if d = [] then ['/'] else d
  else if path.head? = some '/' then ['/'] else ['.']

theorem length_stripSlashes (path : List Char) : (stripSlashes path).length ≤ path.length :=
  List.IsPrefix.length_le (List.rdropWhile_prefix _ _)

theorem stripSlashes_concat (a : List Char) : stripSlashes (a ++ ['/']) = stripSlashes a :=
  List.rdropWhile_concat_pos _ _ _ (by simp)

theorem length_dirname {path : List Char} (h : 1 < path.length) : (dirname path).length < path.length := by
  have hs := length_stripSlashes path
  simp only [dirname]
  split
  next hm =>
    split
    · exact h
    -- what is left of the last name ends in a slash, which goes, too
    · have hne : (stripSlashes path).rdropWhile (· ≠ '/') ≠ [] := fun he => by
        simpa using List.rdropWhile_eq_nil_iff.mp he '/' hm
      obtain ⟨r,x,hr⟩ := (List.eq_nil_or_concat' _).resolve_left hne
      have hx : x = '/' := by
        have hl := List.rdropWhile_last_not _ _ hne
        simp only [hr,List.getLast_concat] at hl
        simpa using hl
      have hp := List.IsPrefix.length_le (List.rdropWhile_prefix (· ≠ '/') (stripSlashes path))
      rw [hr,hx,stripSlashes_concat]
      rw [hr,List.length_append,List.length_singleton] at hp
      have := length_stripSlashes r
      omega
  next => split <;> exact h

theorem dirname_append {a c : List Char} (hc : '/' ∉ c) (hne : c ≠ []) (ha : stripSlashes a ≠ []) :
    dirname (a ++ '/'::c) = stripSlashes a := by
  have hs : stripSlashes (a ++ '/'::c) = a ++ '/'::c := by
    obtain ⟨b,x,rfl⟩ := (List.eq_nil_or_concat' c).resolve_left hne
    rw [← List.cons_append,← List.append_assoc]
    exact List.rdropWhile_concat_neg _ _ _ (by simpa using fun he => hc (by simp [he]))
  have hd : (a ++ '/'::c).rdropWhile (· ≠ '/') = a ++ ['/'] := by
    have hr : ∀ x ∈ c.reverse, decide (x ≠ '/') = true := fun x hx =>
      decide_eq_true fun he => hc (by rw [← he]; exact List.mem_reverse.mp hx)
    rw [List.rdropWhile,List.reverse_append,List.reverse_cons,List.append_assoc,List.dropWhile_append_of_pos hr]
    simp
  simp only [dirname]
  rw [hs,hd,stripSlashes_concat,if_pos (by simp),if_neg ha]

/-- Slashes at the end say that it is a directory, and nothing else. -/
theorem follow_stripSlashes {a : List Char} (h : follow t false n p (components a) = some q) :
    follow t false n p (components (stripSlashes a)) = some q := by
  induction a using List.reverseRecOn with
  | nil => exact h
  | append_singleton a x ih =>
    by_cases hx : x = '/'
    · rw [stripSlashes,List.rdropWhile_concat_pos _ _ _ (by simpa using hx)]
      rw [hx,components_append] at h
      exact ih (follow_concat_stay (.inl rfl) h).1
    · rwa [stripSlashes,List.rdropWhile_concat_neg _ _ _ (by simpa using hx)]

end LinkTree
end Mybox
