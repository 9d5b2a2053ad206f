import Mybox.LinkTree
import Mybox.Php

/-! `_DELDIR` deletes a directory with all that is in it, and `_CLEARDIR` what is in one. They ask of every entry what
it is, where a link stands for what it leads to. -/
namespace Mybox
namespace DeleteDirs

open Php DirTree LinkTree

/-- What is no directory and no link: a file, or else a socket, a pipe or a device. -/
inductive Kind
  | regular
  | special
  deriving DecidableEq

/-- The directories as they are read. -/
structure Disk where
  tree : FileTree (Leaf Kind)
  names : Pos → List Name
  mem_names : ∀ {p n}, n ∈ names p ↔ (tree.node (p ++ [n])).isSome = true
  proper : ∀ {p n}, (tree.node (p ++ [n])).isSome = true → Proper n ∧ '/' ∉ n

def Disk.cut (d : Disk) (K : Pos → Prop) [DecidablePred K] (h : K []) (hK : ∀ p n, K (p ++ [n]) → K p) : Disk where
  tree := d.tree.restrict K h hK
  names p := (d.names p).filter fun n => K (p ++ [n])
  mem_names := by
    intro p n
    rw [restrict_isSome,List.mem_filter,d.mem_names,decide_eq_true_iff,and_comm]
  proper hx := d.proper (restrict_isSome.mp hx).2

def Disk.erase (d : Disk) (p : Pos) (n : Name) : Disk :=
  d.cut (fun q => ¬p ++ [n] <+: q) (by simp) fun _ m h hp => h (hp.trans (List.prefix_append _ [m]))

def fileExists (d : Disk) (cwd : Pos) (path : Str) : Bool := (resolve d.tree false cwd path).isSome

def isFile (d : Disk) (cwd : Pos) (path : Str) : Bool :=
  (resolve d.tree false cwd path).any fun p =>
    match d.tree.node p with
    | some (.file (.other .regular)) => true
    | _ => false

def isDir (d : Disk) (cwd : Pos) (path : Str) : Bool := (resolve d.tree false cwd path).any d.tree.isDir

/-- The directory of a path and the name in it, for what does not follow the last component. -/
def place (t : FileTree (Leaf Kind)) (cwd : Pos) (path : Str) : Option (Pos × Name) :=
  if path = [] ∨ pathMax ≤ path.length then none
  else
    let cs := (components path).rdropWhile (· = [])
    cs.getLast?.bind fun n =>
      if Proper n then (follow t false maxLinks (start cwd path) cs.dropLast).map (·,n) else none

def unlink (d : Disk) (cwd : Pos) (path : Str) : Bool × Disk :=
  if path.getLast? = some '/' then (false,d)
  else
    match place d.tree cwd path with
    | none => (false,d)
    | some (p,n) =>
      match d.tree.node (p ++ [n]) with
      | some (.file _) => (true,d.erase p n)
      | _ => (false,d)

def rmdir (d : Disk) (cwd : Pos) (path : Str) : Bool × Disk :=
  match place d.tree cwd path with
  | none => (false,d)
  | some (p,n) => if d.tree.isDir (p ++ [n]) ∧ d.names (p ++ [n]) = [] then (true,d.erase p n) else (false,d)

/-- What `read` gives of a directory. -/
def entries (d : Disk) (cwd : Pos) (path : Str) : List Name :=
  ['.']::['.','.']::((resolve d.tree false cwd path).elim [] d.names)

/-- `_DELDIR`, as long as it does not call itself more than `fuel` times. -/
def delDirLoop (cwd : Pos) : ℕ → Disk → Str → Bool × Disk
  | 0, d, _ => (false,d)
  | fuel + 1, d, dirname =>
    if !fileExists d cwd dirname then (false,d)
    else if isFile d cwd dirname then unlink d cwd dirname
    else if !isDir d cwd dirname then (false,d)
    else
      let d := (entries d cwd dirname).foldl (fun d entry => if entry = ['.'] ∨ entry = ['.','.'] then d
        else (delDirLoop cwd fuel d (dirname ++ '/'::entry)).2) d
      rmdir d cwd dirname

/-- `_DELDIR`; no path is as long as `pathMax`. -/
def delDir (cwd : Pos) (d : Disk) (dirname : Str) : Bool × Disk := delDirLoop cwd pathMax d dirname

/-- `_CLEARDIR`, with the directory the process is left in. -/
def clearDir (cwd : Pos) (d : Disk) (dirname : Str) : Pos × Disk :=
  match (resolve d.tree false cwd dirname).filter fun p => d.tree.isDir p with
  | none => (cwd,d)
  | some p => (p,(entries d p ".").foldl
      (fun d entry => if entry = ['.'] ∨ entry = ['.','.'] then d else (delDir p d entry).2) d)

-- A tree within another one: what is in it is in the other at the same place.
section Within

variable {κ : Type} {t u v : FileTree (Leaf κ)} {p q : Pos} {c : Name} {cs : List Name} {n : ℕ}

def Within (u t : FileTree (Leaf κ)) : Prop := ∀ q, u.node q = none ∨ u.node q = t.node q

theorem Within.trans (h : Within v u) (h' : Within u t) : Within v t := by
  intro q
  rcases h q with hq | hq
  · exact Or.inl hq
  · rw [hq]
    exact h' q

theorem within_restrict {K : Pos → Prop} [DecidablePred K] {h : K []} {hK : ∀ p n, K (p ++ [n]) → K p} :
    Within (t.restrict K h hK) t := by
  intro q
  rw [restrict_node]
  split
  · exact Or.inr rfl
  · exact Or.inl rfl

theorem Within.node (h : Within u t) {x : Node (Leaf κ)} (hx : u.node p = some x) : t.node p = some x := by
  rcases h p with hp | hp
  · cases hx.symm.trans hp
  · rw [← hp,hx]

theorem Within.isDir (h : Within u t) (hd : u.isDir p = true) : t.isDir p = true :=
  isDir_iff.mpr (h.node (isDir_iff.mp hd))

theorem Within.step (h : Within u t) : (∀ q, step u p c = .at q → step t p c = .at q) ∧
    ∀ l, step u p c = .along l → step t p c = .along l := by
  by_cases hd : u.isDir p = true
  · rw [LinkTree.step,LinkTree.step,if_pos hd,if_pos (h.isDir hd)]
    by_cases hc : Proper c
    · rw [if_pos hc,if_pos hc]
      cases hn : u.node (p ++ [c]) with
      | none => exact ⟨by simp,by simp⟩
      | some x =>
        rw [h.node hn]
        exact ⟨fun _ => id,fun _ => id⟩
    · rw [if_neg hc,if_neg hc]
      exact ⟨fun _ => id,fun _ => id⟩
  · rw [LinkTree.step,if_neg hd]
    exact ⟨by simp,by simp⟩

theorem Within.follow (h : Within u t) (hf : follow u false n p cs = some q) : follow t false n p cs = some q := by
  induction n,p,cs using follow_induction (t := u) with
  | nil n p => rwa [follow_nil] at hf ⊢
  | cons n p c cs ih ihl =>
    cases hs : LinkTree.step u p c with
    | «at» r =>
      rw [follow_at hs] at hf
      rw [follow_at (h.step.1 r hs)]
      exact ih r hs hf
    | along path =>
      cases n with
      | zero => cases (follow_along_zero hs).symm.trans hf
      | succ n =>
        rw [follow_along hs] at hf
        rw [follow_along (h.step.2 path hs)]
        exact ihl n path rfl hs hf
    | missing => simp [follow_missing hs] at hf
    | stuck => cases (follow_stuck hs).symm.trans hf

/-- A path with one name more, if there is no link of this name. -/
theorem follow_end (hf : follow t false n p cs = some q) (hc : Proper c)
    (hl : ∀ l, t.node (q ++ [c]) ≠ some (.file (.link l))) :
    follow t false n p (cs ++ [c]) = if (t.node (q ++ [c])).isSome then some (q ++ [c]) else none := by
  induction n,p,cs using follow_induction (t := t) with
  | nil n p =>
    rw [follow_nil] at hf
    obtain rfl := Option.some.inj hf
    rw [List.nil_append]
    by_cases hd : t.isDir p = true
    · cases hn : t.node (p ++ [c]) with
      | none =>
        have hs : LinkTree.step t p c = .missing := by rw [LinkTree.step,if_pos hd,if_pos hc,hn]
        simp [follow_missing hs]
      | some x =>
        have hs : LinkTree.step t p c = .at (p ++ [c]) := by
          rw [LinkTree.step,if_pos hd,if_pos hc,hn]
          cases x with
          | dir => rfl
          | file a =>
            cases a with
            | link l => exact absurd hn (hl l)
            | other _ => rfl
        rw [follow_at hs,follow_nil]
        rfl
    · have hs : LinkTree.step t p c = .stuck := if_neg hd
      cases hn : t.node (p ++ [c]) with
      | none => rw [follow_stuck hs]; rfl
      | some x => exact absurd (isDir_iff.mpr (t.parent hn)) hd
  | cons n p c cs ih ihl =>
    rw [List.cons_append]
    cases hs : LinkTree.step t p c with
    | «at» r =>
      rw [follow_at hs] at hf ⊢
      exact ih r hs hf
    | along path =>
      cases n with
      | zero => cases (follow_along_zero hs).symm.trans hf
      | succ n =>
        rw [follow_along hs] at hf ⊢
        rw [← List.append_assoc]
        exact ihl n path rfl hs hf
    | missing => simp [follow_missing hs] at hf
    | stuck => cases (follow_stuck hs).symm.trans hf

end Within

-- Deletion: what is left of it are the special files, and the directories on the way to them.
def Stays (t : FileTree (Leaf Kind)) (q : Pos) : Prop := ∃ r, q <+: r ∧ t.node r = some (.file (.other .special))

/-- Of what is in `U` no more is left than has to stay, and the rest is as it was. -/
structure Cleared (t t' : FileTree (Leaf Kind)) (U : Pos → Prop) : Prop where
  gone : ∀ q, U q → ¬Stays t q → t'.node q = none
  same : ∀ q, ¬U q ∨ Stays t q → t'.node q = t.node q

section Cleared

variable {t t' t'' : FileTree (Leaf Kind)} {U V : Pos → Prop} {p q : Pos}

theorem Cleared.within (h : Cleared t t' U) : Within t' t := by
  intro q
  by_cases hq : U q ∧ ¬Stays t q
  · exact Or.inl (h.gone q hq.1 hq.2)
  · refine Or.inr (h.same q ?_)
    rwa [not_and_or,not_not] at hq

theorem Cleared.stays (h : Cleared t t' U) : Stays t' q ↔ Stays t q := by
  constructor
  · rintro ⟨r,hr,hs⟩
    exact ⟨r,hr,h.within.node hs⟩
  · rintro ⟨r,hr,hs⟩
    exact ⟨r,hr,(h.same r (Or.inr ⟨r,List.prefix_rfl,hs⟩)).trans hs⟩

theorem Cleared.trans (h : Cleared t t' U) (h' : Cleared t' t'' V) : Cleared t t'' fun q => U q ∨ V q := by
  constructor
  · rintro q hq hs
    by_cases hv : V q
    · exact h'.gone q hv fun hs' => hs (h.stays.mp hs')
    · rw [h'.same q (Or.inl hv)]
      exact h.gone q (hq.resolve_right hv) hs
  · rintro q hq
    rw [not_or] at hq
    rw [h'.same q (hq.imp And.right h.stays.mpr),h.same q (hq.imp And.left id)]

theorem Cleared.congr (h : Cleared t t' U) (hUV : ∀ q, (t.node q).isSome = true → (U q ↔ V q)) : Cleared t t' V := by
  constructor
  · intro q hv hs
    cases hq : t.node q with
    | none =>
      rcases h.within q with hn | hn
      · exact hn
      · rw [hn,hq]
    | some x => exact h.gone q ((hUV q (by rw [hq]; rfl)).mpr hv) hs
  · intro q hv
    cases hq : t.node q with
    | none =>
      rcases h.within q with hn | hn
      · exact hn
      · rw [hn,hq]
    | some x =>
      rw [← hq]
      exact h.same q (hv.imp_left fun hv hu => hv ((hUV q (by rw [hq]; rfl)).mp hu))

theorem eq_of_below (hd : t.isDir p = false) (hq : (t.node q).isSome = true) (hp : p <+: q) : q = p := by
  by_contra hne
  rw [isDir_above hq hp (Ne.symm hne)] at hd
  cases hd

theorem cleared_none (h : t.node p = none) : Cleared t t (p <+: ·) := by
  refine ⟨fun q hp _ => ?_,fun _ _ => rfl⟩
  cases hq : t.node q with
  | none => rfl
  | some x =>
    have hd : t.isDir p = false := by simp [FileTree.isDir,h]
    rw [eq_of_below hd (by rw [hq]; rfl) hp,h] at hq
    cases hq

theorem cleared_special (h : t.node p = some (.file (.other .special))) : Cleared t t (p <+: ·) := by
  refine ⟨fun q hp hs => ?_,fun _ _ => rfl⟩
  cases hq : t.node q with
  | none => rfl
  | some x =>
    have hd : t.isDir p = false := by simp [FileTree.isDir,h,Node.isDir]
    rw [eq_of_below hd (by rw [hq]; rfl) hp] at hs
    exact absurd ⟨p,List.prefix_rfl,h⟩ hs

theorem erase_node {d : Disk} {n : Name} (q : Pos) :
    (d.erase p n).tree.node q = if p ++ [n] <+: q then none else d.tree.node q := by
  rw [Disk.erase,Disk.cut,restrict_node,ite_not]

theorem cleared_erase {d : Disk} {n : Name} (h : ¬Stays d.tree (p ++ [n])) :
    Cleared d.tree (d.erase p n).tree (p ++ [n] <+: ·) := by
  constructor
  · intro q hq _
    rw [erase_node,if_pos hq]
  · intro q hq
    rw [erase_node,if_neg]
    intro hp
    obtain ⟨r,hr,hs⟩ := hq.resolve_left (not_not.mpr hp)
    exact h ⟨r,hp.trans hr,hs⟩

end Cleared

section Run

variable {d d' : Disk} {cwd p q : Pos} {path : Str} {e : Name}

def above (t : FileTree (Leaf Kind)) (p : Pos) : FileTree (Leaf Kind) :=
  t.restrict (fun q => q = p ∨ ¬p <+: q) (by cases p <;> simp) fun q n h => by
    refine Or.inr fun hp => ?_
    have hn : p <+: q ++ [n] := hp.trans (List.prefix_append _ _)
    have he := h.resolve_right (not_not.mpr hn)
    have hl := hp.length_le
    rw [← he,List.length_append,List.length_singleton] at hl
    omega

/-- The path leads to `p` without going through it; there are no links there or below, and no path is too long. -/
structure Stands (d : Disk) (cwd : Pos) (path : Str) (p : Pos) : Prop where
  way : ∃ par n cs, p = par ++ [n] ∧ Proper n ∧ components path = cs ++ [n] ∧
    follow (above d.tree p) false maxLinks (start cwd path) cs = some par
  nolink : ∀ r l, p <+: r → d.tree.node r ≠ some (.file (.link l))
  short : ∀ r, (d.tree.node (p ++ r)).isSome = true → path.length + (r.flatMap ('/' :: ·)).length < pathMax

theorem Stands.ne_nil (h : Stands d cwd path p) : path ≠ [] := by
  obtain ⟨par,n,cs,-,hn,hc,-⟩ := h.way
  rintro rfl
  have hc' : [] ++ [[]] = cs ++ [n] := hc
  exact hn.1 (List.cons.inj (List.append_inj' hc' rfl).2).1.symm

theorem Stands.resolve (h : Stands d cwd path p) :
    resolve d.tree false cwd path = if (d.tree.node p).isSome then some p else none := by
  obtain ⟨par,n,cs,rfl,hn,hc,hf⟩ := h.way
  have he := follow_end (within_restrict.follow hf) hn fun l => h.nolink _ l List.prefix_rfl
  rw [LinkTree.resolve,hc,he]
  by_cases hp : (d.tree.node (par ++ [n])).isSome = true
  · have hs := h.short [] (by rwa [List.append_nil])
    rw [if_neg (not_or.mpr ⟨h.ne_nil,by simpa using hs⟩)]
  · rw [if_neg hp,ite_self]

theorem Stands.place (h : Stands d cwd path p) (hp : (d.tree.node p).isSome = true) :
    ∃ par n, p = par ++ [n] ∧ place d.tree cwd path = some (par,n) ∧ path.getLast? ≠ some '/' := by
  obtain ⟨par,n,cs,rfl,hn,hc,hf⟩ := h.way
  refine ⟨par,n,rfl,?_,fun hl => ?_⟩
  · have hs := h.short [] (by rwa [List.append_nil])
    rw [DeleteDirs.place,if_neg (not_or.mpr ⟨h.ne_nil,by simpa using hs⟩),hc,
      List.rdropWhile_concat_neg _ _ _ (by simpa using hn.1)]
    simp [hn,within_restrict.follow hf]
  · obtain ⟨a,rfl⟩ := List.getLast?_eq_some_iff.mp hl
    rw [components_append] at hc
    exact hn.1 (List.cons.inj (List.append_inj' hc rfl).2).1.symm

theorem Stands.after (h : Stands d cwd path p) {U : Pos → Prop} (hU : ∀ q, U q → p <+: q ∧ q ≠ p)
    (hc : Cleared d.tree d'.tree U) : Stands d' cwd path p := by
  obtain ⟨par,n,cs,hp,hn,hcs,hf⟩ := h.way
  refine ⟨⟨par,n,cs,hp,hn,hcs,Within.follow (fun q => ?_) hf⟩,fun r l hr hl => h.nolink r l hr (hc.within.node hl),
    fun r hr => h.short r ?_⟩
  · rw [above,above,restrict_node,restrict_node]
    split
    · rename_i hq
      exact Or.inr (hc.same q (Or.inl fun hu => hq.elim (hU q hu).2 fun hq => hq (hU q hu).1)).symm
    · exact Or.inl rfl
  · obtain ⟨x,hx⟩ := Option.isSome_iff_exists.mp hr
    rw [hc.within.node hx]
    rfl

/-- The path leads to the directory `p`, through links or not, but not through `p` itself. -/
structure Leads (d : Disk) (cwd : Pos) (path : Str) (p : Pos) : Prop where
  ne_nil : path ≠ []
  way : follow (above d.tree p) false maxLinks (start cwd path) (components path) = some p
  isDir : d.tree.isDir p = true
  nolink : ∀ r l, p <+: r → d.tree.node r ≠ some (.file (.link l))
  short : ∀ r, (d.tree.node (p ++ r)).isSome = true → path.length + (r.flatMap ('/' :: ·)).length < pathMax

theorem above_node : (above d.tree p).node p = d.tree.node p := by rw [above,restrict_node,if_pos (Or.inl rfl)]

theorem Stands.leads (h : Stands d cwd path p) (hd : d.tree.isDir p = true) : Leads d cwd path p := by
  refine ⟨h.ne_nil,?_,hd,h.nolink,h.short⟩
  obtain ⟨par,n,cs,rfl,hn,hcs,hf⟩ := h.way
  rw [hcs,follow_end hf hn (by simp [above_node,isDir_iff.mp hd]),above_node,isDir_iff.mp hd]
  rfl

theorem Leads.resolve (h : Leads d cwd path p) : resolve d.tree false cwd path = some p := by
  have hs := h.short [] (by rw [List.append_nil]; exact isSome_of_isDir h.isDir)
  rw [LinkTree.resolve,if_neg (not_or.mpr ⟨h.ne_nil,by simpa using hs⟩),within_restrict.follow h.way]

/-- An entry stands where its directory has it, also after others have gone. -/
theorem Leads.entry (h : Leads d cwd path p) {U : Pos → Prop} (hU : ∀ q, U q → p <+: q ∧ q ≠ p)
    (hc : Cleared d.tree d'.tree U) (he : Proper e ∧ '/' ∉ e) : Stands d' cwd (path ++ '/'::e) (p ++ [e]) := by
  have hpe : ¬p ++ [e] <+: p := fun hx => by
    have hl := hx.length_le
    rw [List.length_append,List.length_singleton] at hl
    omega
  have hw : Within (above d.tree p) (above d'.tree (p ++ [e])) := by
    intro q
    rw [above,above,restrict_node,restrict_node]
    split
    · rename_i hq
      right
      rw [if_pos,hc.same q (Or.inl fun hu => hq.elim (hU q hu).2 fun hq => hq (hU q hu).1)]
      exact Or.inr fun hx => hq.elim (fun hq => hpe (hq ▸ hx)) fun hq => hq ((List.prefix_append _ _).trans hx)
    · exact Or.inl rfl
  refine ⟨⟨p,e,components path,rfl,he.1,by rw [components_append,components_single he.2],?_⟩,?_,?_⟩
  · have hst : start cwd (path ++ '/'::e) = start cwd path := by
      rw [start,start,List.head?_append_of_ne_nil _ h.ne_nil]
    rw [hst]
    exact hw.follow h.way
  · intro r l hr hl
    exact h.nolink r l ((List.prefix_append _ _).trans hr) (hc.within.node hl)
  · intro r hr
    obtain ⟨x,hx⟩ := Option.isSome_iff_exists.mp hr
    rw [List.append_assoc] at hx
    have hs := h.short ([e] ++ r) (by rw [hc.within.node hx]; rfl)
    rw [List.flatMap_append,List.length_append,List.flatMap_singleton,List.length_cons] at hs
    rw [List.length_append,List.length_cons]
    omega

def Under (p : Pos) (es : List Name) (q : Pos) : Prop := ∃ e ∈ es, p ++ [e] <+: q

theorem Under.below {es : List Name} (h : Under p es q) : p <+: q ∧ q ≠ p := by
  obtain ⟨e,-,he⟩ := h
  refine ⟨(List.prefix_append _ _).trans he,?_⟩
  rintro rfl
  have hl := he.length_le
  rw [List.length_append,List.length_singleton] at hl
  omega

theorem foldl_cleared {t : FileTree (Leaf Kind)} {f : Disk → Name → Disk} {es : List Name}
    (hf : ∀ d' S, Cleared t d'.tree (Under p S) → ∀ e ∈ es, Cleared d'.tree (f d' e).tree (p ++ [e] <+: ·))
    {S : List Name} (hd : Cleared t d.tree (Under p S)) : Cleared t (es.foldl f d).tree (Under p (S ++ es)) := by
  induction es generalizing d S with
  | nil => rwa [List.append_nil]
  | cons e es ih =>
    have h := hd.trans (hf d S hd e List.mem_cons_self)
    have h' : Cleared t (f d e).tree (Under p (S ++ [e])) := h.congr fun q _ => by simp [Under,or_and_right,exists_or]
    have hr := ih (fun d' S hd e he => hf d' S hd e (List.mem_cons_of_mem _ he)) h'
    rwa [List.append_assoc] at hr

theorem under_names {es : List Name} (hes : d.names p ⊆ es)
    (hq : (d.tree.node q).isSome = true) : Under p es q ↔ p <+: q ∧ q ≠ p := by
  refine ⟨Under.below,?_⟩
  rintro ⟨⟨r,hr⟩,hne⟩
  cases r with
  | nil => exact absurd (by rw [← hr,List.append_nil]) hne
  | cons e r =>
    have hpre : p ++ [e] <+: q := ⟨r,by rw [← hr,List.append_assoc]; rfl⟩
    refine ⟨e,hes (d.mem_names.mpr ?_),hpre⟩
    by_cases he : p ++ [e] = q
    · rw [he]
      exact hq
    · exact isSome_of_isDir (isDir_above hq hpre he)

theorem within_refl (t : FileTree (Leaf Kind)) : Within t t := fun _ => Or.inr rfl

theorem erase_within (p : Pos) (n : Name) : Within (d.erase p n).tree d.tree := by
  intro q
  rw [erase_node]
  split
  · exact Or.inl rfl
  · exact Or.inr rfl

theorem unlink_within (cwd : Pos) (path : Str) : Within (unlink d cwd path).2.tree d.tree := by
  rw [unlink]
  split
  · exact within_refl _
  · split
    · exact within_refl _
    · split
      · exact erase_within _ _
      · exact within_refl _

theorem rmdir_within (cwd : Pos) (path : Str) : Within (rmdir d cwd path).2.tree d.tree := by
  rw [rmdir]
  split
  · exact within_refl _
  · split
    · exact erase_within _ _
    · exact within_refl _

theorem foldl_within {f : Disk → Name → Disk} (hf : ∀ d e, Within (f d e).tree d.tree) (es : List Name) :
    Within (es.foldl f d).tree d.tree := by
  induction es generalizing d with
  | nil => exact within_refl _
  | cons e es ih => exact ih.trans (hf d e)

theorem delDirLoop_within (cwd : Pos) (fuel : ℕ) (d : Disk) (path : Str) :
    Within (delDirLoop cwd fuel d path).2.tree d.tree := by
  induction fuel generalizing d path with
  | zero => exact within_refl _
  | succ fuel ih =>
    rw [delDirLoop]
    split_ifs
    · exact within_refl _
    · exact unlink_within _ _
    · exact within_refl _
    · refine (rmdir_within _ _).trans (foldl_within (fun d e => ?_) _)
      split
      · exact within_refl _
      · exact ih _ _

theorem place_within {t u : FileTree (Leaf Kind)} (h : Within u t) {x : Pos × Name} (hp : place u cwd path = some x) :
    place t cwd path = some x := by
  rw [place] at hp ⊢
  by_cases hc : path = [] ∨ pathMax ≤ path.length
  · rw [if_pos hc] at hp
    cases hp
  · rw [if_neg hc] at hp ⊢
    obtain ⟨n,hn,hp⟩ := Option.bind_eq_some_iff.mp hp
    refine Option.bind_eq_some_iff.mpr ⟨n,hn,?_⟩
    by_cases hpr : Proper n
    · rw [if_pos hpr] at hp ⊢
      obtain ⟨q,hq,hx⟩ := Option.map_eq_some_iff.mp hp
      exact Option.map_eq_some_iff.mpr ⟨q,h.follow hq,hx⟩
    · rw [if_neg hpr] at hp
      cases hp

theorem rmdir_link (h : Within d'.tree d.tree) {par : Pos} {n : Name} {l : Str}
    (hp : place d.tree cwd path = some (par,n)) (hl : d.tree.node (par ++ [n]) = some (.file (.link l))) :
    rmdir d' cwd path = (false,d') := by
  rw [rmdir]
  cases hp' : place d'.tree cwd path with
  | none => rfl
  | some x =>
    obtain rfl := Option.some.inj ((place_within h hp').symm.trans hp)
    simp only
    rw [if_neg]
    rintro ⟨hd,-⟩
    cases (isDir_iff.mp (h.isDir hd)).symm.trans hl

theorem fileExists_long (h : pathMax ≤ path.length) : fileExists d cwd path = false := by
  rw [fileExists,LinkTree.resolve,if_pos (Or.inr h)]
  rfl

theorem delDirLoop_fuel {fuel : ℕ} (h : pathMax ≤ fuel + path.length) :
    delDirLoop cwd (fuel + 1) d path = delDirLoop cwd fuel d path := by
  induction fuel generalizing d path with
  | zero =>
    have hf : fileExists d cwd path = false := fileExists_long (by omega)
    rw [delDirLoop,delDirLoop,hf]
    rfl
  | succ fuel ih =>
    have hstep : (fun (d : Disk) (entry : Name) => if entry = ['.'] ∨ entry = ['.','.'] then d
        else (delDirLoop cwd (fuel + 1) d (path ++ '/'::entry)).2) = fun d entry =>
        if entry = ['.'] ∨ entry = ['.','.'] then d else (delDirLoop cwd fuel d (path ++ '/'::entry)).2 := by
      funext d e
      rw [ih (by rw [List.length_append,List.length_cons]; omega)]
    rw [delDirLoop,delDirLoop,hstep]

theorem entries_eq (hr : LinkTree.resolve d.tree false cwd path = some p) :
    entries d cwd path = ['.']::['.','.']::d.names p := by
  rw [entries,hr]
  rfl

/-- What the loop over the entries of a directory leaves; `mk` makes the path of an entry. -/
theorem entries_cleared {fuel : ℕ} {mk : Name → Str} (hcall : ∀ (d' : Disk) (S : List Name),
    Cleared d.tree d'.tree (Under p S) → ∀ e, Proper e ∧ '/' ∉ e →
      Cleared d'.tree (delDirLoop cwd fuel d' (mk e)).2.tree (p ++ [e] <+: ·)) :
    Cleared d.tree ((['.']::['.','.']::d.names p).foldl (fun d entry => if entry = ['.'] ∨ entry = ['.','.'] then d
      else (delDirLoop cwd fuel d (mk entry)).2) d).tree fun q => p <+: q ∧ q ≠ p := by
  have hu : Cleared d.tree d.tree (Under p []) := by
    refine ⟨?_,fun _ _ => rfl⟩
    rintro q ⟨e,he,-⟩
    cases he
  refine (foldl_cleared (fun d' S hS e he => ?_) hu).congr fun q hq => ?_
  · split
    · rename_i hdot
      refine cleared_none ?_
      rcases hS.within (p ++ [e]) with hn | hn
      · exact hn
      · rw [hn]
        by_contra hx
        have hpr := (d.proper (Option.ne_none_iff_isSome.mp hx)).1
        exact hdot.elim hpr.2.1 hpr.2.2
    · rename_i hdot
      rw [not_or] at hdot
      have hm : e ∈ d.names p := by simpa [hdot] using he
      exact hcall d' S hS e (d.proper (d.mem_names.mp hm))
  · rw [List.nil_append]
    exact under_names (fun e he => List.mem_cons_of_mem _ (List.mem_cons_of_mem _ he)) hq

theorem unlink_spec (h : Stands d cwd path p) (hp : d.tree.node p = some (.file (.other .regular))) :
    Cleared d.tree (unlink d cwd path).2.tree (p <+: ·) ∧ ((unlink d cwd path).1 = true ↔ ¬Stays d.tree p) := by
  have hns : ¬Stays d.tree p := by
    rintro ⟨r,hr,hs⟩
    have hnd : d.tree.isDir p = false := by simp [FileTree.isDir,hp,Node.isDir]
    rw [eq_of_below hnd (by rw [hs]; rfl) hr,hp] at hs
    cases hs
  obtain ⟨par,n,rfl,hpl,hsl⟩ := h.place (by rw [hp]; rfl)
  rw [unlink,if_neg hsl,hpl]
  simp only [hp]
  exact ⟨cleared_erase hns,iff_of_true trivial hns⟩

/-- The end of a directory, once its entries have been gone through. -/
theorem rmdir_spec (h : Stands d cwd path p) (hd : d.tree.isDir p = true)
    (hc : Cleared d.tree d'.tree fun q => p <+: q ∧ q ≠ p) :
    Cleared d.tree (rmdir d' cwd path).2.tree (p <+: ·) ∧ ((rmdir d' cwd path).1 = true ↔ ¬Stays d.tree p) := by
  have hpd : d'.tree.isDir p = true := by
    rw [isDir_iff,hc.same p (Or.inl fun hu => hu.2 rfl),isDir_iff.mp hd]
  obtain ⟨par,n,rfl,hpl,-⟩ := (h.after (fun _ => id) hc).place (isSome_of_isDir hpd)
  rw [rmdir,hpl]
  simp only [hpd,true_and]
  by_cases hs : Stays d.tree (par ++ [n])
  · have hne : d'.names (par ++ [n]) ≠ [] := by
      obtain ⟨r,hr,hx⟩ := hs
      have hrp : r ≠ par ++ [n] := by
        rintro rfl
        cases (isDir_iff.mp hd).symm.trans hx
      obtain ⟨e,he,her⟩ := (under_names (fun _ => id) (by rw [hx]; rfl)).mpr ⟨hr,hrp⟩
      have hm : e ∈ d'.names (par ++ [n]) := by
        rw [d'.mem_names,hc.same _ (Or.inr ⟨r,her,hx⟩)]
        exact d.mem_names.mp he
      exact List.ne_nil_of_mem hm
    rw [if_neg hne]
    refine ⟨⟨fun q hq hns => hc.gone q ⟨hq,fun he => hns (he ▸ hs)⟩ hns,fun q hq => hc.same q ?_⟩,
      iff_of_false Bool.false_ne_true (not_not.mpr hs)⟩
    exact hq.imp_left fun hq hu => hq hu.1
  · have he : d'.names (par ++ [n]) = [] := by
      rw [List.eq_nil_iff_forall_not_mem]
      intro e he
      have hns : ¬Stays d.tree (par ++ [n] ++ [e]) := by
        rintro ⟨r,hr,hx⟩
        exact hs ⟨r,(List.prefix_append _ _).trans hr,hx⟩
      have hm := d'.mem_names.mp he
      rw [hc.gone _ ⟨List.prefix_append _ _,by simp⟩ hns] at hm
      cases hm
    rw [if_pos he]
    refine ⟨(hc.trans (cleared_erase fun hx => hs (hc.stays.mp hx))).congr fun q _ => ?_,iff_of_true rfl hs⟩
    exact or_iff_right_of_imp And.left

/-- One call for a path that stands for a position. -/
theorem delDirLoop_spec {fuel : ℕ} (h : Stands d cwd path p) (hf : pathMax ≤ fuel + path.length) :
    Cleared d.tree (delDirLoop cwd fuel d path).2.tree (p <+: ·) ∧ ((d.tree.node p).isSome = true →
      ((delDirLoop cwd fuel d path).1 = true ↔ ¬Stays d.tree p)) := by
  induction fuel generalizing d path p with
  | zero =>
    have hp : d.tree.node p = none := by
      by_contra hp
      have hs := h.short [] (by rw [List.append_nil]; exact Option.ne_none_iff_isSome.mp hp)
      rw [List.flatMap_nil,List.length_nil] at hs
      omega
    exact ⟨cleared_none hp,by simp [hp]⟩
  | succ fuel ih =>
    have hr := h.resolve
    rw [delDirLoop]
    cases hp : d.tree.node p with
    | none =>
      have he : fileExists d cwd path = false := by simp [fileExists,hr,hp]
      rw [he]
      exact ⟨cleared_none hp,by simp⟩
    | some x =>
      rw [hp] at hr
      have he : fileExists d cwd path = true := by simp [fileExists,hr]
      rw [he]
      cases x with
      | dir =>
        have hi : isFile d cwd path = false := by simp [isFile,hr,hp]
        have hd : isDir d cwd path = true := by simp [isDir,hr,hp,FileTree.isDir,Node.isDir]
        have hpd : d.tree.isDir p = true := isDir_iff.mpr hp
        rw [hi,hd,entries_eq hr]
        have hc := @entries_cleared d cwd p fuel (fun e => path ++ '/'::e) fun d' S hS e he =>
          (ih ((h.leads hpd).entry (fun _ => Under.below) hS he) (by rw [List.length_append,List.length_cons]; omega)).1
        obtain ⟨h1,h2⟩ := rmdir_spec h hpd hc
        exact ⟨h1,fun _ => h2⟩
      | file a =>
        cases a with
        | link l => exact absurd hp (h.nolink _ l List.prefix_rfl)
        | other k =>
          cases k with
          | regular =>
            have hi : isFile d cwd path = true := by simp [isFile,hr,hp]
            obtain ⟨h1,h2⟩ := unlink_spec h hp
            rw [hi]
            exact ⟨h1,fun _ => h2⟩
          | special =>
            have hi : isFile d cwd path = false := by simp [isFile,hr,hp]
            have hd : isDir d cwd path = false := by simp [isDir,hr,hp,FileTree.isDir,Node.isDir]
            rw [hi,hd]
            exact ⟨cleared_special hp,fun _ => iff_of_false Bool.false_ne_true (not_not.mpr ⟨_,List.prefix_rfl,hp⟩)⟩

end Run

/-- `_DELDIR` comes to an end on every disk, also where links lead in a circle, and does nothing but delete. -/
theorem delDir_within (d : Disk) (cwd : Pos) (path : Str) :
    (∀ fuel, pathMax ≤ fuel + path.length → delDirLoop cwd fuel d path = delDir cwd d path) ∧
    Within (delDir cwd d path).2.tree d.tree := by
  have hle : ∀ fuel, pathMax - path.length ≤ fuel →
      delDirLoop cwd fuel d path = delDirLoop cwd (pathMax - path.length) d path := by
    intro fuel hf
    induction fuel, hf using Nat.le_induction with
    | base => rfl
    | succ n hn ih => rw [delDirLoop_fuel (by omega),ih]
  refine ⟨fun fuel hf => ?_,delDirLoop_within _ _ _ _⟩
  rw [delDir,hle _ (by omega),hle _ (Nat.sub_le _ _)]

/-- A directory with a file in it, and a link to the directory. -/
def varDir : Pos := [("var" : Str)]

def pidFile : Pos := [("var" : Str),("pid" : Str)]

def linkFile : Pos := [("run" : Str)]

def runTree : FileTree (Leaf Kind) where
  node q :=
    if q = [] ∨ q = varDir then some .dir
    else if q = pidFile then some (.file (.other .regular))
    else if q = linkFile then some (.file (.link "/var"))
    else none
  root := rfl
  parent := by
    intro p n x h
    have hp : p = [] ∨ p = varDir := by
      split at h
      · rename_i hq
        rcases hq with hq | hq
        · simp at hq
        · exact Or.inl (List.append_inj' (hq.trans (List.nil_append _).symm) rfl).1
      · split at h
        · rename_i hq
          exact Or.inr (List.append_inj' (hq.trans (show pidFile = varDir ++ [("pid" : Str)] from rfl)) rfl).1
        · split at h
          · rename_i hq
            exact Or.inl (List.append_inj' (hq.trans (List.nil_append _).symm) rfl).1
          · cases h
    exact if_pos hp

theorem runTree_node {q : Pos} (h : (runTree.node q).isSome = true) :
    q = [] ∨ q = varDir ∨ q = pidFile ∨ q = linkFile := by
  by_contra hq
  simp only [not_or] at hq
  have hn : runTree.node q = none :=
    (if_neg (not_or.mpr ⟨hq.1,hq.2.1⟩)).trans ((if_neg hq.2.2.1).trans (if_neg hq.2.2.2))
  rw [hn] at h
  cases h

theorem runTree_entry {p : Pos} {n : Name} (h : (runTree.node (p ++ [n])).isSome = true) :
    p = [] ∧ n = "var" ∨ p = [] ∧ n = "run" ∨ p = varDir ∧ n = "pid" := by
  rcases runTree_node h with h | h | h | h
  · simp at h
  · have he := List.append_inj' (h.trans (List.nil_append _).symm) rfl
    exact Or.inl ⟨he.1,(List.cons.inj he.2).1⟩
  · have he := List.append_inj' (h.trans (show pidFile = varDir ++ [("pid" : Str)] from rfl)) rfl
    exact Or.inr (Or.inr ⟨he.1,(List.cons.inj he.2).1⟩)
  · have he := List.append_inj' (h.trans (List.nil_append _).symm) rfl
    exact Or.inr (Or.inl ⟨he.1,(List.cons.inj he.2).1⟩)

def runDisk : Disk where
  tree := runTree
  names p := if p = [] then [("var" : Str),("run" : Str)] else if p = varDir then [("pid" : Str)] else []
  mem_names := by
    intro p n
    constructor
    · intro h
      split at h
      · rename_i hp
        subst hp
        rcases List.mem_pair.mp h with rfl | rfl <;> decide
      · split at h
        · rename_i hp
          rw [hp,List.mem_singleton.mp h]
          decide
        · cases h
    · intro h
      rcases runTree_entry h with ⟨rfl,rfl⟩ | ⟨rfl,rfl⟩ | ⟨rfl,rfl⟩ <;> decide
  proper := by
    intro p n h
    rcases runTree_entry h with ⟨-,rfl⟩ | ⟨-,rfl⟩ | ⟨-,rfl⟩ <;> decide

theorem runTree_nolink (r : Pos) (l : Str) (hr : varDir <+: r) : runTree.node r ≠ some (.file (.link l)) := by
  intro h
  rcases runTree_node (by rw [h]; rfl) with rfl | rfl | rfl | rfl
  · cases h
  · cases h
  · cases h
  · exact absurd hr (by decide)

theorem runTree_short {r : Pos} (h : (runTree.node (varDir ++ r)).isSome = true) :
    (r.flatMap ('/' :: ·)).length ≤ 4 := by
  rcases runTree_node h with h | h | h | h
  · cases h
  · rw [List.append_cancel_left (h.trans (List.append_nil _).symm)]
    decide
  · rw [List.append_cancel_left (h.trans (show pidFile = varDir ++ [("pid" : Str)] from rfl))]
    decide
  · exact absurd (List.cons.inj h).1 (by decide)

theorem runDisk_stands : Stands runDisk [] "/var" varDir :=
  ⟨⟨[],_,[[]],rfl,by decide,by decide,by decide⟩,runTree_nolink,fun _ hr =>
    (Nat.add_le_add_left (runTree_short hr) _).trans_lt (by decide)⟩

theorem runDisk_leads : Leads runDisk [] "/run" varDir :=
  ⟨by decide,by decide,by decide,runTree_nolink,fun _ hr =>
    (Nat.add_le_add_left (runTree_short hr) _).trans_lt (by decide)⟩

/-- Where there are no links and the paths are not too long, `_DELDIR` deletes all but the special files and what leads
to them, and returns TRUE where there are none. -/
theorem delDir_spec {d : Disk} {cwd : Pos} {path : Str} {p : Pos} (h : Stands d cwd path p)
    (hp : (d.tree.node p).isSome = true) : Cleared d.tree (delDir cwd d path).2.tree (p <+: ·) ∧
    ((delDir cwd d path).1 = true ↔ ¬Stays d.tree p) := by
  obtain ⟨h1,h2⟩ := delDirLoop_spec h (Nat.le_add_right pathMax path.length)
  exact ⟨h1,h2 hp⟩

theorem delDir_spec_run : Stands runDisk [] "/var" varDir ∧ (runDisk.tree.node varDir).isSome = true ∧
    Cleared runDisk.tree (delDir [] runDisk "/var").2.tree (varDir <+: ·) ∧
    ((delDir [] runDisk "/var").1 = true ↔ ¬Stays runDisk.tree varDir) :=
  ⟨runDisk_stands,by decide,delDir_spec runDisk_stands (by decide)⟩

/-- Through a link `_DELDIR` deletes what is in the directory it leads to; the link stays, and it returns FALSE. -/
theorem delDir_link {d : Disk} {cwd : Pos} {path : Str} {p par : Pos} {n : Name} {l : Str} (h : Leads d cwd path p)
    (hp : place d.tree cwd path = some (par,n)) (hl : d.tree.node (par ++ [n]) = some (.file (.link l))) :
    (delDir cwd d path).1 = false ∧ Cleared d.tree (delDir cwd d path).2.tree fun q => p <+: q ∧ q ≠ p := by
  have hr := h.resolve
  have hd := isDir_iff.mp h.isDir
  obtain ⟨k,hk⟩ : ∃ k, pathMax = k + 1 := ⟨4095,rfl⟩
  have hc := @entries_cleared d cwd p k (fun e => path ++ '/'::e) fun d' S hS e he =>
    (delDirLoop_spec (h.entry (fun _ => Under.below) hS he)
      (by rw [List.length_append,List.length_cons]; omega)).1
  rw [delDir,hk,delDirLoop,entries_eq hr]
  simp only [fileExists,isFile,isDir,hr,hd,h.isDir,Option.isSome_some,Option.any_some,Bool.not_true,
    Bool.false_eq_true,if_false]
  rw [rmdir_link hc.within hp hl]
  exact ⟨rfl,hc⟩

theorem delDir_link_run : Leads runDisk [] "/run" varDir ∧ (delDir [] runDisk "/run").1 = false ∧
    Cleared runDisk.tree (delDir [] runDisk "/run").2.tree fun q => varDir <+: q ∧ q ≠ varDir :=
  ⟨runDisk_leads,@delDir_link _ _ _ _ [] ("run" : Str) "/var" runDisk_leads (by decide) rfl⟩

/-- `_CLEARDIR` does the same with what is in a directory, and leaves the process in there. -/
theorem clearDir_spec {d : Disk} {cwd : Pos} {path : Str} {p : Pos} (hr : resolve d.tree false cwd path = some p)
    (hd : d.tree.isDir p = true) (hl : ∀ r l, p <+: r → d.tree.node r ≠ some (.file (.link l)))
    (hs : ∀ r, (d.tree.node (p ++ r)).isSome = true → (r.flatMap ('/' :: ·)).length ≤ pathMax) :
    (clearDir cwd d path).1 = p ∧ Cleared d.tree (clearDir cwd d path).2.tree fun q => p <+: q ∧ q ≠ p := by
  have hres : resolve d.tree false p "." = some p := by
    rw [resolve,if_neg (by decide)]
    have hm : move p ['.'] = p := move_stay (Or.inr rfl)
    have hf := @follow_at _ d.tree false maxLinks p _ ['.'] [] (step_improper hd (by decide))
    rw [hm,follow_nil] at hf
    exact hf
  rw [clearDir,hr,Option.filter_some,if_pos hd]
  refine ⟨rfl,?_⟩
  simp only [entries_eq hres]
  refine @entries_cleared d p p pathMax id fun d' S hS e he => (delDirLoop_spec ?_ (Nat.le_add_right _ _)).1
  refine ⟨⟨p,e,[],rfl,he.1,components_single he.2,?_⟩,fun r l hr hx => ?_,fun r hx => ?_⟩
  · have hst : start p e = p := if_neg fun hh => he.2 (List.mem_of_head? hh)
    rw [id,hst,follow_nil]
  · exact hl r l ((List.prefix_append _ _).trans hr) (hS.within.node hx)
  · obtain ⟨x,hx⟩ := Option.isSome_iff_exists.mp hx
    rw [List.append_assoc] at hx
    have hlen := hs ([e] ++ r) (by rw [hS.within.node hx]; rfl)
    rw [List.flatMap_append,List.length_append,List.flatMap_singleton,List.length_cons] at hlen
    simp only [id]
    omega

theorem clearDir_spec_run : resolve runDisk.tree false [] "/var" = some varDir ∧
    (clearDir [] runDisk "/var").1 = varDir ∧
    Cleared runDisk.tree (clearDir [] runDisk "/var").2.tree fun q => varDir <+: q ∧ q ≠ varDir :=
  ⟨by decide,clearDir_spec (by decide) (by decide) runTree_nolink fun _ hr => (runTree_short hr).trans (by decide)⟩

end DeleteDirs
end Mybox
