import Mathlib.Data.List.Infix
import Mathlib.Data.List.DropRight
import Mathlib.Tactic.Common
import Mybox.LineText

/-! Trees of directories without links, and paths followed through them component by component: `.` and what is empty
stay where they are, `..` goes back, and from the root it stays there. -/
namespace Mybox
namespace DirTree

abbrev Name := List Char

/-- The names that lead from the root to something. -/
abbrev Pos := List Name

inductive Node (κ : Type)
  | dir
  | file (k : κ)

def Node.isDir {κ : Type} : Node κ → Bool
  | dir => true
  | file _ => false

structure FileTree (κ : Type) where
  node : Pos → Option (Node κ)
  root : node [] = some .dir
  parent : ∀ {p n x}, node (p ++ [n]) = some x → node p = some .dir

/-- A component that names an entry of a directory. -/
def Proper (c : Name) : Prop := c ≠ [] ∧ c ≠ ['.'] ∧ c ≠ ['.','.']

instance (c : Name) : Decidable (Proper c) := inferInstanceAs (Decidable (_ ∧ _ ∧ _))

/-- Where a component leads, as far as the names go. -/
def move (p : Pos) (c : Name) : Pos := if c = [] ∨ c = ['.'] then p else if c = ['.','.'] then p.dropLast else p ++ [c]

def goal (p : Pos) (cs : List Name) : Pos := cs.foldl move p

/-- Where one comes by on the way, the end left out. -/
def trail : Pos → List Name → List Pos
  | _, [] => []
  | p, c::cs => p::trail (move p c) cs

variable {κ : Type}

def FileTree.isDir (t : FileTree κ) (p : Pos) : Bool := (t.node p).any Node.isDir

def FileTree.step (t : FileTree κ) (p : Pos) (c : Name) : Option Pos :=
  if t.isDir p ∧ (t.node (move p c)).isSome then some (move p c) else none

def FileTree.walk (t : FileTree κ) : Pos → List Name → Option Pos
  | p, [] => some p
  | p, c::cs => (t.step p c).bind fun q => t.walk q cs

def components (path : List Char) : List Name := path.splitOn '/'

def start (cwd : Pos) (path : List Char) : Pos := if path.head? = some '/' then [] else cwd

/-- What a path stands for in a process with the working directory `cwd`. -/
def FileTree.resolve (t : FileTree κ) (cwd : Pos) (path : List Char) : Option Pos :=
  if path = [] then none else t.walk (start cwd path) (components path)

def text (p : Pos) : List Char := if p = [] then ['/'] else p.flatMap ('/' :: ·)

variable {t : FileTree κ} {p q : Pos}

theorem isDir_iff : t.isDir p = true ↔ t.node p = some .dir := by
  cases h : t.node p with
  | none => simp [FileTree.isDir,h]
  | some x => cases x <;> simp [FileTree.isDir,h,Node.isDir]

theorem isDir_root : t.isDir [] = true := isDir_iff.mpr t.root

theorem isSome_of_isDir (h : t.isDir p = true) : (t.node p).isSome = true := by
  rw [isDir_iff.mp h]
  rfl

theorem move_stay {c : Name} (h : c = [] ∨ c = ['.']) : move p c = p := if_pos h

theorem move_back : move p ['.','.'] = p.dropLast := by simp [move]

theorem move_proper {c : Name} (h : Proper c) : move p c = p ++ [c] := by
  rw [move,if_neg (not_or.mpr ⟨h.1,h.2.1⟩),if_neg h.2.2]

theorem isDir_dropLast (h : (t.node p).isSome = true) : t.isDir p.dropLast = true := by
  rcases List.eq_nil_or_concat' p with rfl | ⟨p,n,rfl⟩
  · exact isDir_root
  · obtain ⟨x,hx⟩ := Option.isSome_iff_exists.mp h
    rw [List.dropLast_concat]
    exact isDir_iff.mpr (t.parent hx)

theorem isDir_above {q : Pos} (h : (t.node q).isSome = true) (hp : p <+: q) (hne : p ≠ q) : t.isDir p = true := by
  obtain ⟨r,rfl⟩ := hp
  induction r using List.reverseRecOn with
  | nil => simp at hne
  | append_singleton r n ih =>
    rw [← List.append_assoc] at h
    have hd := isDir_dropLast h
    rw [List.dropLast_concat] at hd
    by_cases hr : r = []
    · rw [hr,List.append_nil] at hd
      exact hd
    · exact ih (isSome_of_isDir hd) fun he => hr (by simpa using he.symm)

/-- A component that names nothing stays in the directory or goes back from it. -/
theorem step_improper {c : Name} (hd : t.isDir p = true) (hc : ¬Proper c) : t.step p c = some (move p c) := by
  refine if_pos ⟨hd,?_⟩
  by_cases hs : c = [] ∨ c = ['.']
  · rw [move_stay hs]
    exact isSome_of_isDir hd
  · have hb : c = ['.','.'] := by
      by_contra hb
      rw [not_or] at hs
      exact hc ⟨hs.1,hs.2,hb⟩
    rw [hb,move_back]
    exact isSome_of_isDir (isDir_dropLast (isSome_of_isDir hd))

theorem step_proper {c : Name} (hc : Proper c) :
    t.step p c = if t.isDir p ∧ (t.node (p ++ [c])).isSome then some (p ++ [c]) else none := by
  rw [FileTree.step,move_proper hc]

theorem walk_append (as bs : List Name) : t.walk p (as ++ bs) = (t.walk p as).bind fun q => t.walk q bs := by
  induction as generalizing p with
  | nil => rfl
  | cons a as ih =>
    rw [List.cons_append,FileTree.walk,FileTree.walk]
    cases t.step p a with
    | none => rfl
    | some q => exact ih

theorem walk_concat (as : List Name) (c : Name) : t.walk p (as ++ [c]) = (t.walk p as).bind fun q => t.step q c := by
  rw [walk_append]
  refine congrArg _ (funext fun q => ?_)
  rw [FileTree.walk]
  cases t.step q c <;> rfl

theorem walk_stay {c : Name} (hd : t.isDir p = true) (hc : c = [] ∨ c = ['.']) (cs : List Name) :
    t.walk p (c::cs) = t.walk p cs := by
  have hi : ¬Proper c := fun h => hc.elim h.1 h.2.1
  rw [FileTree.walk,step_improper hd hi,move_stay hc]
  rfl

/-- A walk ends where the names lead, if it comes through directories to something. -/
theorem walk_eq_some {cs : List Name} (hp : (t.node p).isSome = true) :
    t.walk p cs = some q ↔ q = goal p cs ∧ (∀ x ∈ trail p cs, t.isDir x = true) ∧ (t.node q).isSome = true := by
  induction cs generalizing p with
  | nil =>
    simp only [FileTree.walk,goal,List.foldl_nil,trail,List.not_mem_nil,false_imp_iff,implies_true,true_and,Option.some.injEq]
    constructor
    · rintro rfl
      exact ⟨rfl,hp⟩
    · rintro ⟨rfl,-⟩
      rfl
  | cons c cs ih =>
    rw [FileTree.walk,goal,List.foldl_cons,trail,List.forall_mem_cons]
    by_cases h : t.isDir p = true ∧ (t.node (move p c)).isSome = true
    · rw [FileTree.step,if_pos h,Option.bind_some,ih h.2,goal]
      simp [h.1]
    · rw [FileTree.step,if_neg h,Option.bind_none]
      constructor
      · rintro ⟨⟩
      · rintro ⟨rfl,⟨hd,htr⟩,hq⟩
        refine absurd ⟨hd,?_⟩ h
        cases cs with
        | nil => exact hq
        | cons d ds => exact isSome_of_isDir (htr _ (by simp [trail]))

theorem walk_isSome {cs : List Name} (hp : (t.node p).isSome = true) (h : t.walk p cs = some q) :
    (t.node q).isSome = true := ((walk_eq_some hp).mp h).2.2

def FileTree.addDir (t : FileTree κ) (p : Pos) (n : Name) (h : t.isDir p = true ∧ t.node (p ++ [n]) = none) : FileTree κ where
  node q := if q = p ++ [n] then some .dir else t.node q
  root := by rw [if_neg (by simp),t.root]
  parent := by
    intro q m x hx
    by_cases hq : q = p ++ [n]
    · rw [if_pos hq]
    · rw [if_neg hq]
      by_cases hm : q ++ [m] = p ++ [n]
      · obtain rfl := (List.append_inj' hm rfl).1
        exact isDir_iff.mp h.1
      · rw [if_neg hm] at hx
        exact t.parent hx

/-- `mkdir`. Slashes at the end do not count. -/
def FileTree.mkdir (t : FileTree κ) (cwd : Pos) (path : List Char) : Option (FileTree κ) :=
  let cs := (components path).rdropWhile (· = [])
  match cs.getLast?, t.walk (start cwd path) cs.dropLast with
  | some n, some p =>
    if h : Proper n ∧ t.isDir p = true ∧ t.node (p ++ [n]) = none then some (t.addDir p n h.2) else none
  | _, _ => none

theorem addDir_node {n : Name} {h : t.isDir p = true ∧ t.node (p ++ [n]) = none} (q : Pos) :
    (t.addDir p n h).node q = if q = p ++ [n] then some .dir else t.node q := rfl

theorem components_slash (r : List Char) : components ('/'::r) = []::components r := by
  simp [components,List.splitOn_cons_eq_if_modifyHead]

theorem components_append (a r : List Char) : components (a ++ '/'::r) = components a ++ components r :=
  List.splitOn_append_cons_self _ _

theorem components_single {c : List Char} (h : '/' ∉ c) : components c = [c] := List.splitOn_eq_singleton h

theorem components_char {x : Char} (hx : x ≠ '/') (r : List Char) : components (x::r) = (components r).modifyHead (x :: ·) := by
  simp [components,List.splitOn_cons_eq_if_modifyHead,hx]

theorem components_ne (path : List Char) : components path ≠ [] := List.splitOn_ne_nil _ _

def visited (p : Pos) (cs : List Name) : List Pos := trail p cs ++ [goal p cs]

theorem visited_nil (p : Pos) : visited p [] = [p] := rfl

theorem visited_cons (p : Pos) (c : Name) (cs : List Name) : visited p (c::cs) = p::visited (move p c) cs := rfl

theorem start_mem_visited (p : Pos) (cs : List Name) : p ∈ visited p cs := by
  cases cs with
  | nil => simp [visited_nil]
  | cons c cs => simp [visited_cons]

theorem goal_mem_visited (p : Pos) (cs : List Name) : goal p cs ∈ visited p cs := by simp [visited]

theorem walk_dir_iff (hp : (t.node p).isSome = true) {cs : List Name} :
    (t.walk p cs).filter (fun q => t.isDir q) = some q ↔ q = goal p cs ∧ ∀ x ∈ visited p cs, t.isDir x = true := by
  rw [Option.filter_eq_some_iff,walk_eq_some hp,visited,List.forall_mem_append]
  constructor
  · rintro ⟨⟨rfl,htr,-⟩,hd⟩
    exact ⟨rfl,htr,by simpa using hd⟩
  · rintro ⟨rfl,htr,hd⟩
    have hd' := hd _ (List.mem_singleton_self _)
    exact ⟨⟨rfl,htr,isSome_of_isDir hd'⟩,hd'⟩

theorem walk_congr {t' : FileTree κ} {cs : List Name} (h : ∀ x ∈ visited p cs, t.node x = t'.node x) :
    t.walk p cs = t'.walk p cs := by
  induction cs generalizing p with
  | nil => rfl
  | cons c cs ih =>
    rw [visited_cons,List.forall_mem_cons] at h
    have hd : t.isDir p = t'.isDir p := by rw [FileTree.isDir,FileTree.isDir,h.1]
    have hn : t.node (move p c) = t'.node (move p c) := h.2 _ (start_mem_visited _ cs)
    rw [FileTree.walk,FileTree.walk,FileTree.step,FileTree.step,hd,hn]
    split
    · exact ih h.2
    · rfl

/-- The names on the way are those of the start and of the components. -/
theorem mem_visited {cs : List Name} {x : Pos} (hx : x ∈ visited p cs) {n : Name} (hn : n ∈ x) :
    n ∈ p ∨ n ∈ cs ∧ Proper n := by
  induction cs generalizing p with
  | nil =>
    rw [visited_nil,List.mem_singleton] at hx
    exact Or.inl (hx ▸ hn)
  | cons c cs ih =>
    rw [visited_cons,List.mem_cons] at hx
    rcases hx with rfl | hx
    · exact Or.inl hn
    · rcases ih hx with hm | hm
      · by_cases hc : Proper c
        · rw [move_proper hc,List.mem_append,List.mem_singleton] at hm
          rcases hm with hm | rfl
          · exact Or.inl hm
          · exact Or.inr ⟨List.mem_cons_self,hc⟩
        · left
          by_cases hs : c = [] ∨ c = ['.']
          · rwa [move_stay hs] at hm
          · have hb : c = ['.','.'] := by
              by_contra hb
              exact hc ⟨fun he => hs (Or.inl he),fun he => hs (Or.inr he),hb⟩
            rw [hb,move_back] at hm
            exact List.mem_of_mem_dropLast hm
      · exact Or.inr ⟨List.mem_cons_of_mem c hm.1,hm.2⟩

theorem mem_components {path : List Char} {n : Name} (h : n ∈ components path) : '/' ∉ n :=
  fun hs => (LineText.mem_splitOn '/' h hs).2 rfl

/-- The directories `ds` with all above them, and files in them. -/
def ofLists (ds fs : List Pos) (k : κ) : FileTree κ where
  node p := if p = [] ∨ ∃ d ∈ ds, p <+: d then some .dir
    else if p ∈ fs ∧ (p.dropLast = [] ∨ ∃ d ∈ ds, p.dropLast <+: d) then some (.file k)
    else none
  root := if_pos (Or.inl rfl)
  parent := by
    intro p n x h
    split at h
    · rename_i hd
      refine if_pos (Or.inr ?_)
      obtain ⟨d,hm,hp⟩ := hd.resolve_left (by simp)
      exact ⟨d,hm,(List.prefix_append p [n]).trans hp⟩
    · split at h
      · rename_i hf
        rw [List.dropLast_concat] at hf
        exact if_pos hf.2
      · cases h

theorem ofLists_isDir {ds fs : List Pos} {k : κ} : (ofLists ds fs k).isDir p = true ↔ p = [] ∨ ∃ d ∈ ds, p <+: d := by
  rw [isDir_iff]
  constructor
  · intro h
    by_contra hn
    change (if p = [] ∨ ∃ d ∈ ds, p <+: d then some Node.dir
      else if p ∈ fs ∧ (p.dropLast = [] ∨ ∃ d ∈ ds, p.dropLast <+: d) then some (.file k) else none) = _ at h
    rw [if_neg hn] at h
    split at h <;> cases h
  · exact fun h => if_pos h

theorem ofLists_file {ds fs : List Pos} {k : κ} (hd : ¬(p = [] ∨ ∃ d ∈ ds, p <+: d)) (hf : p ∈ fs)
    (hp : p.dropLast = [] ∨ ∃ d ∈ ds, p.dropLast <+: d) : (ofLists ds fs k).node p = some (.file k) :=
  (if_neg hd).trans (if_pos ⟨hf,hp⟩)

theorem ofLists_isSome {ds fs : List Pos} {k : κ} (h : ((ofLists ds fs k).node p).isSome = true) :
    p = [] ∨ (∃ d ∈ ds, p <+: d) ∨ p ∈ fs := by
  by_cases hd : p = [] ∨ ∃ d ∈ ds, p <+: d
  · exact or_assoc.mp (Or.inl hd)
  · by_cases hf : p ∈ fs
    · exact Or.inr (Or.inr hf)
    · rw [show (ofLists ds fs k).node p = none from (if_neg hd).trans (if_neg fun h => hf h.1)] at h
      cases h

def FileTree.restrict (t : FileTree κ) (K : Pos → Prop) [DecidablePred K] (h : K []) (hK : ∀ p n, K (p ++ [n]) → K p) :
    FileTree κ where
  node p := if K p then t.node p else none
  root := by rw [if_pos h,t.root]
  parent := by
    intro p n x hx
    split at hx
    · rename_i hk
      rw [if_pos (hK p n hk)]
      exact t.parent hx
    · cases hx

theorem restrict_node {K : Pos → Prop} [DecidablePred K] {h : K []} {hK : ∀ p n, K (p ++ [n]) → K p} (p : Pos) :
    (t.restrict K h hK).node p = if K p then t.node p else none := rfl

theorem restrict_isSome {K : Pos → Prop} [DecidablePred K] {h : K []} {hK : ∀ p n, K (p ++ [n]) → K p} :
    ((t.restrict K h hK).node p).isSome = true ↔ K p ∧ (t.node p).isSome = true := by
  rw [restrict_node]
  split <;> simp [*]

theorem restrict_isDir {K : Pos → Prop} [DecidablePred K] {h : K []} {hK : ∀ p n, K (p ++ [n]) → K p} :
    (t.restrict K h hK).isDir p = true ↔ K p ∧ t.isDir p = true := by
  rw [FileTree.isDir,restrict_node]
  split <;> simp [*,FileTree.isDir]

end DirTree
end Mybox
