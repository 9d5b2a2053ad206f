import Mybox.MakeDirs

/-! `xmkdir` makes a directory and what is missing above it: it goes along the path and makes what stands before each
run of slashes. -/
namespace Mybox
namespace Xmkdir

open Php DirTree MakeDirs

variable {κ : Type}

/-- `mkdir` fails with `EEXIST`: there is something to make the directory in, and something of its name in it. -/
def eexist (t : FileTree κ) (cwd : Pos) (path : Str) : Bool :=
  let cs := (components path).rdropWhile (· = [])
  match cs.getLast? with
  | none => path ≠ []
  | some n => (t.walk (start cwd path) cs.dropLast).any fun p =>
      t.isDir p && (decide (¬Proper n) || (t.node (p ++ [n])).isSome)

/-- `mkdir`, where a directory that is there already will do. -/
def ensure (t : FileTree κ) (cwd : Pos) (path : Str) : Option (FileTree κ) :=
  match t.mkdir cwd path with
  | some t => some t
  | none => if eexist t cwd path && isDir t cwd path then some t else none

/-- Where the inner loop stops: what it goes by, up to the first slash and with the ones that follow it. -/
def stop (r : Str) : Str × Str :=
  let s := r.dropWhile (· ≠ '/')
  (r.takeWhile (· ≠ '/') ++ s.takeWhile (· = '/'),s.dropWhile (· = '/'))

theorem stop_shorter {r : Str} (h : (stop r).2 ≠ []) : (stop r).2.length < r.length := by
  cases r with
  | nil => exact absurd rfl h
  | cons x r =>
    have hd : ∀ l : Str, (l.dropWhile (· = '/')).length ≤ l.length := fun l => (List.dropWhile_suffix _).length_le
    by_cases hx : x = '/'
    · rw [stop,List.dropWhile_cons_of_neg (by simp [hx]),List.dropWhile_cons_of_pos (by simp [hx])]
      exact Nat.lt_succ_of_le (hd r)
    · rw [stop,List.dropWhile_cons_of_pos (by simp [hx])]
      exact Nat.lt_succ_of_le ((hd _).trans (List.dropWhile_suffix _).length_le)

/-- The outer loop, with the pointer between the two texts. -/
def xmkdirLoop (cwd : Pos) (t : FileTree κ) (done s : Str) : ℤ × FileTree κ :=
  match ensure t cwd (done ++ (stop s).1) with
  | none => (-1,t)
  | some t => if (stop s).2 = [] then (0,t) else xmkdirLoop cwd t (done ++ (stop s).1) (stop s).2
termination_by s.length
decreasing_by exact stop_shorter ‹_›

def xmkdir (cwd : Pos) (t : FileTree κ) (p : Str) : ℤ × FileTree κ := xmkdirLoop cwd t [] p

-- Along the names: each is made a directory where there is nothing of it, up to the first one that is a file.
def isPlain (t : FileTree κ) (p : Pos) : Bool := (t.node p).any fun x => !x.isDir

def grow : FileTree κ → Pos → List Name → Bool × FileTree κ
  | t, _, [] => (true,t)
  | t, p, c::cs =>
    if h : Proper c ∧ t.isDir p = true ∧ t.node (p ++ [c]) = none then grow (t.addDir p c h.2) (p ++ [c]) cs
    else if t.isDir (move p c) then grow t (move p c) cs
    else (false,t)

variable {t : FileTree κ} {p q : Pos} {c : Name} {cs : List Name}

theorem isPlain_of_isDir (h : t.isDir p = true) : isPlain t p = false := by
  rw [isDir_iff] at h
  simp [isPlain,h,Node.isDir]

/-- What names nothing stays in the directory or goes back to one. -/
theorem isDir_improper (hp : t.isDir p = true) (hc : ¬Proper c) : t.isDir (move p c) = true := by
  by_cases hs : c = [] ∨ c = ['.']
  · rwa [move_stay hs]
  · have hb : c = ['.','.'] := by
      by_contra hb
      exact hc ⟨fun h => hs (Or.inl h),fun h => hs (Or.inr h),hb⟩
    rw [hb,move_back]
    exact isDir_dropLast (isSome_of_isDir hp)

theorem isPlain_addDir {n : Name} {h : t.isDir p = true ∧ t.node (p ++ [n]) = none} (q : Pos) :
    isPlain (t.addDir p n h) q = isPlain t q := by
  rw [isPlain,addDir_node,isPlain]
  split
  · rename_i hq
    rw [hq,h.2]
    rfl
  · rfl

/-- A name is made a directory, or is one, or is a file. -/
theorem grow_cons (hp : t.isDir p = true) : (isPlain t (move p c) = true ∧ grow t p (c::cs) = (false,t)) ∨
    ∃ t' : FileTree κ, grow t p (c::cs) = grow t' (move p c) cs ∧ t'.isDir (move p c) = true ∧
      (∀ q, t'.node q = if q = move p c then some .dir else t.node q) ∧ ∀ q, isPlain t' q = isPlain t q := by
  by_cases h : Proper c ∧ t.isDir p = true ∧ t.node (p ++ [c]) = none
  · refine Or.inr ⟨t.addDir p c h.2,by rw [grow,dif_pos h,move_proper h.1],?_,fun q => ?_,isPlain_addDir⟩
    · rw [move_proper h.1,isDir_iff,addDir_node,if_pos rfl]
    · rw [addDir_node,move_proper h.1]
  · rw [grow,dif_neg h]
    by_cases hm : t.isDir (move p c) = true
    · refine Or.inr ⟨t,if_pos hm,hm,fun q => ?_,fun _ => rfl⟩
      split
      · rename_i hq
        rw [hq,isDir_iff.mp hm]
      · rfl
    · refine Or.inl ⟨?_,if_neg hm⟩
      have hc : Proper c := by
        by_contra hc
        exact hm (isDir_improper hp hc)
      rw [move_proper hc] at hm ⊢
      cases hn : t.node (p ++ [c]) with
      | none => exact absurd ⟨hc,hp,hn⟩ h
      | some x =>
        cases x with
        | dir => exact absurd (isDir_iff.mpr hn) hm
        | file k => simp [isPlain,hn,Node.isDir]

/-- What is made of the names, and when nothing was in the way. -/
theorem grow_spec (hp : t.isDir p = true) (cs : List Name) :
    ((grow t p cs).1 = true ↔ ∀ x ∈ visited p cs, isPlain t x = false) ∧
    ∀ q, (grow t p cs).2.node q = if q ∈ (visited p cs).takeWhile (fun x => !isPlain t x) then some .dir else t.node q := by
  have hpl := isPlain_of_isDir hp
  have hself : ∀ q, t.node q = if q = p then some .dir else t.node q := by
    intro q
    split
    · rename_i hq
      rw [hq,isDir_iff.mp hp]
    · rfl
  induction cs generalizing t p with
  | nil =>
    rw [visited_nil,List.takeWhile_cons_of_pos (by simp [hpl]),List.takeWhile_nil]
    exact ⟨by simp [grow,hpl],by simpa [grow] using hself⟩
  | cons c cs ih =>
    rw [visited_cons,List.takeWhile_cons_of_pos (by simp [hpl]),List.forall_mem_cons]
    obtain ⟨l,hl⟩ : ∃ l, visited (move p c) cs = move p c::l := by cases cs <;> exact ⟨_,rfl⟩
    rcases @grow_cons _ t p c cs hp with ⟨hf,hg⟩ | ⟨t',hg,hd,hn,hf⟩
    · rw [hg,hl,List.takeWhile_cons_of_neg (by simp [hf]),List.forall_mem_cons,hf]
      exact ⟨by simp,by simpa using hself⟩
    · have hd' := isPlain_of_isDir hd
      obtain ⟨h1,h2⟩ := ih hd hd' fun q => by rw [hn]; split <;> rfl
      simp only [hf] at h1 h2 hd'
      rw [hg]
      refine ⟨h1.trans (and_iff_right hpl).symm,fun q => ?_⟩
      have hm : move p c ∈ (visited (move p c) cs).takeWhile fun x => !isPlain t x := by
        rw [hl,List.takeWhile_cons_of_pos (by simp [hd'])]
        exact List.mem_cons_self
      rw [h2]
      simp only [List.mem_cons]
      by_cases hq : q ∈ (visited (move p c) cs).takeWhile fun x => !isPlain t x
      · rw [if_pos hq,if_pos (Or.inr hq)]
      · have hqm : q ≠ move p c := fun he => hq (he ▸ hm)
        rw [if_neg hq,hn,if_neg hqm]
        simpa [hq] using hself q

-- The loop over the path does with the text what `grow` does with the names.
theorem components_slashes {l : Str} (h : ∀ x ∈ l, x = '/') (r : Str) :
    components (l ++ r) = List.replicate l.length [] ++ components r := by
  induction l with
  | nil => rfl
  | cons x l ih =>
    obtain ⟨rfl,hl⟩ := List.forall_mem_cons.mp h
    rw [List.cons_append,components_slash,ih hl]
    rfl

theorem walk_slashes (hp : t.isDir p = true) (n : ℕ) (cs : List Name) :
    t.walk p (List.replicate n [] ++ cs) = t.walk p cs :=
  walk_stays hp (fun _ hc => Or.inl (List.eq_of_mem_replicate hc)) cs

theorem grow_slashes (hp : t.isDir p = true) (n : ℕ) (cs : List Name) :
    grow t p (List.replicate n [] ++ cs) = grow t p cs := by
  induction n with
  | zero => rfl
  | succ n ih =>
    rw [List.replicate_succ,List.cons_append,grow,dif_neg (fun h => h.1.1 rfl),move_stay (Or.inl rfl),if_pos hp,ih]

theorem rdropWhile_replicate (l : List Name) (n : ℕ) :
    (l ++ List.replicate n []).rdropWhile (· = []) = l.rdropWhile (· = []) := by
  induction n with
  | zero => rw [List.replicate_zero,List.append_nil]
  | succ n ih => rw [List.replicate_succ',← List.append_assoc,List.rdropWhile_concat_pos _ _ _ (by simp),ih]

theorem isDir_path {cwd : Pos} {path : Str} {n : ℕ} (hne : path ≠ [])
    (hc : components path = cs ++ c::List.replicate n []) (hw : t.walk (start cwd path) cs = some p)
    (hp : t.isDir p = true) : isDir t cwd path = t.isDir (move p c) := by
  rw [isDir,FileTree.resolve,if_neg hne,hc,walk_append,hw,Option.bind_some,FileTree.walk,FileTree.step]
  by_cases hm : t.isDir (move p c) = true
  · rw [if_pos ⟨hp,isSome_of_isDir hm⟩,Option.bind_some,← List.append_nil (List.replicate n []),walk_slashes hm]
    rfl
  · cases n with
    | zero => 
      split <;> simp [FileTree.walk,hm]
    | succ n => 
      split
      · rw [Option.bind_some,List.replicate_succ,FileTree.walk,FileTree.step,if_neg fun h => hm h.1]
        simp [hm]
      · simp [hm]

/-- `mkdir` and the question after it, for a path that ends with the name `c`. -/
theorem ensure_eq {cwd : Pos} {path : Str} {n : ℕ} (hne : path ≠ [])
    (hc : components path = cs ++ c::List.replicate n []) (hn : c = [] → cs = [])
    (hw : t.walk (start cwd path) cs = some p) (hp : t.isDir p = true) :
    ensure t cwd path = if h : Proper c ∧ t.isDir p = true ∧ t.node (p ++ [c]) = none then some (t.addDir p c h.2)
      else if t.isDir (move p c) then some t else none := by
  have hd := isDir_path hne hc hw hp
  by_cases he : c = []
  · have hr : (components path).rdropWhile (· = []) = [] := by
      rw [hc,he,hn he,List.nil_append,← List.replicate_succ,← List.nil_append (List.replicate _ _),rdropWhile_replicate]
      rfl
    have hm : move p c = p := move_stay (Or.inl he)
    rw [dif_neg fun h => h.1.1 he,hm,if_pos hp,ensure,FileTree.mkdir,hr]
    simp [eexist,hr,hne,hd,hm,hp]
  · have hr : (components path).rdropWhile (· = []) = cs ++ [c] := by
      rw [hc,← List.singleton_append,← List.append_assoc,rdropWhile_replicate,List.rdropWhile_concat_neg _ _ _ (by simpa using he)]
    rw [ensure,FileTree.mkdir,eexist,hr]
    simp only [List.getLast?_concat,List.dropLast_concat,hw,hd,Option.any_some]
    by_cases h : Proper c ∧ t.isDir p = true ∧ t.node (p ++ [c]) = none
    · rw [dif_pos h,dif_pos h]
    · rw [dif_neg h,dif_neg h]
      by_cases hm : t.isDir (move p c) = true
      · have hx : (decide (¬Proper c) || (t.node (p ++ [c])).isSome) = true := by
          by_cases hpr : Proper c
          · rw [move_proper hpr] at hm
            simp [isSome_of_isDir hm]
          · simp [hpr]
        simp only [hp,hx,hm,Bool.and_self,if_true]
      · simp [hm]

/-- What the inner loop goes by is a name and slashes, and then there are none. -/
theorem stop_spec (r : Str) : ∃ x l rest : Str, stop r = (x ++ l,rest) ∧ r = x ++ l ++ rest ∧ '/' ∉ x ∧
    (∀ a ∈ l, a = '/') ∧ (l = [] → rest = []) ∧ rest.head? ≠ some '/' := by
  refine ⟨r.takeWhile (· ≠ '/'),(r.dropWhile (· ≠ '/')).takeWhile (· = '/'),_,rfl,?_,?_,?_,?_,?_⟩
  · rw [List.append_assoc,List.takeWhile_append_dropWhile,List.takeWhile_append_dropWhile]
  · intro h
    simpa using List.mem_takeWhile_imp h
  · intro a ha
    simpa using List.mem_takeWhile_imp ha
  · intro h
    have ha := List.head?_dropWhile_not (· ≠ '/') r
    cases hd : r.dropWhile (· ≠ '/') with
    | nil => rfl
    | cons a s =>
      rw [hd] at h ha
      rw [List.takeWhile_cons_of_pos (by simpa using ha)] at h
      cases h
  · intro h
    have ha := List.head?_dropWhile_not (· = '/') (r.dropWhile (· ≠ '/'))
    rw [h] at ha
    simp at ha

theorem start_congr {cwd : Pos} {a b : Str} (h : a.head? = b.head?) : start cwd a = start cwd b := by
  rw [start,start,h]

theorem components_piece {x l : Str} (hx : '/' ∉ x) (hl : ∀ a ∈ l, a = '/') :
    components (x ++ l) = x::List.replicate l.length [] ∧ (l ≠ [] → ∀ r, components (x ++ (l ++ r)) =
      x::(List.replicate (l.length - 1) [] ++ components r)) := by
  cases l with
  | nil => exact ⟨by rw [List.append_nil,components_single hx]; rfl,fun h => absurd rfl h⟩
  | cons a l =>
    obtain rfl := hl a List.mem_cons_self
    have h : ∀ r, components (x ++ ('/'::l ++ r)) = x::(List.replicate l.length [] ++ components r) := by
      intro r
      rw [List.cons_append,components_append,components_single hx,components_slashes fun b hb => hl b (List.mem_cons_of_mem _ hb)]
      rfl
    refine ⟨?_,fun _ => h⟩
    have := h []
    rw [List.append_nil] at this
    rw [this]
    simp [components,List.replicate_succ']

theorem isSome_start {s : Pos} (h : t.walk s cs = some p) (hp : (t.node p).isSome = true) : (t.node s).isSome = true := by
  cases cs with
  | nil =>
    obtain rfl : s = p := Option.some.inj h
    exact hp
  | cons c cs =>
    rw [FileTree.walk,FileTree.step] at h
    split at h
    · rename_i hd
      exact isSome_of_isDir hd.1
    · cases h

/-- The loop, where it stands behind `done` in the directory `p`. -/
theorem xmkdirLoop_eq {cwd : Pos} {done r : Str} (hr : r ≠ []) (hs : ∀ l, components (done ++ l) = cs ++ components l)
    (hn : r.head? = some '/' → cs = []) (hw : t.walk (start cwd (done ++ r)) cs = some p) (hp : t.isDir p = true) :
    xmkdirLoop cwd t done r = ((if (grow t p (components r)).1 then 0 else -1),(grow t p (components r)).2) := by
  induction hk : r.length using Nat.strong_induction_on generalizing t p cs done r with
  | _ k ih =>
  obtain ⟨x,l,rest,hstop,rfl,hx,hl,hrest,hhead⟩ := stop_spec r
  obtain ⟨hc,hc'⟩ := components_piece hx hl
  have hxl : x ++ l ≠ [] := by
    intro h
    rw [h,hrest (List.append_eq_nil_iff.mp h).2] at hr
    exact hr rfl
  have hst : start cwd (done ++ (x ++ l ++ rest)) = start cwd (done ++ (x ++ l)) := by
    rw [← List.append_assoc done]
    exact start_congr (List.head?_append_of_ne_nil _ (List.append_ne_nil_of_right_ne_nil _ hxl))
  have hxn : x = [] → cs = [] := by
    rintro rfl
    cases l with
    | nil => exact absurd rfl hxl
    | cons a l => exact hn (by rw [hl a List.mem_cons_self]; rfl)
  rw [hst] at hw
  rw [xmkdirLoop,hstop]
  simp only
  rw [ensure_eq (List.append_ne_nil_of_right_ne_nil _ hxl) (by rw [hs,hc]) hxn hw hp]
  have hcont : ∀ t' : FileTree κ, t'.walk (start cwd (done ++ (x ++ l))) cs = some p → t'.isDir p = true →
      t'.isDir (move p x) = true → ∀ e, components (x ++ l ++ rest) = x::e →
      (if rest = [] then (0,t') else xmkdirLoop cwd t' (done ++ (x ++ l)) rest) =
      ((if (grow t' (move p x) e).1 then 0 else -1),(grow t' (move p x) e).2) := by
    intro t' hw' hp' hm e he
    by_cases hl0 : l = []
    · rw [hrest hl0,hl0,List.append_nil,List.append_nil,components_single hx] at he
      obtain rfl : [] = e := (List.cons.inj he).2
      rw [if_pos (hrest hl0)]
      rfl
    · rw [List.append_assoc,hc' hl0] at he
      obtain rfl := (List.cons.inj he).2
      rw [grow_slashes hm]
      by_cases hr0 : rest = []
      · rw [if_pos hr0,hr0]
        have hg : grow t' (move p x) (components []) = (true,t') := grow_slashes hm 1 []
        rw [hg]
        rfl
      · rw [if_neg hr0]
        have hs' : ∀ r, components (done ++ (x ++ l) ++ r) = cs ++ x::List.replicate (l.length - 1) [] ++ components r := by
          intro r
          rw [List.append_assoc,List.append_assoc,hs,hc' hl0,List.append_assoc]
          rfl
        refine ih _ ?_ hr0 hs' (fun h => absurd h hhead) ?_ hm rfl
        · have hpos := List.length_pos_of_ne_nil hxl
          rw [← hk,List.length_append]
          omega
        · rw [List.append_assoc done,hst,walk_append,hw',Option.bind_some,FileTree.walk,FileTree.step,
            if_pos ⟨hp',isSome_of_isDir hm⟩,Option.bind_some,← List.append_nil (List.replicate _ _),walk_slashes hm]
          rfl
  obtain ⟨e,he⟩ : ∃ e, components (x ++ l ++ rest) = x::e := by
    by_cases hl0 : l = []
    · rw [hrest hl0,hl0,List.append_nil,List.append_nil,components_single hx]
      exact ⟨_,rfl⟩
    · rw [List.append_assoc,hc' hl0]
      exact ⟨_,rfl⟩
  rw [he,grow]
  by_cases h : Proper x ∧ t.isDir p = true ∧ t.node (p ++ [x]) = none
  · rw [dif_pos h,dif_pos h]
    have hm : move p x = p ++ [x] := move_proper h.1
    have hnew : (t.addDir p x h.2).isDir (p ++ [x]) = true := by rw [isDir_iff,addDir_node,if_pos rfl]
    have hold : (t.addDir p x h.2).isDir p = true := by
      have := isDir_dropLast (isSome_of_isDir hnew)
      rwa [List.dropLast_concat] at this
    have hcont' := hcont _ (walk_addDir (isSome_start hw (isSome_of_isDir hp)) hw) hold
    rw [hm] at hcont'
    exact hcont' hnew e he
  · rw [dif_neg h,dif_neg h]
    by_cases hm : t.isDir (move p x) = true
    · rw [if_pos hm,if_pos hm]
      exact hcont t hw hp hm e he
    · rw [if_neg hm,if_neg hm]
      rfl

theorem start_isDir {cwd : Pos} (hc : t.isDir cwd = true) (path : Str) : t.isDir (start cwd path) = true := by
  rw [start]
  split
  · exact isDir_root
  · exact hc

theorem isDir_iff_visited {cwd : Pos} {path : Str} (hne : path ≠ []) (hc : (t.node (start cwd path)).isSome = true) :
    isDir t cwd path = true ↔ ∀ x ∈ visited (start cwd path) (components path), t.isDir x = true := by
  rw [isDir,FileTree.resolve,if_neg hne,Option.any_eq_true]
  constructor
  · rintro ⟨q,hq,hd⟩
    exact ((walk_dir_iff hc).mp (Option.filter_eq_some_iff.mpr ⟨hq,hd⟩)).2
  · intro h
    obtain ⟨hq,hd⟩ := Option.filter_eq_some_iff.mp ((walk_dir_iff hc).mpr ⟨rfl,h⟩)
    exact ⟨_,hq,hd⟩

theorem xmkdir_grow {cwd : Pos} (hc : t.isDir cwd = true) {path : Str} (hne : path ≠ []) : xmkdir cwd t path =
    ((if (grow t (start cwd path) (components path)).1 then 0 else -1),(grow t (start cwd path) (components path)).2) :=
  xmkdirLoop_eq hne (fun _ => rfl) (fun _ => rfl) rfl (start_isDir hc path)

theorem xmkdir_empty (cwd : Pos) (t : FileTree κ) : xmkdir cwd t [] = (-1,t) := by
  rw [xmkdir,xmkdirLoop]
  rfl

theorem xmkdir_zero {t : FileTree κ} {cwd : Pos} (hc : t.isDir cwd = true) (path : Str) : (xmkdir cwd t path).1 = 0 ↔
    path ≠ [] ∧ ∀ x ∈ visited (start cwd path) (components path), isPlain t x = false := by
  by_cases hne : path = []
  · rw [hne,xmkdir_empty]
    simp
  · rw [xmkdir_grow hc hne,← (grow_spec (start_isDir hc path) (components path)).1]
    simp [hne]

theorem xmkdir_node {t : FileTree κ} {cwd : Pos} (hc : t.isDir cwd = true) (path : Str) (q : Pos) :
    (xmkdir cwd t path).2.node q =
      if q ∈ (visited (start cwd path) (components path)).takeWhile (fun x => !isPlain t x) then some .dir
      else t.node q := by
  by_cases hne : path = []
  · rw [hne,xmkdir_empty]
    split
    · rename_i hq
      have hv : visited (start cwd []) (components []) = [cwd,cwd] := rfl
      have hq' := List.takeWhile_subset _ hq
      rw [hv] at hq'
      obtain rfl : q = cwd := by simpa using hq'
      exact isDir_iff.mp hc
    · rfl
  · rw [xmkdir_grow hc hne]
    exact (grow_spec (start_isDir hc path) (components path)).2 q

theorem takeWhile_visited {t : FileTree κ} {p : Pos} {cs : List Name}
    (h : ∀ x ∈ visited p cs, isPlain t x = false) : (visited p cs).takeWhile (fun x => !isPlain t x) = visited p cs := by
  rw [List.takeWhile_eq_self_iff]
  intro x hx
  rw [h x hx]
  rfl

/-- `xmkdir` goes along the path up to the first thing that is no directory, and makes directories of what is not there:
it returns 0 if it meets no file, then the path is one, and nothing else is changed. -/
theorem xmkdir_iff {t : FileTree κ} {cwd : Pos} (hc : t.isDir cwd = true) (path : Str) :
    ((xmkdir cwd t path).1 = 0 ↔ path ≠ [] ∧ ∀ x ∈ visited (start cwd path) (components path), isPlain t x = false) ∧
    ((xmkdir cwd t path).1 = 0 → isDir (xmkdir cwd t path).2 cwd path = true) ∧
    ((xmkdir cwd t path).1 ≠ 0 → (xmkdir cwd t path).1 = -1) ∧
    ∀ q, (xmkdir cwd t path).2.node q =
      if q ∈ (visited (start cwd path) (components path)).takeWhile (fun x => !isPlain t x) then some .dir
      else t.node q := by
  refine ⟨xmkdir_zero hc path,fun h0 => ?_,fun h0 => ?_,xmkdir_node hc path⟩
  · obtain ⟨hne,hp⟩ := (xmkdir_zero hc path).mp h0
    have hd : ∀ x ∈ visited (start cwd path) (components path), (xmkdir cwd t path).2.isDir x = true := by
      intro x hx
      rw [isDir_iff,xmkdir_node hc,takeWhile_visited hp,if_pos hx]
    exact (isDir_iff_visited hne (isSome_of_isDir (hd _ (start_mem_visited _ _)))).mpr hd
  · by_cases hne : path = []
    · rw [hne,xmkdir_empty]
    · rw [xmkdir_grow hc hne] at h0 ⊢
      exact if_neg fun hg => h0 (if_pos hg)

/-- A slash doubled and one at the end are nothing to `xmkdir`. -/
theorem xmkdir_iff_slashes : bare.isDir [] = true ∧ (xmkdir [] bare "var//cache/").1 = 0 ∧
    isDir (xmkdir [] bare "var//cache/").2 [] "var//cache/" = true :=
  have h := @xmkdir_iff _ bare [] rfl "var//cache/"
  have h0 := h.1.mpr ⟨by decide,by decide⟩
  ⟨rfl,h0,h.2.1 h0⟩

theorem visited_concat (p : Pos) (cs : List Name) (c : Name) :
    visited p (cs ++ [c]) = visited p cs ++ [move (goal p cs) c] := by
  induction cs generalizing p with
  | nil => rfl
  | cons d cs ih =>
    rw [List.cons_append,visited_cons,ih,visited_cons]
    rfl

theorem tree_ext {t t' : FileTree κ} (h : ∀ q, t.node q = t'.node q) : t = t' := by
  cases t
  cases t'
  obtain rfl := funext h
  rfl

/-- The tree has all of the positions as directories, and else it is the first tree, which has no file among them. -/
structure Filled (t t' : FileTree κ) (ps : List Pos) : Prop where
  plain : ∀ x ∈ ps, isPlain t x = false
  made : ∀ x ∈ ps, t'.isDir x = true
  same : ∀ x, x ∉ ps → t'.node x = t.node x

theorem filled_dir {cwd : Pos} {path : Str} (hne : path ≠ []) (hc : t.isDir cwd = true) (h : isDir t cwd path = true) :
    Filled t t (visited (start cwd path) (components path)) := by
  have hv := (isDir_iff_visited hne (isSome_of_isDir (start_isDir hc path))).mp h
  exact ⟨fun x hx => isPlain_of_isDir (hv x hx),hv,fun _ _ => rfl⟩

theorem start_beforeSlash {cwd : Pos} {path : Str} (h : '/' ∈ path) (hb : beforeSlash path ≠ []) :
    start cwd (beforeSlash path) = start cwd path := by
  obtain ⟨a,c,rfl,hc⟩ := exists_last h
  rw [beforeSlash_append a hc] at hb ⊢
  exact start_congr (List.head?_append_of_ne_nil _ hb).symm

/-- What `_MKDIR` does once all but the last component are there. -/
theorem filled_mkdir {cwd : Pos} {path : Str} {t₁ t' : FileTree κ} (hs : '/' ∈ path) (hb : beforeSlash path ≠ [])
    (h : Filled t t₁ (visited (start cwd (beforeSlash path)) (components (beforeSlash path))))
    (hf : fileExists t₁ cwd path = false) (hm : t₁.mkdir cwd path = some t') :
    Filled t t' (visited (start cwd path) (components path)) := by
  obtain ⟨cs,c,hc⟩ : ∃ cs c, components path = cs ++ [c] := by
    rcases List.eq_nil_or_concat' (components path) with h0 | h0
    · exact absurd h0 (components_ne path)
    · exact h0
  rw [start_beforeSlash hs hb,components_beforeSlash hs hc] at h
  have hd : t₁.isDir (goal (start cwd path) cs) = true := h.made _ (goal_mem_visited _ cs)
  have hw : t₁.walk (start cwd path) cs = some (goal (start cwd path) cs) :=
    (walk_eq_some (isSome_of_isDir (h.made _ (start_mem_visited _ cs)))).mpr
      ⟨rfl,fun x hx => h.made x (List.mem_append_left _ hx),isSome_of_isDir hd⟩
  have hne : path ≠ [] := List.ne_nil_of_mem hs
  have hp : Proper c := by
    by_contra hp
    rw [fileExists,FileTree.resolve,if_neg hne,hc,walk_concat,hw,Option.bind_some,step_improper hd hp] at hf
    cases hf
  have hr : (components path).rdropWhile (· = []) = cs ++ [c] := by
    rw [hc,List.rdropWhile_concat_neg _ _ _ (by simpa using hp.1)]
  rw [FileTree.mkdir,hr] at hm
  simp only [List.getLast?_concat,List.dropLast_concat,hw] at hm
  split at hm
  · rename_i hn
    obtain rfl := Option.some.inj hm
    rw [hc,visited_concat,move_proper hp]
    have hnew : goal (start cwd path) cs ++ [c] ∉ visited (start cwd path) cs := by
      intro hm
      rw [isDir_iff.mp (h.made _ hm)] at hn
      cases hn.2.2
    refine ⟨List.forall_mem_append.mpr ⟨h.plain,?_⟩,List.forall_mem_append.mpr ⟨fun x hx => ?_,?_⟩,fun x hx => ?_⟩
    · intro x hx
      rw [List.mem_singleton.mp hx,isPlain,← h.same _ hnew,hn.2.2]
      rfl
    · rw [isDir_iff,addDir_node,isDir_iff.mp (h.made x hx),ite_self]
    · intro x hx
      rw [List.mem_singleton.mp hx,isDir_iff,addDir_node,if_pos rfl]
    · rw [List.mem_append,List.mem_singleton,not_or] at hx
      rw [addDir_node,if_neg hx.2,h.same x hx.1]
  · cases hm

/-- How `_MKDIR` comes to return TRUE. -/
theorem mkdirLoop_true {cwd : Pos} {fuel : ℕ} {path : Str} {t' : FileTree κ}
    (h : mkdirLoop cwd (fuel + 1) t path = some (true,t')) : path ≠ [] ∧ (isDir t cwd path = true ∧ t' = t ∨
      ∃ path' t₁, path' = (if path.head? ≠ some '/' then "./" ++ path else path) ∧
        mkdirLoop cwd fuel t (beforeSlash path') = some (true,t₁) ∧ fileExists t₁ cwd path' = false ∧
        t₁.mkdir cwd path' = some t') := by
  rw [mkdirLoop] at h
  generalize hp : (if path.head? ≠ some '/' then "./" ++ path else path) = path' at h
  split at h
  · cases h
  rename_i hne
  refine ⟨by simpa using hne,?_⟩
  split at h
  · rename_i hd
    exact Or.inl ⟨hd,(Prod.mk.inj (Option.some.inj h)).2.symm⟩
  split at h
  · cases h
  refine Or.inr ⟨path',?_⟩
  simp only at h
  cases hr : mkdirLoop cwd fuel t (beforeSlash path') with
  | none =>
    rw [hr] at h
    cases h
  | some r =>
    obtain ⟨b,t₁⟩ := r
    rw [hr] at h
    cases b with
    | false => cases h
    | true =>
      simp only at h
      split at h
      · cases h
      rename_i hx
      cases hm : t₁.mkdir cwd path' with
      | none =>
        rw [hm] at h
        cases h
      | some t₂ =>
        rw [hm] at h
        obtain rfl : t₂ = t' := (Prod.mk.inj (Option.some.inj h)).2
        exact ⟨t₁,rfl,rfl,by simpa using hx,hm⟩

theorem mkdirLoop_filled {cwd : Pos} (hc : t.isDir cwd = true) {fuel : ℕ} {path : Str} {t' : FileTree κ}
    (h : mkdirLoop cwd fuel t path = some (true,t')) :
    path ≠ [] ∧ Filled t t' (visited (start cwd path) (components path)) := by
  induction fuel generalizing path t' with
  | zero => cases h
  | succ fuel ih =>
    obtain ⟨hne,⟨hd,rfl⟩ | ⟨path',t₁,hp,hr,hx,hm⟩⟩ := mkdirLoop_true h
    · exact ⟨hne,filled_dir hne hc hd⟩
    · refine ⟨hne,?_⟩
      obtain ⟨hb,hf⟩ := ih hr
      by_cases hh : path.head? = some '/'
      · rw [if_neg (not_not.mpr hh)] at hp
        subst hp
        exact filled_mkdir (List.mem_of_head? hh) hb hf hx hm
      · rw [if_pos hh] at hp
        subst hp
        -- the dot is one more look at the directory it starts from
        have hfill := filled_mkdir (by simp [Str.of_ascii]) hb hf hx hm
        have hs : start cwd ("./" ++ path) = start cwd path := by
          rw [start,start,if_neg hh,if_neg (by simp [Str.of_ascii])]
        rw [hs,components_dot,visited_cons,move_stay (Or.inr rfl)] at hfill
        refine ⟨fun x hx => hfill.plain x (List.mem_cons_of_mem _ hx),
          fun x hx => hfill.made x (List.mem_cons_of_mem _ hx),fun x hx => hfill.same x fun hm => ?_⟩
        rcases List.mem_cons.mp hm with rfl | hm
        · exact hx (start_mem_visited _ _)
        · exact hx hm

/-- Where `_MKDIR` makes a directory, `xmkdir` makes the same. -/
theorem mkdirLoop_xmkdir {t t' : FileTree κ} {cwd : Pos} (hc : t.isDir cwd = true) {fuel : ℕ} {path : Str}
    (h : mkdirLoop cwd fuel t path = some (true,t')) : xmkdir cwd t path = (0,t') := by
  obtain ⟨hne,hf⟩ := mkdirLoop_filled hc h
  refine Prod.ext ((xmkdir_zero hc path).mpr ⟨hne,hf.plain⟩) (tree_ext fun q => ?_)
  rw [xmkdir_node hc,takeWhile_visited hf.plain]
  split
  · rename_i hq
    exact (isDir_iff.mp (hf.made q hq)).symm
  · rename_i hq
    exact (hf.same q hq).symm

theorem mkdirLoop_xmkdir_nested : bare.isDir [] = true ∧ ∃ t', mkdirLoop [] 3 bare "var/cache" = some (true,t') ∧
    xmkdir [] bare "var/cache" = (0,t') :=
  ⟨rfl,_,rfl,@mkdirLoop_xmkdir _ bare _ [] rfl 3 "var/cache" rfl⟩

end Xmkdir
end Mybox
