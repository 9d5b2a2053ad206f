import Mybox.DirTree
import Mybox.Php

/-! The storage shell's `cd`: it goes to the directory first and looks where it is afterwards, by the first seven
characters of the path. -/
namespace Mybox
namespace StorageShell

open DirTree

variable {κ : Type} (t : FileTree κ) (may : Pos → Str → Bool)

/-- At or below `/config`. -/
def Stored (p : Pos) : Prop := p.head? = some ("config" : Str)

instance (p : Pos) : Decidable (Stored p) := inferInstanceAs (Decidable (_ = _))

/-- `chdir`. For what else the system lets a process into a directory or not, there is `may`. -/
def chdir (cwd : Pos) (dir : Str) : Option Pos :=
  if may cwd dir then (t.resolve cwd dir).filter fun p => t.isDir p else none

/-- `!strncmp(pt,"/config",7)` -/
def prefixed (p : Pos) : Bool := (text p).take 7 == Str.of "/config"

/-- `awie_vstorage_dochdir`: the answer, and the directory one is in then. -/
def dochdir (cwd : Pos) (dir : Str) : Bool × Pos :=
  match chdir t may cwd dir with
  | some p => (prefixed p,p)
  | none => (false,cwd)

def vstorageChdir (cwd : Pos) (dirname : Str) : Bool × Pos :=
  let first := dochdir t may cwd ("/config/" ++ dirname)
  if first.1 then first else dochdir t may first.2 dirname

/-- Where the argument leads below `/config`, and from the directory one is in after that, is below `/config`. -/
def Confined (cwd : Pos) (dirname : Str) : Prop :=
  match chdir t may cwd ("/config/" ++ dirname) with
  | none => ∀ q, chdir t may cwd dirname = some q → Stored q
  | some p => if prefixed p then Stored p else ∃ q, chdir t may p dirname = some q ∧ Stored q

variable {t may} {cwd : Pos} {dirname : Str}

theorem Stored.prefixed {p : Pos} (h : Stored p) : prefixed p = true := by
  cases p with
  | nil => cases h
  | cons n p =>
    obtain rfl : n = ("config" : Str) := Option.some.inj h
    rfl

/-- What one `chdir` with its test leaves below `/config`, and where it was if it failed. -/
theorem dochdir_iff (hc : Stored cwd) :
    Stored (dochdir t may cwd dirname).2 ∧
        ((dochdir t may cwd dirname).1 = false → (dochdir t may cwd dirname).2 = cwd) ↔
      ∀ q, chdir t may cwd dirname = some q → Stored q := by
  rw [dochdir]
  cases h : chdir t may cwd dirname with
  | none => exact iff_of_true ⟨hc,fun _ => rfl⟩ nofun
  | some q =>
    constructor
    · rintro ⟨hs,-⟩ q' hq
      rwa [← Option.some.inj hq]
    · intro hs
      have hq := hs q rfl
      exact ⟨hq,fun hf => absurd hq.prefixed (by simpa using hf)⟩

theorem prefix_goal {p : Pos} {cs : List Name} (h : ['.','.'] ∉ cs) : p <+: goal p cs := by
  induction cs generalizing p with
  | nil => exact List.prefix_rfl
  | cons c cs ih =>
    rw [List.mem_cons,not_or] at h
    refine List.IsPrefix.trans ?_ (ih h.2)
    rw [move,if_neg (Ne.symm h.1)]
    split
    · exact List.prefix_rfl
    · exact List.prefix_append _ _

theorem Stored.mono {p q : Pos} (h : Stored p) (hpq : p <+: q) : Stored q := by
  obtain ⟨r,rfl⟩ := hpq
  cases p with
  | nil => cases h
  | cons n p => exact h

theorem chdir_goal {q : Pos} (hd : t.isDir cwd = true) (h : chdir t may cwd dirname = some q) :
    q = goal (start cwd dirname) (components dirname) := by
  rw [chdir] at h
  split at h
  · have hw := (Option.filter_eq_some_iff.mp h).1
    rw [FileTree.resolve] at hw
    split at hw
    · cases hw
    · refine ((walk_eq_some ?_).mp hw).1
      rw [start]
      split
      · exact isSome_of_isDir isDir_root
      · exact isSome_of_isDir hd
  · cases h

/-- A path from the current directory that does not go back is one that `cd` is right about. -/
theorem confined_of_down (hd : t.isDir cwd = true) (hc : Stored cwd) (hh : dirname.head? ≠ some '/')
    (hb : ['.','.'] ∉ components dirname) : Confined t may cwd dirname := by
  rw [Confined]
  cases h : chdir t may cwd ("/config/" ++ dirname) with
  | none =>
    intro q hq
    rw [chdir_goal hd hq,start,if_neg hh]
    exact hc.mono (prefix_goal hb)
  | some p =>
    have hp : Stored p := by
      have hcs : components ("/config/" ++ dirname) = [[],"config"] ++ components dirname := by
        rw [show Str.of "/config/" ++ dirname = Str.of "/config" ++ '/'::dirname from rfl,components_append]
        rfl
      rw [chdir_goal hd h,hcs]
      exact (show Stored ["config"] from rfl).mono (prefix_goal hb)
    simp only [hp.prefixed,if_true,hp]

/-- The directory stays at or below `/config`, and a failure leaves it as it was, just as long as no step of the two
leads out: whoever is led out is not taken back. -/
theorem vstorageChdir_iff (hc : Stored cwd) :
    Stored (vstorageChdir t may cwd dirname).2 ∧
        ((vstorageChdir t may cwd dirname).1 = false → (vstorageChdir t may cwd dirname).2 = cwd) ↔
      Confined t may cwd dirname := by
  rw [vstorageChdir,Confined]
  cases h : chdir t may cwd ("/config/" ++ dirname) with
  | none =>
    have hf : dochdir t may cwd ("/config/" ++ dirname) = (false,cwd) := by rw [dochdir,h]
    rw [hf]
    exact dochdir_iff hc
  | some p =>
    have hf : dochdir t may cwd ("/config/" ++ dirname) = (prefixed p,p) := by rw [dochdir,h]
    rw [hf]
    cases hp : prefixed p with
    | true => simp [hp]
    | false =>
      have hout : ¬Stored p := fun hs => absurd hs.prefixed (by simp [hp])
      simp only [hp,Bool.false_eq_true,if_false]
      rw [dochdir]
      cases h₂ : chdir t may p dirname with
      | none =>
        refine iff_of_false ?_ nofun
        rintro ⟨hs,-⟩
        exact hout hs
      | some q =>
        constructor
        · rintro ⟨hs,-⟩
          exact ⟨q,rfl,hs⟩
        · rintro ⟨q',hq,hs⟩
          obtain rfl := Option.some.inj hq
          exact ⟨hs,fun hq => absurd hs.prefixed (by simpa using hq)⟩

/-- `/config` with `logs` in it, beside the root, and nothing else. -/
def store : FileTree Unit where
  node p := if p = [] ∨ p = ["config"] ∨ p = ["config","logs"] then some .dir else none
  root := rfl
  parent := by
    intro p n x h
    have hm : p ++ [n] = [] ∨ p ++ [n] = ["config"] ∨ p ++ [n] = ["config","logs"] := by
      by_contra hn
      rw [if_neg hn] at h
      cases h
    refine if_pos ?_
    rcases hm with he | he | he
    · exact absurd he (by simp)
    all_goals
      rw [← @List.dropLast_concat _ p n,he]
      decide

/-- `cd /config` in `/config/logs`: there is no `/config/config`, and the second attempt leads to `/config`. -/
theorem vstorageChdir_iff_config : Stored (vstorageChdir store (fun _ _ => true) ["config","logs"] "/config").2 ∧
    ((vstorageChdir store (fun _ _ => true) ["config","logs"] "/config").1 = false →
      (vstorageChdir store (fun _ _ => true) ["config","logs"] "/config").2 = ["config","logs"]) := by
  have hc : Stored ["config","logs"] := rfl
  refine (vstorageChdir_iff hc).mpr ?_
  have h₁ : chdir store (fun _ _ => true) ["config","logs"] (("/config/" : Str) ++ ("/config" : Str)) = none := by decide
  have h₂ : chdir store (fun _ _ => true) ["config","logs"] "/config" = some [("config" : Str)] := by decide
  rw [Confined,h₁,h₂]
  rintro q hq
  obtain rfl := Option.some.inj hq
  rfl

/-- `cd ..` in `/config` fails, and the shell is in the root afterwards. -/
theorem cd_up : store.isDir ["config"] = true ∧ Stored ["config"] ∧
    vstorageChdir store (fun _ _ => true) ["config"] ".." = (false,[]) ∧ ¬Stored [] := by decide

end StorageShell
end Mybox
