import Mathlib.Data.List.Basic
import Mathlib.Tactic.Common

/-! Chains of packet filter rules that read and set the mark of a packet, and the routing
policy that picks a table by that mark. -/
namespace Mybox
namespace MarkChain

variable {P R : Type}

inductive Target
  | accept
  | setMark (n : Nat)

/-- A rule looks at the packet and at the mark it carries so far. -/
structure Rule (P : Type) where
  applies : P → Nat → Bool
  target : Target

/-- The mark a packet leaves the chain with. Setting the mark goes on with the next rule,
accepting ends the chain. -/
def run : List (Rule P) → P → Nat → Nat
  | [], _, m => m
  | r::rs, p, m =>
    if r.applies p m then
      match r.target with
      | .accept => m
      | .setMark n => run rs p n
    else run rs p m

def acceptMarked : Rule P := ⟨fun _ m => m ≠ 0,.accept⟩

/-- Sets a mark on packets that have none and pass a test. -/
def guarded (f : P → Bool) (n : Nat) : Rule P := ⟨fun p m => f p && m = 0,.setMark n⟩

variable {α : Type} (f : α → P → Bool) (mark : α → Nat)

theorem run_guarded_marked (l : List α) (p : P) {m : Nat} (hm : m ≠ 0) :
    run (l.map fun a => guarded (f a) (mark a)) p m = m := by
  induction l with
  | nil => rfl
  | cons a l ih => simpa [run,guarded,hm] using ih

theorem run_guarded {l : List α} (h : ∀ a ∈ l, mark a ≠ 0) (p : P) :
    run (l.map fun a => guarded (f a) (mark a)) p 0 =
      ((l.find? fun a => f a p).map mark).getD 0 := by
  induction l with
  | nil => rfl
  | cons a l ih =>
    by_cases ha : f a p = true
    · have hr := run_guarded_marked f mark l p (h a (by simp))
      simpa [run,guarded,ha] using hr
    · have hi := ih fun b hb => h b (List.mem_cons_of_mem _ hb)
      simpa [run,guarded,ha] using hi

theorem run_acceptMarked (rs : List (Rule P)) (p : P) : run (acceptMarked::rs) p 0 = run rs p 0 := by
  simp [run,acceptMarked]

/-- A routing rule sends packets with a mark to a table; a route lies in a table. -/
inductive Command (R : Type)
  | rule (prio fwmark table : Nat)
  | route (r : R) (table : Nat)
  deriving DecidableEq

def tablesOf (cs : List (Command R)) (m : Nat) : List Nat :=
  cs.filterMap fun c => match c with
    | .rule _ f t => if f = m then some t else none
    | .route _ _ => none

def routesIn (cs : List (Command R)) (t : Nat) : List R :=
  cs.filterMap fun c => match c with
    | .rule _ _ _ => none
    | .route r t' => if t' = t then some r else none

/-- A routing rule and a route, both in the table with the number of the mark. -/
def commands (route : α → R) (a : α) : List (Command R) :=
  [.rule (mark a) (mark a) (mark a),.route (route a) (mark a)]

variable {f mark}

theorem tablesOf_commands (route : α → R) (l : List α) (m : Nat) :
    tablesOf (l.flatMap (commands mark route)) m = (l.filter fun a => mark a = m).map mark := by
  induction l with
  | nil => rfl
  | cons a l ih =>
    by_cases ha : mark a = m <;> simpa [tablesOf,commands,ha] using ih

theorem routesIn_commands (route : α → R) (l : List α) (t : Nat) :
    routesIn (l.flatMap (commands mark route)) t = (l.filter fun a => mark a = t).map route := by
  induction l with
  | nil => rfl
  | cons a l ih =>
    by_cases ha : mark a = t <;> simpa [routesIn,commands,ha] using ih

theorem filter_mark {l : List α} (h : l.Pairwise fun a b => mark a < mark b) {a : α} (ha : a ∈ l) :
    (l.filter fun b => mark b = mark a) = [a] := by
  induction h with
  | nil => simp at ha
  | @cons b l hb _ ih =>
    rcases List.mem_cons.mp ha with rfl | ha
    · have hn : (l.filter fun c => decide (mark c = mark a)) = [] := by
        rw [List.filter_eq_nil_iff]
        intro c hc
        have := hb c hc
        simp
        omega
      simp [hn]
    · have := hb a ha
      rw [List.filter_cons_of_neg (by simp; omega)]
      exact ih ha

theorem commands_nodup {route : α → R} {l : List α} (h : l.Pairwise fun a b => mark a < mark b) :
    (l.flatMap (commands mark route)).Nodup := by
  induction h with
  | nil => simp
  | @cons b l hb _ ih =>
    rw [List.flatMap_cons,List.nodup_append]
    refine ⟨by simp [commands],ih,?_⟩
    intro c hc d hd
    obtain ⟨a,ha,hd⟩ := List.mem_flatMap.mp hd
    have := hb a ha
    simp only [commands,List.mem_cons,List.not_mem_nil,or_false] at hc hd
    rcases hc with rfl | rfl <;> rcases hd with rfl | rfl <;> simp <;> omega

end MarkChain
end Mybox
