import Mybox.PolicyTables

/-! Version 3.0: the time of a rule. The policies go through their rows with the array of events in hand, and give it
up after the first row that has an event. -/
namespace Mybox
namespace TimedRules
open Php PolicyTables

/-- The loop over the rows of a policy. -/
structure Policy (α : Type) where
  event : α → Str
  drafts : α → List Draft
  /-- The function returns at the row. -/
  returns : α → Bool

variable {α : Type}

/-- `$_cmd_time`, when there is an array of events at all. -/
def cmdTime (deftime : Option (OrdMap Str TimeDef)) (event : Str) : Str :=
  match deftime.bind fun m => m.get? event with
  | none => []
  | some d => timePolicy d.val d.val2 d.val3

/-- What each row writes; after the first event the array is not set. -/
def Policy.loop (p : Policy α) : Option (OrdMap Str TimeDef) → List α → List (List Str)
  | _, [] => []
  | deftime, r::rs =>
    if p.returns r then (r::rs).map fun _ => []
    else if p.event r = [] then (p.drafts r).map (Draft.text [])::p.loop deftime rs
    else (p.drafts r).map (Draft.text (cmdTime deftime (p.event r)))::p.loop none rs

/-- The tables of rules. -/
inductive PolicyTable
  | inbound
  | outbound
  | dnat
  | snat
  | map
  deriving DecidableEq

abbrev PolicyTable.Row : PolicyTable → Type
  | inbound | outbound => FilterRow
  | dnat | snat => NatRow
  | map => MapRow

/-- `policy_filter`, `policy_nat` and `policy_netmap`. -/
def policy (a : Arrays) : (t : PolicyTable) → Policy t.Row
  | .inbound => ⟨fun r => trim r.event,filterDrafts a "ACL1000-07",fun _ => false⟩
  | .outbound => ⟨fun r => trim r.event,filterDrafts a "ACL1000-08",fun _ => false⟩
  | .dnat => ⟨fun r => trim r.event,natDrafts a "dnat",fun _ => false⟩
  | .snat => ⟨fun r => trim r.event,natDrafts a "snat",fun _ => false⟩
  | .map => ⟨fun r => trim r.event,netmapDrafts a,fun r => forwardColumn a (trim r.fwd) = []⟩

/-- What the enabled rows of a table write, each for itself. -/
def emitted (a : Arrays) (t : PolicyTable) (rows : List t.Row) : List (List Str) :=
  (policy a t).loop (some a.deftime) rows

/-- The time match of an event, none if there is no event. -/
def Policy.timeMatch (p : Policy α) (deftime : OrdMap Str TimeDef) (r : α) : Str :=
  if p.event r = [] then [] else cmdTime (some deftime) (p.event r)

/-- The rules of a row with the time match of its own event. -/
def Policy.ownRules (p : Policy α) (deftime : OrdMap Str TimeDef) (r : α) : List Str :=
  (p.drafts r).map (Draft.text (p.timeMatch deftime r))

/-- Each row has its own time match, and its rules are those of the row alone. -/
def TimesKept (a : Arrays) (t : PolicyTable) (rows : List t.Row) : Prop :=
  ∀ before r after, rows = before ++ r::after →
    (emitted a t rows)[before.length]? = some ((policy a t).ownRules a.deftime r) ∧
      (emitted a t rows)[before.length]? = (emitted a t [r])[0]?

/-- A row that writes rules comes after no row at which the function returns, and has a time match only when no row
before it has an event. -/
def EventsFirst (a : Arrays) (t : PolicyTable) (rows : List t.Row) : Prop :=
  ∀ before r after, rows = before ++ r::after → (policy a t).drafts r = [] ∨
    ((∀ q ∈ before, (policy a t).returns q = false) ∧
      ((policy a t).timeMatch a.deftime r = [] ∨ ∀ q ∈ before, (policy a t).event q = []))

theorem texts_inj {ds : List Draft} (h : ds ≠ []) {s t : Str} :
    ds.map (Draft.text s) = ds.map (Draft.text t) ↔ s = t := by
  constructor
  · intro he
    cases ds with
    | nil => exact absurd rfl h
    | cons d ds =>
      have hd : d.before ++ s ++ d.after = d.before ++ t ++ d.after := (List.cons.inj he).1
      exact List.append_cancel_left (List.append_cancel_right hd)
  · rintro rfl
    rfl

def Policy.left (p : Policy α) (deftime : Option (OrdMap Str TimeDef)) (before : List α) :
    Option (OrdMap Str TimeDef) :=
  if ∀ q ∈ before, p.event q = [] then deftime else none

/-- What a row writes depends on the rows before it. -/
theorem loop_getElem (p : Policy α) (deftime : Option (OrdMap Str TimeDef)) (before : List α) (r : α)
    (after : List α) (hret : p.returns r = true → p.drafts r = []) :
    (p.loop deftime (before ++ r::after))[before.length]? = some
      (if ∀ q ∈ before, p.returns q = false then
        (p.drafts r).map (Draft.text (if p.event r = [] then [] else cmdTime (p.left deftime before) (p.event r)))
      else []) := by
  induction before generalizing deftime with
  | nil =>
    rw [List.nil_append,Policy.loop]
    by_cases hr : p.returns r = true
    · rw [if_pos hr]
      simp [hret hr]
    · rw [if_neg hr]
      by_cases he : p.event r = []
      · simp [he]
      · simp [he,Policy.left]
  | cons q before ih =>
    rw [List.cons_append,Policy.loop]
    by_cases hq : p.returns q = true
    · rw [if_pos hq,if_neg (by simp [hq])]
      simp
    · have hall : (∀ x ∈ q::before, p.returns x = false) ↔ ∀ x ∈ before, p.returns x = false := by simp [hq]
      rw [if_neg hq]
      simp only [hall]
      by_cases he : p.event q = []
      · have hl : p.left deftime (q::before) = p.left deftime before := by simp [Policy.left,he]
        rw [if_pos he,List.length_cons,List.getElem?_cons_succ,ih,hl]
      · have hl : ∀ d, p.left d (q::before) = none := fun d => by simp [Policy.left,he]
        have hn : p.left none before = none := by simp [Policy.left]
        rw [if_neg he,List.length_cons,List.getElem?_cons_succ,ih,hl,hn]

theorem returns_drafts (a : Arrays) (t : PolicyTable) (r : t.Row) (h : (policy a t).returns r = true) :
    (policy a t).drafts r = [] := by
  cases t with
  | map =>
    have hf : forwardColumn a (trim r.fwd) = [] := of_decide_eq_true h
    simp [policy,netmapDrafts,hf,crossed]
  | _ => exact absurd h Bool.false_ne_true

theorem emitted_at (a : Arrays) (t : PolicyTable) (before : List t.Row) (r : t.Row) (after : List t.Row) :
    (emitted a t (before ++ r::after))[before.length]? = some
      (if ∀ q ∈ before, (policy a t).returns q = false then
        ((policy a t).drafts r).map (Draft.text
          (if ∀ q ∈ before, (policy a t).event q = [] then (policy a t).timeMatch a.deftime r else []))
      else []) := by
  rw [emitted,loop_getElem (policy a t) _ before r after (returns_drafts a t r)]
  congr 3
  simp only [Policy.left,Policy.timeMatch]
  split <;> split <;> rfl

theorem emitted_alone (a : Arrays) (t : PolicyTable) (r : t.Row) :
    (emitted a t [r])[0]? = some ((policy a t).ownRules a.deftime r) := by
  have h := emitted_at a t [] r []
  simpa [Policy.ownRules] using h

theorem times_kept_iff (a : Arrays) (t : PolicyTable) (rows : List t.Row) :
    TimesKept a t rows ↔ EventsFirst a t rows := by
  have key : ∀ before r after, rows = before ++ r::after →
      ((emitted a t rows)[before.length]? = some ((policy a t).ownRules a.deftime r) ↔
        ((policy a t).drafts r = [] ∨ ((∀ q ∈ before, (policy a t).returns q = false) ∧
          ((policy a t).timeMatch a.deftime r = [] ∨ ∀ q ∈ before, (policy a t).event q = [])))) := by
    rintro before r after rfl
    rw [emitted_at,Option.some.injEq,Policy.ownRules]
    by_cases hd : (policy a t).drafts r = []
    · simp [hd]
    · by_cases hr : ∀ q ∈ before, (policy a t).returns q = false
      · rw [if_pos hr,texts_inj hd]
        by_cases he : ∀ q ∈ before, (policy a t).event q = []
        · rw [if_pos he]
          exact iff_of_true rfl (Or.inr ⟨hr,Or.inr he⟩)
        · rw [if_neg he]
          constructor
          · exact fun h => Or.inr ⟨hr,Or.inl h.symm⟩
          · rintro (h | ⟨-,h | h⟩)
            · exact absurd h hd
            · exact h.symm
            · exact absurd h he
      · rw [if_neg hr]
        refine iff_of_false (fun h => hd ?_) fun h => h.elim hd fun h => hr h.1
        exact List.map_eq_nil_iff.mp h.symm
  constructor
  · exact fun h before r after hrows => (key before r after hrows).mp (h before r after hrows).1
  · intro h before r after hrows
    have hk := (key before r after hrows).mpr (h before r after hrows)
    exact ⟨hk,by rw [hk,emitted_alone]⟩

def workOnly : Arrays where
  deftime := deftimesArray [⟨"work","Mon,Tue","",""⟩]
  defnet := ∅
  defservice := ∅
  defservice4nat := ∅
  namedev := ∅

def duringWork (id : Str) : FilterRow := ⟨id,false,"any",false,"any","any","1","work",false⟩

theorem second_event_lost : ¬TimesKept workOnly .inbound [duringWork "1",duringWork "2"] := by
  intro h
  have h₂ := (h [duringWork "1"] (duringWork "2") [] rfl).1
  have hp : (emitted workOnly .inbound [duringWork "1",duringWork "2"])[1]? =
      some [("-A ACL1000-07  -j ACCEPT" : Str)] := by decide
  have ho : (policy workOnly .inbound).ownRules workOnly.deftime (duringWork "2") =
      [("-A ACL1000-07 -m time --days Mon,Tue -j ACCEPT" : Str)] := by decide
  rw [List.length_singleton,hp,ho] at h₂
  exact absurd h₂ (by decide)

end TimedRules
end Mybox
