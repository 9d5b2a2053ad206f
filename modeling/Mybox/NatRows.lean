import Mathlib.Data.Finset.Max
import Mybox.TimedRules

/-! Version 3.0: address translation row by row. What a row asks for is said name by name; `policy_nat` and
`policy_netmap` write it in loops that go by which of the lists are empty. -/
namespace Mybox
namespace NatRows
open Php PolicyTables TimedRules

/-- The columns of a definition, or of each member of a group. -/
def objects (e : Entry) : List (Str → Str) :=
  if given e "name" then [field e]
  else if given e "group" then (members e).map fun b k => b.getD k []
  else []

/-- A network name stands for an object of a type and with an address. -/
inductive Stands (a : Arrays) (n : Str) : Str → Str → Prop
  | device : a.namedev.getD n [] ≠ [] → Stands a n "2" (a.namedev.getD n [])
  | defined {e : Entry} {u : Str → Str} : a.namedev.getD n [] = [] → a.defnet.get? n = some e → u ∈ objects e →
      Stands a n (u "type") (u "ip")

/-- A match of the name in its place; as the address to forward to, the address alone. -/
def AddressMatch (a : Arrays) (o : Opt) (n m : Str) : Prop := ∃ type ip, Stands a n type ip ∧ m ∈ addressMatches o [] type ip

def ServiceMatch (a : Arrays) (n m : Str) : Prop :=
  ∃ e, a.defservice.get? n = some e ∧ ∃ u ∈ objects e, m ∈ serviceMatches (u "proto") (u "dport") (u "sport") (u "etc")

def Forward (a : Arrays) (n f : Str) : Prop := f ≠ [] ∧ AddressMatch a .fwd n f

def Port (a : Arrays) (n p : Str) : Prop := ∃ e, a.defservice4nat.get? n = some e ∧ ∃ u ∈ objects e, p = u "dport"

abbrev any : Str := "any"

/-- What a column puts into a rule: nothing for `any`, else one of the matches of its name. -/
def Part (M : Str → Str → Prop) (n : Str) (ms : List Str) : Prop := if n = any then ms = [] else ∃ m, M n m ∧ ms = [m]

def Known (M : Str → Str → Prop) (n : Str) : Prop := n = any ∨ ∃ m, M n m

def jump (type : Str) : Str := if type = ("snat" : Str) then "-j SNAT --to-source " else "-j DNAT --to-destination "

def natj (type : Str) : Str := if type = ("snat" : Str) then "ACL1006-04" else "ACL1006-02"

def logText (type id : Str) : Str := cmdlog ++ " \"F:".toList ++ type ++ ":NAT:".toList ++ id ++ " \"".toList

/-- A target the row configures: an address, with a port if one is given. -/
def NatTarget (a : Arrays) (type : Str) (r : NatRow) (τ : Str) : Prop :=
  ∃ f, Forward a (trim r.fwd) f ∧
    if trim r.fwdp = any then τ = jump type ++ f else ∃ p, Port a (trim r.fwdp) p ∧ τ = jump type ++ f ++ ':'::p

def NatWanted (a : Arrays) (type : Str) (r : NatRow) (d : Draft) : Prop :=
  ∃ s e v τ, Part (AddressMatch a .src) (trim r.src) s ∧ Part (AddressMatch a .dst) (trim r.dst) e ∧
    Part (ServiceMatch a) (trim r.service) v ∧ NatTarget a type r τ ∧
    (d = draft (natj type) (v ++ s ++ e) τ ∨ r.log = true ∧ d = draft (natj type) (v ++ s ++ e) (logText type r.id))

def mapChain (r : MapRow) : Str := if r.type then "ACL1006-04" else "ACL1006-02"

def MapWanted (a : Arrays) (r : MapRow) (d : Draft) : Prop :=
  ∃ s e f, Part (AddressMatch a .src) (trim r.src) s ∧ Part (AddressMatch a .dst) (trim r.dst) e ∧
    Forward a (trim r.fwd) f ∧ d = draft (mapChain r) (s ++ e) ("-j NETMAP --to ".toList ++ f)

inductive Kind
  | dnat
  | snat
  | map

def Kind.table : Kind → PolicyTable
  | dnat => .dnat
  | snat => .snat
  | map => .map

def Wanted (a : Arrays) : (k : Kind) → k.table.Row → Draft → Prop
  | .dnat, r => NatWanted a "dnat" r
  | .snat, r => NatWanted a "snat" r
  | .map, r => MapWanted a r

/-- Each row writes the rules it asks for, with the time of its own event, and no others. If a name does not resolve
it asks for none. -/
def RowsRight (a : Arrays) (k : Kind) (rows : List k.table.Row) : Prop :=
  ∀ before r after, rows = before ++ r::after → ∃ l, (emitted a k.table rows)[before.length]? = some l ∧
    ∀ s, s ∈ l ↔ ∃ d, Wanted a k r d ∧ s = d.text ((policy a k.table).timeMatch a.deftime r)

/-- The event of the row is still known when its turn comes. -/
def TimeKept (a : Arrays) (k : Kind) (before : List k.table.Row) (r : k.table.Row) : Prop :=
  (policy a k.table).timeMatch a.deftime r = [] ∨ ∀ q ∈ before, (policy a k.table).event q = []

def NatResolved (a : Arrays) (type : Str) (r : NatRow) : Prop :=
  Known (AddressMatch a .src) (trim r.src) ∧ Known (AddressMatch a .dst) (trim r.dst) ∧
    Known (ServiceMatch a) (trim r.service) ∧ ∃ τ, NatTarget a type r τ

def AllAny (r : NatRow) : Prop := trim r.src = any ∧ trim r.dst = any ∧ trim r.service = any

/-- The row names something besides the target, and a name that does not resolve is one of the target. -/
def NatFine (a : Arrays) (type : Str) (r : NatRow) (kept : Prop) : Prop :=
  (NatResolved a type r → ¬AllAny r ∧ kept) ∧ (¬NatResolved a type r → ¬∃ τ, NatTarget a type r τ)

def MapResolved (a : Arrays) (r : MapRow) : Prop :=
  Known (AddressMatch a .src) (trim r.src) ∧ Known (AddressMatch a .dst) (trim r.dst) ∧ ∃ f, Forward a (trim r.fwd) f

def Returns (a : Arrays) (r : MapRow) : Prop := ¬∃ f, AddressMatch a .fwd (trim r.fwd) f

/-- The row names a destination and comes before all that have nowhere to forward to; if a name does not resolve it is
the destination or the address to forward to, or the row comes after one of those. -/
def MapFine (a : Arrays) (before : List MapRow) (r : MapRow) (kept : Prop) : Prop :=
  (MapResolved a r → trim r.dst ≠ any ∧ (∀ q ∈ before, ¬Returns a q) ∧ kept) ∧
  (¬MapResolved a r → (¬∃ f, Forward a (trim r.fwd) f) ∨ trim r.dst = any ∨
    ¬Known (AddressMatch a .dst) (trim r.dst) ∨ ∃ q ∈ before, Returns a q)

def RowFine (a : Arrays) : (k : Kind) → List k.table.Row → k.table.Row → Prop
  | .dnat, before, r => NatFine a "dnat" r (TimeKept a .dnat before r)
  | .snat, before, r => NatFine a "snat" r (TimeKept a .snat before r)
  | .map, before, r => MapFine a before r (TimeKept a .map before r)

variable {a : Arrays}

theorem mem_objects {β : Type} (e : Entry) (f : (Str → Str) → List β) (x : β) :
    x ∈ (if given e "name" then f (field e) else if given e "group" then (members e).flatMap fun b => f fun k => b.getD k []
      else []) ↔ ∃ u ∈ objects e, x ∈ f u := by
  rw [objects]
  split
  · simp
  · split
    · simp [List.mem_flatMap]
    · simp

theorem mem_named {n m : Str} {o : Opt} :
    m ∈ (if a.namedev.getD n [] ≠ [] then addressMatches o [] "2" (a.namedev.getD n [])
      else if a.defnet.get? n = none then [] else listSrcdstArray a.defnet n o []) ↔ AddressMatch a o n m := by
  by_cases hd : a.namedev.getD n [] = []
  · rw [if_neg (not_not.mpr hd)]
    cases he : a.defnet.get? n with
    | none =>
      rw [if_pos rfl]
      refine iff_of_false List.not_mem_nil ?_
      rintro ⟨_,_,hs,-⟩
      cases hs with
      | device h => exact h hd
      | defined _ h => rw [he] at h; cases h
    | some e =>
      have hg : a.defnet.getD n ∅ = e := by rw [OrdMap.getD,he]; rfl
      rw [if_neg (by simp),listSrcdstArray,hg,mem_objects e fun u => addressMatches o [] (u "type") (u "ip")]
      constructor
      · rintro ⟨u,hu,hm⟩
        exact ⟨_,_,.defined hd he hu,hm⟩
      · rintro ⟨_,_,hs,hm⟩
        cases hs with
        | device h => exact absurd hd h
        | defined _ h hu =>
          rw [he] at h
          cases h
          exact ⟨_,hu,hm⟩
  · rw [if_pos hd]
    constructor
    · exact fun hm => ⟨_,_,.device hd,hm⟩
    · rintro ⟨_,_,hs,hm⟩
      cases hs with
      | device => exact hm
      | defined h => exact absurd h hd

theorem mem_column {n m : Str} {o : Opt} (hn : n ≠ any) : m ∈ column a n o [] ↔ AddressMatch a o n m := by
  have h₃ : toNumber ("2" : Str) ≠ 3 := by decide +kernel
  have h₄ : toNumber ("2" : Str) ≠ 4 := by decide +kernel
  rw [← mem_named,column,if_neg hn]
  unfold addressMatches
  rw [if_neg h₃,if_neg h₄]

theorem column_any (o : Opt) : column a any o [] = [] := if_pos rfl

theorem mem_forwardColumn {n m : Str} : m ∈ forwardColumn a n ↔ AddressMatch a .fwd n m := by
  have h₃ : toNumber ("2" : Str) ≠ 3 := by decide +kernel
  have h₄ : toNumber ("2" : Str) ≠ 4 := by decide +kernel
  rw [← mem_named,forwardColumn]
  unfold addressMatches
  rw [if_neg h₃,if_neg h₄]

theorem mem_entry {β : Type} (t : Table) (n : Str) (f : (Str → Str) → List β) (x : β) :
    (∃ u ∈ objects (t.getD n ∅), x ∈ f u) ↔ ∃ e, t.get? n = some e ∧ ∃ u ∈ objects e, x ∈ f u := by
  rw [OrdMap.getD]
  cases h : t.get? n with
  | none =>
    refine iff_of_false ?_ (by simp)
    rintro ⟨u,hu,-⟩
    cases hu
  | some e => simp

theorem mem_serviceColumn {n m : Str} (hn : n ≠ any) : m ∈ serviceColumn a n ↔ ServiceMatch a n m := by
  rw [serviceColumn,if_neg hn,listServiceArray,
    mem_objects _ fun u => serviceMatches (u "proto") (u "dport") (u "sport") (u "etc"),mem_entry]
  rfl

theorem serviceColumn_any : serviceColumn a any = [] := if_pos rfl

/-- What a row configures is what the list of targets holds. -/
theorem mem_targets {type : Str} {r : NatRow} {τ : Str} :
    τ ∈ listService4natArray a.defservice4nat (trim r.fwdp) (forwardColumn a (trim r.fwd)) type ↔ NatTarget a type r τ := by
  have hf : ∀ f, f ∈ (forwardColumn a (trim r.fwd)).filter (· ≠ []) ↔ Forward a (trim r.fwd) f := by
    intro f
    rw [List.mem_filter,mem_forwardColumn,and_comm,decide_eq_true_eq]
    rfl
  rw [listService4natArray,NatTarget]
  by_cases hp : trim r.fwdp = any
  · rw [if_pos hp,List.mem_map]
    simp only [hf,if_pos hp]
    exact exists_congr fun f => and_congr_right fun _ => eq_comm
  · rw [if_neg hp]
    simp only [if_neg hp]
    refine ((mem_objects _ (fun u => ((forwardColumn a (trim r.fwd)).filter (· ≠ [])).map fun f =>
      jump type ++ f ++ ':'::u "dport") τ).trans (mem_entry _ _ _ _)).trans ?_
    constructor
    · rintro ⟨e,he,u,hu,hm⟩
      obtain ⟨f,hmf,rfl⟩ := List.mem_map.mp hm
      exact ⟨f,(hf f).mp hmf,_,⟨e,he,u,hu,rfl⟩,rfl⟩
    · rintro ⟨f,hm,_,⟨e,he,u,hu,rfl⟩,rfl⟩
      exact ⟨e,he,u,hu,List.mem_map.mpr ⟨f,(hf f).mpr hm,rfl⟩⟩

theorem jump_length (type : Str) : 4 ≤ (jump type).length := by
  rw [jump]
  split <;> decide

theorem NatTarget.length {type : Str} {r : NatRow} {τ : Str} (h : NatTarget a type r τ) : 4 ≤ τ.length := by
  have hj := jump_length type
  obtain ⟨f,-,h⟩ := h
  split at h
  · rw [h,List.length_append]
    omega
  · obtain ⟨p,-,rfl⟩ := h
    rw [List.length_append,List.length_append]
    omega

theorem addressMatch_ne {n m : Str} {o : Opt} (ho : o ≠ .fwd) (h : AddressMatch a o n m) : m ≠ [] := by
  obtain ⟨type,ip,-,h⟩ := h
  rintro rfl
  unfold addressMatches at h
  cases o with
  | fwd => exact ho rfl
  | _ => split_ifs at h <;> simp at h

theorem serviceMatch_ne {n m : Str} (h : ServiceMatch a n m) : m ≠ [] := by
  obtain ⟨e,-,u,-,h⟩ := h
  rintro rfl
  unfold serviceMatches at h
  dsimp only at h
  split_ifs at h <;> simp at h

def AllEmpty (l : List Str) : Prop := l ≠ [] ∧ ∀ x ∈ l, x = []

/-- The choices of a list: nothing, if it is empty, or one of its texts. -/
theorem mem_choices {l ms : List Str} : ms ∈ choices l ↔ (l = [] ∧ ms = []) ∨ ∃ x ∈ l, x ≠ [] ∧ ms = [x] := by
  unfold choices
  split
  · next h =>
    rw [h]
    simp
  · next h =>
    simp only [List.mem_map,List.mem_filter,decide_eq_true_eq,h,false_and,false_or]
    exact exists_congr fun x => ⟨fun ⟨hx,he⟩ => ⟨hx.1,hx.2,he.symm⟩,fun ⟨hx,hn,he⟩ => ⟨⟨hx,hn⟩,he.symm⟩⟩

theorem choices_eq_nil {l : List Str} : choices l = [] ↔ AllEmpty l := by
  rw [List.eq_nil_iff_forall_not_mem]
  simp only [mem_choices,AllEmpty]
  constructor
  · intro h
    refine ⟨fun hl => h [] (Or.inl ⟨hl,rfl⟩),fun x hx => ?_⟩
    by_contra hn
    exact h [x] (Or.inr ⟨x,hx,hn,rfl⟩)
  · rintro ⟨hne,hall⟩ ms (⟨hl,-⟩ | ⟨x,hx,hn,-⟩)
    · exact hne hl
    · exact hn (hall x hx)

/-- A list that goes with a name: empty for `any`, else the matches of the name. -/
structure Lists (M : Str → Str → Prop) (n : Str) (l : List Str) : Prop where
  empty : n = any → l = []
  mem : n ≠ any → ∀ m, m ∈ l ↔ M n m
  ne : ∀ m, M n m → m ≠ []

theorem lists_src (n : Str) : Lists (AddressMatch a .src) n (column a n .src []) :=
  ⟨fun h => h ▸ column_any .src,fun h _ => mem_column h,fun _ => addressMatch_ne (by decide)⟩

theorem lists_dst (n : Str) : Lists (AddressMatch a .dst) n (column a n .dst []) :=
  ⟨fun h => h ▸ column_any .dst,fun h _ => mem_column h,fun _ => addressMatch_ne (by decide)⟩

theorem lists_srv (n : Str) : Lists (ServiceMatch a) n (serviceColumn a n) :=
  ⟨fun h => h ▸ serviceColumn_any,fun h _ => mem_serviceColumn h,fun _ => serviceMatch_ne⟩

section Lists

variable {M : Str → Str → Prop} {n : Str} {l : List Str}

theorem Lists.choices (h : Lists M n l) (hk : Known M n) (ms : List Str) : ms ∈ choices l ↔ Part M n ms := by
  rw [PolicyTables.choices,Part]
  by_cases hn : n = any
  · rw [if_pos (h.empty hn),if_pos hn,List.mem_singleton]
  · obtain ⟨m,hm⟩ := hk.resolve_left hn
    rw [if_neg (List.ne_nil_of_mem ((h.mem hn m).mpr hm)),if_neg hn,List.mem_map]
    refine exists_congr fun x => ?_
    rw [List.mem_filter,h.mem hn,decide_eq_true_eq]
    exact and_congr (and_iff_left_of_imp (h.ne x)) eq_comm

theorem Lists.eq_nil_iff (h : Lists M n l) : l = [] ↔ n = any ∨ ¬Known M n := by
  constructor
  · intro hl
    by_contra hk
    obtain ⟨hn,hk⟩ := not_or.mp hk
    obtain ⟨m,hm⟩ := (not_not.mp hk).resolve_left hn
    have hmem := (h.mem hn m).mpr hm
    rw [hl] at hmem
    cases hmem
  · rintro (hn | hk)
    · exact h.empty hn
    · have hn : n ≠ any := fun hn => hk (Or.inl hn)
      exact List.eq_nil_iff_forall_not_mem.mpr fun m hm => hk (Or.inr ⟨m,(h.mem hn m).mp hm⟩)

theorem Part.known {ms : List Str} (h : Part M n ms) : Known M n := by
  rw [Part] at h
  split at h
  · rename_i hn
    exact Or.inl hn
  · obtain ⟨m,hm,-⟩ := h
    exact Or.inr ⟨m,hm⟩

theorem part_any (h : n = any) {ms : List Str} : Part M n ms ↔ ms = [] := by rw [Part,if_pos h]

theorem Known.part (h : Known M n) : ∃ ms, Part M n ms := by
  by_cases hn : n = any
  · exact ⟨[],(part_any hn).mpr rfl⟩
  · obtain ⟨m,hm⟩ := h.resolve_left hn
    refine ⟨[m],?_⟩
    rw [Part,if_neg hn]
    exact ⟨m,hm,rfl⟩

theorem exists_choice (l : List Str) (h : ∀ m ∈ l, m ≠ []) : ∃ ms, ms ∈ PolicyTables.choices l := by
  rw [PolicyTables.choices]
  split
  · exact ⟨[],List.mem_singleton_self _⟩
  · rename_i hl
    obtain ⟨m,hm⟩ := List.exists_mem_of_ne_nil l hl
    exact ⟨[m],List.mem_map.mpr ⟨m,List.mem_filter.mpr ⟨hm,decide_eq_true (h m hm)⟩,rfl⟩⟩

theorem Lists.exists_choice (h : Lists M n l) : ∃ ms, ms ∈ PolicyTables.choices l := by
  refine NatRows.exists_choice l fun m hm => ?_
  by_cases hn : n = any
  · rw [h.empty hn] at hm
    cases hm
  · exact h.ne m ((h.mem hn m).mp hm)

end Lists

section Nat

variable {type : Str} {r : NatRow}

theorem mem_natDrafts {d : Draft} : d ∈ natDrafts a type r ↔ (∃ τ, NatTarget a type r τ) ∧
    ∃ s ∈ choices (column a (trim r.src) .src []), ∃ e ∈ choices (column a (trim r.dst) .dst []),
      ∃ v ∈ choices (serviceColumn a (trim r.service)),
        (r.log = true ∧ d = draft (natj type) (v ++ s ++ e) (logText type r.id)) ∨
        ∃ τ, NatTarget a type r τ ∧ d = draft (natj type) (v ++ s ++ e)
          (if column a (trim r.src) .src [] = [] ∧ column a (trim r.dst) .dst [] = [] ∧
            serviceColumn a (trim r.service) = [] then "-j " else τ) := by
  rw [natDrafts]
  by_cases ht : ∃ τ, NatTarget a type r τ
  · obtain ⟨τ,hτ⟩ := id ht
    have hfwdp := List.ne_nil_of_mem (mem_targets.mpr hτ)
    obtain ⟨f,hf,-⟩ := hτ
    have hfwd := List.ne_nil_of_mem (mem_forwardColumn.mpr hf.2)
    rw [if_neg (not_or.mpr ⟨hfwd,hfwdp⟩),and_iff_right ht,crossed]
    simp only [List.mem_flatMap,List.mem_append,List.mem_map,List.mem_filter,mem_targets]
    refine exists_congr fun s => and_congr_right fun _ => exists_congr fun e => and_congr_right fun _ =>
      exists_congr fun v => and_congr_right fun _ => or_congr ?_ ?_
    · cases r.log <;> simp [natj,logText]
    · refine exists_congr fun τ => ?_
      rw [and_assoc]
      refine and_congr_right fun hτ => ?_
      rw [and_iff_right (decide_eq_true (List.ne_nil_of_length_pos (by have := hτ.length; omega)))]
      exact eq_comm
  · have hfwdp : listService4natArray a.defservice4nat (trim r.fwdp) (forwardColumn a (trim r.fwd)) type = [] :=
      List.eq_nil_iff_forall_not_mem.mpr fun τ hτ => ht ⟨τ,mem_targets.mp hτ⟩
    rw [if_pos (Or.inr hfwdp)]
    exact iff_of_false List.not_mem_nil fun h => ht h.1

theorem NatWanted.resolved {d : Draft} (h : NatWanted a type r d) : NatResolved a type r := by
  obtain ⟨s,e,v,τ,hs,he,hv,hτ,-⟩ := h
  exact ⟨hs.known,he.known,hv.known,τ,hτ⟩

theorem nat_mem_iff (hr : NatResolved a type r) (ha : ¬AllAny r) (d : Draft) :
    d ∈ natDrafts a type r ↔ NatWanted a type r d := by
  obtain ⟨hsrc,hdst,hsrv,ht⟩ := hr
  have hempty : ¬(column a (trim r.src) .src [] = [] ∧ column a (trim r.dst) .dst [] = [] ∧
      serviceColumn a (trim r.service) = []) := by
    rintro ⟨hs,he,hv⟩
    exact ha ⟨((lists_src _).eq_nil_iff.mp hs).resolve_right (not_not.mpr hsrc),
      ((lists_dst _).eq_nil_iff.mp he).resolve_right (not_not.mpr hdst),
      ((lists_srv _).eq_nil_iff.mp hv).resolve_right (not_not.mpr hsrv)⟩
  rw [mem_natDrafts,and_iff_right ht]
  simp only [if_neg hempty,(lists_src _).choices hsrc,(lists_dst _).choices hdst,(lists_srv _).choices hsrv]
  constructor
  · rintro ⟨s,hs,e,he,v,hv,⟨hl,rfl⟩ | ⟨τ,hτ,rfl⟩⟩
    · obtain ⟨τ,hτ⟩ := ht
      exact ⟨s,e,v,τ,hs,he,hv,hτ,Or.inr ⟨hl,rfl⟩⟩
    · exact ⟨s,e,v,τ,hs,he,hv,hτ,Or.inl rfl⟩
  · rintro ⟨s,e,v,τ,hs,he,hv,hτ,rfl | ⟨hl,rfl⟩⟩
    · exact ⟨s,hs,e,he,v,hv,Or.inr ⟨τ,hτ,rfl⟩⟩
    · exact ⟨s,hs,e,he,v,hv,Or.inl ⟨hl,rfl⟩⟩

theorem natDrafts_eq_nil_iff : natDrafts a type r = [] ↔ ¬∃ τ, NatTarget a type r τ := by
  constructor
  · rintro h ⟨τ,hτ⟩
    obtain ⟨s,hs⟩ := (lists_src (a:=a) (trim r.src)).exists_choice
    obtain ⟨e,he⟩ := (lists_dst (a:=a) (trim r.dst)).exists_choice
    obtain ⟨v,hv⟩ := (lists_srv (a:=a) (trim r.service)).exists_choice
    have hmem := mem_natDrafts.mpr ⟨⟨τ,hτ⟩,s,hs,e,he,v,hv,Or.inr ⟨τ,hτ,rfl⟩⟩
    rw [h] at hmem
    cases hmem
  · exact fun h => List.eq_nil_iff_forall_not_mem.mpr fun d hd => h (mem_natDrafts.mp hd).1

end Nat

/-- The rules with one time are those with another only if the times are the same. -/
theorem texts_iff {ds : List Draft} {W : Draft → Prop} (hd : ∀ d, d ∈ ds ↔ W d) (hne : ds ≠ []) {T T' : Str}
    (hT : T' = T ∨ T' = []) : (∀ s, s ∈ ds.map (Draft.text T') ↔ ∃ d, W d ∧ s = d.text T) ↔ T' = T := by
  constructor
  · intro h
    by_contra hne'
    have he := hT.resolve_left hne'
    have hpos : 0 < T.length := List.length_pos_iff.mpr fun h => hne' (he.trans h.symm)
    -- the longest rule does not get longer
    obtain ⟨d,hm,hmax⟩ := Finset.exists_max_image ds.toFinset (fun d => d.before.length + d.after.length)
      (List.toFinset_nonempty_iff ds |>.mpr hne)
    obtain ⟨d',hm',hd'⟩ := List.mem_map.mp ((h _).mpr ⟨d,(hd d).mp (List.mem_toFinset.mp hm),rfl⟩)
    have hle := hmax d' (List.mem_toFinset.mpr hm')
    have hl := congrArg List.length hd'
    simp only [Draft.text,List.length_append,he,List.length_nil] at hl
    omega
  · rintro rfl s
    rw [List.mem_map]
    exact exists_congr fun d => and_congr (hd d) eq_comm

theorem nothing_iff {l : List Str} {Q : Str → Prop} (h : ∀ s, ¬Q s) : (∀ s, s ∈ l ↔ Q s) ↔ l = [] := by
  rw [List.eq_nil_iff_forall_not_mem]
  exact forall_congr' fun s => iff_false_right (h s)

theorem draft_length (chain after : Str) (ws : List Str) : (draft chain ws after).after.length = after.length + 1 := rfl

theorem nat_right_iff {type : Str} {r : NatRow} {T T' : Str} (hT : T' = T ∨ T' = []) :
    (∀ s, s ∈ (natDrafts a type r).map (Draft.text T') ↔ ∃ d, NatWanted a type r d ∧ s = d.text T) ↔
      NatFine a type r (T' = T) := by
  by_cases hr : NatResolved a type r
  · by_cases ha : AllAny r
    · refine iff_of_false (fun h => ?_) fun h => (h.1 hr).1 ha
      obtain ⟨hsrc,hdst,hsrv⟩ := ha
      obtain ⟨τ,hτ⟩ := hr.2.2.2
      -- the rule without a target is too short
      have hmem : draft (natj type) [] "-j " ∈ natDrafts a type r := by
        refine mem_natDrafts.mpr ⟨⟨τ,hτ⟩,[],?_,[],?_,[],?_,Or.inr ⟨τ,hτ,?_⟩⟩
        · exact ((lists_src _).choices hr.1 _).mpr ((part_any hsrc).mpr rfl)
        · exact ((lists_dst _).choices hr.2.1 _).mpr ((part_any hdst).mpr rfl)
        · exact ((lists_srv _).choices hr.2.2.1 _).mpr ((part_any hsrv).mpr rfl)
        · rw [if_pos ⟨(lists_src _).empty hsrc,(lists_dst _).empty hdst,(lists_srv _).empty hsrv⟩]
          rfl
      obtain ⟨d,⟨s,e,v,τ',hs,he,hv,hτ',hd⟩,heq⟩ := (h _).mp (List.mem_map_of_mem hmem)
      obtain rfl := (part_any hsrc).mp hs
      obtain rfl := (part_any hdst).mp he
      obtain rfl := (part_any hsrv).mp hv
      have hlong : ∃ after : Str, d = draft (natj type) [] after ∧ 4 ≤ after.length := by
        rcases hd with rfl | ⟨-,rfl⟩
        · exact ⟨τ',rfl,hτ'.length⟩
        · refine ⟨logText type r.id,rfl,?_⟩
          rw [logText]
          simp only [List.length_append]
          have : 4 ≤ cmdlog.length := by decide
          omega
      obtain ⟨after,rfl,hafter⟩ := hlong
      have hl := congrArg List.length heq
      have hTl : T'.length ≤ T.length := by
        rcases hT with rfl | rfl
        · exact le_rfl
        · exact Nat.zero_le _
      have h3 : (Str.of "-j ").length = 3 := rfl
      simp only [Draft.text,List.length_append,draft_length,h3] at hl
      have hb : (draft (natj type) [] "-j ").before = (draft (natj type) [] after).before := rfl
      rw [hb] at hl
      omega
    · have hne : natDrafts a type r ≠ [] := fun h => natDrafts_eq_nil_iff.mp h hr.2.2.2
      rw [texts_iff (nat_mem_iff hr ha) hne hT]
      exact ⟨fun h => ⟨fun _ => ⟨ha,h⟩,fun hn => absurd hr hn⟩,fun h => (h.1 hr).2⟩
  · have hw : ∀ s, ¬∃ d, NatWanted a type r d ∧ s = d.text T := fun s ⟨d,hd,_⟩ => hr hd.resolved
    rw [nothing_iff hw,List.map_eq_nil_iff,natDrafts_eq_nil_iff,NatFine,and_iff_right fun h => absurd h hr,imp_iff_right hr]

section Map

variable {r : MapRow}

theorem mem_netmapDrafts {d : Draft} : d ∈ netmapDrafts a r ↔ column a (trim r.dst) .dst [] ≠ [] ∧
    ∃ s ∈ choices (column a (trim r.src) .src []), ∃ e ∈ choices (column a (trim r.dst) .dst []),
      ∃ f, Forward a (trim r.fwd) f ∧ d = draft (mapChain r) (s ++ e) ("-j NETMAP --to ".toList ++ f) := by
  rw [netmapDrafts]
  by_cases hd : column a (trim r.dst) .dst [] = []
  · rw [if_pos hd]
    exact iff_of_false List.not_mem_nil fun h => h.1 hd
  · rw [if_neg hd,and_iff_right hd,crossed]
    simp only [List.mem_flatMap,List.mem_map,List.mem_filter,mem_forwardColumn]
    refine exists_congr fun s => and_congr_right fun _ => exists_congr fun e => and_congr_right fun _ => ?_
    constructor
    · rintro ⟨v,hv,f,⟨hf,hne⟩,rfl⟩
      obtain rfl := List.mem_singleton.mp hv
      exact ⟨f,⟨of_decide_eq_true hne,hf⟩,rfl⟩
    · rintro ⟨f,⟨hne,hf⟩,rfl⟩
      exact ⟨[],List.mem_singleton_self _,f,⟨hf,decide_eq_true hne⟩,rfl⟩

theorem MapWanted.resolved {d : Draft} (h : MapWanted a r d) : MapResolved a r := by
  obtain ⟨s,e,f,hs,he,hf,-⟩ := h
  exact ⟨hs.known,he.known,f,hf⟩

theorem map_mem_iff (hr : MapResolved a r) (hd : trim r.dst ≠ any) (d : Draft) :
    d ∈ netmapDrafts a r ↔ MapWanted a r d := by
  obtain ⟨hsrc,hdst,-⟩ := hr
  have hne : column a (trim r.dst) .dst [] ≠ [] := fun h =>
    ((lists_dst _).eq_nil_iff.mp h).elim hd fun hn => hn hdst
  rw [mem_netmapDrafts,and_iff_right hne]
  simp only [(lists_src _).choices hsrc,(lists_dst _).choices hdst]
  constructor
  · rintro ⟨s,hs,e,he,f,hf,rfl⟩
    exact ⟨s,e,f,hs,he,hf,rfl⟩
  · rintro ⟨s,e,f,hs,he,hf,rfl⟩
    exact ⟨s,hs,e,he,f,hf,rfl⟩

theorem netmapDrafts_eq_nil_iff : netmapDrafts a r = [] ↔
    (¬∃ f, Forward a (trim r.fwd) f) ∨ trim r.dst = any ∨ ¬Known (AddressMatch a .dst) (trim r.dst) := by
  rw [← (lists_dst (a:=a) (trim r.dst)).eq_nil_iff]
  constructor
  · intro h
    by_contra hn
    obtain ⟨hf,hd⟩ := not_or.mp hn
    obtain ⟨f,hf⟩ := not_not.mp hf
    obtain ⟨s,hs⟩ := (lists_src (a:=a) (trim r.src)).exists_choice
    obtain ⟨e,he⟩ := (lists_dst (a:=a) (trim r.dst)).exists_choice
    have hmem := mem_netmapDrafts.mpr ⟨hd,s,hs,e,he,f,hf,rfl⟩
    rw [h] at hmem
    cases hmem
  · intro h
    refine List.eq_nil_iff_forall_not_mem.mpr fun d hd => ?_
    obtain ⟨hne,_,_,_,_,f,hf,-⟩ := mem_netmapDrafts.mp hd
    exact h.elim (fun hn => hn ⟨f,hf⟩) hne

theorem returns_iff : (policy a .map).returns r = true ↔ Returns a r := by
  refine decide_eq_true_iff.trans ?_
  rw [List.eq_nil_iff_forall_not_mem,Returns,not_exists]
  exact forall_congr' fun f => not_congr mem_forwardColumn

end Map

theorem map_right_iff {before : List MapRow} {r : MapRow} {T T' : Str} (hT : T' = T ∨ T' = []) :
    (∀ s, s ∈ (if ∀ q ∈ before, (policy a .map).returns q = false then (netmapDrafts a r).map (Draft.text T') else []) ↔
      ∃ d, MapWanted a r d ∧ s = d.text T) ↔ MapFine a before r (T' = T) := by
  have hret : (∀ q ∈ before, (policy a .map).returns q = false) ↔ ∀ q ∈ before, ¬Returns a q :=
    forall₂_congr fun q _ => by rw [← returns_iff,Bool.not_eq_true]
  by_cases hr : MapResolved a r
  · obtain ⟨d,hd⟩ : ∃ d, MapWanted a r d := by
      obtain ⟨s,hs⟩ := hr.1.part
      obtain ⟨e,he⟩ := hr.2.1.part
      obtain ⟨f,hf⟩ := hr.2.2
      exact ⟨_,s,e,f,hs,he,hf,rfl⟩
    by_cases hb : ∀ q ∈ before, ¬Returns a q
    · rw [if_pos (hret.mpr hb)]
      by_cases ha : trim r.dst = any
      · refine iff_of_false (fun h => ?_) fun h => (h.1 hr).1 ha
        have hmem := (h _).mpr ⟨d,hd,rfl⟩
        rw [netmapDrafts_eq_nil_iff.mpr (Or.inr (Or.inl ha))] at hmem
        cases hmem
      · have hne : netmapDrafts a r ≠ [] := List.ne_nil_of_mem ((map_mem_iff hr ha d).mpr hd)
        rw [texts_iff (map_mem_iff hr ha) hne hT]
        exact ⟨fun h => ⟨fun _ => ⟨ha,hb,h⟩,fun hn => absurd hr hn⟩,fun h => (h.1 hr).2.2⟩
    · rw [if_neg (mt hret.mp hb)]
      refine iff_of_false (fun h => ?_) fun h => hb (h.1 hr).2.1
      cases (h _).mpr ⟨d,hd,rfl⟩
  · have hw : ∀ s, ¬∃ d, MapWanted a r d ∧ s = d.text T := fun s ⟨d,hd,_⟩ => hr hd.resolved
    rw [nothing_iff hw,MapFine,and_iff_right fun h => absurd h hr,imp_iff_right hr]
    by_cases hb : ∀ q ∈ before, ¬Returns a q
    · have hno : ¬∃ q ∈ before, Returns a q := fun ⟨q,hq,h⟩ => hb q hq h
      rw [if_pos (hret.mpr hb),List.map_eq_nil_iff,netmapDrafts_eq_nil_iff]
      simp only [hno,or_false]
    · rw [if_neg (mt hret.mp hb)]
      refine iff_of_true rfl (Or.inr (Or.inr (Or.inr ?_)))
      push Not at hb
      exact hb

/-- The time a row is written with is its own as long as its event is known. -/
theorem time_eq_iff {k : Kind} {before : List k.table.Row} {r : k.table.Row} :
    (if ∀ q ∈ before, (policy a k.table).event q = [] then (policy a k.table).timeMatch a.deftime r else []) =
      (policy a k.table).timeMatch a.deftime r ↔ TimeKept a k before r := by
  rw [TimeKept]
  split
  · rename_i he
    exact iff_of_true rfl (Or.inr he)
  · rename_i he
    exact eq_comm.trans (or_iff_left he).symm

/-- The rows of a table are independent and complete just as long as each is fine where it stands. -/
theorem rows_right_iff (a : Arrays) (k : Kind) (rows : List k.table.Row) :
    RowsRight a k rows ↔ ∀ before r after, rows = before ++ r::after → RowFine a k before r := by
  refine forall_congr' fun before => forall_congr' fun r => forall_congr' fun after => forall_congr' fun he => ?_
  have htime := propext (@time_eq_iff a k before r)
  have hT := ite_eq_or_eq (∀ q ∈ before, (policy a k.table).event q = []) ((policy a k.table).timeMatch a.deftime r) []
  rw [he,emitted_at]
  simp only [Option.some.injEq,exists_eq_left']
  cases k with
  | dnat =>
    have hret : ∀ q ∈ before, (policy a Kind.dnat.table).returns q = false := fun _ _ => rfl
    rw [if_pos hret]
    refine (nat_right_iff hT).trans ?_
    rw [htime]
    rfl
  | snat =>
    have hret : ∀ q ∈ before, (policy a Kind.snat.table).returns q = false := fun _ _ => rfl
    rw [if_pos hret]
    refine (nat_right_iff hT).trans ?_
    rw [htime]
    rfl
  | map =>
    refine (map_right_iff hT).trans ?_
    rw [htime]
    rfl

def oneHost : Arrays where
  deftime := deftimesArray []
  defnet := defnetworkArray [⟨"Web","2","10.0.0.5"⟩] []
  defservice := defservicesArray [] []
  defservice4nat := defservices4natArray [] []
  namedev := name2devArray []

def toWeb : NatRow := ⟨"1","any","any","any","Web","any",[],false⟩

theorem target_missing : ¬RowsRight oneHost .dnat [toWeb] := by
  intro h
  obtain ⟨l,hl,hs⟩ := h [] toWeb [] rfl
  have hw : Wanted oneHost .dnat toWeb (draft "ACL1006-02" [] "-j DNAT --to-destination 10.0.0.5") := by
    refine ⟨[],[],[],_,rfl,rfl,rfl,⟨"10.0.0.5",?_,rfl⟩,Or.inl rfl⟩
    exact ⟨by decide,mem_forwardColumn.mp (by decide +kernel)⟩
  have he : (emitted oneHost .dnat [toWeb])[0]? = some [("-A ACL1006-02  -j " : Str)] := by decide +kernel
  have hm := (hs _).mpr ⟨_,hw,rfl⟩
  rw [Option.some.inj (hl.symm.trans he)] at hm
  exact absurd (List.mem_singleton.mp hm) (by decide)

end NatRows
end Mybox
