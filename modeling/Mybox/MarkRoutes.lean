import Mybox.NatRows

/-! Version 3.0: policy routes. Every row of the table gets a mark of its own, rules that mark its packets, and a routing
table with the number of the mark; what is added is written down for its removal. -/
namespace Mybox
namespace MarkRoutes
open Php PolicyTables NatRows

structure PolicyRoute where
  type : Str
  fwd : Str
  src : Str
  dst : Str
  service : Str
  dev : Str

/-- A rule that marks packets; a part that it lacks is an empty list. -/
structure MarkRule where
  service : List Str
  src : List Str
  dst : List Str
  intf : Str
  mark : ℕ
  deriving DecidableEq

/-- What is added: a rule, or a route in a table of its own. -/
inductive Added
  | rule (mark : ℕ)
  | dev (gw : Str) (mark : ℕ)
  | via (gw : Str) (mark : ℕ)

def MarkRule.text (x : MarkRule) : Str :=
  [' '].intercalate (x.service ++ x.src.map ("-s ".toList ++ ·) ++ x.dst.map ("-d ".toList ++ ·)) ++ ' '::x.intf ++
    " -m mark --mark 0x0 -j MARK --set-mark ".toList ++ decimal x.mark

/-- The arguments of `ip`. -/
def Added.text : Added → Str
  | rule m => "rule add prio ".toList ++ decimal m ++ " fwmark ".toList ++ decimal m ++ " table ".toList ++ decimal m
  | dev gw m => "route add dev ".toList ++ gw ++ " table ".toList ++ decimal m
  | via gw m => "route add default via ".toList ++ gw ++ " table ".toList ++ decimal m

/-- The arguments of `ip` that take it back. -/
def Added.delete : Added → Str
  | rule m => "rule del prio ".toList ++ decimal m ++ " fwmark ".toList ++ decimal m ++ " table ".toList ++ decimal m
  | dev gw m => "route del dev ".toList ++ gw ++ " table ".toList ++ decimal m
  | via gw m => "route del default via ".toList ++ gw ++ " table ".toList ++ decimal m

def kept (type ip : Str) : List Str := if toNumber type = 1 ∨ toNumber type = 2 then [ip] else []

def listIpArray (t : Table) (name : Str) : List Str :=
  let e := t.getD name ∅
  if given e "name" then kept (field e "type") (field e "ip")
  else if given e "group" then (members e).flatMap fun b => kept (b.getD "type" []) (b.getD "ip" [])
  else []

def defArray (a : Arrays) (name : Str) : List Str := if a.defnet.get? name = none then [] else listIpArray a.defnet name

def srcArray (a : Arrays) (src : Str) : List Str :=
  if src = any then []
  else if a.namedev.getD src [] ≠ [] then [a.namedev.getD src []] else defArray a src

/-- The name that is looked for first is that of the source. -/
def dstArray (a : Arrays) (src dst : Str) : List Str :=
  if dst = any then []
  else if (a.namedev.get? src).isSome = true ∧ a.namedev.getD dst [] ≠ [] then [a.namedev.getD dst []] else defArray a dst

section Rows

-- `g` is `$_DEV_ROUTE`.
variable (a : Arrays) (g : OrdMap Str Str)

def intf (r : PolicyRoute) : Str := if trim r.dev = any then [] else "-i ".toList ++ g.getD (trim r.dev) []

def gateway (r : PolicyRoute) : Str :=
  if toNumber (trim r.type) = 1 then g.getD (trim r.fwd) [] else field (a.defnet.getD (trim r.fwd) ∅) "ip"

def markRules (m : ℕ) (r : PolicyRoute) : List MarkRule :=
  (choices (srcArray a (trim r.src))).flatMap fun s =>
    (choices (dstArray a (trim r.src) (trim r.dst))).flatMap fun d =>
      (choices (serviceColumn a (trim r.service))).map fun v => ⟨v,s,d,intf g r,m⟩

def route (m : ℕ) (r : PolicyRoute) : Added :=
  if toNumber (trim r.type) = 1 then .dev (gateway a g r) m else .via (gateway a g r) m

def unreserved (m : ℕ) : ℕ :=
  let m := if m = 253 then m + 1 else m
  let m := if m = 254 then m + 1 else m
  if m = 255 then m + 1 else m

def marked : ℕ → List PolicyRoute → List (ℕ × PolicyRoute)
  | _, [] => []
  | m, r::rs => (unreserved m,r)::marked (unreserved m + 1) rs

/-- What is run, and what the two files hold if they are written. -/
structure Output where
  run : List Added
  pol : Option (List MarkRule)
  del : Option (List Added)

def policyRoutes (rows : List PolicyRoute) : Output :=
  let ds := marked 1 rows
  let iptab := ds.flatMap fun d => markRules a g d.1 d.2
  let rdel := ds.flatMap fun d => if gateway a g d.2 = [] then [] else [route a g d.1 d.2,.rule d.1]
  ⟨ds.flatMap fun d => if gateway a g d.2 = [] then [] else [.rule d.1,route a g d.1 d.2],
    if rdel ≠ [] ∧ iptab ≠ [] then some iptab else none,if rdel ≠ [] then some rdel else none⟩

/-- `route_policy_pol`: the same rules in two chains. -/
def polText (rules : List MarkRule) : Str :=
  (["ACL1004-02".toList,"ACL1004-01".toList]).flatMap fun c =>
    "-A ".toList ++ c ++ " -m mark ! --mark 0x0 -j ACCEPT\n".toList ++
      rules.flatMap fun x => "-A ".toList ++ c ++ ' '::x.text ++ ['\n']

/-- `route_policy_del` -/
def delText (rdel : List Added) : Str := rdel.flatMap fun x => x.delete ++ ['\n']

def Output.texts (o : Output) : List Str × Option Str × Option Str := (o.run.map Added.text,o.pol.map polText,o.del.map delText)

end Rows

section Spec

variable (a : Arrays) (g : OrdMap Str Str)

/-- An address of a definition, or of a member of a group. -/
def DefAddress (n ip : Str) : Prop := ip ≠ [] ∧ ∃ e, a.defnet.get? n = some e ∧ ∃ u ∈ objects e, ip ∈ kept (u "type") (u "ip")

def Address (n ip : Str) : Prop :=
  if a.namedev.getD n [] ≠ [] then ip = a.namedev.getD n [] else DefAddress a n ip

def Resolved (r : PolicyRoute) : Prop := gateway a g r ≠ [] ∧ Known (Address a) (trim r.src) ∧
  Known (Address a) (trim r.dst) ∧ Known (ServiceMatch a) (trim r.service)

def Wanted (m : ℕ) (r : PolicyRoute) (x : MarkRule) : Prop :=
  gateway a g r ≠ [] ∧ Part (Address a) (trim r.src) x.src ∧ Part (Address a) (trim r.dst) x.dst ∧
    Part (ServiceMatch a) (trim r.service) x.service ∧ x.intf = intf g r ∧ x.mark = m

/-- The marks are different and none is reserved, the rules with the mark of a row are those it asks for, and what is
added is what the file deletes. -/
structure Exact (rows : List PolicyRoute) : Prop where
  apart : ((marked 1 rows).map Prod.fst).Nodup
  free : ∀ d ∈ marked 1 rows, d.1 ≠ 253 ∧ d.1 ≠ 254 ∧ d.1 ≠ 255
  rules : ∀ d ∈ marked 1 rows, ∀ x,
    x ∈ (policyRoutes a g rows).pol.getD [] ∧ x.mark = d.1 ↔ Wanted a g d.1 d.2 x
  deletes : ((policyRoutes a g rows).del.getD []).Perm (policyRoutes a g rows).run

/-- All names resolve, and a destination that is the name of an interface comes with a source that is one, or with a
definition of the same address; or one of the names stands for empty addresses only. -/
def RowFine (r : PolicyRoute) : Prop :=
  (Resolved a g r ∧ (trim r.dst = any ∨ a.namedev.getD (trim r.dst) [] = [] ∨ (a.namedev.get? (trim r.src)).isSome = true ∨
      ∀ ip, DefAddress a (trim r.dst) ip ↔ ip = a.namedev.getD (trim r.dst) [])) ∨
    (¬Resolved a g r ∧ (AllEmpty (srcArray a (trim r.src)) ∨ AllEmpty (dstArray a (trim r.src) (trim r.dst))))

end Spec

theorem unreserved_spec (m : ℕ) : m ≤ unreserved m ∧ unreserved m ≠ 253 ∧ unreserved m ≠ 254 ∧ unreserved m ≠ 255 := by
  unfold unreserved
  dsimp only
  split_ifs <;> omega

theorem le_marked {m : ℕ} {rows : List PolicyRoute} : ∀ d ∈ marked m rows, m ≤ d.1 ∧ d.1 ≠ 253 ∧ d.1 ≠ 254 ∧ d.1 ≠ 255 := by
  induction rows generalizing m with
  | nil => exact fun _ h => (List.not_mem_nil h).elim
  | cons r rows ih =>
    have hu := unreserved_spec m
    rw [marked,List.forall_mem_cons]
    refine ⟨hu,fun d hd => ?_⟩
    have hd := ih d hd
    exact ⟨by omega,hd.2⟩

theorem marked_pairwise (m : ℕ) (rows : List PolicyRoute) : ((marked m rows).map Prod.fst).Pairwise (· < ·) := by
  induction rows generalizing m with
  | nil => exact List.Pairwise.nil
  | cons r rows ih =>
    rw [marked,List.map_cons,List.pairwise_cons]
    refine ⟨fun n hn => ?_,ih _⟩
    obtain ⟨d,hd,rfl⟩ := List.mem_map.mp hn
    have hle := (le_marked d hd).1
    omega

theorem marked_nodup (m : ℕ) (rows : List PolicyRoute) : ((marked m rows).map Prod.fst).Nodup :=
  (marked_pairwise m rows).imp fun h => h.ne

theorem marked_rows (m : ℕ) (rows : List PolicyRoute) : (marked m rows).map Prod.snd = rows := by
  induction rows generalizing m with
  | nil => rfl
  | cons r rows ih => rw [marked,List.map_cons,ih]

theorem forall_marked {m : ℕ} {rows : List PolicyRoute} {P : PolicyRoute → Prop} :
    (∀ d ∈ marked m rows, P d.2) ↔ ∀ r ∈ rows, P r := by
  conv_rhs => rw [← marked_rows m rows]
  rw [List.forall_mem_map]

section Lists

variable {a : Arrays} {g : OrdMap Str Str}

theorem mem_defArray {n ip : Str} (h : ip ≠ []) : ip ∈ defArray a n ↔ DefAddress a n ip := by
  unfold defArray DefAddress
  rw [and_iff_right h,← mem_entry]
  cases he : a.defnet.get? n with
  | none =>
    rw [if_pos rfl,OrdMap.getD,he]
    refine iff_of_false List.not_mem_nil ?_
    rintro ⟨u,hu,-⟩
    cases hu
  | some e =>
    rw [if_neg (by simp),listIpArray]
    exact mem_objects _ (fun u => kept (u "type") (u "ip")) ip

theorem mem_srcArray {n ip : Str} (hn : n ≠ any) (h : ip ≠ []) : ip ∈ srcArray a n ↔ Address a n ip := by
  unfold srcArray Address
  rw [if_neg hn]
  split
  · exact List.mem_singleton
  · exact mem_defArray h

theorem address_ne {n ip : Str} (h : Address a n ip) : ip ≠ [] := by
  unfold Address at h
  split at h
  · next hd => rwa [h]
  · exact h.1

theorem src_choices {n : Str} (hk : Known (Address a) n) (ms : List Str) : ms ∈ choices (srcArray a n) ↔ Part (Address a) n ms := by
  rw [mem_choices,NatRows.Part]
  by_cases hn : n = any
  · rw [if_pos hn,srcArray,if_pos hn]
    simp
  · obtain ⟨ip,hip⟩ := hk.resolve_left hn
    have hne : srcArray a n ≠ [] := List.ne_nil_of_mem ((mem_srcArray hn (address_ne hip)).mpr hip)
    rw [if_neg hn,or_iff_right fun h => hne h.1]
    refine exists_congr fun x => ?_
    rw [← and_assoc]
    refine and_congr_left fun _ => ⟨fun h => (mem_srcArray hn h.2).mp h.1,fun h => ?_⟩
    exact ⟨(mem_srcArray hn (address_ne h)).mpr h,address_ne h⟩

/-- The destination is written as it should be, unless it is the name of an interface and the source is not. -/
theorem dst_choices {src n : Str} (hk : Known (Address a) n) : (∀ ms, ms ∈ choices (dstArray a src n) ↔ Part (Address a) n ms) ↔
    (n = any ∨ a.namedev.getD n [] = [] ∨ (a.namedev.get? src).isSome = true ∨
      ∀ ip, DefAddress a n ip ↔ ip = a.namedev.getD n []) := by
  have hsrc := src_choices hk
  by_cases hn : n = any
  · refine iff_of_true (fun ms => ?_) (Or.inl hn)
    rw [← hsrc ms,dstArray,srcArray,if_pos hn,if_pos hn]
  rw [or_iff_right hn]
  by_cases hd : a.namedev.getD n [] = []
  · refine iff_of_true (fun ms => ?_) (Or.inl hd)
    rw [← hsrc ms,dstArray,srcArray,if_neg hn,if_neg hn,if_neg fun h => h.2 hd,if_neg (not_not.mpr hd)]
  rw [or_iff_right hd]
  by_cases hs : (a.namedev.get? src).isSome = true
  · refine iff_of_true (fun ms => ?_) (Or.inl hs)
    rw [← hsrc ms,dstArray,srcArray,if_neg hn,if_neg hn,if_pos ⟨hs,hd⟩,if_pos hd]
  rw [or_iff_right hs,dstArray,if_neg hn,if_neg fun h => hs h.1]
  have hpart : ∀ ms, Part (Address a) n ms ↔ ms = [a.namedev.getD n []] := by
    intro ms
    rw [NatRows.Part,if_neg hn]
    simp only [Address,if_pos hd,exists_eq_left]
  constructor
  · intro h ip
    constructor
    · intro hip
      have hm := (h [ip]).mp (mem_choices.mpr (Or.inr ⟨ip,(mem_defArray hip.1).mpr hip,hip.1,rfl⟩))
      exact (List.cons.inj ((hpart _).mp hm)).1
    · rintro rfl
      rcases mem_choices.mp ((h _).mpr ((hpart _).mpr rfl)) with ⟨-,he⟩ | ⟨x,hx,hne,he⟩
      · cases he
      · obtain rfl := (List.cons.inj he).1
        exact (mem_defArray hne).mp hx
  · intro h ms
    have hne : defArray a n ≠ [] := List.ne_nil_of_mem ((mem_defArray hd).mpr ((h _).mpr rfl))
    rw [hpart,mem_choices,or_iff_right fun he => hne he.1]
    constructor
    · rintro ⟨x,hx,hxn,rfl⟩
      rw [(h x).mp ((mem_defArray hxn).mp hx)]
    · rintro rfl
      exact ⟨_,(mem_defArray hd).mpr ((h _).mpr rfl),hd,rfl⟩

theorem mem_markRules {m : ℕ} {r : PolicyRoute} {x : MarkRule} : x ∈ markRules a g m r ↔
    x.src ∈ choices (srcArray a (trim r.src)) ∧ x.dst ∈ choices (dstArray a (trim r.src) (trim r.dst)) ∧
      x.service ∈ choices (serviceColumn a (trim r.service)) ∧ x.intf = intf g r ∧ x.mark = m := by
  unfold markRules
  simp only [List.mem_flatMap,List.mem_map]
  constructor
  · rintro ⟨s,hs,d,hd,v,hv,rfl⟩
    exact ⟨hs,hd,hv,rfl,rfl⟩
  · rintro ⟨hs,hd,hv,hi,hm⟩
    exact ⟨_,hs,_,hd,_,hv,by rw [← hi,← hm]⟩

theorem markRules_eq_nil {m : ℕ} {r : PolicyRoute} : markRules a g m r = [] ↔
    AllEmpty (srcArray a (trim r.src)) ∨ AllEmpty (dstArray a (trim r.src) (trim r.dst)) := by
  rw [← choices_eq_nil,← choices_eq_nil]
  constructor
  · intro h
    by_contra hn
    obtain ⟨hs,hd⟩ := not_or.mp hn
    obtain ⟨s,hs⟩ := List.exists_mem_of_ne_nil _ hs
    obtain ⟨d,hd⟩ := List.exists_mem_of_ne_nil _ hd
    obtain ⟨v,hv⟩ := (lists_srv (a:=a) (trim r.service)).exists_choice
    have hm : (⟨v,s,d,intf g r,m⟩ : MarkRule) ∈ markRules a g m r := mem_markRules.mpr ⟨hs,hd,hv,rfl,rfl⟩
    rw [h] at hm
    exact List.not_mem_nil hm
  · intro h
    refine List.eq_nil_iff_forall_not_mem.mpr fun x hx => ?_
    obtain ⟨hs,hd,-⟩ := mem_markRules.mp hx
    rcases h with h | h
    · rw [h] at hs
      exact List.not_mem_nil hs
    · rw [h] at hd
      exact List.not_mem_nil hd

theorem Wanted.resolved {m : ℕ} {r : PolicyRoute} {x : MarkRule} (h : Wanted a g m r x) : Resolved a g r :=
  ⟨h.1,h.2.1.known,h.2.2.1.known,h.2.2.2.1.known⟩

/-- The rules of a row are those it asks for exactly when the row is fine. -/
theorem row_iff (m : ℕ) (r : PolicyRoute) : (∀ x, x ∈ markRules a g m r ↔ Wanted a g m r x) ↔ RowFine a g r := by
  unfold RowFine
  by_cases hr : Resolved a g r
  · obtain ⟨hg,hs,hd,hv⟩ := hr
    have hsrc := src_choices hs
    have hsrv := (lists_srv (a:=a) (trim r.service)).choices hv
    rw [or_iff_left fun h => h.1 ⟨hg,hs,hd,hv⟩,and_iff_right ⟨hg,hs,hd,hv⟩,← dst_choices hd]
    constructor
    · intro h ms
      obtain ⟨s,hps⟩ := hs.part
      obtain ⟨v,hpv⟩ := hv.part
      have hx := h ⟨v,s,ms,intf g r,m⟩
      rw [mem_markRules] at hx
      constructor
      · exact fun hm => (hx.mp ⟨(hsrc s).mpr hps,hm,(hsrv v).mpr hpv,rfl,rfl⟩).2.2.1
      · exact fun hm => (hx.mpr ⟨hg,hps,hm,hpv,rfl,rfl⟩).2.1
    · intro h x
      rw [mem_markRules,hsrc,h,hsrv]
      exact (and_iff_right hg).symm
  · rw [or_iff_right fun h => hr h.1,and_iff_right hr,← markRules_eq_nil (g:=g) (m:=m),List.eq_nil_iff_forall_not_mem]
    exact forall_congr' fun x => ⟨fun h hx => hr (h.mp hx).resolved,fun h => iff_of_false h fun hw => hr hw.resolved⟩

end Lists

section Table

variable {a : Arrays} {g : OrdMap Str Str} {rows : List PolicyRoute}

theorem mem_row {d : ℕ × PolicyRoute} (hd : d ∈ marked 1 rows) (x : MarkRule) :
    x ∈ ((marked 1 rows).flatMap fun d => markRules a g d.1 d.2) ∧ x.mark = d.1 ↔ x ∈ markRules a g d.1 d.2 := by
  rw [List.mem_flatMap]
  constructor
  · rintro ⟨⟨d',hd',hx⟩,hm⟩
    have he : d'.1 = d.1 := (mem_markRules.mp hx).2.2.2.2.symm.trans hm
    rwa [List.inj_on_of_nodup_map (marked_nodup 1 rows) hd' hd he] at hx
  · exact fun hx => ⟨⟨d,hd,hx⟩,(mem_markRules.mp hx).2.2.2.2⟩

theorem rdel_eq_nil : ((marked 1 rows).flatMap fun d => if gateway a g d.2 = [] then [] else [route a g d.1 d.2,.rule d.1]) = [] ↔
    ¬∃ r ∈ rows, gateway a g r ≠ [] := by
  rw [List.flatMap_eq_nil_iff]
  have hd : ∀ d : ℕ × PolicyRoute, (if gateway a g d.2 = [] then [] else [route a g d.1 d.2,Added.rule d.1]) = [] ↔
      gateway a g d.2 = [] := by
    intro d
    split
    · next h => exact iff_of_true rfl h
    · next h => exact iff_of_false (List.cons_ne_nil _ _) h
  simp only [hd]
  rw [forall_marked (P:=fun r => gateway a g r = [])]
  simp

/-- The rules that are saved: all of them if some row has a gateway, and none otherwise. -/
theorem pol_eq (a : Arrays) (g : OrdMap Str Str) (rows : List PolicyRoute) : (policyRoutes a g rows).pol.getD [] =
    open Classical in if ∃ r ∈ rows, gateway a g r ≠ [] then (marked 1 rows).flatMap fun d => markRules a g d.1 d.2 else [] := by
  have hr := @rdel_eq_nil a g rows
  unfold policyRoutes
  dsimp only
  by_cases h : ∃ r ∈ rows, gateway a g r ≠ []
  · have hne := fun he => hr.mp he h
    rw [if_pos h]
    by_cases hi : ((marked 1 rows).flatMap fun d => markRules a g d.1 d.2) = []
    · rw [if_neg fun hc => hc.2 hi,hi]
      rfl
    · rw [if_pos ⟨hne,hi⟩]
      rfl
  · rw [if_neg h,if_neg fun hc => hc.1 (hr.mpr h)]
    rfl

theorem deletes_perm (a : Arrays) (g : OrdMap Str Str) (rows : List PolicyRoute) :
    ((policyRoutes a g rows).del.getD []).Perm (policyRoutes a g rows).run := by
  have hdel : (policyRoutes a g rows).del.getD [] =
      (marked 1 rows).flatMap fun d => if gateway a g d.2 = [] then [] else [route a g d.1 d.2,.rule d.1] := by
    unfold policyRoutes
    dsimp only
    split
    · rfl
    · next h => exact (not_not.mp h).symm
  rw [hdel]
  refine List.Perm.flatMap_left _ fun d _ => ?_
  split
  · exact List.Perm.nil
  · exact List.Perm.swap _ _ _

/-- Policy routes are exact if, once a row has a gateway, every row is fine. -/
theorem routes_exact_iff (a : Arrays) (g : OrdMap Str Str) (rows : List PolicyRoute) :
    Exact a g rows ↔ ((∃ r ∈ rows, gateway a g r ≠ []) → ∀ r ∈ rows, RowFine a g r) := by
  have hrules : Exact a g rows ↔ ∀ d ∈ marked 1 rows, ∀ x,
      x ∈ (policyRoutes a g rows).pol.getD [] ∧ x.mark = d.1 ↔ Wanted a g d.1 d.2 x :=
    ⟨Exact.rules,fun h => ⟨marked_nodup 1 rows,fun d hd => (le_marked d hd).2,h,deletes_perm a g rows⟩⟩
  rw [hrules,pol_eq]
  by_cases hg : ∃ r ∈ rows, gateway a g r ≠ []
  · rw [if_pos hg,imp_iff_right hg,← forall_marked (m:=1)]
    refine forall₂_congr fun d hd => ?_
    simp only [mem_row hd]
    exact row_iff d.1 d.2
  · rw [if_neg hg]
    refine iff_of_true (fun d hd x => ?_) fun h => absurd h hg
    refine iff_of_false (fun h => List.not_mem_nil h.1) fun h => hg ⟨d.2,?_,h.1⟩
    rw [← marked_rows 1 rows]
    exact List.mem_map_of_mem hd

end Table

def router : Arrays := ⟨∅,defnetworkArray [⟨"Router","2","192.0.2.1"⟩] [],∅,∅,∅⟩

def unknownSource : PolicyRoute := ⟨"2","Router","Branch","any","any","any"⟩

/-- All packets are marked. -/
theorem source_lost : ¬Exact router ∅ [unknownSource] := by
  intro h
  have hm : (1,unknownSource) ∈ marked 1 [unknownSource] := List.mem_cons_self
  have hx : (⟨[],[],[],[],1⟩ : MarkRule) ∈ (policyRoutes router ∅ [unknownSource]).pol.getD [] := by
    have hp : (policyRoutes router ∅ [unknownSource]).pol.getD [] = [⟨[],[],[],[],1⟩] := by decide +kernel
    rw [hp]
    exact List.mem_singleton_self _
  have hw := (h.rules _ hm _).mp ⟨hx,rfl⟩
  have hk := hw.2.1
  have hn : trim unknownSource.src ≠ any := by decide
  rw [NatRows.Part,if_neg hn] at hk
  obtain ⟨ip,-,he⟩ := hk
  cases he

end MarkRoutes
end Mybox
