import Mybox.Lookups
import Mybox.GroupTree

/-! What `_DEFINITIONS_GET_BYNAME_R` makes of a group, one member after another. -/
namespace Mybox
namespace Definitions

open Php RegistryFormat Registry GroupTree

variable (pcre : Pcre) (env : Env)

def isGroup (o : Params) : Bool := looseEq (o.val "__DATA_TYPE") "group"

def memberNames (k : Kind) (o : Params) : List Str := split ',' (o.val k.members)

def node (k : Kind) (m : Objects) (name : Str) : Option (GroupNode Str Params) :=
  (findParam k m "NAME" name []).map fun o =>
    if isGroup o then .group (memberNames k o) else .leaf o

/-- A turn of the loop over the members: the member, what `$_TOKEN` holds before, and the
objects the lookup sees. -/
structure Turn where
  member : Str
  token : Params
  objects : Objects

def Turn.added (k : Kind) (t : Turn) : List Params :=
  usable k ((findParam k t.objects "NAME" t.member []).getD t.token)

def memberTurns (k : Kind) : List Str → Params → World → List Turn
  | [], _, _ => []
  | n::ns, token, w =>
    let r := definitionsGetByparam pcre env k "NAME" n token [] w
    ⟨n,token,(definitionsGet pcre env k w).1⟩ :: memberTurns k ns r.1.2 r.2

theorem definitionsGetByparam_eq (k : Kind) (param value : Str) (itoken : Params) (type : Str)
    (w : World) : definitionsGetByparam pcre env k param value itoken type w =
      (((findParam k (definitionsGet pcre env k w).1 param value type).isSome,
        (findParam k (definitionsGet pcre env k w).1 param value type).getD itoken),
        (definitionsGet pcre env k w).2) := by
  unfold definitionsGetByparam
  rcases Option.eq_none_or_eq_some (findParam k (definitionsGet pcre env k w).1 param value type) with
    h | ⟨o,h⟩ <;> simp [h]

theorem getMembers_eq (k : Kind) (ns : List Str) (token : Params) (w : World) :
    (getMembers pcre env k ns token w).1 =
      (memberTurns pcre env k ns token w).flatMap (Turn.added k) := by
  induction ns generalizing token w with
  | nil => rfl
  | cons n ns ih =>
    simp only [getMembers,memberTurns,List.flatMap_cons,ih]
    rw [definitionsGetByparam_eq]
    rfl

theorem findParam_type {k : Kind} {m : Objects} {param value type : Str} {o : Params}
    (h : findParam k m param value type = some o) : o.isEmpty = false := by
  unfold findParam at h
  obtain ⟨l₁,ty,l₂,-,hf,-⟩ := List.findSome?_eq_some_iff.mp h
  split at hf
  · simp at hf
  · obtain ⟨e,-,rfl⟩ := Option.map_eq_some_iff.mp hf
    rw [Bool.eq_false_iff]
    intro he
    exact OrdMap.set_ne_empty _ _ _ (OrdMap.isEmpty_iff.mp he)

/-- The turns for a group, the first lookup behind them. -/
def groupTurns (k : Kind) (o : Params) (w : World) : List Turn :=
  memberTurns pcre env k (memberNames k o) o (definitionsGet pcre env k w).2

theorem definitionsGetBynameR_group {k : Kind} (hk : k ≠ .timeevents) {name : Str} {w : World}
    {o : Params} (ho : findParam k (definitionsGet pcre env k w).1 "NAME" name [] = some o)
    (hg : isGroup o = true) : (definitionsGetBynameR pcre env k name w).1 =
      (groupTurns pcre env k o w).flatMap (Turn.added k) := by
  unfold definitionsGetBynameR
  rw [if_neg hk,definitionsGetByparam_eq,ho]
  simp only [Option.getD_some,findParam_type ho,Bool.false_eq_true,if_false]
  rw [isGroup] at hg
  rw [if_pos hg,getMembers_eq]
  rfl

/-- The turn adds the leaves of its member and nothing else. -/
def Turn.Exact (k : Kind) (t : Turn) : Prop := Leaves (node k t.objects) [t.member] (t.added k)

/-- A member that is found is a leaf with the field that makes it usable, or a group without
the field and without leaves; when it is not found, `$_TOKEN` is without the field. -/
def Turn.Harmless (k : Kind) (t : Turn) : Prop :=
  match findParam k t.objects "NAME" t.member [] with
  | none => t.token.val k.field = []
  | some o =>
    if isGroup o then o.val k.field = [] ∧ Leaves (node k t.objects) (memberNames k o) []
    else o.val k.field ≠ []

theorem node_leaf {k : Kind} {m : Objects} {n : Str} {o : Params} (h : node k m n = some (.leaf o)) :
    isGroup o = false := by
  obtain ⟨x,-,hx⟩ := Option.map_eq_some_iff.mp h
  split at hx
  · simp at hx
  · rename_i hg
    simp only [GroupNode.leaf.injEq] at hx
    subst hx
    simpa using hg

theorem Turn.exact_iff (k : Kind) (t : Turn) : t.Exact k ↔ t.Harmless k := by
  unfold Turn.Exact Turn.Harmless Turn.added usable
  cases hf : findParam k t.objects "NAME" t.member [] with
  | none =>
    have hn : node k t.objects t.member = none := by simp [node,hf]
    rw [leaves_missing hn]
    simp
  | some o =>
    by_cases hg : isGroup o = true
    · have hn : node k t.objects t.member = some (.group (memberNames k o)) := by simp [node,hf,hg]
      rw [leaves_group hn,Option.getD_some]
      by_cases hv : o.val k.field = []
      · simp [hv,hg]
      · simp only [null_iff,hv,if_false,hg,if_true,false_and,iff_false]
        -- a group is never among the leaves
        intro hl
        obtain ⟨n,hn'⟩ := hl.mem (a := o) (by simp)
        rw [node_leaf hn'] at hg
        exact absurd hg (by decide)
    · have hn : node k t.objects t.member = some (.leaf o) := by simp [node,hf,hg]
      rw [leaves_leaf hn,Option.getD_some]
      simp [hg]

/-- A group is expanded member by member, and every member to its leaves exactly when every
turn is harmless. -/
theorem definitionsGetBynameR_exact_iff {k : Kind} (hk : k ≠ .timeevents) {name : Str} {w : World}
    {o : Params} (ho : findParam k (definitionsGet pcre env k w).1 "NAME" name [] = some o)
    (hg : isGroup o = true) :
    (groupTurns pcre env k o w).map Turn.member = memberNames k o ∧
    (definitionsGetBynameR pcre env k name w).1 =
      (groupTurns pcre env k o w).flatMap (Turn.added k) ∧
    ((∀ t ∈ groupTurns pcre env k o w, t.Exact k) ↔ ∀ t ∈ groupTurns pcre env k o w, t.Harmless k) := by
  refine ⟨?_,definitionsGetBynameR_group pcre env hk ho hg,
    forall₂_congr fun t _ => Turn.exact_iff k t⟩
  have hm : ∀ ns token w, (memberTurns pcre env k ns token w).map Turn.member = ns := by
    intro ns
    induction ns with
    | nil => intro _ _; rfl
    | cons n ns ih => intro token w; simp [memberTurns,ih]
  exact hm _ _ _

theorem memberTurns_objects (k : Kind) (ns : List Str) (token : Params) {w : World} (h : Settled w) :
    ∀ t ∈ memberTurns pcre env k ns token w, t.objects = objects k w := by
  induction ns generalizing token w with
  | nil => simp [memberTurns]
  | cons n ns ih =>
    obtain ⟨hr,hs⟩ := h.definitionsGet pcre env k
    intro t ht
    rcases List.mem_cons.mp ht with rfl | ht
    · exact (definitionsGet_spec pcre env k h.fresh).1
    · rw [definitionsGetByparam_eq] at ht
      rw [ih _ hs t ht,objects_congr k hr]

/-- There, a group whose turns are all harmless is expanded to its leaves. -/
theorem definitionsGetBynameR_leaves {k : Kind} (hk : k ≠ .timeevents) {name : Str} {w : World}
    (h : Settled w) {o : Params} (ho : findParam k (objects k w) "NAME" name [] = some o)
    (hg : isGroup o = true) (ht : ∀ t ∈ groupTurns pcre env k o w, t.Harmless k) :
    Leaves (node k (objects k w)) [name] (definitionsGetBynameR pcre env k name w).1 := by
  have hn : node k (objects k w) name = some (.group (memberNames k o)) := by simp [node,ho,hg]
  have ho' := ho
  rw [← (definitionsGet_spec pcre env k h.fresh).1] at ho'
  obtain ⟨hm,hr,he⟩ := definitionsGetBynameR_exact_iff pcre env hk ho' hg
  obtain ⟨hreg,hs⟩ := h.definitionsGet pcre env k
  rw [leaves_group hn,hr,← hm]
  have hl : ∀ t ∈ groupTurns pcre env k o w,
      Leaves (node k (objects k w)) [t.member] (t.added k) := by
    intro t hmem
    have ht' := he.mpr ht t hmem
    rwa [Turn.Exact,memberTurns_objects pcre env k _ _ hs t hmem,objects_congr k hreg] at ht'
  generalize groupTurns pcre env k o w = ts at hl
  induction ts with
  | nil => exact .nil
  | cons t ts ih => exact (hl t (by simp)).append (ih fun u hu => hl u (List.mem_cons_of_mem _ hu))

def groupWorld : World := World.ofFiles [
  ("definitions","network_group.cfg","ID=g1\nNAME=servers\nADDR=web,old\n"),
  ("definitions","network_host.cfg","ID=h1\nNAME=web\nADDR=10.0.0.5\n")]

def webObject : Params := OrdMap.empty.setAll [("__DATA_ID","h1"),("NAME","web"),("ADDR","10.0.0.5"),
  ("__DATA_SECTION","networks"),("__DATA_TYPE","host")]

def serversObject : Params := OrdMap.empty.setAll [("__DATA_ID","g1"),("NAME","servers"),
  ("ADDR","web,old"),("__DATA_SECTION","networks"),("__DATA_TYPE","group")]

theorem definitionsGetBynameR_exact_iff_servers :
    (groupTurns Pcre.plain noonEnv .networks serversObject groupWorld).map Turn.member =
      ["web","old"] :=
  (@definitionsGetBynameR_exact_iff Pcre.plain noonEnv .networks (by decide) "servers" groupWorld _
    (by decide) (by decide)).1

/-- The host stands in for the name that is gone. -/
theorem group_repeats_host :
    Leaves (node .networks (definitionsGet Pcre.plain noonEnv .networks groupWorld).1) ["servers"]
      [webObject] ∧
    (definitionsGetBynameR Pcre.plain noonEnv .networks "servers" groupWorld).1 =
      [webObject,webObject] := by
  have hs : node .networks (definitionsGet Pcre.plain noonEnv .networks groupWorld).1 "servers" =
      some (.group ["web","old"]) := by decide
  have hw : node .networks (definitionsGet Pcre.plain noonEnv .networks groupWorld).1 "web" =
      some (.leaf webObject) := by decide
  have ho : node .networks (definitionsGet Pcre.plain noonEnv .networks groupWorld).1 "old" = none := by
    decide
  exact ⟨(leaves_group hs).mpr (.leaf hw (.missing ho .nil)),by decide⟩

end Definitions
end Mybox
