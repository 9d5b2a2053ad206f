import Mybox.DerivedFields
import Mybox.Groups
import Mybox.NameLookup
import Mybox.PolicyRules

/-! The definitions the CLI adds and those the web interface saves: two handlers build the parameters of an object,
type by type, and the resolver and the rules read them back. -/
namespace Mybox

open Php RegistryFormat Registry

namespace Php

theorem nameLe_total : ∀ a b : Str, nameLe a b = true ∨ nameLe b a = true
  | [], _ => Or.inl rfl
  | _::_, [] => Or.inr rfl
  | a::s, b::t => by
    simp only [nameLe,Bool.or_eq_true,decide_eq_true_eq,Bool.and_eq_true]
    rcases Nat.lt_trichotomy a.toNat b.toNat with h | h | h
    · exact Or.inl (Or.inl h)
    · have he : a = b := Char.ext (UInt32.toNat_inj.mp h)
      rcases nameLe_total s t with hs | hs
      · exact Or.inl (Or.inr ⟨he,hs⟩)
      · exact Or.inr (Or.inr ⟨he.symm,hs⟩)
    · exact Or.inr (Or.inl h)

theorem nameLe_trans : ∀ {a b c : Str}, nameLe a b = true → nameLe b c = true → nameLe a c = true
  | [], _, _, _, _ => rfl
  | _::_, [], _, h, _ => by simp [nameLe] at h
  | _::_, _::_, [], _, h => by simp [nameLe] at h
  | a::s, b::t, c::u, h, hh => by
    simp only [nameLe,Bool.or_eq_true,decide_eq_true_eq,Bool.and_eq_true] at h hh ⊢
    rcases h with h | ⟨rfl,h⟩
    · rcases hh with hh | ⟨rfl,-⟩
      · exact Or.inl (h.trans hh)
      · exact Or.inl h
    · rcases hh with hh | ⟨rfl,hh⟩
      · exact Or.inl hh
      · exact Or.inr ⟨rfl,nameLe_trans h hh⟩

theorem nameLe_antisymm : ∀ {a b : Str}, nameLe a b = true → nameLe b a = true → a = b
  | [], [], _, _ => rfl
  | [], _::_, _, h => by simp [nameLe] at h
  | _::_, [], h, _ => by simp [nameLe] at h
  | a::s, b::t, h, hh => by
    simp only [nameLe,Bool.or_eq_true,decide_eq_true_eq,Bool.and_eq_true] at h hh
    rcases h with h | ⟨rfl,h⟩
    · rcases hh with hh | ⟨rfl,-⟩ <;> omega
    · rcases hh with hh | ⟨-,hh⟩
      · omega
      · rw [nameLe_antisymm h hh]

/-- Loose equality of two strings is transitive. -/
theorem looseEq_trans {a b c : Str} (h : looseEq a b = true) (hh : looseEq b c = true) : looseEq a c = true := by
  unfold looseEq at *
  cases hb : numeric b with
  | none =>
    have hab : a = b := by
      rw [hb] at h
      cases ha : numeric a <;> simpa [ha] using h
    subst hab
    exact hh
  | some y =>
    cases ha : numeric a with
    | none =>
      have hab : a = b := by simpa [ha] using h
      rw [hab,hb] at ha
      simp at ha
    | some x =>
      cases hc : numeric c with
      | none =>
        have hbc : b = c := by simpa [hb,hc] using hh
        rw [hbc,hc] at hb
        simp at hb
      | some z =>
        rw [ha,hb] at h
        rw [hb,hc] at hh
        dsimp only at h hh ⊢
        cases hx : toDouble x <;> cases hy : toDouble y <;> cases hz : toDouble z <;>
          simp_all

end Php
namespace Definitions

variable (pcre : Pcre) (env : Env)

/-- The objects with their types, in the order a lookup goes through them. -/
def flatObjects (m : Objects) : List (Str × Params) := m.entries.flatMap fun e => e.2.entries.map fun x => (e.1,x.2)

def named (n : Str) (x : Str × Params) : Bool := !null (x.2.val "NAME") && looseEq (x.2.val "NAME") n

def found (k : Kind) (x : Str × Params) : Params := (x.2.set "__DATA_SECTION" k.name).set "__DATA_TYPE" x.1

def lookupIn (k : Kind) (l : List (Str × Params)) (n : Str) : Option Params := (l.find? (named n)).map (found k)

def membersIn (k : Kind) (l : List (Str × Params)) : List Str → Params → List Params
  | [], _ => []
  | n::ns, token =>
    let o := (lookupIn k l n).getD token
    usable k o ++ membersIn k l ns o

/-- What `_DEFINITIONS_GET_BYNAME_R` returns. -/
def resolvedIn (k : Kind) (l : List (Str × Params)) (n : Str) : List Params :=
  if k = .timeevents then [] else
  match lookupIn k l n with
  | none => []
  | some o => if isGroup o then membersIn k l (memberNames k o) o else usable k o

theorem findParam_flat (k : Kind) (m : Objects) (n : Str) :
    findParam k m "NAME" n [] = lookupIn k (flatObjects m) n := by
  unfold findParam lookupIn flatObjects
  generalize m.entries = es
  induction es with
  | nil => rfl
  | cons e es ih =>
    have hf : ∀ l : List (Str × Params), ((l.map fun x => (e.1,x.2)).find? (named n)) =
        (l.find? fun x => !null (x.2.val "NAME") && looseEq (x.2.val "NAME") n).map fun x => (e.1,x.2) := fun l => by
      rw [List.find?_map]
      rfl
    rw [List.findSome?_cons,List.flatMap_cons,List.find?_append,hf,ih]
    cases e.2.entries.find? fun x => !null (x.2.val "NAME") && looseEq (x.2.val "NAME") n with
    | none => rfl
    | some x => rfl

theorem getMembers_flat (k : Kind) (ns : List Str) (token : Params) {w : World} (h : Settled w) :
    (getMembers pcre env k ns token w).1 = membersIn k (flatObjects (objects k w)) ns token ∧
    (getMembers pcre env k ns token w).2.reg = w.reg ∧ Settled (getMembers pcre env k ns token w).2 := by
  induction ns generalizing token w with
  | nil => exact ⟨rfl,rfl,h⟩
  | cons n ns ih =>
    obtain ⟨hr,hs⟩ := h.definitionsGet pcre env k
    have hobj := (definitionsGet_spec pcre env k h.fresh).1
    obtain ⟨i₁,i₂,i₃⟩ := ih ((findParam k (definitionsGet pcre env k w).1 "NAME" n []).getD token) hs
    simp only [getMembers,membersIn]
    rw [definitionsGetByparam_eq]
    dsimp only
    refine ⟨?_,i₂.trans hr,i₃⟩
    rw [i₁,objects_congr k hr,hobj,findParam_flat]

theorem definitionsGetBynameR_flat (k : Kind) (n : Str) {w : World} (h : Settled w) :
    (definitionsGetBynameR pcre env k n w).1 = resolvedIn k (flatObjects (objects k w)) n ∧
    (definitionsGetBynameR pcre env k n w).2.reg = w.reg ∧ Settled (definitionsGetBynameR pcre env k n w).2 := by
  obtain ⟨hr,hs⟩ := h.definitionsGet pcre env k
  have hobj := (definitionsGet_spec pcre env k h.fresh).1
  unfold definitionsGetBynameR resolvedIn
  by_cases hk : k = .timeevents
  · rw [if_pos hk,if_pos hk]
    exact ⟨rfl,rfl,h⟩
  · rw [if_neg hk,if_neg hk,definitionsGetByparam_eq,hobj,findParam_flat]
    dsimp only
    cases hf : lookupIn k (flatObjects (objects k w)) n with
    | none => exact ⟨rfl,hr,hs⟩
    | some o =>
      have ho : o.isEmpty = false := @findParam_type k (objects k w) "NAME" n [] o (by rw [findParam_flat,hf])
      rw [Option.getD_some,ho,if_neg (by simp)]
      dsimp only
      by_cases hg : isGroup o = true
      · obtain ⟨h₁,h₂,h₃⟩ := getMembers_flat pcre env k (memberNames k o) o hs
        rw [isGroup] at hg
        rw [if_pos hg,isGroup,if_pos hg]
        exact ⟨by rw [memberNames] at h₁; rw [h₁,objects_congr k hr]; rfl,h₂.trans hr,h₃⟩
      · rw [isGroup] at hg
        rw [if_neg hg,isGroup,if_neg hg]
        exact ⟨rfl,hr,hs⟩

/-- The parameters of an object that its addresses, protocols and ports are read from, its name and its members. -/
def resolvedKeys : List Str := ["NAME","ADDR","PREF","MASK","PROTO","NUM","SPORT","DPORT","CODE","SPI","SERVICE"]

/-- Two objects with the same type, addresses, protocols and ports. -/
structure SameObject (p q : Params) : Prop where
  type : p.val "__DATA_TYPE" = q.val "__DATA_TYPE"
  value : ∀ k ∈ resolvedKeys, p.val k = q.val k

theorem SameObject.refl (p : Params) : SameObject p p := ⟨rfl,fun _ _ => rfl⟩

def SameEntry (x y : Str × Params) : Prop := x.1 = y.1 ∧ ∀ k ∈ resolvedKeys, x.2.val k = y.2.val k

theorem found_val (k : Kind) (x : Str × Params) {j : Str} (hj : j ∈ resolvedKeys) : (found k x).val j = x.2.val j := by
  have hn : ∀ j ∈ resolvedKeys, ("__DATA_SECTION" : Str) ≠ j ∧ ("__DATA_TYPE" : Str) ≠ j := by decide
  rw [found,Registry.val_set,if_neg (hn j hj).2,Registry.val_set,if_neg (hn j hj).1]

theorem found_type (k : Kind) (x : Str × Params) : (found k x).val "__DATA_TYPE" = x.1 := by
  rw [found,Registry.val_set,if_pos rfl]

theorem SameEntry.found {x y : Str × Params} (h : SameEntry x y) (k : Kind) : SameObject (found k x) (found k y) :=
  ⟨by rw [found_type,found_type,h.1],fun j hj => by rw [found_val k x hj,found_val k y hj,h.2 j hj]⟩

theorem SameEntry.named {x y : Str × Params} (h : SameEntry x y) (n : Str) : named n x = named n y := by
  rw [Definitions.named,Definitions.named,h.2 "NAME" (by decide)]

theorem SameObject.usable {p q : Params} (h : SameObject p q) {k : Kind} (hk : k ≠ .timeevents) :
    List.Forall₂ SameObject (usable k p) (usable k q) := by
  have hf : p.val k.field = q.val k.field := by
    cases k with
    | networks => exact h.value "ADDR" (by decide)
    | services => exact h.value "PROTO" (by decide)
    | timeevents => exact absurd rfl hk
  unfold Definitions.usable
  rw [hf]
  split
  · exact .nil
  · exact .cons h .nil

theorem SameObject.members {p q : Params} (h : SameObject p q) {k : Kind} (hk : k ≠ .timeevents) :
    memberNames k p = memberNames k q ∧ isGroup p = isGroup q := by
  refine ⟨?_,by rw [isGroup,isGroup,h.type]⟩
  cases k with
  | networks => rw [memberNames,memberNames,show p.val Kind.networks.members = _ from h.value "ADDR" (by decide)]; rfl
  | services => rw [memberNames,memberNames,show p.val Kind.services.members = _ from h.value "SERVICE" (by decide)]; rfl
  | timeevents => exact absurd rfl hk

theorem lookupIn_same {l l' : List (Str × Params)} (h : List.Forall₂ SameEntry l l') (k : Kind) (n : Str) :
    Option.Rel SameObject (lookupIn k l n) (lookupIn k l' n) := by
  unfold lookupIn
  induction h with
  | nil => exact .none
  | @cons x y l l' hx _ ih =>
    rw [List.find?_cons,List.find?_cons,hx.named n]
    cases named n y with
    | true => exact .some (hx.found k)
    | false => exact ih

theorem membersIn_same {l l' : List (Str × Params)} (h : List.Forall₂ SameEntry l l') {k : Kind}
    (hk : k ≠ .timeevents) (ns : List Str) {p q : Params} (hp : SameObject p q) :
    List.Forall₂ SameObject (membersIn k l ns p) (membersIn k l' ns q) := by
  induction ns generalizing p q with
  | nil => exact .nil
  | cons n ns ih =>
    have ho : SameObject ((lookupIn k l n).getD p) ((lookupIn k l' n).getD q) := by
      have hr := lookupIn_same h k n
      generalize lookupIn k l n = a at hr
      generalize lookupIn k l' n = b at hr
      cases hr with
      | none => exact hp
      | some hab => exact hab
    exact List.rel_append (ho.usable hk) (ih ho)

theorem resolvedIn_same {l l' : List (Str × Params)} (h : List.Forall₂ SameEntry l l') (k : Kind) (n : Str) :
    List.Forall₂ SameObject (resolvedIn k l n) (resolvedIn k l' n) := by
  unfold resolvedIn
  by_cases hk : k = .timeevents
  · rw [if_pos hk,if_pos hk]
    exact .nil
  · rw [if_neg hk,if_neg hk]
    have hr := lookupIn_same h k n
    generalize lookupIn k l n = a at hr
    generalize lookupIn k l' n = b at hr
    cases hr with
    | none => exact .nil
    | @some p q hpq =>
      dsimp only
      rw [(hpq.members hk).2,(hpq.members hk).1]
      split
      · exact membersIn_same h hk _ hpq
      · exact hpq.usable hk

/-- An entry that is always found too late may be any other: an earlier one has every name it has. -/
theorem lookupIn_hidden {k : Kind} {A B : List (Str × Params)} {x y : Str × Params}
    (hx : ∀ n, named n x = true → A.any (named n) = true) (hy : ∀ n, named n y = true → A.any (named n) = true)
    (n : Str) : lookupIn k (A ++ x::B) n = lookupIn k (A ++ y::B) n := by
  unfold lookupIn
  rw [List.find?_append,List.find?_append]
  cases hA : A.find? (named n) with
  | some a => rfl
  | none =>
    have hn : ∀ z, (named n z = true → A.any (named n) = true) → named n z = false := by
      intro z hz
      by_contra hc
      obtain ⟨a,ha,hna⟩ := List.any_eq_true.mp (hz (by simpa using hc))
      exact absurd hna (List.find?_eq_none.mp hA a ha)
    rw [List.find?_cons,List.find?_cons,hn x (hx n),hn y (hy n)]

theorem resolvedIn_congr {k : Kind} {l l' : List (Str × Params)} (h : ∀ n, lookupIn k l n = lookupIn k l' n) (n : Str) :
    resolvedIn k l n = resolvedIn k l' n := by
  have hm : ∀ ns token, membersIn k l ns token = membersIn k l' ns token := by
    intro ns
    induction ns with
    | nil => exact fun _ => rfl
    | cons n ns ih =>
      intro token
      simp only [membersIn,h n,ih]
  unfold resolvedIn
  rw [h n]
  split
  · rfl
  · split
    · rfl
    · rw [hm]

theorem addrPieces_same (opt : Str) {ps qs : List Params} (h : List.Forall₂ SameObject ps qs) :
    Policy.addrPieces opt ps = Policy.addrPieces opt qs := by
  unfold Policy.addrPieces
  generalize (∅ : OrdMap Str Str) = m
  induction h generalizing m with
  | nil => rfl
  | @cons p q ps qs hp _ ih =>
    have hpiece : Policy.addPiece opt m p = Policy.addPiece opt m q := by
      rw [Policy.addPiece,Policy.addPiece,Policy.addrText,Policy.addrText,hp.value "ADDR" (by decide),
        hp.value "PREF" (by decide)]
    rw [List.foldl_cons,List.foldl_cons,hpiece]
    exact ih _

theorem servicePieces_same {p q : Params} (h : SameObject p q) : Policy.servicePieces p = Policy.servicePieces q := by
  unfold Policy.servicePieces Policy.portText
  rw [h.type,h.value "PROTO" (by decide),h.value "SPORT" (by decide),h.value "DPORT" (by decide),
    h.value "CODE" (by decide),h.value "NUM" (by decide),h.value "SPI" (by decide)]

theorem flatMap_servicePieces_same {ps qs : List Params} (h : List.Forall₂ SameObject ps qs) :
    ps.flatMap Policy.servicePieces = qs.flatMap Policy.servicePieces := by
  induction h with
  | nil => rfl
  | cons hp _ ih => rw [List.flatMap_cons,List.flatMap_cons,servicePieces_same hp,ih]

theorem resolved_flat (k : Kind) (n : Str) {w : World} (h : Settled w) :
    (Policy.resolved pcre env k n w).1 = (if looseEq n "any" then [] else resolvedIn k (flatObjects (objects k w)) n) ∧
    (Policy.resolved pcre env k n w).2.reg = w.reg ∧ Settled (Policy.resolved pcre env k n w).2 := by
  obtain ⟨h₁,h₂,h₃⟩ := definitionsGetBynameR_flat pcre env k n h
  unfold Policy.resolved
  split
  · exact ⟨rfl,rfl,h⟩
  · exact ⟨h₁,h₂,h₃⟩

/-- Registries whose names resolve to the same give the same rules. -/
theorem policyNormalRulesData_same {w w' : World} (h : Settled w) (h' : Settled w')
    (hs : ∀ k n, List.Forall₂ SameObject (resolvedIn k (flatObjects (objects k w)) n)
      (resolvedIn k (flatObjects (objects k w')) n)) (src dst service : Str) :
    (Policy.policyNormalRulesData pcre env src dst service w).1 =
      (Policy.policyNormalRulesData pcre env src dst service w').1 := by
  have factor : ∀ {u v : World}, Settled u → u.reg = w.reg → Settled v → v.reg = w'.reg → ∀ k n,
      List.Forall₂ SameObject (Policy.resolved pcre env k n u).1 (Policy.resolved pcre env k n v).1 := by
    intro u v hu hru hv hrv k n
    rw [(resolved_flat pcre env k n hu).1,(resolved_flat pcre env k n hv).1,objects_congr k hru,objects_congr k hrv]
    split
    · exact .nil
    · exact hs k n
  obtain ⟨-,hr₁,hs₁⟩ := resolved_flat pcre env .networks src h
  obtain ⟨-,hr₂,hs₂⟩ := resolved_flat pcre env .networks src h'
  obtain ⟨-,hr₃,hs₃⟩ := resolved_flat pcre env .networks dst hs₁
  obtain ⟨-,hr₄,hs₄⟩ := resolved_flat pcre env .networks dst hs₂
  unfold Policy.policyNormalRulesData
  dsimp only
  rw [addrPieces_same _ (factor h rfl h' rfl .networks src),
    addrPieces_same _ (factor hs₁ hr₁ hs₂ hr₂ .networks dst),
    flatMap_servicePieces_same (factor hs₃ (hr₃.trans hr₁) hs₄ (hr₄.trans hr₂) .services service)]

end Definitions

end Mybox
