import Mybox.DefinitionHandlers

/-! The objects the add commands and the page leave in the registry. Given the same values, both put an entry with
the same ID into the same file; whether lookups and rules can tell the two registries apart is decided by the
parameters they read. -/
namespace Mybox
namespace Definitions

open Php RegistryFormat Registry References
open Interfaces (Ipv6 dataOf)

variable (v6 : Ipv6) (pcre : Pcre) (env : Env) (o : Outside)

/-- A registry at rest: lookups have nothing to delete, and the file ends with a whole line. -/
structure AtRest (f : Str) (w : World) : Prop extends Settled w where
  ended : LineEnded (text "definitions" f w)

structure Stores (f n : Str) (data : Params) (w w' : World) : Prop where
  settled : Settled w'
  key : freshKey (entriesOf f w) env.keys = some n
  reg : ∃ x, w'.reg = w.reg.set ("definitions",f) x
  entry : entriesOf f w' = (entriesOf f w).set n (readBack n (carriedParams data))

theorem AtRest.congr {f : Str} {w w' : World} (h : AtRest f w) (hr : w'.reg = w.reg) (hf : Fresh w') : AtRest f w' where
  toSettled := h.toSettled.congr hr hf
  ended := by
    rw [text,hr]
    exact h.ended

theorem iniTokenSave_key {sec fil : Str} {w : World} (hc : Coherent sec fil w) {data : Params}
    (hid : data.val "ID" = []) {r : Ret × World} (hr : iniTokenSave env sec fil data w = some r) (ho : r.1 = .ok) :
    ∃ n, freshKey (entries sec fil w) env.keys = some n ∧
      r.2.reg = w.reg.set (sec,fil) (text sec fil w ++ saveText env n data) := by
  unfold iniTokenSave at hr
  split at hr
  · rw [← Option.some.inj hr] at ho
    simp at ho
  · dsimp only at hr
    rw [if_pos (null_iff.mpr hid),iniTokenGet_fst env sec fil hc] at hr
    obtain ⟨n,hn,rfl⟩ := Option.map_eq_some_iff.mp hr
    have hw : (iniObjectClean sec fil (iniTokenGet env sec fil ∅ w).2).reg = w.reg := by simp
    refine ⟨n,hn,?_⟩
    rw [(saveEntry_spec env sec fil n data (iniObjectClean_cache sec fil _)).1.done ho,hw,text,text,hw]

theorem definitionsSave_stores {k : Kind} {type : Str} {es : List (Str × Str)} (hes : Lines es) {w w' : World}
    (h : AtRest (definitionsFile k type) w) (hs : definitionsSave env k type (dataOf es) w = some (true,w')) :
    ∃ n, Stores env (definitionsFile k type) n (dataOf es) w w' := by
  have hd := hes.newData
  have hc := h.fresh "definitions" (definitionsFile k type) (Or.inr rfl)
  have hid : (dataOf es).val "ID" = [] := by
    rw [Params.val,OrdMap.getD,hd.ident]
    rfl
  unfold definitionsSave at hs
  split at hs
  · simp at hs
  · obtain ⟨r,hr,hrw⟩ := Option.map_eq_some_iff.mp hs
    split at hrw
    · rename_i ho
      obtain ⟨n,hn,hreg⟩ := iniTokenSave_key env hc hid hr ho
      have hk : n ∈ env.keys ∧ (entriesOf (definitionsFile k type) w).get? n = none := freshKey_some hn
      have hi : IdentOk n := hex_identOk (env.keys_hex n hk.1)
      obtain ⟨x,hx⟩ : ∃ x, Rewrites "definitions" (definitionsFile k type) w r x := by
        rcases iniTokenSave_spec env _ _ hc hr with ⟨_,_,-,-,hw,-⟩ | ⟨-,hw⟩
        · exact ⟨_,hw⟩
        · exact ⟨[],hw []⟩
      have hfr : Fresh r.2 := hx.fresh (iniTokenSave_frame env hr) (Or.inr rfl) h.fresh
      obtain rfl : unlinkPrint k r.2 = w' := congrArg Prod.snd hrw
      have hne : ∀ fil, entries "network" fil (unlinkPrint k r.2) = entries "network" fil w := fun fil => by
        have hsec : ("definitions" : Str) ≠ "network" := by decide
        have ht : text "network" fil r.2 = text "network" fil w :=
          Interfaces.text_rewrite_ne hx fun he => hsec (congrArg Prod.fst he)
        rw [entries,entries]
        exact congrArg (fun s => readText s ∅) ht
      refine ⟨n,⟨⟨unlinkPrint_fresh k hfr,?_⟩,hn,⟨_,hreg⟩,?_⟩⟩
      · rw [ethEntries,aliasEntries,hne,hne]
        exact h.parents
      · have hread := (readText_newEntry env h.ended hi hk.2 hd).1
        rw [entriesOf,entries,text]
        change readText (r.2.reg.getD _ _) ∅ = _
        rw [hreg,OrdMap.getD,OrdMap.get?_set_self]
        exact hread
    · simp at hrw

/-- The add command and the page, when they accept, store their data. -/
theorem cliDefinitionsAdd_stores {t : ObjectType} {args : List Str} (ha : ∀ a ∈ args, '\n' ∉ a) {w w' : World}
    (h : AtRest (definitionsFile t.kind t.name) w) (hs : cliDefinitionsAdd v6 env o t args w = some (true,w')) :
    ∃ n, Stores env (definitionsFile t.kind t.name) n (dataOf (addObject v6 o args t).2) w w' := by
  unfold cliDefinitionsAdd at hs
  split at hs
  · simp at hs
  · have hu : AtRest (definitionsFile t.kind t.name) (unlinkAll (staleListing o args t) w) := by
      refine h.congr rfl ?_
      cases staleListing o args t with
      | none => exact h.fresh
      | some f => exact erase_fresh f h.fresh
    obtain ⟨n,hst⟩ := definitionsSave_stores env (lines_add v6 o ha t) hu hs
    exact ⟨n,hst.settled,hst.key,hst.reg,hst.entry⟩

theorem cgiPageDefinitionsSave_stores {t : ObjectType} {post : Params} (hp : ∀ x ∈ post.entries, '\n' ∉ x.2)
    {w w' : World} (h : AtRest (definitionsFile t.kind t.name) w)
    (hs : cgiPageDefinitionsSave v6 env o t post w = some (true,w')) :
    ∃ n, Stores env (definitionsFile t.kind t.name) n (dataOf (pageObject v6 o post t).2) w w' := by
  unfold cgiPageDefinitionsSave at hs
  split at hs
  · simp at hs
  · exact definitionsSave_stores env (lines_page v6 o hp t) h hs

def SameVals (p q : Params) : Prop := ∀ k ∈ resolvedKeys, p.val k = q.val k

def SameToken (t t' : Token) : Prop := OrdMap.Rel (fun _ p q => SameVals p q) t t'

theorem SameToken.refl (t : Token) : SameToken t t := by
  refine ⟨rfl,fun k p q hp hq => ?_⟩
  obtain rfl := Option.some.inj (hp.symm.trans hq)
  exact fun _ _ => rfl

theorem SameToken.isEmpty {t t' : Token} (h : SameToken t t') : t.isEmpty = t'.isEmpty := by
  have hl := congrArg List.length h.keys
  simp only [OrdMap.keys,List.length_map] at hl
  rw [Bool.eq_iff_iff,OrdMap.isEmpty,OrdMap.isEmpty,List.isEmpty_iff_length_eq_zero,List.isEmpty_iff_length_eq_zero,hl]

def SameObjects (m m' : Objects) : Prop := OrdMap.Rel (fun _ t t' => SameToken t t') m m'

theorem SameObjects.addToken {m m' : Objects} (h : SameObjects m m') (key : Str) {t t' : Token}
    (ht : SameToken t t') : SameObjects (definitionsGetAddToken key t m) (definitionsGetAddToken key t' m') := by
  unfold definitionsGetAddToken
  rw [ht.isEmpty]
  split
  · exact h
  · exact h.set ht

theorem newEntry_val (n : Str) (data : Params) {k : Str} (hk : k ∈ resolvedKeys) :
    (readBack n (carriedParams data)).val k = carried (data.val k) := by
  have hs : ∀ k ∈ resolvedKeys, skipped k = false := by decide
  rw [Interfaces.readBack_val _ (hs k hk),Params.val,Params.val,OrdMap.getD,OrdMap.getD,carriedParams,
    OrdMap.get?_mapEntries]
  cases data.get? k with
  | none => rfl
  | some v =>
    rw [Option.map_some,Option.getD_some,Option.getD_some,carriedValue,hs k hk]
    rfl

variable {env} {k : Kind} {f n : Str} {d d' : Params} {w u v : World}

theorem Stores.others (h : Stores env f n d w v) {g : Str} (hg : g ≠ f) : entriesOf g v = entriesOf g w := by
  obtain ⟨x,hx⟩ := h.reg
  rw [entriesOf,entriesOf,entries,entries,text,text,hx,OrdMap.getD,OrdMap.getD,OrdMap.get?_set_ne _ _ (by simp [hg.symm])]

theorem Stores.network (h : Stores env f n d w v) (g : Str) : entries "network" g v = entries "network" g w := by
  obtain ⟨x,hx⟩ := h.reg
  have hne : ("definitions" : Str) ≠ "network" := by decide
  have hp : (("definitions" : Str),f) ≠ (("network" : Str),g) := fun he => hne (congrArg Prod.fst he)
  rw [entries,entries,text,text,hx,OrdMap.getD,OrdMap.getD,OrdMap.get?_set_ne _ _ hp]

theorem Stores.files (h : Stores env f n d w u) (h' : Stores env f n d' w v) : definitionFiles u = definitionFiles v := by
  obtain ⟨x,hx⟩ := h.reg
  obtain ⟨y,hy⟩ := h'.reg
  rw [definitionFiles,definitionFiles,hx,hy,OrdMap.keys_set,OrdMap.keys_set]

theorem Stores.sameObjects (h : Stores env f n d w u) (h' : Stores env f n d' w v)
    (hd : typeOfFile k f ≠ none → ∀ j ∈ resolvedKeys, d.val j = d'.val j) : SameObjects (objects k u) (objects k v) := by
  have hfile : ∀ g, typeOfFile k g ≠ none → SameToken (entriesOf g u) (entriesOf g v) := by
    intro g hty
    by_cases hg : g = f
    · subst hg
      rw [h.entry,h'.entry]
      refine (SameToken.refl _).set fun j hj => ?_
      rw [newEntry_val n d hj,newEntry_val n d' hj,hd hty j hj]
    · rw [h.others hg,h'.others hg]
      exact SameToken.refl _
  have fold : ∀ (gs : List Str) {m m' : Objects}, SameObjects m m' →
      SameObjects (gs.foldl (addFile k u) m) (gs.foldl (addFile k v) m') := by
    intro gs
    induction gs with
    | nil => exact fun hm => hm
    | cons g gs ih =>
      intro m m' hm
      refine ih ?_
      unfold addFile
      cases hty : typeOfFile k g with
      | none => exact hm
      | some ty => exact hm.addToken ty (hfile g (by simp [hty]))
  have htyped : SameObjects (typedObjects k u) (typedObjects k v) := by
    rw [typedObjects_eq,typedObjects_eq,h.files h']
    exact fold _ (OrdMap.Rel.empty _)
  unfold objects
  refine OrdMap.Rel.sortKeys nameLe ?_
  cases k with
  | networks =>
    rw [ethEntries,ethEntries,aliasEntries,aliasEntries,h.network,h.network,h'.network,h'.network]
    exact ((htyped.addToken _ (SameToken.refl _)).addToken _ (SameToken.refl _)).addToken _ (SameToken.refl _)
  | services => exact htyped
  | timeevents => exact htyped

theorem SameObjects.flat {m m' : Objects} (h : SameObjects m m') :
    List.Forall₂ SameEntry (flatObjects m) (flatObjects m') := by
  have entry : ∀ {e e' : Str × Token}, e.1 = e'.1 → SameToken e.2 e'.2 →
      List.Forall₂ SameEntry (e.2.entries.map fun x => (e.1,x.2)) (e'.2.entries.map fun x => (e'.1,x.2)) := by
    intro e e' he ht
    rw [List.forall₂_map_left_iff,List.forall₂_map_right_iff]
    exact ht.forall₂.imp fun x y hxy => ⟨he,hxy.2⟩
  have key : ∀ {es es' : List (Str × Token)}, List.Forall₂ (fun e e' => e.1 = e'.1 ∧ SameToken e.2 e'.2) es es' →
      List.Forall₂ SameEntry (es.flatMap fun e => e.2.entries.map fun x => (e.1,x.2))
        (es'.flatMap fun e => e.2.entries.map fun x => (e.1,x.2)) := by
    intro es es' hes
    induction hes with
    | nil => exact .nil
    | cons he _ ih =>
      rw [List.flatMap_cons,List.flatMap_cons]
      exact List.rel_append (entry he.1 he.2) ih
  exact key h.forall₂

theorem typedObjects_services (w : World) {g ty : Str} (h : typeOfFile .services g = some ty) :
    (typedObjects .services w).get? ty = if entriesOf g w = ∅ then none else some (entriesOf g w) := by
  have htwin : typeOfFile .services twin = none := by decide
  have only : ∀ {g'}, typeOfFile .services g' = some ty → g' = g := by
    intro g' hg'
    refine typeOfFile_inj hg' h ?_ ?_
    · rintro rfl
      simp [htwin] at hg'
    · rintro rfl
      simp [htwin] at h
  split
  · rename_i he
    cases hg : (typedObjects .services w).get? ty with
    | none => rfl
    | some t =>
      obtain ⟨g',hg',rfl⟩ := typedObjects_some hg
      rw [only hg'] at hg
      exact absurd he (typedObjects_ne hg)
  · rename_i he
    exact typedObjects_only h he fun g' hg' _ => only hg'

theorem Stores.typed {ty : Str} (h : Stores env f n d w v) (hf : typeOfFile .services f = some ty) (j : Str) :
    (typedObjects .services v).get? j =
      ((typedObjects .services w).set ty ((entriesOf f w).set n (readBack n (carriedParams d)))).get? j := by
  rw [OrdMap.get?_set]
  split
  · rename_i hj
    subst hj
    rw [typedObjects_services v hf,h.entry,if_neg (OrdMap.set_ne_empty _ _ _)]
  · rename_i hj
    by_cases hg : ∃ g, typeOfFile .services g = some j
    · obtain ⟨g,hg⟩ := hg
      have hne : g ≠ f := by
        rintro rfl
        exact hj (Option.some.inj (hf.symm.trans hg))
      rw [typedObjects_services v hg,typedObjects_services w hg,h.others hne]
    · have hnone : ∀ x, (typedObjects .services x).get? j = none := by
        intro x
        cases hx : (typedObjects .services x).get? j with
        | none => rfl
        | some t =>
          obtain ⟨g,hgj,-⟩ := typedObjects_some hx
          exact absurd ⟨g,hgj⟩ hg
      rw [hnone,hnone]

theorem mem_flatObjects {m : Objects} {x : Str × Params} :
    x ∈ flatObjects m ↔ ∃ e ∈ m.entries, ∃ y ∈ e.2.entries, (e.1,y.2) = x := by
  simp [flatObjects]

/-- A lookup meets the new service behind the objects of its type and of the types before it. -/
theorem services_split (env : Env) (w : World) {f n ty : Str} (hf : typeOfFile .services f = some ty)
    (hn : (entriesOf f w).get? n = none) : ∃ A B,
      (∀ d v, Stores env f n d w v →
        flatObjects (objects .services v) = A ++ (ty,readBack n (carriedParams d))::B) ∧
      ∀ x, x ∈ A ↔ x ∈ flatObjects (objects .services w) ∧ nameLe x.1 ty = true := by
  have hget : ∀ j, (objects .services w).get? j = (typedObjects .services w).get? j := fun j =>
    OrdMap.get?_sortKeys nameLe _ j
  refine ⟨(((objects .services w).entries.filter fun e => e.1 ≠ ty ∧ nameLe e.1 ty = true).flatMap fun e =>
      e.2.entries.map fun x => (e.1,x.2)) ++ (entriesOf f w).entries.map fun x => (ty,x.2),
    ((objects .services w).entries.filter fun e => e.1 ≠ ty ∧ nameLe e.1 ty = false).flatMap fun e =>
      e.2.entries.map fun x => (e.1,x.2),fun d v h => ?_,fun x => ?_⟩
  · have hs := OrdMap.sortKeys_set nameLe_total nameLe_trans nameLe_antisymm (typedObjects .services w)
      (typedObjects .services v) ty _ (h.typed hf)
    have hent : ((entriesOf f w).set n (readBack n (carriedParams d))).entries =
        (entriesOf f w).entries ++ [(n,readBack n (carriedParams d))] :=
      OrdMap.set_entries_fresh _ _ (OrdMap.get?_eq_none.mp hn)
    rw [flatObjects]
    change ((typedObjects .services v).sortKeys nameLe).entries.flatMap _ = _
    rw [hs,List.flatMap_append,List.flatMap_cons,hent,List.map_append]
    simp only [List.map_cons,List.map_nil,List.append_assoc,List.cons_append,List.nil_append]
    rfl
  · rw [List.mem_append,mem_flatObjects,List.mem_flatMap,List.mem_map]
    constructor
    · rintro (⟨e,he,hx⟩ | ⟨y,hy,rfl⟩)
      · obtain ⟨he,hc⟩ := List.mem_filter.mp he
        obtain ⟨y,hy,rfl⟩ := List.mem_map.mp hx
        simp only [ne_eq,decide_eq_true_eq] at hc
        exact ⟨⟨e,he,y,hy,rfl⟩,hc.2⟩
      · have hne : entriesOf f w ≠ ∅ := by
          intro hh
          rw [hh] at hy
          exact absurd hy List.not_mem_nil
        have hg := (hget ty).trans (typedObjects_services w hf)
        rw [if_neg hne] at hg
        exact ⟨⟨_,OrdMap.get?_eq_some.mp hg,y,hy,rfl⟩,(nameLe_total ty ty).elim id id⟩
    · rintro ⟨⟨e,he,y,hy,rfl⟩,hle⟩
      by_cases hty : e.1 = ty
      · have hg := (hget ty).trans (typedObjects_services w hf)
        have he' := OrdMap.get?_eq_some.mpr he
        rw [hty,hg] at he'
        split at he'
        · simp at he'
        · rw [← Option.some.inj he'] at hy
          exact Or.inr ⟨y,hy,by rw [hty]⟩
      · exact Or.inl ⟨e,List.mem_filter.mpr ⟨he,by simp [hty,hle]⟩,List.mem_map.mpr ⟨y,hy,rfl⟩⟩

variable (env)

/-- Every name resolves to the same in both registries, and they give the same rules. -/
def SameMeaning (u v : World) : Prop :=
  (∀ k m, List.Forall₂ SameObject (definitionsGetBynameR pcre env k m u).1 (definitionsGetBynameR pcre env k m v).1) ∧
  ∀ src dst service, (Policy.policyNormalRulesData pcre env src dst service u).1 =
    (Policy.policyNormalRulesData pcre env src dst service v).1

theorem sameMeaning_of_flat (hu : Settled u) (hv : Settled v) (h : ∀ k m, List.Forall₂ SameObject
    (resolvedIn k (flatObjects (objects k u)) m) (resolvedIn k (flatObjects (objects k v)) m)) : SameMeaning pcre env u v := by
  refine ⟨fun k m => ?_,policyNormalRulesData_same pcre env hu hv h⟩
  rw [(definitionsGetBynameR_flat pcre env k m hu).1,(definitionsGetBynameR_flat pcre env k m hv).1]
  exact h k m

/-- Lookups never come to an object of that type and name: it has no name, or they meet another one first. -/
def Shadowed (t : ObjectType) (m : Str) (w : World) : Prop :=
  m = [] ∨ ∃ x ∈ flatObjects (objects t.kind w), nameLe x.1 t.name = true ∧ named m x = true

instance (t : ObjectType) (m : Str) (w : World) : Decidable (Shadowed t m w) := inferInstanceAs (Decidable (_ ∨ _))

theorem Stores.shadowed {t : ServiceType} (h : Stores env (definitionsFile .services t.name) n d w u)
    (h' : Stores env (definitionsFile .services t.name) n d' w v)
    (ht : typeOfFile .services (definitionsFile .services t.name) = some t.name) {m : Str}
    (hd : carried (d.val "NAME") = m) (hd' : carried (d'.val "NAME") = m) (hs : Shadowed (.services t) m w) (j : Str) :
    lookupIn .services (flatObjects (objects .services u)) j = lookupIn .services (flatObjects (objects .services v)) j := by
  obtain ⟨A,B,hflat,hA⟩ := services_split env w ht (freshKey_some h.key).2
  rw [hflat d u h,hflat d' v h']
  have hidden : ∀ {d : Params}, carried (d.val "NAME") = m → ∀ j,
      named j (t.name,readBack n (carriedParams d)) = true → A.any (named j) = true := by
    intro d hd j hj
    rw [named,newEntry_val n d (by decide),hd] at hj
    simp only [Bool.and_eq_true,Bool.not_eq_true',null_false_iff] at hj
    obtain ⟨x,hx,hle,hn⟩ := hs.resolve_left hj.1
    refine List.any_eq_true.mpr ⟨x,(hA x).mpr ⟨hx,hle⟩,?_⟩
    rw [named,Bool.and_eq_true] at hn ⊢
    exact ⟨hn.1,looseEq_trans hn.2 hj.2⟩
  exact lookupIn_hidden (hidden hd) (hidden hd') j

/-- The protocol of a service that is found by its name shows. -/
theorem Stores.resolved {t : ServiceType} (h : Stores env (definitionsFile .services t.name) n d w v)
    (ht : typeOfFile .services (definitionsFile .services t.name) = some t.name) (hg : looseEq t.name "group" = false)
    (hs : ¬Shadowed (.services t) (carried (d.val "NAME")) w) :
    resolvedIn .services (flatObjects (objects .services v)) (carried (d.val "NAME")) =
      usable .services (found .services (t.name,readBack n (carriedParams d))) := by
  obtain ⟨A,B,hflat,hA⟩ := services_split env w ht (freshKey_some h.key).2
  rw [Shadowed,not_or] at hs
  have hnone : A.find? (named (carried (d.val "NAME"))) = none := by
    refine List.find?_eq_none.mpr fun x hx hn => hs.2 ⟨x,((hA x).mp hx).1,((hA x).mp hx).2,hn⟩
  have hfound : named (carried (d.val "NAME")) (t.name,readBack n (carriedParams d)) = true := by
    rw [named,newEntry_val n d (by decide),looseEq_self,null_false_iff.mpr hs.1]
    rfl
  have hlook : lookupIn .services (flatObjects (objects .services v)) (carried (d.val "NAME")) =
      some (found .services (t.name,readBack n (carriedParams d))) := by
    rw [hflat d v h,lookupIn,List.find?_append,hnone,List.find?_cons,hfound]
    rfl
  have hgroup : isGroup (found .services (t.name,readBack n (carriedParams d))) = false := by
    rw [isGroup,found_type]
    exact hg
  unfold resolvedIn
  rw [if_neg (by decide),hlook]
  dsimp only
  rw [hgroup]
  rfl

theorem usable_proto {p q : Params} (h : List.Forall₂ SameObject (usable .services p) (usable .services q)) :
    p.val "PROTO" = q.val "PROTO" := by
  unfold usable at h
  change List.Forall₂ SameObject (if null (p.val "PROTO") then [] else [p]) (if null (q.val "PROTO") then [] else [q]) at h
  by_cases hp : p.val "PROTO" = []
  · by_cases hq : q.val "PROTO" = []
    · rw [hp,hq]
    · rw [if_pos (null_iff.mpr hp),if_neg (by simpa using hq)] at h
      nomatch h
  · by_cases hq : q.val "PROTO" = []
    · rw [if_neg (by simpa using hp),if_pos (null_iff.mpr hq)] at h
      nomatch h
    · rw [if_neg (by simpa using hp),if_neg (by simpa using hq)] at h
      cases h with
      | cons hs _ => exact hs.value "PROTO" (by decide)

/-- Two services with one name and different protocols. -/
theorem Stores.sameMeaning_iff {t : ServiceType} (h : Stores env (definitionsFile .services t.name) n d w u)
    (h' : Stores env (definitionsFile .services t.name) n d' w v)
    (ht : typeOfFile .services (definitionsFile .services t.name) = some t.name ∧
      typeOfFile .networks (definitionsFile .services t.name) = none ∧ looseEq t.name "group" = false)
    (hname : d.val "NAME" = d'.val "NAME") (hproto : carried (d.val "PROTO") ≠ carried (d'.val "PROTO")) :
    SameMeaning pcre env u v ↔ Shadowed (.services t) (carried (d.val "NAME")) w := by
  constructor
  · intro hs
    by_contra hsh
    have hr := hs.1 .services (carried (d.val "NAME"))
    rw [(definitionsGetBynameR_flat pcre env .services _ h.settled).1,
      (definitionsGetBynameR_flat pcre env .services _ h'.settled).1,h.resolved env ht.1 ht.2.2 hsh] at hr
    rw [hname] at hsh hr
    rw [h'.resolved env ht.1 ht.2.2 hsh] at hr
    have hp := usable_proto hr
    rw [found_val _ _ (by decide),found_val _ _ (by decide),newEntry_val n d (by decide),
      newEntry_val n d' (by decide)] at hp
    exact hproto hp
  · intro hs
    refine sameMeaning_of_flat pcre env h.settled h'.settled fun k m => ?_
    cases k with
    | networks => exact resolvedIn_same (h.sameObjects h' fun hne => absurd ht.2.1 hne).flat .networks m
    | services =>
      rw [resolvedIn_congr (h.shadowed env h' ht.1 rfl (congrArg carried hname.symm) hs) m]
      exact List.forall₂_same.mpr fun p _ => SameObject.refl p
    | timeevents => exact .nil

/-- The add command and the page store the same object, unless it is a service for TCP and UDP or for an IP protocol
that lookups come to by its name. -/
theorem stored_alike_iff {t : ObjectType} {args : List Str} {post : Params} {w wc wp : World}
    (ha : ∀ a ∈ args, '\n' ∉ a) (hp : ∀ x ∈ post.entries, '\n' ∉ x.2)
    (hw : AtRest (definitionsFile t.kind t.name) w) (hf : addFields o args t = pageFields post t)
    (hc : cliDefinitionsAdd v6 env o t args w = some (true,wc))
    (hg : cgiPageDefinitionsSave v6 env o t post w = some (true,wp)) :
    SameMeaning pcre env wc wp ↔ ¬Misnamed t ∨ Shadowed t (carried (post.val "name")) w := by
  obtain ⟨n,hn⟩ := cliDefinitionsAdd_stores v6 env o ha hw hc
  obtain ⟨n',hn'⟩ := cgiPageDefinitionsSave_stores v6 env o hp hw hg
  obtain rfl : n' = n := Option.some.inj (hn'.key.symm.trans hn.key)
  by_cases hm : Misnamed t
  · have hcond : ∀ {P : Prop}, (¬Misnamed t ∨ P) ↔ P := ⟨fun h => h.resolve_left (not_not.mpr hm),Or.inr⟩
    rw [hcond]
    have hname : arg args 1 = post.val "name" := by
      rcases hm with rfl | rfl <;> exact (List.cons.inj hf).1
    rw [← hname]
    rcases hm with rfl | rfl
    · have hp : (dataOf (addObject v6 o args (.services .tcpudp)).2).val "PROTO" = ("TCP/UDP" : Str) := rfl
      have hp' : (dataOf (pageObject v6 o post (.services .tcpudp)).2).val "PROTO" = ("TCPUDP" : Str) := rfl
      have h := Stores.sameMeaning_iff (t := .tcpudp) pcre env hn hn' (by decide) hname (by rw [hp,hp']; decide)
      exact h
    · have hp : (dataOf (addObject v6 o args (.services .ip)).2).val "PROTO" = [] := rfl
      have hp' : (dataOf (pageObject v6 o post (.services .ip)).2).val "PROTO" = ("IP" : Str) := rfl
      have h := Stores.sameMeaning_iff (t := .ip) pcre env hn hn' (by decide) hname (by rw [hp,hp']; decide)
      exact h
  · refine ⟨fun _ => Or.inl hm,fun _ => sameMeaning_of_flat pcre env hn.settled hn'.settled fun k m => ?_⟩
    exact resolvedIn_same (hn.sameObjects hn' fun _ => sameData v6 o hm hf).flat k m

def nowhere : Outside :=
  ⟨fun _ => [],fun _ => none,fun _ => none,fun _ => none,fun _ => none,by simp,by simp,by simp,by simp⟩

def dnsWorld : World := World.ofFiles [("definitions","service_udp.cfg","ID=1\nNAME=dns\nPROTO=UDP\nDPORT=53\n")]

theorem dnsWorld_atRest (f : Str) (h : LineEnded (text "definitions" f dnsWorld)) : AtRest f dnsWorld :=
  ⟨⟨fun _ _ _ => Or.inl rfl,by decide⟩,h⟩

def webArgs : List Str := ["tcp","web","1024:65535","80","intranet"].map Str.of

def webPost : Params := dataOf [("name","web"),("sport","1024:65535"),("dport","80"),("note","intranet")]

def ospfArgs : List Str := ["ip","ospf","89",""].map Str.of

def ospfPost : Params := dataOf [("name","ospf"),("protocol","89")]

/-- What the add command leaves, and what the page leaves. -/
def added (t : ServiceType) (args : List Str) : World :=
  ((cliDefinitionsAdd Interfaces.ipv4Only noonEnv nowhere (.services t) args dnsWorld).map Prod.snd).getD dnsWorld

def saved (t : ServiceType) (post : Params) : World :=
  ((cgiPageDefinitionsSave Interfaces.ipv4Only noonEnv nowhere (.services t) post dnsWorld).map Prod.snd).getD dnsWorld

theorem stored_alike_iff_web : SameMeaning Pcre.plain noonEnv (added .tcp webArgs) (saved .tcp webPost) ↔
    ¬Misnamed (.services .tcp) ∨ Shadowed (.services .tcp) (carried (webPost.val "name")) dnsWorld :=
  have ha : ∀ a ∈ webArgs, '\n' ∉ a := by decide
  stored_alike_iff Interfaces.ipv4Only Pcre.plain noonEnv nowhere (t := .services .tcp) ha (by decide)
    (dnsWorld_atRest _ (by decide)) (by decide) (by decide) (by decide)

/-- The add command stores an IP protocol without its name, and lookups leave it out. -/
theorem ip_service_lost : ¬∀ (v6 : Ipv6) (pcre : Pcre) (env : Env) (o : Outside) (t : ObjectType) (args : List Str)
    (post : Params) (w wc wp : World), (∀ a ∈ args, '\n' ∉ a) → (∀ x ∈ post.entries, '\n' ∉ x.2) →
    AtRest (definitionsFile t.kind t.name) w → addFields o args t = pageFields post t →
    cliDefinitionsAdd v6 env o t args w = some (true,wc) → cgiPageDefinitionsSave v6 env o t post w = some (true,wp) →
    SameMeaning pcre env wc wp := by
  intro h
  have hs := h Interfaces.ipv4Only Pcre.plain noonEnv nowhere (.services .ip) ospfArgs ospfPost dnsWorld
    (added .ip ospfArgs) (saved .ip ospfPost) (by decide) (by decide) (dnsWorld_atRest _ (by decide)) (by decide)
    (by decide) (by decide)
  exact absurd (hs.1 .services "ospf").length_eq (by decide)

end Definitions
end Mybox
