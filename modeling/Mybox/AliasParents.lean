import Mybox.Commands
import Mybox.Rewriting

/-! Aliases and the interfaces they stand on. The read path takes an alias without an interface
for an orphan and deletes it, so every command has to leave each alias its interface. -/
namespace Mybox
namespace Interfaces

open Php RegistryFormat Registry References Definitions

variable (pcre : Pcre) (env : Env)

/-- The files are as they were, and the cache still agrees with them. -/
structure Quiet (w w' : World) : Prop where
  reg : w'.reg = w.reg
  fresh : Fresh w → Fresh w'

theorem Quiet.refl (w : World) : Quiet w w := ⟨rfl,fun h => h⟩

theorem Quiet.trans {w w' w'' : World} (h : Quiet w w') (h' : Quiet w' w'') : Quiet w w'' :=
  ⟨h'.reg.trans h.reg,fun hf => h'.fresh (h.fresh hf)⟩

theorem get_quiet (fil : Str) (w : World) : Quiet w (iniTokenGet env "network" fil ∅ w).2 :=
  ⟨iniTokenGet_reg env _ _ _ _,fun h => h.iniTokenGet env looked_network fil⟩

theorem clean_quiet (sec fil : Str) (w : World) : Quiet w (iniObjectClean sec fil w) :=
  ⟨rfl,iniObjectClean_fresh sec fil⟩

theorem check_quiet (fil param value : Str) (w : World) :
    Quiet w (iniTokenCheck env "network" fil param value w).2 :=
  (get_quiet env fil w).trans (clean_quiet _ _ _)

theorem byparam_world (sec fil param value : Str) (p : Params) (w : World) :
    (iniTokenGetByparam env sec fil param value p w).2 = (iniTokenGet env sec fil ∅ w).2 := by
  unfold iniTokenGetByparam
  dsimp only
  split
  · rfl
  · split <;> rfl

theorem byparam_quiet (fil param value : Str) (p : Params) (w : World) :
    Quiet w (iniTokenGetByparam env "network" fil param value p w).2 := by
  rw [byparam_world]
  exact get_quiet env fil w

theorem takenInBoth_quiet (param value : Str) (w : World) :
    Quiet w (takenInBoth env param value w).2 := by
  unfold takenInBoth
  dsimp only
  split
  · exact check_quiet env _ param value w
  · exact (check_quiet env _ param value w).trans (check_quiet env _ param value _)

theorem takenInEither_quiet (param value : Str) (w : World) :
    Quiet w (takenInEither env param value w).2 := by
  unfold takenInEither
  dsimp only
  split
  · exact check_quiet env _ param value w
  · exact (check_quiet env _ param value w).trans (check_quiet env _ param value _)

theorem changeTaken_quiet (param old value : Str) (w : World) :
    Quiet w (changeTaken env param old value w).2 := by
  unfold changeTaken
  split
  · exact takenInBoth_quiet env param value w
  · exact Quiet.refl w

theorem interfaceOf_quiet (type id : Str) (w : World) : Quiet w (interfaceOf env type id w).2 :=
  byparam_quiet env _ _ _ _ w

theorem vipOf_quiet (id : Str) (w : World) : Quiet w (vipOf env id w).2 :=
  byparam_quiet env _ _ _ _ w

def netFiles : List Str := ["eth.cfg","additional.cfg"]

/-- The files of the interfaces and the aliases hold what the writers write. -/
structure Written (w : World) : Prop where
  plain : ∀ fil ∈ netFiles, Plain (text "network" fil w)
  ended : ∀ fil ∈ netFiles, LineEnded (text "network" fil w)

/-- The cache agrees with the files as well. -/
structure Sound (w : World) : Prop extends Written w where
  fresh : Fresh w

theorem Written.congr {w w' : World} (h : Written w)
    (ht : ∀ fil, text "network" fil w' = text "network" fil w) : Written w' :=
  ⟨fun fil hf => by rw [ht]; exact h.plain fil hf,fun fil hf => by rw [ht]; exact h.ended fil hf⟩

theorem Sound.quiet {w w' : World} (h : Sound w) (hq : Quiet w w') : Sound w' :=
  ⟨h.toWritten.congr fun fil => by rw [text,text,hq.reg],hq.fresh h.fresh⟩

def HasParent (w : World) (id : Str) : Prop :=
  ∃ d, (aliasEntries w).get? id = some d ∧ parented (ethEntries w) d = true

/-- The names of the interfaces that aliases stand on. -/
def parentNames (w : World) : List Str :=
  ((aliasEntries w).entries.filter fun e => parented (ethEntries w) e.2).map fun e => e.2.val "PNAME"

theorem parented_iff {eth : Token} {d : Params} : parented eth d = true ↔
    d.val "PNAME" ≠ [] ∧ d.val "PNAME" ∈ interfaceNames eth := by
  simp [parented]

theorem mem_interfaceNames {eth : Token} {n : Str} : n ∈ interfaceNames eth ↔
    n ≠ [] ∧ ∃ id p, eth.get? id = some p ∧ p.val "NAME" = n := by
  simp only [interfaceNames,List.mem_filter,List.mem_map,Bool.not_eq_true',null_false_iff]
  constructor
  · rintro ⟨⟨e,he,rfl⟩,hn⟩
    exact ⟨hn,e.1,e.2,OrdMap.get?_eq_some.mpr he,rfl⟩
  · rintro ⟨hn,id,p,hp,rfl⟩
    exact ⟨⟨(id,p),OrdMap.get?_eq_some.mp hp,rfl⟩,hn⟩

theorem HasParent.mem {w : World} {id : Str} {d : Params} (hd : (aliasEntries w).get? id = some d)
    (hp : parented (ethEntries w) d = true) : d.val "PNAME" ∈ parentNames w :=
  List.mem_map.mpr ⟨(id,d),List.mem_filter.mpr ⟨OrdMap.get?_eq_some.mp hd,hp⟩,rfl⟩

theorem mem_parentNames {w : World} {p : Str} (h : p ∈ parentNames w) :
    p ∈ interfaceNames (ethEntries w) := by
  obtain ⟨e,he,rfl⟩ := List.mem_map.mp h
  exact (parented_iff.mp (List.mem_filter.mp he).2).2

/-- Aliases stay but for those that are gone, and keep an interface but for those that are
orphaned; new ones have one. -/
structure Carries (gone orphaned : Str → Prop) (w w' : World) : Prop where
  stays : ∀ id ∈ (aliasEntries w).keys, id ∈ (aliasEntries w').keys ∨ gone id
  stands : ∀ id, HasParent w id → id ∈ (aliasEntries w').keys → HasParent w' id ∨ orphaned id
  added : ∀ id ∈ (aliasEntries w').keys, id ∉ (aliasEntries w).keys → HasParent w' id

abbrev Keeps (w w' : World) : Prop := Carries (fun _ => False) (fun _ => False) w w'

theorem keeps_of {w w' : World} (hk : (aliasEntries w').keys = (aliasEntries w).keys)
    (h : ∀ id, HasParent w id → HasParent w' id) : Keeps w w' :=
  ⟨fun _ hi => Or.inl (hk ▸ hi),fun id hp _ => Or.inl (h id hp),fun _ hi hn => absurd (hk ▸ hi) hn⟩

theorem hasParent_congr {w w' : World} (h : w'.reg = w.reg) {id : Str} :
    HasParent w' id ↔ HasParent w id := by
  unfold HasParent
  rw [aliasEntries,ethEntries,entries_congr _ _ h,entries_congr _ _ h]

theorem keeps_text {w w' : World} (h : ∀ fil, text "network" fil w' = text "network" fil w) :
    Keeps w w' := by
  have he : ∀ fil, entries "network" fil w' = entries "network" fil w := fun fil => by
    rw [entries,entries,h]
  refine keeps_of (by rw [aliasEntries,he]) fun i hpar => ?_
  obtain ⟨d,hd,hp⟩ := hpar
  refine ⟨d,?_,?_⟩
  · rw [aliasEntries,he]; exact hd
  · rw [ethEntries,he]; exact hp

theorem keeps_reg {w w' : World} (h : w'.reg = w.reg) : Keeps w w' :=
  keeps_text fun fil => by rw [text,text,h]

theorem Carries.mono {g o g' o' : Str → Prop} {w w' : World} (h : Carries g o w w')
    (hg : ∀ id, g id → g' id) (ho : ∀ id, o id → o' id) : Carries g' o' w w' :=
  ⟨fun id hi => (h.stays id hi).imp_right (hg id),fun id hp hi => (h.stands id hp hi).imp_right (ho id),
    h.added⟩

theorem Carries.then {g o g' : Str → Prop} {w w' w'' : World} (h : Carries g o w w')
    (h' : Carries g' (fun _ => False) w' w'') : Carries (fun id => g id ∨ g' id) o w w'' := by
  refine ⟨fun id hi => ?_,fun id hp hi => ?_,fun id hi hn => ?_⟩
  · rcases h.stays id hi with hi | hg
    · exact (h'.stays id hi).imp_right Or.inr
    · exact Or.inr (Or.inl hg)
  · by_cases hm : id ∈ (aliasEntries w').keys
    · rcases h.stands id hp hm with hs | hs
      · exact (h'.stands id hs hi).imp_right False.elim
      · exact Or.inr hs
    · exact Or.inl (h'.added id hi hm)
  · by_cases hm : id ∈ (aliasEntries w').keys
    · exact (h'.stands id (h.added id hm hn) hi).resolve_right (fun hf => hf)
    · exact h'.added id hi hm

theorem Carries.keep {g o : Str → Prop} {w w' w'' : World} (h : Carries g o w w') (h' : Keeps w' w'') :
    Carries g o w w'' := (h.then h').mono (fun _ hg => hg.resolve_right (fun hf => hf)) fun _ ho => ho

theorem Carries.after {g o : Str → Prop} {w w' w'' : World} (h : w'.reg = w.reg)
    (h' : Carries g o w' w'') : Carries g o w w'' := by
  have ha : aliasEntries w' = aliasEntries w := entries_congr _ _ h
  exact ⟨fun id hi => h'.stays id (ha ▸ hi),fun id hp => h'.stands id ((hasParent_congr h).mpr hp),
    fun id hi hn => h'.added id hi (ha ▸ hn)⟩

theorem netFiles_cfg : ∀ fil ∈ netFiles, isCfg ("network",fil) = true := by decide

/-- A call that may replace the text of one file: if it does, the new text is fine too. -/
theorem Sound.rewrite {w : World} (h : Sound w) {fil x : Str} {r : Ret × World}
    (hr : Rewrites "network" fil w r x) (hc : Frame "network" fil w r.2)
    (hx : r.1 = .ok → Plain x ∧ LineEnded x) : Sound r.2 := by
  have ht : ∀ fil', text "network" fil' r.2 = text "network" fil' w ∨
      (r.1 = .ok ∧ text "network" fil' r.2 = x) := by
    intro fil'
    by_cases ho : r.1 = .ok
    · by_cases he : fil = fil'
      · subst he
        exact Or.inr ⟨ho,by rw [text,hr.done ho,OrdMap.getD,OrdMap.get?_set_self,Option.getD_some]⟩
      · have hne : (("network" : Str),fil) ≠ (("network" : Str),fil') := by simp [he]
        exact Or.inl (by rw [text,text,hr.done ho,OrdMap.getD,OrdMap.getD,OrdMap.get?_set_ne _ _ hne])
    · exact Or.inl (by rw [text,text,hr.refused ho])
  refine ⟨⟨fun fil' hf => ?_,fun fil' hf => ?_⟩,hr.fresh hc looked_network h.fresh⟩
  · rcases ht fil' with he | ⟨ho,he⟩
    · rw [he]; exact h.plain fil' hf
    · rw [he]; exact (hx ho).1
  · rcases ht fil' with he | ⟨ho,he⟩
    · rw [he]; exact h.ended fil' hf
    · rw [he]; exact (hx ho).2

theorem text_rewrite_ne {w : World} {sec fil sec' fil' x : Str} {r : Ret × World} (hr : Rewrites sec fil w r x)
    (hne : (sec,fil) ≠ (sec',fil')) : text sec' fil' r.2 = text sec' fil' w := by
  by_cases ho : r.1 = .ok
  · rw [text,text,hr.done ho,OrdMap.getD,OrdMap.getD,OrdMap.get?_set_ne _ _ hne]
  · rw [text,text,hr.refused ho]

theorem entries_rewrite_ne {w : World} {fil fil' x : Str} {r : Ret × World}
    (hr : Rewrites "network" fil w r x) (hne : fil ≠ fil') :
    entries "network" fil' r.2 = entries "network" fil' w := by
  rw [entries,entries,text_rewrite_ne hr (by simpa using hne)]

/-- An update either refuses, or assigns the data to its entry. -/
theorem update_cases {w : World} (h : Sound w) {fil : Str} (hf : fil ∈ netFiles) (id : Str)
    {data : Params} (hd : Carried data) :
    Sound (iniTokenUpdate env "network" fil id data w).2 ∧
    (∀ fil', fil ≠ fil' → entries "network" fil' (iniTokenUpdate env "network" fil id data w).2 =
      entries "network" fil' w) ∧
    ((iniTokenUpdate env "network" fil id data w).2.reg = w.reg ∨
      ∃ p, (entries "network" fil w).get? id = some p ∧
        entries "network" fil (iniTokenUpdate env "network" fil id data w).2 =
          (entries "network" fil w).set id (readBack id (p.setAll data.entries))) := by
  have hc := h.fresh "network" fil looked_network
  have hfr := @iniTokenUpdate_frame env "network" fil id data w
  obtain ⟨x,hr⟩ : ∃ x, Rewrites "network" fil w (iniTokenUpdate env "network" fil id data w) x := by
    rcases iniTokenUpdate_spec env "network" fil id data hc with ⟨p,-,hw⟩ | ⟨-,-,hw⟩
    · exact ⟨_,hw⟩
    · exact ⟨[],hw []⟩
  by_cases ho : (iniTokenUpdate env "network" fil id data w).1 = .ok
  · obtain ⟨p,t,hp,ht,hx,he⟩ := update_entries env "network" fil hc (h.plain fil hf) hd ho
    have hx' : x = updateText env t := by
      rw [← hx,text,hr.done ho,OrdMap.getD,OrdMap.get?_set_self,Option.getD_some]
    refine ⟨h.rewrite hr hfr fun _ => ?_,fun fil' hne => entries_rewrite_ne hr hne,Or.inr ⟨p,hp,he⟩⟩
    rw [hx']
    exact ⟨plain_updateText env ht,lineEnded_updateText env t⟩
  · exact ⟨h.rewrite hr hfr fun hh => absurd hh ho,fun fil' hne => entries_rewrite_ne hr hne,
      Or.inl (hr.refused ho)⟩

/-- A save either refuses, or adds an entry. -/
theorem save_cases {w : World} (h : Sound w) {fil : Str} (hf : fil ∈ netFiles) {data : Params}
    (hd : SaveCarried data) {r : Ret × World} (hr : iniTokenSave env "network" fil data w = some r) :
    Sound r.2 ∧ (∀ fil', fil ≠ fil' → entries "network" fil' r.2 = entries "network" fil' w) ∧
    (r.2.reg = w.reg ∨ ∃ n, (entries "network" fil w).get? n = none ∧
      entries "network" fil r.2 = (entries "network" fil w).set n (readBack n (data.erase "ID"))) := by
  have hc := h.fresh "network" fil looked_network
  have hfr := iniTokenSave_frame env hr
  obtain ⟨x,hx⟩ : ∃ x, Rewrites "network" fil w r x := by
    rcases iniTokenSave_spec env "network" fil hc hr with ⟨_,_,-,-,hw,-⟩ | ⟨-,hw⟩
    · exact ⟨_,hw⟩
    · exact ⟨[],hw []⟩
  obtain ⟨ret,v⟩ := r
  by_cases ho : ret = .ok
  · subst ho
    obtain ⟨n,d,-,hn,hi,hdo,hp,ht,he⟩ :=
      save_entries env "network" fil hc (h.ended fil hf) hd hr
    have hx' : x = text "network" fil w ++ saveText env n d := by
      rw [← ht,text,hx.done rfl,OrdMap.getD,OrdMap.get?_set_self,Option.getD_some]
    refine ⟨h.rewrite hx hfr fun _ => ?_,fun fil' hne => entries_rewrite_ne hx hne,Or.inr ⟨n,hn,he⟩⟩
    rw [hx']
    exact ⟨plain_saveText env (h.plain fil hf) (h.ended fil hf) hi hdo hp,lineEnded_saveText env _ _ _⟩
  · exact ⟨h.rewrite hx hfr fun hh => absurd hh ho,fun fil' hne => entries_rewrite_ne hx hne,
      Or.inl (hx.refused ho)⟩

theorem readBack_val {n k : Str} (p : Params) (hk : skipped k = false) :
    (readBack n p).val k = p.val k := by
  have hd : dataId ≠ k := by
    rintro rfl; exact absurd hk (by decide)
  unfold Params.val OrdMap.getD
  cases hp : p.get? k with
  | some v => rw [readBack_get? hk hp]
  | none =>
    have hn : (readBack n p).get? k = none := by
      rw [OrdMap.get?_eq_none,OrdMap.keys,readBack_entries,List.map_cons,List.mem_cons,not_or]
      refine ⟨fun h => hd h.symm,fun hm => ?_⟩
      obtain ⟨x,hx,rfl⟩ := List.mem_map.mp hm
      exact OrdMap.get?_eq_none.mp hp (List.mem_map_of_mem (List.mem_of_mem_filter hx))
    rw [hn]

/-- An update of an interface leaves the interfaces that aliases stand on. -/
theorem ethUpdate_keeps {w : World} (h : Sound w) (id : Str) {data : Params} (hd : Carried data)
    (hn : ∀ n, data.get? "NAME" = some n → ∀ p ∈ parentNames w, p = n ∨
      ∃ j q, j ≠ id ∧ (ethEntries w).get? j = some q ∧ q.val "NAME" = p) :
    Sound (iniTokenUpdate env "network" "eth.cfg" id data w).2 ∧
    Keeps w (iniTokenUpdate env "network" "eth.cfg" id data w).2 := by
  obtain ⟨hs,ho,hr⟩ := update_cases env h (by decide : ("eth.cfg" : Str) ∈ netFiles) id hd
  refine ⟨hs,?_⟩
  rcases hr with hr | ⟨p,hp,he⟩
  · exact keeps_reg hr
  · have ha := ho "additional.cfg" (by decide)
    refine keeps_of (by rw [aliasEntries,ha]) fun i ⟨d,hi,hpar⟩ => ⟨d,by rw [aliasEntries,ha]; exact hi,?_⟩
    have hm := HasParent.mem hi hpar
    obtain ⟨hne,hx⟩ := parented_iff.mp hpar
    refine parented_iff.mpr ⟨hne,mem_interfaceNames.mpr ⟨hne,?_⟩⟩
    rw [ethEntries,he]
    have hv : (readBack id (p.setAll data.entries)).val "NAME" = (data.get? "NAME").getD (p.val "NAME") := by
      rw [readBack_val _ (by decide),setAll_val]
    -- another interface of the name, or the one that is updated
    have other : ∀ j q, j ≠ id → (ethEntries w).get? j = some q → q.val "NAME" = d.val "PNAME" →
        ∃ j q, ((entries "network" "eth.cfg" w).set id (readBack id (p.setAll data.entries))).get? j =
          some q ∧ q.val "NAME" = d.val "PNAME" := fun j q hj hq hv' =>
      ⟨j,q,by rw [OrdMap.get?_set_ne _ _ (Ne.symm hj)]; exact hq,hv'⟩
    cases hg : data.get? "NAME" with
    | some n =>
      rcases hn n hg _ hm with hpn | ⟨j,q,hj,hq,hv'⟩
      · exact ⟨id,_,OrdMap.get?_set_self _ _ _,by rw [hv,hg,hpn]; rfl⟩
      · exact other j q hj hq hv'
    | none =>
      obtain ⟨-,j,q,hq,hv'⟩ := mem_interfaceNames.mp hx
      by_cases hj : j = id
      · subst hj
        have hpq : p = q := by
          rw [ethEntries,hp] at hq
          simpa using hq
        exact ⟨j,_,OrdMap.get?_set_self _ _ _,by rw [hv,hg,hpq,← hv']; rfl⟩
      · exact other j q hj hq hv'

/-- An update of an alias leaves its interface, or gives it another. -/
theorem vipUpdate_keeps {w : World} (h : Sound w) (id : Str) {data : Params} (hd : Carried data)
    (hn : ∀ p, data.get? "PNAME" = some p → p ∈ interfaceNames (ethEntries w)) :
    Sound (iniTokenUpdate env "network" "additional.cfg" id data w).2 ∧
    Keeps w (iniTokenUpdate env "network" "additional.cfg" id data w).2 := by
  obtain ⟨hs,ho,hr⟩ := update_cases env h (by decide : ("additional.cfg" : Str) ∈ netFiles) id hd
  refine ⟨hs,?_⟩
  rcases hr with hr | ⟨p,hp,he⟩
  · exact keeps_reg hr
  · have ha := ho "eth.cfg" (by decide)
    have hk : (aliasEntries (iniTokenUpdate env "network" "additional.cfg" id data w).2).keys =
        (aliasEntries w).keys := by
      have hm : id ∈ (aliasEntries w).keys :=
        List.mem_map.mpr ⟨(id,p),OrdMap.get?_eq_some.mp hp,rfl⟩
      rw [aliasEntries,he,OrdMap.keys_set,if_pos hm]
    refine keeps_of hk fun i hp' => ?_
    obtain ⟨d,hi,hpar⟩ := hp'
    by_cases hj : id = i
    · subst hj
      refine ⟨_,by rw [aliasEntries,he]; exact OrdMap.get?_set_self _ _ _,?_⟩
      have hpd : p = d := by
        rw [aliasEntries,hp] at hi
        simpa using hi
      rw [parented_iff,ethEntries,ha,readBack_val _ (by decide),setAll_val]
      cases hg : data.get? "PNAME" with
      | some n =>
        have hm := hn n hg
        exact ⟨(mem_interfaceNames.mp hm).1,hm⟩
      | none =>
        subst hpd
        exact parented_iff.mp hpar
    · refine ⟨d,?_,by rw [ethEntries,ha]; exact hpar⟩
      rw [aliasEntries,he,OrdMap.get?_set_ne _ _ hj]
      exact hi

theorem ethSave_keeps {w : World} (h : Sound w) {data : Params} (hd : SaveCarried data)
    {r : Ret × World} (hr : iniTokenSave env "network" "eth.cfg" data w = some r) :
    Sound r.2 ∧ Keeps w r.2 := by
  obtain ⟨hs,ho,hc⟩ := save_cases env h (by decide : ("eth.cfg" : Str) ∈ netFiles) hd hr
  refine ⟨hs,?_⟩
  rcases hc with hc | ⟨n,hn,he⟩
  · exact keeps_reg hc
  · have ha := ho "additional.cfg" (by decide)
    refine keeps_of (by rw [aliasEntries,ha]) fun i ⟨d,hi,hpar⟩ => ⟨d,by rw [aliasEntries,ha]; exact hi,?_⟩
    obtain ⟨hne,hx⟩ := parented_iff.mp hpar
    obtain ⟨-,j,q,hq,hv⟩ := mem_interfaceNames.mp hx
    refine parented_iff.mpr ⟨hne,mem_interfaceNames.mpr ⟨hne,j,q,?_,hv⟩⟩
    have hj : n ≠ j := by
      rintro rfl
      rw [ethEntries,hn] at hq
      simp at hq
    rw [ethEntries,he,OrdMap.get?_set_ne _ _ hj]
    exact hq

theorem vipSave_keeps {w : World} (h : Sound w) {data : Params} (hd : SaveCarried data)
    {p : Str} (hp : data.get? "PNAME" = some p) (hn : p ∈ interfaceNames (ethEntries w))
    {r : Ret × World} (hr : iniTokenSave env "network" "additional.cfg" data w = some r) :
    Sound r.2 ∧ Keeps w r.2 := by
  obtain ⟨hs,ho,hc⟩ := save_cases env h (by decide : ("additional.cfg" : Str) ∈ netFiles) hd hr
  refine ⟨hs,?_⟩
  rcases hc with hc | ⟨n,hf,he⟩
  · exact keeps_reg hc
  · have ha := ho "eth.cfg" (by decide)
    have hv : (readBack n (data.erase "ID")).val "PNAME" = p := by
      have hk : ("ID" : Str) ≠ ("PNAME" : Str) := by decide
      rw [readBack_val _ (by decide),Params.val,OrdMap.getD,OrdMap.get?_erase,if_neg hk,hp]
      rfl
    have hnew : HasParent r.2 n := by
      refine ⟨_,by rw [aliasEntries,he]; exact OrdMap.get?_set_self _ _ _,?_⟩
      rw [parented_iff,ethEntries,ha,hv]
      exact ⟨(mem_interfaceNames.mp hn).1,hn⟩
    have hold : ∀ i d, (aliasEntries w).get? i = some d → (aliasEntries r.2).get? i = some d := by
      intro i d hi
      have hne : n ≠ i := by
        rintro rfl
        rw [aliasEntries,hf] at hi
        simp at hi
      rw [aliasEntries,he,OrdMap.get?_set_ne _ _ hne]
      exact hi
    refine ⟨fun i hi => Or.inl ?_,fun i hpar _ => Or.inl ?_,fun i hi hni => ?_⟩
    · rw [aliasEntries,he,OrdMap.mem_keys_set]
      exact Or.inl hi
    · obtain ⟨d,hi,hpar⟩ := hpar
      refine ⟨d,hold i d hi,?_⟩
      rw [ethEntries,ha]
      exact hpar
    · rw [aliasEntries,he,OrdMap.mem_keys_set] at hi
      rcases hi with hi | rfl
      · exact absurd hi hni
      · exact hnew

/-- The names of interfaces that aliases stand on go over alike in both files. -/
def Moves (ps : List Str) (f : Str → Str) (k v v' : Str) : Prop :=
  k = ("NAME" : Str) ∨ k = ("PNAME" : Str) → v ∈ ps → v' = f v

/-- What `_INI_TOKEN_REMOVE` does to the lines of the two files leaves each alias its interface. -/
def Spares (n new : Str) (w : World) : Prop :=
  ∃ f : Str → Str, (∀ p ∈ parentNames w, f p ≠ []) ∧
    ∀ fil ∈ netFiles, ∀ l ∈ linesOf ("network",fil) w,
      LineRel (Moves (parentNames w) f) l (removeLine pcre n new l)

theorem moves_value {ps : List Str} {f : Str → Str} {p p' : Params} {k : Str}
    (h : OrdMap.Rel (Moves ps f) p p') (hk : k = ("NAME" : Str) ∨ k = ("PNAME" : Str))
    (hne : p.val k ≠ []) (hm : p.val k ∈ ps) : p'.val k = f (p.val k) := by
  unfold Params.val OrdMap.getD at *
  rcases h.get? k with ⟨h₁,-⟩ | ⟨v,v',h₁,h₂,hr⟩
  · rw [h₁] at hne
    exact absurd rfl hne
  · rw [h₁] at hm ⊢
    rw [h₂]
    exact hr hk hm

theorem remove_keeps {w : World} (h : Written w) (hs : env.strg = true) {n new : Str}
    (hp : Spares pcre n new w) : Written (iniTokenRemove pcre env n new w) ∧
    Keeps w (iniTokenRemove pcre env n new w) := by
  obtain ⟨f,hf,hl⟩ := hp
  have hd : ∀ x, Moves (parentNames w) f dataId x x := fun x hk => by
    rcases hk with hk | hk <;> exact absurd hk (by decide)
  have rel := fun fil hm => iniTokenRemove_rel pcre env hd hs (netFiles_cfg fil hm) (hl fil hm)
  refine ⟨⟨fun fil hm => (rel fil hm).2 (h.plain fil hm),
    fun fil hm => iniTokenRemove_ended pcre env n new "network" fil (h.ended fil hm)⟩,?_⟩
  have he := (rel "eth.cfg" (by decide)).1
  have ha := (rel "additional.cfg" (by decide)).1
  refine keeps_of ha.keys fun i ⟨d,hi,hpar⟩ => ?_
  have hm := HasParent.mem hi hpar
  obtain ⟨hne,hx⟩ := parented_iff.mp hpar
  obtain ⟨-,j,q,hq,hv⟩ := mem_interfaceNames.mp hx
  rcases ha.get? i with ⟨h₁,-⟩ | ⟨d₁,d',h₁,h₂,hr⟩
  · rw [aliasEntries,h₁] at hi
    simp at hi
  · have hdd : d₁ = d := by
      rw [aliasEntries,h₁] at hi
      simpa using hi
    subst hdd
    have hpn := moves_value hr (Or.inr rfl) hne hm
    refine ⟨d',h₂,parented_iff.mpr ?_⟩
    rw [hpn]
    refine ⟨hf _ hm,mem_interfaceNames.mpr ⟨hf _ hm,?_⟩⟩
    rcases he.get? j with ⟨h₃,-⟩ | ⟨q₁,q',h₃,h₄,hr'⟩
    · rw [ethEntries,h₃] at hq
      simp at hq
    · have hqq : q₁ = q := by
        rw [ethEntries,h₃] at hq
        simpa using hq
      subst hqq
      exact ⟨j,q',h₄,by rw [moves_value hr' (Or.inl rfl) (by rw [hv]; exact hne) (by rw [hv]; exact hm),hv]⟩

/-- The condition of a deletion, on the registry with the entry taken out. -/
def DeleteSpares (sec fil id : Str) (w : World) : Prop :=
  nameOf sec fil id w ≠ [] → Spares pcre (nameOf sec fil id w) [] (without env sec fil id w)

theorem delete_keeps {w : World} (h : Sound w) {sec fil : Str} (hs : Looked sec) {id : Str}
    (hw : Written (without env sec fil id w)) (hp : DeleteSpares pcre env sec fil id w) :
    Sound (iniTokenDelete pcre env sec fil id w).2 ∧
    ((iniTokenDelete pcre env sec fil id w).2.reg = w.reg ∨
      Keeps (without env sec fil id w) (iniTokenDelete pcre env sec fil id w).2) := by
  have hfr := @iniTokenDelete_fresh pcre env sec fil id w hs h.fresh
  have hr := iniTokenDelete_deleted pcre env id (h.fresh sec fil hs)
  unfold deleted at hr
  split at hr
  · rename_i hc
    simp only [Bool.and_eq_true] at hc
    split at hr
    · exact ⟨⟨hw.congr fun fil => by rw [text,text,hr],hfr⟩,Or.inr (keeps_reg hr)⟩
    · rename_i hn
      obtain ⟨hw',hk⟩ := remove_keeps pcre env hw hc.1 (hp (by simpa using hn))
      exact ⟨⟨hw'.congr fun fil => by rw [text,text,hr],hfr⟩,
        Or.inr (hk.keep (keeps_reg hr))⟩
  · exact ⟨⟨h.toWritten.congr fun fil => by rw [text,text,hr],hfr⟩,Or.inl hr⟩

theorem without_written {w : World} (h : Sound w) (sec fil id : Str)
    (hf : sec = ("network" : Str) → fil ∈ netFiles) : Written (without env sec fil id w) := by
  have key : ∀ fil' ∈ netFiles, Plain (text "network" fil' (without env sec fil id w)) ∧
      LineEnded (text "network" fil' (without env sec fil id w)) := by
    intro fil' hm
    by_cases he : (sec,fil) = (("network" : Str),fil')
    · simp only [Prod.mk.injEq] at he
      obtain ⟨rfl,rfl⟩ := he
      exact (entries_without env id (h.plain _ (hf rfl))).2
    · rw [text_without_ne env he]
      exact ⟨h.plain _ hm,h.ended _ hm⟩
  exact ⟨fun fil' hm => (key fil' hm).1,fun fil' hm => (key fil' hm).2⟩

/-- An interface that is taken out orphans its own aliases only. -/
theorem without_eth {w : World} (h : Sound w) (id : Str) :
    Carries (fun _ => False) (fun i => ∃ d, (aliasEntries w).get? i = some d ∧
      d.val "PNAME" = nameOf "network" "eth.cfg" id w) w (without env "network" "eth.cfg" id w) := by
  have he := (entries_without env id (h.plain "eth.cfg" (by decide))).1
  have ha : aliasEntries (without env "network" "eth.cfg" id w) = aliasEntries w := by
    rw [aliasEntries,aliasEntries,entries,entries,text_without_ne env (by decide)]
  refine ⟨fun i hi => Or.inl (by rw [ha]; exact hi),fun i hp _ => ?_,
    fun i hi hn => absurd (ha ▸ hi) hn⟩
  obtain ⟨d,hi,hpar⟩ := hp
  by_cases hv : d.val "PNAME" = nameOf "network" "eth.cfg" id w
  · exact Or.inr ⟨d,hi,hv⟩
  · obtain ⟨hne,hx⟩ := parented_iff.mp hpar
    obtain ⟨-,j,q,hq,hvq⟩ := mem_interfaceNames.mp hx
    have hj : id ≠ j := by
      rintro rfl
      rw [nameOf,OrdMap.getD,hq,Option.getD_some] at hv
      exact hv hvq.symm
    refine Or.inl ⟨d,by rw [ha]; exact hi,parented_iff.mpr ⟨hne,mem_interfaceNames.mpr ⟨hne,j,q,?_,hvq⟩⟩⟩
    rw [ethEntries,he,OrdMap.get?_erase,if_neg hj]
    exact hq

theorem without_vip {w : World} (h : Sound w) (id : Str) :
    Carries (fun i => i = id) (fun _ => False) w (without env "network" "additional.cfg" id w) := by
  have ha := (entries_without env id (h.plain "additional.cfg" (by decide))).1
  have he : ethEntries (without env "network" "additional.cfg" id w) = ethEntries w := by
    rw [ethEntries,ethEntries,entries,entries,text_without_ne env (by decide)]
  have hg : ∀ i, i ≠ id → (aliasEntries (without env "network" "additional.cfg" id w)).get? i =
      (aliasEntries w).get? i := fun i hi => by
    rw [aliasEntries,ha,OrdMap.get?_erase,if_neg (Ne.symm hi)]
  have hmem : ∀ (m : Token) i, i ∈ m.keys ↔ m.get? i ≠ none := fun m i => by
    rw [ne_eq,OrdMap.get?_eq_none,not_not]
  have hid : (aliasEntries (without env "network" "additional.cfg" id w)).get? id = none := by
    rw [aliasEntries,ha,OrdMap.get?_erase,if_pos rfl]
  refine ⟨fun i hi => ?_,fun i hp hk => Or.inl ?_,fun i hi hn => ?_⟩
  · by_cases hii : i = id
    · exact Or.inr hii
    · rw [hmem] at hi
      exact Or.inl ((hmem _ _).mpr (by rwa [hg i hii]))
  · have hii : i ≠ id := by
      rintro rfl
      exact (hmem _ _).mp hk hid
    obtain ⟨d,hi,hpar⟩ := hp
    exact ⟨d,by rw [hg i hii]; exact hi,by rw [he]; exact hpar⟩
  · have hii : i ≠ id := by
      rintro rfl
      exact (hmem _ _).mp hi hid
    rw [hmem,hg i hii] at hi
    exact absurd ((hmem _ _).mpr hi) hn

/-- Each deletion of the loop over the orphans meets the condition of a deletion. -/
def OrphansSpare : List Str → World → Prop
  | [], _ => True
  | id::ids, w => DeleteSpares pcre env "network" "additional.cfg" id w ∧
      OrphansSpare ids (deleted pcre env "network" "additional.cfg" id w)

theorem without_reg (sec fil id : Str) {w w' : World} (h : w'.reg = w.reg) :
    (without env sec fil id w').reg = (without env sec fil id w).reg := by
  simp only [without,h,entries_congr sec fil h]

theorem nameOf_congr (sec fil id : Str) {w w' : World} (h : w'.reg = w.reg) :
    nameOf sec fil id w' = nameOf sec fil id w := by
  rw [nameOf,nameOf,entries_congr sec fil h]

theorem parentNames_congr {w w' : World} (h : w'.reg = w.reg) : parentNames w' = parentNames w := by
  unfold parentNames
  rw [ethEntries,aliasEntries,entries_congr _ _ h,entries_congr _ _ h]

theorem Spares.congr {n new : Str} {w w' : World} (h : w'.reg = w.reg) (hs : Spares pcre n new w) :
    Spares pcre n new w' := by
  obtain ⟨f,hf,hl⟩ := hs
  refine ⟨f,by rw [parentNames_congr h]; exact hf,fun fil hm l hx => ?_⟩
  rw [parentNames_congr h]
  exact hl fil hm l (by rwa [linesOf_congr h] at hx)

theorem DeleteSpares.congr {sec fil id : Str} {w w' : World} (h : w'.reg = w.reg)
    (hs : DeleteSpares pcre env sec fil id w) : DeleteSpares pcre env sec fil id w' := by
  unfold DeleteSpares at *
  rw [nameOf_congr sec fil id h]
  exact fun hn => (hs hn).congr pcre (without_reg env sec fil id h)

theorem deleted_reg (sec fil id : Str) {w w' : World} (h : w'.reg = w.reg) :
    (deleted pcre env sec fil id w').reg = (deleted pcre env sec fil id w).reg := by
  unfold deleted
  rw [entries_congr sec fil h,nameOf_congr sec fil id h]
  split
  · split
    · exact without_reg env sec fil id h
    · exact iniTokenRemove_reg pcre env (without_reg env sec fil id h)
  · exact h

theorem OrphansSpare.congr {ids : List Str} {w w' : World} (h : w'.reg = w.reg)
    (hs : OrphansSpare pcre env ids w) : OrphansSpare pcre env ids w' := by
  induction ids generalizing w w' with
  | nil => trivial
  | cons id ids ih => exact ⟨hs.1.congr pcre env h,ih (deleted_reg pcre env _ _ id h) hs.2⟩

theorem orphans_carries {ids : List Str} {w : World} (h : Sound w) (hs : OrphansSpare pcre env ids w) :
    Sound (ids.foldl (fun w id => (iniTokenDelete pcre env "network" "additional.cfg" id w).2) w) ∧
    Carries (fun i => i ∈ ids) (fun _ => False) w
      (ids.foldl (fun w id => (iniTokenDelete pcre env "network" "additional.cfg" id w).2) w) := by
  induction ids generalizing w with
  | nil => exact ⟨h,(keeps_reg rfl).mono (by simp) fun _ hf => hf⟩
  | cons id ids ih =>
    have hw := without_written env h "network" "additional.cfg" id (fun _ => by decide)
    obtain ⟨hs',hk⟩ := delete_keeps pcre env h looked_network hw hs.1
    have hc : Carries (fun i => i = id) (fun _ => False) w
        (iniTokenDelete pcre env "network" "additional.cfg" id w).2 := by
      rcases hk with hk | hk
      · exact (keeps_reg hk).mono (fun _ hf => hf.elim) fun _ hf => hf
      · exact (without_vip env h id).keep hk
    have hd := iniTokenDelete_deleted pcre env id (h.fresh "network" "additional.cfg" looked_network)
    obtain ⟨h₁,h₂⟩ := ih hs' (hs.2.congr pcre env hd)
    refine ⟨h₁,(hc.then h₂).mono (fun i hi => ?_) fun _ hf => hf⟩
    simpa using hi

theorem not_hasParent_of_orphan {w : World} {id : Str}
    (h : id ∈ orphans (ethEntries w) (aliasEntries w)) : ¬ HasParent w id := by
  rintro ⟨d,hd,hp⟩
  obtain ⟨e,he,rfl⟩ := List.mem_map.mp h
  obtain ⟨hm,hn⟩ := List.mem_filter.mp he
  have hg : (aliasEntries w).get? e.1 = some e.2 := OrdMap.get?_eq_some.mpr hm
  rw [hd,Option.some.injEq] at hg
  rw [hg] at hp
  simp [hp] at hn

theorem lookup_carries {w : World} (h : Sound w) (k : Kind)
    (hs : k = .networks → OrphansSpare pcre env (orphans (ethEntries w) (aliasEntries w)) w) :
    Sound (definitionsGet pcre env k w).2 ∧
    Carries (fun i => k = .networks ∧ ¬ HasParent w i) (fun _ => False) w
      (definitionsGet pcre env k w).2 := by
  obtain ⟨-,v,hr,hf,he⟩ := definitionsGet_spec pcre env k h.fresh
  have hv : Sound v := ⟨h.toWritten.congr fun fil => by rw [text,text,hr],hf⟩
  rw [he]
  split
  · rename_i hk
    obtain ⟨h₁,h₂⟩ := orphans_carries pcre env hv ((hs hk).congr pcre env hr)
    exact ⟨h₁,(Carries.after hr h₂).mono (fun i hi => ⟨hk,not_hasParent_of_orphan hi⟩) fun _ hf => hf⟩
  · exact ⟨hv,(keeps_reg hr).mono (fun _ hf => hf.elim) fun _ hf => hf⟩

end Interfaces
end Mybox
