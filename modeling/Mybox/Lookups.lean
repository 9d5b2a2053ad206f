import Mybox.Definitions

/-! Lookups over a registry whose caches agree with its files: what they return depends on
the files alone, and without orphaned aliases they leave the files as they are. -/
namespace Mybox

open Php RegistryFormat

namespace Registry

variable (env : Env)

def Looked (sec : Str) : Prop := sec = ("network" : Str) ∨ sec = ("definitions" : Str)

theorem looked_network : Looked "network" := Or.inl rfl

theorem looked_definitions : Looked "definitions" := Or.inr rfl

def Fresh (w : World) : Prop := ∀ sec fil, Looked sec → Coherent sec fil w

theorem objName_inj {sec fil sec' fil' : Str} (h : '_' ∉ sec) (h' : '_' ∉ sec')
    (he : objName sec fil = objName sec' fil') : sec = sec' ∧ fil = fil' := by
  have hs := congrArg (List.splitOn '_') he
  rw [objName,objName,List.splitOn_append_cons_self_of_not_mem h,
    List.splitOn_append_cons_self_of_not_mem h',List.cons.injEq] at hs
  obtain rfl := hs.1
  exact ⟨rfl,by simpa [objName] using he⟩

theorem Looked.section_ {sec : Str} (h : Looked sec) : '_' ∉ sec := by
  rcases h with rfl | rfl <;> decide

/-- The cached arrays of some sections are what their files hold. -/
def FreshOn (S : Str → Prop) (w : World) : Prop := ∀ sec fil, S sec → Coherent sec fil w

theorem coherent_congr {sec fil : Str} {w w' : World} (hr : w'.reg = w.reg)
    (hc : fileArrayGet w' (objName sec fil) = fileArrayGet w (objName sec fil))
    (h : Coherent sec fil w) : Coherent sec fil w' := by
  rw [Coherent,hc,entries_congr sec fil hr]
  exact h

theorem iniTokenGet_obj_ne {sec fil : Str} (nt : Token) (w : World) {o : Str}
    (h : objName sec fil ≠ o) : (iniTokenGet env sec fil nt w).2.obj.get? o = w.obj.get? o := by
  unfold iniTokenGet
  split
  · rfl
  · split
    · rfl
    · dsimp only
      split
      · exact OrdMap.get?_set_ne _ _ h
      · rfl

theorem iniTokenGet_cache_ne {sec fil : Str} (nt : Token) (w : World) {o : Str}
    (h : objName sec fil ≠ o) : fileArrayGet (iniTokenGet env sec fil nt w).2 o = fileArrayGet w o := by
  rw [fileArrayGet,fileArrayGet,iniTokenGet_obj_ne env nt w h]

variable {S : Str → Prop}

/-- A step that follows the text of one file and leaves the rest. -/
theorem FreshOn.step (hS : ∀ sec, S sec → '_' ∉ sec) {w w' : World} (h : FreshOn S w) {sec fil : Str}
    (hs : S sec) (hc : Coherent sec fil w')
    (ho : ∀ o, objName sec fil ≠ o → fileArrayGet w' o = fileArrayGet w o)
    (ht : ∀ sec' fil', (sec,fil) ≠ (sec',fil') → text sec' fil' w' = text sec' fil' w) : FreshOn S w' := by
  intro sec' fil' hs'
  by_cases he : objName sec fil = objName sec' fil'
  · obtain ⟨rfl,rfl⟩ := objName_inj (hS _ hs) (hS _ hs') he
    exact hc
  · have hne : (sec,fil) ≠ (sec',fil') := by
      rintro hh
      simp only [Prod.mk.injEq] at hh
      exact he (by rw [hh.1,hh.2])
    have hw := h sec' fil' hs'
    rw [Coherent,entries] at hw ⊢
    rw [ho _ he,ht _ _ hne]
    exact hw

theorem FreshOn.iniTokenGet (hS : ∀ sec, S sec → '_' ∉ sec) {w : World} (h : FreshOn S w) {sec : Str}
    (hs : S sec) (fil : Str) : FreshOn S (iniTokenGet env sec fil ∅ w).2 :=
  h.step hS hs (iniTokenGet_coherent env sec fil (h sec fil hs))
    (fun _ ho => iniTokenGet_cache_ne env ∅ w ho) fun _ _ _ => by rw [text,text,iniTokenGet_reg]

theorem Fresh.iniTokenGet {w : World} (h : Fresh w) {sec : Str} (hs : Looked sec) (fil : Str) :
    Fresh (iniTokenGet env sec fil ∅ w).2 :=
  FreshOn.iniTokenGet env (fun _ => Looked.section_) h hs fil

end Registry

namespace Definitions

open Registry

variable (pcre : Pcre) (env : Env)

def typedObjects (k : Kind) (w : World) : Objects :=
  (definitionFiles w).foldl (fun m fil => match typeOfFile k fil with
    | none => m
    | some ty => definitionsGetAddToken ty (entries "definitions" fil w) m) ∅

abbrev ethEntries (w : World) : Token := entries "network" "eth.cfg" w

abbrev aliasEntries (w : World) : Token := entries "network" "additional.cfg" w

/-- The objects a lookup sees, as they stand in the files. -/
def objects (k : Kind) (w : World) : Objects :=
  (match k with
    | .networks => interfaceTypes (ethEntries w) (aliasEntries w) (typedObjects k w)
    | _ => typedObjects k w).sortKeys nameLe

/-- The cache agrees with the files and no alias has lost its interface. -/
structure Settled (w : World) : Prop where
  fresh : Fresh w
  parents : orphans (ethEntries w) (aliasEntries w) = []

theorem typedObjects_congr (k : Kind) {w w' : World} (h : w'.reg = w.reg) :
    typedObjects k w' = typedObjects k w := by
  unfold typedObjects definitionFiles
  rw [h]
  congr 1
  funext m fil
  rw [entries_congr _ _ h]

theorem objects_congr (k : Kind) {w w' : World} (h : w'.reg = w.reg) : objects k w' = objects k w := by
  unfold objects
  cases k <;> simp only [typedObjects_congr _ h,ethEntries,aliasEntries,entries_congr _ _ h]

theorem Settled.congr {w w' : World} (h : Settled w) (hr : w'.reg = w.reg) (hf : Fresh w') :
    Settled w' := by
  refine ⟨hf,?_⟩
  rw [ethEntries,aliasEntries,entries_congr _ _ hr,entries_congr _ _ hr]
  exact h.parents

section Sections

variable {S : Str → Prop} (hS : ∀ sec, S sec → '_' ∉ sec) (hl : ∀ sec, Looked sec → S sec)
include hS hl

theorem foldl_files (k : Kind) (fils : List Str) (m : Objects) {w : World} (h : FreshOn S w) :
    let r := fils.foldl (fun (r : Objects × World) fil =>
      match typeOfFile k fil with
      | none => r
      | some ty =>
        let g := iniTokenGet env "definitions" fil ∅ r.2
        (definitionsGetAddToken ty g.1 r.1,g.2)) (m,w)
    r.1 = fils.foldl (fun m fil => match typeOfFile k fil with
      | none => m
      | some ty => definitionsGetAddToken ty (entries "definitions" fil w) m) m ∧
    r.2.reg = w.reg ∧ FreshOn S r.2 := by
  have hd : S "definitions" := hl _ (Or.inr rfl)
  induction fils generalizing m w with
  | nil => exact ⟨rfl,rfl,h⟩
  | cons fil fils ih =>
    simp only [List.foldl_cons]
    cases typeOfFile k fil with
    | none => exact ih m h
    | some ty =>
      dsimp only
      have hr := iniTokenGet_reg env "definitions" fil ∅ w
      have hi := ih (definitionsGetAddToken ty (iniTokenGet env "definitions" fil ∅ w).1 m)
        (h.iniTokenGet env hS hd fil)
      rw [iniTokenGet_fst env "definitions" fil (h _ _ hd)] at hi ⊢
      simp only [entries_congr _ _ hr] at hi
      exact ⟨hi.1,hi.2.1.trans hr,hi.2.2⟩

/-- A lookup sees what the files hold, and deletes the orphans when it reads the networks. -/
theorem definitionsGet_freshOn (k : Kind) {w : World} (h : FreshOn S w) :
    (definitionsGet pcre env k w).1 = objects k w ∧
    ∃ v, v.reg = w.reg ∧ FreshOn S v ∧ (definitionsGet pcre env k w).2 =
      if k = .networks then (orphans (ethEntries w) (aliasEntries w)).foldl
        (fun w id => (iniTokenDelete pcre env "network" "additional.cfg" id w).2) v
      else v := by
  obtain ⟨hm,hr,hf⟩ := foldl_files env hS hl k (definitionFiles w) ∅ h
  unfold definitionsGet objects
  cases k with
  | networks =>
    have hn : S "network" := hl _ (Or.inl rfl)
    dsimp only at hm hr hf ⊢
    generalize (definitionFiles w).foldl _ _ = r at hm hr hf ⊢
    have he := iniTokenGet_fst env "network" "eth.cfg" (hf _ _ hn)
    have hef := hf.iniTokenGet env hS hn "eth.cfg"
    have her := iniTokenGet_reg env "network" "eth.cfg" ∅ r.2
    have ha := iniTokenGet_fst env "network" "additional.cfg" (hef _ _ hn)
    have haf := hef.iniTokenGet env hS hn "additional.cfg"
    have har := iniTokenGet_reg env "network" "additional.cfg" ∅
      (iniTokenGet env "network" "eth.cfg" ∅ r.2).2
    rw [entries_congr _ _ hr] at he
    rw [entries_congr _ _ (her.trans hr)] at ha
    simp only [definitionsGetInterface,he,ha,hm]
    exact ⟨rfl,_,har.trans (her.trans hr),haf,rfl⟩
  | services => exact ⟨congrArg (fun m : Objects => m.sortKeys nameLe) hm,_,hr,hf,rfl⟩
  | timeevents => exact ⟨congrArg (fun m : Objects => m.sortKeys nameLe) hm,_,hr,hf,rfl⟩

end Sections

theorem definitionsGet_spec (k : Kind) {w : World} (h : Fresh w) :
    (definitionsGet pcre env k w).1 = objects k w ∧
    ∃ v, v.reg = w.reg ∧ Fresh v ∧ (definitionsGet pcre env k w).2 =
      if k = .networks then (orphans (ethEntries w) (aliasEntries w)).foldl
        (fun w id => (iniTokenDelete pcre env "network" "additional.cfg" id w).2) v
      else v := definitionsGet_freshOn pcre env (fun _ => Looked.section_) (fun _ => id) k h

theorem Settled.definitionsGet {w : World} (h : Settled w) (k : Kind) :
    (definitionsGet pcre env k w).2.reg = w.reg ∧ Settled (definitionsGet pcre env k w).2 := by
  obtain ⟨-,v,hr,hf,he⟩ := definitionsGet_spec pcre env k h.fresh
  rw [h.parents] at he
  have hv : (Definitions.definitionsGet pcre env k w).2 = v := by
    rw [he]; split <;> rfl
  rw [hv]
  exact ⟨hr,h.congr hr hf⟩

end Definitions
end Mybox
