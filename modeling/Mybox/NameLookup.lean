import Mybox.UniqueNames
import Mybox.Commands

/-! What a lookup by name finds. The writers keep the names of one file apart, and a lookup goes
through all the files of its section and through the objects of the interfaces. -/
namespace Mybox
namespace Definitions

open Php RegistryFormat Registry References

abbrev entriesOf (f : Str) (w : World) : Token := entries "definitions" f w

/-- The name of a second file for the type `network`. -/
def twin : Str := "network_network.cfg"

theorem typeBetween_some {pre f ty : Str} (h : typeBetween pre f = some ty) :
    f = pre ++ ty ++ (".cfg" : Str) ∧ ∀ c ∈ ty, regexSpace c = false := by
  unfold typeBetween at h
  dsimp only at h
  split at h
  · rename_i hc
    simp only [Option.some.injEq] at h
    subst h
    exact ⟨hc.2.2,by simpa [List.all_eq_true] using hc.2.1⟩
  · simp at h

theorem typeOfFile_black {k : Kind} {f ty : Str} (h : typeOfFile k f = some ty) :
    ∀ c ∈ ty, regexSpace c = false := by
  cases k with
  | networks =>
    simp only [typeOfFile] at h
    split at h
    · simp only [Option.some.injEq] at h
      subst h
      decide
    · exact (typeBetween_some h).2
  | services => exact (typeBetween_some h).2
  | timeevents => exact (typeBetween_some h).2

theorem typeOfFile_inj {k : Kind} {f f' ty : Str} (h : typeOfFile k f = some ty)
    (h' : typeOfFile k f' = some ty) (hf : f ≠ twin) (hf' : f' ≠ twin) : f = f' := by
  have second : ∀ {g : Str}, typeBetween "network_" g = some ("network" : Str) → g = twin := fun hg =>
    (typeBetween_some hg).1
  cases k with
  | networks =>
    simp only [typeOfFile] at h h'
    split at h <;> split at h'
    · rename_i h₁ h₂
      rw [h₁,h₂]
    · simp only [Option.some.injEq] at h
      subst h
      exact absurd (second h') hf'
    · simp only [Option.some.injEq] at h'
      subst h'
      exact absurd (second h) hf
    · exact (typeBetween_some h).1.trans (typeBetween_some h').1.symm
  | services => exact (typeBetween_some h).1.trans (typeBetween_some h').1.symm
  | timeevents => exact (typeBetween_some h).1.trans (typeBetween_some h').1.symm

theorem definitionsFile_ne_twin (k : Kind) (type : Str) : definitionsFile k type ≠ twin := by
  cases k with
  | networks =>
    unfold definitionsFile
    dsimp only
    split
    · decide
    · rename_i hl
      intro he
      have ht : type = ("network" : Str) := by
        have hd := congrArg (fun s : Str => (s.drop 8).reverse.drop 4) he
        have : type.reverse = ("network" : Str).reverse := by
          simpa [twin,Str.of_ascii,List.drop_append] using hd
        exact List.reverse_injective this
      exact hl (by rw [ht]; exact looseEq_self _)
  | services => exact fun he => absurd (Option.some.inj (congrArg List.head? he : some 's' = some 'n')) (by decide)
  | timeevents => exact fun he => absurd (Option.some.inj (congrArg List.head? he : some 't' = some 'n')) (by decide)

theorem mem_definitionFiles {f : Str} {w : World} (h : entriesOf f w ≠ ∅) : f ∈ definitionFiles w := by
  have hk : w.reg.get? ("definitions",f) ≠ none := by
    intro hn
    apply h
    rw [entriesOf,entries,text,OrdMap.getD,hn]
    rfl
  unfold definitionFiles
  rw [List.mem_insertionSort,List.mem_map]
  refine ⟨("definitions",f),List.mem_filter.mpr ⟨?_,by simp⟩,rfl⟩
  by_contra hm
  exact hk (OrdMap.get?_eq_none.mpr hm)

def addFile (k : Kind) (w : World) (m : Objects) (f : Str) : Objects :=
  match typeOfFile k f with
  | none => m
  | some ty => definitionsGetAddToken ty (entriesOf f w) m

theorem addFile_get? {k : Kind} {w : World} {m : Objects} {f ty : Str} {t : Token} :
    (addFile k w m f).get? ty = some t ↔
      typeOfFile k f = some ty ∧ entriesOf f w ≠ ∅ ∧ entriesOf f w = t ∨
      ¬(typeOfFile k f = some ty ∧ entriesOf f w ≠ ∅) ∧ m.get? ty = some t := by
  unfold addFile definitionsGetAddToken
  cases hty : typeOfFile k f with
  | none => simp
  | some ty' =>
    dsimp only
    by_cases he : entriesOf f w = ∅
    · simp [he,OrdMap.isEmpty_iff.mpr rfl]
    · rw [if_neg (by rw [OrdMap.isEmpty_iff]; exact he),OrdMap.get?_set]
      by_cases hy : ty' = ty
      · simp [hy,he]
      · simp [hy]

theorem typedObjects_eq (k : Kind) (w : World) :
    typedObjects k w = (definitionFiles w).foldl (addFile k w) ∅ := rfl

theorem typedObjects_some {k : Kind} {w : World} {ty : Str} {t : Token}
    (h : (typedObjects k w).get? ty = some t) : ∃ f, typeOfFile k f = some ty ∧ entriesOf f w = t := by
  have fold : ∀ (fils : List Str) (m : Objects), (fils.foldl (addFile k w) m).get? ty = some t →
      m.get? ty = some t ∨ ∃ f, typeOfFile k f = some ty ∧ entriesOf f w = t := by
    intro fils
    induction fils with
    | nil => exact fun _ h => Or.inl h
    | cons f fils ih =>
      intro m h
      rcases ih _ h with h | h
      · rcases addFile_get?.mp h with ⟨h₁,-,h₂⟩ | ⟨-,h⟩
        · exact Or.inr ⟨f,h₁,h₂⟩
        · exact Or.inl h
      · exact Or.inr h
  rw [typedObjects_eq] at h
  rcases fold _ _ h with h | h
  · simp at h
  · exact h

theorem typedObjects_ne {k : Kind} {w : World} {ty : Str} {t : Token} (h : (typedObjects k w).get? ty = some t) :
    t ≠ ∅ := by
  have fold : ∀ (fils : List Str) (m : Objects), (∀ t, m.get? ty = some t → t ≠ ∅) →
      ∀ t, (fils.foldl (addFile k w) m).get? ty = some t → t ≠ ∅ := by
    intro fils
    induction fils with
    | nil => exact fun _ hm => hm
    | cons f fils ih =>
      refine fun m hm => ih _ fun t ht => ?_
      rcases addFile_get?.mp ht with ⟨-,hne,he⟩ | ⟨-,ht⟩
      · exact he ▸ hne
      · exact hm t ht
  exact fold _ _ (by simp) t h

/-- The only file of a type, when it is not empty, gives the objects of the type. -/
theorem typedObjects_only {k : Kind} {w : World} {f ty : Str} (h : typeOfFile k f = some ty)
    (hf : entriesOf f w ≠ ∅) (ho : ∀ g, typeOfFile k g = some ty → entriesOf g w ≠ ∅ → g = f) :
    (typedObjects k w).get? ty = some (entriesOf f w) := by
  have kept : ∀ {m : Objects} {g : Str}, m.get? ty = some (entriesOf f w) →
      (addFile k w m g).get? ty = some (entriesOf f w) := by
    intro m g hm
    rw [addFile_get?]
    by_cases hg : typeOfFile k g = some ty ∧ entriesOf g w ≠ ∅
    · exact Or.inl ⟨hg.1,hg.2,by rw [ho g hg.1 hg.2]⟩
    · exact Or.inr ⟨hg,hm⟩
  have fold : ∀ (fils : List Str) (m : Objects), f ∈ fils ∨ m.get? ty = some (entriesOf f w) →
      (fils.foldl (addFile k w) m).get? ty = some (entriesOf f w) := by
    intro fils
    induction fils with
    | nil => exact fun _ hm => hm.resolve_left (by simp)
    | cons g fils ih =>
      rintro m (hm | hm)
      · rcases List.mem_cons.mp hm with rfl | hm
        · exact ih _ (Or.inr (addFile_get?.mpr (Or.inl ⟨h,hf,rfl⟩)))
        · exact ih _ (Or.inl hm)
      · exact ih _ (Or.inr (kept hm))
  exact fold _ _ (Or.inl (mem_definitionFiles hf))

theorem typedObjects_file {k : Kind} {w : World} {f ty : Str} (ht : entriesOf twin w = ∅)
    (h : typeOfFile k f = some ty) (hf : entriesOf f w ≠ ∅) :
    (typedObjects k w).get? ty = some (entriesOf f w) := by
  refine typedObjects_only h hf fun g hg hne => ?_
  exact typeOfFile_inj hg h (fun he => hne (he ▸ ht)) fun he => hf (he ▸ ht)

def interfaceTokens (w : World) : List Token :=
  [interfaceObjects ethBcast aliasBcast (ethEntries w) (aliasEntries w),
    interfaceObjects ethNetwork aliasNetwork (ethEntries w) (aliasEntries w),
    interfaceObjects ethAddress aliasAddress (ethEntries w) (aliasEntries w)]

theorem addToken_some {key ty : Str} {t u : Token} {m : Objects}
    (h : (definitionsGetAddToken key t m).get? ty = some u) : u = t ∨ m.get? ty = some u := by
  unfold definitionsGetAddToken at h
  split at h
  · exact Or.inr h
  · rw [OrdMap.get?_set] at h
    split at h
    · simp only [Option.some.injEq] at h
      exact Or.inl h.symm
    · exact Or.inr h

theorem addToken_ne {key ty : Str} (t : Token) (m : Objects) (h : key ≠ ty) :
    (definitionsGetAddToken key t m).get? ty = m.get? ty := by
  unfold definitionsGetAddToken
  split
  · rfl
  · exact OrdMap.get?_set_ne _ _ h

/-- The objects of a section are those of its files and, for the networks, of the interfaces. -/
theorem mem_objects {k : Kind} {w : World} {ty : Str} {t : Token} (h : (ty,t) ∈ (objects k w).entries) :
    (typedObjects k w).get? ty = some t ∨ k = .networks ∧ t ∈ interfaceTokens w := by
  have hg := (OrdMap.mem_entries_sortKeys _).mp h
  rw [← OrdMap.get?_eq_some] at hg
  cases k with
  | networks =>
    rcases addToken_some hg with rfl | hg
    · exact Or.inr ⟨rfl,by simp [interfaceTokens]⟩
    · rcases addToken_some hg with rfl | hg
      · exact Or.inr ⟨rfl,by simp [interfaceTokens]⟩
      · rcases addToken_some hg with rfl | hg
        · exact Or.inr ⟨rfl,by simp [interfaceTokens]⟩
        · exact Or.inl hg
  | services => exact Or.inl hg
  | timeevents => exact Or.inl hg

theorem objects_mem {k : Kind} {w : World} {ty : Str} {t : Token} (hb : ∀ c ∈ ty, regexSpace c = false)
    (h : (typedObjects k w).get? ty = some t) : (ty,t) ∈ (objects k w).entries := by
  refine (OrdMap.mem_entries_sortKeys _).mpr (OrdMap.get?_eq_some.mp ?_)
  have hne : ∀ key : Str, ' ' ∈ key → key ≠ ty := by
    rintro key hk rfl
    exact absurd (hb ' ' hk) (by decide)
  cases k with
  | networks =>
    rw [interfaceTypes,addToken_ne _ _ (hne _ (by decide)),addToken_ne _ _ (hne _ (by decide)),
      addToken_ne _ _ (hne _ (by decide))]
    exact h
  | services => exact h
  | timeevents => exact h

/-- An entry of a definition file of the section has the name. -/
structure Stored (k : Kind) (w : World) (f i n : Str) : Prop where
  typed : typeOfFile k f ≠ none
  name : nameIn (entriesOf f w) i = n
  ne : n ≠ []

def Derived (k : Kind) (w : World) (n : Str) : Prop :=
  k = .networks ∧ ∃ t ∈ interfaceTokens w, ∃ i, nameIn t i = n

/-- No two objects of the section pass for one another by name. -/
structure Distinct (k : Kind) (w : World) : Prop where
  stored : ∀ {f i n f' j m}, Stored k w f i n → Stored k w f' j m → looseEq n m = true → f = f' ∧ i = j
  derived : ∀ {f i n m}, Stored k w f i n → Derived k w m → looseEq n m = false

theorem nameIn_get? {t : Token} {i : Str} {p : Params} (h : t.get? i = some p) : nameIn t i = p.val "NAME" := by
  rw [nameIn,OrdMap.getD,h]
  rfl

theorem looseEq_nil {n : Str} (h : n ≠ []) : looseEq [] n = false := by
  have hn : numeric [] = none := by decide
  simp [looseEq,hn,Ne.symm h]

/-- A state whose names come from those of another state, but for one new name in one file. -/
theorem Distinct.step {k : Kind} {w w' : World} (h : Distinct k w) {g m : Str} {s : Str → Str → Prop}
    (hu : ∀ f, typeOfFile k f ≠ none → NamesUnique (entriesOf f w'))
    (hn : ∀ {f i n}, Stored k w' f i n → (∃ j, s f j ∧ Stored k w f j n) ∨ f = g ∧ n = m)
    (hm : ∀ {f j n}, s f j → Stored k w f j n → looseEq m n = false)
    (hd : ∀ {n}, n ≠ [] → Derived k w' n → Derived k w n) (hmd : ∀ {n}, n ≠ [] → Derived k w n → looseEq m n = false) :
    Distinct k w' := by
  have same : ∀ {f i j n}, Stored k w' f i n → Stored k w' f j n → i = j := fun hi hj =>
    hu _ hi.typed _ _ (by rw [hi.name]; exact hi.ne) (hi.name.trans hj.name.symm)
  constructor
  · intro f i n f' j n' hi hj hl
    rcases hn hi with ⟨p,hp,hs⟩ | ⟨rfl,rfl⟩ <;> rcases hn hj with ⟨q,hq,hs'⟩ | ⟨rfl,rfl⟩
    · obtain ⟨rfl,rfl⟩ := h.stored hs hs' hl
      obtain rfl : n = n' := hs.name.symm.trans hs'.name
      exact ⟨rfl,same hi hj⟩
    · rw [looseEq_comm,hm hp hs] at hl
      simp at hl
    · rw [hm hq hs'] at hl
      simp at hl
    · exact ⟨rfl,same hi hj⟩
  · intro f i n d hi hd'
    by_cases hne : d = []
    · rw [hne,looseEq_comm]
      exact looseEq_nil hi.ne
    · rcases hn hi with ⟨p,-,hs⟩ | ⟨-,rfl⟩
      · exact h.derived hs (hd hne hd')
      · exact hmd hne (hd hne hd')

variable (pcre : Pcre) (env : Env)

/-- The lookup of the name of a stored object finds the object. -/
theorem definitionsGetByname_stored {k : Kind} {w : World} (hf : Fresh w) (ht : entriesOf twin w = ∅)
    (hd : Distinct k w) {f ty i : Str} {p : Params} (hty : typeOfFile k f = some ty)
    (hp : (entriesOf f w).get? i = some p) (hn : p.val "NAME" ≠ []) (itoken : Params) :
    (definitionsGetByname pcre env k (p.val "NAME") itoken [] w).1 =
      (p.set "__DATA_SECTION" k.name).set "__DATA_TYPE" ty := by
  have hs : Stored k w f i (p.val "NAME") := ⟨by simp [hty],nameIn_get? hp,hn⟩
  have hfe : entriesOf f w ≠ ∅ := by
    rintro he
    rw [he] at hp
    simp at hp
  have hmem : (ty,entriesOf f w) ∈ (objects k w).entries :=
    objects_mem (typeOfFile_black hty) (typedObjects_file ht hty hfe)
  have hobj := (definitionsGet_spec pcre env k hf).1
  have hfind : findParam k (objects k w) "NAME" (p.val "NAME") [] =
      some ((p.set "__DATA_SECTION" k.name).set "__DATA_TYPE" ty) := by
    have hsome : findParam k (objects k w) "NAME" (p.val "NAME") [] ≠ none := by
      unfold findParam
      rw [Ne,List.findSome?_eq_none_iff]
      intro hall
      have hx := hall _ hmem
      rw [if_neg (by simp),Option.map_eq_none_iff,List.find?_eq_none] at hx
      exact hx (i,p) (OrdMap.get?_eq_some.mp hp) (by simp [null_false_iff.mpr hn])
    obtain ⟨o,ho⟩ := Option.ne_none_iff_exists'.mp hsome
    rw [ho]
    unfold findParam at ho
    obtain ⟨⟨ty',t⟩,hm,hx⟩ := List.exists_of_findSome?_eq_some ho
    rw [if_neg (by simp)] at hx
    obtain ⟨⟨j,q⟩,hq,rfl⟩ := Option.map_eq_some_iff.mp hx
    have hqm : (j,q) ∈ t.entries := List.mem_of_find?_eq_some hq
    have hqn := List.find?_some hq
    simp only [Bool.and_eq_true,Bool.not_eq_true',null_false_iff] at hqn
    have hqt := OrdMap.get?_eq_some.mpr hqm
    rcases mem_objects hm with hobj | ⟨hk,hobj⟩
    · obtain ⟨g,hg,rfl⟩ := typedObjects_some hobj
      obtain ⟨rfl,rfl⟩ := hd.stored ⟨by simp [hg],nameIn_get? hqt,hqn.1⟩ hs hqn.2
      rw [hg,Option.some.injEq] at hty
      rw [hqt,Option.some.injEq] at hp
      rw [hty,hp]
    · have hdn : Derived k w (q.val "NAME") := ⟨hk,t,hobj,j,nameIn_get? hqt⟩
      rw [looseEq_comm,hd.derived hs hdn] at hqn
      exact absurd hqn.2 (by simp)
  unfold definitionsGetByname definitionsGetByparam
  dsimp only
  rw [hobj,hfind]

/-- Lines leave an entry its name, give it one of theirs, or none. -/
theorem readLines_nameIn (ls : List Str) (st : Reading) (i : Str) :
    nameIn (ls.foldl readLine st).token i = nameIn st.token i ∨
    nameIn (ls.foldl readLine st).token i ∈ lineNames ls ∨ nameIn (ls.foldl readLine st).token i = [] := by
  induction ls generalizing st with
  | nil => exact Or.inl rfl
  | cons l ls ih =>
    rw [List.foldl_cons,lineNames_cons]
    rcases ih (readLine st l) with h | h | h
    · rcases @readLine_nameIn st l i with h' | h'
      · exact Or.inl (h.trans h')
      · by_cases hl : nameOn l = []
        · exact Or.inr (Or.inr (by rw [h,h',hl]))
        · refine Or.inr (Or.inl (List.mem_append_left _ (mem_lineNames.mpr ⟨?_,l,by simp,?_⟩)))
          · rwa [h,h']
          · rw [h,h']
    · exact Or.inr (Or.inl (List.mem_append_right _ h))
    · exact Or.inr (Or.inr h)

theorem readText_nameIn {s i : Str} (h : nameIn (readText s ∅) i ≠ []) : nameIn (readText s ∅) i ∈ namesOn s := by
  rcases readLines_nameIn (file s) ⟨[],∅⟩ i with hs | hs | hs
  · exact absurd hs h
  · exact hs
  · exact absurd hs h

theorem writeText_nameIn {t : Token} (h : Lined t) {n : Str} (hn : n ∈ namesOn (writeText t)) :
    ∃ j, carried (nameIn t j) = n := by
  have hm := (namesOn_writeText h).subset hn
  obtain ⟨e,he,rfl⟩ := List.mem_map.mp (List.mem_filter.mp hm).1
  exact ⟨e.1,by rw [nameIn_get? (OrdMap.get?_eq_some.mpr (show (e.1,e.2) ∈ t.entries from he))]⟩

/-- The calls that write definitions. -/
inductive Call
  | save (k : Kind) (type : Str) (data : Params)
  | update (k : Kind) (type id : Str) (data : Params)
  | delete (k : Kind) (type id : Str)

/-- No result where the key loop of a save has not ended. -/
def Call.run : Call → World → Option World
  | save k type data, w => (definitionsSave env k type data w).map Prod.snd
  | update k type id data, w => some (definitionsUpdate env k type id data w).2
  | delete k type id, w => some (definitionsDelete pcre env k type id w).2

def Call.data : Call → Params
  | save _ _ data => data
  | update _ _ _ data => data
  | delete _ _ _ => ∅

/-- In the sections that have the file, no object but the entry that gets the name has it or passes
for it, and no object of an interface. -/
def Free (w : World) (f₀ : Str) (own : Option Str) (n : Str) : Prop :=
  ∀ k, typeOfFile k f₀ ≠ none → n ≠ [] →
    (∀ {f i m}, Stored k w f i m → ¬(f = f₀ ∧ own = some i) → looseEq n m = false) ∧
    ∀ {m}, Derived k w m → looseEq n m = false

/-- Taking a name out of the registry gives no definition and no interface another one. -/
def NamesSpared (n : Str) (w : World) : Prop :=
  ∀ k, (∀ f i, typeOfFile k f ≠ none → nameIn (entriesOf f (iniTokenRemove pcre env n [] w)) i = [] ∨
      nameIn (entriesOf f (iniTokenRemove pcre env n [] w)) i = nameIn (entriesOf f w) i) ∧
    ∀ m, m ≠ [] → Derived k (iniTokenRemove pcre env n [] w) m → Derived k w m

/-- The name given is free as it is read back, and a deletion takes out no more than names. -/
def Call.Clear (w : World) : Call → Prop
  | save k type data => Given data ∧ Free w (definitionsFile k type) none (carried (data.val "NAME"))
  | update k type id data =>
    Given data ∧ Free w (definitionsFile k type) (some id) (carried (data.val "NAME"))
  | delete k type id => nameOf "definitions" (definitionsFile k type) id w ≠ [] →
      NamesSpared pcre env (nameOf "definitions" (definitionsFile k type) id w)
        (without env "definitions" (definitionsFile k type) id w)

/-- Definition files with ended lines, one file for each type and distinct names. -/
structure Named (w : World) : Prop where
  ended : ∀ f, LineEnded (text "definitions" f w)
  twin : w.reg.get? ("definitions",twin) = none
  distinct : ∀ k, Distinct k w

theorem erase_fresh (o : Str) {w : World} (h : Fresh w) : Fresh { w with obj := w.obj.erase o } := by
  intro sec fil hs
  by_cases he : o = objName sec fil
  · exact Or.inl (by simp [fileArrayGet,he,OrdMap.get?_erase])
  · exact @coherent_congr sec fil w _ rfl
      (by simp only [fileArrayGet,OrdMap.get?_erase,if_neg he]) (h sec fil hs)

theorem unlinkPrint_fresh (k : Kind) {w : World} (h : Fresh w) : Fresh (unlinkPrint k w) := erase_fresh _ h

theorem derived_congr {k : Kind} {w w' : World} (h : ∀ fil, text "network" fil w' = text "network" fil w) :
    Derived k w' = Derived k w := by
  funext n
  have he : ∀ fil, entries "network" fil w' = entries "network" fil w := fun fil => by
    rw [entries,entries,h]
  simp only [Derived,interfaceTokens,ethEntries,aliasEntries,he]

theorem stored_congr {k : Kind} {w w' : World} (h : w'.reg = w.reg) {f i n : Str} :
    Stored k w' f i n ↔ Stored k w f i n := by
  have he : entriesOf f w' = entriesOf f w := entries_congr _ _ h
  exact ⟨fun hs => ⟨hs.typed,by rw [← he]; exact hs.name,hs.ne⟩,
    fun hs => ⟨hs.typed,by rw [he]; exact hs.name,hs.ne⟩⟩

theorem Named.congr {w w' : World} (h : Named w) (hr : w'.reg = w.reg) : Named w' := by
  have hd : ∀ k, Derived k w' = Derived k w := fun k => derived_congr fun fil => by rw [text,text,hr]
  refine ⟨fun f => by rw [text,hr]; exact h.ended f,by rw [hr]; exact h.twin,fun k => ⟨?_,?_⟩⟩
  · exact fun hi hj => (h.distinct k).stored ((stored_congr hr).mp hi) ((stored_congr hr).mp hj)
  · exact fun hi hj => (h.distinct k).derived ((stored_congr hr).mp hi) (by rw [← hd]; exact hj)

/-- A call that replaces the text of one definition file. -/
theorem Named.rewrite {w w' : World} (h : Named w) {f₀ x : Str} (hw : w'.reg = w.reg.set ("definitions",f₀) x)
    (hl : LineEnded x) (ht : f₀ ≠ Definitions.twin) {n : Str} {o : Option Str}
    (hu : ∀ k, typeOfFile k f₀ ≠ none → NamesUnique (readText x ∅)) (hn : ∀ i, nameIn (readText x ∅) i ≠ [] →
      (∃ j, o ≠ some j ∧ nameIn (entriesOf f₀ w) j = nameIn (readText x ∅) i) ∨ nameIn (readText x ∅) i = n)
    (hfree : Free w f₀ o n) : Named w' := by
  have ho := entries_done hw
  have hne : ∀ {sec f}, (sec,f) ≠ (("definitions" : Str),f₀) → text sec f w' = text sec f w := by
    intro sec f hx
    rw [text,text,hw,OrdMap.getD,OrdMap.getD,OrdMap.get?_set_ne _ _ (Ne.symm hx)]
  have other : ∀ {f}, f ≠ f₀ → entriesOf f w' = entriesOf f w := fun hx => by
    have ht := @hne "definitions" _ (by simpa using hx)
    exact congrArg (readText · ∅) ht
  refine ⟨fun f => ?_,?_,fun k => ?_⟩
  · by_cases hx : f = f₀
    · rw [hx,ho.1]
      exact hl
    · rw [hne (by simpa using hx)]
      exact h.ended f
  · rw [hw,OrdMap.get?_set_ne _ _ (by simpa using ht)]
    exact h.twin
  · have hd := h.distinct k
    have hdk : Derived k w' = Derived k w := derived_congr fun fil => hne (by
      intro he
      have hs : ("network" : Str) = ("definitions" : Str) := congrArg Prod.fst he
      exact absurd hs (by decide))
    by_cases hty : typeOfFile k f₀ = none
    · -- the section does not have the file
      have hs : ∀ {f i n}, Stored k w' f i n → Stored k w f i n := fun hi =>
        ⟨hi.typed,by rw [← other (by rintro rfl; exact hi.typed hty)]; exact hi.name,hi.ne⟩
      exact ⟨fun hi hj => hd.stored (hs hi) (hs hj),fun hi hj => hd.derived (hs hi) (by rw [← hdk]; exact hj)⟩
    · refine hd.step (g := f₀) (m := n) (s := fun f j => ¬(f = f₀ ∧ o = some j)) ?_ ?_ ?_ ?_ ?_
      · intro f hft
        by_cases hx : f = f₀
        · rw [hx,entriesOf,ho.2]
          exact hu k hty
        · rw [other hx]
          intro i j hi hij
          exact (hd.stored ⟨hft,rfl,hi⟩ ⟨hft,rfl,by rwa [← hij]⟩ (by rw [hij]; exact looseEq_self _)).2
      · intro f i m hi
        by_cases hx : f = f₀
        · subst hx
          have hm := hi.name
          rw [entriesOf,ho.2] at hm
          rcases hn i (by rw [hm]; exact hi.ne) with ⟨j,hj,hjn⟩ | hin
          · exact Or.inl ⟨j,fun hc => hj hc.2,hi.typed,hjn.trans hm,hi.ne⟩
          · exact Or.inr ⟨rfl,hm.symm.trans hin⟩
        · exact Or.inl ⟨i,fun hc => hx hc.1,hi.typed,by rw [← other hx]; exact hi.name,hi.ne⟩
      · intro f j m hk hs
        by_cases hn' : n = []
        · rw [hn']
          exact looseEq_nil hs.ne
        · exact (hfree k hty hn').1 hs hk
      · intro m _ hm
        rwa [← hdk]
      · intro m hm hdm
        by_cases hn' : n = []
        · rw [hn']
          exact looseEq_nil hm
        · exact (hfree k hty hn').2 hdm

theorem Free.unused {w : World} {f₀ n : Str} {own : Option Str} (h : Free w f₀ own n) {k : Kind}
    (hty : typeOfFile k f₀ ≠ none) {i : Str} (hi : own ≠ some i) (hn : nameIn (entriesOf f₀ w) i = n) : n = [] := by
  by_contra hne
  have hl := (h k hty hne).1 ⟨hty,hn,hne⟩ fun hc => hi hc.2
  rw [looseEq_self] at hl
  simp at hl

theorem Distinct.unique {k : Kind} {w : World} (h : Distinct k w) {f : Str} (hf : typeOfFile k f ≠ none) :
    NamesUnique (entriesOf f w) := fun _ _ hi hij =>
  (h.stored ⟨hf,rfl,hi⟩ ⟨hf,rfl,by rwa [← hij]⟩ (by rw [hij]; exact looseEq_self _)).2

theorem save_named {w : World} (h : Named w) {f₀ : Str} {data : Params} {r : Ret × World}
    (hc : Coherent "definitions" f₀ w) (ht : f₀ ≠ twin) (hd : Given data)
    (hf : Free w f₀ none (carried (data.val "NAME")))
    (hr : iniTokenSave env "definitions" f₀ data w = some r) : Named r.2 := by
  rcases iniTokenSave_spec env _ _ hc hr with ⟨id,d,hid,hdd,hw,-⟩ | ⟨hx,hw⟩
  · by_cases ho : r.1 = .ok
    · refine h.rewrite (hw.done ho) (lineEnded_saveText env _ _ _) ht (fun k hty => ?_) (fun i hi => ?_) hf
      · have hu := save_unique env hc (h.ended f₀) ((h.distinct k).unique hty) hd
          (Or.inr (Or.inr fun i hi => hf.unused hty (by simp) hi)) hr
        rwa [(entries_done (hw.done ho)).2] at hu
      · rw [readText,file_append (h.ended f₀),List.foldl_append] at hi ⊢
        rcases readLines_nameIn (file (saveText env id d)) ((file (text "definitions" f₀ w)).foldl readLine ⟨[],∅⟩) i
          with hs | hs | hs
        · exact Or.inl ⟨i,by simp,hs.symm⟩
        · have hm := (namesOn_saved env hd hid hdd).subset hs
          exact Or.inr (List.mem_singleton.mp (List.mem_filter.mp hm).1)
        · exact absurd hs hi
    · exact h.congr (hw.refused ho)
  · exact h.congr ((hw []).refused (by rw [hx]; simp))

/-- An update with a free name. -/
theorem update_named {w : World} (h : Named w) {f₀ id : Str} {data : Params}
    (hc : Coherent "definitions" f₀ w) (ht : f₀ ≠ twin) (hd : Given data)
    (hf : Free w f₀ (some id) (carried (data.val "NAME"))) :
    Named (iniTokenUpdate env "definitions" f₀ id data w).2 := by
  rcases iniTokenUpdate_spec env "definitions" f₀ id data hc with ⟨p,hp,hw⟩ | ⟨hx,-,hw⟩
  · by_cases ho : (iniTokenUpdate env "definitions" f₀ id data w).1 = .ok
    · have hl := readText_lined (text "definitions" f₀ w)
      have hlt : Lined ((entriesOf f₀ w).set id (merge p data)) := by
        rw [merge_eq_setAll]
        refine hl.set (hl.ident (id,p) (OrdMap.get?_eq_some.mp hp)) fun x hx => ?_
        rcases mem_setAll hx with hx | hx
        · exact hl.param (id,p) (OrdMap.get?_eq_some.mp hp) x hx
        · exact hd.oneLine x hx
      have hval : Params.val (merge p data) "NAME" = (data.get? "NAME").getD (p.val "NAME") := by
        rw [merge_eq_setAll,setAll_val]
      -- with no name given the entry keeps its own, with one given it loses it
      refine h.rewrite (o := if data.get? "NAME" = none then none else some id)
        (n := if data.get? "NAME" = none then [] else carried (data.val "NAME"))
        (hw.done ho) (lineEnded_updateText env _) ht (fun k hty => ?_) (fun i hi => ?_) ?_
      · have hu := @update_unique env _ _ _ id _ hc ((h.distinct k).unique hty) hd fun q _ =>
          Or.inr fun i hi => by
            rw [nameIn_erase] at hi
            split at hi
            · exact hi.symm
            · rename_i hne
              exact hf.unused hty (by simpa using hne) hi
        rwa [(entries_done (hw.done ho)).2] at hu
      · have hm := readText_nameIn hi
        rw [namesOn_updateText] at hm
        obtain ⟨j,hj⟩ := writeText_nameIn hlt hm
        rw [nameIn_set] at hj
        by_cases hij : id = j
        · rw [if_pos hij,hval] at hj
          cases hg : data.get? "NAME" with
          | none =>
            rw [hg,Option.getD_none,← nameIn_get? hp] at hj
            refine Or.inl ⟨id,by simp,?_⟩
            rw [← hj]
            exact (carried_nameIn _ _).symm
          | some v =>
            rw [hg,Option.getD_some] at hj
            right
            rw [if_neg (by simp),← hj,Params.val,OrdMap.getD,hg]
            rfl
        · rw [if_neg hij] at hj
          refine Or.inl ⟨j,?_,?_⟩
          · split <;> simp [hij]
          · rw [← hj]
            exact (carried_nameIn _ _).symm
      · split
        · exact fun _ _ hn => absurd rfl hn
        · exact hf
    · exact h.congr (hw.refused ho)
  · exact h.congr ((hw []).refused (by rw [hx]; simp))

/-- Taking out an entry. -/
theorem without_named {w : World} (h : Named w) (f₀ id : Str) (ht : f₀ ≠ twin) :
    Named (without env "definitions" f₀ id w) := by
  have hl := (readText_lined (text "definitions" f₀ w)).erase id
  refine h.rewrite (o := some id) (n := []) rfl (lineEnded_deleteText env _) ht (fun k hty => ?_) (fun i hi => ?_)
    fun _ _ hn => absurd rfl hn
  · refine readText_unique ?_
    rw [namesOn_deleteText]
    refine (names_nodup fun i j hi hij => ?_).sublist (namesOn_writeText hl)
    have hcar : ∀ i, carried (nameIn ((entriesOf f₀ w).erase id) i) = nameIn ((entriesOf f₀ w).erase id) i := by
      intro i
      rw [nameIn_erase]
      split
      · rfl
      · exact carried_nameIn _ i
    rw [hcar] at hi
    rw [hcar,hcar] at hij
    exact (((h.distinct k).unique hty).erase id) i j hi hij
  · have hm := readText_nameIn hi
    rw [namesOn_deleteText] at hm
    obtain ⟨j,hj⟩ := writeText_nameIn hl hm
    rw [nameIn_erase] at hj
    split at hj
    · exact absurd hj.symm hi
    · rename_i hne
      exact Or.inl ⟨j,by simpa using hne,by rw [← hj]; exact (carried_nameIn _ _).symm⟩

theorem remove_named {w : World} {n : Str} (h : Named w) (hn : NamesSpared pcre env n w) :
    Named (iniTokenRemove pcre env n [] w) := by
  refine ⟨fun f => iniTokenRemove_ended pcre env n [] _ _ (h.ended f),?_,fun k => ?_⟩
  · unfold iniTokenRemove
    split
    · exact h.twin
    · simp only [iniObjectCleanAll,OrdMap.get?_mapEntries,h.twin,Option.map_none]
  · have hst : ∀ {f i m}, Stored k (iniTokenRemove pcre env n [] w) f i m → Stored k w f i m := by
      intro f i m hi
      refine ⟨hi.typed,?_,hi.ne⟩
      rcases (hn k).1 _ _ hi.typed with he | he
      · exact absurd (hi.name.symm.trans he) hi.ne
      · rw [← he]
        exact hi.name
    refine ⟨fun hi hj => (h.distinct k).stored (hst hi) (hst hj),fun {_ _ _ m} hi hj => ?_⟩
    by_cases hm : m = []
    · rw [hm,looseEq_comm]
      exact looseEq_nil hi.ne
    · exact (h.distinct k).derived (hst hi) ((hn k).2 m hm hj)

theorem delete_named {w : World} (h : Named w) {f₀ id : Str} (hc : Coherent "definitions" f₀ w) (ht : f₀ ≠ twin)
    (hn : nameOf "definitions" f₀ id w ≠ [] →
      NamesSpared pcre env (nameOf "definitions" f₀ id w) (without env "definitions" f₀ id w)) :
    Named (iniTokenDelete pcre env "definitions" f₀ id w).2 := by
  have hw := without_named env h f₀ id ht
  refine Named.congr ?_ (iniTokenDelete_deleted pcre env id hc)
  unfold deleted
  split
  · split
    · exact hw
    · rename_i hne
      exact remove_named pcre env hw (hn fun he => hne (null_iff.mpr he))
  · exact h

def Emptied (_ v v' : Str) : Prop := v' = v ∨ v' = []

theorem val_emptied {p p' : Params} (h : OrdMap.Rel Emptied p p') (k : Str) :
    p'.val k = p.val k ∨ p'.val k = [] := by
  rw [Params.val,Params.val,OrdMap.getD,OrdMap.getD]
  rcases h.get? k with ⟨h₁,h₂⟩ | ⟨v,v',h₁,h₂,hv⟩
  · rw [h₁,h₂]
    exact Or.inl rfl
  · rw [h₁,h₂]
    exact hv

theorem nameIn_emptied {t t' : Token} (h : TokenRel Emptied t t') (i : Str) :
    nameIn t' i = nameIn t i ∨ nameIn t' i = [] := by
  rw [nameIn,nameIn,OrdMap.getD,OrdMap.getD]
  rcases h.get? i with ⟨h₁,h₂⟩ | ⟨p,p',h₁,h₂,hp⟩
  · rw [h₁,h₂]
    exact Or.inl rfl
  · rw [h₁,h₂]
    exact val_emptied hp _

/-- Taking out a plain name that is no part of a key empties values. -/
theorem entries_emptied {n sec fil : Str} (hn : PlainName n) (hk : ∀ k ∈ referenceKeys, ¬ n <:+: k)
    (hf : isCfg (sec,fil) = true) (w : World) :
    TokenRel Emptied (entries sec fil w) (entries sec fil (iniTokenRemove pcre env n [] w)) := by
  by_cases hs : env.strg = true
  · exact (iniTokenRemove_rel pcre env (fun n => Or.inl rfl) hs hf fun l hl =>
      removeLine_rel pcre hn newName_nil hk (isLine_of_mem hl) (fun _ _ _ => Or.inr rfl)
        fun _ _ _ _ => Or.inl rfl).1
  · have ht := text_iniTokenRemove pcre env n [] (sec,fil) w
    simp only at ht
    rw [removeFile,if_neg (by simp [hs])] at ht
    rw [entries,entries,ht]
    exact readText_rel (fun _ => Or.inl rfl) (List.forall₂_same.mpr fun _ _ => .same fun _ _ _ => Or.inl rfl)

def Naming (fields : Params → List (Str × Str)) (g : Str → Str → Str) : Prop :=
  ∀ (d p : Params), Params.val (p.setAll (fields d)) "NAME" = g (d.val "NAME") (d.val "PNAME")

theorem objectFields_name (p d : Params) (n addr note : Str) :
    Params.val (p.setAll (objectFields n addr note d)) "NAME" = n := by
  have hg : (p.setAll (objectFields n addr note d)).get? "NAME" = some n :=
    OrdMap.get?_setAll_of_mem p (by decide : (["NAME","ADDR","NOTE","__DATA_ID"] : List Str).Nodup) List.mem_cons_self
  rw [Params.val,OrdMap.getD,hg]
  rfl

theorem derive_nameIn {fields : Params → List (Str × Str)} {g : Str → Str → Str} (h : Naming fields g)
    (keep : Params → Bool) (t a : Token) (i : Str) : nameIn (derive fields keep t a) i =
      match t.get? i with
      | some d => if null (d.val "NAME") || !keep d then nameIn a i else g (d.val "NAME") (d.val "PNAME")
      | none => nameIn a i := by
  have fold : ∀ (es : List (Str × Params)), (es.map Prod.fst).Nodup → ∀ a : Token,
      nameIn (es.foldl (fun a e => if null (e.2.val "NAME") || !keep e.2 then a
        else a.set e.1 ((a.getD e.1 ∅).setAll (fields e.2))) a) i =
      match OrdMap.lookup i es with
      | some d => if null (d.val "NAME") || !keep d then nameIn a i else g (d.val "NAME") (d.val "PNAME")
      | none => nameIn a i := by
    intro es
    induction es with
    | nil => exact fun _ _ => rfl
    | cons e es ih =>
      rintro hd a
      rw [List.map_cons,List.nodup_cons] at hd
      rw [List.foldl_cons,ih hd.2]
      by_cases hi : e.1 = i
      · have hl : OrdMap.lookup i es = none := OrdMap.lookup_eq_none.mpr (hi ▸ hd.1)
        simp only [OrdMap.lookup,hl,if_pos hi]
        split
        · rfl
        · rw [nameIn_set,if_pos hi]
          exact h _ _
      · have hs : ∀ x : Token, (if null (e.2.val "NAME") || !keep e.2 then x
            else x.set e.1 ((x.getD e.1 ∅).setAll (fields e.2))) = x ∨
            ∃ p, (if null (e.2.val "NAME") || !keep e.2 then x
            else x.set e.1 ((x.getD e.1 ∅).setAll (fields e.2))) = x.set e.1 p := by
          intro x
          split
          · exact Or.inl rfl
          · exact Or.inr ⟨_,rfl⟩
        simp only [OrdMap.lookup,if_neg hi]
        rcases hs a with ha | ⟨p,ha⟩
        · rw [ha]
        · rw [ha,nameIn_set,if_neg hi]
  exact fold t.entries t.nodup a

/-- Interfaces and aliases with emptied values have no objects with new names. -/
theorem interfaceObjects_emptied {fE fA : Params → List (Str × Str)} {gE : Str → Str} {gA : Str → Str → Str}
    (hE : Naming fE fun n _ => gE n) (hA : Naming fA gA) {eth eth' add add' : Token}
    (he : TokenRel Emptied eth eth') (ha : TokenRel Emptied add add') (hk : ∀ i ∈ eth.keys, i ∉ add.keys) {i : Str}
    (hn : nameIn (interfaceObjects fE fA eth' add') i ≠ []) :
    nameIn (interfaceObjects fE fA eth add) i = nameIn (interfaceObjects fE fA eth' add') i := by
  have hparent : ∀ {d d' : Params}, OrdMap.Rel Emptied d d' → parented eth' d' = true → parented eth d = true ∧
      d'.val "PNAME" = d.val "PNAME" := by
    intro d d' hd hp
    simp only [parented,Bool.and_eq_true,Bool.not_eq_true',null_false_iff,List.contains_iff_mem] at hp ⊢
    have hv := (val_emptied hd "PNAME").resolve_right hp.1
    refine ⟨⟨by rw [← hv]; exact hp.1,?_⟩,hv⟩
    rw [← hv]
    obtain ⟨hm,hne⟩ := List.mem_filter.mp hp.2
    obtain ⟨e,hem,hen⟩ := List.mem_map.mp hm
    have hg := OrdMap.get?_eq_some.mpr (show (e.1,e.2) ∈ eth'.entries from hem)
    rcases he.get? e.1 with ⟨-,h₂⟩ | ⟨p,p',h₁,h₂,hpp⟩
    · rw [h₂] at hg
      simp at hg
    · rw [h₂,Option.some.injEq] at hg
      refine List.mem_filter.mpr ⟨List.mem_map.mpr ⟨(e.1,p),OrdMap.get?_eq_some.mp h₁,?_⟩,hne⟩
      have := (val_emptied hpp "NAME").resolve_right (by rw [hg,hen]; exact hp.1)
      rw [← this,hg]
      exact hen
  unfold interfaceObjects at hn ⊢
  rw [derive_nameIn hA,derive_nameIn hE] at hn ⊢
  rw [derive_nameIn hA,derive_nameIn hE]
  rcases ha.get? i with ⟨h₁,h₂⟩ | ⟨a,a',h₁,h₂,haa⟩
  · rw [h₂] at hn
    simp only [h₁,h₂]
    dsimp only at hn
    rcases he.get? i with ⟨h₃,h₄⟩ | ⟨d,d',h₃,h₄,hdd⟩
    · rw [h₄] at hn
      exact absurd rfl hn
    · rw [h₄] at hn
      dsimp only at hn
      simp only [h₃,h₄]
      by_cases hd : d'.val "NAME" = []
      · rw [if_pos (by simp [hd])] at hn
        exact absurd rfl hn
      · have hv := (val_emptied hdd "NAME").resolve_right hd
        rw [hv]
  · -- an alias is no interface, so there is nothing under it
    have hno : ∀ {t : Token}, t.keys = eth.keys → t.get? i = none := fun ht => OrdMap.get?_eq_none.mpr fun hm =>
      hk i (ht ▸ hm) (by
        by_contra hx
        rw [OrdMap.get?_eq_none.mpr hx] at h₁
        simp at h₁)
    simp only [hno he.keys,h₂] at hn
    simp only [hno he.keys,hno rfl,h₁,h₂]
    by_cases hd : a'.val "NAME" ≠ [] ∧ parented eth' a' = true
    · have hv := (val_emptied haa "NAME").resolve_right hd.1
      obtain ⟨hp,hpn⟩ := hparent haa hd.2
      rw [← hv,← hpn,hp,hd.2]
    · rw [if_pos (by
        rw [not_and_or] at hd
        rcases hd with hd | hd
        · simp [not_not.mp hd]
        · simp [hd])] at hn
      exact absurd rfl hn

theorem typeOfFile_cfg {k : Kind} {f : Str} (h : typeOfFile k f ≠ none) : isCfg ("definitions",f) = true := by
  have cfg : ∀ (c : Char) (s : Str), c ≠ '.' → f = c::(s ++ (".cfg" : Str)) → isCfg ("definitions",f) = true := by
    rintro c s hc rfl
    have hs : (".cfg" : Str) <:+ c::(s ++ (".cfg" : Str)) := ⟨c::s,rfl⟩
    have hd : ("definitions" : Str).head? ≠ some '.' := by decide
    simp [isCfg,List.isSuffixOf_iff_suffix.mpr hs,hc,hd]
  obtain ⟨ty,hty⟩ := Option.ne_none_iff_exists'.mp h
  cases k with
  | networks =>
    simp only [typeOfFile] at hty
    split at hty
    · rename_i hf
      rw [hf]
      decide
    · exact cfg 'n' (("etwork_" : Str) ++ ty) (by decide) (typeBetween_some hty).1
  | services => exact cfg 's' (("ervice_" : Str) ++ ty) (by decide) (typeBetween_some hty).1
  | timeevents => exact cfg 't' (("imeevent_" : Str) ++ ty) (by decide) (typeBetween_some hty).1

/-- A plain name that is no part of a key is taken out as a name, where no alias has the ID of an interface. -/
theorem namesSpared_plain {n : Str} (hn : PlainName n) (hk : ∀ k ∈ referenceKeys, ¬ n <:+: k) {w : World}
    (hid : ∀ i ∈ (ethEntries w).keys, i ∉ (aliasEntries w).keys) : NamesSpared pcre env n w := by
  refine fun k => ⟨fun f i hf => (nameIn_emptied (entries_emptied pcre env hn hk (typeOfFile_cfg hf) w) i).symm,?_⟩
  rintro m hm ⟨hk',t,ht,i,hi⟩
  have he := entries_emptied pcre env hn hk (show isCfg ("network","eth.cfg") = true by decide) w
  have ha := entries_emptied pcre env hn hk (show isCfg ("network","additional.cfg") = true by decide) w
  have key : ∀ {fE fA : Params → List (Str × Str)} (gE : Str → Str) (gA : Str → Str → Str),
      Naming fE (fun n _ => gE n) → Naming fA gA →
      nameIn (interfaceObjects fE fA (ethEntries (iniTokenRemove pcre env n [] w))
        (aliasEntries (iniTokenRemove pcre env n [] w))) i = m →
      nameIn (interfaceObjects fE fA (ethEntries w) (aliasEntries w)) i = m := fun _ _ hE hA hx =>
    (interfaceObjects_emptied hE hA he ha hid (by rw [hx]; exact hm)).trans hx
  refine ⟨hk',?_⟩
  simp only [interfaceTokens,List.mem_cons,List.not_mem_nil,or_false] at ht ⊢
  rcases ht with rfl | rfl | rfl
  · exact ⟨_,Or.inl rfl,i,key (fun n => n ++ (" (Broadcast)" : Str))
      (fun n _ => n ++ (" (Broadcast)" : Str)) (fun d p => objectFields_name p d _ _ _)
      (fun d p => objectFields_name p d _ _ _) hi⟩
  · exact ⟨_,Or.inr (Or.inl rfl),i,key (fun n => n ++ (" (Network)" : Str))
      (fun n _ => n ++ (" (Network)" : Str)) (fun d p => objectFields_name p d _ _ _)
      (fun d p => objectFields_name p d _ _ _) hi⟩
  · exact ⟨_,Or.inr (Or.inr rfl),i,key (fun n => n ++ (" (Address)" : Str))
      (fun n p => p ++ (" [" : Str) ++ n ++ ("] (Address)" : Str)) (fun d p => objectFields_name p d _ _ _)
      (fun d p => objectFields_name p d _ _ _) hi⟩

/-- A name that none of the objects there are passes for. -/
theorem free_of_forall {w : World} {f₀ n : Str} {own : Option Str}
    (h : ∀ f ∈ definitionFiles w, ∀ e ∈ (entriesOf f w).entries, ¬(f = f₀ ∧ own = some e.1) →
      looseEq n (e.2.val "NAME") = false)
    (hd : ∀ t ∈ interfaceTokens w, ∀ e ∈ t.entries, looseEq n (e.2.val "NAME") = false) : Free w f₀ own n := by
  intro k _ hn
  have entry : ∀ {t : Token} {i : Str}, nameIn t i ≠ [] → ∃ p, (i,p) ∈ t.entries ∧ p.val "NAME" = nameIn t i := by
    intro t i hi
    cases hg : t.get? i with
    | none =>
      rw [nameIn,OrdMap.getD,hg] at hi
      exact absurd rfl hi
    | some p => exact ⟨p,OrdMap.get?_eq_some.mp hg,(nameIn_get? hg).symm⟩
  constructor
  · intro f i m hs ho
    obtain ⟨p,hp,hpn⟩ := entry (by rw [hs.name]; exact hs.ne)
    have hf : f ∈ definitionFiles w := mem_definitionFiles fun he => by rw [he] at hp; simp at hp
    rw [← hs.name,← hpn]
    exact h f hf (i,p) hp ho
  · rintro m ⟨-,t,ht,i,rfl⟩
    by_cases hi : nameIn t i = []
    · rw [hi,looseEq_comm]
      exact looseEq_nil hn
    · obtain ⟨p,hp,hpn⟩ := entry hi
      rw [← hpn]
      exact hd t ht (i,p) hp

/-- The caches agree with the files, and the names are distinct. -/
structure Sound (w : World) : Prop extends Named w where
  fresh : Fresh w

/-- The calls in any order, on data without newlines. -/
def callSystem : System World (Env × Call) where
  init := Sound
  step w l w' := (∀ x ∈ l.2.data.entries, '\n' ∉ x.1 ∧ '\n' ∉ x.2) ∧ l.2.run pcre l.1 w = some w'

def clearCalls : System World (Env × Call) where
  init := Sound
  step w l w' := (callSystem pcre).step w l w' ∧ l.2.Clear pcre l.1 w

/-- What one call leaves. -/
theorem call_sound {w w' : World} {l : Env × Call} (h : Sound w) (hs : (clearCalls pcre).step w l w') :
    Sound w' := by
  obtain ⟨env,op⟩ := l
  obtain ⟨⟨-,hr⟩,hc⟩ := hs
  have hco := fun f => h.fresh "definitions" f looked_definitions
  cases op with
  | save k type data =>
    obtain ⟨r,hx,rfl⟩ := Option.map_eq_some_iff.mp hr
    unfold definitionsSave at hx
    split at hx
    · simp only [Option.some.injEq] at hx
      rw [← hx]
      exact h
    · obtain ⟨s,hs,rfl⟩ := Option.map_eq_some_iff.mp hx
      have hn := save_named env h.toNamed (hco _) (definitionsFile_ne_twin k type) hc.1 hc.2 hs
      have hf : Fresh s.2 := by
        rcases iniTokenSave_spec env _ _ (hco _) hs with ⟨_,_,-,-,hw,-⟩ | ⟨-,hw⟩
        · exact hw.fresh (iniTokenSave_frame env hs) looked_definitions h.fresh
        · exact (hw []).fresh (iniTokenSave_frame env hs) looked_definitions h.fresh
      split
      · exact ⟨hn.congr rfl,unlinkPrint_fresh k hf⟩
      · exact ⟨hn,hf⟩
  | update k type id data =>
    simp only [Call.run,Option.some.injEq] at hr
    subst hr
    unfold definitionsUpdate
    split
    · exact h
    · have hn := update_named env h.toNamed (hco _) (definitionsFile_ne_twin k type) hc.1 hc.2
      have hfr := @iniTokenUpdate_frame env "definitions" (definitionsFile k type) id data w
      have hf : Fresh (iniTokenUpdate env "definitions" (definitionsFile k type) id data w).2 := by
        rcases iniTokenUpdate_spec env "definitions" (definitionsFile k type) id data (hco _)
          with ⟨_,-,hw⟩ | ⟨-,-,hw⟩
        · exact hw.fresh hfr looked_definitions h.fresh
        · exact (hw []).fresh hfr looked_definitions h.fresh
      dsimp only
      split
      · exact ⟨hn.congr rfl,unlinkPrint_fresh k hf⟩
      · exact ⟨hn,hf⟩
  | delete k type id =>
    simp only [Call.run,Option.some.injEq] at hr
    subst hr
    exact ⟨delete_named pcre env h.toNamed (hco _) (definitionsFile_ne_twin k type) hc,
      iniTokenDelete_fresh pcre env id looked_definitions h.fresh⟩

/-- In every state of a run the name of every stored object is looked up to that object. -/
theorem names_unambiguous {w w' : World} {ls : List (Env × Call)} (hi : (clearCalls pcre).init w)
    (hr : System.Run (clearCalls pcre) w ls w') {k : Kind} {f ty i : Str} {p : Params}
    (hty : typeOfFile k f = some ty) (hp : (entriesOf f w').get? i = some p) (hn : p.val "NAME" ≠ [])
    (itoken : Params) : (definitionsGetByname pcre env k (p.val "NAME") itoken [] w').1 =
      (p.set "__DATA_SECTION" k.name).set "__DATA_TYPE" ty := by
  have h := hr.invariant (fun _ _ _ h hs => call_sound pcre h hs) hi
  have ht : entriesOf twin w' = ∅ := by
    rw [entriesOf,entries,text,OrdMap.getD,h.twin]
    rfl
  exact definitionsGetByname_stored pcre env h.fresh ht (h.distinct k) hty hp hn itoken

def bareWorld : World := World.ofFiles []

theorem bareWorld_sound : Sound bareWorld := by
  have he : ∀ f i, nameIn (entriesOf f bareWorld) i = [] := fun _ _ => rfl
  exact ⟨⟨fun _ => Or.inl rfl,rfl,fun k => ⟨fun hs => absurd ((he _ _).symm.trans hs.name) hs.ne.symm,
    fun hs => absurd ((he _ _).symm.trans hs.name) hs.ne.symm⟩⟩,fun _ _ _ => Or.inl rfl⟩

def webHost : Params := OrdMap.empty.setAll [("ID","h1"),("NAME","web"),("ADDR","10.0.0.1")]

def teamGroup : Params := OrdMap.empty.setAll [("ID","g1"),("NAME","team"),("ADDR","web")]

def wwwName : Params := OrdMap.empty.setAll [("NAME","www")]

def Call.after (c : Call) (w : World) : World := (c.run Pcre.plain noonEnv w).getD w

/-- The states of a run that adds a host and a group, renames the host and deletes the group. -/
def hostSaved : World := (Call.save .networks "host" webHost).after bareWorld

def groupSaved : World := (Call.save .networks "group" teamGroup).after hostSaved

def hostRenamed : World := (Call.update .networks "host" "h1" wwwName).after groupSaved

def groupDeleted : World := (Call.delete .networks "group" "g1").after hostRenamed

def renamedWww : Params := OrdMap.empty.setAll [("__DATA_ID","h1"),("NAME","www"),("ADDR","10.0.0.1")]

theorem names_unambiguous_www : (definitionsGetByname Pcre.plain noonEnv .networks "www" ∅ [] groupDeleted).1 =
    (renamedWww.set "__DATA_SECTION" "networks").set "__DATA_TYPE" "host" := by
  have hrun : (Call.save .networks "host" webHost).run Pcre.plain noonEnv bareWorld = some hostSaved ∧
      (Call.save .networks "group" teamGroup).run Pcre.plain noonEnv hostSaved = some groupSaved ∧
      (Call.update .networks "host" "h1" wwwName).run Pcre.plain noonEnv groupSaved = some hostRenamed ∧
      (Call.delete .networks "group" "g1").run Pcre.plain noonEnv hostRenamed = some groupDeleted ∧
      nameOf "definitions" (definitionsFile .networks "group") "g1" hostRenamed = ("team" : Str) ∧
      (entriesOf "network_host.cfg" groupDeleted).get? "h1" = some renamedWww := by
    decide +kernel
  obtain ⟨h₁,h₂,h₃,h₄,hn,hp⟩ := hrun
  have l₁ : ∀ x ∈ webHost.entries, '\n' ∉ x.1 ∧ '\n' ∉ x.2 := by decide
  have l₂ : ∀ x ∈ teamGroup.entries, '\n' ∉ x.1 ∧ '\n' ∉ x.2 := by decide
  have l₃ : ∀ x ∈ wwwName.entries, '\n' ∉ x.1 ∧ '\n' ∉ x.2 := by decide
  have l₄ : ∀ x ∈ (∅ : Params).entries, '\n' ∉ x.1 ∧ '\n' ∉ x.2 := by decide
  have d₁ : Given webHost := by constructor <;> decide
  have d₂ : Given teamGroup := by constructor <;> decide
  have d₃ : Given wwwName := by constructor <;> decide
  have f₁ : Free bareWorld (definitionsFile .networks "host") none (carried (webHost.val "NAME")) :=
    free_of_forall (by decide) (by decide)
  have f₂ : Free hostSaved (definitionsFile .networks "group") none (carried (teamGroup.val "NAME")) :=
    free_of_forall (by decide) (by decide)
  have f₃ : Free groupSaved (definitionsFile .networks "host") (some "h1") (carried (wwwName.val "NAME")) :=
    free_of_forall (by decide) (by decide)
  have hd : (Call.delete .networks "group" "g1").Clear Pcre.plain noonEnv hostRenamed := by
    intro _
    rw [hn]
    have hp : PlainName ("team" : Str) := by constructor <;> decide
    have hk : ∀ k ∈ referenceKeys, ¬ ("team" : Str) <:+: k := by decide
    exact namesSpared_plain Pcre.plain noonEnv hp hk (by decide)
  have hr : System.Run (clearCalls Pcre.plain) bareWorld ([(noonEnv,.save .networks "host" webHost)] ++
      [(noonEnv,.save .networks "group" teamGroup)] ++ [(noonEnv,.update .networks "host" "h1" wwwName)] ++
      [(noonEnv,.delete .networks "group" "g1")]) groupDeleted :=
    .snoc (.snoc (.snoc (.snoc .nil ⟨⟨l₁,h₁⟩,d₁,f₁⟩) ⟨⟨l₂,h₂⟩,d₂,f₂⟩) ⟨⟨l₃,h₃⟩,d₃,f₃⟩) ⟨⟨l₄,h₄⟩,hd⟩
  exact names_unambiguous Pcre.plain noonEnv bareWorld_sound hr (k := .networks) (by decide) hp (by decide) ∅

def webGroup : Params := OrdMap.empty.setAll [("ID","g1"),("NAME","web"),("ADDR","any")]

def savedWeb : Params := OrdMap.empty.setAll [("__DATA_ID","h1"),("NAME","web"),("ADDR","10.0.0.1")]

def webTwice : World := (Call.save .networks "group" webGroup).after hostSaved

/-- A group with the name of a host is found in its place. -/
theorem names_ambiguous : ¬ ∀ (w w' : World) (ls : List (Env × Call)), (callSystem Pcre.plain).init w →
    System.Run (callSystem Pcre.plain) w ls w' → ∀ (k : Kind) (f ty i : Str) (p : Params),
    typeOfFile k f = some ty → (entriesOf f w').get? i = some p → p.val "NAME" ≠ [] →
    (definitionsGetByname Pcre.plain noonEnv k (p.val "NAME") ∅ [] w').1 =
      (p.set "__DATA_SECTION" k.name).set "__DATA_TYPE" ty := by
  intro h
  have h₁ : (Call.save .networks "host" webHost).run Pcre.plain noonEnv bareWorld = some hostSaved := by
    decide
  have h₂ : (Call.save .networks "group" webGroup).run Pcre.plain noonEnv hostSaved = some webTwice := by
    decide
  have hr : System.Run (callSystem Pcre.plain) bareWorld ([] ++ [(noonEnv,.save .networks "host" webHost)] ++
      [(noonEnv,.save .networks "group" webGroup)]) webTwice :=
    .snoc (.snoc .nil ⟨by decide,h₁⟩) ⟨by decide,h₂⟩
  have hp : (entriesOf "network_host.cfg" webTwice).get? "h1" =
      some savedWeb := by decide
  have hx := h _ _ _ bareWorld_sound hr .networks _ "host" _ _ (by decide) hp (by decide)
  exact absurd hx (by decide)

end Definitions
end Mybox
