import Mybox.RegistryText
import Mybox.Runs

/-! The registry file as a store. Calls on one file, made one after another, are the
operations of an ordered map from entry ID to parameters. -/
namespace Mybox
namespace Registry

open Php RegistryFormat

structure KeyOk (a : Str) : Prop where
  ne : a ≠ []
  trimmed : trim a = a
  line : '\n' ∉ a
  eq : '=' ∉ a
  notId : a ≠ ("ID" : Str)
  comment : a.head? ≠ some '#'
  visible : hidden a = false

structure ValueOk (b : Str) : Prop where
  trimmed : trim b = b
  line : '\n' ∉ b
  eq : '=' ∉ b

instance (a : Str) : Decidable (KeyOk a) :=
  decidable_of_iff (a ≠ [] ∧ trim a = a ∧ '\n' ∉ a ∧ '=' ∉ a ∧ a ≠ ("ID" : Str) ∧
    a.head? ≠ some '#' ∧ hidden a = false)
    ⟨fun ⟨h₁,h₂,h₃,h₄,h₅,h₆,h₇⟩ => ⟨h₁,h₂,h₃,h₄,h₅,h₆,h₇⟩,
      fun ⟨h₁,h₂,h₃,h₄,h₅,h₆,h₇⟩ => ⟨h₁,h₂,h₃,h₄,h₅,h₆,h₇⟩⟩

instance (b : Str) : Decidable (ValueOk b) :=
  decidable_of_iff (trim b = b ∧ '\n' ∉ b ∧ '=' ∉ b)
    ⟨fun ⟨h₁,h₂,h₃⟩ => ⟨h₁,h₂,h₃⟩,fun ⟨h₁,h₂,h₃⟩ => ⟨h₁,h₂,h₃⟩⟩

abbrev Ident := { n : Str // IdentOk n }

abbrev Key := { a : Str // KeyOk a }

abbrev Value := { b : Str // ValueOk b }

abbrev Record := OrdMap Key Value

/-- The abstract state: entry ID to parameters, in the order of the file. -/
abbrev Store := OrdMap Ident Record

/-- The array of a record, as it is handed to the calls. -/
def Record.params (r : Record) : Params := r.embed Subtype.val Subtype.val Subtype.val_injective

/-- An entry as `_INI_TOKEN_GET` returns it. -/
def Record.present (n : Ident) (r : Record) : Params := readBack n.1 r.params

def Store.present (s : Store) : Token :=
  (s.mapEntries Record.present).embed Subtype.val id Subtype.val_injective

theorem KeyOk.skipped {a : Str} (h : KeyOk a) : skipped a = false := by
  simp [RegistryFormat.skipped,h.ne,h.visible]

theorem KeyOk.paramOk {a b : Str} (ha : KeyOk a) (hb : ValueOk b) : ParamOk a b := by
  refine ⟨ha.ne,ha.trimmed,hb.trimmed,ha.line,hb.line,ha.eq,hb.eq,ha.comment,?_⟩
  cases hs : sectionName (a ++ '=' :: b) with
  | none => rfl
  | some n =>
    have hl : a ++ '=' :: b = ("ID" : Str) ++ '=' :: n := (sectionName_some hs).1
    have ht := congrArg (List.splitOn '=') hl
    rw [List.splitOn_append_cons_self_of_not_mem ha.eq,
      List.splitOn_append_cons_self_of_not_mem (by decide),List.cons.injEq] at ht
    exact absurd ht.1 ha.notId

theorem mem_params {r : Record} {e : Str × Str} (h : e ∈ r.params.entries) :
    KeyOk e.1 ∧ ValueOk e.2 := by
  obtain ⟨⟨a,b⟩,-,rfl⟩ := List.mem_map.mp h
  exact ⟨a.2,b.2⟩

theorem shown_params (r : Record) : shown r.params = r.params.entries :=
  List.filter_eq_self.mpr fun _ he => by simp [(mem_params he).1.skipped]

theorem Record.present_entries (n : Ident) (r : Record) :
    (r.present n).entries = (dataId,n.1) :: r.params.entries := by
  rw [Record.present,readBack_entries,shown_params]

theorem Record.present_entryOk (n : Ident) (r : Record) : EntryOk n.1 (r.present n) :=
  ⟨n.2,_,r.present_entries n,fun _ hx =>
    ⟨(mem_params hx).1.skipped,(mem_params hx).1.paramOk (mem_params hx).2⟩⟩

theorem Record.present_set (n : Ident) (r : Record) (k : Key) (v : Value) :
    Record.present n (r.set k v) = (r.present n).set k.1 v.1 := by
  have hk : dataId ≠ k.1 := by
    intro h
    have hv := k.2.visible
    rw [← h] at hv
    exact absurd hv (by decide)
  have hs : Record.params (r.set k v) = r.params.set k.1 v.1 := OrdMap.embed_set _ _ r k v
  apply OrdMap.ext
  rw [Record.present_entries,hs]
  simp only [OrdMap.set,Record.present_entries]
  rw [OrdMap.assign,if_neg hk]

theorem Record.present_setAll (n : Ident) (r d : Record) :
    Record.present n (r.setAll d.entries) = (r.present n).setAll d.params.entries := by
  have hd : d.params.entries = d.entries.map fun e => (e.1.1,e.2.1) := rfl
  rw [hd]
  generalize d.entries = es
  induction es generalizing r with
  | nil => rfl
  | cons e es ih =>
    rw [OrdMap.setAll_cons,ih,List.map_cons,OrdMap.setAll_cons,r.present_set]

theorem Store.present_get? (s : Store) (n : Ident) :
    s.present.get? n.1 = (s.get? n).map fun r => r.present n := by
  have h := OrdMap.get?_embed id Subtype.val_injective (s.mapEntries Record.present) n
  rw [OrdMap.get?_mapEntries,Option.map_id] at h
  exact h

theorem Store.present_set (s : Store) (n : Ident) (r : Record) :
    Store.present (s.set n r) = s.present.set n.1 (r.present n) := by
  rw [Store.present,OrdMap.mapEntries_set,OrdMap.embed_set]
  rfl

theorem Store.present_erase (s : Store) (n : Ident) :
    Store.present (s.erase n) = s.present.erase n.1 := by
  rw [Store.present,OrdMap.mapEntries_erase,OrdMap.embed_erase]
  rfl

theorem Store.present_canonical (s : Store) : Canonical s.present := by
  intro e he
  obtain ⟨x,hx,rfl⟩ := List.mem_map.mp he
  obtain ⟨y,-,rfl⟩ := List.mem_map.mp hx
  exact y.2.present_entryOk y.1

inductive Call
  /-- A new entry, under the given ID when there is one. -/
  | save (id : Option Ident) (r : Record)
  | update (id : Ident) (r : Record)
  | delete (id : Ident)

/-- The data array of a save: the record, and the ID under the key `ID`, anywhere in it. -/
structure SaveData (data : Params) (id : Option Ident) (r : Record) : Prop where
  ident : data.val "ID" = (id.map Subtype.val).getD []
  rest : data.erase "ID" = r.params

variable (pcre : Pcre) (sec fil : Str)

/-- What a call may answer. Entries with a NAME are not deleted. -/
def Answers (w : World) : Call → Ret × World → Prop
  | .save id r, res =>
    ∃ env data, SaveData data id r ∧ iniTokenSave env sec fil data w = some res
  | .update id r, res => ∃ env, iniTokenUpdate env sec fil id.1 r.params w = res
  | .delete id, res => ∃ env, ((iniTokenGet env sec fil ∅ w).1.getD id.1 ∅).val "NAME" = [] ∧
      iniTokenDelete pcre env sec fil id.1 w = res

/-- Calls on one file, from an empty or missing file that is not cached. -/
def fileSystem : System World (Call × Ret) where
  init w := (w.reg.get? (sec,fil) = none ∨ w.reg.get? (sec,fil) = some []) ∧
    w.obj.get? (objName sec fil) = none
  step w l w' := Answers pcre sec fil w l.1 (l.2,w')

/-- The operations of the ordered map. A call that does not answer `TRUE` changes nothing. -/
inductive Store.Step : Store → Call × Ret → Store → Prop
  | save {s s' : Store} {id : Option Ident} {r : Record} {j : Ident} :
      j ∉ s.keys → (∀ i, id = some i → j = i) → s'.entries = s.entries ++ [(j,r)] →
      Step s (.save id r,.ok) s'
  | update {s : Store} {id : Ident} {r p : Record} :
      s.get? id = some p → Step s (.update id r,.ok) (s.set id (p.setAll r.entries))
  | delete {s : Store} {id : Ident} : id ∈ s.keys → Step s (.delete id,.ok) (s.erase id)
  | refused {s : Store} {c : Call} {ret : Ret} : ret ≠ .ok → Step s (c,ret) s

def storeSystem : System Store (Call × Ret) where
  init s := s = ∅
  step := Store.Step

structure Holds (w : World) (s : Store) : Prop where
  coherent : Coherent sec fil w
  entries : entries sec fil w = s.present
  ended : LineEnded (text sec fil w)

variable {sec fil}

theorem entries_done {w w' : World} {x : Str} (h : w'.reg = w.reg.set (sec,fil) x) :
    text sec fil w' = x ∧ entries sec fil w' = readText x ∅ := by
  have ht : text sec fil w' = x := by simp [text,OrdMap.getD,h]
  exact ⟨ht,by rw [Registry.entries,ht]⟩

theorem Holds.done {w : World} {s' : Store} {r : Ret × World} {x : Str}
    (hw : Rewrites sec fil w r x) (ho : r.1 = .ok) (hx : readText x ∅ = s'.present)
    (hl : LineEnded x) : Holds sec fil r.2 s' := by
  have he := entries_done (hw.done ho)
  exact ⟨hw.coherent,by rw [he.2,hx],by rw [he.1]; exact hl⟩

theorem Holds.refused {w : World} {s : Store} {r : Ret × World} {x : Str} (h : Holds sec fil w s)
    (hw : Rewrites sec fil w r x) (hn : r.1 ≠ .ok) : Holds sec fil r.2 s := by
  have hr := hw.refused hn
  refine ⟨hw.coherent,by rw [entries_congr sec fil hr,h.entries],?_⟩
  rw [text,hr]; exact h.ended

theorem Store.fresh_of_isEmpty {s : Store} {n : Ident} (h : (s.present.getD n.1 ∅).isEmpty) :
    s.get? n = none := by
  rw [OrdMap.getD,s.present_get?] at h
  cases hg : s.get? n with
  | none => rfl
  | some r =>
    rw [hg] at h
    have he := congrArg OrdMap.entries (OrdMap.isEmpty_iff.mp h)
    simp [r.present_entries n] at he

/-- The data of a save puts out exactly the record. -/
theorem SaveData.saved {data : Params} {id : Option Ident} {r : Record} (h : SaveData data id r) :
    let d := if data.val "ID" = [] then data else data.erase "ID"
    DataOk d ∧ saved d = r.params := by
  have he : (data.erase "ID").erase "ID" = data.erase "ID" := by
    apply OrdMap.ext; simp [OrdMap.erase,OrdMap.discard,List.filter_filter]
  have hx : ∀ x ∈ data.entries, x.1 ≠ ("ID" : Str) → KeyOk x.1 ∧ ValueOk x.2 := by
    intro x hx hk
    apply mem_params (r:=r)
    rw [← h.rest]
    exact List.mem_filter.mpr ⟨hx,by simpa using hk⟩
  dsimp only
  split
  · rename_i hi
    refine ⟨⟨?_,?_,hi⟩,h.rest⟩
    · intro x hm
      by_cases hk : x.1 = ("ID" : Str)
      · rw [hk]; decide
      · exact (hx x hm hk).1.trimmed
    · intro x hm
      by_cases hk : x.1 = ("ID" : Str)
      · have hg := OrdMap.get?_eq_some.mpr (show (x.1,x.2) ∈ data.entries from hm)
        rw [Params.val,OrdMap.getD,← hk,hg] at hi
        change x.2 = [] at hi
        rw [hi]; rfl
      · exact (hx x hm hk).2.trimmed
  · refine ⟨⟨?_,?_,?_⟩,by rw [Registry.saved,he,h.rest]⟩
    · intro x hm; rw [h.rest] at hm; exact (mem_params hm).1.trimmed
    · intro x hm; rw [h.rest] at hm; exact (mem_params hm).2.trimmed
    · simp [Params.val,OrdMap.getD,OrdMap.get?_erase]

theorem save_simulates (pcre : Pcre) {w w' : World} {s : Store} {id : Option Ident} {r : Record} {ret : Ret}
    (h : Holds sec fil w s) (hs : Answers pcre sec fil w (.save id r) (ret,w')) :
    ∃ s', Store.Step s (.save id r,ret) s' ∧ Holds sec fil w' s' := by
  obtain ⟨env,data,hd,hr⟩ := hs
  rcases iniTokenSave_spec env sec fil h.coherent hr with ⟨n,d,hn,hdd,hw,-⟩ | ⟨rfl,hw⟩
  · by_cases ho : ret = .ok
    · subst ho
      have hsv := hd.saved
      rw [← hdd] at hsv
      rw [h.entries] at hn
      -- the ID is well formed and names no entry, given or drawn
      obtain ⟨j,rfl,hj,hji⟩ : ∃ j : Ident, j.1 = n ∧ s.get? j = none ∧ ∀ i, id = some i → j = i := by
        cases id with
        | none =>
          obtain ⟨hk,hg⟩ := hn.drawn hd.ident
          refine ⟨⟨n,hex_identOk (env.keys_hex n hk)⟩,rfl,?_,by simp⟩
          apply Store.fresh_of_isEmpty
          rw [OrdMap.getD,hg]; rfl
        | some i =>
          have hi : data.val "ID" = i.1 := hd.ident
          obtain ⟨hg,he⟩ := hn.given (by rw [hi]; exact i.2.ne)
          rw [hi] at hg
          subst hg
          exact ⟨i,rfl,Store.fresh_of_isEmpty he,by simp⟩
      have hp : ∀ e ∈ shown (saved d), ParamOk e.1 e.2 := by
        intro e he
        rw [hsv.2,shown_params] at he
        exact (mem_params he).1.paramOk (mem_params he).2
      have hf : (readText (text sec fil w) ∅).get? j.1 = none := by
        rw [show readText (text sec fil w) ∅ = s.present from h.entries,s.present_get?,hj]; rfl
      have ht := readText_saveText env h.ended j.2 hf hsv.1 hp
      rw [show readText (text sec fil w) ∅ = s.present from h.entries,hsv.2] at ht
      have hx : readText (text sec fil w ++ saveText env j.1 d) ∅ = Store.present (s.set j r) := by
        rw [ht,s.present_set]; rfl
      have hfresh := OrdMap.get?_eq_none.mp hj
      exact ⟨s.set j r,.save hfresh hji (OrdMap.set_entries_fresh s r hfresh),
        Holds.done hw rfl hx (lineEnded_saveText env _ _ _)⟩
    · exact ⟨s,.refused ho,h.refused hw ho⟩
  · exact ⟨s,.refused (by simp),h.refused (hw []) (by simp)⟩

theorem update_simulates (pcre : Pcre) {w w' : World} {s : Store} {id : Ident} {r : Record} {ret : Ret}
    (h : Holds sec fil w s) (hs : Answers pcre sec fil w (.update id r) (ret,w')) :
    ∃ s', Store.Step s (.update id r,ret) s' ∧ Holds sec fil w' s' := by
  obtain ⟨env,hr⟩ := hs
  rcases iniTokenUpdate_spec env sec fil id.1 r.params h.coherent with ⟨p,hp,hw⟩ | ⟨hf,-,hw⟩
  · rw [hr,h.entries] at hw
    by_cases ho : ret = .ok
    · rw [h.entries,s.present_get?,Option.map_eq_some_iff] at hp
      obtain ⟨q,hq,rfl⟩ := hp
      rw [merge_eq_setAll,← q.present_setAll,← s.present_set] at hw
      have hc := Store.present_canonical (s.set id (q.setAll r.entries))
      have hx := readText_updateText env hc.tokenOk
      rw [hc.readBackAll] at hx
      subst ho
      exact ⟨_,.update hq,Holds.done hw rfl hx (lineEnded_updateText env _)⟩
    · exact ⟨s,.refused ho,h.refused hw ho⟩
  · have hn : ret ≠ .ok := by
      intro ho
      rw [hr] at hf
      rw [ho] at hf
      simp at hf
    exact ⟨s,.refused hn,by have := hw []; rw [hr] at this; exact h.refused this hn⟩

theorem delete_simulates (pcre : Pcre) {w w' : World} {s : Store} {id : Ident} {ret : Ret}
    (h : Holds sec fil w s) (hs : Answers pcre sec fil w (.delete id) (ret,w')) :
    ∃ s', Store.Step s (.delete id,ret) s' ∧ Holds sec fil w' s' := by
  obtain ⟨env,hn,hr⟩ := hs
  rw [iniTokenGet_fst env sec fil h.coherent] at hn
  obtain ⟨hw,hne⟩ := iniTokenDelete_spec pcre env sec fil id.1 h.coherent hn
  rw [hr,h.entries] at hw
  rw [hr,h.entries] at hne
  by_cases ho : ret = .ok
  · have hk : id ∈ s.keys := by
      by_contra hk
      apply hne ho
      rw [OrdMap.getD,s.present_get?,OrdMap.get?_eq_none.mpr hk]; rfl
    rw [← s.present_erase] at hw
    have hc := Store.present_canonical (s.erase id)
    have hx := readText_deleteText env hc.tokenOk
    rw [hc.readBackAll] at hx
    subst ho
    exact ⟨_,.delete hk,Holds.done hw rfl hx (lineEnded_deleteText env _)⟩
  · exact ⟨s,.refused ho,h.refused hw ho⟩

theorem init_holds {pcre : Pcre} {w : World} (h : (fileSystem pcre sec fil).init w) : Holds sec fil w ∅ := by
  have ht : text sec fil w = [] := by
    rcases h.1 with h | h <;> simp [text,OrdMap.getD,h]
  refine ⟨Or.inl (by simp [fileArrayGet,h.2]),?_,Or.inl ht⟩
  rw [Registry.entries,ht]; rfl

def holdsSimulation (pcre : Pcre) (sec fil : Str) :
    System.Simulation (fileSystem pcre sec fil) storeSystem where
  rel := Holds sec fil
  init w h := ⟨∅,rfl,init_holds h⟩
  step _ _ l _ h hs := by
    obtain ⟨c,ret⟩ := l
    cases c with
    | save id r => exact save_simulates pcre h hs
    | update id r => exact update_simulates pcre h hs
    | delete id => exact delete_simulates pcre h hs

def lanRecord : Record := ⟨[(⟨"NAME",by decide⟩,⟨"lan",by decide⟩),
  (⟨"ADDR",by decide⟩,⟨"10.0.0.1",by decide⟩)],by decide⟩

def lanNote : Record := ⟨[(⟨"NOTE",by decide⟩,⟨[],by decide⟩)],by decide⟩

def lanId : Ident := ⟨"0123456789abcdef0123",by decide⟩

def lanSaved : World :=
  ((iniTokenSave noonEnv "network" "eth.cfg" lanRecord.params ⟨∅,∅⟩).getD (.fail,⟨∅,∅⟩)).2

def lanNoted : World := (iniTokenUpdate noonEnv "network" "eth.cfg" lanId.1 lanNote.params lanSaved).2

/-- After any run of calls, `_INI_TOKEN_GET` returns the map that the same calls make. -/
theorem registry_refines_store (pcre : Pcre) (sec fil : Str) {w w' : World}
    {ls : List (Call × Ret)} (h : (fileSystem pcre sec fil).init w)
    (hr : System.Run (fileSystem pcre sec fil) w ls w') :
    ∃ s, System.Run storeSystem ∅ ls s ∧
      ∀ env, (iniTokenGet env sec fil ∅ w').1 = s.present := by
  obtain ⟨s,hs,hh⟩ := (holdsSimulation pcre sec fil).run hr (init_holds h)
  exact ⟨s,hs,fun env => by rw [iniTokenGet_fst env sec fil hh.coherent,hh.entries]⟩

theorem registry_refines_store_lan : ∃ s, System.Run storeSystem ∅
      [(Call.save none lanRecord,Ret.ok),(Call.update lanId lanNote,Ret.ok)] s ∧
    ∀ env, (iniTokenGet env "network" "eth.cfg" ∅ lanNoted).1 = s.present := by
  have h₀ : (fileSystem Pcre.plain "network" "eth.cfg").init ⟨∅,∅⟩ := ⟨Or.inl rfl,rfl⟩
  have h₁ : (fileSystem Pcre.plain "network" "eth.cfg").step ⟨∅,∅⟩
      (Call.save none lanRecord,Ret.ok) lanSaved :=
    ⟨noonEnv,lanRecord.params,⟨by decide,by decide⟩,by decide⟩
  have h₂ : (fileSystem Pcre.plain "network" "eth.cfg").step lanSaved
      (Call.update lanId lanNote,Ret.ok) lanNoted := ⟨noonEnv,by decide⟩
  exact registry_refines_store Pcre.plain "network" "eth.cfg" h₀ ((System.Run.nil.snoc h₁).snoc h₂)

end Registry
end Mybox
