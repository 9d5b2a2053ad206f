import Mybox.RegistryText

/-! One accepted write to any file: what was handed over is read back, and the other
entries are as before. -/
namespace Mybox
namespace Registry

open Php RegistryFormat

variable (env : Env) (sec fil : Str)

/-- No parameter line uses a private key, or would open an entry when written back. -/
def Plain (s : Str) : Prop := ∀ l ∈ file s, l.head? = some '#' ∨ sectionName l ≠ none ∨
  hidden (splitParam l).1 = false ∧ sectionName (paramLine (splitParam l)) = none

instance (s : Str) : Decidable (Plain s) := inferInstanceAs (Decidable (∀ l ∈ file s, _))

structure ReadingOk (st : Reading) : Prop where
  token : Canonical st.token
  open_ : st.tname ≠ [] → ∃ p, st.token.get? st.tname = some p

theorem Canonical.get? {t : Token} (h : Canonical t) {n : Str} {p : Params}
    (hp : t.get? n = some p) : EntryOk n p := h (n,p) (OrdMap.get?_eq_some.mp hp)

theorem Canonical.set {t : Token} (h : Canonical t) {n : Str} {p : Params} (hp : EntryOk n p) :
    Canonical (t.set n p) := by
  intro e he
  rcases OrdMap.mem_set he with rfl | he
  · exact hp
  · exact h e he

theorem entryOk_new {n : Str} (h : IdentOk n) : EntryOk n ((∅ : Params).set dataId n) :=
  ⟨h,[],rfl,by simp⟩

theorem EntryOk.get?_dataId {n : Str} {p : Params} (h : EntryOk n p) : p.get? dataId = some n := by
  obtain ⟨es,he,-⟩ := h.shape
  rw [OrdMap.get?_eq_some,he]
  simp

theorem EntryOk.assign {n : Str} {p : Params} (h : EntryOk n p) {a b : Str}
    (ha : hidden a = false) (hb : ParamOk a b) : EntryOk n (p.set a b) := by
  obtain ⟨es,he,hs⟩ := h.shape
  have hd : dataId ≠ a := by
    rintro rfl; exact absurd ha (by decide)
  refine ⟨h.ident,OrdMap.assign a b es,?_,?_⟩
  · simp [OrdMap.set,he,OrdMap.assign,hd]
  · have hn : (es.map Prod.fst).Nodup := by
      have hp := p.nodup
      rw [he,List.map_cons,List.nodup_cons] at hp
      exact hp.2
    rintro ⟨k,v⟩ hx
    have hl := (OrdMap.lookup_eq_some (OrdMap.assign_nodup hn)).mpr hx
    rw [OrdMap.lookup_assign] at hl
    split at hl
    · rename_i hk
      simp only [Option.some.injEq] at hl
      subst hk hl
      exact ⟨by simp [skipped,hb.ne,ha],hb⟩
    · exact hs _ ((OrdMap.lookup_eq_some hn).mp hl)

/-- The pieces a line is split into carry no separator, and the first starts the line. -/
theorem splitParam_ok {l : Str} (hl : l ≠ []) (ht : trim l = l) (hn : '\n' ∉ l)
    (hc : l.head? ≠ some '#') (ha : (splitParam l).1 ≠ [])
    (hp : sectionName (paramLine (splitParam l)) = none) :
    ParamOk (splitParam l).1 (splitParam l).2 := by
  have hsub : ∀ i c, c ∈ trim ((split '=' l).getD i []) → c ∈ l ∧ c ≠ '=' := by
    intro i c hm
    have hm' := LineText.strip_mem trimChar hm
    rw [List.getD_eq_getElem?_getD] at hm'
    cases hi : (split '=' l)[i]? with
    | none => simp [hi] at hm'
    | some r =>
      rw [hi] at hm'
      exact LineText.mem_splitOn '=' (List.mem_of_getElem? hi) hm'
  have h₁ : (splitParam l).1 = trim ((split '=' l).getD 0 []) := by
    rw [splitParam]; cases split '=' l <;> rfl
  have h₂ : (splitParam l).2 = trim ((split '=' l).getD 1 []) := by
    rw [splitParam]
    rcases split '=' l with - | ⟨x,- | ⟨y,r⟩⟩ <;> rfl
  refine ⟨ha,by rw [h₁,trim_trim],by rw [h₂,trim_trim],?_,?_,?_,?_,?_,hp⟩
  · rw [h₁]; exact fun hm => hn (hsub 0 _ hm).1
  · rw [h₂]; exact fun hm => hn (hsub 1 _ hm).1
  · rw [h₁]; exact fun hm => (hsub 0 _ hm).2 rfl
  · rw [h₂]; exact fun hm => (hsub 1 _ hm).2 rfl
  · obtain ⟨c,r,rfl⟩ := List.exists_cons_of_ne_nil hl
    have hb : ¬ trimChar c := (trimmed_iff.mp ht).1 c (by simp)
    obtain ⟨v,vs,hv⟩ := List.exists_cons_of_ne_nil (List.splitOn_ne_nil '=' r)
    have hs : split '=' (c::r) = if c = '=' then []::v::vs else (c::v)::vs := by
      rw [split,List.splitOn_cons_eq_if_modifyHead,hv]
      by_cases he : c = '=' <;> simp [he]
    by_cases he : c = '='
    · rw [h₁,hs,if_pos he] at ha
      exact absurd rfl ha
    · rw [h₁,hs,if_neg he]
      have htr : trim (c::v) = c :: v.rdropWhile trimChar := LineText.strip_cons_of_not trimChar hb v
      simpa [htr] using hc

theorem readLine_ok {st : Reading} (h : ReadingOk st) {l : Str} (hl : l ≠ []) (ht : trim l = l)
    (hn : '\n' ∉ l) (hp : l.head? = some '#' ∨ sectionName l ≠ none ∨
      hidden (splitParam l).1 = false ∧ sectionName (paramLine (splitParam l)) = none) :
    ReadingOk (readLine st l) := by
  have ho : ∀ n p, (st.token.set n p).get? n = some p := fun n p => OrdMap.get?_set_self _ _ _
  unfold readLine
  split
  · exact h
  · rename_i hc
    split
    · rename_i n hs
      obtain ⟨rfl,hne,hb⟩ := sectionName_some hs
      have hi : IdentOk n := by
        refine ⟨hne,hb,?_⟩
        have hlast := (trimmed_iff.mp ht).2
        rwa [sectionLine,List.getLast?_append_of_ne_nil _ hne] at hlast
      refine ⟨?_,fun _ => ⟨_,ho _ _⟩⟩
      apply h.token.set
      unfold OrdMap.getD
      cases hg : st.token.get? n with
      | none => exact entryOk_new hi
      | some p =>
        have he := h.token.get? hg
        rw [Option.getD_some,OrdMap.set_get?_self he.get?_dataId]
        exact he
    · rename_i hs
      split
      · exact h
      · rename_i htn
        split
        · exact h
        · rename_i ha
          have hp' := (hp.resolve_left hc).resolve_left (fun hh => hh hs)
          have ha' : (splitParam l).1 ≠ [] := by simpa using ha
          have hok := splitParam_ok hl ht hn hc ha' hp'.2
          obtain ⟨p,hg⟩ := h.open_ (by simpa using htn)
          refine ⟨?_,fun _ => ⟨_,ho _ _⟩⟩
          apply h.token.set
          rw [OrdMap.getD,hg,Option.getD_some]
          exact (h.token.get? hg).assign hp'.1 hok

theorem readText_canonical {s : Str} (h : Plain s) : Canonical (readText s ∅) := by
  have hf : ∀ ls : List Str, (∀ l ∈ ls, l ∈ file s) → ∀ st, ReadingOk st →
      ReadingOk (ls.foldl readLine st) := by
    intro ls
    induction ls with
    | nil => intro _ st hst; exact hst
    | cons l ls ih =>
      intro hm st hst
      have hl := mem_file (hm l (by simp))
      exact ih (fun x hx => hm x (by simp [hx])) _
        (readLine_ok hst hl.1 hl.2.1 hl.2.2 (h l (hm l (by simp))))
  exact (hf (file s) (fun _ h => h) ⟨[],∅⟩ ⟨by simp [Canonical],by simp⟩).token

theorem mem_setAll {p : Params} {es : List (Str × Str)} {x : Str × Str}
    (h : x ∈ (p.setAll es).entries) : x ∈ p.entries ∨ x ∈ es := by
  induction es generalizing p with
  | nil => exact Or.inl h
  | cons e es ih =>
    rcases ih h with h | h
    · rcases OrdMap.mem_set h with rfl | h
      · exact Or.inr (by simp)
      · exact Or.inl h
    · exact Or.inr (List.mem_cons_of_mem _ h)

theorem setAll_val (p data : Params) (k : Str) :
    Params.val (p.setAll data.entries) k = (data.get? k).getD (p.val k) := by
  unfold Params.val OrdMap.getD
  cases hk : data.get? k with
  | some v => rw [OrdMap.get?_setAll_of_mem _ data.nodup (OrdMap.get?_eq_some.mp hk)]; rfl
  | none => rw [OrdMap.get?_setAll_of_not_mem _ (OrdMap.get?_eq_none.mp hk)]; rfl

theorem readBack_get? {n : Str} {p : Params} {k v : Str} (hk : skipped k = false)
    (h : p.get? k = some v) : (readBack n p).get? k = some v := by
  rw [OrdMap.get?_eq_some] at h ⊢
  rw [readBack_entries]
  exact List.mem_cons_of_mem _ (List.mem_filter.mpr ⟨h,by simp [hk]⟩)

/-- The data of an update: keys the writer leaves out, or parameters a line can carry. -/
def Carried (data : Params) : Prop := ∀ x ∈ data.entries, skipped x.1 = true ∨ ParamOk x.1 x.2

instance (data : Params) : Decidable (Carried data) :=
  inferInstanceAs (Decidable (∀ x ∈ data.entries, _))

/-- The data is found under the ID, but for the keys that are left out, and the other
entries have not changed. -/
structure Faithful (t t' : Token) (id : Str) (data : Params) : Prop where
  own : ∀ x ∈ data.entries, skipped x.1 = false → (t'.getD id ∅).get? x.1 = some x.2
  others : ∀ j, j ≠ id → t'.get? j = t.get? j

/-- The text of an update, read back: the data is assigned, and the entry is as it is read back. -/
theorem readText_update {t : Token} (h : Canonical t) {id : Str} {p data : Params}
    (hp : t.get? id = some p) (hd : Carried data) : TokenOk (t.set id (p.setAll data.entries)) ∧
    readText (updateText env (t.set id (p.setAll data.entries))) ∅ =
      t.set id (readBack id (p.setAll data.entries)) := by
  have hep := h.get? hp
  have hshown : ∀ x ∈ shown (p.setAll data.entries), ParamOk x.1 x.2 := by
    intro x hx
    obtain ⟨hx,hsk⟩ := List.mem_filter.mp hx
    have hsk' : skipped x.1 = false := by simpa using hsk
    rcases mem_setAll hx with hx | hx
    · exact hep.shown.2 x (List.mem_filter.mpr ⟨hx,hsk⟩)
    · exact (hd x hx).resolve_left (by simp [hsk'])
  have hok : TokenOk (t.set id (p.setAll data.entries)) := by
    have key : ∀ e ∈ (t.set id (p.setAll data.entries)).entries,
        IdentOk e.1 ∧ ∀ x ∈ shown e.2, ParamOk x.1 x.2 := by
      intro e he
      rcases OrdMap.mem_set he with rfl | he
      · exact ⟨hep.ident,hshown⟩
      · exact ⟨(h e he).ident,(h e he).shown.2⟩
    exact ⟨fun e he => (key e he).1,fun e he => (key e he).2⟩
  have hb : readBackAll (t.set id (p.setAll data.entries)) =
      (readBackAll t).set id (readBack id (p.setAll data.entries)) := OrdMap.mapEntries_set _ _ _ _
  exact ⟨hok,by rw [readText_updateText env hok,hb,h.readBackAll]⟩

/-- An accepted update of a file without private keys: the entry is as it is read back after the
data is assigned, and the text holds what it should. -/
theorem update_entries {w : World} (hc : Coherent sec fil w) (hf : Plain (text sec fil w))
    {id : Str} {data : Params} (hd : Carried data)
    (ho : (iniTokenUpdate env sec fil id data w).1 = .ok) :
    ∃ p t, (entries sec fil w).get? id = some p ∧ TokenOk t ∧
      text sec fil (iniTokenUpdate env sec fil id data w).2 = updateText env t ∧
      entries sec fil (iniTokenUpdate env sec fil id data w).2 =
        (entries sec fil w).set id (readBack id (p.setAll data.entries)) := by
  rcases iniTokenUpdate_spec env sec fil id data hc with ⟨p,hp,hw⟩ | ⟨hn,-,-⟩
  · obtain ⟨hok,hr⟩ := readText_update env (readText_canonical hf) hp hd
    have ht : text sec fil (iniTokenUpdate env sec fil id data w).2 =
        updateText env ((entries sec fil w).set id (p.setAll data.entries)) := by
      rw [text,hw.done ho,OrdMap.getD,OrdMap.get?_set_self,Option.getD_some,merge_eq_setAll]
    refine ⟨p,_,hp,hok,ht,?_⟩
    rw [entries,ht]
    exact hr
  · rw [hn] at ho
    simp at ho

theorem update_faithful {w : World} (hc : Coherent sec fil w) (hf : Plain (text sec fil w))
    {id : Str} {data : Params} (hd : Carried data)
    (ho : (iniTokenUpdate env sec fil id data w).1 = .ok) :
    Faithful (entries sec fil w) (entries sec fil (iniTokenUpdate env sec fil id data w).2)
      id data := by
  obtain ⟨p,-,-,-,-,he⟩ := update_entries env sec fil hc hf hd ho
  rw [he]
  constructor
  · intro x hx hk
    rw [OrdMap.getD,OrdMap.get?_set_self]
    exact readBack_get? hk (OrdMap.get?_setAll_of_mem _ data.nodup hx)
  · intro j hj
    rw [OrdMap.get?_set_ne _ _ (Ne.symm hj)]

/-- Whatever the reader opened has its ID in it. -/
theorem readText_ne_empty {s n : Str} {p : Params} (h : (readText s ∅).get? n = some p) : p ≠ ∅ := by
  have hl : ∀ (st : Reading) (l : Str), (∀ n p, st.token.get? n = some p → p ≠ ∅) →
      ∀ n p, (readLine st l).token.get? n = some p → p ≠ ∅ := by
    intro st l hst n p hp
    have ha : ∀ m a b, (st.assign m a b).token.get? n = some p → p ≠ ∅ := by
      intro m a b hp
      rw [Reading.assign,OrdMap.get?_set] at hp
      split at hp
      · rw [Option.some.injEq] at hp
        rw [← hp]
        exact OrdMap.set_ne_empty _ _ _
      · exact hst n p hp
    unfold readLine at hp
    split at hp
    · exact hst n p hp
    · split at hp
      · exact ha _ _ _ hp
      · split at hp
        · exact hst n p hp
        · split at hp
          · exact hst n p hp
          · exact ha _ _ _ hp
  have hf : ∀ (ls : List Str) (st : Reading), (∀ n p, st.token.get? n = some p → p ≠ ∅) →
      ∀ n p, (List.foldl readLine st ls).token.get? n = some p → p ≠ ∅ := by
    intro ls
    induction ls with
    | nil => intro st hst; exact hst
    | cons l ls ih => intro st hst; exact ih _ (hl st l hst)
  exact hf (file s) ⟨[],∅⟩ (by simp) n p h

/-- The data of a save: an `ID` that a section line can carry, if any, and trimmed keys and
values that are left out or that a line can carry. -/
structure SaveCarried (data : Params) : Prop where
  ident : data.val "ID" = [] ∨ IdentOk (data.val "ID")
  param : ∀ x ∈ data.entries, x.1 = ("ID" : Str) ∨
    trim x.1 = x.1 ∧ trim x.2 = x.2 ∧ (skipped x.1 = true ∨ ParamOk x.1 x.2)

theorem SaveCarried.dataOk {data : Params} (hd : SaveCarried data) :
    DataOk (if data.val "ID" = [] then data else data.erase "ID") := by
  have he : ∀ x ∈ (data.erase "ID").entries, trim x.1 = x.1 ∧ trim x.2 = x.2 := by
    intro x hx
    obtain ⟨hx,hk⟩ := List.mem_filter.mp hx
    rcases hd.param x hx with h | h
    · simp [h] at hk
    · exact ⟨h.1,h.2.1⟩
  split
  · rename_i hi
    have hx : ∀ x ∈ data.entries, trim x.1 = x.1 ∧ trim x.2 = x.2 := by
      intro x hx
      rcases hd.param x hx with h | h
      · have hg := OrdMap.get?_eq_some.mpr (show (x.1,x.2) ∈ data.entries from hx)
        rw [Params.val,OrdMap.getD,← h,hg] at hi
        change x.2 = [] at hi
        rw [h,hi]
        decide
      · exact ⟨h.1,h.2.1⟩
    exact ⟨fun x h => (hx x h).1,fun x h => (hx x h).2,hi⟩
  · exact ⟨fun x h => (he x h).1,fun x h => (he x h).2,by
      simp [Params.val,OrdMap.getD,OrdMap.get?_erase]⟩

theorem saved_given (data : Params) :
    saved (if data.val "ID" = [] then data else data.erase "ID") = data.erase "ID" := by
  split
  · rfl
  · apply OrdMap.ext
    simp [saved,OrdMap.erase,OrdMap.discard,List.filter_filter]

theorem SaveCarried.params {data : Params} (hd : SaveCarried data) :
    ∀ e ∈ shown (data.erase "ID"), ParamOk e.1 e.2 := by
  intro e he
  obtain ⟨he,hs⟩ := List.mem_filter.mp he
  obtain ⟨he,hk⟩ := List.mem_filter.mp he
  have hid : e.1 ≠ ("ID" : Str) := by simpa using hk
  exact ((hd.param e he).resolve_left hid).2.2.resolve_left (by simpa using hs)

theorem readText_save {x n : Str} (hl : LineEnded x) (hi : IdentOk n) (hf : (readText x ∅).get? n = none)
    {data : Params} (hd : SaveCarried data) :
    readText (x ++ saveText env n (if data.val "ID" = [] then data else data.erase "ID")) ∅ =
      (readText x ∅).set n (readBack n (data.erase "ID")) := by
  have ht := readText_saveText env hl hi hf hd.dataOk (by rw [saved_given]; exact hd.params)
  rwa [saved_given] at ht

/-- An accepted save appends the entry as it is read back. -/
theorem save_entries {w : World} (hc : Coherent sec fil w) (hl : LineEnded (text sec fil w))
    {data : Params} (hd : SaveCarried data) {w' : World}
    (ho : iniTokenSave env sec fil data w = some (.ok,w')) :
    ∃ n d, (data.val "ID" ≠ [] → n = data.val "ID") ∧ (entries sec fil w).get? n = none ∧
      IdentOk n ∧ DataOk d ∧ (∀ e ∈ shown (saved d), ParamOk e.1 e.2) ∧
      text sec fil w' = text sec fil w ++ saveText env n d ∧
      entries sec fil w' = (entries sec fil w).set n (readBack n (data.erase "ID")) := by
  rcases iniTokenSave_spec env sec fil hc ho with ⟨n,d,hn,hdd,hw,-⟩ | ⟨hf,-⟩
  · have hdata := hd.dataOk
    have hsv := saved_given data
    rw [← hdd] at hdata hsv
    have hfresh : (entries sec fil w).get? n = none := by
      by_cases hi : data.val "ID" = []
      · exact (hn.drawn hi).2
      · have he := (hn.given hi).2
        cases hg : (entries sec fil w).get? n with
        | none => rfl
        | some p =>
          rw [OrdMap.getD,hg,Option.getD_some,OrdMap.isEmpty_iff] at he
          exact absurd he (readText_ne_empty hg)
    have hident : IdentOk n := by
      by_cases hi : data.val "ID" = []
      · exact hex_identOk (env.keys_hex n (hn.drawn hi).1)
      · rw [(hn.given hi).1]
        exact hd.ident.resolve_left hi
    have hp : ∀ e ∈ shown (saved d), ParamOk e.1 e.2 := by
      rw [hsv]
      exact hd.params
    have ht := readText_saveText env hl hident hfresh hdata hp
    have hx : text sec fil w' = text sec fil w ++ saveText env n d := by
      rw [text,hw.done rfl,OrdMap.getD,OrdMap.get?_set_self,Option.getD_some]
    refine ⟨n,d,fun hi => (hn.given hi).1,hfresh,hident,hdata,hp,hx,?_⟩
    rw [entries,hx,ht,hsv]
    rfl
  · simp at hf

theorem save_faithful {w : World} (hc : Coherent sec fil w) (hl : LineEnded (text sec fil w))
    {data : Params} (hd : SaveCarried data) {w' : World}
    (ho : iniTokenSave env sec fil data w = some (.ok,w')) :
    ∃ id, (data.val "ID" ≠ [] → id = data.val "ID") ∧ (entries sec fil w).get? id = none ∧
      Faithful (entries sec fil w) (entries sec fil w') id (data.erase "ID") := by
  obtain ⟨n,-,hi,hf,-,-,-,-,he⟩ := save_entries env sec fil hc hl hd ho
  refine ⟨n,hi,hf,?_,?_⟩
  · intro x hx hk
    rw [he,OrdMap.getD,OrdMap.get?_set_self]
    exact readBack_get? hk (OrdMap.get?_eq_some.mpr hx)
  · intro j hj
    rw [he,OrdMap.get?_set_ne _ _ (Ne.symm hj)]

/-- An accepted update or save of data the lines can carry is faithful. -/
theorem write_faithful {w : World} (hc : Coherent sec fil w) :
    (∀ env₁ id data w', Plain (text sec fil w) → Carried data →
      iniTokenUpdate env₁ sec fil id data w = (.ok,w') →
      Faithful (iniTokenGet env sec fil ∅ w).1 (iniTokenGet env sec fil ∅ w').1 id data) ∧
    ∀ env₁ data w', LineEnded (text sec fil w) → SaveCarried data →
      iniTokenSave env₁ sec fil data w = some (.ok,w') →
      ∃ id, (data.val "ID" ≠ [] → id = data.val "ID") ∧
        (iniTokenGet env sec fil ∅ w).1.get? id = none ∧
        Faithful (iniTokenGet env sec fil ∅ w).1 (iniTokenGet env sec fil ∅ w').1 id
          (data.erase "ID") := by
  rw [iniTokenGet_fst env sec fil hc]
  constructor
  · intro env₁ id data w' hf hd ho
    have hw' : Coherent sec fil w' := by
      rcases iniTokenUpdate_spec env₁ sec fil id data hc with ⟨p,-,hw⟩ | ⟨-,-,hw⟩
      · rw [ho] at hw; exact hw.coherent
      · have hw₁ := hw []
        rw [ho] at hw₁
        exact hw₁.coherent
    have h := update_faithful env₁ sec fil hc hf hd (by rw [ho])
    rw [ho] at h
    rw [iniTokenGet_fst env sec fil hw']
    exact h
  · intro env₁ data w' hl hd ho
    have hw' : Coherent sec fil w' := by
      rcases iniTokenSave_spec env₁ sec fil hc ho with ⟨_,_,-,-,hw,-⟩ | ⟨-,hw⟩
      · exact hw.coherent
      · exact (hw []).coherent
    rw [iniTokenGet_fst env sec fil hw']
    exact save_faithful env₁ sec fil hc hl hd ho

/-- A file with a comment, an entry that is not touched and one that is. -/
def vlanWorld : World := World.ofFiles [("network","eth.cfg",
  "# interfaces\nID=lan\nNAME = lan\n\nID=dmz\nNAME=dmz\nNOTE=\n")]

def noteData : Params := OrdMap.empty.setAll [("__DATA_ID","dmz"),("NOTE","second floor")]

def wanData : Params := OrdMap.empty.setAll [("NAME","wan"),("ID","wan")]

theorem write_faithful_vlan :
    Faithful (iniTokenGet noonEnv "network" "eth.cfg" ∅ vlanWorld).1
      (iniTokenGet noonEnv "network" "eth.cfg" ∅
        (iniTokenUpdate noonEnv "network" "eth.cfg" "dmz" noteData vlanWorld).2).1 "dmz" noteData ∧
    ∃ w' id, iniTokenSave noonEnv "network" "eth.cfg" wanData vlanWorld = some (.ok,w') ∧
      Faithful (iniTokenGet noonEnv "network" "eth.cfg" ∅ vlanWorld).1
        (iniTokenGet noonEnv "network" "eth.cfg" ∅ w').1 id (wanData.erase "ID") := by
  have h := write_faithful noonEnv "network" "eth.cfg" (w:=vlanWorld) (Or.inl (by decide))
  refine ⟨h.1 noonEnv "dmz" noteData _ (by decide) (by decide) (Prod.ext (by decide) rfl),?_⟩
  have hs : SaveCarried wanData := ⟨by decide,by decide⟩
  have ho : (iniTokenSave noonEnv "network" "eth.cfg" wanData vlanWorld).map Prod.fst = some .ok := by
    decide
  obtain ⟨⟨ret,w'⟩,hw,rfl⟩ := Option.map_eq_some_iff.mp ho
  obtain ⟨id,-,-,hf⟩ := h.2 noonEnv wanData w' (by decide) hs hw
  exact ⟨w',id,hw,hf⟩

def hintData : Params := OrdMap.empty.setAll [("ID","lan"),("__HINT","x"),("NOTE","a=b")]

/-- A private key is dropped, and a value is cut at its first equals sign. -/
theorem write_not_faithful :
    (iniTokenSave noonEnv "network" "eth.cfg" hintData ⟨∅,∅⟩).map (fun r =>
      (r.1,((iniTokenGet noonEnv "network" "eth.cfg" ∅ r.2).1.getD "lan" ∅).entries)) =
    some (Ret.ok,[(dataId,Str.of "lan"),(Str.of "NOTE",Str.of "a")]) := by decide

end Registry
end Mybox
