import Mybox.AliasRuns
import Mybox.UniqueNames

/-! Values as they are read back. What a command puts into an entry may have blanks around it and equals signs
in it; the file then holds what the reader makes of it. -/
namespace Mybox
namespace Registry

open Php RegistryFormat References

variable (env : Env) {sec fil : Str}

def Alike (l l' : Str) : Prop :=
  l.head? = some '#' ∧ l'.head? = some '#' ∨ l.head? ≠ some '#' ∧ l'.head? ≠ some '#' ∧
    sectionName l = sectionName l' ∧ splitParam l = splitParam l'

theorem Alike.refl (l : Str) : Alike l l := by
  by_cases h : l.head? = some '#'
  · exact Or.inl ⟨h,h⟩
  · exact Or.inr ⟨h,h,rfl,rfl⟩

theorem readLine_alike {l l' : Str} (h : Alike l l') (st : Reading) : readLine st l = readLine st l' := by
  rcases h with ⟨h,h'⟩ | ⟨h,h',hs,hp⟩
  · rw [readLine,readLine,if_pos h,if_pos h']
  · rw [readLine,readLine,if_neg h,if_neg h',hs,hp]

def AlikeText (s s' : Str) : Prop := List.Forall₂ Alike (file s) (file s')

theorem AlikeText.refl (s : Str) : AlikeText s s := List.forall₂_same.mpr fun l _ => Alike.refl l

theorem foldl_alike {ls ls' : List Str} (h : List.Forall₂ Alike ls ls') (st : Reading) :
    ls.foldl readLine st = ls'.foldl readLine st := by
  induction h generalizing st with
  | nil => rfl
  | cons hl _ ih => rw [List.foldl_cons,List.foldl_cons,readLine_alike hl,ih]

theorem readText_alike {s s' : Str} (h : AlikeText s s') (t : Token) : readText s t = readText s' t := by
  rw [readText,readText,foldl_alike h]

theorem plain_alike {s s' : Str} (h : AlikeText s s') (hs : Plain s') : Plain s := by
  have key : ∀ {ls ls' : List Str}, List.Forall₂ Alike ls ls' → (∀ l ∈ ls', PlainLine l) →
      ∀ l ∈ ls, PlainLine l := by
    intro ls ls' hf
    induction hf with
    | nil => exact fun _ => by simp
    | cons hl _ ih =>
      intro hp
      rw [List.forall_mem_cons] at hp ⊢
      refine ⟨?_,ih hp.2⟩
      rcases hl with ⟨hc,-⟩ | ⟨-,hc,hn,hk⟩
      · exact Or.inl hc
      · rw [PlainLine,hn,hk]
        exact Or.inr (hp.1.resolve_left hc)
  exact key h hs

theorem AlikeText.line {l l' s s' : Str} (hl : '\n' ∉ l) (hl' : '\n' ∉ l') (hn : trim l ≠ [])
    (hn' : trim l' ≠ []) (h : Alike (trim l) (trim l')) (hs : AlikeText s s') :
    AlikeText (l ++ '\n' :: s) (l' ++ '\n' :: s') := by
  rw [AlikeText,file_line hl,file_line hl',if_neg hn,if_neg hn']
  exact .cons h hs

theorem rdropWhile_append_cons (p : Char → Bool) {c : Char} (hc : p c = false) (a b : Str) :
    (a ++ c::b).rdropWhile p = a ++ c :: b.rdropWhile p := by
  induction b using List.reverseRecOn with
  | nil => rw [List.rdropWhile_nil,List.rdropWhile_concat_neg _ _ _ (by simp [hc])]
  | append_singleton b d ih =>
    rw [← List.cons_append,← List.append_assoc]
    by_cases hd : p d = true
    · rw [List.rdropWhile_concat_pos _ _ _ hd,List.rdropWhile_concat_pos _ _ _ hd,ih]
    · rw [List.rdropWhile_concat_neg _ _ _ hd,List.rdropWhile_concat_neg _ _ _ hd]
      simp

theorem trim_keyLine {k : Str} (hk : KeyName k) (v : Str) :
    trim (paramLine (k,v)) = paramLine (k,v.rdropWhile trimChar) := by
  obtain ⟨c,s,rfl⟩ := List.exists_cons_of_ne_nil hk.ne
  have hc : ¬trimChar c = true := by simp [hk.black c (by simp)]
  rw [trim,LineText.strip,paramLine,List.cons_append,List.dropWhile_cons_of_neg hc,← List.cons_append,
    rdropWhile_append_cons trimChar (by decide)]
  rfl

theorem carried_read {v : Str} (h : '\n' ∉ v) : ReadValue (carried v) := by
  rw [← splitParam_fst]
  exact (splitParam_read h).1

/-- A parameter that is left out, or that a command or the reader may have put into the array. -/
def Writable (x : Str × Str) : Prop :=
  skipped x.1 = true ∨ '\n' ∉ x.2 ∧ KeyName x.1 ∨ ParamOk x.1 x.2

theorem Writable.alike {x : Str × Str} (h : Writable x) (hs : skipped x.1 = false) :
    '\n' ∉ paramLine x ∧ trim (paramLine x) ≠ [] ∧ ParamOk x.1 (carried x.2) ∧
      Alike (trim (paramLine x)) (paramLine (x.1,carried x.2)) := by
  obtain ⟨k,v⟩ := x
  rcases h with h | ⟨hn,hk⟩ | h
  · simp [hs] at h
  · have hv := carried_read hn
    have hp : ParamOk k (carried v) := hk.paramOk hv.1 hv.2.1 hv.2.2
    have head : ∀ w : Str, (paramLine (k,w)).head? ≠ some '#' := fun w => by
      rw [paramLine,List.head?_append_of_ne_nil _ hk.ne]
      exact hk.comment
    refine ⟨?_,by rw [trim_keyLine hk]; simp [paramLine],hp,Or.inr ⟨?_,head _,?_,?_⟩⟩
    · simp only [paramLine,List.mem_append,List.mem_cons,not_or]
      exact ⟨hk.newline,by decide,hn⟩
    · rw [trim_keyLine hk]
      exact head _
    · rw [trim_keyLine hk,sectionName_paramLine hk,sectionName_paramLine hk]
    · rw [splitParam_trim,splitParam_paramLine hp]
      refine Prod.ext ?_ ?_
      · rw [splitParam_fst,paramLine,carried_append,carried_eq (trim_of_black hk.black) hk.eq]
      · rw [paramLine,splitParam_snd_append hk.eq]
  · have hc : carried v = v := carried_eq h.val h.valEq
    simp only [hc,trim_paramLine h]
    exact ⟨newline_paramLine h,by simp [paramLine],h,Alike.refl _⟩

/-- The value a parameter is read back with; one that is left out stays as it is. -/
def carriedValue (k v : Str) : Str := if skipped k then v else carried v

def carriedParams (p : Params) : Params := p.mapEntries carriedValue

def carriedToken (t : Token) : Token := t.mapEntries fun _ p => carriedParams p

theorem AlikeText.params {es : List (Str × Str)} (h : ∀ x ∈ es, Writable x) {s s' : Str}
    (hs : AlikeText s s') : AlikeText ((es.flatMap fun x => writeParam x.1 x.2) ++ s)
      (((es.map fun x => (x.1,carriedValue x.1 x.2)).flatMap fun x => writeParam x.1 x.2) ++ s') := by
  induction es with
  | nil => exact hs
  | cons x es ih =>
    have ih' := ih fun y hy => h y (List.mem_cons_of_mem x hy)
    rw [List.flatMap_cons,List.map_cons,List.flatMap_cons,List.append_assoc,List.append_assoc]
    cases hk : skipped x.1 with
    | true => simpa [writeParam,hk] using ih'
    | false =>
      obtain ⟨h₁,h₂,h₃,h₄⟩ := (h x (by simp)).alike hk
      have hw : ∀ (v u : Str), writeParam x.1 v ++ u = paramLine (x.1,v) ++ '\n' :: u := fun v u => by
        simp [writeParam,hk,paramLine]
      have hc : carriedValue x.1 x.2 = carried x.2 := by
        rw [carriedValue,hk]
        rfl
      rw [hw,hw,hc]
      exact ih'.line h₁ (newline_paramLine h₃) h₂ (by rw [trim_paramLine h₃]; simp [paramLine])
        (by rw [trim_paramLine h₃]; exact h₄)

theorem AlikeText.tokens {es : List (Str × Params)} (hi : ∀ e ∈ es, IdentOk e.1)
    (h : ∀ e ∈ es, ∀ x ∈ e.2.entries, Writable x) :
    AlikeText (es.flatMap fun e => writeEntry e.1 e.2)
      ((es.map fun e => (e.1,carriedParams e.2)).flatMap fun e => writeEntry e.1 e.2) := by
  induction es with
  | nil => exact AlikeText.refl _
  | cons e es ih =>
    have ih' := ih (fun y hy => hi y (List.mem_cons_of_mem e hy)) fun y hy => h y (List.mem_cons_of_mem e hy)
    have he := hi e (by simp)
    have hn := newline_sectionLine he
    have ht : trim (sectionLine e.1) ≠ [] := by
      rw [trim_sectionLine he]
      exact sectionLine_ne e.1
    have hw : ∀ (p : Params) (s : Str), writeEntry e.1 p ++ s = [] ++ '\n' :: (sectionLine e.1 ++ '\n' ::
        ((p.entries.flatMap fun x => writeParam x.1 x.2) ++ s)) := fun p s => by
      simp [writeEntry,he.ne,sectionLine]
    have hb : ∀ s : Str, file ([] ++ '\n' :: s) = file s := fun s => file_line (by simp) s
    rw [List.flatMap_cons,List.map_cons,List.flatMap_cons,hw,hw,AlikeText,hb,hb]
    exact (ih'.params (h e (by simp))).line hn hn ht ht (Alike.refl _)

theorem alike_updateText {t : Token} (hi : ∀ e ∈ t.entries, IdentOk e.1)
    (h : ∀ e ∈ t.entries, ∀ x ∈ e.2.entries, Writable x) :
    AlikeText (updateText env t) (updateText env (carriedToken t)) := by
  obtain ⟨c,hc⟩ := file_updateText env t
  obtain ⟨c',hc'⟩ := file_updateText env (carriedToken t)
  rw [AlikeText,hc,hc']
  exact .cons (Or.inl ⟨rfl,rfl⟩) (AlikeText.tokens hi h)

theorem carriedParams_setAll (p : Params) (es : List (Str × Str)) :
    carriedParams (p.setAll es) = (carriedParams p).setAll (es.map fun x => (x.1,carriedValue x.1 x.2)) := by
  induction es generalizing p with
  | nil => rfl
  | cons x es ih =>
    rw [OrdMap.setAll_cons,ih,List.map_cons,OrdMap.setAll_cons,carriedParams,OrdMap.mapEntries_set]
    rfl

theorem carriedParams_entry {n : Str} {p : Params} (h : EntryOk n p) : carriedParams p = p := by
  apply OrdMap.ext
  have hv : ∀ x ∈ p.entries, carriedValue x.1 x.2 = x.2 := by
    intro x hx
    unfold carriedValue
    split
    · rfl
    · rename_i hs
      have ho := h.shown.2 x (List.mem_filter.mpr ⟨hx,by simpa using hs⟩)
      exact carried_eq ho.val ho.valEq
  have hm : p.entries.map (fun x => (x.1,carriedValue x.1 x.2)) = p.entries.map id :=
    List.map_congr_left fun x hx => by rw [hv x hx]; rfl
  exact hm.trans (List.map_id _)

theorem carriedToken_canonical {t : Token} (h : Canonical t) : carriedToken t = t := by
  apply OrdMap.ext
  have hm : t.entries.map (fun e => (e.1,carriedParams e.2)) = t.entries.map id :=
    List.map_congr_left fun e he => by rw [carriedParams_entry (h e he)]; rfl
  exact hm.trans (List.map_id _)

theorem EntryOk.writable {n : Str} {p : Params} (h : EntryOk n p) : ∀ x ∈ p.entries, Writable x := by
  intro x hx
  cases hs : skipped x.1 with
  | true => exact Or.inl hs
  | false => exact Or.inr (Or.inr (h.shown.2 x (List.mem_filter.mpr ⟨hx,by simp [hs]⟩)))

def WritableData (data : Params) : Prop := ∀ x ∈ data.entries, Writable x

instance (x : Str × Str) : Decidable (Writable x) := inferInstanceAs (Decidable (_ ∨ _))

instance (data : Params) : Decidable (WritableData data) := inferInstanceAs (Decidable (∀ x ∈ data.entries, _))

theorem WritableData.carried {data : Params} (h : WritableData data) : Carried (carriedParams data) := by
  intro y hy
  obtain ⟨x,hx,rfl⟩ := List.mem_map.mp hy
  by_cases hs : skipped x.1 = true
  · exact Or.inl hs
  · right
    dsimp only
    rw [carriedValue,if_neg hs]
    exact ((h x hx).alike (Bool.eq_false_iff.mpr hs)).2.2.1

/-- The text of an update, read back: the entry has the data as it is read. -/
theorem alike_update {t : Token} (h : Canonical t) {id : Str} {p data : Params} (hp : t.get? id = some p)
    (hd : WritableData data) : AlikeText (updateText env (t.set id (p.setAll data.entries)))
      (updateText env (t.set id (p.setAll (carriedParams data).entries))) := by
  have hep := h.get? hp
  have hall : ∀ e ∈ (t.set id (p.setAll data.entries)).entries, IdentOk e.1 ∧ ∀ x ∈ e.2.entries, Writable x := by
    intro e he
    rcases OrdMap.mem_set he with rfl | he
    · refine ⟨hep.ident,fun x hx => ?_⟩
      rcases mem_setAll hx with hx | hx
      · exact hep.writable x hx
      · exact hd x hx
    · exact ⟨(h e he).ident,(h e he).writable⟩
  have ht : carriedToken (t.set id (p.setAll data.entries)) =
      t.set id (p.setAll (carriedParams data).entries) := by
    rw [carriedToken,OrdMap.mapEntries_set,show t.mapEntries (fun _ p => carriedParams p) = t from
      carriedToken_canonical h,carriedParams_setAll,carriedParams_entry hep]
    rfl
  have ha := alike_updateText env (fun e he => (hall e he).1) fun e he => (hall e he).2
  rwa [ht] at ha

/-- The data of a new entry: keys of a command, and values without newlines. -/
def NewData (data : Params) : Prop :=
  ∀ x ∈ data.entries, (KeyName x.1 ∧ skipped x.1 = false) ∧ '\n' ∉ x.2

instance (data : Params) : Decidable (NewData data) := inferInstanceAs (Decidable (∀ x ∈ data.entries, _))

theorem NewData.ident {data : Params} (h : NewData data) : data.get? "ID" = none := by
  rw [OrdMap.get?_eq_none]
  intro hm
  obtain ⟨x,hx,hk⟩ := List.mem_map.mp hm
  exact (h x hx).1.1.id hk

theorem NewData.value {data : Params} (h : NewData data) {x : Str × Str} (hx : x ∈ data.entries) :
    carriedValue x.1 x.2 = carried x.2 := by
  rw [carriedValue,(h x hx).1.2]
  rfl

theorem NewData.saveCarried {data : Params} (h : NewData data) : SaveCarried (carriedParams data) := by
  constructor
  · left
    rw [Params.val,OrdMap.getD,carriedParams,OrdMap.get?_mapEntries,h.ident]
    rfl
  · intro y hy
    obtain ⟨x,hx,rfl⟩ := List.mem_map.mp hy
    have hk := (h x hx).1.1
    have hv := carried_read (h x hx).2
    dsimp only
    rw [h.value hx]
    exact Or.inr ⟨trim_of_black hk.black,hv.1,Or.inr (hk.paramOk hv.1 hv.2.1 hv.2.2)⟩

theorem NewData.saveParams {data : Params} (h : NewData data) :
    (data.entries.flatMap fun x => saveParam x.1 x.2) =
      (data.entries.map fun x => (x.1,trim x.2)).flatMap fun x => writeParam x.1 x.2 := by
  unfold NewData at h
  revert h
  generalize data.entries = es
  intro h
  induction es with
  | nil => rfl
  | cons x es ih =>
    have hk := (h x (by simp)).1
    rw [List.flatMap_cons,ih fun y hy => h y (List.mem_cons_of_mem x hy),List.map_cons,List.flatMap_cons,saveParam,
      trim_of_black hk.1.black,writeParam]
    simp [hk.2,hk.1.id]

theorem alike_saveText {x n : Str} {data : Params} (hl : LineEnded x) (hn : IdentOk n) (h : NewData data) :
    AlikeText (x ++ saveText env n data) (x ++ saveText env n (carriedParams data)) := by
  have hnew : NewData (carriedParams data) := by
    intro y hy
    obtain ⟨z,hz,rfl⟩ := List.mem_map.mp hy
    refine ⟨(h z hz).1,?_⟩
    dsimp only
    rw [h.value hz]
    exact (carried_read (h z hz).2).2.1
  obtain ⟨c,hc⟩ := file_saveText_new env hn data
  obtain ⟨c',hc'⟩ := file_saveText_new env hn (carriedParams data)
  have hw : ∀ y ∈ data.entries.map (fun x => (x.1,trim x.2)), Writable y := by
    intro y hy
    obtain ⟨z,hz,rfl⟩ := List.mem_map.mp hy
    exact Or.inr (Or.inl ⟨trim_line (h z hz).2,(h z hz).1.1⟩)
  have hv : (data.entries.map fun x => (x.1,trim x.2)).map (fun x => (x.1,carriedValue x.1 x.2)) =
      (carriedParams data).entries.map fun x => (x.1,trim x.2) := by
    rw [List.map_map,carriedParams,OrdMap.mapEntries,List.map_map]
    refine List.map_congr_left fun z hz => ?_
    have ht := (carried_read (h z hz).2).1
    simp only [Function.comp_apply]
    rw [carriedValue,(h z hz).1.2,if_neg (by simp),carried_trim,h.value hz,ht]
  have hp := AlikeText.params hw (AlikeText.refl [])
  rw [hv,List.append_nil,List.append_nil,← h.saveParams,← hnew.saveParams] at hp
  rw [AlikeText,file_append hl,file_append hl,hc,hc']
  exact List.rel_append (AlikeText.refl x) (.cons (Or.inl ⟨rfl,rfl⟩) (.cons (Alike.refl _) hp))

/-- The text of a save, read back: a new entry with the data as it is read. -/
theorem readText_newEntry {x n : Str} {data : Params} (hl : LineEnded x) (hn : IdentOk n)
    (hf : (readText x ∅).get? n = none) (hd : NewData data) :
    readText (x ++ saveText env n data) ∅ = (readText x ∅).set n (readBack n (carriedParams data)) ∧
    (Plain x → Plain (x ++ saveText env n data)) := by
  have ha := alike_saveText env hl hn hd
  have hs := hd.saveCarried
  have hcid : (carriedParams data).val "ID" = [] := by
    rw [Params.val,OrdMap.getD,carriedParams,OrdMap.get?_mapEntries,hd.ident]
    rfl
  have hdo := hs.dataOk
  rw [if_pos hcid] at hdo
  have her : (carriedParams data).erase "ID" = carriedParams data := by
    apply OrdMap.ext
    refine List.filter_eq_self.mpr fun y hy => ?_
    obtain ⟨x,hx,rfl⟩ := List.mem_map.mp hy
    simpa using (hd x hx).1.1.id
  have hread := readText_saveText env hl hn hf hdo hs.params
  refine ⟨?_,fun hp => plain_alike ha (plain_saveText env hp hl hn hdo hs.params)⟩
  rw [readText_alike ha,hread,saved,her]

/-- An update that succeeds assigns the data to its entry as it is read. -/
theorem iniTokenUpdate_read {w : World} (hc : Coherent sec fil w) (h : Canonical (entries sec fil w)) (id : Str)
    {data : Params} (hd : WritableData data) (ho : (iniTokenUpdate env sec fil id data w).1 = .ok) :
    ∃ p, (entries sec fil w).get? id = some p ∧
      text sec fil (iniTokenUpdate env sec fil id data w).2 =
        updateText env ((entries sec fil w).set id (p.setAll data.entries)) ∧
      entries sec fil (iniTokenUpdate env sec fil id data w).2 =
        (entries sec fil w).set id (readBack id (p.setAll (carriedParams data).entries)) := by
  rcases iniTokenUpdate_spec env sec fil id data hc with ⟨p,hp,hr⟩ | ⟨hn,-,-⟩
  · rw [merge_eq_setAll] at hr
    have ht : text sec fil (iniTokenUpdate env sec fil id data w).2 =
        updateText env ((entries sec fil w).set id (p.setAll data.entries)) := by
      rw [text,hr.done ho,OrdMap.getD,OrdMap.get?_set_self,Option.getD_some]
    refine ⟨p,hp,ht,?_⟩
    rw [entries,ht,readText_alike (alike_update env h hp hd)]
    exact (readText_update env h hp hd.carried).2
  · rw [hn] at ho
    simp at ho

theorem iniTokenSave_read {w : World} (hc : Coherent sec fil w) (hl : LineEnded (text sec fil w)) {data : Params}
    (hd : NewData data) {r : Ret × World} (hr : iniTokenSave env sec fil data w = some r) (ho : r.1 = .ok) :
    ∃ n, IdentOk n ∧ (entries sec fil w).get? n = none ∧
      r.2.reg = w.reg.set (sec,fil) (text sec fil w ++ saveText env n data) ∧
      entries sec fil r.2 = (entries sec fil w).set n (readBack n (carriedParams data)) := by
  have hid : data.val "ID" = [] := by
    rw [Params.val,OrdMap.getD,hd.ident]
    rfl
  rcases iniTokenSave_spec env sec fil hc hr with ⟨n,d,hn,hdd,hw,-⟩ | ⟨hret,-⟩
  · rw [if_pos hid] at hdd
    subst hdd
    have hi : IdentOk n := hex_identOk (env.keys_hex n (hn.drawn hid).1)
    refine ⟨n,hi,(hn.drawn hid).2,hw.done ho,?_⟩
    rw [entries,text,hw.done ho,OrdMap.getD,OrdMap.get?_set_self,Option.getD_some]
    exact (readText_newEntry env hl hi (hn.drawn hid).2 hd).1
  · rw [hret] at ho
    simp at ho

end Registry

namespace Interfaces

open Php RegistryFormat Registry References

end Interfaces
end Mybox
