import Mybox.Deletion
import Mybox.Lookups

/-! What the writing calls leave of the cache, of the written file and of the other files, entry
by entry. -/
namespace Mybox
namespace Registry

open Php RegistryFormat

variable (pcre : Pcre) (env : Env) {sec fil : Str}

def Spares (sec fil : Str) (w w' : World) : Prop :=
  ∀ o, objName sec fil ≠ o → w'.obj.get? o = w.obj.get? o

theorem Spares.trans {w w' w'' : World} (h : Spares sec fil w w') (h' : Spares sec fil w' w'') :
    Spares sec fil w w'' := fun o ho => (h' o ho).trans (h o ho)

theorem iniTokenGet_spares (nt : Token) (w : World) : Spares sec fil w (iniTokenGet env sec fil nt w).2 :=
  fun _ ho => iniTokenGet_obj_ne env nt w ho

theorem iniObjectClean_spares (w : World) : Spares sec fil w (iniObjectClean sec fil w) := by
  intro o ho
  simp only [iniObjectClean,OrdMap.get?_erase,if_neg ho]

theorem iniTokenCheck_spares (name value : Str) (w : World) :
    Spares sec fil w (iniTokenCheck env sec fil name value w).2 :=
  (iniTokenGet_spares env ∅ w).trans (iniObjectClean_spares _)

theorem fileSave_spares (text : Str) (w : World) : Spares sec fil w (fileSave env sec fil text w).2 := by
  unfold fileSave
  split
  · exact fun o ho => iniTokenGet_obj_ne env ∅ _ ho
  · exact fun o ho => rfl

theorem iniTokenUpdate_spares (id : Str) (data : Params) (w : World) :
    Spares sec fil w (iniTokenUpdate env sec fil id data w).2 := by
  have hc : Spares sec fil w (iniObjectClean sec fil (iniTokenGet env sec fil ∅ w).2) :=
    (iniTokenGet_spares env ∅ w).trans (iniObjectClean_spares _)
  have ht := hc.trans (iniTokenCheck_spares env "NAME" (data.val "NAME") _)
  unfold iniTokenUpdate
  dsimp only
  split
  · exact hc
  · split
    · exact ht
    · split
      · split
        · exact ht
        · exact hc
      · split
        · exact ht.trans (fileSave_spares env _ _)
        · exact hc.trans (fileSave_spares env _ _)

theorem saveEntry_spares (id : Str) (data : Params) (w : World) :
    Spares sec fil w (saveEntry env sec fil id data w).2 := by
  have ht := @iniTokenCheck_spares env sec fil "NAME" (data.val "NAME") w
  have hr : Spares sec fil w w := fun _ _ => rfl
  unfold saveEntry
  dsimp only
  split
  · exact ht
  · split
    · split
      · exact hr
      · exact ht
    · split
      · exact hr.trans (fileSave_spares env _ _)
      · exact ht.trans (fileSave_spares env _ _)

theorem iniTokenSave_spares {data : Params} {w : World} {r : Ret × World}
    (h : iniTokenSave env sec fil data w = some r) : Spares sec fil w r.2 := by
  have hc : Spares sec fil w (iniObjectClean sec fil (iniTokenGet env sec fil ∅ w).2) :=
    (iniTokenGet_spares env ∅ w).trans (iniObjectClean_spares _)
  unfold iniTokenSave at h
  split at h
  · simp only [Option.some.injEq] at h
    subst h
    exact fun _ _ => rfl
  · dsimp only at h
    split at h
    · obtain ⟨k,-,rfl⟩ := Option.map_eq_some_iff.mp h
      exact hc.trans (saveEntry_spares env _ _ _)
    · split at h <;> simp only [Option.some.injEq] at h <;> subst h
      · exact hc
      · exact hc.trans (saveEntry_spares env _ _ _)

def Frame (sec fil : Str) (w w' : World) : Prop :=
  ∀ o, objName sec fil ≠ o → fileArrayGet w' o = fileArrayGet w o

theorem Spares.frame {w w' : World} (h : Spares sec fil w w') : Frame sec fil w w' := by
  intro o ho
  rw [fileArrayGet,fileArrayGet,h o ho]

theorem iniTokenUpdate_frame (id : Str) (data : Params) (w : World) :
    Frame sec fil w (iniTokenUpdate env sec fil id data w).2 :=
  (iniTokenUpdate_spares env id data w).frame

theorem iniTokenSave_frame {data : Params} {w : World} {r : Ret × World}
    (h : iniTokenSave env sec fil data w = some r) : Frame sec fil w r.2 :=
  (iniTokenSave_spares env h).frame

theorem Rewrites.freshOn {S : Str → Prop} (hS : ∀ sec, S sec → '_' ∉ sec) {w : World} {r : Ret × World}
    {x : Str} (h : Rewrites sec fil w r x) (hc : Frame sec fil w r.2) (hs : S sec) (hf : FreshOn S w) :
    FreshOn S r.2 := by
  refine hf.step hS hs h.coherent hc fun sec' fil' hne => ?_
  by_cases ho : r.1 = .ok
  · rw [text,text,h.done ho,OrdMap.getD,OrdMap.getD,OrdMap.get?_set_ne _ _ hne]
  · rw [text,text,h.refused ho]

theorem Rewrites.fresh {w : World} {r : Ret × World} {x : Str} (h : Rewrites sec fil w r x)
    (hc : Frame sec fil w r.2) (hs : Looked sec) (hf : Fresh w) : Fresh r.2 :=
  h.freshOn (fun _ => Looked.section_) hc hs hf

theorem iniTokenRemove_freshOn {S : Str → Prop} (n new : Str) {w : World} (h : FreshOn S w) :
    FreshOn S (iniTokenRemove pcre env n new w) := by
  unfold iniTokenRemove
  split
  · exact h
  · exact fun _ _ _ => Or.inl rfl

theorem iniTokenRemove_fresh (n new : Str) {w : World} (h : Fresh w) :
    Fresh (iniTokenRemove pcre env n new w) := iniTokenRemove_freshOn pcre env n new h

/-- The line of a text that `_INI_TOKEN_GET` and the writers agree on. -/
def PlainLine (l : Str) : Prop := l.head? = some '#' ∨ sectionName l ≠ none ∨
  hidden (splitParam l).1 = false ∧ sectionName (paramLine (splitParam l)) = none

theorem plainLine_section {n : Str} (h : IdentOk n) : PlainLine (sectionLine n) :=
  Or.inr (Or.inl (by simp [sectionName_sectionLine h]))

theorem plainLine_param {k v : Str} (h : ParamOk k v) (hk : hidden k = false) :
    PlainLine (paramLine (k,v)) := by
  refine Or.inr (Or.inr ?_)
  rw [splitParam_paramLine h]
  exact ⟨hk,h.plain⟩

theorem plainLine_entry {n : Str} {p : Params} (hn : IdentOk n) (hp : ∀ x ∈ shown p, ParamOk x.1 x.2) :
    ∀ l ∈ entryLines n p, PlainLine l := by
  intro l hl
  rcases List.mem_cons.mp hl with rfl | hl
  · exact plainLine_section hn
  · obtain ⟨x,hx,rfl⟩ := List.mem_map.mp hl
    have hs := (List.mem_filter.mp hx).2
    simp only [skipped,Bool.not_or,Bool.and_eq_true,Bool.not_eq_true'] at hs
    exact plainLine_param (hp x hx) hs.2

theorem plainLine_writeText {t : Token} (h : TokenOk t) : ∀ l ∈ file (writeText t), PlainLine l := by
  have hw := file_writeEntries t.entries h.ident h.param []
  rw [List.append_nil] at hw
  intro l hl
  rw [writeText,hw] at hl
  simp only [file,LineText.lines_nil,List.append_nil] at hl
  obtain ⟨e,he,hl⟩ := List.mem_flatMap.mp hl
  exact plainLine_entry (h.ident e he) (h.param e he) l hl

theorem plain_of_lines {s c : Str} {ls : List Str} (hs : file s = ('#'::c)::ls)
    (h : ∀ l ∈ ls, PlainLine l) : Plain s := by
  intro l hl
  rw [hs] at hl
  rcases List.mem_cons.mp hl with rfl | hl
  · exact Or.inl rfl
  · exact h l hl

theorem plain_updateText {t : Token} (h : TokenOk t) : Plain (updateText env t) := by
  obtain ⟨c,hc⟩ := file_updateText env t
  exact plain_of_lines hc (plainLine_writeText h)

theorem plain_deleteText {t : Token} (h : TokenOk t) : Plain (deleteText env t) := by
  obtain hc | ⟨c,hc⟩ := file_deleteText env t
  · intro l hl
    rw [hc] at hl
    exact plainLine_writeText h l hl
  · exact plain_of_lines hc (plainLine_writeText h)

theorem plain_saveText {x id : Str} {d : Params} (hx : Plain x) (hl : LineEnded x) (hi : IdentOk id)
    (hd : DataOk d) (hp : ∀ e ∈ shown (saved d), ParamOk e.1 e.2) :
    Plain (x ++ saveText env id d) := by
  obtain ⟨c,hs⟩ := file_saveText env hi hd hp
  intro l hm
  rw [file_append hl,hs] at hm
  rcases List.mem_append.mp hm with hm | hm
  · exact hx l hm
  · rcases List.mem_cons.mp hm with rfl | hm
    · exact Or.inl rfl
    · exact plainLine_entry hi hp l hm

open References

/-- Two lines that are read alike, or give a parameter two values. -/
inductive LineRel (R : Str → Str → Str → Prop) : Str → Str → Prop
  | same {l : Str} : (∀ k v, parameter l = some (k,v) → R k v v) → LineRel R l l
  | value {k v v' : Str} : ParamOk k v → ParamOk k v' → hidden k = false → R k v v' →
      LineRel R (paramLine (k,v)) (paramLine (k,v'))

def TokenRel (R : Str → Str → Str → Prop) : Token → Token → Prop :=
  OrdMap.Rel fun _ p p' => OrdMap.Rel R p p'

structure ReadingRel (R : Str → Str → Str → Prop) (st st' : Reading) : Prop where
  tname : st'.tname = st.tname
  token : TokenRel R st.token st'.token

theorem ReadingRel.assign {R : Str → Str → Str → Prop} {st st' : Reading} (h : ReadingRel R st st')
    (n : Str) {a b b' : Str} (hr : R a b b') : ReadingRel R (st.assign n a b) (st'.assign n a b') := by
  refine ⟨rfl,h.token.set ?_⟩
  rcases h.token.get? n with ⟨h₁,h₂⟩ | ⟨p,p',h₁,h₂,hp⟩
  · rw [OrdMap.getD,OrdMap.getD,h₁,h₂]
    exact (OrdMap.Rel.empty R).set hr
  · rw [OrdMap.getD,OrdMap.getD,h₁,h₂]
    exact hp.set hr

theorem readLine_rel {R : Str → Str → Str → Prop} (hd : ∀ n, R dataId n n) {st st' : Reading}
    (h : ReadingRel R st st') {l l' : Str} (hl : LineRel R l l') :
    ReadingRel R (readLine st l) (readLine st' l') := by
  cases hl with
  | same hr =>
    unfold readLine
    rw [h.tname]
    split
    · exact h
    · rename_i hc
      split
      · exact h.assign _ (hd _)
      · rename_i hs
        split
        · exact h
        · split
          · exact h
          · rename_i ha
            refine h.assign _ (hr _ _ ?_)
            rw [parameter,if_neg]
            simp only [not_or]
            exact ⟨hc,by simp [hs],by simpa using ha⟩
  | value ho ho' _ hr =>
    by_cases ht : st.tname = []
    · have hn : ∀ {k v : Str} (s : Reading), ParamOk k v → s.tname = [] →
          readLine s (paramLine (k,v)) = s := by
        intro k v s hp hs
        have hs' : sectionName (paramLine (k,v)) = none := hp.plain
        rw [readLine,if_neg (by
          rw [paramLine,List.head?_append_of_ne_nil _ hp.ne]; exact hp.comment),hs']
        simp [hs]
      rw [hn st ho ht,hn st' ho' (h.tname.trans ht)]
      exact h
    · rw [readLine_param st ho ht,readLine_param st' ho' (by rwa [h.tname]),h.tname]
      exact h.assign _ hr

theorem readText_rel {R : Str → Str → Str → Prop} (hd : ∀ n, R dataId n n) {s s' : Str}
    (h : List.Forall₂ (LineRel R) (file s) (file s')) : TokenRel R (readText s ∅) (readText s' ∅) := by
  have fold : ∀ {ls ls' : List Str}, List.Forall₂ (LineRel R) ls ls' → ∀ st st', ReadingRel R st st' →
      ReadingRel R (ls.foldl readLine st) (ls'.foldl readLine st') := by
    intro ls ls' hf
    induction hf with
    | nil => exact fun _ _ h => h
    | cons hl _ ih => exact fun st st' h => ih _ _ (readLine_rel hd h hl)
  exact (fold h ⟨[],∅⟩ ⟨[],∅⟩ ⟨rfl,OrdMap.Rel.empty _⟩).token

theorem LineRel.isLine {R : Str → Str → Str → Prop} {l l' : Str} (h : LineRel R l l') (hl : IsLine l) :
    IsLine l' := by
  cases h with
  | same _ => exact hl
  | value _ ho _ _ => exact isLine_paramLine ho

theorem LineRel.plain {R : Str → Str → Str → Prop} {l l' : Str} (h : LineRel R l l')
    (hl : PlainLine l) : PlainLine l' := by
  cases h with
  | same _ => exact hl
  | value _ ho hk _ => exact plainLine_param ho hk

/-- What `_INI_TOKEN_REMOVE` leaves of the entries of a file, from what it does to each line. -/
theorem iniTokenRemove_rel {R : Str → Str → Str → Prop} (hd : ∀ n, R dataId n n)
    (hs : env.strg = true) {n new sec fil : Str} (hf : isCfg (sec,fil) = true) {w : World}
    (h : ∀ l ∈ linesOf (sec,fil) w, LineRel R l (removeLine pcre n new l)) :
    TokenRel R (entries sec fil w) (entries sec fil (iniTokenRemove pcre env n new w)) ∧
    (Plain (text sec fil w) → Plain (text sec fil (iniTokenRemove pcre env n new w))) := by
  have hl := @linesOf_iniTokenRemove pcre env hs n new (sec,fil) hf w fun l hm =>
    (h l hm).isLine (isLine_of_mem hm)
  constructor
  · refine readText_rel hd ?_
    change List.Forall₂ (LineRel R) (linesOf (sec,fil) w) (linesOf (sec,fil) _)
    rw [hl,List.forall₂_map_right_iff]
    exact List.forall₂_same.mpr h
  · intro hp l hm
    change l ∈ linesOf (sec,fil) _ at hm
    rw [hl] at hm
    obtain ⟨x,hx,rfl⟩ := List.mem_map.mp hm
    exact (h x hx).plain (hp x hx)

theorem iniTokenRemove_ended (n new sec fil : Str) {w : World} (h : LineEnded (text sec fil w)) :
    LineEnded (text sec fil (iniTokenRemove pcre env n new w)) := by
  have hr := text_iniTokenRemove pcre env n new (sec,fil) w
  simp only at hr
  rw [hr,removeFile]
  split
  · unfold removeText
    generalize file (text sec fil w) = ls
    cases ls using List.reverseRecOn with
    | nil => exact Or.inl rfl
    | append_singleton ls l =>
      rw [List.flatMap_append,List.flatMap_singleton,← List.append_assoc]
      exact lineEnded_concat _
  · exact h

structure NewName (new : Str) : Prop where
  literal : Literal new
  trimmed : trim new = new
  newline : '\n' ∉ new
  eq : '=' ∉ new
  comma : new.getLast? ≠ some ','

theorem newName_nil : NewName [] := ⟨by simp [Literal],rfl,by simp,by simp,by simp⟩

theorem referenceKeys_visible : ∀ k ∈ referenceKeys, hidden k = false := by decide

/-- A name without special characters that is no part of a key is replaced on the lines that are
looked for, and nothing else happens. -/
theorem removeLine_rel {R : Str → Str → Str → Prop} {n new l : Str} (hn : PlainName n)
    (hw : NewName new) (hk : ∀ k ∈ referenceKeys, ¬ n <:+: k) (hl : IsLine l)
    (hr : ∀ k ∈ referenceKeys, l = paramLine (k,n) → R k n new)
    (hs : ∀ k v, ¬ Reached n l → parameter l = some (k,v) → R k v v) :
    LineRel R l (removeLine pcre n new l) := by
  by_cases hx : Reached n l
  · obtain ⟨k,hm,rfl⟩ := hx
    have hkn := referenceKeys_keyName k hm
    have ht : trimWith (",") (k ++ '=' :: new) = k ++ '=' :: new := by
      apply trimWith_comma
      · rw [List.head?_append_of_ne_nil _ hkn.ne]
        exact fun hc => hkn.comma (List.mem_of_mem_head? hc)
      · rw [List.getLast?_append_of_ne_nil _ (by simp)]
        cases new with
        | nil => simp
        | cons c s => rw [List.getLast?_cons_cons]; exact hw.comma
    rw [removeLine_reached pcre hn hw.literal hm,LineText.replaceAll_of_not_infix new (hk k hm),ht]
    exact .value (hn.paramOk hkn) (hkn.paramOk hw.trimmed hw.newline hw.eq)
      (referenceKeys_visible k hm) (hr k hm rfl)
  · rw [removeLine_of_not_reached pcre hn.literal hl.newline hx]
    exact .same fun k v hp => hs k v hx hp

theorem iniObjectClean_freshOn {S : Str → Prop} (sec fil : Str) {w : World} (h : FreshOn S w) :
    FreshOn S (iniObjectClean sec fil w) := by
  intro sec' fil' hs'
  by_cases he : objName sec fil = objName sec' fil'
  · exact Or.inl (by rw [← he]; exact iniObjectClean_cache sec fil w)
  · exact @coherent_congr sec' fil' w _ rfl ((iniObjectClean_spares w).frame _ he) (h sec' fil' hs')

theorem iniObjectClean_fresh (sec fil : Str) {w : World} (h : Fresh w) :
    Fresh (iniObjectClean sec fil w) := iniObjectClean_freshOn sec fil h

theorem iniTokenDelete_freshOn {S : Str → Prop} (hS : ∀ sec, S sec → '_' ∉ sec) (id : Str) {w : World}
    (hs : S sec) (h : FreshOn S w) : FreshOn S (iniTokenDelete pcre env sec fil id w).2 := by
  have hc := iniObjectClean_freshOn sec fil (h.iniTokenGet env hS hs fil)
  have hf := fun x => (fileSave_rewrites env sec fil x rfl
    (iniObjectClean_cache sec fil (iniTokenGet env sec fil ∅ w).2)).freshOn hS (fileSave_spares env _ _).frame hs hc
  unfold iniTokenDelete
  dsimp only
  split
  · exact hc
  · split
    · exact iniTokenRemove_freshOn pcre env _ _ (hf _)
    · exact hf _

theorem iniTokenDelete_fresh (id : Str) {w : World} (hs : Looked sec) (h : Fresh w) :
    Fresh (iniTokenDelete pcre env sec fil id w).2 :=
  iniTokenDelete_freshOn pcre env (fun _ => Looked.section_) id hs h

theorem iniTokenDelete_refused {id : Str} {w : World}
    (h : (iniTokenDelete pcre env sec fil id w).1 ≠ .ok) :
    (iniTokenDelete pcre env sec fil id w).2.reg = w.reg := by
  unfold iniTokenDelete at h ⊢
  dsimp only at h ⊢
  split
  · exact iniTokenGet_reg env sec fil ∅ w
  · rename_i hp
    rw [if_neg hp] at h
    split at h
    · simp at h
    · rename_i ho
      rw [if_neg ho]
      have hf := fileSave_spec env sec fil (w := iniObjectClean sec fil (iniTokenGet env sec fil ∅ w).2)
        (deleteText env ((iniTokenGet env sec fil ∅ w).1.erase id)) (by simp)
      rw [hf.2.2 h]
      exact iniTokenGet_reg env sec fil ∅ w

/-- The registry after a deletion: the entry is taken out and then its name, if it has one. -/
def deleted (sec fil id : Str) (w : World) : World :=
  if env.strg && !((entries sec fil w).getD id ∅).isEmpty then
    if null (nameOf sec fil id w) then without env sec fil id w
    else iniTokenRemove pcre env (nameOf sec fil id w) [] (without env sec fil id w)
  else w

theorem iniTokenDelete_deleted (id : Str) {w : World} (hc : Coherent sec fil w) :
    (iniTokenDelete pcre env sec fil id w).2.reg = (deleted pcre env sec fil id w).reg := by
  have hg := iniTokenGet_fst env sec fil hc
  unfold deleted
  by_cases ho : (iniTokenDelete pcre env sec fil id w).1 = .ok
  · have hse : env.strg = true ∧ (entries sec fil w).getD id ∅ ≠ ∅ := by
      unfold iniTokenDelete fileSave at ho
      dsimp only at ho
      rw [hg] at ho
      constructor
      · by_contra hs
        simp only [hs,if_false] at ho
        split at ho <;> simp at ho
      · intro he
        rw [he] at ho
        simp [OrdMap.isEmpty_iff.mpr rfl] at ho
    have he : ((entries sec fil w).getD id ∅).isEmpty = false :=
      Bool.eq_false_iff.mpr fun hh => hse.2 (OrdMap.isEmpty_iff.mp hh)
    rw [if_pos (by simp [hse.1,he])]
    by_cases hn : nameOf sec fil id w = []
    · rw [if_pos (null_iff.mpr hn),(iniTokenDelete_spec pcre env sec fil id hc hn).1.done ho]
      rfl
    · rw [if_neg (by simpa using hn),(iniTokenDelete_named pcre env hc ho hn).2]
  · rw [iniTokenDelete_refused pcre env ho,if_neg]
    intro hh
    simp only [Bool.and_eq_true,Bool.not_eq_true'] at hh
    unfold iniTokenDelete fileSave at ho
    dsimp only at ho
    rw [hg] at ho
    simp only [hh.1,hh.2,Bool.false_eq_true,if_false,if_true] at ho
    split at ho <;> simp at ho

theorem entries_without {sec fil : Str} (id : Str) {w : World} (h : Plain (text sec fil w)) :
    entries sec fil (without env sec fil id w) = (entries sec fil w).erase id ∧
    Plain (text sec fil (without env sec fil id w)) ∧
    LineEnded (text sec fil (without env sec fil id w)) := by
  have hc : Canonical ((entries sec fil w).erase id) := (readText_canonical h).erase id
  have ht : text sec fil (without env sec fil id w) = deleteText env ((entries sec fil w).erase id) := by
    simp [text,without,OrdMap.getD]
  refine ⟨?_,?_,?_⟩
  · rw [entries,ht,readText_deleteText env hc.tokenOk,hc.readBackAll]
  · rw [ht]; exact plain_deleteText env hc.tokenOk
  · rw [ht]; exact lineEnded_deleteText env _

theorem text_without_ne {sec fil id sec' fil' : Str} {w : World} (h : (sec,fil) ≠ (sec',fil')) :
    text sec' fil' (without env sec fil id w) = text sec' fil' w := by
  simp only [text,without,OrdMap.getD,OrdMap.get?_set_ne _ _ h]

end Registry
end Mybox
