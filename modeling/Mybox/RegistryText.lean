import Mybox.Registry

/-! The texts the three writers produce, read back. -/
namespace Mybox
namespace Registry

open Php RegistryFormat

variable (env : Env) (sec fil : Str)

/-- An entry as the reader leaves it when nothing in it is hidden: its ID first, then
parameters a line can carry. -/
structure EntryOk (n : Str) (p : Params) : Prop where
  ident : IdentOk n
  shape : ∃ es, p.entries = (dataId,n)::es ∧ ∀ x ∈ es, skipped x.1 = false ∧ ParamOk x.1 x.2

def Canonical (t : Token) : Prop := ∀ e ∈ t.entries, EntryOk e.1 e.2

theorem EntryOk.shown {n : Str} {p : Params} (h : EntryOk n p) :
    p.entries = (dataId,n) :: shown p ∧ ∀ x ∈ shown p, ParamOk x.1 x.2 := by
  obtain ⟨es,he,hs⟩ := h.shape
  have hd : skipped dataId = true := rfl
  have hx : RegistryFormat.shown p = es := by
    rw [RegistryFormat.shown,he,List.filter_cons]
    simp only [hd,Bool.not_true,Bool.false_eq_true,if_false]
    exact List.filter_eq_self.mpr fun x hx => by simp [(hs x hx).1]
  rw [hx]
  exact ⟨he,fun x hx => (hs x hx).2⟩

theorem readBack_entries (n : Str) (p : Params) : (readBack n p).entries = (dataId,n) :: shown p := by
  have hn : ((shown p).map Prod.fst).Nodup := p.nodup.sublist (List.filter_sublist.map _)
  rw [readBack,OrdMap.setAll_entries_fresh _ _ hn]
  · rfl
  · intro x hx hm
    have hx' := (List.mem_filter.mp hx).2
    change x.1 ∈ [dataId] at hm
    rw [List.mem_singleton.mp hm] at hx'
    exact absurd hx' (by decide)

theorem EntryOk.readBack {n : Str} {p : Params} (h : EntryOk n p) : readBack n p = p := by
  apply OrdMap.ext
  rw [readBack_entries,← h.shown.1]

theorem Canonical.tokenOk {t : Token} (h : Canonical t) : TokenOk t :=
  ⟨fun e he => (h e he).ident,fun e he => (h e he).shown.2⟩

theorem Canonical.readBackAll {t : Token} (h : Canonical t) :
    RegistryFormat.readBackAll t = t := by
  apply OrdMap.ext
  calc
    (RegistryFormat.readBackAll t).entries = t.entries.map id := by
      apply List.map_congr_left
      intro e he
      rw [(h e he).readBack]; rfl
    _ = t.entries := List.map_id _

theorem Canonical.erase {t : Token} (h : Canonical t) (id : Str) : Canonical (t.erase id) :=
  fun e he => h e (List.mem_filter.mp he).1

theorem hex_identOk {k : Str} (h : k.length = 20 ∧ ∀ c ∈ k, hexDigit c) : IdentOk k := by
  have hs : ∀ c, hexDigit c → ¬ regexSpace c ∧ ¬ trimChar c := by
    intro c hc
    constructor
    · intro hh
      simp only [regexSpace,Bool.or_eq_true,decide_eq_true_eq] at hh
      rcases hh with (((rfl | rfl) | rfl) | rfl) | rfl <;> exact absurd hc (by decide)
    · intro hh
      simp only [trimChar,Bool.or_eq_true,decide_eq_true_eq] at hh
      rcases hh with ((((rfl | rfl) | rfl) | rfl) | rfl) | rfl <;> exact absurd hc (by decide)
  refine ⟨by rintro rfl; simp at h,fun c hc => (hs c (h.2 c hc)).1,fun c hc => ?_⟩
  exact (hs c (h.2 c (List.mem_of_mem_getLast? hc))).2

theorem file_comment {c : Str} (h : '\n' ∉ c) (s : Str) :
    ∃ d, file ('#' :: (c ++ '\n' :: s)) = ('#'::d) :: file s := by
  have hb : ¬ trimChar '#' := by decide
  have ht : trim ('#'::c) = '#' :: c.rdropWhile trimChar := LineText.strip_cons_of_not trimChar hb c
  refine ⟨c.rdropWhile trimChar,?_⟩
  have hn : '\n' ∉ '#'::c := by simpa using h
  rw [← List.cons_append,file_line hn,ht]
  rfl

theorem file_trim_newline (s : Str) : file (trim s ++ ['\n']) = file s := by
  have h := LineText.lines_concat_of trimChar '\n' (a := '\n') (Or.inr rfl) (trim s)
  rw [file,h]
  exact file_trim s

theorem file_dated {h : Str} (hh : '\n' ∉ h) (s : Str) :
    ∃ c, file ('#' :: (h ++ env.date ++ '\n' :: s)) = ('#'::c) :: file s := by
  refine file_comment ?_ s
  rw [List.mem_append,not_or]
  exact ⟨hh,env.date_line⟩

theorem file_updateText (t : Token) : ∃ c, file (updateText env t) = ('#'::c) :: file (writeText t) := by
  obtain ⟨c,hc⟩ := file_dated env (h:=" _INI_TOKEN_UPDATE: ") (by decide) (trim (writeText t) ++ ['\n'])
  rw [file_trim_newline] at hc
  exact ⟨c,hc⟩

theorem file_deleteText (t : Token) : file (deleteText env t) = file (writeText t) ∨
    ∃ c, file (deleteText env t) = ('#'::c) :: file (writeText t) := by
  obtain ⟨c,hc⟩ := file_dated env (h:=" _INI_TOKEN_DELETE: ") (by decide) (trim (writeText t) ++ ['\n'])
  rw [file_trim_newline] at hc
  unfold deleteText
  split
  · rw [List.nil_append,file_trim_newline]
    exact Or.inl rfl
  · refine Or.inr ⟨c,?_⟩
    rw [← hc]
    simp only [List.append_assoc,List.singleton_append]
    rfl

theorem file_saveText_head (id : Str) (d : Params) :
    ∃ c, file (saveText env id d) = ('#'::c) :: file (sectionLine id ++ '\n' :: (saveLine d ++ ['\n'])) :=
  file_dated env (h:=" _INI_TOKEN_SAVE: ") (by decide) (sectionLine id ++ '\n' :: (saveLine d ++ ['\n']))

theorem file_saveText_new {id : Str} (hi : IdentOk id) (d : Params) : ∃ c, file (saveText env id d) =
    ('#'::c) :: sectionLine id :: file (d.entries.flatMap fun x => saveParam x.1 x.2) := by
  obtain ⟨c,hc⟩ := file_saveText_head env id d
  rw [file_stripped_line (newline_sectionLine hi) (trim_sectionLine hi) (sectionLine_ne id),saveLine,
    file_trim_newline] at hc
  exact ⟨c,hc⟩

theorem readText_updateText {t : Token} (h : TokenOk t) : readText (updateText env t) ∅ = readBackAll t := by
  obtain ⟨c,hc⟩ := file_updateText env t
  rw [readText,hc,List.foldl_cons,readLine_comment]
  exact readText_writeText h

theorem readText_deleteText {t : Token} (h : TokenOk t) : readText (deleteText env t) ∅ = readBackAll t := by
  obtain hc | ⟨c,hc⟩ := file_deleteText env t
  · rw [readText,hc]
    exact readText_writeText h
  · rw [readText,hc,List.foldl_cons,readLine_comment]
    exact readText_writeText h

def LineEnded (s : Str) : Prop := s = [] ∨ s.getLast? = some '\n'

instance (s : Str) : Decidable (LineEnded s) := inferInstanceAs (Decidable (_ ∨ _))

theorem file_append {s : Str} (h : LineEnded s) (u : Str) : file (s ++ u) = file s ++ file u := by
  rcases h with rfl | h
  · rfl
  · obtain ⟨r,rfl⟩ := List.getLast?_eq_some_iff.mp h
    have h₁ := LineText.lines_append_nl trimChar '\n' r u
    have h₂ := LineText.lines_append_nl trimChar '\n' r []
    rw [LineText.lines_nil,List.append_nil] at h₂
    rw [List.append_assoc,List.singleton_append,file,h₁,file,h₂]
    rfl

theorem lineEnded_concat (s : Str) : LineEnded (s ++ ['\n']) := Or.inr (by simp)

theorem lineEnded_updateText (t : Token) : LineEnded (updateText env t) := by
  have hs : updateText env t = (("# _INI_TOKEN_UPDATE: " : Str) ++ env.date ++ '\n' ::
      trim (writeText t)) ++ ['\n'] := by
    simp [updateText]
  rw [hs]
  exact lineEnded_concat _

theorem lineEnded_deleteText (t : Token) : LineEnded (deleteText env t) := lineEnded_concat _

theorem lineEnded_saveText (x id : Str) (d : Params) : LineEnded (x ++ saveText env id d) := by
  have hs : x ++ saveText env id d = (x ++ (("# _INI_TOKEN_SAVE: " : Str) ++ env.date ++ '\n' ::
      (("ID=" : Str) ++ id ++ '\n' :: saveLine d))) ++ ['\n'] := by
    simp [saveText]
  rw [hs]
  exact lineEnded_concat _

/-- Data whose keys and values have no blanks at the ends; `ID` is only there to be left out. -/
structure DataOk (d : Params) : Prop where
  key : ∀ x ∈ d.entries, trim x.1 = x.1
  val : ∀ x ∈ d.entries, trim x.2 = x.2
  ident : d.val "ID" = []

/-- What `_INI_TOKEN_SAVE` puts out of the data. -/
def saved (d : Params) : Params := d.erase "ID"

theorem saveParams_eq {d : Params} (h : DataOk d) :
    (d.entries.flatMap fun e => saveParam e.1 e.2) =
      (saved d).entries.flatMap fun e => writeParam e.1 e.2 := by
  have hi : ∀ x ∈ d.entries, x.1 = ("ID" : Str) → x.2 = [] := by
    intro x hx hk
    have hg : d.get? x.1 = some x.2 := OrdMap.get?_eq_some.mpr hx
    have hv := h.ident
    rw [Params.val,OrdMap.getD,← hk,hg] at hv
    exact hv
  have hs : (saved d).entries = d.entries.filter fun x => decide (x.1 ≠ ("ID" : Str)) := rfl
  rw [hs]
  have hk := h.key
  have hv := h.val
  revert hi hk hv
  generalize d.entries = es
  induction es with
  | nil => intros; rfl
  | cons e es ih =>
    intro hi hk hv
    have ih' := ih (fun x hx => hi x (by simp [hx])) (fun x hx => hk x (by simp [hx]))
      (fun x hx => hv x (by simp [hx]))
    have ek := hk e (by simp)
    have ev := hv e (by simp)
    rw [List.flatMap_cons,ih']
    by_cases hid : e.1 = ("ID" : Str)
    · have he : saveParam e.1 e.2 = [] := by
        rw [saveParam,ek,ev,hid,hi e (by simp) hid]
        rfl
      rw [he,List.filter_cons_of_neg (by simp [hid]),List.nil_append]
    · have he : saveParam e.1 e.2 = writeParam e.1 e.2 := by
        rw [saveParam,writeParam,ek,ev]
        simp [hid]
      rw [he,List.filter_cons_of_pos (by simp [hid]),List.flatMap_cons]

theorem file_saveText {id : Str} {d : Params} (hi : IdentOk id) (hd : DataOk d)
    (hp : ∀ e ∈ shown (saved d), ParamOk e.1 e.2) :
    ∃ c, file (saveText env id d) = ('#'::c) :: entryLines id (saved d) := by
  have hl : file (d.entries.flatMap fun x => saveParam x.1 x.2) = (shown (saved d)).map paramLine := by
    rw [saveParams_eq hd]
    have hw := file_writeParams (saved d).entries hp []
    rw [List.append_nil] at hw
    rw [hw]
    simp [file,shown]
  obtain ⟨c,hc⟩ := file_saveText_new env hi d
  rw [hl] at hc
  exact ⟨c,hc⟩

theorem readText_saveText {x id : Str} {d : Params} (hx : LineEnded x) (hi : IdentOk id)
    (hf : (readText x ∅).get? id = none) (hd : DataOk d)
    (hp : ∀ e ∈ shown (saved d), ParamOk e.1 e.2) :
    readText (x ++ saveText env id d) ∅ = (readText x ∅).set id (readBack id (saved d)) := by
  obtain ⟨c,hs⟩ := file_saveText env hi hd hp
  rw [readText,file_append hx,hs,List.foldl_append,List.foldl_cons,readLine_comment,
    foldl_entry _ hi hp (OrdMap.get?_eq_none.mp hf)]
  rfl

/-- The state of the first loop: what is assigned so far and what is left. -/
structure Merging (p data : Params) (r : Params × Params) : Prop where
  keys : r.1.keys = p.keys
  left : ∀ k v, r.2.get? k = some v → data.get? k = some v
  done : ∀ k v, data.get? k = some v → r.2.get? k = some v ∨
    (r.1.get? k = some v ∧ r.2.get? k = none)
  old : ∀ k, data.get? k = none → r.1.get? k = p.get? k
  new : r.2.keys.filter (fun k => k ∉ p.keys) = data.keys.filter (fun k => k ∉ p.keys)

theorem keys_erase (p : Params) (k : Str) : (p.erase k).keys = p.keys.filter (fun j => j ≠ k) := by
  simp [OrdMap.keys,OrdMap.erase,OrdMap.discard,List.filter_map,Function.comp_def]

theorem Merging.step {p data : Params} {r : Params × Params} (h : Merging p data r) {k : Str}
    (hk : k ∈ p.keys) : Merging p data
      (if null (r.2.val k) then r else (r.1.set k (r.2.val k),r.2.erase k)) := by
  split
  · exact h
  · rename_i hv
    have hg : r.2.get? k = some (r.2.val k) := by
      unfold Params.val OrdMap.getD at hv ⊢
      cases hh : r.2.get? k with
      | none => simp [hh] at hv
      | some v => rfl
    constructor
    · rw [OrdMap.keys_set,h.keys,if_pos hk]
    · intro j v hj
      rw [OrdMap.get?_erase] at hj
      split at hj
      · simp at hj
      · exact h.left j v hj
    · intro j v hj
      by_cases hkj : k = j
      · subst hkj
        have hl := h.left _ _ hg
        rw [hj,Option.some.injEq] at hl
        right
        simp [OrdMap.get?_erase,hl]
      · rw [OrdMap.get?_erase,OrdMap.get?_set,if_neg hkj,if_neg hkj]
        exact h.done j v hj
    · intro j hj
      have hkj : k ≠ j := by
        rintro rfl
        rw [h.left _ _ hg] at hj
        simp at hj
      rw [OrdMap.get?_set_ne _ _ hkj]
      exact h.old j hj
    · rw [keys_erase,List.filter_filter,← h.new]
      apply List.filter_congr
      intro j _
      by_cases hj : j = k
      · subst hj; simp [hk]
      · simp [hj]

theorem merge_eq_setAll (p data : Params) : merge p data = p.setAll data.entries := by
  have hm : ∀ es : List (Str × Str), (∀ e ∈ es, e.1 ∈ p.keys) → ∀ r, Merging p data r →
      Merging p data (es.foldl (fun (r : Params × Params) e =>
        if null (r.2.val e.1) then r else (r.1.set e.1 (r.2.val e.1),r.2.erase e.1)) r) := by
    intro es
    induction es with
    | nil => intro _ r hr; exact hr
    | cons e es ih =>
      intro he r hr
      exact ih (fun x hx => he x (by simp [hx])) _ (hr.step (he e (by simp)))
  have h₀ : Merging p data (p,data) :=
    ⟨rfl,fun _ _ h => h,fun _ _ h => Or.inl h,fun _ _ => rfl,rfl⟩
  have h := hm p.entries (fun e he => List.mem_map_of_mem he) _ h₀
  unfold merge
  dsimp only
  generalize p.entries.foldl (fun (r : Params × Params) e =>
    if null (r.2.val e.1) then r else (r.1.set e.1 (r.2.val e.1),r.2.erase e.1)) (p,data) = r at h
  apply OrdMap.ext_get?
  · rw [OrdMap.keys_setAll _ _ r.2.nodup,OrdMap.keys_setAll _ _ data.nodup,h.keys]
    convert congrArg (p.keys ++ ·) h.new using 2 <;>
      exact List.filter_congr fun _ _ => decide_eq_decide.mpr Iff.rfl
  · intro k
    cases hk : data.get? k with
    | none =>
      have hr : r.2.get? k = none := by
        cases hv : r.2.get? k with
        | none => rfl
        | some v => rw [h.left k v hv] at hk; simp at hk
      rw [OrdMap.get?_setAll_of_not_mem _ (OrdMap.get?_eq_none.mp hr),
        OrdMap.get?_setAll_of_not_mem _ (OrdMap.get?_eq_none.mp hk),h.old k hk]
    | some v =>
      rw [OrdMap.get?_setAll_of_mem _ data.nodup (OrdMap.get?_eq_some.mp hk)]
      rcases h.done k v hk with hd | ⟨hs,hd⟩
      · exact OrdMap.get?_setAll_of_mem _ r.2.nodup (OrdMap.get?_eq_some.mp hd)
      · rw [OrdMap.get?_setAll_of_not_mem _ (OrdMap.get?_eq_none.mp hd),hs]

end Registry
end Mybox
