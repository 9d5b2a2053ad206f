import Mybox.References
import Mybox.Definitions

/-! What `_INI_TOKEN_REMOVE` does to the lines of the registry, and what a deletion leaves of
the references to the object. -/
namespace Mybox
namespace References

open Php RegistryFormat Registry

variable (pcre : Pcre) (env : Env)

/-- A name as the reader returns it, without characters that are special in a pattern. -/
structure PlainName (n : Str) : Prop where
  ne : n ≠ []
  trimmed : trim n = n
  newline : '\n' ∉ n
  eq : '=' ∉ n
  literal : Literal n

theorem any_isMatch {n l : Str} (hn : Literal n) (hl : '\n' ∉ l) :
    (referenceKeys.any fun k => pcre.isMatch k n l) = true ↔ Reached n l := by
  rw [List.any_eq_true]
  constructor
  · rintro ⟨k,hk,hm⟩
    rw [pcre.isMatch_literal k n l hn hl,decide_eq_true_eq] at hm
    exact ⟨k,hk,hm⟩
  · rintro ⟨k,hk,hm⟩
    exact ⟨k,hk,by rw [pcre.isMatch_literal k n l hn hl,decide_eq_true_eq]; exact hm⟩

theorem removeLine_of_not_reached {n new l : Str} (hn : Literal n) (hl : '\n' ∉ l)
    (h : ¬ Reached n l) : removeLine pcre n new l = l := by
  rw [removeLine,if_neg fun hh => h ((any_isMatch pcre hn hl).mp hh)]

theorem trimWith_comma {s : Str} (h₁ : s.head? ≠ some ',') (h₂ : s.getLast? ≠ some ',') :
    trimWith (",") s = s := by
  refine (LineText.stripped_iff _).mpr ⟨fun c hc => ?_,fun c hc => ?_⟩
  · have : c ≠ ',' := fun h => h₁ (h ▸ hc)
    simpa [Str.of_ascii] using this
  · have : c ≠ ',' := fun h => h₂ (h ▸ hc)
    simpa [Str.of_ascii] using this

/-- A line that is reached: every occurrence of the name is replaced, in the key as well. -/
theorem removeLine_reached {n new k : Str} (hn : PlainName n) (hw : Literal new)
    (hk : k ∈ referenceKeys) :
    removeLine pcre n new (k ++ '=' :: n) =
      trimWith (",") (LineText.replaceAll n new k ++ '=' :: new) := by
  have hkn := referenceKeys_keyName k hk
  have hl : '\n' ∉ k ++ '=' :: n := by
    simp only [List.mem_append,List.mem_cons,not_or]
    exact ⟨hkn.newline,by decide,hn.newline⟩
  rw [removeLine,if_pos ((any_isMatch pcre hn.literal hl).mpr ⟨k,hk,rfl⟩),
    pcre.replace_literal n new _ hn.literal hn.ne hw,
    LineText.replaceAll_append_cons new hn.ne hn.eq,LineText.replaceAll_self new hn.ne]

/-- Taking the name out leaves the key, less the occurrences of the name in it. -/
theorem removeLine_nil {n k : Str} (hn : PlainName n) (hk : k ∈ referenceKeys) :
    removeLine pcre n [] (k ++ '=' :: n) = LineText.replaceAll n [] k ++ ['='] := by
  rw [removeLine_reached pcre hn (by simp [Literal]) hk,trimWith_comma]
  · cases h : LineText.replaceAll n [] k with
    | nil => simp
    | cons c s =>
      simp only [List.cons_append,List.head?_cons,ne_eq,Option.some.injEq]
      rintro rfl
      have hm := LineText.replaceAll_mem (c := ',') [] (h ▸ List.mem_cons_self)
      exact (referenceKeys_keyName k hk).comma (hm.resolve_left (by simp))
  · simp

theorem removeLine_isLine {n l : Str} (hn : PlainName n) (hl : IsLine l) :
    IsLine (removeLine pcre n [] l) := by
  by_cases hr : Reached n l
  · obtain ⟨k,hk,rfl⟩ := hr
    rw [removeLine_nil pcre hn hk]
    have hb : ∀ c ∈ LineText.replaceAll n [] k ++ ['='], trimChar c = false := by
      intro c hc
      rcases List.mem_append.mp hc with hc | hc
      · exact (referenceKeys_keyName k hk).black c ((LineText.replaceAll_mem [] hc).resolve_left (by simp))
      · rw [List.mem_singleton.mp hc]; decide
    exact ⟨by simp,trim_of_black hb,fun hm => absurd (hb _ hm) (by decide)⟩
  · rwa [removeLine_of_not_reached pcre hn.literal hl.newline hr]

def linesOf (f : Str × Str) (w : World) : List Str := file (text f.1 f.2 w)

theorem file_removeText {n new s : Str} (h : ∀ l ∈ file s, IsLine (removeLine pcre n new l)) :
    file (removeText pcre n new s) = (file s).map (removeLine pcre n new) := by
  unfold removeText
  generalize file s = ls at h
  induction ls with
  | nil => rfl
  | cons l ls ih =>
    have hl := h l (by simp)
    rw [List.flatMap_cons,List.append_assoc,List.singleton_append,
      file_stripped_line hl.newline hl.trimmed hl.ne,ih fun x hx => h x (List.mem_cons_of_mem _ hx)]
    rfl

theorem text_iniTokenRemove (n new : Str) (f : Str × Str) (w : World) :
    text f.1 f.2 (iniTokenRemove pcre env n new w) = removeFile pcre env n new f (text f.1 f.2 w) := by
  have he : removeFile pcre env n new f [] = [] := by simp [removeFile,removeText,file]
  unfold iniTokenRemove
  split
  · rename_i hk
    rw [List.all_eq_true] at hk
    by_cases hf : f ∈ w.reg.keys
    · have hn : isCfg f = false := by simpa using hk f hf
      rw [removeFile,hn]
      rfl
    · have ht : text f.1 f.2 w = [] := by
        rw [text,OrdMap.getD,OrdMap.get?_eq_none.mpr hf]
        rfl
      rw [ht,he]
  · simp only [text,OrdMap.getD,iniObjectCleanAll,OrdMap.get?_mapEntries]
    cases w.reg.get? (f.1,f.2) with
    | none => exact he.symm
    | some s => rfl

theorem linesOf_iniTokenRemove (hs : env.strg = true) {n new : Str} {f : Str × Str}
    (hf : isCfg f = true) {w : World} (h : ∀ l ∈ linesOf f w, IsLine (removeLine pcre n new l)) :
    linesOf f (iniTokenRemove pcre env n new w) = (linesOf f w).map (removeLine pcre n new) := by
  have hr := file_removeText pcre h
  unfold linesOf
  rw [text_iniTokenRemove,removeFile,hf,hs]
  split
  · exact hr
  · rename_i hn
    have he : removeText pcre n new (text f.1 f.2 w) = [] := by simpa using hn
    rw [he] at hr
    have hz : file (text f.1 f.2 w) = [] := List.map_eq_nil_iff.mp hr.symm
    simp [hz]

/-- The registry with an entry taken out, and nothing else done. -/
def without (sec fil id : Str) (w : World) : World :=
  { w with reg := w.reg.set (sec,fil) (deleteText env ((entries sec fil w).erase id)) }

def nameOf (sec fil id : Str) (w : World) : Str := ((entries sec fil w).getD id ∅).val "NAME"

theorem linesOf_congr {f : Str × Str} {w w' : World} (h : w'.reg = w.reg) :
    linesOf f w' = linesOf f w := by
  rw [linesOf,linesOf,text,text,h]

theorem iniTokenRemove_reg {n new : Str} {w w' : World} (h : w'.reg = w.reg) :
    (iniTokenRemove pcre env n new w').reg = (iniTokenRemove pcre env n new w).reg := by
  unfold iniTokenRemove
  rw [h]
  split
  · exact h
  · rfl

/-- A successful deletion of a named entry rewrites its file and then takes the name out. -/
theorem iniTokenDelete_named {sec fil id : Str} {w : World} (hc : Coherent sec fil w)
    (h : (iniTokenDelete pcre env sec fil id w).1 = .ok) (hn : nameOf sec fil id w ≠ []) :
    env.strg = true ∧ (iniTokenDelete pcre env sec fil id w).2.reg =
      (iniTokenRemove pcre env (nameOf sec fil id w) [] (without env sec fil id w)).reg := by
  have hg := iniTokenGet_fst env sec fil hc
  have hr := fileSave_spec env sec fil (w := iniObjectClean sec fil (iniTokenGet env sec fil ∅ w).2)
    (deleteText env ((entries sec fil w).erase id)) (by simp)
  unfold iniTokenDelete at h ⊢
  dsimp only at h ⊢
  rw [hg] at h ⊢
  split at h
  · simp at h
  · rename_i hp
    rw [if_neg hp]
    by_cases ho : (fileSave env sec fil (deleteText env ((entries sec fil w).erase id))
        (iniObjectClean sec fil (iniTokenGet env sec fil ∅ w).2)).1 = .ok
    · refine ⟨(fileSave_ok env sec fil).mp ho,?_⟩
      rw [if_pos (by simpa [ho,nameOf] using hn)]
      refine iniTokenRemove_reg pcre env ?_
      rw [hr.2.1 ho]
      simp [without]
    · simp [ho] at h

def ReadValue (v : Str) : Prop := trim v = v ∧ '\n' ∉ v ∧ '=' ∉ v

theorem splitParam_read {l : Str} (hl : '\n' ∉ l) :
    ReadValue (splitParam l).1 ∧ ReadValue (splitParam l).2 := by
  have empty : ReadValue (trim ([] : Str)) := ⟨rfl,by simp,by simp⟩
  have key : ∀ y ∈ split '=' l, ReadValue (trim y) := by
    intro y hy
    have hs : ∀ c ∈ trim y, c ∈ l ∧ c ≠ '=' := fun c hc =>
      LineText.mem_splitOn '=' hy (LineText.strip_mem trimChar hc)
    exact ⟨trim_trim y,fun h => hl (hs _ h).1,fun h => (hs _ h).2 rfl⟩
  unfold splitParam
  rcases hs : split '=' l with - | ⟨x,- | ⟨y,r⟩⟩
  · exact ⟨empty,empty⟩
  · exact ⟨key x (by rw [hs]; simp),empty⟩
  · exact ⟨key x (by rw [hs]; simp),key y (by rw [hs]; simp)⟩

theorem readText_val {k : Str} (hk : k ≠ dataId) (s id : Str) :
    ReadValue (((readText s ∅).getD id ∅).val k) := by
  have empty : ReadValue ([] : Str) := ⟨rfl,by simp,by simp⟩
  have assign : ∀ (st : Reading) (n a b : Str), (∀ i, ReadValue ((st.token.getD i ∅).val k)) →
      (a = k → ReadValue b) → ∀ i, ReadValue (((st.assign n a b).token.getD i ∅).val k) := by
    intro st n a b h hb i
    simp only [Reading.assign,OrdMap.getD,OrdMap.get?_set]
    by_cases hi : n = i
    · subst hi
      simp only [if_true,Option.getD_some,Params.val,OrdMap.getD,OrdMap.get?_set]
      by_cases ha : a = k
      · rw [if_pos ha]; exact hb ha
      · rw [if_neg ha]; exact h n
    · rw [if_neg hi]; exact h i
  have fold : ∀ (ls : List Str) (st : Reading), (∀ l ∈ ls, '\n' ∉ l) →
      (∀ i, ReadValue ((st.token.getD i ∅).val k)) →
      ∀ i, ReadValue (((ls.foldl readLine st).token.getD i ∅).val k) := by
    intro ls
    induction ls with
    | nil => exact fun st _ h => h
    | cons l ls ih =>
      intro st hl h
      refine ih _ (fun x hx => hl x (List.mem_cons_of_mem _ hx)) ?_
      unfold readLine
      split
      · exact h
      · split
        · exact assign st _ _ _ h fun he => absurd he.symm hk
        · split
          · exact h
          · split
            · exact h
            · exact assign st _ _ _ h fun _ => (splitParam_read (hl l (by simp))).2
  exact fold _ ⟨[],∅⟩ (fun l hm => (mem_file hm).2.2) (fun _ => empty) id

theorem nameOf_plain {sec fil id : Str} {w : World} (hn : nameOf sec fil id w ≠ [])
    (hl : Literal (nameOf sec fil id w)) : PlainName (nameOf sec fil id w) := by
  obtain ⟨h₁,h₂,h₃⟩ := readText_val (k := "NAME") (by decide) (text sec fil w) id
  exact ⟨hn,h₁,h₂,h₃,hl⟩

/-- Every line is what it was, with the name taken out of the names it gives. -/
def TakenOut (n : Str) (w w' : World) : Prop :=
  ∀ f, isCfg f = true → linesOf f w' = (linesOf f w).map (scrubLine n f)

/-- A line is looked for exactly when it gives the name, and its key is left whole. -/
def Aimed (n : Str) (f : Str × Str) (l : Str) : Prop :=
  (n ∈ namesIn f l ↔ Reached n l) ∧ ∀ k ∈ referenceKeys, l = k ++ '=' :: n → ¬ n <:+: k

theorem PlainName.paramOk {n k : Str} (h : PlainName n) (hk : KeyName k) : ParamOk k n :=
  hk.paramOk h.trimmed h.newline h.eq

/-- A line that is reached and gives the name has nothing but the name to give. -/
theorem scrubLine_reached {n k : Str} {f : Str × Str} (hn : PlainName n) (hk : k ∈ referenceKeys)
    (hm : n ∈ namesIn f (k ++ '=' :: n)) : scrubLine n f (k ++ '=' :: n) = k ++ ['='] := by
  have ho := hn.paramOk (referenceKeys_keyName k hk)
  have hp : parameter (k ++ '=' :: n) = some (k,n) := parameter_paramLine ho
  unfold namesIn at hm
  unfold scrubLine
  cases hr : reference f (k ++ '=' :: n) with
  | none => rw [hr] at hm; simp at hm
  | some x =>
    obtain ⟨r,v⟩ := x
    have hrk : r.key = k ∧ v = n := by
      obtain ⟨hk',hp',-⟩ := reference_some (isLine_paramLine ho) hr
      obtain ⟨q,hq,hx⟩ := Option.bind_eq_some_iff.mp hr
      rw [hp] at hq
      simp only [Option.some.injEq] at hq
      subst hq
      obtain ⟨r',hr',he⟩ := Option.map_eq_some_iff.mp hx
      simp only [Prod.mk.injEq] at he
      obtain ⟨rfl,rfl⟩ := he
      have hf := List.find?_some hr'
      simp only [Bool.and_eq_true,decide_eq_true_eq] at hf
      exact ⟨hf.2,rfl⟩
    obtain ⟨rfl,rfl⟩ := hrk
    rw [hr] at hm
    dsimp only at hm ⊢
    rw [if_pos hm]
    have he : (r.shape.names v).filter (fun m => m ≠ v) = [] := by
      cases hs : r.shape with
      | one => simp [Shape.names]
      | list =>
        rw [hs] at hm
        obtain ⟨-,-,hc⟩ := Shape.names_ok hn.trimmed hm
        simp [Shape.names,split,List.splitOn_eq_singleton (hc rfl),hn.trimmed]
    rw [he]
    rfl

theorem removeLine_eq_scrubLine_iff {n l : Str} {f : Str × Str} (hn : PlainName n) (hl : IsLine l) :
    removeLine pcre n [] l = scrubLine n f l ↔ Aimed n f l := by
  unfold Aimed
  by_cases hr : Reached n l
  · obtain ⟨k,hk,rfl⟩ := hr
    have hlen := LineText.replaceAll_length_le [] hn.ne (Nat.zero_le _) k
    rw [removeLine_nil pcre hn hk]
    by_cases hm : n ∈ namesIn f (k ++ '=' :: n)
    · rw [scrubLine_reached hn hk hm]
      have he : LineText.replaceAll n [] k ++ ['='] = k ++ ['='] ↔ ¬ n <:+: k := by
        rw [List.append_left_inj]
        constructor
        · intro he hi
          have := LineText.replaceAll_length_lt hn.ne hi
          rw [he] at this
          omega
        · exact LineText.replaceAll_of_not_infix []
      rw [he]
      constructor
      · intro hi
        refine ⟨⟨fun _ => ⟨k,hk,rfl⟩,fun _ => hm⟩,fun k' hk' he' => ?_⟩
        rw [← List.append_cancel_right he']
        exact hi
      · exact fun h => h.2 k hk rfl
    · rw [scrubLine_of_not_mem hm]
      constructor
      · intro he
        have hl := congrArg List.length he
        have := List.length_pos_iff.mpr hn.ne
        simp only [List.length_append,List.length_cons,List.length_nil] at hl
        omega
      · exact fun h => absurd (h.1.mpr ⟨k,hk,rfl⟩) hm
  · rw [removeLine_of_not_reached pcre hn.literal hl.newline hr]
    by_cases hm : n ∈ namesIn f l
    · constructor
      · intro he
        have hg := (namesIn_scrubLine (f := f) hl hn.ne).2.1
        rw [← he] at hg
        exact absurd hm hg
      · exact fun h => absurd (h.1.mp hm) hr
    · rw [scrubLine_of_not_mem hm]
      exact ⟨fun _ => ⟨⟨fun h => absurd h hm,fun h => absurd h hr⟩,
        fun k hk he => absurd ⟨k,hk,he⟩ hr⟩,fun _ => rfl⟩

/-- A deletion takes the name out of every reference and leaves the rest alone when each line
is treated so; for a name without special characters, exactly when the lines looked for are
the lines that give the name. -/
theorem iniTokenDelete_takesOut_iff {sec fil id : Str} {w : World} (hc : Coherent sec fil w)
    (h : (iniTokenDelete pcre env sec fil id w).1 = .ok) (hn : nameOf sec fil id w ≠ []) :
    ((∀ f, isCfg f = true → ∀ l ∈ linesOf f (without env sec fil id w),
        removeLine pcre (nameOf sec fil id w) [] l = scrubLine (nameOf sec fil id w) f l) →
      TakenOut (nameOf sec fil id w) (without env sec fil id w)
        (iniTokenDelete pcre env sec fil id w).2) ∧
    (Literal (nameOf sec fil id w) →
      (TakenOut (nameOf sec fil id w) (without env sec fil id w)
          (iniTokenDelete pcre env sec fil id w).2 ↔
        ∀ f, isCfg f = true → ∀ l ∈ linesOf f (without env sec fil id w),
          Aimed (nameOf sec fil id w) f l)) := by
  obtain ⟨hs,hr⟩ := iniTokenDelete_named pcre env hc h hn
  have hl : ∀ f l, l ∈ linesOf f (without env sec fil id w) → IsLine l := fun f l => isLine_of_mem
  have hw : ∀ f, linesOf f (iniTokenDelete pcre env sec fil id w).2 =
      linesOf f (iniTokenRemove pcre env (nameOf sec fil id w) [] (without env sec fil id w)) :=
    fun f => linesOf_congr hr
  constructor
  · intro ha f hf
    have hi : ∀ l ∈ linesOf f (without env sec fil id w),
        IsLine (removeLine pcre (nameOf sec fil id w) [] l) := by
      intro l hm
      rw [ha f hf l hm]
      exact (namesIn_scrubLine (hl f l hm) hn).1
    rw [hw,linesOf_iniTokenRemove pcre env hs hf hi]
    exact List.map_congr_left (ha f hf)
  · intro hlit
    have hp : PlainName (nameOf sec fil id w) := nameOf_plain hn hlit
    unfold TakenOut
    refine forall₂_congr fun f hf => ?_
    have hi : ∀ l ∈ linesOf f (without env sec fil id w),
        IsLine (removeLine pcre (nameOf sec fil id w) [] l) := fun l hm =>
      removeLine_isLine pcre hp (hl f l hm)
    rw [hw,linesOf_iniTokenRemove pcre env hs hf hi,List.map_inj_left]
    exact forall₂_congr fun l hm => removeLine_eq_scrubLine_iff pcre hp (hl f l hm)

def hostsWorld : World := World.ofFiles [
  ("definitions","network_group.cfg","ID=g1\nNAME=servers\nADDR=web,mail\n"),
  ("definitions","network_host.cfg",
    "ID=h1\nNAME=web\nADDR=10.0.0.5\nID=h2\nNAME=mail\nADDR=10.0.0.6\n")]

theorem iniTokenDelete_takesOut_iff_web :
    TakenOut "web" (without noonEnv "definitions" "network_host.cfg" "h1" hostsWorld)
      (iniTokenDelete Pcre.plain noonEnv "definitions" "network_host.cfg" "h1" hostsWorld).2 ↔
    ∀ f, isCfg f = true →
      ∀ l ∈ linesOf f (without noonEnv "definitions" "network_host.cfg" "h1" hostsWorld),
        Aimed "web" f l := by
  have hn : nameOf "definitions" "network_host.cfg" "h1" hostsWorld = ("web" : Str) := by decide
  have h := @iniTokenDelete_takesOut_iff Pcre.plain noonEnv "definitions" "network_host.cfg" "h1"
    hostsWorld (Or.inl rfl) (by decide)
    (by rw [hn]; decide)
  rw [hn] at h
  exact h.2 (by decide)

/-- Every name in the registry is that of an object; one is deleted, and the group goes on
naming it. -/
theorem group_names_deleted :
    (∀ f ∈ hostsWorld.reg.keys, ∀ l ∈ linesOf f hostsWorld, ∀ m ∈ namesIn f l,
      (Definitions.findParam .networks (Definitions.definitionsGet Pcre.plain noonEnv .networks
        hostsWorld).1 "NAME" m []).isSome = true) ∧
    nameOf "definitions" "network_host.cfg" "h1" hostsWorld = ("web" : Str) ∧
    (iniTokenDelete Pcre.plain noonEnv "definitions" "network_host.cfg" "h1" hostsWorld).1 = .ok ∧
    ∃ l ∈ linesOf ("definitions","network_group.cfg")
        (iniTokenDelete Pcre.plain noonEnv "definitions" "network_host.cfg" "h1" hostsWorld).2,
      ("web" : Str) ∈ namesIn ("definitions","network_group.cfg") l := by
  decide +kernel

end References
end Mybox
