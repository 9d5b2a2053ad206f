import Mybox.Deletion
import Mybox.ListedWords

/-! Which lines `_INI_TOKEN_REMOVE` rewrites, and whether it rewrites the values alone: the name is looked for as a
pattern, and replaced wherever it is found in the line. -/
namespace Mybox
namespace References
open Php RegistryFormat Registry

/-- The engine, where a replacement is put in as it is unless it has a backslash or a dollar sign. -/
structure Replacing extends Pcre where
  replace_text : ∀ name new line, Literal name → name ≠ [] → '\\' ∉ new → '$' ∉ new →
    replace name new line = LineText.replaceAll name new line

def Replacing.plain : Replacing where
  toPcre := Pcre.plain
  replace_text _ _ _ _ _ _ _ := rfl

variable (re : Replacing) (env : Env) (n new : Str)

/-- The line with the value replaced where the value is the name. -/
def rewritten (l : Str) : Str :=
  match referenceKeys.find? fun k => l = k ++ '=' :: n with
  | some k => k ++ '=' :: new
  | none => l

/-- The lines that are written for the lines of a file. -/
def writtenLines (f : Str × Str) (w : World) : List Str := (linesOf f w).map (removeLine re.toPcre n new)

/-- In each file the values that are the name are replaced, and nothing else is. -/
def Precise (w : World) : Prop :=
  ∀ f, isCfg f = true → writtenLines re n new f w = (linesOf f w).map (rewritten n new)

/-- A name and a replacement that stand for themselves. -/
def Verbatim : Prop := n ≠ [] ∧ Literal n ∧ '=' ∉ n ∧ '\\' ∉ new ∧ '$' ∉ new

instance : Decidable (Verbatim n new) := inferInstanceAs (Decidable (_ ∧ _))

/-- The name is not found in the key; or it is what replaces it, with commas in front of it at most where it is
found at the front of the key alone. -/
def KeySpared (k : Str) : Prop :=
  n <:+: k → new = n ∨ ∃ j t, new = List.replicate j ',' ++ n ∧ k = n ++ t ∧ ¬ n <:+: t

/-- A line that is treated as it should be. Of a name that is a pattern it is up to the engine. -/
def Spared (l : Str) : Prop :=
  if Verbatim n new then ∀ k ∈ referenceKeys, l = k ++ '=' :: n → KeySpared n new k ∧ new.getLast? ≠ some ','
  else if ∃ k ∈ referenceKeys, re.isMatch k n l = true then
    trimWith (",") (re.replace n new l) = rewritten n new l
  else rewritten n new l = l

variable {n new}

theorem dropWhile_commas (j : ℕ) {s : Str} (h : s.head? ≠ some ',') :
    (List.replicate j ',' ++ s).dropWhile (· = ',') = s := by
  induction j with
  | zero =>
    cases s with
    | nil => rfl
    | cons c s => exact List.dropWhile_cons_of_neg (by simpa using h)
  | succ j ih => simpa [List.replicate_succ] using ih

theorem commas_dropWhile (s : Str) : ∃ j, s = List.replicate j ',' ++ s.dropWhile (· = ',') := by
  refine ⟨(s.takeWhile (· = ',')).length,?_⟩
  have ht : s.takeWhile (· = ',') = List.replicate (s.takeWhile (· = ',')).length ',' :=
    List.eq_replicate_of_mem fun c hc => by simpa using List.mem_takeWhile_imp hc
  rw [← ht,List.takeWhile_append_dropWhile]

/-- Commas alone do not make up for a name that is in the rest as well. -/
theorem spared_rest (ho : n ≠ []) {t : Str} (hn : ',' ∉ n) (ht : ',' ∉ t) (hi : n <:+: t)
    (h : (new ++ LineText.replaceAll n new t).dropWhile (· = ',') = n ++ t) : ',' ∉ new := by
  intro hm
  obtain ⟨j,hj⟩ := commas_dropWhile (new ++ LineText.replaceAll n new t)
  rw [h] at hj
  have hc : ',' ∈ LineText.replaceAll n new t := (LineText.infix_replaceAll ho hi).subset hm
  rcases List.append_eq_append_iff.mp hj with ⟨r,hr,hs⟩ | ⟨r,hr,hs⟩
  · -- the replacement is commas, and the name in front is one more than the rest can have
    have hcomma : ∀ c ∈ new, ¬ (decide (c ≠ ',')) = true := fun c hcn => by
      have hr' : c ∈ List.replicate j ',' := by
        rw [hr]
        exact List.mem_append_left r hcn
      simp [List.eq_of_mem_replicate hr']
    have hle := LineText.countP_replaceAll_le ho hcomma t
    have hname : 0 < n.countP fun c => decide (c ≠ ',') := by
      obtain ⟨c,l,rfl⟩ := List.exists_cons_of_ne_nil ho
      have hne : c ≠ ',' := fun h => hn (by simp [h])
      simp [hne]
    rw [hs,List.countP_append,List.countP_append] at hle
    omega
  · rcases List.mem_append.mp (hs ▸ List.mem_append_right r hc) with hm' | hm'
    · exact hn hm'
    · exact ht hm'

theorem keySpared_iff (ho : n ≠ []) {k : Str} (hk : ',' ∉ k) :
    (LineText.replaceAll n new k).dropWhile (· = ',') = k ↔ KeySpared n new k := by
  have hhead : ∀ {s : Str}, ',' ∉ s → s.head? ≠ some ',' := fun hs h => hs (List.mem_of_mem_head? h)
  have hfix : k.dropWhile (· = ',') = k := dropWhile_commas 0 (hhead hk)
  constructor
  · intro h hi
    have hn : ',' ∉ n := fun hm => hk (hi.subset hm)
    have hsame : LineText.replaceAll n new k = k → new = n := fun he => by
      by_contra hne
      exact LineText.replaceAll_ne ho hne hi he
    obtain ⟨a,r,rfl⟩ := List.exists_cons_of_ne_nil fun hk₀ : k = [] => ho (List.infix_nil.mp (hk₀ ▸ hi))
    by_cases hp : n <+: a::r
    · obtain ⟨t,ht⟩ := hp
      rw [← ht] at h hk hsame ⊢
      have hkt : ',' ∉ t := fun hm => hk (List.mem_append_right n hm)
      rw [LineText.replaceAll_prefix_append new ho rfl] at h hsame
      by_cases hit : n <:+: t
      · left
        have hm := spared_rest ho hn hkt hit h
        have hR : ',' ∉ new ++ LineText.replaceAll n new t := fun hc => by
          rcases List.mem_append.mp hc with hc | hc
          · exact hm hc
          · exact (LineText.replaceAll_mem new hc).elim hm hkt
        have hd := dropWhile_commas 0 (hhead hR)
        exact hsame (hd.symm.trans h)
      · right
        rw [LineText.replaceAll_of_not_infix new hit] at h
        obtain ⟨j,hj⟩ := commas_dropWhile (new ++ t)
        rw [h,← List.append_assoc] at hj
        exact ⟨j,t,List.append_cancel_right hj,rfl,hit⟩
    · left
      have ha : a ≠ ',' := fun h => hk (by simp [h])
      refine hsame ?_
      rw [LineText.replaceAll_cons new hp] at h ⊢
      rwa [List.dropWhile_cons_of_neg (by simpa using ha)] at h
  · intro h
    by_cases hi : n <:+: k
    · rcases h hi with rfl | ⟨j,t,rfl,rfl,ht⟩
      · rw [LineText.replaceAll_same ho,hfix]
      · rw [LineText.replaceAll_prefix_append _ ho rfl,LineText.replaceAll_of_not_infix _ ht,List.append_assoc]
        exact dropWhile_commas j (hhead hk)
    · rw [LineText.replaceAll_of_not_infix _ hi,hfix]

theorem trimWith_comma_eq (r m s : Str) : trimWith (",") (r ++ '=' :: m) = s ++ '=' :: m ↔
    r.dropWhile (· = ',') = s ∧ m.getLast? ≠ some ',' := by
  have hcomma : ∀ c : Char, (Str.of ",").contains c = decide (c = ',') := fun c => by simp [Str.of_ascii]
  have ht : trimWith (",") (r ++ '=' :: m) = (r.dropWhile (· = ',') ++ '=' :: m).rdropWhile (· = ',') := by
    rw [trimWith,LineText.strip]
    simp only [hcomma]
    rw [List.dropWhile_append]
    split
    · rename_i h
      simp [List.isEmpty_iff.mp h]
    · rfl
  rw [ht]
  by_cases hm : m.getLast? = some ','
  · refine iff_of_false (fun h => ?_) fun h => h.2 hm
    have hl := List.rdropWhile_last_not (p:=fun c => decide (c = ',')) (l:=r.dropWhile (· = ',') ++ '=' :: m)
      (by rw [h]; simp)
    simp only [h] at hl
    have hs : (s ++ '=' :: m).getLast? = some ',' := by
      rw [List.getLast?_append_of_ne_nil _ (by simp),List.getLast?_cons,hm]
      rfl
    exact hl (by simpa using List.getLast_of_getLast?_eq_some hs)
  · have hn : (r.dropWhile (· = ',') ++ '=' :: m).rdropWhile (· = ',') = r.dropWhile (· = ',') ++ '=' :: m := by
      rw [List.rdropWhile_eq_self_iff]
      intro hne hc
      have hl := List.getLast?_eq_some_getLast hne
      rw [List.getLast?_append_of_ne_nil _ (by simp),List.getLast?_cons,decide_eq_true_eq.mp hc,
        Option.some.injEq] at hl
      cases hg : m.getLast? with
      | none =>
        rw [hg] at hl
        exact absurd hl (by decide)
      | some c =>
        rw [hg] at hl
        exact hm (hg.trans (congrArg some hl))
    rw [hn]
    simp [hm]

theorem removeLine_verbatim (h : Verbatim n new) {k : Str} (hk : k ∈ referenceKeys) (hl : '\n' ∉ n) :
    removeLine re.toPcre n new (k ++ '=' :: n) =
      trimWith (",") (LineText.replaceAll n new k ++ '=' :: new) := by
  obtain ⟨hne,hlit,heq,hb,hd⟩ := h
  have hl' : '\n' ∉ k ++ '=' :: n := by
    simp only [List.mem_append,List.mem_cons,not_or]
    exact ⟨(referenceKeys_keyName k hk).newline,by decide,hl⟩
  rw [removeLine,if_pos ((any_isMatch re.toPcre hlit hl').mpr ⟨k,hk,rfl⟩),re.replace_text n new _ hlit hne hb hd,
    LineText.replaceAll_append_cons new hne heq,LineText.replaceAll_self new hne]

theorem rewritten_key {k : Str} (hk : k ∈ referenceKeys) : rewritten n new (k ++ '=' :: n) = k ++ '=' :: new := by
  unfold rewritten
  split
  · rename_i j hf
    have he : k ++ '=' :: n = j ++ '=' :: n := by simpa using List.find?_some hf
    rw [List.append_cancel_right he]
  · rename_i hf
    exact absurd (List.find?_eq_none.mp hf k hk) (by simp)

theorem rewritten_of_not_reached {l : Str} (h : ¬ Reached n l) : rewritten n new l = l := by
  unfold rewritten
  split
  · rename_i k hf
    exact absurd ⟨k,List.mem_of_find?_eq_some hf,by simpa using List.find?_some hf⟩ h
  · rfl

theorem spared_iff {l : Str} (hl : '\n' ∉ l) :
    removeLine re.toPcre n new l = rewritten n new l ↔ Spared re n new l := by
  unfold Spared
  split
  · rename_i hv
    by_cases hr : Reached n l
    · obtain ⟨k,hk,rfl⟩ := hr
      have hn : '\n' ∉ n := fun h => hl (by simp [h])
      rw [removeLine_verbatim re hv hk hn,rewritten_key hk,trimWith_comma_eq,
        keySpared_iff hv.1 (referenceKeys_keyName k hk).comma]
      constructor
      · intro h j _ he
        obtain rfl := List.append_cancel_right he
        exact h
      · intro h
        exact h k hk rfl
    · rw [removeLine_of_not_reached re.toPcre hv.2.1 hl hr,rewritten_of_not_reached hr]
      exact iff_of_true rfl fun k hk he => absurd ⟨k,hk,he⟩ hr
  · rw [removeLine]
    simp only [List.any_eq_true]
    split
    · exact Iff.rfl
    · exact eq_comm

/-- The files are written line by line, and each line as it should be exactly if it is spared. -/
theorem remove_precise_iff (n new : Str) (w : World) :
    (∀ f, text f.1 f.2 (iniTokenRemove re.toPcre env n new w) =
      if isCfg f ∧ env.strg ∧ linesOf f w ≠ [] then (writtenLines re n new f w).flatMap (· ++ ['\n'])
      else text f.1 f.2 w) ∧
    (Precise re n new w ↔ ∀ f, isCfg f = true → ∀ l ∈ linesOf f w, Spared re n new l) := by
  constructor
  · intro f
    have hw : removeText re.toPcre n new (text f.1 f.2 w) = (writtenLines re n new f w).flatMap (· ++ ['\n']) := by
      rw [writtenLines,List.flatMap_map]
      rfl
    have hn : null (removeText re.toPcre n new (text f.1 f.2 w)) = false ↔ linesOf f w ≠ [] := by
      rw [null_false_iff,removeText,ne_eq,List.flatMap_eq_nil_iff,ne_eq,not_iff_not,linesOf]
      constructor
      · intro h
        refine List.eq_nil_iff_forall_not_mem.mpr fun l hl => ?_
        exact absurd (h l hl) (by simp)
      · intro h l hl
        rw [h] at hl
        exact absurd hl List.not_mem_nil
    rw [text_iniTokenRemove,removeFile,← hw]
    refine if_congr ?_ rfl rfl
    rw [Bool.and_eq_true,Bool.and_eq_true,Bool.not_eq_true',hn,and_assoc]
  · refine forall_congr' fun f => imp_congr_right fun _ => ?_
    rw [writtenLines,List.map_inj_left]
    exact forall₂_congr fun l hl => spared_iff re (isLine_of_mem hl).newline

def letterWorld : World := World.ofFiles [("definitions","network_group.cfg","ID=g1\nNAME=servers\nADDR=R\n")]

theorem remove_imprecise : ¬ ∀ (re : Replacing) (n new : Str) (w : World) (f : Str × Str), n ≠ [] → isCfg f = true →
    linesOf f (iniTokenRemove re.toPcre noonEnv n new w) = (linesOf f w).map (rewritten n new) := by
  intro h
  have hl := h .plain "R" "S" letterWorld ("definitions","network_group.cfg") (by decide) (by decide)
  have hw : linesOf ("definitions","network_group.cfg") (iniTokenRemove Pcre.plain noonEnv "R" "S" letterWorld) =
      ["ID=g1","NAME=servers","ADDS=S"] := by decide
  rw [show (Replacing.plain).toPcre = Pcre.plain from rfl,hw] at hl
  exact absurd hl (by decide)

end References
end Mybox
