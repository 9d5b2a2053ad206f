import Mybox.Rewriting
import Mybox.RegistryStore

/-! The names in one registry file. A name gets into the file on a NAME line, so the lines that
give one are followed through the writers and the reader. -/
namespace Mybox
namespace Registry

open Php RegistryFormat References

variable (pcre : Pcre) (env : Env) (sec fil : Str)

/-- What is read of a key or of a value: what stands before an equals sign, trimmed. -/
def carried (s : Str) : Str := trim ((split '=' s).headD [])

theorem split_append_eq {a : Str} (h : '=' ∉ a) (b : Str) :
    split '=' (a ++ '=' :: b) = a :: split '=' b :=
  List.splitOn_append_cons_self_of_not_mem h b

theorem carried_append (a b : Str) : carried (a ++ '=' :: b) = carried a := by
  by_cases h : '=' ∈ a
  · obtain ⟨p,q,rfl,hp⟩ := List.eq_append_cons_of_mem h
    rw [List.append_assoc,List.cons_append]
    simp [carried,split_append_eq hp]
  · rw [carried,carried,split_append_eq h,show split '=' a = [a] from List.splitOn_eq_singleton h]
    rfl

theorem splitParam_fst (l : Str) : (splitParam l).1 = carried l := rfl

theorem splitParam_snd_append {a : Str} (h : '=' ∉ a) (b : Str) :
    (splitParam (a ++ '=' :: b)).2 = carried b := by
  simp [splitParam,split_append_eq h,carried]

theorem carried_eq {s : Str} (ht : trim s = s) (he : '=' ∉ s) : carried s = s := by
  rw [carried,split,List.splitOn_eq_singleton he]
  exact ht

@[simp] theorem carried_nil : carried [] = [] := rfl

theorem trim_cons_blank {c : Char} (hc : trimChar c = true) (s : Str) : trim (c::s) = trim s :=
  LineText.strip_cons_blank trimChar hc s

theorem trim_concat_blank {c : Char} (hc : trimChar c = true) (s : Str) : trim (s ++ [c]) = trim s :=
  LineText.strip_concat_blank trimChar hc s

theorem splitParam_cons_blank {c : Char} (hc : trimChar c = true) (s : Str) :
    splitParam (c::s) = splitParam s := by
  have he : c ≠ '=' := by rintro rfl; exact absurd hc (by decide)
  obtain ⟨v,vs,hv⟩ : ∃ v vs, split '=' s = v::vs :=
    List.exists_cons_of_ne_nil (List.splitOn_ne_nil '=' s)
  have hs : split '=' (c::s) = (c::v)::vs := by
    rw [split,List.splitOn_cons_eq_if_modifyHead,show List.splitOn '=' s = v::vs from hv]
    simp [he]
  simp [splitParam,hs,hv,trim_cons_blank hc]

theorem splitParam_concat_blank {c : Char} (hc : trimChar c = true) (s : Str) :
    splitParam (s ++ [c]) = splitParam s := by
  have he : '=' ≠ c := by rintro rfl; exact absurd hc (by decide)
  have single : ∀ t : Str, '=' ∉ t → split '=' t = [t] := fun t ht => List.splitOn_eq_singleton ht
  by_cases h : '=' ∈ s
  · obtain ⟨a,b,rfl,ha⟩ := List.eq_append_cons_of_mem h
    rw [List.append_assoc,List.cons_append]
    by_cases hb : '=' ∈ b
    · obtain ⟨p,q,rfl,hp⟩ := List.eq_append_cons_of_mem hb
      rw [List.append_assoc,List.cons_append]
      simp [splitParam,split_append_eq ha,split_append_eq hp]
    · have hb' : '=' ∉ b ++ [c] := by simp [hb,he]
      simp [splitParam,split_append_eq ha,single _ hb,single _ hb',trim_concat_blank hc]
  · have h' : '=' ∉ s ++ [c] := by simp [h,he]
    simp [splitParam,single _ h,single _ h',trim_concat_blank hc]

theorem splitParam_trim (s : Str) : splitParam (trim s) = splitParam s := by
  have hd : ∀ s : Str, splitParam (s.dropWhile trimChar) = splitParam s := by
    intro s
    induction s with
    | nil => rfl
    | cons c s ih =>
      by_cases hc : trimChar c = true
      · rw [List.dropWhile_cons_of_pos hc,ih,splitParam_cons_blank hc]
      · rw [List.dropWhile_cons_of_neg hc]
  have hr : ∀ s : Str, splitParam (s.rdropWhile trimChar) = splitParam s := by
    intro s
    induction s using List.reverseRecOn with
    | nil => rfl
    | append_singleton s c ih =>
      by_cases hc : trimChar c = true
      · rw [List.rdropWhile_concat_pos _ _ _ hc,ih,splitParam_concat_blank hc]
      · rw [List.rdropWhile_concat_neg _ _ _ hc]
  rw [trim,LineText.strip,hr,hd]

theorem carried_trim (s : Str) : carried (trim s) = carried s := by
  rw [← splitParam_fst,splitParam_trim,splitParam_fst]

def nameOn (l : Str) : Str :=
  match parameter l with
  | some (k,v) => if k = ("NAME" : Str) then v else []
  | none => []

theorem nameOn_cases (l : Str) :
    nameOn l = [] ∨ carried l = ("NAME" : Str) ∧ nameOn l = (splitParam l).2 := by
  unfold nameOn parameter
  split
  · rename_i k v hp
    split at hp
    · simp at hp
    · simp only [Option.some.injEq] at hp
      rw [← splitParam_fst,hp]
      by_cases hk : k = ("NAME" : Str)
      · exact Or.inr ⟨hk,if_pos hk⟩
      · exact Or.inl (if_neg hk)
  · exact Or.inl rfl

def lineNames (ls : List Str) : List Str := (ls.map nameOn).filter fun n => !null n

def namesOn (s : Str) : List Str := lineNames (file s)

theorem lineNames_append (ls ms : List Str) : lineNames (ls ++ ms) = lineNames ls ++ lineNames ms := by
  simp [lineNames]

theorem lineNames_cons (l : Str) (ls : List Str) : lineNames (l::ls) = lineNames [l] ++ lineNames ls :=
  lineNames_append [l] ls

theorem lineNames_none {l : Str} (h : nameOn l = []) (ls : List Str) :
    lineNames (l::ls) = lineNames ls := by
  simp [lineNames,h]

theorem mem_lineNames {ls : List Str} {n : Str} :
    n ∈ lineNames ls ↔ n ≠ [] ∧ ∃ l ∈ ls, nameOn l = n := by
  simp only [lineNames,List.mem_filter,List.mem_map,Bool.not_eq_true',null_false_iff]
  exact and_comm

def nameIn (t : Token) (i : Str) : Str := (t.getD i ∅).val "NAME"

def NamesUnique (t : Token) : Prop := ∀ i j, nameIn t i ≠ [] → nameIn t i = nameIn t j → i = j

theorem nameIn_set (t : Token) (n i : Str) (p : Params) :
    nameIn (t.set n p) i = if n = i then p.val "NAME" else nameIn t i := by
  unfold nameIn OrdMap.getD
  rw [OrdMap.get?_set]
  split <;> rfl

theorem val_set (p : Params) (a b k : Str) :
    Params.val (p.set a b) k = if a = k then b else p.val k := by
  unfold Params.val OrdMap.getD
  rw [OrdMap.get?_set]
  split <;> rfl

theorem nameIn_assign (t : Token) (n a b i : Str) :
    nameIn (t.set n ((t.getD n ∅).set a b)) i =
      if n = i ∧ a = ("NAME" : Str) then b else nameIn t i := by
  rw [nameIn_set,val_set]
  by_cases hi : n = i
  · subst hi
    by_cases ha : a = ("NAME" : Str)
    · rw [if_pos rfl,if_pos ha,if_pos ⟨rfl,ha⟩]
    · rw [if_pos rfl,if_neg ha,if_neg fun h => ha h.2]
      rfl
  · rw [if_neg hi,if_neg fun h => hi h.1]

/-- A line assigns one parameter or nothing, and the only NAME it assigns is the one it gives. -/
theorem readLine_cases (st : Reading) (l : Str) : (readLine st l).token = st.token ∨
    ∃ n a b, (readLine st l).token = st.token.set n ((st.token.getD n ∅).set a b) ∧
      (a = ("NAME" : Str) → b = nameOn l) := by
  unfold readLine
  split
  · exact Or.inl rfl
  · rename_i hc
    split
    · exact Or.inr ⟨_,_,_,rfl,fun h => absurd h (by decide)⟩
    · rename_i hs
      split
      · exact Or.inl rfl
      · split
        · exact Or.inl rfl
        · rename_i ha
          refine Or.inr ⟨_,_,_,rfl,fun hk => ?_⟩
          have hp : parameter l = some (splitParam l) := by
            rw [parameter,if_neg]
            simp only [not_or]
            exact ⟨hc,by simp [hs],by simpa using ha⟩
          simp [nameOn,hp,hk]

theorem readLine_nameIn {st : Reading} {l i : Str} :
    nameIn (readLine st l).token i = nameIn st.token i ∨ nameIn (readLine st l).token i = nameOn l := by
  rcases readLine_cases st l with h | ⟨n,a,b,h,hb⟩
  · exact Or.inl (by rw [h])
  · rw [h,nameIn_assign]
    split
    · rename_i hc
      exact Or.inr (hb hc.2)
    · exact Or.inl rfl

/-- A name that no entry has may be given to one. -/
theorem readLine_unique {st : Reading} {l : Str} (hu : NamesUnique st.token)
    (hl : nameOn l ≠ [] → ∀ i, nameIn st.token i ≠ nameOn l) : NamesUnique (readLine st l).token := by
  rcases readLine_cases st l with h | ⟨n,a,b,h,hb⟩
  · rw [h]
    exact hu
  · intro i j hi hij
    rw [h,nameIn_assign] at hi
    rw [h,nameIn_assign,nameIn_assign] at hij
    by_cases ha : a = ("NAME" : Str)
    · have hbn := hb ha
      simp only [ha,and_true] at hi hij
      by_cases h₁ : n = i <;> by_cases h₂ : n = j
      · exact h₁.symm.trans h₂
      · rw [if_pos h₁] at hi hij
        rw [if_neg h₂,hbn] at hij
        exact absurd hij.symm (hl (by rwa [← hbn]) j)
      · rw [if_neg h₁] at hi hij
        rw [if_pos h₂,hbn] at hij
        exact absurd hij (hl (by rwa [← hij]) i)
      · rw [if_neg h₁] at hi hij
        rw [if_neg h₂] at hij
        exact hu i j hi hij
    · simp only [ha,and_false,if_false] at hi hij
      exact hu i j hi hij

theorem readLines_unique {ls : List Str} {st : Reading} (hu : NamesUnique st.token)
    (hd : (lineNames ls).Nodup) (hf : ∀ n ∈ lineNames ls, ∀ i, nameIn st.token i ≠ n) :
    NamesUnique (ls.foldl readLine st).token := by
  induction ls generalizing st with
  | nil => exact hu
  | cons l ls ih =>
    have hl : nameOn l ≠ [] → nameOn l ∈ lineNames (l::ls) := fun h =>
      mem_lineNames.mpr ⟨h,l,by simp,rfl⟩
    rw [lineNames_cons] at hd hf
    obtain ⟨-,hd₂,hdis⟩ := List.nodup_append.mp hd
    refine ih (readLine_unique hu fun h => hf _ (by rw [← lineNames_cons]; exact hl h)) hd₂ fun n hn i => ?_
    rcases @readLine_nameIn st l i with h | h
    · rw [h]
      exact hf n (List.mem_append_right _ hn) i
    · rw [h]
      rintro rfl
      have hne := (mem_lineNames.mp hn).1
      exact hdis _ (mem_lineNames.mpr ⟨hne,l,by simp,rfl⟩) _ hn rfl

theorem readText_unique {s : Str} (h : (namesOn s).Nodup) : NamesUnique (readText s ∅) :=
  @readLines_unique _ ⟨[],∅⟩ (fun _ _ hi => absurd rfl hi) h fun _ hn _ hi =>
    (mem_lineNames.mp hn).1 (hi.symm.trans rfl)

def namesOf (es : List (Str × Str)) : List Str :=
  ((es.filter fun x => x.1 = ("NAME" : Str)).map fun x => carried x.2).filter fun n => !null n

theorem namesOf_cons (x : Str × Str) (es : List (Str × Str)) :
    namesOf (x::es) = namesOf [x] ++ namesOf es := by
  unfold namesOf
  rw [List.filter_cons]
  split
  · rename_i h
    simp [h,List.filter_cons]
    split <;> rfl
  · rename_i h
    simp [h]

structure OneLine (x : Str × Str) : Prop where
  key : '\n' ∉ x.1
  value : '\n' ∉ x.2
  name : x.1 ≠ ("NAME" : Str) → carried x.1 ≠ ("NAME" : Str)

theorem nameOn_param {x : Str × Str} (h : OneLine x) :
    nameOn (trim (paramLine x)) = [] ∨
    x.1 = ("NAME" : Str) ∧ nameOn (trim (paramLine x)) = carried x.2 := by
  rcases nameOn_cases (trim (paramLine x)) with hn | ⟨hk,hv⟩
  · exact Or.inl hn
  · rw [carried_trim,paramLine,carried_append] at hk
    have hx : x.1 = ("NAME" : Str) := Classical.byContradiction fun hne => h.name hne hk
    refine Or.inr ⟨hx,?_⟩
    rw [hv,splitParam_trim,paramLine,splitParam_snd_append (by rw [hx]; decide)]

/-- The lines of some parameters give the names they carry. -/
theorem namesOn_params {es : List (Str × Str)} (h : ∀ x ∈ es, OneLine x) (s : Str) :
    (namesOn ((es.flatMap fun x => paramLine x ++ ['\n']) ++ s)).Sublist (namesOf es ++ namesOn s) := by
  induction es with
  | nil => exact List.Sublist.refl _
  | cons x es ih =>
    have hx := h x (by simp)
    have hl : '\n' ∉ paramLine x := by
      simp only [paramLine,List.mem_append,List.mem_cons,not_or]
      exact ⟨hx.key,by decide,hx.value⟩
    have hw : (x::es).flatMap (fun x => paramLine x ++ ['\n']) ++ s =
        paramLine x ++ '\n' :: (es.flatMap (fun x => paramLine x ++ ['\n']) ++ s) := by simp
    have hline : (lineNames (if trim (paramLine x) = [] then [] else [trim (paramLine x)])).Sublist
        (namesOf [x]) := by
      split
      · exact List.nil_sublist _
      · rcases nameOn_param hx with hn | ⟨hk,hn⟩
        · rw [lineNames_none hn]
          exact List.nil_sublist _
        · simp [lineNames,hn,namesOf,hk]
    rw [namesOn,hw,file_line hl,lineNames_append,namesOf_cons,List.append_assoc]
    exact hline.append (ih fun y hy => h y (List.mem_cons_of_mem _ hy))

theorem writeParams_eq (es : List (Str × Str)) : (es.flatMap fun e => writeParam e.1 e.2) =
    (es.filter fun e => !skipped e.1).flatMap fun x => paramLine x ++ ['\n'] := by
  induction es with
  | nil => rfl
  | cons e es ih =>
    rw [List.flatMap_cons,ih,List.filter_cons]
    cases h : skipped e.1 with
    | true => simp [writeParam,h]
    | false => simp [writeParam,h,paramLine]

theorem namesOf_sublist {es fs : List (Str × Str)} (h : es.Sublist fs) :
    (namesOf es).Sublist (namesOf fs) :=
  ((h.filter _).map _).filter _

/-- At most one parameter of an entry is its NAME. -/
theorem namesOf_entries (p : Params) :
    (namesOf p.entries).Sublist ([carried (p.val "NAME")].filter fun n => !null n) := by
  have hf : ∀ es : List (Str × Str), (es.map Prod.fst).Nodup →
      (es.filter fun x => x.1 = ("NAME" : Str)).Sublist
        (((OrdMap.lookup ("NAME" : Str) es).map fun v => (("NAME" : Str),v)).toList) := by
    intro es
    induction es with
    | nil => intro _; exact List.Sublist.refl _
    | cons e es ih =>
      intro hd
      rw [List.map_cons,List.nodup_cons] at hd
      by_cases he : e.1 = ("NAME" : Str)
      · have hn : es.filter (fun x => x.1 = ("NAME" : Str)) = [] := by
          rw [List.filter_eq_nil_iff]
          intro x hx
          simp only [decide_eq_true_eq]
          intro hxn
          exact hd.1 (List.mem_map.mpr ⟨x,hx,hxn.trans he.symm⟩)
        rw [List.filter_cons_of_pos (by simpa using he),hn]
        obtain ⟨k,v⟩ := e
        obtain rfl : k = ("NAME" : Str) := he
        simp [OrdMap.lookup]
      · rw [List.filter_cons_of_neg (by simpa using he)]
        simpa [OrdMap.lookup,he] using ih hd.2
  have hp := hf p.entries p.nodup
  have hv : ∀ o : Option Str, ((o.map fun v => (("NAME" : Str),v)).toList.map fun x => carried x.2).Sublist
      [carried (o.getD [])] := by
    intro o
    cases o with
    | none => exact List.nil_sublist _
    | some v => exact List.Sublist.refl _
  exact ((hp.map _).trans (hv _)).filter _

/-- The array can be written down a line for each ID and parameter. -/
structure Lined (t : Token) : Prop where
  ident : ∀ e ∈ t.entries, '\n' ∉ e.1
  param : ∀ e ∈ t.entries, ∀ x ∈ e.2.entries, OneLine x

theorem nameOn_ident {n : Str} : nameOn (trim (sectionLine n)) = [] := by
  rcases nameOn_cases (trim (sectionLine n)) with h | ⟨hk,-⟩
  · exact h
  · rw [carried_trim] at hk
    have hc : carried (sectionLine n) = ("ID" : Str) := carried_append ("ID" : Str) n
    rw [hc] at hk
    exact absurd hk (by decide)

theorem lineNames_ident (n : Str) (ls : List Str) :
    lineNames ((if trim (sectionLine n) = [] then [] else [trim (sectionLine n)]) ++ ls) = lineNames ls := by
  split
  · rfl
  · exact lineNames_none nameOn_ident ls

/-- A written array gives the names its entries carry. -/
theorem namesOn_writeText {t : Token} (h : Lined t) : (namesOn (writeText t)).Sublist
    ((t.entries.map fun e => carried (e.2.val "NAME")).filter fun n => !null n) := by
  have hs : ∀ es : List (Str × Params), (∀ e ∈ es, '\n' ∉ e.1) →
      (∀ e ∈ es, ∀ x ∈ e.2.entries, OneLine x) →
      (namesOn (es.flatMap fun e => writeEntry e.1 e.2)).Sublist
        ((es.map fun e => carried (e.2.val "NAME")).filter fun n => !null n) := by
    intro es
    induction es with
    | nil => intro _ _; exact List.Sublist.refl _
    | cons e es ih =>
      intro hi hp
      have ih' := ih (fun x hx => hi x (List.mem_cons_of_mem _ hx)) fun x hx => hp x (List.mem_cons_of_mem _ hx)
      rw [List.flatMap_cons,List.map_cons,← List.singleton_append,List.filter_append]
      unfold writeEntry
      split
      · exact ih'.trans (List.sublist_append_right _ _)
      · have hl : '\n' ∉ sectionLine e.1 := by
          simp only [sectionLine,List.mem_append,not_or]
          exact ⟨by decide,hi e (by simp)⟩
        have hw : ∀ s : Str, namesOn (('\n' :: (("ID=" : Str) ++ e.1 ++ '\n' ::
            e.2.entries.flatMap fun e => writeParam e.1 e.2)) ++ s) =
            namesOn ((e.2.entries.flatMap fun e => writeParam e.1 e.2) ++ s) := by
          intro s
          have h₁ : ('\n' :: (("ID=" : Str) ++ e.1 ++ '\n' ::
              e.2.entries.flatMap fun e => writeParam e.1 e.2)) ++ s = [] ++ '\n' :: (sectionLine e.1 ++ '\n' ::
              ((e.2.entries.flatMap fun e => writeParam e.1 e.2) ++ s)) := by simp [sectionLine]
          rw [namesOn,h₁,file_line (by simp),file_line hl,if_pos trim_nil,List.nil_append,lineNames_ident]
          rfl
        rw [hw,writeParams_eq]
        refine (namesOn_params (fun x hx => hp e (by simp) x (List.mem_filter.mp hx).1) _).trans ?_
        exact ((namesOf_sublist List.filter_sublist).trans (namesOf_entries e.2)).append ih'
  exact hs t.entries h.ident h.param

/-- Entries that carry different names are written on lines that give different names. -/
theorem names_nodup {t : Token} (hu : ∀ i j, carried (nameIn t i) ≠ [] →
    carried (nameIn t i) = carried (nameIn t j) → i = j) :
    ((t.entries.map fun e => carried (e.2.val "NAME")).filter fun n => !null n).Nodup := by
  have hn : ∀ e ∈ t.entries, nameIn t e.1 = e.2.val "NAME" := by
    intro e he
    rw [nameIn,OrdMap.getD,OrdMap.get?_eq_some.mpr (show (e.1,e.2) ∈ t.entries from he)]
    rfl
  have hd : t.entries.Nodup := List.Nodup.of_map _ t.nodup
  rw [List.filter_map]
  refine List.Nodup.map_on (fun x hx y hy he => ?_) (hd.filter _)
  obtain ⟨hx,hxn⟩ := List.mem_filter.mp hx
  obtain ⟨hy,-⟩ := List.mem_filter.mp hy
  refine List.inj_on_of_nodup_map t.nodup hx hy (hu _ _ ?_ ?_)
  · rw [hn x hx]
    simpa using hxn
  · rw [hn x hx,hn y hy]
    exact he

theorem namesOn_updateText (t : Token) : namesOn (updateText env t) = namesOn (writeText t) := by
  obtain ⟨c,hc⟩ := file_updateText env t
  rw [namesOn,hc,lineNames_none (by rfl)]
  rfl

theorem namesOn_deleteText (t : Token) : namesOn (deleteText env t) = namesOn (writeText t) := by
  obtain hc | ⟨c,hc⟩ := file_deleteText env t
  · rw [namesOn,hc]
    rfl
  · rw [namesOn,hc,lineNames_none (by rfl)]
    rfl

theorem oneLine_sub {x : Str × Str} (h₁ : '\n' ∉ x.1) (h₂ : '\n' ∉ x.2) (h₃ : carried x.1 = x.1) :
    OneLine x := ⟨h₁,h₂,fun h => by rwa [h₃]⟩

theorem Lined.set {t : Token} (h : Lined t) {n : Str} {p : Params} (hn : '\n' ∉ n)
    (hp : ∀ x ∈ p.entries, OneLine x) : Lined (t.set n p) := by
  have key : ∀ e ∈ (t.set n p).entries, '\n' ∉ e.1 ∧ ∀ x ∈ e.2.entries, OneLine x := by
    intro e he
    rcases OrdMap.mem_set he with rfl | he
    · exact ⟨hn,hp⟩
    · exact ⟨h.ident e he,h.param e he⟩
  exact ⟨fun e he => (key e he).1,fun e he => (key e he).2⟩

theorem Lined.erase {t : Token} (h : Lined t) (n : Str) : Lined (t.erase n) :=
  ⟨fun e he => h.ident e (List.mem_filter.mp he).1,fun e he => h.param e (List.mem_filter.mp he).1⟩

theorem Lined.params {t : Token} (h : Lined t) (n : Str) : ∀ x ∈ (t.getD n ∅).entries, OneLine x := by
  unfold OrdMap.getD
  cases hg : t.get? n with
  | none => simp
  | some p => exact h.param (n,p) (OrdMap.get?_eq_some.mp hg)

theorem dataId_line : '\n' ∉ dataId := by decide

theorem dataId_carried : carried dataId = dataId := by decide

/-- What is read can be written down. -/
theorem readText_lined (s : Str) : Lined (readText s ∅) := by
  have assign : ∀ (st : Reading) (n a b : Str), Lined st.token → '\n' ∉ n → OneLine (a,b) →
      Lined (st.assign n a b).token := by
    intro st n a b h hn hab
    refine h.set hn fun x hx => ?_
    rcases OrdMap.mem_set hx with rfl | hx
    · exact hab
    · exact h.params n x hx
  have fold : ∀ (ls : List Str) (st : Reading), (∀ l ∈ ls, '\n' ∉ l) → '\n' ∉ st.tname →
      Lined st.token → Lined (ls.foldl readLine st).token := by
    intro ls
    induction ls with
    | nil => exact fun _ _ _ h => h
    | cons l ls ih =>
      intro st hl ht h
      have hl' := hl l (by simp)
      have next : '\n' ∉ (readLine st l).tname ∧ Lined (readLine st l).token := by
        unfold readLine
        split
        · exact ⟨ht,h⟩
        · split
          · rename_i n hn
            have hnn : '\n' ∉ n := fun hm => (sectionName_some hn).2.2 _ hm rfl
            exact ⟨hnn,assign st n dataId n h hnn (oneLine_sub dataId_line hnn dataId_carried)⟩
          · split
            · exact ⟨ht,h⟩
            · split
              · exact ⟨ht,h⟩
              · obtain ⟨h₁,h₂⟩ := splitParam_read hl'
                exact ⟨ht,assign st _ _ _ h ht
                  (oneLine_sub h₁.2.1 h₂.2.1 (carried_eq h₁.1 h₁.2.2))⟩
      exact ih _ (fun x hx => hl x (List.mem_cons_of_mem _ hx)) next.1 next.2
  exact fold (file s) ⟨[],∅⟩ (fun l hl => (mem_file hl).2.2) (by simp) ⟨by simp,by simp⟩

theorem carried_nameIn (s i : Str) : carried (nameIn (readText s ∅) i) = nameIn (readText s ∅) i := by
  obtain ⟨h₁,-,h₂⟩ := readText_val (k := "NAME") (by decide) s i
  exact carried_eq h₁ h₂

/-- No key and no value has a newline in it, and no other key is read as NAME. -/
structure Given (data : Params) : Prop where
  line : ∀ x ∈ data.entries, '\n' ∉ x.1 ∧ '\n' ∉ x.2
  keys : ∀ k ∈ data.keys, k ≠ ("NAME" : Str) → carried k ≠ ("NAME" : Str)

theorem Given.oneLine {data : Params} (h : Given data) : ∀ x ∈ data.entries, OneLine x :=
  fun x hx => ⟨(h.line x hx).1,(h.line x hx).2,h.keys x.1 (List.mem_map_of_mem hx)⟩

def Unused (t : Token) (n : Str) : Prop := ∀ i, nameIn t i = n → n = []

/-- `_INI_TOKEN_CHECK` finds an entry with the name. -/
def Taken (t : Token) (n : Str) : Prop :=
  ∃ e ∈ t.entries, e.2.val "NAME" ≠ [] ∧ looseEq (e.2.val "NAME") n = true

theorem taken_of_nameIn {t : Token} {i : Str} (h : nameIn t i ≠ []) : Taken t (nameIn t i) := by
  unfold nameIn OrdMap.getD at *
  cases hg : t.get? i with
  | none => rw [hg] at h; exact absurd rfl h
  | some p =>
    rw [hg] at h
    exact ⟨(i,p),OrdMap.get?_eq_some.mp hg,h,looseEq_self _⟩

theorem nameIn_erase (t : Token) (n i : Str) : nameIn (t.erase n) i = if n = i then [] else nameIn t i := by
  unfold nameIn OrdMap.getD
  rw [OrdMap.get?_erase]
  split <;> rfl

theorem NamesUnique.erase {t : Token} (h : NamesUnique t) (n : Str) : NamesUnique (t.erase n) := by
  intro i j hi hij
  rw [nameIn_erase] at hi
  rw [nameIn_erase,nameIn_erase] at hij
  split at hi
  · exact absurd rfl hi
  · rename_i hni
    rw [if_neg hni] at hij
    split at hij
    · exact absurd hij hi
    · exact h i j hi hij

theorem iniTokenCheck_fst {w : World} (h : Coherent sec fil w) (name value : Str) :
    (iniTokenCheck env sec fil name value w).1 =
      (entries sec fil w).entries.all fun e => null (e.2.val name) || !looseEq (e.2.val name) value := by
  unfold iniTokenCheck
  dsimp only
  rw [iniTokenGet_fst env sec fil h]

theorem not_taken {w : World} {n : Str} (h : Coherent sec fil w)
    (hc : (iniTokenCheck env sec fil "NAME" n w).1 = true) : ¬ Taken (entries sec fil w) n := by
  rintro ⟨e,he,hn,hl⟩
  rw [iniTokenCheck_fst env sec fil h,List.all_eq_true] at hc
  have hx := hc e he
  simp [null_false_iff.mpr hn,hl] at hx

variable {sec fil}

/-- The check of an update: the entry has a name and is given another. -/
def Checked (p : Params) (n : Str) : Prop := p.val "NAME" ≠ [] ∧ looseEq (p.val "NAME") n = false

theorem update_checked {w : World} {id : Str} {data p : Params} (hc : Coherent sec fil w)
    (hp : (entries sec fil w).get? id = some p) (hn : data.val "NAME" ≠ [])
    (hx : Checked p (data.val "NAME")) (ho : (iniTokenUpdate env sec fil id data w).1 = .ok) :
    ¬ Taken (entries sec fil w) (data.val "NAME") := by
  have hw : (iniObjectClean sec fil (iniTokenGet env sec fil ∅ w).2).reg = w.reg := by simp
  have hck := @not_taken env sec fil _ (data.val "NAME")
    (iniObjectClean_coherent sec fil (iniTokenGet env sec fil ∅ w).2)
  rw [entries_congr sec fil hw] at hck
  apply hck
  unfold iniTokenUpdate at ho
  dsimp only at ho
  rw [iniTokenGet_fst env sec fil hc,hp] at ho
  dsimp only at ho
  rw [null_false_iff.mpr hx.1,null_false_iff.mpr hn,hx.2] at ho
  by_contra hf
  simp [Bool.eq_false_iff.mpr hf] at ho

/-- The name an update gives is one the check has seen, or no other entry's. -/
def UpdateClear (t : Token) (id : Str) (p : Params) (n : Str) : Prop :=
  Checked p n ∧ (carried n = n ∨ Taken t n) ∨ Unused (t.erase id) (carried n)

theorem update_unique {w : World} {id : Str} {data : Params} (hc : Coherent sec fil w)
    (hu : NamesUnique (entries sec fil w)) (hd : Given data)
    (hn : ∀ p, (entries sec fil w).get? id = some p →
      UpdateClear (entries sec fil w) id p (data.val "NAME")) :
    NamesUnique (entries sec fil (iniTokenUpdate env sec fil id data w).2) := by
  rcases iniTokenUpdate_spec env sec fil id data hc with ⟨p,hp,hw⟩ | ⟨hf,-,hw⟩
  · by_cases ho : (iniTokenUpdate env sec fil id data w).1 = .ok
    · rw [(entries_done (hw.done ho)).2,merge_eq_setAll]
      have hl := readText_lined (text sec fil w)
      have hid : '\n' ∉ id := hl.ident (id,p) (OrdMap.get?_eq_some.mp hp)
      have hlt : Lined ((entries sec fil w).set id (p.setAll data.entries)) := by
        refine hl.set hid fun x hx => ?_
        rcases mem_setAll hx with hx | hx
        · exact hl.param (id,p) (OrdMap.get?_eq_some.mp hp) x hx
        · exact hd.oneLine x hx
      apply readText_unique
      rw [namesOn_updateText]
      refine (names_nodup ?_).sublist (namesOn_writeText hlt)
      have hpn : p.val "NAME" = nameIn (entries sec fil w) id := by
        rw [nameIn,OrdMap.getD,hp]; rfl
      -- the entry keeps its name, or is given one that is no other entry's
      have own : ∀ j, j ≠ id → carried (Params.val (p.setAll data.entries) "NAME") ≠ [] →
          carried (Params.val (p.setAll data.entries) "NAME") ≠ nameIn (entries sec fil w) j := by
        intro j hj hne heq
        rw [setAll_val] at hne heq
        have new : carried (data.val "NAME") ≠ [] →
            carried (data.val "NAME") ≠ nameIn (entries sec fil w) j := by
          intro hne heq
          have hnn : data.val "NAME" ≠ [] := fun h => hne (by rw [h]; rfl)
          rcases hn p hp with ⟨hx,hx'⟩ | hx
          · have ht := update_checked env hc hp hnn hx ho
            rcases hx' with hx' | hx'
            · rw [hx'] at heq
              exact ht (heq ▸ taken_of_nameIn (by rwa [← heq]))
            · exact ht hx'
          · exact hne (hx j (by rw [nameIn_erase,if_neg (Ne.symm hj),heq]))
        cases hg : data.get? "NAME" with
        | none =>
          rw [hg,Option.getD_none,hpn] at hne heq
          rw [entries,carried_nameIn] at hne heq
          exact hj (hu id j hne heq).symm
        | some v =>
          have hv : data.val "NAME" = v := by rw [Params.val,OrdMap.getD,hg]; rfl
          rw [hg,Option.getD_some,← hv] at hne heq
          exact new hne heq
      have old : ∀ j, carried (nameIn (entries sec fil w) j) = nameIn (entries sec fil w) j :=
        carried_nameIn _
      intro i j hi hij
      rw [nameIn_set] at hi
      rw [nameIn_set,nameIn_set] at hij
      by_cases h₁ : id = i <;> by_cases h₂ : id = j
      · exact h₁.symm.trans h₂
      · rw [if_pos h₁] at hi hij
        rw [if_neg h₂,old] at hij
        exact absurd hij (own j (Ne.symm h₂) hi)
      · rw [if_neg h₁,old] at hi hij
        rw [if_pos h₂] at hij
        exact absurd hij.symm (own i (Ne.symm h₁) (by rwa [← hij]))
      · rw [if_neg h₁,old] at hi hij
        rw [if_neg h₂,old] at hij
        exact hu i j hi hij
    · rw [entries_congr sec fil (hw.refused ho)]
      exact hu
  · have hr := (hw []).refused (by rw [hf]; simp)
    rw [entries_congr sec fil hr]
    exact hu

/-- What `_INI_TOKEN_SAVE` puts out, key and value trimmed. -/
def savedLines (d : Params) : List (Str × Str) :=
  (d.entries.filter fun e => !(skipped (trim e.1) || (trim e.1 = ("ID" : Str) && null (trim e.2)))).map
    fun e => (trim e.1,trim e.2)

theorem saveParams_lines (d : Params) : (d.entries.flatMap fun e => saveParam e.1 e.2) =
    (savedLines d).flatMap fun x => paramLine x ++ ['\n'] := by
  unfold savedLines
  induction d.entries with
  | nil => rfl
  | cons e es ih =>
    rw [List.flatMap_cons,ih,List.filter_cons]
    cases h : skipped (trim e.1) || (decide (trim e.1 = ("ID" : Str)) && null (trim e.2)) with
    | true => simp [saveParam,h]
    | false => simp [saveParam,h,paramLine]

theorem trim_line {s : Str} (h : '\n' ∉ s) : '\n' ∉ trim s := fun hm => h (LineText.strip_mem trimChar hm)

theorem savedLines_oneLine {d : Params} (h : Given d) : ∀ x ∈ savedLines d, OneLine x := by
  intro x hx
  obtain ⟨e,he,rfl⟩ := List.mem_map.mp hx
  have ho := h.oneLine e (List.mem_filter.mp he).1
  refine ⟨trim_line ho.key,trim_line ho.value,fun hn => ?_⟩
  rw [carried_trim]
  exact ho.name fun hh => hn (by rw [hh]; rfl)

theorem namesOf_savedLines {d : Params} (h : Given d) : (namesOf (savedLines d)).Sublist
    ([carried (d.val "NAME")].filter fun n => !null n) := by
  have hk : ∀ es : List (Str × Str), (∀ x ∈ es, OneLine x) →
      namesOf (es.map fun e => (trim e.1,trim e.2)) = namesOf es := by
    intro es
    induction es with
    | nil => intro _; rfl
    | cons e es ih =>
      intro ho
      have he := ho e (by simp)
      have hn : trim e.1 = ("NAME" : Str) ↔ e.1 = ("NAME" : Str) := by
        constructor
        · intro ht
          by_contra hne
          apply he.name hne
          rw [← carried_trim,ht]
          decide
        · intro ht
          rw [ht]
          rfl
      rw [List.map_cons,namesOf_cons,namesOf_cons e,ih fun x hx => ho x (List.mem_cons_of_mem _ hx)]
      congr 1
      simp only [namesOf,List.filter_cons,hn,List.filter_nil]
      split
      · simp only [List.map_cons,List.map_nil,carried_trim]
      · rfl
  unfold savedLines
  rw [hk _ fun x hx => h.oneLine x (List.mem_filter.mp hx).1]
  exact (namesOf_sublist List.filter_sublist).trans (namesOf_entries d)

theorem namesOn_saveText {id : Str} {d : Params} (hi : '\n' ∉ id) (hd : Given d) :
    (namesOn (saveText env id d)).Sublist ([carried (d.val "NAME")].filter fun n => !null n) := by
  have hl : '\n' ∉ sectionLine id := by
    simp only [sectionLine,List.mem_append,not_or]
    exact ⟨by decide,hi⟩
  obtain ⟨c,hc⟩ := file_saveText_head env id d
  have hs := namesOn_params (savedLines_oneLine hd) []
  rw [List.append_nil] at hs
  rw [namesOn,hc,lineNames_none (by rfl),file_line hl,lineNames_ident,saveLine,file_trim_newline,
    saveParams_lines]
  refine hs.trans ?_
  rw [show namesOn [] = [] from rfl,List.append_nil]
  exact namesOf_savedLines hd

theorem saveEntry_checked {w : World} {id : Str} {d : Params}
    (h : Coherent sec fil w) (hn : d.val "NAME" ≠ []) (ho : (saveEntry env sec fil id d w).1 = .ok) :
    ¬ Taken (entries sec fil w) (d.val "NAME") := by
  apply not_taken env sec fil h
  unfold saveEntry at ho
  dsimp only at ho
  rw [null_false_iff.mpr hn] at ho
  by_contra hf
  simp [Bool.eq_false_iff.mpr hf] at ho

theorem save_checked {w : World} {data : Params} {r : Ret × World}
    (hr : iniTokenSave env sec fil data w = some r) (hn : data.val "NAME" ≠ []) (ho : r.1 = .ok) :
    ¬ Taken (entries sec fil w) (data.val "NAME") := by
  have hw : (iniObjectClean sec fil (iniTokenGet env sec fil ∅ w).2).reg = w.reg := by simp
  have key : ∀ id d, d.val "NAME" = data.val "NAME" → (saveEntry env sec fil id d
      (iniObjectClean sec fil (iniTokenGet env sec fil ∅ w).2)).1 = .ok →
      ¬ Taken (entries sec fil w) (data.val "NAME") := by
    intro id d hd ho
    have h := saveEntry_checked env (iniObjectClean_coherent sec fil _) (by rw [hd]; exact hn) ho
    rwa [entries_congr sec fil hw,hd] at h
  unfold iniTokenSave at hr
  split at hr
  · simp only [Option.some.injEq] at hr
    rw [← hr] at ho
    simp at ho
  · dsimp only at hr
    split at hr
    · obtain ⟨k,-,rfl⟩ := Option.map_eq_some_iff.mp hr
      exact key k data rfl ho
    · split at hr
      · simp only [Option.some.injEq] at hr
        rw [← hr] at ho
        simp at ho
      · simp only [Option.some.injEq] at hr
        rw [← hr] at ho
        refine key _ _ ?_ ho
        rw [Params.val,Params.val,OrdMap.getD,OrdMap.get?_erase,if_neg (by decide),OrdMap.getD]

/-- The name a save gives is one the check has seen, or no entry's. -/
def SaveClear (t : Token) (n : Str) : Prop := carried n = n ∨ Taken t n ∨ Unused t (carried n)

theorem Given.erase {data : Params} (h : Given data) (k : Str) : Given (data.erase k) :=
  ⟨fun x hx => h.line x (List.mem_filter.mp hx).1,fun j hj => h.keys j (by
    rw [keys_erase] at hj
    exact (List.mem_filter.mp hj).1)⟩

theorem namesOn_saved {t : Token} {data d : Params} {id : Str} (hd : Given data) (hid : NewId env t data id)
    (hdd : d = if data.val "ID" = [] then data else data.erase "ID") :
    (namesOn (saveText env id d)).Sublist ([carried (data.val "NAME")].filter fun n => !null n) := by
  have hdn : d.val "NAME" = data.val "NAME" ∧ Given d := by
    rw [hdd]
    split
    · exact ⟨rfl,hd⟩
    · refine ⟨?_,hd.erase _⟩
      rw [Params.val,Params.val,OrdMap.getD,OrdMap.get?_erase,if_neg (by decide),OrdMap.getD]
  have hi : '\n' ∉ id := by
    by_cases hx : data.val "ID" = []
    · exact (hex_identOk (env.keys_hex id (hid.drawn hx).1)).newline
    · rw [(hid.given hx).1]
      unfold Params.val OrdMap.getD at hx ⊢
      cases hg : data.get? "ID" with
      | none => simp
      | some v => exact (hd.line _ (OrdMap.get?_eq_some.mp hg)).2
  have hs := namesOn_saveText env hi hdn.2
  rwa [hdn.1] at hs

theorem save_unique {w : World} {data : Params} {r : Ret × World} (hc : Coherent sec fil w)
    (hl : LineEnded (text sec fil w)) (hu : NamesUnique (entries sec fil w)) (hd : Given data)
    (hn : SaveClear (entries sec fil w) (data.val "NAME"))
    (hr : iniTokenSave env sec fil data w = some r) : NamesUnique (entries sec fil r.2) := by
  rcases iniTokenSave_spec env sec fil hc hr with ⟨id,d,hid,hdd,hw,-⟩ | ⟨hf,hw⟩
  · by_cases ho : r.1 = .ok
    · have hs := namesOn_saved env hd hid hdd
      rw [(entries_done (hw.done ho)).2,readText,file_append hl,List.foldl_append]
      refine readLines_unique hu (((List.nodup_singleton _).filter _).sublist hs) fun n hm i he => ?_
      obtain ⟨hm,hne⟩ := List.mem_filter.mp (hs.subset hm)
      rw [List.mem_singleton] at hm
      subst hm
      change nameIn (entries sec fil w) i = carried (data.val "NAME") at he
      have hne' : carried (data.val "NAME") ≠ [] := by simpa using hne
      have hnn : data.val "NAME" ≠ [] := fun h => hne' (by rw [h]; rfl)
      have ht := save_checked env hr hnn ho
      rcases hn with hx | hx | hx
      · rw [hx] at he
        exact ht (he ▸ taken_of_nameIn (by rwa [he]))
      · exact ht hx
      · exact hne' (hx i he)
    · rw [entries_congr sec fil (hw.refused ho)]
      exact hu
  · rw [entries_congr sec fil ((hw []).refused (by rw [hf]; simp))]
    exact hu

/-- Taking the name out of the file gives no line a new NAME. -/
def Sparing (n s : Str) : Prop :=
  (namesOn (removeFile pcre env n [] (sec,fil) s)).Sublist (namesOn s)

/-- A name without special characters is taken out of lines that give it and nothing else. -/
theorem sparing_plain {n : Str} (hn : PlainName n) (s : Str) : @Sparing pcre env sec fil n s := by
  unfold Sparing removeFile
  split
  · rw [namesOn,file_removeText pcre fun l hl => removeLine_isLine pcre hn (isLine_of_mem hl)]
    have hx : ∀ l ∈ file s, nameOn (removeLine pcre n [] l) = [] ∨ removeLine pcre n [] l = l := by
      intro l hl
      by_cases hr : Reached n l
      · obtain ⟨k,hk,rfl⟩ := hr
        left
        rw [removeLine_nil pcre hn hk]
        rcases nameOn_cases (LineText.replaceAll n [] k ++ ['=']) with h | ⟨-,h⟩
        · exact h
        · have he : '=' ∉ LineText.replaceAll n [] k := fun hm =>
            (referenceKeys_keyName k hk).eq ((LineText.replaceAll_mem [] hm).resolve_left (by simp))
          rw [h,splitParam_snd_append he]
          rfl
      · exact Or.inr (removeLine_of_not_reached pcre hn.literal (isLine_of_mem hl).newline hr)
    unfold namesOn
    revert hx
    generalize file s = ls
    intro hx
    induction ls with
    | nil => exact List.Sublist.refl _
    | cons l ls ih =>
      have ih' := ih fun x hm => hx x (List.mem_cons_of_mem _ hm)
      rw [List.map_cons]
      rcases hx l (by simp) with h | h
      · rw [lineNames_none h,lineNames_cons]
        exact ih'.trans (List.sublist_append_right _ _)
      · rw [h,lineNames_cons l (ls.map _),lineNames_cons l ls]
        exact (List.Sublist.refl _).append ih'
  · exact List.Sublist.refl _

theorem iniTokenRemove_coherent (n new : Str) {w : World} (h : Coherent sec fil w) :
    Coherent sec fil (iniTokenRemove pcre env n new w) := by
  unfold iniTokenRemove
  split
  · exact h
  · exact Or.inl rfl

theorem iniTokenDelete_coherent (id : Str) (w : World) :
    Coherent sec fil (iniTokenDelete pcre env sec fil id w).2 := by
  have hc := iniObjectClean_cache sec fil (iniTokenGet env sec fil ∅ w).2
  have hs := fun x => (fileSave_spec env sec fil x hc).1
  unfold iniTokenDelete
  dsimp only
  split
  · exact Or.inl hc
  · split
    · exact iniTokenRemove_coherent pcre env _ _ (hs _)
    · exact hs _

/-- Taking an entry out of the file, and its name out of the lines. -/
theorem delete_unique {w : World} (id : Str) (hc : Coherent sec fil w) (hl : LineEnded (text sec fil w))
    (hu : NamesUnique (entries sec fil w)) (hn : nameIn (entries sec fil w) id ≠ [] →
      @Sparing pcre env sec fil (nameIn (entries sec fil w) id)
        (deleteText env ((entries sec fil w).erase id))) :
    NamesUnique (entries sec fil (iniTokenDelete pcre env sec fil id w).2) ∧
    LineEnded (text sec fil (iniTokenDelete pcre env sec fil id w).2) := by
  have hr := iniTokenDelete_deleted pcre env id hc
  have ht : text sec fil (without env sec fil id w) = deleteText env ((entries sec fil w).erase id) := by
    simp [text,without,OrdMap.getD]
  have hd : (namesOn (deleteText env ((entries sec fil w).erase id))).Nodup := by
    rw [namesOn_deleteText]
    refine (names_nodup fun i j hi hij => ?_).sublist (namesOn_writeText ((readText_lined _).erase id))
    have hcar : ∀ i, carried (nameIn ((entries sec fil w).erase id) i) =
        nameIn ((entries sec fil w).erase id) i := by
      intro i
      rw [nameIn_erase]
      split
      · rfl
      · exact carried_nameIn _ i
    rw [hcar] at hi
    rw [hcar,hcar] at hij
    exact hu.erase id i j hi hij
  rw [entries_congr sec fil hr,show text sec fil (iniTokenDelete pcre env sec fil id w).2 =
    text sec fil (deleted pcre env sec fil id w) by rw [text,text,hr]]
  unfold deleted
  split
  · split
    · rw [entries,ht]
      exact ⟨readText_unique hd,lineEnded_deleteText env _⟩
    · rename_i hne
      have htr := text_iniTokenRemove pcre env (nameOf sec fil id w) [] (sec,fil) (without env sec fil id w)
      refine ⟨?_,iniTokenRemove_ended pcre env _ _ sec fil (by rw [ht]; exact lineEnded_deleteText env _)⟩
      rw [entries]
      apply readText_unique
      rw [htr,ht]
      exact hd.sublist (hn fun h => hne (null_iff.mpr h))
  · exact ⟨hu,hl⟩

/-- The writing calls on one file. -/
inductive Write
  | save (data : Params)
  | update (id : Str) (data : Params)
  | delete (id : Str)

/-- No result where the key loop of a save has not ended. -/
def Write.run (sec fil : Str) : Write → World → Option World
  | save data, w => (iniTokenSave env sec fil data w).map Prod.snd
  | update id data, w => some (iniTokenUpdate env sec fil id data w).2
  | delete id, w => some (iniTokenDelete pcre env sec fil id w).2

def Write.data : Write → Params
  | save data => data
  | update _ data => data
  | delete _ => ∅

/-- The name the call gives has been checked as it is read, or is no other entry's; and taking a
name out gives no line a NAME. -/
def Write.Clear (sec fil : Str) (w : World) : Write → Prop
  | save data => SaveClear (entries sec fil w) (data.val "NAME")
  | update id data => ∀ p, (entries sec fil w).get? id = some p →
      UpdateClear (entries sec fil w) id p (data.val "NAME")
  | delete id => nameIn (entries sec fil w) id ≠ [] →
      @Sparing pcre env sec fil (nameIn (entries sec fil w) id)
        (deleteText env ((entries sec fil w).erase id))

/-- A file without two entries of one NAME, its last line ended and its cache as it is. -/
structure Named (sec fil : Str) (w : World) : Prop where
  coherent : Coherent sec fil w
  ended : LineEnded (text sec fil w)
  unique : NamesUnique (entries sec fil w)

/-- Writing calls in any order, on data without newlines. -/
def writeSystem (sec fil : Str) : System World (Env × Write) where
  init := Named sec fil
  step w l w' := (∀ x ∈ l.2.data.entries, '\n' ∉ x.1 ∧ '\n' ∉ x.2) ∧
    l.2.run pcre l.1 sec fil w = some w'

def clearSystem (sec fil : Str) : System World (Env × Write) where
  init := Named sec fil
  step w l w' := (writeSystem pcre sec fil).step w l w' ∧ Given l.2.data ∧ l.2.Clear pcre l.1 sec fil w

/-- What one call leaves. -/
theorem clear_step {w w' : World} {l : Env × Write} (h : Named sec fil w)
    (hs : (clearSystem pcre sec fil).step w l w') : Named sec fil w' := by
  obtain ⟨env,op⟩ := l
  obtain ⟨⟨-,hr⟩,hd,hc⟩ := hs
  cases op with
  | save data =>
    obtain ⟨r,hx,rfl⟩ := Option.map_eq_some_iff.mp hr
    have hu := save_unique env h.coherent h.ended h.unique hd hc hx
    rcases iniTokenSave_spec env sec fil h.coherent hx with ⟨_,_,-,-,hw,-⟩ | ⟨hf,hw⟩
    · refine ⟨hw.coherent,?_,hu⟩
      by_cases ho : r.1 = .ok
      · rw [(entries_done (hw.done ho)).1]
        exact lineEnded_saveText env _ _ _
      · rw [text,hw.refused ho]
        exact h.ended
    · refine ⟨(hw []).coherent,?_,hu⟩
      rw [text,(hw []).refused (by rw [hf]; simp)]
      exact h.ended
  | update id data =>
    simp only [Write.run,Option.some.injEq] at hr
    subst hr
    have hu := update_unique env h.coherent h.unique hd hc
    rcases iniTokenUpdate_spec env sec fil id data h.coherent with ⟨_,-,hw⟩ | ⟨hf,-,hw⟩
    · refine ⟨hw.coherent,?_,hu⟩
      by_cases ho : (iniTokenUpdate env sec fil id data w).1 = .ok
      · rw [(entries_done (hw.done ho)).1]
        exact lineEnded_updateText env _
      · rw [text,hw.refused ho]
        exact h.ended
    · refine ⟨(hw []).coherent,?_,hu⟩
      rw [text,(hw []).refused (by rw [hf]; simp)]
      exact h.ended
  | delete id =>
    simp only [Write.run,Option.some.injEq] at hr
    subst hr
    obtain ⟨hu,hl⟩ := delete_unique pcre env id h.coherent h.ended h.unique hc
    exact ⟨iniTokenDelete_coherent pcre env id w,hl,hu⟩

/-- In every state of a run no two entries of the file have the same NAME. -/
theorem names_unique {w w' : World} {ls : List (Env × Write)} (hi : (clearSystem pcre sec fil).init w)
    (hr : System.Run (clearSystem pcre sec fil) w ls w') : NamesUnique (entries sec fil w') :=
  (hr.invariant (fun _ _ _ h hs => clear_step pcre h hs) hi).unique

def halfNamed : World := World.ofFiles [("network","eth.cfg","ID=eth0\nNAME=lan\nID=eth1\nSTAT=0\n")]

theorem halfNamed_named : Named "network" "eth.cfg" halfNamed :=
  ⟨Or.inl rfl,by decide,readText_unique (by decide)⟩

def wanSave : Params := OrdMap.empty.setAll [("ID","eth2"),("NAME","wan")]

def dmzName : Params := OrdMap.empty.setAll [("NAME","dmz")]

/-- The states of a run that adds an interface, renames the first and deletes the new one. -/
def wanSaved : World := ((Write.save wanSave).run Pcre.plain noonEnv "network" "eth.cfg" halfNamed).getD halfNamed

def dmzNamed : World :=
  ((Write.update "eth0" dmzName).run Pcre.plain noonEnv "network" "eth.cfg" wanSaved).getD halfNamed

def wanDeleted : World :=
  ((Write.delete "eth2").run Pcre.plain noonEnv "network" "eth.cfg" dmzNamed).getD halfNamed

theorem names_unique_dmz : NamesUnique (entries "network" "eth.cfg" wanDeleted) := by
  have h₁ : (Write.save wanSave).run Pcre.plain noonEnv "network" "eth.cfg" halfNamed = some wanSaved := by
    decide +kernel
  have h₂ : (Write.update "eth0" dmzName).run Pcre.plain noonEnv "network" "eth.cfg" wanSaved =
      some dmzNamed := by decide +kernel
  have h₃ : (Write.delete "eth2").run Pcre.plain noonEnv "network" "eth.cfg" dmzNamed = some wanDeleted := by
    decide +kernel
  have hu : ∀ p, (entries "network" "eth.cfg" wanSaved).get? "eth0" = some p →
      UpdateClear (entries "network" "eth.cfg" wanSaved) "eth0" p (dmzName.val "NAME") := by
    intro p hp
    have hc : ((entries "network" "eth.cfg" wanSaved).get? "eth0").all fun p =>
        p.val "NAME" ≠ [] ∧ looseEq (p.val "NAME") "dmz" = false := by decide +kernel
    have hn : dmzName.val "NAME" = ("dmz" : Str) := by decide
    rw [hp] at hc
    rw [hn]
    exact Or.inl ⟨by simpa [Checked] using hc,Or.inl (by decide)⟩
  have hd : (Write.delete "eth2").Clear Pcre.plain noonEnv "network" "eth.cfg" dmzNamed := by
    intro _
    have hn : nameIn (entries "network" "eth.cfg" dmzNamed) "eth2" = ("wan" : Str) := by decide
    rw [hn]
    exact sparing_plain Pcre.plain noonEnv ⟨by decide,by decide,by decide,by decide,by decide⟩ _
  have hr : System.Run (clearSystem Pcre.plain "network" "eth.cfg") halfNamed
      ([(noonEnv,.save wanSave)] ++ [(noonEnv,.update "eth0" dmzName)] ++ [(noonEnv,.delete "eth2")]) wanDeleted :=
    .snoc (.snoc (.snoc .nil ⟨⟨by decide,h₁⟩,⟨by decide,by decide⟩,Or.inl (by decide)⟩)
      ⟨⟨by decide,h₂⟩,⟨by decide,by decide⟩,hu⟩) ⟨⟨by decide,h₃⟩,⟨by decide,by decide⟩,hd⟩
  exact names_unique Pcre.plain halfNamed_named hr

def lanName : Params := OrdMap.empty.setAll [("NAME","lan")]

def lanTwice : World :=
  ((Write.update "eth1" lanName).run Pcre.plain noonEnv "network" "eth.cfg" halfNamed).getD halfNamed

/-- The first name of an entry is not checked. -/
theorem names_not_unique : ¬ ∀ (w w' : World) (ls : List (Env × Write)),
    (writeSystem Pcre.plain "network" "eth.cfg").init w →
    System.Run (writeSystem Pcre.plain "network" "eth.cfg") w ls w' →
    NamesUnique (entries "network" "eth.cfg" w') := by
  intro h
  have h₁ : (Write.update "eth1" lanName).run Pcre.plain noonEnv "network" "eth.cfg" halfNamed =
      some lanTwice := by decide
  have hr : System.Run (writeSystem Pcre.plain "network" "eth.cfg") halfNamed
      ([] ++ [(noonEnv,.update "eth1" lanName)]) lanTwice := .snoc .nil ⟨by decide,h₁⟩
  have he := h _ _ _ halfNamed_named hr "eth0" "eth1" (by decide) (by decide)
  exact absurd he (by decide)

end Registry
end Mybox
