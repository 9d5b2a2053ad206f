import Mybox.CacheCoherence
import Mybox.ReadValues

/-! A policy route is added to `route_policy.cfg`: behind the others, or before them, by way of a file of its own
that takes in the old one. -/
namespace Mybox
namespace Registry
open Php RegistryFormat References

variable (env : Env) {sec fil : Str}

def strays : List Str → List (Str × Str)
  | [] => []
  | l::ls =>
    if l.head? = some '#' then strays ls
    else if sectionName l ≠ none then []
    else if null (splitParam l).1 then strays ls
    else splitParam l :: strays ls

/-- They go into the entry before them. -/
theorem foldl_strays {n : Str} (hn : n ≠ []) (ls : List Str) (p : Params) :
    (ls.foldl readLine ⟨n,(∅ : Token).set n p⟩).token =
      OrdMap.overlay ((∅ : Token).set n (p.setAll (strays ls))) (ls.foldl readLine ⟨[],∅⟩).token := by
  have empty : ∀ t : Token, OrdMap.overlay t ∅ = t := fun t => rfl
  induction ls generalizing p with
  | nil => exact (empty _).symm
  | cons l ls ih =>
    rw [List.foldl_cons,List.foldl_cons,strays]
    by_cases hc : l.head? = some '#'
    · have hs : ∀ st, readLine st l = st := fun st => by rw [readLine,if_pos hc]
      rw [hs,hs,if_pos hc]
      exact ih p
    · rw [if_neg hc]
      cases hs : sectionName l with
      | some m =>
        have hr : ∀ st, readLine st l = st.assign m dataId m := fun st => by rw [readLine,if_neg hc,hs]
        rw [hr,hr,if_pos (by simp),OrdMap.setAll_nil]
        refine foldl_overlay ls _ _ rfl ?_
        have ho := OrdMap.overlay_set ((∅ : Token).set n p) ∅ m dataId m
        rw [empty] at ho
        exact ho.symm
      | none =>
        have hr : readLine ⟨[],∅⟩ l = ⟨[],∅⟩ := by simp [readLine,hc,hs]
        rw [hr,if_neg (by simp)]
        by_cases hk : null (splitParam l).1 = true
        · have hp : readLine ⟨n,(∅ : Token).set n p⟩ l = ⟨n,(∅ : Token).set n p⟩ := by
            simp [readLine,hc,hs,null_iff.mp hk]
          rw [hp,if_pos hk]
          exact ih p
        · have hp : readLine ⟨n,(∅ : Token).set n p⟩ l =
              ⟨n,(∅ : Token).set n (p.set (splitParam l).1 (splitParam l).2)⟩ := by
            simp [readLine,hc,hs,hn,show (splitParam l).1 ≠ [] by simpa using hk,Reading.assign,OrdMap.getD,
              OrdMap.get?_set_self,OrdMap.set_set_self]
          rw [hp,if_neg hk,OrdMap.setAll_cons]
          exact ih _

theorem mem_keys_readLine {st : Reading} (h : st.tname = [] ∨ st.tname ∈ st.token.keys) (l : Str) :
    ((readLine st l).tname = [] ∨ (readLine st l).tname ∈ (readLine st l).token.keys) ∧
    ∀ n, n ∈ (readLine st l).token.keys ↔ n ∈ st.token.keys ∨ sectionName l = some n := by
  unfold readLine
  by_cases hc : l.head? = some '#'
  · have hs : sectionName l = none := by
      cases hs : sectionName l with
      | none => rfl
      | some m =>
        rw [(sectionName_some hs).1] at hc
        simp [sectionLine,Str.of_ascii] at hc
    rw [if_pos hc]
    simp [h,hs]
  · rw [if_neg hc]
    cases hs : sectionName l with
    | some m =>
      simp only [Reading.assign,OrdMap.mem_keys_set,Option.some.injEq]
      exact ⟨Or.inr (Or.inr trivial),fun n => or_congr_right eq_comm⟩
    | none =>
      dsimp only
      split
      · simp [h]
      · rename_i ht
        split
        · simp [h]
        · have hm := h.resolve_left (by simpa using ht)
          simp only [Reading.assign,OrdMap.mem_keys_set]
          refine ⟨Or.inr (Or.inr trivial),fun n => ?_⟩
          constructor
          · rintro (hn | rfl)
            · exact Or.inl hn
            · exact Or.inl hm
          · rintro (hn | hn)
            · exact Or.inl hn
            · cases hn

theorem mem_keys_readText (s n : Str) : n ∈ (readText s ∅).keys ↔ ∃ l ∈ file s, sectionName l = some n := by
  have key : ∀ (ls : List Str) (st : Reading), (st.tname = [] ∨ st.tname ∈ st.token.keys) →
      (n ∈ (ls.foldl readLine st).token.keys ↔ n ∈ st.token.keys ∨ ∃ l ∈ ls, sectionName l = some n) := by
    intro ls
    induction ls with
    | nil => simp
    | cons l ls ih =>
      intro st h
      obtain ⟨ht,hm⟩ := mem_keys_readLine h l
      rw [List.foldl_cons,ih _ ht,hm]
      simp [or_assoc]
  have hk := key (file s) ⟨[],∅⟩ (Or.inl rfl)
  rw [readText,hk]
  simp [OrdMap.keys]

def saveComment : Str := ("# _INI_TOKEN_SAVE: " : Str) ++ env.date

/-- Written behind a line, it makes a section line into something else. -/
theorem sectionName_commented (l : Str) : sectionName (trim (l ++ saveComment env)) = none := by
  have hshape : saveComment env = '#' :: ([' '] ++ '_' :: (("INI_TOKEN_SAVE: " : Str) ++ env.date)) := rfl
  have hd : (l ++ saveComment env).dropWhile trimChar = l.dropWhile trimChar ++ saveComment env := by
    induction l with
    | nil => rw [hshape]; rfl
    | cons c l ih =>
      by_cases hc : trimChar c = true
      · rw [List.cons_append,List.dropWhile_cons_of_pos hc,ih,List.dropWhile_cons_of_pos hc]
      · rw [List.cons_append,List.dropWhile_cons_of_neg hc,List.dropWhile_cons_of_neg hc,List.cons_append]
  have ht : ' ' ∈ trim (l ++ saveComment env) := by
    rw [trim,LineText.strip,hd,hshape,rdropWhile_append_cons trimChar (by decide),
      rdropWhile_append_cons trimChar (by decide)]
    simp
  rw [Option.eq_none_iff_forall_ne_some]
  intro n hn
  obtain ⟨he,-,hb⟩ := sectionName_some hn
  rw [he,sectionLine,List.mem_append] at ht
  rcases ht with ht | ht
  · exact absurd ht (by decide)
  · exact hb _ ht (by decide)

theorem exists_lastLine (s : Str) : ∃ y l, s = y ++ l ∧ LineEnded y ∧ '\n' ∉ l := by
  induction s using List.reverseRecOn with
  | nil => exact ⟨[],[],rfl,Or.inl rfl,by simp⟩
  | append_singleton s c ih =>
    by_cases hc : c = '\n'
    · subst hc
      exact ⟨s ++ ['\n'],[],by simp,lineEnded_concat s,by simp⟩
    · obtain ⟨y,l,rfl,hy,hl⟩ := ih
      refine ⟨y,l ++ [c],by simp,hy,?_⟩
      rw [List.mem_append,List.mem_singleton,not_or]
      exact ⟨hl,fun h => hc h.symm⟩

theorem keys_commented {s n : Str} (h : n ∈ (readText (s ++ saveComment env) ∅).keys) : n ∈ (readText s ∅).keys := by
  obtain ⟨y,l,rfl,hy,hl⟩ := exists_lastLine s
  have hc : '\n' ∉ l ++ saveComment env := by
    rw [List.mem_append,saveComment,List.mem_append]
    rintro (hm | hm | hm)
    · exact hl hm
    · exact absurd hm (by decide)
    · exact env.date_line hm
  rw [mem_keys_readText] at h ⊢
  obtain ⟨m,hm,hs⟩ := h
  rw [List.append_assoc,file_append hy,List.mem_append] at hm
  rcases hm with hm | hm
  · exact ⟨m,by rw [file_append hy]; exact List.mem_append_left _ hm,hs⟩
  · rw [file,LineText.lines_single trimChar '\n' hc] at hm
    split at hm
    · simp at hm
    · rw [List.mem_singleton.mp hm] at hs
      change sectionName (trim (l ++ saveComment env)) = some n at hs
      rw [sectionName_commented] at hs
      cases hs

theorem foldl_saveText {n : Str} (hn : IdentOk n) {data : Params} (hd : NewData data) {st : Reading}
    (hf : st.token.get? n = none) : (file (saveText env n data)).foldl readLine st =
      ⟨n,st.token.set n (readBack n (carriedParams data))⟩ := by
  have ha : List.Forall₂ Alike (file (saveText env n data)) (file (saveText env n (carriedParams data))) :=
    alike_saveText env (x:=[]) (Or.inl rfl) hn hd
  have hs := hd.saveCarried
  have hcid : (carriedParams data).val "ID" = [] := by
    rw [Params.val,OrdMap.getD,carriedParams,OrdMap.get?_mapEntries,hd.ident]
    rfl
  have hdo := hs.dataOk
  rw [if_pos hcid] at hdo
  have her : saved (carriedParams data) = carriedParams data := by
    apply OrdMap.ext
    refine List.filter_eq_self.mpr fun y hy => ?_
    obtain ⟨x,hx,rfl⟩ := List.mem_map.mp hy
    simpa using (hd x hx).1.1.id
  obtain ⟨c,hc⟩ := file_saveText env hn hdo hs.params
  have hp : ∀ e ∈ shown (saved (carriedParams data)), ParamOk e.1 e.2 := hs.params
  rw [foldl_alike ha,hc,List.foldl_cons,readLine_comment,foldl_entry _ hn hp (OrdMap.get?_eq_none.mp hf),her]

theorem saveText_eq (s n : Str) (d : Params) : s ++ saveText env n d =
    (s ++ saveComment env) ++ '\n' :: (sectionLine n ++ '\n' :: (saveLine d ++ ['\n'])) := by
  simp [saveText,saveComment,sectionLine]

/-- Behind a text: the new entry comes last, and the rest is what is read with the comment behind the text. -/
theorem entries_behind {s n : Str} (hn : IdentOk n) {data : Params} (hd : NewData data)
    (hf : (readText s ∅).get? n = none) : (readText (s ++ saveText env n data) ∅).entries =
      (readText (s ++ saveComment env) ∅).entries ++ [(n,readBack n (carriedParams data))] := by
  have hk : n ∉ (readText (s ++ saveComment env) ∅).keys := fun h =>
    OrdMap.get?_eq_none.mp hf (keys_commented env h)
  have hsplit : file (s ++ saveText env n data) = file (s ++ saveComment env) ++
      file (sectionLine n ++ '\n' :: (saveLine data ++ ['\n'])) := by
    rw [saveText_eq]
    exact LineText.lines_append_nl trimChar '\n' _ _
  obtain ⟨c,hc⟩ := file_saveText_head env n data
  have hfold := @foldl_saveText env _ hn _ hd ((file (s ++ saveComment env)).foldl readLine ⟨[],∅⟩)
    (OrdMap.get?_eq_none.mpr hk)
  rw [hc,List.foldl_cons,readLine_comment] at hfold
  rw [readText,hsplit,List.foldl_append,hfold,readText]
  exact OrdMap.set_entries_fresh _ _ hk

/-- Before a text: the new entry comes first, and takes what stands before the first section line. -/
theorem entries_before {s n : Str} (hn : IdentOk n) {data : Params} (hd : NewData data)
    (hf : (readText s ∅).get? n = none) : (readText (saveText env n data ++ (trim s ++ ['\n'])) ∅).entries =
      (n,(readBack n (carriedParams data)).setAll (strays (file s))) :: (readText s ∅).entries := by
  have hl : LineEnded (saveText env n data) := lineEnded_saveText env [] n data
  rw [readText,file_append hl,file_trim_newline,List.foldl_append,
    @foldl_saveText env _ hn _ hd ⟨[],∅⟩ rfl]
  change ((file s).foldl readLine ⟨n,(∅ : Token).set n (readBack n (carriedParams data))⟩).token.entries = _
  rw [foldl_strays hn.ne]
  exact OrdMap.overlay_fresh _ hf

/-- Behind a text that ends its last line the comment is a line of its own. -/
theorem readText_comment {s : Str} (hl : LineEnded s) : readText (s ++ saveComment env) ∅ = readText s ∅ := by
  obtain ⟨c,hc⟩ := file_dated env (h:=" _INI_TOKEN_SAVE: ") (by decide) []
  have hf : file (saveComment env) = [('#'::c)] := by
    rw [← show file (saveComment env ++ ['\n']) = file (saveComment env) from
      LineText.lines_concat_of trimChar '\n' (Or.inr rfl) _]
    exact hc
  rw [readText,file_append hl,hf,List.foldl_append,List.foldl_cons,readLine_comment]
  rfl

/-- `_INI_TOKEN_SAVE` of data that has no ID of its own: whatever is cached, the entry goes behind the text. -/
theorem iniTokenSave_text {data : Params} (hid : data.val "ID" = []) {w : World} {r : Ret × World}
    (hr : iniTokenSave env sec fil data w = some r) (ho : r.1 = .ok) :
    ∃ n, freshKey (iniTokenGet env sec fil ∅ w).1 env.keys = some n ∧
      r.2.reg = w.reg.set (sec,fil) (text sec fil w ++ saveText env n data) := by
  unfold iniTokenSave at hr
  split at hr
  · simp only [Option.some.injEq] at hr
    rw [← hr] at ho
    cases ho
  · dsimp only at hr
    rw [if_pos (null_iff.mpr hid)] at hr
    obtain ⟨k,hk,rfl⟩ := Option.map_eq_some_iff.mp hr
    refine ⟨k,hk,?_⟩
    have hw : (iniObjectClean sec fil (iniTokenGet env sec fil ∅ w).2).reg = w.reg := by simp
    rw [(saveEntry_spec env sec fil k data (iniObjectClean_cache sec fil _)).1.done ho,text,hw,text]

end Registry

namespace PolicyRoutes
open Php RegistryFormat Registry

variable (env : Env)

inductive Target
  | interface (tname : Str)
  | gateway (name : Str)

def Target.param : Target → Str × Str
  | interface t => ("TNAME",t)
  | gateway g => ("ROUTE_GATEWAY",g)

def Target.type : Target → Str
  | interface _ => "interface"
  | gateway _ => "gateway"

/-- What the arguments of an accepted `add` come to: the names of the objects, and whether it is switched on. -/
structure NewRoute where
  dname : Str
  src : Str
  service : Str
  dst : Str
  target : Target
  stat : Str
  note : Str

def NewRoute.data (r : NewRoute) : Params :=
  OrdMap.empty.setAll [("DNAME",r.dname),("SRC",r.src),("SERVICE",r.service),("DST",r.dst),r.target.param,
    ("STAT",r.stat),("NOTE",r.note),("ROUTE_TYPE",r.target.type)]

/-- The end of `___CLI_ROUTE_CONFIG_POLICY_ADD`: whether the route is saved. -/
def routePolicyAdd (position : Str) (data : Params) (w : World) : Option (Bool × World) :=
  if position = ("top" : Str) then
    (iniTokenSave env "network" "route_policy_top.cfg" data w).map fun r =>
      if r.1 = .ok then
        let top := text "network" "route_policy_top.cfg" r.2
        let buff := trim (text "network" "route_policy.cfg" r.2)
        let new := if null buff then top else top ++ (buff ++ ['\n'])
        (true,iniObjectCleanAll { r.2 with
          reg := (r.2.reg.erase ("network","route_policy_top.cfg")).set ("network","route_policy.cfg") new })
      else (false,r.2)
  else
    (iniTokenSave env "network" "route_policy.cfg" data w).map fun r =>
      if r.1 = .ok then (true,iniObjectCleanAll r.2) else (false,r.2)

/-- The ID the save draws: a key that the file it writes has no entry of. -/
def drawn (position : Str) (w : World) : Option Str :=
  freshKey (iniTokenGet env "network"
    (if position = ("top" : Str) then "route_policy_top.cfg" else "route_policy.cfg") ∅ w).1 env.keys

def newEntry (n : Str) (data : Params) : Params := readBack n (carriedParams data)

/-- The file with the comment of the save behind its last line is read as it was; for the top position, the new
entry has every parameter that stands before the first section line already. -/
def KeepsTable (position old n : Str) (data : Params) : Prop :=
  if position = ("top" : Str) then (newEntry n data).setAll (strays (file old)) = newEntry n data
  else readText (old ++ saveComment env) ∅ = readText old ∅

instance (position old n : Str) (data : Params) : Decidable (KeepsTable env position old n data) := by
  unfold KeepsTable
  infer_instance

def withRoute (position n : Str) (data : Params) (es : List (Str × Params)) : List (Str × Params) :=
  if position = ("top" : Str) then (n,newEntry n data)::es else es ++ [(n,newEntry n data)]

/-- `route_policy.cfg` after the command. -/
def addedText (position old n : Str) (data : Params) : Str :=
  if position = ("top" : Str) then
    if null (trim old) then saveText env n data else saveText env n data ++ (trim old ++ ['\n'])
  else old ++ saveText env n data

theorem routePolicyAdd_text {position : Str} {data : Params} (hid : data.val "ID" = []) {w w' : World}
    (ht : text "network" "route_policy_top.cfg" w = []) (ho : routePolicyAdd env position data w = some (true,w')) :
    ∃ n, drawn env position w = some n ∧ w'.obj = ∅ ∧
      text "network" "route_policy.cfg" w' = addedText env position (text "network" "route_policy.cfg" w) n data := by
  have hfiles : (("network" : Str),("route_policy_top.cfg" : Str)) ≠ (("network" : Str),("route_policy.cfg" : Str)) := by
    decide
  unfold routePolicyAdd at ho
  unfold addedText drawn
  split at ho
  · rename_i hp
    obtain ⟨r,hr,he⟩ := Option.map_eq_some_iff.mp ho
    by_cases hok : r.1 = .ok
    · rw [if_pos hok,Prod.mk.injEq] at he
      obtain ⟨-,rfl⟩ := he
      obtain ⟨n,hn,hreg⟩ := iniTokenSave_text env hid hr hok
      have hold : text "network" "route_policy.cfg" r.2 = text "network" "route_policy.cfg" w := by
        rw [text,text,hreg,OrdMap.getD,OrdMap.get?_set_ne _ _ hfiles,OrdMap.getD]
      have htop : text "network" "route_policy_top.cfg" r.2 = saveText env n data := by
        rw [text,hreg,OrdMap.getD,OrdMap.get?_set_self,ht]
        rfl
      refine ⟨n,by rw [if_pos hp]; exact hn,rfl,?_⟩
      rw [if_pos hp,hold,htop,text,iniObjectCleanAll,OrdMap.getD,OrdMap.get?_set_self]
      rfl
    · rw [if_neg hok] at he
      cases he
  · rename_i hp
    obtain ⟨r,hr,he⟩ := Option.map_eq_some_iff.mp ho
    by_cases hok : r.1 = .ok
    · rw [if_pos hok,Prod.mk.injEq] at he
      obtain ⟨-,rfl⟩ := he
      obtain ⟨n,hn,hreg⟩ := iniTokenSave_text env hid hr hok
      refine ⟨n,by rw [if_neg hp]; exact hn,rfl,?_⟩
      rw [if_neg hp,text,iniObjectCleanAll,hreg,OrdMap.getD,OrdMap.get?_set_self]
      rfl
    · rw [if_neg hok] at he
      cases he

theorem readText_added {position old n : Str} {data : Params} (hn : IdentOk n) (hd : NewData data)
    (hf : (readText old ∅).get? n = none) : (readText (addedText env position old n data) ∅).entries =
      if position = ("top" : Str) then (n,(newEntry n data).setAll (strays (file old))) :: (readText old ∅).entries
      else (readText (old ++ saveComment env) ∅).entries ++ [(n,newEntry n data)] := by
  unfold addedText
  split
  · rw [newEntry,← entries_before env hn hd hf]
    split
    · rename_i hnull
      rw [null_iff.mp hnull,readText,readText,List.nil_append,
        show file (saveText env n data ++ ['\n']) = file (saveText env n data) from
          LineText.lines_concat_of trimChar '\n' (Or.inr rfl) _]
    · rfl
  · exact entries_behind env hn hd hf

/-- After an accepted command the table is read with the new route in its place and all else as it was, if and only
if the file can take it. -/
theorem route_added_iff {position : Str} {data : Params} (hd : NewData data) {w w' : World}
    (ht : text "network" "route_policy_top.cfg" w = [])
    (hk : ∀ n, drawn env position w = some n → (entries "network" "route_policy.cfg" w).get? n = none)
    (ho : routePolicyAdd env position data w = some (true,w')) :
    ∃ n, drawn env position w = some n ∧ ∀ env' : Env, (iniTokenGet env' "network" "route_policy.cfg" ∅ w').1.entries =
        withRoute position n data (entries "network" "route_policy.cfg" w).entries ↔
      KeepsTable env position (text "network" "route_policy.cfg" w) n data := by
  have hid : data.val "ID" = [] := by
    rw [Params.val,OrdMap.getD,hd.ident]
    rfl
  obtain ⟨n,hn,hobj,htext⟩ := routePolicyAdd_text env hid ht ho
  have hread := @readText_added env position _ n _ (hex_identOk (env.keys_hex n (freshKey_some hn).1)) hd (hk n hn)
  refine ⟨n,hn,fun env' => ?_⟩
  have hget : (iniTokenGet env' "network" "route_policy.cfg" ∅ w').1 = entries "network" "route_policy.cfg" w' :=
    iniTokenGet_fst env' "network" "route_policy.cfg" (Or.inl (by rw [fileArrayGet,hobj]; rfl))
  rw [hget,entries,htext,hread]
  unfold withRoute KeepsTable
  split
  · rw [List.cons.injEq,Prod.mk.injEq]
    exact ⟨fun h => h.1.2,fun h => ⟨⟨rfl,h⟩,rfl⟩⟩
  · rw [List.append_left_inj]
    exact ⟨fun h => OrdMap.ext h,fun h => by rw [h]; rfl⟩

/-- A file that ends its last line, and has no parameter before the first section line, can take it anywhere. -/
theorem keepsTable_of (position : Str) {old : Str} (n : Str) (data : Params) (hl : LineEnded old)
    (hs : strays (file old) = []) : KeepsTable env position old n data := by
  unfold KeepsTable
  split
  · rw [hs]
    rfl
  · exact readText_comment env hl

def mailRoute : NewRoute := ⟨"any","office","smtp","any",.interface "wan","1",""⟩

def routeText : Str := "ID=web\nDNAME=any\nSRC=any\nROUTE_TYPE=interface\n"

def routeWorld (s : Str) : World := ⟨OrdMap.empty.set (Str.of "network",Str.of "route_policy.cfg") s,∅⟩

theorem route_added_mail : ∃ w' n, routePolicyAdd noonEnv "top" mailRoute.data (routeWorld routeText) = some (true,w') ∧
    (iniTokenGet noonEnv "network" "route_policy.cfg" ∅ w').1.entries =
      withRoute "top" n mailRoute.data (entries "network" "route_policy.cfg" (routeWorld routeText)).entries := by
  have ho : (routePolicyAdd noonEnv "top" mailRoute.data (routeWorld routeText)).map Prod.fst = some true := by
    decide +kernel
  have hfree : ∀ k ∈ noonEnv.keys, (entries "network" "route_policy.cfg" (routeWorld routeText)).get? k = none := by
    decide
  obtain ⟨⟨_,w'⟩,hw,rfl⟩ := Option.map_eq_some_iff.mp ho
  obtain ⟨n,hn,h⟩ := @route_added_iff noonEnv "top" mailRoute.data (by decide)
    (routeWorld routeText) w' rfl (fun n hn => hfree n (freshKey_some hn).1) hw
  exact ⟨w',n,hw,(h noonEnv).mpr (keepsTable_of noonEnv "top" n mailRoute.data (by decide) (by decide))⟩

def openWorld : World := routeWorld "ID=web\nDNAME=any\nROUTE_TYPE=interface"

/-- Its last line takes the comment of the save in. -/
theorem route_not_kept : ¬ ∀ (env : Env) (position : Str) (data : Params) (w w' : World), NewData data →
    text "network" "route_policy_top.cfg" w = [] →
    (∀ k ∈ env.keys, (entries "network" "route_policy.cfg" w).get? k = none) →
    routePolicyAdd env position data w = some (true,w') →
    ∃ n ∈ env.keys, ∀ env' : Env, (iniTokenGet env' "network" "route_policy.cfg" ∅ w').1.entries =
      withRoute position n data (entries "network" "route_policy.cfg" w).entries := by
  intro h
  have ho : (routePolicyAdd noonEnv "bottom" mailRoute.data openWorld).map (fun r => (r.1,
      (iniTokenGet noonEnv "network" "route_policy.cfg" ∅ r.2).1.entries.map fun e => e.2.val "ROUTE_TYPE")) =
      some (true,[Str.of "interface# _INI_TOKEN_SAVE: Mon Jan 05 12:00:00 2009",Str.of "interface"]) := by
    decide +kernel
  obtain ⟨⟨ret,w'⟩,hw,hr⟩ := Option.map_eq_some_iff.mp ho
  simp only [Prod.mk.injEq] at hr
  obtain ⟨rfl,hr⟩ := hr
  obtain ⟨n,hn,hx⟩ := h noonEnv "bottom" mailRoute.data openWorld w' (by decide) rfl (by decide) hw
  rw [hx noonEnv,List.mem_singleton.mp hn] at hr
  revert hr
  decide

end PolicyRoutes
end Mybox
