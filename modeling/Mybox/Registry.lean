import Mybox.RegistryFormat

/-! The registry calls over a state that holds the registry files and the object cache:
`_INI_TOKEN_GET`, `_INI_TOKEN_CHECK`, `_INI_TOKEN_UPDATE`, `_INI_TOKEN_SAVE`,
`_INI_TOKEN_DELETE` and `_INI_TOKEN_REMOVE`. -/
namespace Mybox

/-- What an object file holds: a serialised array, or some printed text. -/
inductive Object
  | token (t : Token)
  | text (s : Str)
  deriving DecidableEq

structure World where
  /-- Section and file name to the text of the registry file. -/
  reg : OrdMap (Str × Str) Str
  /-- The files under the object path. -/
  obj : OrdMap Str Object
  deriving DecidableEq

/-- Section, file name and text of some files, with nothing cached. -/
def World.ofFiles (fs : List (Str × Str × Str)) : World :=
  ⟨fs.foldl (fun m f => m.set (f.1,f.2.1) f.2.2) ∅,∅⟩

/-- What a call takes from outside: the date, the random keys it draws, whether the registry and the object path can
be written, and what `ip2long` makes of a text. -/
structure Env where
  date : Str
  keys : List Str
  strg : Bool
  cache : Bool
  ip2long : Str → Option ℤ
  date_line : '\n' ∉ date
  keys_hex : ∀ k ∈ keys, k.length = 20 ∧ ∀ c ∈ k, Php.hexDigit c

/-- A call at noon that draws one key, with everything writable and no addresses to compare. -/
def noonEnv : Env := ⟨"Mon Jan 05 12:00:00 2009",["0123456789abcdef0123"],true,true,fun _ => none,
  by decide,by decide⟩

/-- `TRUE`, `FALSE` and `-1`. -/
inductive Ret
  | ok
  | fail
  | nameExists
  deriving DecidableEq

namespace Registry

open Php RegistryFormat

variable (pcre : Pcre) (env : Env) (sec fil : Str)

def objName (sec fil : Str) : Str := sec ++ '_' :: (fil ++ (".obj" : Str))

def fileArrayGet (w : World) (o : Str) : Token :=
  match w.obj.get? o with
  | some (.token t) => t
  | _ => ∅

def iniObjectClean (w : World) : World := { w with obj := w.obj.erase (objName sec fil) }

def iniObjectCleanAll (w : World) : World := { w with obj := ∅ }

/-- The by-reference array holds `ntoken` before the call; the result is the array after
it and the state, in which what was read is now cached. -/
def iniTokenGet (ntoken : Token) (w : World) : Token × World :=
  if !(fileArrayGet w (objName sec fil)).isEmpty then (fileArrayGet w (objName sec fil),w)
  else match w.reg.get? (sec,fil) with
  | none => (ntoken,w)
  | some text =>
    let t := readText text ntoken
    if !t.isEmpty && env.cache then (t,{ w with obj := w.obj.set (objName sec fil) (.token t) })
    else (t,w)

/-- Whether an entry is found, and the by-reference array, which stays as it was when none
is. -/
def iniTokenGetByparam (param value : Str) (itoken : Params) (w : World) :
    (Bool × Params) × World :=
  let g := iniTokenGet env sec fil ∅ w
  if looseEq param "ID" && !(g.1.getD value ∅).isEmpty then ((true,g.1.getD value ∅),g.2)
  else match g.1.entries.find? (fun e => !null (e.2.val param) && looseEq (e.2.val param) value) with
  | some e => ((true,e.2),g.2)
  | none => ((false,itoken),g.2)

def iniObjectUpdate (w : World) : World := (iniTokenGet env sec fil ∅ w).2

/-- No entry has the value under the parameter yet. -/
def iniTokenCheck (name value : Str) (w : World) : Bool × World :=
  let g := iniTokenGet env sec fil ∅ w
  (g.1.entries.all fun e => null (e.2.val name) || !looseEq (e.2.val name) value,
    iniObjectClean sec fil g.2)

/-- `_FILE_SAVE` followed by `_INI_OBJECT_UPDATE`. -/
def fileSave (text : Str) (w : World) : Ret × World :=
  if env.strg then (.ok,iniObjectUpdate env sec fil { w with reg := w.reg.set (sec,fil) text })
  else (.fail,w)

/-- The two loops that put new parameters into an entry: present keys take their non-null
values, then whatever is left is assigned. -/
def merge (p data : Params) : Params :=
  let r := p.entries.foldl (fun (r : Params × Params) e =>
    if null (r.2.val e.1) then r else (r.1.set e.1 (r.2.val e.1),r.2.erase e.1)) (p,data)
  r.1.setAll r.2.entries

def updateText (t : Token) : Str :=
  ("# _INI_TOKEN_UPDATE: " : Str) ++ env.date ++ '\n' :: (trim (writeText t) ++ ['\n'])

def iniTokenUpdate (id : Str) (data : Params) (w : World) : Ret × World :=
  let g := iniTokenGet env sec fil ∅ w
  let w₁ := iniObjectClean sec fil g.2
  match g.1.get? id with
  | none => (.fail,w₁)
  | some p =>
    let renamed := !null (p.val "NAME") && !null (data.val "NAME")
      && !looseEq (p.val "NAME") (data.val "NAME")
    let c := iniTokenCheck env sec fil "NAME" (data.val "NAME") w₁
    if renamed && !c.1 then (.nameExists,c.2)
    else
      let w₂ := if renamed then c.2 else w₁
      let t := g.1.set id (merge p data)
      if null (trim (writeText t)) then (.fail,w₂)
      else fileSave env sec fil (updateText env t) w₂

/-- The key loop of `_INI_TOKEN_SAVE`: the first key drawn that names no entry. It goes
on drawing when there is none. -/
def freshKey (t : Token) : List Str → Option Str
  | [] => none
  | k::ks => if t.get? k = none then some k else freshKey t ks

def saveParam (a b : Str) : Str :=
  if skipped (trim a) || (trim a = ("ID" : Str) && null (trim b)) then []
  else trim a ++ '=' :: (trim b ++ ['\n'])

def saveLine (data : Params) : Str := trim (data.entries.flatMap fun e => saveParam e.1 e.2)

def saveText (id : Str) (data : Params) : Str :=
  ("# _INI_TOKEN_SAVE: " : Str) ++ env.date ++ '\n' ::
    (("ID=" : Str) ++ id ++ '\n' :: (saveLine data ++ ['\n']))

/-- `_FILE_APPEND` of a new entry, after the name check. -/
def saveEntry (id : Str) (data : Params) (w : World) : Ret × World :=
  let c := iniTokenCheck env sec fil "NAME" (data.val "NAME") w
  if !null (data.val "NAME") && !c.1 then (.fail,c.2)
  else
    let w₁ := if null (data.val "NAME") then w else c.2
    if null (saveLine data) then (.fail,w₁)
    else fileSave env sec fil ((w₁.reg.getD (sec,fil) []) ++ saveText env id data) w₁

/-- No result when the key loop has not ended with the keys drawn so far. -/
def iniTokenSave (data : Params) (w : World) : Option (Ret × World) :=
  if data.isEmpty then some (.fail,w) else
  let g := iniTokenGet env sec fil ∅ w
  let w₁ := iniObjectClean sec fil g.2
  if null (data.val "ID") then
    (freshKey g.1 env.keys).map fun k => saveEntry env sec fil k data w₁
  else if !(g.1.getD (data.val "ID") ∅).isEmpty then some (.fail,w₁)
  else some (saveEntry env sec fil (data.val "ID") (data.erase "ID") w₁)

/-- The keys `_INI_TOKEN_REMOVE` looks at. -/
def referenceKeys : List Str := ["HOST","ADDR","DNAME","TNAME","PNAME","NAME","SRCP","DSTP","SRC",
  "DST","FWD","SERVER","SERVICE","EVENT","ROUTE_NETWORK","ROUTE_GATEWAY","PROXY_HOST"]

def removeLine (name new line : Str) : Str :=
  if referenceKeys.any (fun k => pcre.isMatch k name line) then
    trimWith (",") (pcre.replace name new line)
  else line

def removeText (name new text : Str) : Str :=
  (file text).flatMap fun line => removeLine pcre name new line ++ ['\n']

/-- `/*/*.cfg` under the registry path. -/
def isCfg (f : Str × Str) : Bool :=
  (".cfg" : Str).isSuffixOf f.2 && f.1.head? ≠ some '.' && f.2.head? ≠ some '.'

def removeFile (name new : Str) (f : Str × Str) (text : Str) : Str :=
  if isCfg f && env.strg && !null (removeText pcre name new text) then
    removeText pcre name new text
  else text

/-- Nothing happens at all when no file matches; otherwise the whole cache goes. -/
def iniTokenRemove (name new : Str) (w : World) : World :=
  if w.reg.keys.all (fun f => !isCfg f) then w
  else iniObjectCleanAll { w with reg := w.reg.mapEntries (removeFile pcre env name new) }

def deleteText (t : Token) : Str :=
  (if null (trim (writeText t)) then [] else ("# _INI_TOKEN_DELETE: " : Str) ++ env.date ++ ['\n'])
    ++ trim (writeText t) ++ ['\n']

def iniTokenDelete (id : Str) (w : World) : Ret × World :=
  let g := iniTokenGet env sec fil ∅ w
  let w₁ := iniObjectClean sec fil g.2
  let p := g.1.getD id ∅
  if p.isEmpty then (.fail,w₁)
  else
    let r := fileSave env sec fil (deleteText env (g.1.erase id)) w₁
    if r.1 = .ok && !null (p.val "NAME") then (.ok,iniTokenRemove pcre env (p.val "NAME") [] r.2)
    else r

def text (w : World) : Str := w.reg.getD (sec,fil) []

def entries (w : World) : Token := readText (text sec fil w) ∅

/-- The cached array of the file, when there is one, is what the file holds. -/
def Coherent (w : World) : Prop :=
  fileArrayGet w (objName sec fil) = ∅ ∨ fileArrayGet w (objName sec fil) = entries sec fil w

@[simp] theorem iniObjectClean_reg (w : World) : (iniObjectClean sec fil w).reg = w.reg := rfl

@[simp] theorem entries_congr {w w' : World} (h : w'.reg = w.reg) :
    entries sec fil w' = entries sec fil w := by
  rw [entries,entries,text,text,h]

@[simp] theorem iniObjectClean_cache (w : World) :
    fileArrayGet (iniObjectClean sec fil w) (objName sec fil) = ∅ := by
  simp [fileArrayGet,iniObjectClean,OrdMap.get?_erase]

theorem iniObjectClean_coherent (w : World) : Coherent sec fil (iniObjectClean sec fil w) :=
  Or.inl (iniObjectClean_cache sec fil w)

@[simp] theorem iniTokenGet_reg (nt : Token) (w : World) :
    (iniTokenGet env sec fil nt w).2.reg = w.reg := by
  unfold iniTokenGet
  split
  · rfl
  · split
    · rfl
    · dsimp only; split <;> rfl

theorem iniTokenGet_fst {w : World} (h : Coherent sec fil w) :
    (iniTokenGet env sec fil ∅ w).1 = entries sec fil w := by
  unfold iniTokenGet
  by_cases hc : fileArrayGet w (objName sec fil) = ∅
  · have he : (fileArrayGet w (objName sec fil)).isEmpty = true := OrdMap.isEmpty_iff.mpr hc
    rw [he]
    cases hr : w.reg.get? (sec,fil) with
    | none => simp [entries,text,OrdMap.getD,hr,readText,file]
    | some s =>
      simp only [entries,text,OrdMap.getD,hr,Option.getD_some]
      dsimp
      split <;> rfl
  · have he : (fileArrayGet w (objName sec fil)).isEmpty = false := by
      rw [Bool.eq_false_iff]; exact fun hh => hc (OrdMap.isEmpty_iff.mp hh)
    rw [he]
    exact h.resolve_left hc

theorem iniTokenGet_coherent {w : World} (h : Coherent sec fil w) :
    Coherent sec fil (iniTokenGet env sec fil ∅ w).2 := by
  have hr := iniTokenGet_reg env sec fil ∅ w
  have hf := iniTokenGet_fst env sec fil h
  rw [Coherent,entries_congr sec fil hr]
  unfold iniTokenGet at hf ⊢
  split
  · exact h
  · rename_i hc
    rw [if_neg hc] at hf
    split
    · exact h
    · rename_i s hs
      simp only [hs] at hf
      dsimp only
      split
      · rename_i ht
        right
        simp only [ht,if_true] at hf
        simp only [fileArrayGet,OrdMap.get?_set_self]
        exact hf
      · exact h

@[simp] theorem iniTokenCheck_reg (name value : Str) (w : World) :
    (iniTokenCheck env sec fil name value w).2.reg = w.reg := by
  simp [iniTokenCheck]

@[simp] theorem iniTokenCheck_cache (name value : Str) (w : World) :
    fileArrayGet (iniTokenCheck env sec fil name value w).2 (objName sec fil) = ∅ :=
  iniObjectClean_cache sec fil _

theorem fileSave_ok {text : Str} {w : World} : (fileSave env sec fil text w).1 = .ok ↔ env.strg = true := by
  unfold fileSave
  split
  · rename_i hs
    exact iff_of_true rfl hs
  · rename_i hs
    exact iff_of_false (by simp) hs

theorem fileSave_spec {w : World} (text : Str)
    (h : fileArrayGet w (objName sec fil) = ∅) :
    Coherent sec fil (fileSave env sec fil text w).2 ∧
    ((fileSave env sec fil text w).1 = .ok →
      (fileSave env sec fil text w).2.reg = w.reg.set (sec,fil) text) ∧
    ((fileSave env sec fil text w).1 ≠ .ok → (fileSave env sec fil text w).2.reg = w.reg) := by
  unfold fileSave
  split
  · exact ⟨iniTokenGet_coherent env sec fil (Or.inl h),fun _ => by simp [iniObjectUpdate],
      fun hn => absurd rfl hn⟩
  · exact ⟨Or.inl h,fun hn => by simp at hn,fun _ => rfl⟩

/-- What a call that may replace the text of the file leaves behind. -/
structure Rewrites (w : World) (r : Ret × World) (text : Str) : Prop where
  coherent : Coherent sec fil r.2
  done : r.1 = .ok → r.2.reg = w.reg.set (sec,fil) text
  refused : r.1 ≠ .ok → r.2.reg = w.reg

theorem fileSave_rewrites {w v : World} (text : Str) (hr : v.reg = w.reg)
    (h : fileArrayGet v (objName sec fil) = ∅) :
    Rewrites sec fil w (fileSave env sec fil text v) text := by
  have hs := fileSave_spec env sec fil text h
  exact ⟨hs.1,fun ho => by rw [hs.2.1 ho,hr],fun hn => by rw [hs.2.2 hn,hr]⟩

theorem refuse_rewrites {w v : World} {ret : Ret} (text : Str) (hn : ret ≠ .ok)
    (hr : v.reg = w.reg) (h : fileArrayGet v (objName sec fil) = ∅) :
    Rewrites sec fil w (ret,v) text :=
  ⟨Or.inl h,fun ho => absurd ho hn,fun _ => hr⟩

theorem iniTokenUpdate_spec {w : World} (id : Str) (data : Params) (h : Coherent sec fil w) :
    (∃ p, (entries sec fil w).get? id = some p ∧
      Rewrites sec fil w (iniTokenUpdate env sec fil id data w)
        (updateText env ((entries sec fil w).set id (merge p data)))) ∨
    ((iniTokenUpdate env sec fil id data w).1 = .fail ∧ (entries sec fil w).get? id = none ∧
      ∀ text, Rewrites sec fil w (iniTokenUpdate env sec fil id data w) text) := by
  have hg := iniTokenGet_fst env sec fil h
  unfold iniTokenUpdate
  dsimp only
  rw [hg]
  cases hp : (entries sec fil w).get? id with
  | none =>
    right
    exact ⟨rfl,rfl,fun text => refuse_rewrites sec fil text (by simp) (by simp) (by simp)⟩
  | some p =>
    left
    refine ⟨p,rfl,?_⟩
    dsimp only
    split
    · exact refuse_rewrites sec fil _ (by simp) (by simp) (by simp)
    · split
      · split <;> exact refuse_rewrites sec fil _ (by simp) (by simp) (by simp)
      · split <;> exact fileSave_rewrites env sec fil _ (by simp) (by simp)

theorem saveEntry_spec {w : World} (id : Str) (data : Params)
    (h : fileArrayGet w (objName sec fil) = ∅) :
    Rewrites sec fil w (saveEntry env sec fil id data w)
      (text sec fil w ++ saveText env id data) ∧
    ((saveEntry env sec fil id data w).1 = .ok → saveLine data ≠ []) := by
  have ht : ∀ v : World, v.reg = w.reg → v.reg.getD (sec,fil) [] = text sec fil w := by
    intro v hv; rw [hv]; rfl
  unfold saveEntry
  dsimp only
  split
  · exact ⟨refuse_rewrites sec fil _ (by simp) (by simp) (by simp),fun ho => by simp at ho⟩
  · split
    · refine ⟨refuse_rewrites sec fil _ (by simp) ?_ ?_,fun ho => by simp at ho⟩ <;>
        split <;> simp [h]
    · rename_i hl
      refine ⟨?_,fun _ => by simpa using hl⟩
      split
      · rw [ht w rfl]; exact fileSave_rewrites env sec fil _ rfl h
      · rw [ht _ (by simp)]; exact fileSave_rewrites env sec fil _ (by simp) (by simp)

/-- The ID an accepted `_INI_TOKEN_SAVE` files the new entry under: the one given, or one
of the keys drawn. -/
structure NewId (t : Token) (data : Params) (id : Str) : Prop where
  given : data.val "ID" ≠ [] → id = data.val "ID" ∧ (t.getD id ∅).isEmpty
  drawn : data.val "ID" = [] → id ∈ env.keys ∧ t.get? id = none

theorem freshKey_some {t : Token} {ks : List Str} {k : Str} (h : freshKey t ks = some k) :
    k ∈ ks ∧ t.get? k = none := by
  induction ks with
  | nil => simp [freshKey] at h
  | cons j ks ih =>
    unfold freshKey at h
    split at h
    · rename_i hj
      simp only [Option.some.injEq] at h
      subst h
      exact ⟨by simp,hj⟩
    · exact ⟨List.mem_cons_of_mem _ (ih h).1,(ih h).2⟩

theorem iniTokenSave_spec {w : World} {data : Params} {r : Ret × World} (h : Coherent sec fil w)
    (hr : iniTokenSave env sec fil data w = some r) :
    (∃ id d, NewId env (entries sec fil w) data id ∧
      d = (if data.val "ID" = [] then data else data.erase "ID") ∧
      Rewrites sec fil w r (text sec fil w ++ saveText env id d) ∧
      (r.1 = .ok → saveLine d ≠ [])) ∨
    (r.1 = .fail ∧ ∀ text, Rewrites sec fil w r text) := by
  have hg := iniTokenGet_fst env sec fil h
  unfold iniTokenSave at hr
  split at hr
  · simp only [Option.some.injEq] at hr
    subst hr
    exact Or.inr ⟨rfl,fun _ => ⟨h,fun ho => by simp at ho,fun _ => rfl⟩⟩
  · dsimp only at hr
    rw [hg] at hr
    have hc := iniObjectClean_cache sec fil (iniTokenGet env sec fil ∅ w).2
    have hw : (iniObjectClean sec fil (iniTokenGet env sec fil ∅ w).2).reg = w.reg := by simp
    have ht : text sec fil (iniObjectClean sec fil (iniTokenGet env sec fil ∅ w).2) =
        text sec fil w := by rw [text,text,hw]
    have key : ∀ id d, Rewrites sec fil w (saveEntry env sec fil id d
          (iniObjectClean sec fil (iniTokenGet env sec fil ∅ w).2))
          (text sec fil w ++ saveText env id d) ∧
        ((saveEntry env sec fil id d
          (iniObjectClean sec fil (iniTokenGet env sec fil ∅ w).2)).1 = .ok → saveLine d ≠ []) := by
      intro id d
      have hs := saveEntry_spec env sec fil id d hc
      rw [ht] at hs
      exact ⟨⟨hs.1.coherent,fun ho => by rw [hs.1.done ho,hw],fun hn => by rw [hs.1.refused hn,hw]⟩,
        hs.2⟩
    split at hr
    · rename_i hi
      obtain ⟨k,hk,rfl⟩ := Option.map_eq_some_iff.mp hr
      have hi' : data.val "ID" = [] := by simpa using hi
      refine Or.inl ⟨k,data,⟨fun hn => absurd hi' hn,fun _ => freshKey_some hk⟩,
        by rw [if_pos hi'],(key k data).1,(key k data).2⟩
    · rename_i hi
      have hi' : data.val "ID" ≠ [] := by simpa using hi
      split at hr
      · simp only [Option.some.injEq] at hr
        subst hr
        exact Or.inr ⟨rfl,fun text => refuse_rewrites sec fil text (by simp) hw hc⟩
      · rename_i he
        simp only [Option.some.injEq] at hr
        subst hr
        exact Or.inl ⟨_,_,⟨fun _ => ⟨rfl,by simpa using he⟩,fun hn => absurd hn hi'⟩,
          by rw [if_neg hi'],(key _ _).1,(key _ _).2⟩

/-- Deleting an entry that carries no NAME: only the file is touched. -/
theorem iniTokenDelete_spec {w : World} (id : Str) (h : Coherent sec fil w)
    (hn : ((entries sec fil w).getD id ∅).val "NAME" = []) :
    Rewrites sec fil w (iniTokenDelete pcre env sec fil id w)
      (deleteText env ((entries sec fil w).erase id)) ∧
    ((iniTokenDelete pcre env sec fil id w).1 = .ok → (entries sec fil w).getD id ∅ ≠ ∅) := by
  have hg := iniTokenGet_fst env sec fil h
  unfold iniTokenDelete
  dsimp only
  rw [hg,hn]
  split
  · exact ⟨refuse_rewrites sec fil _ (by simp) (by simp) (by simp),fun ho => by simp at ho⟩
  · rename_i he
    simp only [null_iff.mpr rfl,Bool.not_true,Bool.and_false,Bool.false_eq_true,if_false]
    exact ⟨fileSave_rewrites env sec fil _ (by simp) (by simp),
      fun _ hh => he (OrdMap.isEmpty_iff.mpr hh)⟩

end Registry
end Mybox
