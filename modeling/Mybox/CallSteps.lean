import Mybox.Deletion
import Mybox.Interleaving

/-! The registry calls taken apart into their file steps: each reads, writes or unlinks one file.
One call by itself does what the call does as a whole. -/
namespace Mybox
namespace Registry

open Php RegistryFormat References

/-- What a read of the file is for. -/
inductive Aim
  /-- The read a call begins with. -/
  | first
  /-- The read of `_INI_TOKEN_CHECK`, after the first has given its array. -/
  | check (t : Token)
  /-- The read of `_INI_OBJECT_UPDATE`, and the name a deletion takes out afterwards. -/
  | refresh (name : Str)
  deriving DecidableEq

/-- The file step a call takes next. -/
inductive Point
  /-- `_FILE_ARRAY_GET` of the object. -/
  | look (a : Aim)
  /-- `_FILE` of the registry file. -/
  | load (a : Aim)
  /-- `_FILE_ARRAY_SAVE` of the object. -/
  | store (a : Aim) (t : Token)
  /-- `_INI_OBJECT_CLEAN` after the first read. -/
  | clean (t : Token)
  /-- `_INI_OBJECT_CLEAN` of the check, which has read the second array. -/
  | forget (t u : Token)
  /-- `_FILE_SAVE` or `_FILE_APPEND` of the registry file. -/
  | write (t : Token)
  /-- The list of files of `_INI_TOKEN_REMOVE`, then each of them read and written. -/
  | glob (name : Str)
  | fetch (name : Str) (f : Str × Str) (fs : List (Str × Str))
  | put (name : Str) (f : Str × Str) (x : Str) (fs : List (Str × Str))
  /-- `_INI_OBJECT_CLEAN_ALL` -/
  | sweep
  /-- The answer; none where the key loop goes on. -/
  | done (ret : Option Ret)
  deriving DecidableEq

inductive Job
  | get
  | update (id : Str) (data : Params)
  | save (data : Params)
  | delete (id : Str)

variable (pcre : Pcre) (env : Env) (sec fil : Str)

def Job.start : Job → Point
  | save data => if data.isEmpty then .done (some .fail) else .look .first
  | _ => .look .first

/-- Where a call goes on when a read has given its array. -/
def Job.got (job : Job) (a : Aim) (t : Token) : Point :=
  match a with
  | .first => match job with
    | get => .done (some .ok)
    | _ => .clean t
  | .check t₀ => .forget t₀ t
  | .refresh name => if null name then .done (some .ok) else .glob name

/-- The ID of a new entry, and what is put under it. -/
def newId (data : Params) (t : Token) : Option Str :=
  if null (data.val "ID") then freshKey t env.keys else some (data.val "ID")

def newData (data : Params) : Params := if null (data.val "ID") then data else data.erase "ID"

def Job.ready (job : Job) (t : Token) : Point :=
  match job with
  | get => .done (some .ok)
  | update id data =>
    if null (trim (writeText (t.set id (merge (t.getD id ∅) data)))) then .done (some .fail) else .write t
  | save data => if null (saveLine (newData data)) then .done (some .fail) else .write t
  | delete _ => .write t

def Job.checks (job : Job) (t : Token) : Bool :=
  match job with
  | update id data => !null ((t.getD id ∅).val "NAME") && !null (data.val "NAME")
      && !looseEq ((t.getD id ∅).val "NAME") (data.val "NAME")
  | save data => !null (data.val "NAME")
  | _ => false

/-- Where a call goes on with the array of the first read. -/
def Job.decide (job : Job) (t : Token) : Point :=
  let go := if job.checks t then Point.look (.check t) else job.ready t
  match job with
  | get => .done (some .ok)
  | update id _ => if (t.get? id).isNone then .done (some .fail) else go
  | save data =>
    match newId env data t with
    | none => .done none
    | some id =>
      if !null (data.val "ID") && !(t.getD id ∅).isEmpty then .done (some .fail) else go
  | delete id => if (t.getD id ∅).isEmpty then .done (some .fail) else go

def Job.refusal : Job → Ret
  | update _ _ => .nameExists
  | _ => .fail

def Job.name : Job → Str
  | update _ data => data.val "NAME"
  | save data => data.val "NAME"
  | _ => []

/-- The text after the write, from the array read and the text there is. -/
def Job.newText (job : Job) (t : Token) (x : Str) : Str :=
  match job with
  | get => x
  | update id data => updateText env (t.set id (merge (t.getD id ∅) data))
  | save data => x ++ saveText env ((newId env data t).getD []) (newData data)
  | delete id => deleteText env (t.erase id)

def Job.removed (job : Job) (t : Token) : Str :=
  match job with
  | delete id => (t.getD id ∅).val "NAME"
  | _ => []

def rewritten (f : Str × Str) (x : Str) (w : World) : World := { w with reg := w.reg.set f x }

def removing (name : Str) : List (Str × Str) → Point
  | [] => .sweep
  | f::fs => .fetch name f fs

def Job.step (job : Job) : Point → World → Option (Point × World)
  | .look a, w =>
    if (fileArrayGet w (objName sec fil)).isEmpty then some (.load a,w)
    else some (job.got a (fileArrayGet w (objName sec fil)),w)
  | .load a, w =>
    match w.reg.get? (sec,fil) with
    | none => some (job.got a ∅,w)
    | some x =>
      if !(readText x ∅).isEmpty && env.cache then some (.store a (readText x ∅),w)
      else some (job.got a (readText x ∅),w)
  | .store a t, w => some (job.got a t,{ w with obj := w.obj.set (objName sec fil) (.token t) })
  | .clean t, w => some (job.decide env t,iniObjectClean sec fil w)
  | .forget t u, w =>
    some (if u.entries.all fun e => null (e.2.val "NAME") || !looseEq (e.2.val "NAME") job.name
      then job.ready t else .done (some job.refusal),iniObjectClean sec fil w)
  | .write t, w =>
    if env.strg then some (.look (.refresh (job.removed t)),
      rewritten (sec,fil) (job.newText env t (w.reg.getD (sec,fil) [])) w)
    else some (.done (some .fail),w)
  | .glob name, w =>
    if w.reg.keys.all (fun f => !isCfg f) then some (.done (some .ok),w)
    else some (removing name (w.reg.keys.filter isCfg),w)
  | .fetch name f fs, w =>
    if env.strg && !null (removeText pcre name [] (w.reg.getD f [])) then
      some (.put name f (w.reg.getD f []) fs,w)
    else some (removing name fs,w)
  | .put name f x fs, w =>
    some (removing name fs,rewritten f (removeText pcre name [] x) w)
  | .sweep, w => some (.done (some .ok),iniObjectCleanAll w)
  | .done _, _ => none

open Processes

abbrev Job.Alone (job : Job) : Point × World → Point × World → Prop :=
  Processes.Alone (job.step pcre env sec fil)

theorem get_alone (job : Job) (a : Aim) (w : World) : job.Alone pcre env sec fil (.look a,w)
    (job.got a (iniTokenGet env sec fil ∅ w).1,(iniTokenGet env sec fil ∅ w).2) := by
  unfold iniTokenGet
  cases hc : (fileArrayGet w (objName sec fil)).isEmpty with
  | false =>
    rw [if_pos (by rfl)]
    exact .head (by simp [Job.step,hc]) (.refl _)
  | true =>
    rw [if_neg (by simp)]
    refine .head (b:=(.load a,w)) (by simp [Job.step,hc]) ?_
    cases hr : w.reg.get? (sec,fil) with
    | none => exact .head (by simp [Job.step,hr]) (.refl _)
    | some x =>
      dsimp only
      split
      · rename_i hx
        refine .head (b:=(.store a (readText x ∅),w)) (by simp only [Job.step,hr,if_pos hx]) ?_
        exact .head (by rfl) (.refl _)
      · rename_i hx
        exact .head (by simp only [Job.step,hr,if_neg hx]) (.refl _)

theorem check_alone (job : Job) (t : Token) (w : World) : job.Alone pcre env sec fil (.look (.check t),w)
    (if (iniTokenCheck env sec fil "NAME" job.name w).1 then job.ready t else .done (some job.refusal),
      (iniTokenCheck env sec fil "NAME" job.name w).2) :=
  (get_alone pcre env sec fil job (.check t) w).trans (.head (by rfl) (.refl _))

theorem write_alone (job : Job) (t : Token) (w : World) (hn : job.removed t = []) :
    job.Alone pcre env sec fil (.write t,w)
      (.done (some (fileSave env sec fil (job.newText env t (w.reg.getD (sec,fil) [])) w).1),
        (fileSave env sec fil (job.newText env t (w.reg.getD (sec,fil) [])) w).2) := by
  unfold fileSave
  split
  · rename_i hs
    refine .head (b:=(.look (.refresh []),rewritten (sec,fil)
      (job.newText env t (w.reg.getD (sec,fil) [])) w)) (by simp [Job.step,hs,hn]) ?_
    exact get_alone pcre env sec fil job (.refresh []) _
  · rename_i hs
    exact .head (by simp [Job.step,hs]) (.refl _)

theorem got_first (job : Job) (h : ∀ x, job.got .first x = .clean x) (w : World) :
    job.Alone pcre env sec fil (.look .first,w) (job.decide env (iniTokenGet env sec fil ∅ w).1,
      iniObjectClean sec fil (iniTokenGet env sec fil ∅ w).2) := by
  have hg := get_alone pcre env sec fil job .first w
  rw [h] at hg
  exact hg.trans (.head (by rfl) (.refl _))

theorem update_alone (id : Str) (data : Params) (w : World) :
    (Job.update id data).Alone pcre env sec fil ((Job.update id data).start,w)
      (.done (some (iniTokenUpdate env sec fil id data w).1),(iniTokenUpdate env sec fil id data w).2) := by
  refine (got_first pcre env sec fil (.update id data) (fun _ => rfl) w).trans ?_
  unfold iniTokenUpdate
  dsimp only
  generalize iniTokenGet env sec fil ∅ w = g
  cases hp : g.1.get? id with
  | none =>
    simp only [Job.decide,hp,Option.isNone_none,if_true]
    exact .refl _
  | some p =>
    have hd : g.1.getD id ∅ = p := by rw [OrdMap.getD,hp]; rfl
    have hready : ∀ v : World, (Job.update id data).Alone pcre env sec fil ((Job.update id data).ready g.1,v)
        (if null (trim (writeText (g.1.set id (merge p data)))) then
          (.done (some .fail),v) else (.done (some (fileSave env sec fil (updateText env (g.1.set id (merge p data))) v).1),
            (fileSave env sec fil (updateText env (g.1.set id (merge p data))) v).2)) := by
      intro v
      simp only [Job.ready,hd]
      split
      · exact .refl _
      · have hw := write_alone pcre env sec fil (.update id data) g.1 v rfl
        simpa only [Job.newText,hd] using hw
    dsimp only
    cases hc : !null (p.val "NAME") && !null (data.val "NAME") && !looseEq (p.val "NAME") (data.val "NAME") with
    | false =>
      simp only [Job.decide,hp,Job.checks,hd,hc,Option.isNone_some,Bool.false_eq_true,if_false,Bool.false_and]
      refine (hready _).trans ?_
      split <;> exact .refl _
    | true =>
      simp only [Job.decide,hp,Job.checks,hd,hc,Option.isNone_some,Bool.false_eq_true,if_false,if_true,
        Bool.true_and]
      refine (check_alone pcre env sec fil (.update id data) g.1 _).trans ?_
      simp only [Job.name]
      by_cases hk : (iniTokenCheck env sec fil "NAME" (data.val "NAME") (iniObjectClean sec fil g.2)).1 = true
      · simp only [hk,if_true,Bool.not_true,Bool.false_eq_true,if_false]
        refine (hready _).trans ?_
        split <;> exact .refl _
      · simp only [Bool.eq_false_iff.mpr hk,Bool.false_eq_true,if_false,Bool.not_false,if_true]
        exact .refl _

theorem saveEntry_alone (data : Params) {t : Token} {id : Str} (hid : newId env data t = some id)
    (w : World) : (Job.save data).Alone pcre env sec fil
      (if (Job.save data).checks t then .look (.check t) else (Job.save data).ready t,w)
      (.done (some (saveEntry env sec fil id (newData data) w).1),
        (saveEntry env sec fil id (newData data) w).2) := by
  have hn : (newData data).val "NAME" = data.val "NAME" := by
    unfold newData
    split
    · rfl
    · rw [Params.val,Params.val,OrdMap.getD,OrdMap.get?_erase,if_neg (by decide),OrdMap.getD]
  have hready : ∀ v : World, (Job.save data).Alone pcre env sec fil ((Job.save data).ready t,v)
      (if null (saveLine (newData data)) then (.done (some .fail),v) else
        (.done (some (fileSave env sec fil (v.reg.getD (sec,fil) [] ++ saveText env id (newData data)) v).1),
          (fileSave env sec fil (v.reg.getD (sec,fil) [] ++ saveText env id (newData data)) v).2)) := by
    intro v
    simp only [Job.ready]
    split
    · exact .refl _
    · have hw := write_alone pcre env sec fil (.save data) t v rfl
      simpa only [Job.newText,hid,Option.getD_some] using hw
  unfold saveEntry
  dsimp only
  rw [hn]
  simp only [Job.checks]
  by_cases hc : null (data.val "NAME") = true
  · simp only [hc,Bool.not_true,Bool.false_eq_true,if_false,Bool.false_and,if_true]
    refine (hready w).trans ?_
    split <;> exact .refl _
  · simp only [Bool.eq_false_iff.mpr hc,Bool.not_false,if_true,Bool.true_and,Bool.false_eq_true,if_false]
    refine (check_alone pcre env sec fil (.save data) t w).trans ?_
    simp only [Job.name]
    by_cases hk : (iniTokenCheck env sec fil "NAME" (data.val "NAME") w).1 = true
    · simp only [hk,if_true,Bool.not_true,Bool.false_eq_true,if_false]
      refine (hready _).trans ?_
      split <;> exact .refl _
    · simp only [Bool.eq_false_iff.mpr hk,Bool.false_eq_true,if_false,Bool.not_false,if_true]
      exact .refl _

def saveEnd (w : World) : Option (Ret × World) → Point × World
  | some r => (.done (some r.1),r.2)
  | none => (.done none,iniObjectClean sec fil (iniTokenGet env sec fil ∅ w).2)

theorem save_alone (data : Params) (w : World) :
    (Job.save data).Alone pcre env sec fil ((Job.save data).start,w)
      (saveEnd env sec fil w (iniTokenSave env sec fil data w)) := by
  by_cases he : data.isEmpty = true
  · simp only [iniTokenSave,Job.start,he,if_true]
    exact .refl _
  · simp only [iniTokenSave,Job.start,he,Bool.false_eq_true,if_false]
    refine (got_first pcre env sec fil (.save data) (fun _ => rfl) w).trans ?_
    by_cases hi : null (data.val "ID") = true
    · have hid : newId env data (iniTokenGet env sec fil ∅ w).1 =
          freshKey (iniTokenGet env sec fil ∅ w).1 env.keys := by rw [newId,if_pos hi]
      have hd : newData data = data := by rw [newData,if_pos hi]
      simp only [hi,if_true]
      cases hk : freshKey (iniTokenGet env sec fil ∅ w).1 env.keys with
      | none =>
        simp only [Job.decide,hid,hk]
        exact .refl _
      | some k =>
        have hs := saveEntry_alone pcre env sec fil data (hid.trans hk)
          (iniObjectClean sec fil (iniTokenGet env sec fil ∅ w).2)
        rw [hd] at hs
        simp only [Job.decide,hid,hk,hi,Bool.not_true,Bool.false_and,Bool.false_eq_true,if_false]
        exact hs
    · have hid : newId env data (iniTokenGet env sec fil ∅ w).1 = some (data.val "ID") := by
        rw [newId,if_neg hi]
      have hd : newData data = data.erase "ID" := by rw [newData,if_neg hi]
      simp only [Job.decide,hid,Bool.eq_false_iff.mpr hi,Bool.not_false,Bool.true_and,Bool.false_eq_true,
        if_false]
      split
      · exact .refl _
      · have hs := saveEntry_alone pcre env sec fil data hid
          (iniObjectClean sec fil (iniTokenGet env sec fil ∅ w).2)
        rw [hd] at hs
        exact hs

def removedFrom (name : Str) (fs : List (Str × Str)) (w : World) : World :=
  fs.foldl (fun w f => rewritten f (removeFile pcre env name [] f (w.reg.getD f [])) w) w

theorem removedFrom_spec (name : Str) {fs : List (Str × Str)} (hd : fs.Nodup) : ∀ {w : World},
    (∀ f ∈ fs, f ∈ w.reg.keys) → (removedFrom pcre env name fs w).obj = w.obj ∧
      (removedFrom pcre env name fs w).reg.keys = w.reg.keys ∧
      ∀ f, (removedFrom pcre env name fs w).reg.get? f =
        if f ∈ fs then (w.reg.get? f).map (removeFile pcre env name [] f) else w.reg.get? f := by
  induction fs with
  | nil => exact fun _ => ⟨rfl,rfl,fun _ => rfl⟩
  | cons g fs ih =>
    intro w hm
    rw [List.nodup_cons] at hd
    have hg := hm g (by simp)
    have hk : (rewritten g (removeFile pcre env name [] g (w.reg.getD g [])) w).reg.keys = w.reg.keys := by
      rw [rewritten,OrdMap.keys_set,if_pos hg]
    obtain ⟨h₁,h₂,h₃⟩ := @ih hd.2 (rewritten g (removeFile pcre env name [] g (w.reg.getD g [])) w)
      fun f hf => by rw [hk]; exact hm f (List.mem_cons_of_mem _ hf)
    refine ⟨h₁,h₂.trans hk,fun f => (h₃ f).trans ?_⟩
    rw [rewritten,OrdMap.get?_set]
    by_cases hf : g = f
    · subst hf
      obtain ⟨x,hx⟩ : ∃ x, w.reg.get? g = some x := by
        cases hx : w.reg.get? g with
        | none => exact absurd hg (OrdMap.get?_eq_none.mp hx)
        | some x => exact ⟨x,rfl⟩
      rw [if_neg hd.1,if_pos rfl,if_pos (by simp),OrdMap.getD,hx]
      rfl
    · simp only [if_neg hf,List.mem_cons,Ne.symm hf,false_or]

/-- The files gone through one by one are the files gone through at once. -/
theorem removedFrom_all (name : Str) (w : World) :
    removedFrom pcre env name (w.reg.keys.filter isCfg) w =
      { w with reg := w.reg.mapEntries (removeFile pcre env name []) } := by
  have hd : (w.reg.keys.filter isCfg).Nodup := w.reg.nodup.filter isCfg
  obtain ⟨h₁,h₂,h₃⟩ := removedFrom_spec pcre env name hd (w:=w) fun f hf => (List.mem_filter.mp hf).1
  have hr : (removedFrom pcre env name (w.reg.keys.filter isCfg) w).reg =
      w.reg.mapEntries (removeFile pcre env name []) := by
    refine OrdMap.ext_get? (by rw [h₂,OrdMap.mapEntries_keys]) fun f => ?_
    rw [h₃,OrdMap.get?_mapEntries]
    split
    · rfl
    · rename_i hf
      cases hg : w.reg.get? f with
      | none => rfl
      | some x =>
        have hm : f ∈ w.reg.keys := by
          by_contra hn
          rw [OrdMap.get?_eq_none.mpr hn] at hg
          simp at hg
        have hc : isCfg f = false := by
          by_contra hn
          exact hf (List.mem_filter.mpr ⟨hm,by simpa using hn⟩)
        simp [removeFile,hc]
  calc
    removedFrom pcre env name (w.reg.keys.filter isCfg) w =
        ⟨(removedFrom pcre env name (w.reg.keys.filter isCfg) w).reg,
          (removedFrom pcre env name (w.reg.keys.filter isCfg) w).obj⟩ := rfl
    _ = _ := by rw [hr,h₁]

theorem removing_alone (job : Job) (name : Str) {fs : List (Str × Str)} (hc : ∀ f ∈ fs, isCfg f = true) :
    ∀ {w : World}, (∀ f ∈ fs, f ∈ w.reg.keys) → job.Alone pcre env sec fil (removing name fs,w)
      (.done (some .ok),iniObjectCleanAll (removedFrom pcre env name fs w)) := by
  induction fs with
  | nil => exact fun _ => .head (by rfl) (.refl _)
  | cons f fs ih =>
    intro w hm
    have hf := hm f (by simp)
    obtain ⟨x,hx⟩ : ∃ x, w.reg.get? f = some x := by
      cases hx : w.reg.get? f with
      | none => exact absurd hf (OrdMap.get?_eq_none.mp hx)
      | some x => exact ⟨x,rfl⟩
    have hd : w.reg.getD f [] = x := by rw [OrdMap.getD,hx]; rfl
    have hnext : removedFrom pcre env name (f::fs) w =
        removedFrom pcre env name fs (rewritten f (removeFile pcre env name [] f x) w) := by
      rw [← hd]; rfl
    have hk : (rewritten f (removeFile pcre env name [] f x) w).reg.keys = w.reg.keys := by
      rw [rewritten,OrdMap.keys_set,if_pos hf]
    have hrest := @ih (fun g hg => hc g (List.mem_cons_of_mem _ hg))
      (rewritten f (removeFile pcre env name [] f x) w)
      fun g hg => by rw [hk]; exact hm g (List.mem_cons_of_mem _ hg)
    rw [hnext]
    by_cases hp : (env.strg && !null (removeText pcre name [] x)) = true
    · have he : removeFile pcre env name [] f x = removeText pcre name [] x := by
        rw [removeFile,hc f (by simp),Bool.true_and,if_pos hp]
      rw [he] at hrest ⊢
      refine .head (b:=(.put name f x fs,w)) (by simp only [removing,Job.step,hd,if_pos hp]) ?_
      exact .head (by rfl) hrest
    · have he : rewritten f (removeFile pcre env name [] f x) w = w := by
        rw [removeFile,hc f (by simp),Bool.true_and,if_neg hp,rewritten,OrdMap.set_get?_self hx]
      rw [he] at hrest ⊢
      exact .head (b:=(removing name fs,w)) (by simp only [removing,Job.step,hd,if_neg hp]) hrest

theorem remove_alone (job : Job) (name : Str) (w : World) : job.Alone pcre env sec fil (.glob name,w)
    (.done (some .ok),iniTokenRemove pcre env name [] w) := by
  by_cases hk : w.reg.keys.all (fun f => !isCfg f) = true
  · simp only [iniTokenRemove,if_pos hk]
    exact .head (by simp only [Job.step,if_pos hk]) (.refl _)
  · simp only [iniTokenRemove,if_neg hk]
    have hr := @removing_alone pcre env sec fil job name (w.reg.keys.filter isCfg)
      (fun f hf => (List.mem_filter.mp hf).2) w fun f hf => (List.mem_filter.mp hf).1
    rw [removedFrom_all] at hr
    exact .head (by simp only [Job.step,if_neg hk]) hr

theorem delete_alone (id : Str) (w : World) :
    (Job.delete id).Alone pcre env sec fil ((Job.delete id).start,w)
      (.done (some (iniTokenDelete pcre env sec fil id w).1),(iniTokenDelete pcre env sec fil id w).2) := by
  refine (got_first pcre env sec fil (.delete id) (fun _ => rfl) w).trans ?_
  unfold iniTokenDelete
  dsimp only
  generalize iniTokenGet env sec fil ∅ w = g
  by_cases he : (g.1.getD id ∅).isEmpty = true
  · simp only [Job.decide,he,if_true]
    exact .refl _
  · simp only [Job.decide,he,Job.checks,Job.ready,Bool.false_eq_true,if_false]
    by_cases hn : (g.1.getD id ∅).val "NAME" = []
    · have hw := write_alone pcre env sec fil (.delete id) g.1 (iniObjectClean sec fil g.2) hn
      simp only [hn,show null ([] : Str) = true from rfl,Bool.not_true,Bool.and_false,Bool.false_eq_true,if_false]
      exact hw
    · unfold fileSave
      by_cases hs : env.strg = true
      · simp only [hs,if_true,null_false_iff.mpr hn,decide_true,Bool.not_false,Bool.and_true]
        refine .head (b:=(.look (.refresh ((g.1.getD id ∅).val "NAME")),rewritten (sec,fil)
          (deleteText env (g.1.erase id)) (iniObjectClean sec fil g.2))) (by simp [Job.step,hs,Job.removed,Job.newText]) ?_
        refine (get_alone pcre env sec fil (.delete id) (.refresh ((g.1.getD id ∅).val "NAME")) _).trans ?_
        simp only [Job.got,null_false_iff.mpr hn,Bool.false_eq_true,if_false]
        exact remove_alone pcre env sec fil _ _ _
      · simp only [hs,Bool.false_eq_true,if_false,reduceCtorEq,decide_false,Bool.false_and]
        exact .head (by simp [Job.step,hs]) (.refl _)

/-- The step that gives a call the array it works on. -/
def firstRead : Point → World → Bool
  | .look .first, w => !(fileArrayGet w (objName sec fil)).isEmpty
  | .load .first, _ => true
  | _, _ => false

def fileWrite : Point → World → Bool
  | .write _, _ => env.strg
  | .put _ f _ _, _ => f = (sec,fil)
  | _, _ => false

def calls {ι : Type} (job : ι → Job) (env : ι → Env) : Processes World Point ι where
  step i := (job i).step pcre (env i) sec fil
  reads _ := firstRead sec fil
  writes i := fileWrite (env i) sec fil

variable {sec fil}

theorem entries_of_get? {w : World} {x : Str} (h : w.reg.get? (sec,fil) = some x) :
    readText x ∅ = entries sec fil w := by
  rw [entries,text,OrdMap.getD,h]
  rfl

theorem entries_of_none {w : World} (h : w.reg.get? (sec,fil) = none) : entries sec fil w = ∅ := by
  rw [entries,text,OrdMap.getD,h]
  rfl

theorem text_rewritten (sec fil x : Str) (w : World) :
    text sec fil (rewritten (sec,fil) x w) = x := by
  rw [text,rewritten,OrdMap.getD,OrdMap.get?_set_self]
  rfl

/-- Every step but a write of the file leaves its text alone. -/
theorem step_text {j : Job} {e : Env} {p q : Point} {w v : World} (hw : fileWrite e sec fil p w = false)
    (hs : j.step pcre e sec fil p w = some (q,v)) : text sec fil v = text sec fil w := by
  cases p with
  | look a =>
    simp only [Job.step] at hs
    split at hs <;> simp only [Option.some.injEq,Prod.mk.injEq] at hs <;> rw [← hs.2]
  | load a =>
    simp only [Job.step] at hs
    split at hs
    · simp only [Option.some.injEq,Prod.mk.injEq] at hs
      rw [← hs.2]
    · split at hs <;> simp only [Option.some.injEq,Prod.mk.injEq] at hs <;> rw [← hs.2]
  | store a t =>
    simp only [Job.step,Option.some.injEq,Prod.mk.injEq] at hs
    rw [← hs.2]
    rfl
  | clean t =>
    simp only [Job.step,Option.some.injEq,Prod.mk.injEq] at hs
    rw [← hs.2]
    rfl
  | forget t u =>
    simp only [Job.step,Option.some.injEq,Prod.mk.injEq] at hs
    rw [← hs.2]
    rfl
  | write t =>
    change e.strg = false at hw
    simp only [Job.step,hw,Bool.false_eq_true,if_false,Option.some.injEq,Prod.mk.injEq] at hs
    rw [← hs.2]
  | glob name =>
    simp only [Job.step] at hs
    split at hs <;> simp only [Option.some.injEq,Prod.mk.injEq] at hs <;> rw [← hs.2]
  | fetch name f fs =>
    simp only [Job.step] at hs
    split at hs <;> simp only [Option.some.injEq,Prod.mk.injEq] at hs <;> rw [← hs.2]
  | put name f x fs =>
    have hf : f ≠ (sec,fil) := of_decide_eq_false hw
    simp only [Job.step,Option.some.injEq,Prod.mk.injEq] at hs
    rw [← hs.2,text,rewritten,OrdMap.getD,OrdMap.get?_set_ne _ _ hf]
    rfl
  | sweep =>
    simp only [Job.step,Option.some.injEq,Prod.mk.injEq] at hs
    rw [← hs.2]
    rfl
  | done => simp [Job.step] at hs

theorem entries_text {w v : World} (h : text sec fil v = text sec fil w) :
    entries sec fil v = entries sec fil w := by rw [entries,h,entries]

theorem ready_ne (j : Job) (t : Token) (a : Aim) (u : Token) : j.ready t ≠ .store a u := by
  cases j <;> simp only [Job.ready] <;> (try split) <;> simp

theorem decide_ne (j : Job) (e : Env) (t : Token) (a : Aim) (u : Token) : j.decide e t ≠ .store a u := by
  have hgo : (if j.checks t then Point.look (.check t) else j.ready t) ≠ .store a u := by
    split
    · simp
    · exact ready_ne j t a u
  cases j with
  | get => simp [Job.decide]
  | update id data =>
    simp only [Job.decide]
    split
    · simp
    · exact hgo
  | save data =>
    simp only [Job.decide]
    split
    · simp
    · split
      · simp
      · exact hgo
  | delete id =>
    simp only [Job.decide]
    split
    · simp
    · exact hgo

end Registry
end Mybox
