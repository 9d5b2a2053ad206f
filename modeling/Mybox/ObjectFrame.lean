import Mybox.Rewriting
import Mybox.Runs

/-! The object directory holds the cached registry arrays and much else: sessions, the saved policy, what the
CLI printed last. What the writing calls leave of the rest, over runs. -/
namespace Mybox
namespace Registry
open Php RegistryFormat

variable (pcre : Pcre) (env : Env)

/-- The calls that write. -/
inductive Operation
  | save (sec fil : Str) (data : Params)
  | update (sec fil id : Str) (data : Params)
  | delete (sec fil id : Str)
  | remove (name new : Str)

/-- The file a call is about; a removal is about every file. -/
def Operation.file : Operation → Option (Str × Str)
  | save sec fil _ => some (sec,fil)
  | update sec fil _ _ => some (sec,fil)
  | delete sec fil _ => some (sec,fil)
  | remove _ _ => none

def Operation.run (w : World) : Operation → Option World
  | save sec fil data => (iniTokenSave env sec fil data w).map Prod.snd
  | update sec fil id data => some (iniTokenUpdate env sec fil id data w).2
  | delete sec fil id => some (iniTokenDelete pcre env sec fil id w).2
  | remove name new => some (iniTokenRemove pcre env name new w)

/-- One call of a run: its surroundings and the state it finds. -/
structure Operated where
  env : Env
  op : Operation
  before : World

def operationSystem : System World Operated where
  init _ := True
  step w t w' := t.before = w ∧ t.op.run pcre t.env w = some w'

/-- The cached object of a registry file: one that is there, one a call is about, or any that `_GLOB` finds. -/
def RegistryObject (w : World) (ts : List Operated) (o : Str) : Prop :=
  ∃ f : Str × Str, (isCfg f ∨ f ∈ w.reg.keys ∨ ∃ t ∈ ts, t.op.file = some f) ∧ objName f.1 f.2 = o

/-- A file that `_GLOB` finds. -/
def HasCfg (w : World) : Prop := ∃ f ∈ w.reg.keys, isCfg f

instance (w : World) : Decidable (HasCfg w) := inferInstanceAs (Decidable (∃ f ∈ w.reg.keys, _))

/-- The call ends in `_INI_OBJECT_CLEAN_ALL`: a removal, or the deletion of an entry with a name that gets
written, in a registry with a `.cfg` file. -/
def Clears (t : Operated) : Prop :=
  match t.op with
  | .delete sec fil id =>
    let p := (iniTokenGet t.env sec fil ∅ t.before).1.getD id ∅
    !p.isEmpty ∧ t.env.strg ∧ !null (p.val "NAME") ∧ (isCfg (sec,fil) ∨ HasCfg t.before)
  | .remove _ _ => HasCfg t.before
  | _ => False

instance (t : Operated) : Decidable (Clears t) := by
  unfold Clears
  split <;> infer_instance

theorem remove_obj (name new : Str) (w : World) :
    (iniTokenRemove pcre env name new w).obj = if HasCfg w then ∅ else w.obj := by
  unfold iniTokenRemove
  by_cases h : HasCfg w
  · obtain ⟨f,hf,hc⟩ := id h
    rw [if_neg (by simp only [List.all_eq_true,not_forall]; exact ⟨f,hf,by simp [hc]⟩),if_pos h]
    rfl
  · rw [if_pos (List.all_eq_true.mpr fun f hf => by
      by_contra hc
      exact h ⟨f,hf,by simpa using hc⟩),if_neg h]

theorem fileSave_hasCfg {sec fil : Str} (text : Str) {w : World} (h : env.strg = true) :
    HasCfg (fileSave env sec fil text w).2 ↔ isCfg (sec,fil) ∨ HasCfg w := by
  have hr : (fileSave env sec fil text w).2.reg = w.reg.set (sec,fil) text := by
    rw [fileSave,if_pos h,iniObjectUpdate,iniTokenGet_reg]
  unfold HasCfg
  rw [hr]
  simp only [OrdMap.mem_keys_set,or_and_right,exists_or,exists_eq_left]
  exact or_comm

theorem clears_delete (sec fil id : Str) (w : World) : Clears ⟨env,.delete sec fil id,w⟩ ↔
    ((iniTokenGet env sec fil ∅ w).1.getD id ∅).isEmpty = false ∧ env.strg = true ∧
      null (((iniTokenGet env sec fil ∅ w).1.getD id ∅).val "NAME") = false ∧ (isCfg (sec,fil) = true ∨ HasCfg w) := by
  simp [Clears]

theorem delete_obj {sec fil : Str} (id : Str) (w : World) {o : Str} (ho : objName sec fil ≠ o) :
    (iniTokenDelete pcre env sec fil id w).2.obj.get? o =
      if Clears ⟨env,.delete sec fil id,w⟩ then none else w.obj.get? o := by
  have hc : Spares sec fil w (iniObjectClean sec fil (iniTokenGet env sec fil ∅ w).2) :=
    (iniTokenGet_spares env ∅ w).trans (iniObjectClean_spares _)
  refine Eq.trans ?_ (if_congr (clears_delete env sec fil id w) rfl rfl).symm
  unfold iniTokenDelete
  dsimp only
  generalize hp : (iniTokenGet env sec fil ∅ w).1.getD id ∅ = p
  by_cases he : p.isEmpty = true
  · rw [if_pos he,if_neg (by simp [he])]
    exact hc o ho
  rw [if_neg he]
  generalize deleteText env ((iniTokenGet env sec fil ∅ w).1.erase id) = x
  have hs := hc.trans (fileSave_spares env x _)
  by_cases hb : env.strg = true
  · have hok : (fileSave env sec fil x (iniObjectClean sec fil (iniTokenGet env sec fil ∅ w).2)).1 = .ok := by
      rw [fileSave,if_pos hb]
    have hk : HasCfg (fileSave env sec fil x (iniObjectClean sec fil (iniTokenGet env sec fil ∅ w).2)).2 ↔
        isCfg (sec,fil) = true ∨ HasCfg w := by
      rw [fileSave_hasCfg env x hb,HasCfg,iniObjectClean_reg,iniTokenGet_reg,HasCfg]
    by_cases hn : null (p.val "NAME") = true
    · rw [if_neg (by simp [hn]),if_neg (by simp [hn])]
      exact hs o ho
    · rw [if_pos (by simp [hok,hn]),remove_obj]
      by_cases hf : isCfg (sec,fil) = true ∨ HasCfg w
      · rw [if_pos (hk.mpr hf),if_pos ⟨Bool.not_eq_true _ ▸ he,hb,Bool.not_eq_true _ ▸ hn,hf⟩]
        rfl
      · rw [if_neg fun h => hf (hk.mp h),if_neg fun h => hf h.2.2.2]
        exact hs o ho
  · have hok : (fileSave env sec fil x (iniObjectClean sec fil (iniTokenGet env sec fil ∅ w).2)).1 ≠ .ok := by
      rw [fileSave,if_neg hb]
      simp
    rw [if_neg (by simp [hok]),if_neg fun h => hb h.2.1]
    exact hs o ho

theorem operated_obj {w w' : World} {t : Operated} (h : (operationSystem pcre).step w t w') {o : Str}
    (ho : ∀ f, t.op.file = some f → objName f.1 f.2 ≠ o) :
    w'.obj.get? o = if Clears t then none else w.obj.get? o := by
  obtain ⟨rfl,hr⟩ := h
  obtain ⟨env,op,w⟩ := t
  cases op with
  | save sec fil data =>
    obtain ⟨r,hs,rfl⟩ := Option.map_eq_some_iff.mp hr
    exact iniTokenSave_spares env hs o (ho _ rfl)
  | update sec fil id data =>
    obtain rfl := Option.some.inj hr
    exact iniTokenUpdate_spares env id data w o (ho _ rfl)
  | delete sec fil id =>
    obtain rfl := Option.some.inj hr
    exact delete_obj pcre env id w (ho _ rfl)
  | remove name new =>
    obtain rfl := Option.some.inj hr
    change (iniTokenRemove pcre env name new w).obj.get? o = if HasCfg w then none else w.obj.get? o
    rw [remove_obj]
    split <;> rfl

theorem operations_obj {w w' : World} {ts : List Operated} (h : System.Run (operationSystem pcre) w ts w') {o : Str}
    (ho : ∀ t ∈ ts, ∀ f, t.op.file = some f → objName f.1 f.2 ≠ o) :
    w'.obj.get? o = if ∃ t ∈ ts, Clears t then none else w.obj.get? o := by
  induction h with
  | nil => simp
  | @snoc us v v' t _ hs ih =>
    rw [operated_obj pcre hs (ho t (by simp)),ih fun u hu => ho u (List.mem_append_left _ hu)]
    by_cases hc : Clears t
    · rw [if_pos hc,if_pos ⟨t,by simp,hc⟩]
    · rw [if_neg hc]
      refine if_congr ?_ rfl rfl
      simp [List.mem_append,or_and_right,exists_or,hc]

/-- Everything that is no cached registry array outlives a run exactly when no call of it clears the directory,
or there is nothing else in it. -/
theorem others_kept_iff {w w' : World} {ts : List Operated} (h : System.Run (operationSystem pcre) w ts w') :
    (∀ o, ¬RegistryObject w ts o → w'.obj.get? o = w.obj.get? o) ↔
      (∀ t ∈ ts, ¬Clears t) ∨ ∀ o, ¬RegistryObject w ts o → w.obj.get? o = none := by
  have key : ∀ o, ¬RegistryObject w ts o → w'.obj.get? o = if ∃ t ∈ ts, Clears t then none else w.obj.get? o :=
    fun o ho => operations_obj pcre h fun t ht f hf hn => ho ⟨f,Or.inr (Or.inr ⟨t,ht,hf⟩),hn⟩
  by_cases hc : ∃ t ∈ ts, Clears t
  · constructor
    · intro hk
      refine Or.inr fun o ho => ?_
      rw [← hk o ho,key o ho,if_pos hc]
    · rintro (hn | hn) o ho
      · obtain ⟨t,ht,hh⟩ := hc
        exact absurd hh (hn t ht)
      · rw [key o ho,if_pos hc,hn o ho]
  · refine iff_of_true (fun o ho => by rw [key o ho,if_neg hc]) (Or.inl fun t ht hh => hc ⟨t,ht,hh⟩)

def loggedIn : World :=
  ⟨(World.ofFiles [("definitions","networks_host.cfg","ID=web\nNAME=web\nADDR=10.0.0.5\n")]).reg,
    (∅ : OrdMap Str Object).set "ssh_session.obj" (.token ((∅ : Token).set "4711" ∅))⟩

def hostRenumbered : Operated :=
  ⟨noonEnv,.update "definitions" "networks_host.cfg" "web" ((∅ : Params).set "ADDR" "10.0.0.6"),loggedIn⟩

def hostDeleted : Operated := ⟨noonEnv,.delete "definitions" "networks_host.cfg" "web",loggedIn⟩

/-- A session is no cached registry array where only the networks are written. -/
theorem session_foreign (ts : List Operated) (h : ∀ t ∈ ts, t.op.file = some (("definitions" : Str),("networks_host.cfg" : Str))) :
    ¬RegistryObject loggedIn ts "ssh_session.obj" := by
  rintro ⟨f,hf,ho⟩
  have hs : (".cfg" : Str).isSuffixOf f.2 = true := by
    rcases hf with hf | hf | ⟨t,ht,hf⟩
    · simp only [isCfg,Bool.and_eq_true] at hf
      exact hf.1.1
    · have hk : loggedIn.reg.keys = [(("definitions" : Str),("networks_host.cfg" : Str))] := by decide
      rw [hk,List.mem_singleton] at hf
      rw [hf]
      decide
    · rw [h t ht] at hf
      rw [← Option.some.inj hf]
      decide
  obtain ⟨a,ha⟩ := List.isSuffixOf_iff_suffix.mp hs
  have he : (".cfg.obj" : Str) = (".cfg" : Str) ++ (".obj" : Str) := by decide
  have hh : (".cfg.obj" : Str) <:+ ("ssh_session.obj" : Str) := by
    refine ⟨f.1 ++ '_' :: a,Eq.trans ?_ ho⟩
    rw [he,objName,← ha]
    simp
  exact absurd hh (by decide)

/-- An update leaves the session, as every call that does not clear the directory. -/
theorem others_kept_update : (iniTokenUpdate noonEnv "definitions" "networks_host.cfg" "web"
    ((∅ : Params).set "ADDR" "10.0.0.6") loggedIn).2.obj.get? "ssh_session.obj" =
      loggedIn.obj.get? "ssh_session.obj" := by
  have hr : System.Run (operationSystem Pcre.plain) loggedIn ([] ++ [hostRenumbered]) _ := .snoc .nil ⟨rfl,rfl⟩
  have hc : ∀ t ∈ [] ++ [hostRenumbered], ¬Clears t := by
    intro t ht
    obtain rfl := List.mem_singleton.mp ht
    decide
  refine (others_kept_iff Pcre.plain hr).mpr (Or.inl hc) _ (session_foreign _ fun t ht => ?_)
  rw [List.mem_singleton.mp ht]
  rfl

/-- The deletion of a host ends the session's record. -/
theorem others_lost : ¬∀ (w w' : World) (ts : List Operated), System.Run (operationSystem Pcre.plain) w ts w' →
    ∀ o, ¬RegistryObject w ts o → w'.obj.get? o = w.obj.get? o := by
  intro h
  have hr : System.Run (operationSystem Pcre.plain) loggedIn ([] ++ [hostDeleted]) _ := .snoc .nil ⟨rfl,rfl⟩
  have hk := h _ _ _ hr "ssh_session.obj" (session_foreign _ fun t ht => by
    rw [List.mem_singleton.mp ht]
    rfl)
  revert hk
  decide

end Registry
end Mybox
