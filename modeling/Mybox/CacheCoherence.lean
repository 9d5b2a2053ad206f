import Mybox.Rewriting
import Mybox.Runs

/-! The cached arrays of the registry files through any calls of one process. `_INI_TOKEN_GET` reads
a file into the array its caller hands over, and what comes out is what it caches. -/
namespace Mybox
namespace Registry

open Php RegistryFormat

variable (pcre : Pcre) (env : Env)

/-- What lines are read into ends up under what they hold. -/
theorem foldl_overlay {nt : Token} (ls : List Str) (st st' : Reading) (ht : st.tname = st'.tname)
    (hk : st'.token = OrdMap.overlay nt st.token) :
    (ls.foldl readLine st').token = OrdMap.overlay nt (ls.foldl readLine st).token := by
  have line : ∀ (st st' : Reading) (l : Str), st.tname = st'.tname → st'.token = OrdMap.overlay nt st.token →
      (readLine st l).tname = (readLine st' l).tname ∧
      (readLine st' l).token = OrdMap.overlay nt (readLine st l).token := by
    intro st st' l ht hk
    have assign : ∀ n a b, (st'.assign n a b).token = OrdMap.overlay nt (st.assign n a b).token := by
      intro n a b
      rw [Reading.assign,Reading.assign,hk]
      exact (OrdMap.overlay_set nt _ n a b).symm
    unfold readLine
    rw [← ht]
    split
    · exact ⟨ht,hk⟩
    · split
      · exact ⟨rfl,assign _ _ _⟩
      · split
        · exact ⟨ht,hk⟩
        · split
          · exact ⟨ht,hk⟩
          · exact ⟨rfl,assign _ _ _⟩
  induction ls generalizing st st' with
  | nil => exact hk
  | cons l ls ih =>
    obtain ⟨h₁,h₂⟩ := line st st' l ht hk
    exact ih _ _ h₁ h₂

theorem readText_overlay (s : Str) (nt : Token) : readText s nt = OrdMap.overlay nt (readText s ∅) :=
  foldl_overlay (file s) ⟨[],∅⟩ ⟨[],nt⟩ rfl rfl

variable (sec fil : Str)

def Hit (w : World) : Prop := fileArrayGet w (objName sec fil) ≠ ∅

theorem get_hit {w : World} (nt : Token) (hc : Coherent sec fil w) (h : Hit sec fil w) :
    iniTokenGet env sec fil nt w = (entries sec fil w,w) := by
  have he : (fileArrayGet w (objName sec fil)).isEmpty = false :=
    Bool.eq_false_iff.mpr fun hh => h (OrdMap.isEmpty_iff.mp hh)
  unfold iniTokenGet
  rw [he,← hc.resolve_left h]
  rfl

theorem get_miss {w : World} (nt : Token) (h : ¬ Hit sec fil w) :
    (iniTokenGet env sec fil nt w).1 = OrdMap.overlay nt (entries sec fil w) := by
  have he : (fileArrayGet w (objName sec fil)).isEmpty = true := OrdMap.isEmpty_iff.mpr (not_not.mp h)
  unfold iniTokenGet
  rw [he,entries,← readText_overlay,text,OrdMap.getD]
  cases w.reg.get? (sec,fil) with
  | none => rfl
  | some s =>
    simp only [Bool.not_true,Bool.false_eq_true,if_false,Option.getD_some]
    split <;> rfl

/-- A read returns what the file holds if and only if it is cached, or nothing is left of what the
caller's array held. -/
theorem get_parse_iff {w : World} (nt : Token) (hc : Coherent sec fil w) :
    (iniTokenGet env sec fil nt w).1 = entries sec fil w ↔
      Hit sec fil w ∨ OrdMap.Heads nt (entries sec fil w) := by
  by_cases h : Hit sec fil w
  · simp only [get_hit env sec fil nt hc h,h,true_or]
  · rw [get_miss env sec fil nt h,OrdMap.overlay_eq_iff]
    simp only [h,false_or]

theorem get_cached {w : World} (nt : Token) :
    fileArrayGet (iniTokenGet env sec fil nt w).2 (objName sec fil) = fileArrayGet w (objName sec fil) ∨
    fileArrayGet (iniTokenGet env sec fil nt w).2 (objName sec fil) = (iniTokenGet env sec fil nt w).1 := by
  unfold iniTokenGet
  split
  · exact Or.inl rfl
  · split
    · exact Or.inl rfl
    · dsimp only
      split
      · exact Or.inr (by simp only [fileArrayGet,OrdMap.get?_set_self])
      · exact Or.inl rfl

/-- The registry calls. `_INI_TOKEN_GET` comes with what the caller's array holds. -/
inductive Access
  | get (sec fil : Str) (ntoken : Token)
  | check (sec fil name value : Str)
  | save (sec fil : Str) (data : Params)
  | update (sec fil id : Str) (data : Params)
  | delete (sec fil id : Str)

def Access.section_ : Access → Str
  | get sec _ _ => sec
  | check sec _ _ _ => sec
  | save sec _ _ => sec
  | update sec _ _ _ => sec
  | delete sec _ _ => sec

/-- The caller's array after a read, and the state; none where a key loop has not ended. -/
def Access.run : Access → World → Option (Option Token × World)
  | get sec fil nt, w => some (some (iniTokenGet env sec fil nt w).1,(iniTokenGet env sec fil nt w).2)
  | check sec fil name value, w => some (none,(iniTokenCheck env sec fil name value w).2)
  | save sec fil data, w => (iniTokenSave env sec fil data w).map fun r => (none,r.2)
  | update sec fil id data, w => some (none,(iniTokenUpdate env sec fil id data w).2)
  | delete sec fil id, w => some (none,(iniTokenDelete pcre env sec fil id w).2)

/-- One call of a run: its surroundings, the state it finds and what a read returns. -/
structure Served where
  env : Env
  access : Access
  before : World
  result : Option Token

/-- The sections of the registry have no underscore in their names. -/
def Plainly (sec : Str) : Prop := '_' ∉ sec

instance (sec : Str) : Decidable (Plainly sec) := inferInstanceAs (Decidable (_ ∉ _))

def accessSystem : System World Served where
  init := FreshOn Plainly
  step w t w' := t.before = w ∧ Plainly t.access.section_ ∧
    t.access.run pcre t.env w = some (t.result,w')

def Answered (t : Served) : Prop :=
  ∀ sec fil nt, t.access = .get sec fil nt → t.result = some (entries sec fil t.before)

/-- A read finds the file cached, or the file's array leaves nothing of the caller's. -/
def Unmixed (t : Served) : Prop :=
  ∀ sec fil nt, t.access = .get sec fil nt →
    Hit sec fil t.before ∨ OrdMap.Heads nt (entries sec fil t.before)

theorem answered_iff {w w' : World} {t : Served} (h : FreshOn Plainly w)
    (hs : (accessSystem pcre).step w t w') : Answered t ↔ Unmixed t := by
  obtain ⟨rfl,hp,hr⟩ := hs
  refine forall_congr' fun sec => forall_congr' fun fil => forall_congr' fun nt => imp_congr_right fun ha => ?_
  rw [ha] at hr hp
  simp only [Access.run,Option.some.injEq,Prod.mk.injEq] at hr
  rw [← hr.1,Option.some.injEq]
  exact get_parse_iff t.env sec fil nt (h sec fil hp)

/-- What one call leaves of the cache. -/
theorem unmixed_step {w w' : World} {t : Served} (h : FreshOn Plainly w)
    (hs : (accessSystem pcre).step w t w') (hu : Unmixed t) : FreshOn Plainly w' := by
  have hS : ∀ sec, Plainly sec → '_' ∉ sec := fun _ h => h
  obtain ⟨rfl,hp,hr⟩ := hs
  obtain ⟨env,access,w,result⟩ := t
  dsimp only at *
  cases access with
  | get sec fil nt =>
    simp only [Access.run,Option.some.injEq,Prod.mk.injEq] at hr
    obtain ⟨-,rfl⟩ := hr
    change Plainly sec at hp
    have hc := h sec fil hp
    refine h.step hS hp ?_ (fun _ ho => iniTokenGet_cache_ne env nt w ho) fun _ _ _ => by
      rw [text,text,iniTokenGet_reg]
    rw [Coherent,entries_congr sec fil (iniTokenGet_reg env sec fil nt w)]
    rcases get_cached env sec fil nt with hg | hg <;> rw [hg]
    · exact hc
    · exact Or.inr ((get_parse_iff env sec fil nt hc).mpr (hu sec fil nt rfl))
  | check sec fil name value =>
    simp only [Access.run,Option.some.injEq,Prod.mk.injEq] at hr
    obtain ⟨-,rfl⟩ := hr
    exact iniObjectClean_freshOn sec fil (h.iniTokenGet env hS hp fil)
  | save sec fil data =>
    obtain ⟨r,hx,hr⟩ := Option.map_eq_some_iff.mp hr
    simp only [Prod.mk.injEq] at hr
    obtain ⟨-,rfl⟩ := hr
    rcases iniTokenSave_spec env sec fil (h sec fil hp) hx with ⟨_,_,-,-,hw,-⟩ | ⟨-,hw⟩
    · exact hw.freshOn hS (iniTokenSave_frame env hx) hp h
    · exact (hw []).freshOn hS (iniTokenSave_frame env hx) hp h
  | update sec fil id data =>
    simp only [Access.run,Option.some.injEq,Prod.mk.injEq] at hr
    obtain ⟨-,rfl⟩ := hr
    rcases iniTokenUpdate_spec env sec fil id data (h sec fil hp) with ⟨_,-,hw⟩ | ⟨-,-,hw⟩
    · exact hw.freshOn hS (iniTokenUpdate_frame env id data w) hp h
    · exact (hw []).freshOn hS (iniTokenUpdate_frame env id data w) hp h
  | delete sec fil id =>
    simp only [Access.run,Option.some.injEq,Prod.mk.injEq] at hr
    obtain ⟨-,rfl⟩ := hr
    exact iniTokenDelete_freshOn pcre env hS id hp h

/-- The cache agrees with the files throughout a run and every read returns what its file holds, if
and only if no read mixes the caller's array into a file. -/
theorem cache_coherent_iff {w w' : World} {ts : List Served} (hi : (accessSystem pcre).init w)
    (hr : System.Run (accessSystem pcre) w ts w') :
    (FreshOn Plainly w' ∧ ∀ t ∈ ts, FreshOn Plainly t.before ∧ Answered t) ↔ ∀ t ∈ ts, Unmixed t := by
  induction hr with
  | nil => exact ⟨fun _ _ ht => absurd ht List.not_mem_nil,fun _ => ⟨hi,fun _ ht => absurd ht List.not_mem_nil⟩⟩
  | snoc _ hs ih =>
    rename_i t
    have hb := hs.1
    simp only [List.forall_mem_append,List.forall_mem_singleton]
    constructor
    · rintro ⟨-,hl,ht,ha⟩
      rw [hb] at ht
      exact ⟨ih.mp ⟨ht,hl⟩,(answered_iff pcre ht hs).mp ha⟩
    · rintro ⟨hl,hu⟩
      obtain ⟨hm,hm'⟩ := ih.mpr hl
      exact ⟨unmixed_step pcre hm hs hu,hm',by rw [hb]; exact hm,(answered_iff pcre hm hs).mpr hu⟩

def tablesWorld : World := World.ofFiles [("definitions","icmptype.cfg","ID=icmptype\n0=echo-reply\n"),
  ("definitions","weekdays.cfg","ID=weekdays\n1=Mon\n")]

def tableRead (fil : Str) (nt : Token) (w : World) : Served :=
  ⟨noonEnv,.get "definitions" fil nt,w,some (iniTokenGet noonEnv "definitions" fil nt w).1⟩

def icmptypeRead : Served := tableRead "icmptype.cfg" ∅ tablesWorld

def icmptypeWorld : World := (iniTokenGet noonEnv "definitions" "icmptype.cfg" ∅ tablesWorld).2

theorem tablesWorld_init : (accessSystem Pcre.plain).init tablesWorld := fun _ _ _ => Or.inl rfl

theorem icmptype_run : System.Run (accessSystem Pcre.plain) tablesWorld ([] ++ [icmptypeRead]) icmptypeWorld :=
  .snoc .nil ⟨rfl,by decide,rfl⟩

def weekdaysRead : Served := tableRead "weekdays.cfg" ∅ icmptypeWorld

def weekdaysWorld : World := (iniTokenGet noonEnv "definitions" "weekdays.cfg" ∅ icmptypeWorld).2

def againRead : Served := tableRead "icmptype.cfg" ∅ weekdaysWorld

def againWorld : World := (iniTokenGet noonEnv "definitions" "icmptype.cfg" ∅ weekdaysWorld).2

theorem tables_run : System.Run (accessSystem Pcre.plain) tablesWorld [icmptypeRead,weekdaysRead,againRead] againWorld :=
  (icmptype_run.snoc (l:=weekdaysRead) ⟨rfl,by decide,rfl⟩).snoc (l:=againRead) ⟨rfl,by decide,rfl⟩

theorem unmixed_fresh (fil : Str) (w : World) : Unmixed (tableRead fil ∅ w) := by
  intro sec f nt ha
  simp only [tableRead,Access.get.injEq] at ha
  obtain ⟨-,-,rfl⟩ := ha
  exact Or.inr (OrdMap.heads_empty _)

/-- A fresh array for each file, and a file that is read again while it is cached. -/
theorem cache_coherent_tables : FreshOn Plainly againWorld ∧
    ∀ t ∈ [icmptypeRead,weekdaysRead,againRead], FreshOn Plainly t.before ∧ Answered t := by
  refine (cache_coherent_iff Pcre.plain tablesWorld_init tables_run).mpr ?_
  simp only [List.forall_mem_cons]
  exact ⟨unmixed_fresh _ _,unmixed_fresh _ _,unmixed_fresh _ _,List.forall_mem_nil _⟩

/-- One array for two files: the second is cached with the entries of the first. -/
theorem cache_not_coherent : ¬ ∀ (w w' : World) (ts : List Served), (accessSystem Pcre.plain).init w →
    System.Run (accessSystem Pcre.plain) w ts w' →
    FreshOn Plainly w' ∧ ∀ t ∈ ts, FreshOn Plainly t.before ∧ Answered t := by
  intro h
  have hr := icmptype_run.snoc (l:=tableRead "weekdays.cfg"
    (iniTokenGet noonEnv "definitions" "icmptype.cfg" ∅ tablesWorld).1 icmptypeWorld) ⟨rfl,by decide,rfl⟩
  have hc := (h _ _ _ tablesWorld_init hr).1 "definitions" "weekdays.cfg" (by decide)
  unfold Coherent at hc
  revert hc
  decide

end Registry
end Mybox
