import Mybox.CallSteps

/-! One process that writes a registry file while others read it. A reader puts the array it has read
into the object whenever it gets to it, also after the file has been written. -/
namespace Mybox
namespace Registry

open Php RegistryFormat References Processes

variable {ι : Type} [DecidableEq ι] (pcre : Pcre) (sec fil : Str) (a : ι) (j : Job) (env : ι → Env)

def oneWriter (i : ι) : Job := if i = a then j else .get

/-- Whether the object is still unlinked after a read. -/
def Aim.unlinks : Aim → World → Bool
  | refresh n, w => !null n && w.reg.keys.any isCfg
  | _, _ => true

/-- Whether a write still has an unlink of the object ahead of it. -/
def unlinks (j : Job) (e : Env) : Point → World → Bool
  | .look b, w => b.unlinks w
  | .load b, w => b.unlinks w
  | .store b _, w => b.unlinks w
  | .write t, w => e.strg && (Aim.refresh (j.removed t)).unlinks w
  | .glob _, w => w.reg.keys.any isCfg
  | .done _, _ => false
  | _, _ => true

/-- The calls are about to begin, on a cache as it is. -/
structure Starting (c : Config World Point ι) : Prop where
  coherent : Coherent sec fil c.shared
  start : ∀ i, c.point i = (oneWriter a j i).start
  seen : ∀ i, c.seen i ≤ c.version

/-- A reader puts its array into the object only while the write has an unlink ahead of it, or when
the file has not been written since the reader has read it and is not written any more. -/
def InTime (c : Config World Point ι) (i : ι) : Prop :=
  i ≠ a → ∀ b t, c.point i = .store b t → unlinks j (env a) (c.point a) c.shared = true ∨
    fileWrite (env a) sec fil (c.point a) c.shared = false ∧ c.seen i = c.version

def inTime (c : Config World Point ι) (i : ι) : Bool :=
  i = a || match c.point i with
    | .store _ _ => unlinks j (env a) (c.point a) c.shared ||
        !fileWrite (env a) sec fil (c.point a) c.shared && c.seen i = c.version
    | _ => true

instance (c : Config World Point ι) (i : ι) : Decidable (InTime sec fil a j env c i) :=
  decidable_of_iff (inTime sec fil a j env c i = true) <| by
    unfold InTime inTime
    cases hp : c.point i with
    | store b t =>
      simp only [Bool.or_eq_true,decide_eq_true_eq,Bool.and_eq_true,Bool.not_eq_true',ne_eq]
      refine ⟨fun h hi _ _ _ => h.resolve_left hi,fun h => or_iff_not_imp_left.mpr fun hi => h hi b t rfl⟩
    | look | load | clean | forget | write | glob | fetch | put | sweep | done => simp

def Safe (sec fil : Str) (j : Job) (e : Env) (p : Point) (w : World) : Prop :=
  unlinks j e p w = false → Coherent sec fil w ∧
    (fileWrite e sec fil p w = true → fileArrayGet w (objName sec fil) = ∅) ∧
    ∀ b t, p = .store b t → t = entries sec fil w

variable {sec fil a j}

theorem aim_unlinks_reg {b : Aim} {w v : World} (h : v.reg = w.reg) : b.unlinks v = b.unlinks w := by
  cases b with
  | first => rfl
  | check => rfl
  | refresh n => rw [Aim.unlinks,h,Aim.unlinks]

theorem unlinks_reg {e : Env} {p : Point} {w v : World} (h : v.reg = w.reg) :
    unlinks j e p v = unlinks j e p w := by
  cases p with
  | look b => exact aim_unlinks_reg h
  | load b => exact aim_unlinks_reg h
  | store b t => exact aim_unlinks_reg h
  | write t => exact congrArg (e.strg && ·) (aim_unlinks_reg h)
  | glob name => rw [unlinks,h,unlinks]
  | clean | forget | fetch | put | sweep | done => rfl

theorem safe_got {e : Env} {w : World} (hj : j ≠ .get) (b : Aim) (t : Token)
    (h : b.unlinks w = false → Coherent sec fil w) : Safe sec fil j e (j.got b t) w := by
  cases b with
  | first =>
    intro hu
    cases j with
    | get => exact absurd rfl hj
    | update | save | delete => simp [Job.got,unlinks] at hu
  | check t₀ =>
    intro hu
    simp [Job.got,unlinks] at hu
  | refresh n =>
    intro hu
    simp only [Job.got] at hu ⊢
    split at hu
    · rename_i hn
      rw [if_pos hn]
      exact ⟨h (by simp [Aim.unlinks,hn]),by simp [fileWrite],by simp⟩
    · rename_i hn
      rw [if_neg hn]
      change w.reg.keys.any isCfg = false at hu
      exact ⟨h (by rw [Aim.unlinks,hu,Bool.and_false]),by simp [fileWrite],by simp⟩

theorem safe_emptied {e : Env} {p : Point} {w : World} (hp : ∀ b t, p ≠ .store b t)
    (hc : fileArrayGet w (objName sec fil) = ∅) : Safe sec fil j e p w :=
  fun _ => ⟨Or.inl hc,fun _ => hc,fun b t h => absurd h (hp b t)⟩

theorem unlinks_removing (e : Env) (name : Str) (fs : List (Str × Str)) (w : World) :
    unlinks j e (removing name fs) w = true := by
  cases fs <;> rfl

/-- A step of the writer. -/
theorem Safe.step {e : Env} {p q : Point} {w v : World} (hj : j ≠ .get) (h : Safe sec fil j e p w)
    (hs : j.step pcre e sec fil p w = some (q,v)) : Safe sec fil j e q v := by
  cases p with
  | look b =>
    have hc : b.unlinks w = false → Coherent sec fil w := fun hu => (h hu).1
    simp only [Job.step] at hs
    split at hs <;> simp only [Option.some.injEq,Prod.mk.injEq] at hs <;> obtain ⟨rfl,rfl⟩ := hs
    · exact fun hu => ⟨hc hu,by simp [fileWrite],by simp⟩
    · exact safe_got hj b _ hc
  | load b =>
    have hc : b.unlinks w = false → Coherent sec fil w := fun hu => (h hu).1
    simp only [Job.step] at hs
    split at hs
    · simp only [Option.some.injEq,Prod.mk.injEq] at hs
      obtain ⟨rfl,rfl⟩ := hs
      exact safe_got hj b _ hc
    · rename_i x hx
      split at hs <;> simp only [Option.some.injEq,Prod.mk.injEq] at hs <;> obtain ⟨rfl,rfl⟩ := hs
      · refine fun hu => ⟨hc hu,by simp [fileWrite],fun b' t hp => ?_⟩
        simp only [Point.store.injEq] at hp
        rw [← hp.2]
        exact entries_of_get? hx
      · exact safe_got hj b _ hc
  | store b t =>
    simp only [Job.step,Option.some.injEq,Prod.mk.injEq] at hs
    obtain ⟨rfl,rfl⟩ := hs
    refine safe_got hj b t fun hu => Or.inr ?_
    simp only [fileArrayGet,OrdMap.get?_set_self]
    exact (h ((aim_unlinks_reg (by rfl)).trans hu)).2.2 b t rfl
  | clean t =>
    simp only [Job.step,Option.some.injEq,Prod.mk.injEq] at hs
    obtain ⟨rfl,rfl⟩ := hs
    exact safe_emptied (decide_ne j e t) (iniObjectClean_cache sec fil w)
  | forget t u =>
    simp only [Job.step,Option.some.injEq,Prod.mk.injEq] at hs
    obtain ⟨rfl,rfl⟩ := hs
    refine safe_emptied (fun b u => ?_) (iniObjectClean_cache sec fil w)
    split
    · exact ready_ne j _ b u
    · simp
  | write t =>
    simp only [Job.step] at hs
    split at hs <;> simp only [Option.some.injEq,Prod.mk.injEq] at hs <;> obtain ⟨rfl,rfl⟩ := hs
    · rename_i hstrg
      refine fun hu => ⟨Or.inl ((h ?_).2.1 hstrg),by simp [fileWrite],by simp⟩
      simp only [unlinks,Aim.unlinks,Bool.and_eq_false_iff,Bool.not_eq_false'] at hu ⊢
      refine Or.inr (hu.imp_right fun hk => ?_)
      rw [List.any_eq_false] at hk ⊢
      refine fun f hf => hk f ?_
      rw [rewritten,OrdMap.keys_set]
      split
      · exact hf
      · exact List.mem_append_left _ hf
    · rename_i hstrg
      exact fun _ => ⟨(h (by simp [unlinks,hstrg])).1,by simp [fileWrite],by simp⟩
  | glob name =>
    simp only [Job.step] at hs
    split at hs <;> simp only [Option.some.injEq,Prod.mk.injEq] at hs <;> obtain ⟨rfl,rfl⟩ := hs
    · rename_i hk
      refine fun _ => ⟨(h ?_).1,by simp [fileWrite],by simp⟩
      rw [unlinks,List.any_eq_false]
      intro f hf
      simpa using List.all_eq_true.mp hk f hf
    · intro hu
      rw [unlinks_removing] at hu
      simp at hu
  | fetch name f fs =>
    simp only [Job.step] at hs
    split at hs <;> simp only [Option.some.injEq,Prod.mk.injEq] at hs <;> obtain ⟨rfl,rfl⟩ := hs
    · intro hu
      simp [unlinks] at hu
    · intro hu
      rw [unlinks_removing] at hu
      simp at hu
  | put name f x fs =>
    simp only [Job.step,Option.some.injEq,Prod.mk.injEq] at hs
    obtain ⟨rfl,rfl⟩ := hs
    intro hu
    rw [unlinks_removing] at hu
    simp at hu
  | sweep =>
    simp only [Job.step,Option.some.injEq,Prod.mk.injEq] at hs
    obtain ⟨rfl,rfl⟩ := hs
    exact safe_emptied (by simp) (by simp [fileArrayGet,iniObjectCleanAll])
  | done => simp [Job.step] at hs

def Reads (sec fil : Str) (c : Config World Point ι) (i : ι) : Point → Prop
  | .look b => b = .first
  | .load b => b = .first
  | .store b t => b = .first ∧ (c.seen i = c.version → t = entries sec fil c.shared)
  | .done _ => True
  | _ => False

omit [DecidableEq ι] in
/-- A step of a reader, which changes nothing but the object. -/
theorem reads_step {e : Env} {c d : Config World Point ι} {i : ι} {p q : Point} (h : Reads sec fil c i p)
    (hs : Job.get.step pcre e sec fil p c.shared = some (q,d.shared)) :
    Reads sec fil d i q ∧ d.shared.reg = c.shared.reg ∧ fileWrite e sec fil p c.shared = false ∧
      (d.shared = c.shared ∨ ∃ t, p = .store .first t ∧
        d.shared = { c.shared with obj := c.shared.obj.set (objName sec fil) (.token t) }) := by
  cases p with
  | look b =>
    obtain rfl := h
    simp only [Job.step] at hs
    split at hs <;> simp only [Option.some.injEq,Prod.mk.injEq] at hs <;> rw [← hs.1,← hs.2]
    · exact ⟨rfl,rfl,rfl,Or.inl rfl⟩
    · exact ⟨trivial,rfl,rfl,Or.inl rfl⟩
  | load b =>
    obtain rfl := h
    simp only [Job.step] at hs
    split at hs
    · simp only [Option.some.injEq,Prod.mk.injEq] at hs
      rw [← hs.1,← hs.2]
      exact ⟨trivial,rfl,rfl,Or.inl rfl⟩
    · rename_i x hx
      split at hs <;> simp only [Option.some.injEq,Prod.mk.injEq] at hs <;> rw [← hs.1]
      · exact ⟨⟨rfl,fun _ => by rw [← hs.2]; exact entries_of_get? hx⟩,by rw [← hs.2],rfl,Or.inl hs.2.symm⟩
      · exact ⟨trivial,by rw [← hs.2],rfl,Or.inl hs.2.symm⟩
  | store b t =>
    obtain ⟨rfl,-⟩ := h
    simp only [Job.step,Option.some.injEq,Prod.mk.injEq] at hs
    rw [← hs.1,← hs.2]
    exact ⟨trivial,rfl,rfl,Or.inr ⟨t,rfl,rfl⟩⟩
  | done => simp [Job.step] at hs
  | clean | forget | write | glob | fetch | put | sweep => exact h.elim

structure Watched (sec fil : Str) (a : ι) (j : Job) (env : ι → Env) (c : Config World Point ι) : Prop where
  seen : ∀ i, c.seen i ≤ c.version
  reads : ∀ i, i ≠ a → Reads sec fil c i (c.point i)
  safe : Safe sec fil j (env a) (c.point a) c.shared

omit [DecidableEq ι] in
/-- What a reader holds when the file is not written, and when it is. -/
theorem Reads.moved {c d : Config World Point ι} {i : ι} {p : Point} (h : Reads sec fil c i p)
    (hs : d.seen i = c.seen i) (hle : c.seen i ≤ c.version)
    (he : d.version = c.version ∧ entries sec fil d.shared = entries sec fil c.shared ∨
      d.version = c.version + 1) : Reads sec fil d i p := by
  cases p with
  | store b t =>
    refine ⟨h.1,fun hc => ?_⟩
    rcases he with ⟨hv,he⟩ | hv
    · rw [he]
      exact h.2 (by rw [← hs,hc,hv])
    · omega
  | look | load | done => exact h
  | clean | forget | write | glob | fetch | put | sweep => exact h.elim

theorem Safe.stored {e : Env} {p : Point} {w : World} {t : Token} (h : Safe sec fil j e p w)
    (ht : unlinks j e p w = true ∨ fileWrite e sec fil p w = false ∧ t = entries sec fil w) :
    Safe sec fil j e p { w with obj := w.obj.set (objName sec fil) (.token t) } := by
  intro hu
  have hw : unlinks j e p w = false := (unlinks_reg (by rfl)).trans hu
  obtain ⟨hf,rfl⟩ := ht.resolve_left (by simp [hw])
  refine ⟨Or.inr ?_,fun hf' => ?_,(h hw).2.2⟩
  · simp only [fileArrayGet,OrdMap.get?_set_self]
    rfl
  · rw [show fileWrite e sec fil p _ = fileWrite e sec fil p w by cases p <;> rfl,hf] at hf'
    simp at hf'

variable {env}

/-- One step of one call. -/
theorem Watched.step (hj : j ≠ .get) {c d : Config World Point ι} {i : ι} (h : Watched sec fil a j env c)
    (ht : InTime sec fil a j env c i)
    (hs : (calls pcre sec fil (oneWriter a j) env).next c i = some d) : Watched sec fil a j env d := by
  obtain ⟨q,v,hst,rfl⟩ := next_some hs
  change (oneWriter a j i).step pcre (env i) sec fil (c.point i) c.shared = some (q,v) at hst
  have hseen := advance_seen_le (P:=calls pcre sec fil (oneWriter a j) env) h.seen i q v
  by_cases hi : i = a
  · subst hi
    rw [oneWriter,if_pos rfl] at hst
    refine ⟨hseen,fun k hk => ?_,?_⟩
    · rw [advance_point_ne c q v hk]
      refine (h.reads k hk).moved (advance_seen_ne c q v hk) (h.seen k) ?_
      by_cases hw : fileWrite (env i) sec fil (c.point i) c.shared = true
      · exact Or.inr (if_pos hw)
      · exact Or.inl ⟨if_neg hw,entries_text (step_text pcre (by simpa using hw) hst)⟩
    · rw [advance_point_self]
      exact h.safe.step pcre hj hst
  · rw [oneWriter,if_neg hi] at hst
    obtain ⟨hr,hreg,hw,hv⟩ := reads_step (d:=(calls pcre sec fil (oneWriter a j) env).advance c i q v) pcre
      (h.reads i hi) hst
    refine ⟨hseen,fun k hk => ?_,?_⟩
    · by_cases hki : k = i
      · subst hki
        rw [advance_point_self]
        exact hr
      · rw [advance_point_ne c q v hki]
        exact (h.reads k hk).moved (advance_seen_ne c q v hki) (h.seen k)
          (Or.inl ⟨if_neg (by simp [calls,hw]),entries_text (step_text pcre hw hst)⟩)
    · rw [advance_point_ne c q v (Ne.symm hi)]
      rcases hv with hv | ⟨t,hp,hv⟩
      · rw [hv]
        exact h.safe
      · rw [hv]
        refine h.safe.stored ((ht hi .first t hp).imp_right fun hf => ⟨hf.1,?_⟩)
        have hrd := h.reads i hi
        rw [hp] at hrd
        exact hrd.2 hf.2

/-- The object is the file's array as soon as the writer has answered, whatever the readers do, if they
store what they have read in time. -/
theorem not_stale (hj : j ≠ .get) {c d : Config World Point ι} {is : List ι}
    (h₀ : Starting sec fil a j c)
    (h : System.Run ((calls pcre sec fil (oneWriter a j) env).turns (Starting sec fil a j)
      (InTime sec fil a j env)) c is d)
    (hd : ∃ r, d.point a = .done r) (e : Env) :
    (iniTokenGet e sec fil ∅ d.shared).1 = entries sec fil d.shared := by
  have hstep : ∀ t l u, Watched sec fil a j env t →
      ((calls pcre sec fil (oneWriter a j) env).turns (Starting sec fil a j)
        (InTime sec fil a j env)).step t l u → Watched sec fil a j env u :=
    fun _ _ _ hi hs => hi.step pcre hj hs.1 hs.2
  have hw : Watched sec fil a j env c := by
    refine ⟨h₀.seen,fun i hi => ?_,fun _ => ⟨h₀.coherent,fun hf => ?_,fun b t hp => ?_⟩⟩
    · rw [h₀.start i,oneWriter,if_neg hi]
      rfl
    · rw [h₀.start a] at hf
      cases hjob : oneWriter a j a <;> rw [hjob] at hf <;> simp only [Job.start] at hf <;>
        (try split at hf) <;> simp [fileWrite] at hf
    · rw [h₀.start a] at hp
      cases hjob : oneWriter a j a <;> rw [hjob] at hp <;> simp only [Job.start] at hp <;>
        (try split at hp) <;> simp at hp
  obtain ⟨r,hr⟩ := hd
  have hs := (h.invariant hstep hw).safe
  rw [hr] at hs
  exact iniTokenGet_fst e sec fil (hs rfl).1

def onePort : World := World.ofFiles [("network","eth.cfg","ID=eth0\nSTAT=0\n")]

def portUp : Job := .update "eth0" (OrdMap.empty.setAll [("STAT","1")])

def portStart : Config World Point Bool := ⟨onePort,fun i => (oneWriter true portUp i).start,0,fun _ => 0⟩

theorem portStart_starting : Starting "network" "eth.cfg" true portUp portStart :=
  ⟨Or.inl (by decide),fun _ => rfl,fun _ => le_rfl⟩

def portReads : Processes World Point Bool :=
  calls Pcre.plain "network" "eth.cfg" (oneWriter true portUp) fun _ => noonEnv

/-- The reader stores before the writer unlinks the object. -/
def storedInTime : List Bool :=
  [false,false,true,true,true,false,true,true,true,true,true]

theorem not_stale_port : (iniTokenGet noonEnv "network" "eth.cfg" ∅
    (portReads.endOf (InTime "network" "eth.cfg" true portUp fun _ => noonEnv) portStart storedInTime).shared).1 =
    entries "network" "eth.cfg"
      (portReads.endOf (InTime "network" "eth.cfg" true portUp fun _ => noonEnv) portStart storedInTime).shared :=
  not_stale Pcre.plain (by simp [portUp]) portStart_starting (run_endOf (by decide))
    ⟨some .ok,by decide⟩ noonEnv

/-- The reader stores when the writer has unlinked the object and not yet written the file; the update
of the object keeps what it finds. -/
def storedTooLate : List Bool :=
  [false,false,true,true,true,true,false,true,true]

theorem stale : ¬ ∀ (c d : Config World Point Bool) (is : List Bool),
    Starting "network" "eth.cfg" true portUp c →
    System.Run (portReads.turns (Starting "network" "eth.cfg" true portUp) fun _ _ => True) c is d →
    (∀ i, ∃ r, d.point i = .done r) →
    (iniTokenGet noonEnv "network" "eth.cfg" ∅ d.shared).1 = entries "network" "eth.cfg" d.shared := by
  intro h
  have hr : System.Run (portReads.turns (Starting "network" "eth.cfg" true portUp) fun _ _ => True) portStart
      storedTooLate (portReads.endOf (fun _ _ => True) portStart storedTooLate) := run_endOf (by decide)
  have he := h _ _ _ portStart_starting hr fun i => by
    cases i
    · exact ⟨some .ok,by decide⟩
    · exact ⟨some .ok,by decide⟩
  revert he
  decide

end Registry
end Mybox
