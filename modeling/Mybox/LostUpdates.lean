import Mybox.CallSteps
import Mybox.Rewriting

/-! Two processes that write to one registry file at the same time. Nothing locks the file: an update
writes back the array it has read, and a save appends. -/
namespace Mybox
namespace Registry

open Php RegistryFormat References Processes

variable (pcre : Pcre) (sec fil : Str) (job : Bool → Job) (env : Bool → Env)

def Job.ids (env : Env) : Job → List Str
  | update id _ => [id]
  | save data => if null (data.val "ID") then env.keys else [data.val "ID"]
  | _ => []

/-- An update or a save of data that a line can carry. -/
def Job.Edits : Job → Prop
  | update _ data => Carried data
  | save data => SaveCarried data
  | _ => False

/-- The data of a call is in the array, under one of its IDs. -/
def Job.Effect (env : Env) (job : Job) (t : Token) : Prop :=
  match job with
  | update id data => ∀ x ∈ data.entries, skipped x.1 = false → (t.getD id ∅).get? x.1 = some x.2
  | save data => ∃ id ∈ (Job.save data).ids env, ∀ x ∈ (data.erase "ID").entries, skipped x.1 = false →
      (t.getD id ∅).get? x.1 = some x.2
  | _ => True

abbrev Pair := Config World Point Bool

/-- Both are about to begin, on a file as the writers leave it and its cache as it is. -/
structure Beginning (c : Pair) : Prop where
  coherent : Coherent sec fil c.shared
  plain : Plain (text sec fil c.shared)
  ended : LineEnded (text sec fil c.shared)
  start : ∀ i, c.point i = (job i).start
  seen : ∀ i, c.seen i ≤ c.version

/-- An update writes only when the file has not been written since it was read. -/
def Timely (c : Pair) (i : Bool) : Prop :=
  ∀ t id data, c.point i = .write t → job i = .update id data → c.seen i = c.version

def timely (c : Pair) (i : Bool) : Bool :=
  match c.point i,job i with
  | .write _,.update _ _ => c.seen i = c.version
  | _,_ => true

instance (c : Pair) (i : Bool) : Decidable (Timely job c i) :=
  decidable_of_iff (timely job c i = true) <| by
    unfold Timely timely
    split
    · rename_i t id data hp hj
      exact ⟨fun h _ _ _ _ _ => of_decide_eq_true h,fun h => decide_eq_true (h t id data hp hj)⟩
    · rename_i hn
      exact ⟨fun _ t id data hp hj => (hn t id data hp hj).elim,fun _ => rfl⟩

/-- What holds at a point when nobody else has touched the cache. -/
structure Lone (p : Point) (w : World) : Prop where
  coherent : Coherent sec fil w
  store : ∀ a t, p = .store a t → t = entries sec fil w
  write : ∀ t, p = .write t → fileArrayGet w (objName sec fil) = ∅

variable {sec fil}

theorem got_ne (j : Job) (a : Aim) (t : Token) :
    (∀ b u, j.got a t ≠ .store b u) ∧ (∀ u, j.got a t ≠ .write u) ∧ ∀ b, j.got a t ≠ .look b := by
  cases a <;> cases j <;> simp only [Job.got] <;> (try split) <;> simp

theorem Lone.got {w : World} (j : Job) (a : Aim) (t : Token) (h : Coherent sec fil w) :
    Lone sec fil (j.got a t) w :=
  ⟨h,fun b u hp => absurd hp ((got_ne j a t).1 b u),fun u hp => absurd hp ((got_ne j a t).2.1 u)⟩

theorem Lone.unlinked {w : World} {p : Point} (h : ∀ a t, p ≠ .store a t)
    (hc : fileArrayGet w (objName sec fil) = ∅) : Lone sec fil p w :=
  ⟨Or.inl hc,fun a t hp => absurd hp (h a t),fun _ _ => hc⟩

def Point.takesOut : Point → Bool
  | glob _ => true
  | fetch .. => true
  | put .. => true
  | sweep => true
  | _ => false

/-- An update or a save by itself keeps the cache coherent, step by step. -/
theorem lone_step {j : Job} {e : Env} {p q : Point} {w v : World} (hp : p.takesOut = false)
    (h : Lone sec fil p w) (hs : j.step pcre e sec fil p w = some (q,v)) : Lone sec fil q v := by
  cases p with
  | look a =>
    simp only [Job.step] at hs
    split at hs <;> simp only [Option.some.injEq,Prod.mk.injEq] at hs <;> obtain ⟨rfl,rfl⟩ := hs
    · exact ⟨h.coherent,by simp,by simp⟩
    · exact Lone.got j a _ h.coherent
  | load a =>
    simp only [Job.step] at hs
    split at hs
    · simp only [Option.some.injEq,Prod.mk.injEq] at hs
      obtain ⟨rfl,rfl⟩ := hs
      exact Lone.got j a _ h.coherent
    · rename_i x hx
      split at hs <;> simp only [Option.some.injEq,Prod.mk.injEq] at hs <;> obtain ⟨rfl,rfl⟩ := hs
      · refine ⟨h.coherent,fun b u hp => ?_,by simp⟩
        simp only [Point.store.injEq] at hp
        rw [← hp.2]
        exact entries_of_get? hx
      · exact Lone.got j a _ h.coherent
  | store a t =>
    simp only [Job.step,Option.some.injEq,Prod.mk.injEq] at hs
    obtain ⟨rfl,rfl⟩ := hs
    refine Lone.got j a _ (Or.inr ?_)
    simp only [fileArrayGet,OrdMap.get?_set_self]
    exact h.store a t rfl
  | clean t =>
    simp only [Job.step,Option.some.injEq,Prod.mk.injEq] at hs
    obtain ⟨rfl,rfl⟩ := hs
    exact Lone.unlinked (decide_ne j e t) (iniObjectClean_cache sec fil w)
  | forget t u =>
    simp only [Job.step,Option.some.injEq,Prod.mk.injEq] at hs
    obtain ⟨rfl,rfl⟩ := hs
    refine Lone.unlinked (fun a t => ?_) (iniObjectClean_cache sec fil w)
    split
    · exact ready_ne j _ a t
    · simp
  | write t =>
    simp only [Job.step] at hs
    split at hs <;> simp only [Option.some.injEq,Prod.mk.injEq] at hs <;> obtain ⟨rfl,rfl⟩ := hs
    · exact ⟨Or.inl (h.write t rfl),by simp,by simp⟩
    · exact ⟨h.coherent,by simp,by simp⟩
  | glob => simp [Point.takesOut] at hp
  | fetch => simp [Point.takesOut] at hp
  | put => simp [Point.takesOut] at hp
  | sweep => simp [Point.takesOut] at hp
  | done => simp [Job.step] at hs

def Decided (e : Env) (j : Job) (t : Token) : Prop :=
  match j with
  | .update id _ => (t.get? id).isSome
  | .save data => ∃ n, newId e data t = some n ∧ (data.val "ID" ≠ [] → t.getD n ∅ = ∅)
  | _ => True

structure Adds (e : Env) (j : Job) (x y : Str) : Prop where
  plain : Plain y
  ended : LineEnded y
  effect : j.Effect e (readText y ∅)
  entry : ∃ n ∈ j.ids e, ∃ p, readText y ∅ = (readText x ∅).set n p

theorem newId_mem {e : Env} {data : Params} {t : Token} {n : Str} (h : newId e data t = some n) :
    n ∈ (Job.save data).ids e ∧ (data.val "ID" = [] → t.get? n = none ∧ n ∈ e.keys) ∧
      (data.val "ID" ≠ [] → n = data.val "ID") := by
  unfold newId at h
  simp only [Job.ids]
  by_cases hi : data.val "ID" = []
  · rw [if_pos (null_iff.mpr hi)] at h
    rw [if_pos (null_iff.mpr hi)]
    obtain ⟨hm,hf⟩ := freshKey_some h
    exact ⟨hm,fun _ => ⟨hf,hm⟩,fun hn => absurd hi hn⟩
  · rw [if_neg (by rwa [null_iff])] at h
    rw [if_neg (by rwa [null_iff])]
    rw [Option.some.injEq] at h
    exact ⟨by simp [h],fun hn => absurd hn hi,fun _ => h.symm⟩

theorem newData_eq (data : Params) :
    newData data = if data.val "ID" = [] then data else data.erase "ID" := by
  simp only [newData,null_iff]

theorem adds_update {e : Env} {id : Str} {data : Params} (hd : Carried data) {x : Str} (hx : Plain x)
    (hp : ((readText x ∅).get? id).isSome) :
    Adds e (.update id data) x ((Job.update id data).newText e (readText x ∅) x) := by
  obtain ⟨p,hp⟩ := Option.isSome_iff_exists.mp hp
  obtain ⟨hok,hr⟩ := readText_update e (readText_canonical hx) hp hd
  have hy : (Job.update id data).newText e (readText x ∅) x =
      updateText e ((readText x ∅).set id (p.setAll data.entries)) := by
    rw [Job.newText,merge_eq_setAll,OrdMap.getD,hp]
    rfl
  rw [hy]
  refine ⟨plain_updateText e hok,lineEnded_updateText e _,?_,id,by simp [Job.ids],_,hr⟩
  intro z hz hk
  rw [hr,OrdMap.getD,OrdMap.get?_set_self]
  exact readBack_get? hk (OrdMap.get?_setAll_of_mem _ data.nodup hz)

theorem adds_save {e : Env} {data : Params} (hd : SaveCarried data) {t : Token} {x n : Str} (hx : Plain x)
    (hl : LineEnded x) (hn : newId e data t = some n) (hf : (readText x ∅).get? n = none) :
    Adds e (.save data) x ((Job.save data).newText e t x) := by
  obtain ⟨hm,hdraw,hgiven⟩ := newId_mem hn
  have hi : IdentOk n := by
    by_cases h : data.val "ID" = []
    · exact hex_identOk (e.keys_hex n (hdraw h).2)
    · rw [hgiven h]
      exact hd.ident.resolve_left h
  have hr := readText_save e hl hi hf hd
  have hp : Plain (x ++ saveText e n (if data.val "ID" = [] then data else data.erase "ID")) := by
    refine plain_saveText e hx hl hi hd.dataOk ?_
    rw [saved_given]
    exact hd.params
  rw [Job.newText,hn,Option.getD_some,newData_eq]
  refine ⟨hp,lineEnded_saveText e _ _ _,⟨n,hm,fun z hz hk => ?_⟩,n,hm,_,hr⟩
  rw [hr,OrdMap.getD,OrdMap.get?_set_self]
  exact readBack_get? hk (OrdMap.get?_eq_some.mpr hz)

theorem Job.Effect.congr {e : Env} {j : Job} {t u : Token} (h : j.Effect e t)
    (hk : ∀ k ∈ j.ids e, u.get? k = t.get? k) : j.Effect e u := by
  cases j with
  | get => trivial
  | delete id => trivial
  | update id data =>
    intro z hz hs
    rw [OrdMap.getD,hk id (by simp [Job.ids])]
    exact h z hz hs
  | save data =>
    obtain ⟨n,hn,hv⟩ := h
    refine ⟨n,hn,fun z hz hs => ?_⟩
    rw [OrdMap.getD,hk n hn]
    exact hv z hz hs

/-- An array read from the file, as current as the versions say; what has been added since is the
other call's. -/
structure Held (sec fil : Str) (job : Bool → Job) (env : Bool → Env) (c : Pair) (i : Bool) (t : Token) :
    Prop where
  seen : c.seen i ≤ c.version
  current : c.seen i = c.version → t = entries sec fil c.shared
  read : ∃ s, t = readText s ∅
  keys : ∀ k, t.get? k = none → (entries sec fil c.shared).get? k = none ∨ k ∈ (job !i).ids (env !i)

def Kept (sec fil : Str) (job : Bool → Job) (env : Bool → Env) (c : Pair) (i : Bool) : Point → Prop
  | .look .first => Lone sec fil (c.point !i) c.shared ∧ c.seen i ≤ c.version
  | .load .first => c.seen i ≤ c.version
  | .store .first t => Held sec fil job env c i t
  | .clean t => Held sec fil job env c i t
  | .look (.check t) => Held sec fil job env c i t ∧ Decided (env i) (job i) t
  | .load (.check t) => Held sec fil job env c i t ∧ Decided (env i) (job i) t
  | .store (.check t) _ => Held sec fil job env c i t ∧ Decided (env i) (job i) t
  | .forget t _ => Held sec fil job env c i t ∧ Decided (env i) (job i) t
  | .write t => Held sec fil job env c i t ∧ Decided (env i) (job i) t
  | .look (.refresh n) => n = [] ∧ (job i).Effect (env i) (entries sec fil c.shared)
  | .load (.refresh n) => n = [] ∧ (job i).Effect (env i) (entries sec fil c.shared)
  | .store (.refresh n) _ => n = [] ∧ (job i).Effect (env i) (entries sec fil c.shared)
  | .done (some .ok) => (job i).Effect (env i) (entries sec fil c.shared)
  | .done _ => True
  | _ => False

/-- The file is as the writers leave it, and each call knows what its point says. -/
structure Writing (sec fil : Str) (job : Bool → Job) (env : Bool → Env) (c : Pair) : Prop where
  plain : Plain (text sec fil c.shared)
  ended : LineEnded (text sec fil c.shared)
  kept : ∀ i, Kept sec fil job env c i (c.point i)

variable {job env}

theorem Held.now {c : Pair} {i : Bool} {t : Token} (ht : t = entries sec fil c.shared)
    (hs : c.seen i ≤ c.version) : Held sec fil job env c i t :=
  ⟨hs,fun _ => ht,⟨text sec fil c.shared,ht⟩,fun _ hk => Or.inl (by rwa [← ht])⟩

structure Same (sec fil : Str) (c d : Pair) (i : Bool) : Prop where
  entries : entries sec fil d.shared = entries sec fil c.shared
  version : d.version = c.version
  seen : d.seen i = c.seen i

theorem Held.same {c d : Pair} {i : Bool} {t : Token} (h : Held sec fil job env c i t)
    (hs : Same sec fil c d i) : Held sec fil job env d i t := by
  obtain ⟨h₁,h₂,h₃,h₄⟩ := h
  constructor
  · rwa [hs.seen,hs.version]
  · rwa [hs.seen,hs.version,hs.entries]
  · exact h₃
  · rwa [hs.entries]

theorem Kept.same {c d : Pair} {i : Bool} {p : Point} (h : Kept sec fil job env c i p)
    (hs : Same sec fil c d i) (hl : p = .look .first → Lone sec fil (d.point !i) d.shared) :
    Kept sec fil job env d i p := by
  cases p with
  | look a =>
    cases a with
    | first => exact ⟨hl rfl,by rw [hs.seen,hs.version]; exact h.2⟩
    | check t => exact ⟨h.1.same hs,h.2⟩
    | refresh n => exact ⟨h.1,by rw [hs.entries]; exact h.2⟩
  | load a =>
    cases a with
    | first => exact (hs.seen.trans_le h).trans_eq hs.version.symm
    | check t => exact ⟨h.1.same hs,h.2⟩
    | refresh n => exact ⟨h.1,by rw [hs.entries]; exact h.2⟩
  | store a t =>
    cases a with
    | first => exact Held.same h hs
    | check t => exact ⟨h.1.same hs,h.2⟩
    | refresh n => exact ⟨h.1,by rw [hs.entries]; exact h.2⟩
  | clean t => exact Held.same h hs
  | forget t u => exact ⟨h.1.same hs,h.2⟩
  | write t => exact ⟨h.1.same hs,h.2⟩
  | glob => exact h.elim
  | fetch => exact h.elim
  | put => exact h.elim
  | sweep => exact h.elim
  | done r =>
    cases r with
    | none => trivial
    | some r => cases r with
      | ok => exact (congrArg ((job i).Effect (env i)) hs.entries).mpr h
      | fail => trivial
      | nameExists => trivial

theorem ready_cases {j : Job} (hj : j.Edits) (t : Token) :
    j.ready t = .write t ∨ j.ready t = .done (some .fail) := by
  cases j with
  | get => exact hj.elim
  | delete id => exact hj.elim
  | update id data => simp only [Job.ready]; split <;> simp
  | save data => simp only [Job.ready]; split <;> simp

theorem decide_cases {j : Job} (hj : j.Edits) (e : Env) (t : Token) :
    j.decide e t = .done none ∨ j.decide e t = .done (some .fail) ∨
      (j.decide e t = .look (.check t) ∨ j.decide e t = .write t) ∧ Decided e j t := by
  have hgo : ∀ b : Bool, Decided e j t → (if b then Point.look (.check t) else j.ready t) = .done none ∨
      (if b then Point.look (.check t) else j.ready t) = .done (some .fail) ∨
      ((if b then Point.look (.check t) else j.ready t) = .look (.check t) ∨
        (if b then Point.look (.check t) else j.ready t) = .write t) ∧ Decided e j t := by
    intro b hd
    cases b with
    | true => exact Or.inr (Or.inr ⟨Or.inl rfl,hd⟩)
    | false => rcases ready_cases hj t with h | h <;> simp [h,hd]
  cases j with
  | get => exact hj.elim
  | delete id => exact hj.elim
  | update id data =>
    simp only [Job.decide]
    split
    · simp
    · rename_i hn
      exact hgo _ (by simpa [Decided,Option.isSome_iff_ne_none] using hn)
  | save data =>
    simp only [Job.decide]
    split
    · simp
    · rename_i n hn
      split
      · simp
      · rename_i hg
        refine hgo _ ⟨n,hn,fun hi => ?_⟩
        simpa [hi] using hg

theorem Kept.takesOut {c : Pair} {i : Bool} {p : Point} (h : Kept sec fil job env c i p) :
    p.takesOut = false := by
  cases p <;> first | rfl | exact h.elim

theorem got_first_clean {j : Job} (hj : j.Edits) (t : Token) : j.got .first t = .clean t := by
  cases j <;> first | rfl | exact hj.elim

/-- A step that does not write leads a call from what it knows to what it knows next. -/
theorem Kept.step {c d : Pair} {i : Bool} {p q : Point} (hj : (job i).Edits)
    (h : Kept sec fil job env c i p) (hs : (job i).step pcre (env i) sec fil p c.shared = some (q,d.shared))
    (he : Registry.entries sec fil d.shared = Registry.entries sec fil c.shared) (hv : d.version = c.version)
    (hn : d.seen i = if firstRead sec fil p c.shared then c.version else c.seen i)
    (hw : fileWrite (env i) sec fil p c.shared = false) : Kept sec fil job env d i q := by
  have hsame : firstRead sec fil p c.shared = false → Same sec fil c d i := fun hf =>
    ⟨he,hv,by rw [hn,hf]; rfl⟩
  have hnow : firstRead sec fil p c.shared = true → d.seen i ≤ d.version := fun hf => by
    rw [hn,hf,hv]; exact le_rfl
  cases p with
  | look a =>
    simp only [Job.step] at hs
    split at hs <;> simp only [Option.some.injEq,Prod.mk.injEq] at hs <;> obtain ⟨rfl,hs⟩ := hs
    · rename_i hx
      cases a with
      | first =>
        have hf := hsame (by simp [firstRead,hx])
        exact (hf.seen.trans_le h.2).trans_eq hv.symm
      | check t => exact ⟨h.1.same (hsame rfl),h.2⟩
      | refresh n => exact ⟨h.1,by rw [he]; exact h.2⟩
    · rename_i hx
      cases a with
      | first =>
        rw [got_first_clean hj]
        refine Held.now ?_ (hnow (by simp [firstRead,hx]))
        rw [he]
        exact h.1.coherent.resolve_left fun hc => hx (by rw [hc]; rfl)
      | check t => exact ⟨h.1.same (hsame rfl),h.2⟩
      | refresh n =>
        rw [h.1]
        exact (congrArg ((job i).Effect (env i)) he).mpr h.2
  | load a =>
    have hr : ∀ t, t = Registry.entries sec fil c.shared →
        Kept sec fil job env d i ((job i).got a t) ∧ Kept sec fil job env d i (.store a t) := by
      intro t ht
      cases a with
      | first =>
        rw [got_first_clean hj]
        have hh : Held sec fil job env d i t :=
          Held.now (ht.trans he.symm) (hnow rfl)
        exact ⟨hh,hh⟩
      | check u => exact ⟨⟨h.1.same (hsame rfl),h.2⟩,h.1.same (hsame rfl),h.2⟩
      | refresh n =>
        rw [h.1]
        have hh : (job i).Effect (env i) (Registry.entries sec fil d.shared) := by rw [he]; exact h.2
        exact ⟨hh,rfl,hh⟩
    simp only [Job.step] at hs
    split at hs
    · rename_i hx
      simp only [Option.some.injEq,Prod.mk.injEq] at hs
      rw [← hs.1]
      exact (hr ∅ (entries_of_none hx).symm).1
    · rename_i x hx
      split at hs <;> simp only [Option.some.injEq,Prod.mk.injEq] at hs <;> rw [← hs.1]
      · exact (hr _ (entries_of_get? hx)).2
      · exact (hr _ (entries_of_get? hx)).1
  | store a t =>
    simp only [Job.step,Option.some.injEq,Prod.mk.injEq] at hs
    rw [← hs.1]
    cases a with
    | first =>
      rw [got_first_clean hj]
      exact Held.same h (hsame rfl)
    | check u => exact ⟨h.1.same (hsame rfl),h.2⟩
    | refresh n =>
      rw [h.1]
      exact (congrArg ((job i).Effect (env i)) he).mpr h.2
  | clean t =>
    simp only [Job.step,Option.some.injEq,Prod.mk.injEq] at hs
    rw [← hs.1]
    rcases decide_cases hj (env i) t with hq | hq | ⟨hq | hq,hd⟩ <;> rw [hq]
    · trivial
    · trivial
    · exact ⟨Held.same h (hsame rfl),hd⟩
    · exact ⟨Held.same h (hsame rfl),hd⟩
  | forget t u =>
    simp only [Job.step,Option.some.injEq,Prod.mk.injEq] at hs
    rw [← hs.1]
    split
    · rcases ready_cases hj t with hq | hq <;> rw [hq]
      · exact ⟨h.1.same (hsame rfl),h.2⟩
      · trivial
    · cases hjob : job i with
      | get => rw [hjob] at hj; exact hj.elim
      | delete id => rw [hjob] at hj; exact hj.elim
      | update id data => trivial
      | save data => trivial
  | write t =>
    change (env i).strg = false at hw
    simp only [Job.step,hw,Bool.false_eq_true,if_false,Option.some.injEq,Prod.mk.injEq] at hs
    rw [← hs.1]
    trivial
  | glob => exact h.elim
  | fetch => exact h.elim
  | put => exact h.elim
  | sweep => exact h.elim
  | done r => simp [Job.step] at hs

/-- A write of the other call. -/
theorem Kept.written {c d : Pair} {i : Bool} {p : Point} (h : Kept sec fil job env c i p) {n : Str} {q : Params}
    (he : Registry.entries sec fil d.shared = (Registry.entries sec fil c.shared).set n q)
    (hn : n ∈ (job !i).ids (env !i)) (hk : n ∉ (job i).ids (env i)) (hv : d.version = c.version + 1)
    (hs : d.seen i = c.seen i) (hl : p = .look .first → Lone sec fil (d.point !i) d.shared) :
    Kept sec fil job env d i p := by
  have hheld : ∀ {t}, Held sec fil job env c i t → Held sec fil job env d i t := by
    intro t ⟨h₁,h₂,h₃,h₄⟩
    refine ⟨by omega,fun _ => by omega,h₃,fun k hk => ?_⟩
    rw [he,OrdMap.get?_set]
    split
    · rename_i heq
      exact Or.inr (heq ▸ hn)
    · exact h₄ k hk
  have heff : (job i).Effect (env i) (Registry.entries sec fil c.shared) →
      (job i).Effect (env i) (Registry.entries sec fil d.shared) := by
    refine fun h => h.congr fun k hm => ?_
    rw [he,OrdMap.get?_set_ne]
    rintro rfl
    exact hk hm
  cases p with
  | look a =>
    cases a with
    | first => exact ⟨hl rfl,by have := h.2; omega⟩
    | check t => exact ⟨hheld h.1,h.2⟩
    | refresh n => exact ⟨h.1,heff h.2⟩
  | load a =>
    cases a with
    | first => exact hs.trans_le (h.trans (by omega))
    | check t => exact ⟨hheld h.1,h.2⟩
    | refresh n => exact ⟨h.1,heff h.2⟩
  | store a t =>
    cases a with
    | first => exact hheld h
    | check t => exact ⟨hheld h.1,h.2⟩
    | refresh n => exact ⟨h.1,heff h.2⟩
  | clean t => exact hheld h
  | forget t u => exact ⟨hheld h.1,h.2⟩
  | write t => exact ⟨hheld h.1,h.2⟩
  | glob => exact h.elim
  | fetch => exact h.elim
  | put => exact h.elim
  | sweep => exact h.elim
  | done r =>
    cases r with
    | none => trivial
    | some r => cases r with
      | ok => exact heff h
      | fail => trivial
      | nameExists => trivial

/-- What a timely write adds to the file there is. -/
theorem Held.adds {c : Pair} {i : Bool} {t : Token} (hj : (job i).Edits) (h : Held sec fil job env c i t)
    (hd : Decided (env i) (job i) t) (hx : Plain (text sec fil c.shared))
    (hl : LineEnded (text sec fil c.shared))
    (hdis : ∀ k ∈ (job i).ids (env i), k ∉ (job !i).ids (env !i))
    (ht : ∀ id data, job i = .update id data → c.seen i = c.version) :
    Adds (env i) (job i) (text sec fil c.shared) ((job i).newText (env i) t (text sec fil c.shared)) := by
  cases hjob : job i with
  | get => rw [hjob] at hj; exact hj.elim
  | delete id => rw [hjob] at hj; exact hj.elim
  | update id data =>
    rw [hjob] at hj hd
    obtain rfl := h.current (ht id data hjob)
    exact adds_update hj hx hd
  | save data =>
    rw [hjob] at hj hd
    obtain ⟨n,hn,hg⟩ := hd
    obtain ⟨hm,hdraw,hgiven⟩ := newId_mem hn
    have hnone : t.get? n = none := by
      by_cases hi : data.val "ID" = []
      · exact (hdraw hi).1
      · cases hp : t.get? n with
        | none => rfl
        | some p =>
          obtain ⟨s,rfl⟩ := h.read
          have he := hg hi
          rw [OrdMap.getD,hp] at he
          exact absurd he (readText_ne_empty hp)
    refine adds_save hj hx hl hn ((h.keys n hnone).resolve_right fun hk => ?_)
    exact hdis n (by rw [hjob]; exact hm) hk

/-- One step of one call. -/
theorem Writing.step (hj : ∀ i, (job i).Edits)
    (hdis : ∀ i, ∀ k ∈ (job i).ids (env i), k ∉ (job !i).ids (env !i)) {c d : Pair} {i : Bool}
    (h : Writing sec fil job env c) (ht : Timely job c i)
    (hs : (calls pcre sec fil job env).next c i = some d) : Writing sec fil job env d := by
  obtain ⟨q,v,hst,rfl⟩ := next_some hs
  change (job i).step pcre (env i) sec fil (c.point i) c.shared = some (q,v) at hst
  have hne : (!i) ≠ i := by cases i <;> simp
  have hlone : c.point (!i) = .look .first → Lone sec fil q v := fun hp => by
    have hk := h.kept (!i)
    rw [hp] at hk
    have hl := hk.1
    rw [Bool.not_not] at hl
    exact lone_step pcre (h.kept i).takesOut hl hst
  by_cases hw : fileWrite (env i) sec fil (c.point i) c.shared = true
  · obtain ⟨t,hp⟩ : ∃ t, c.point i = .write t := by
      have hk := (h.kept i).takesOut
      cases hp : c.point i <;> rw [hp] at hw hk <;> simp_all [fileWrite,Point.takesOut]
    have hk := h.kept i
    have hstrg : (env i).strg = true := by rwa [hp] at hw
    rw [hp] at hk hst
    simp only [Job.step,hstrg,if_true,Option.some.injEq,Prod.mk.injEq] at hst
    obtain ⟨rfl,rfl⟩ := hst
    have ha := hk.1.adds (hj i) hk.2 h.plain h.ended (hdis i) fun id data hjob => ht t id data hp hjob
    obtain ⟨n,hn,r,hr⟩ := ha.entry
    have htext := text_rewritten sec fil ((job i).newText (env i) t (text sec fil c.shared)) c.shared
    refine ⟨htext.symm ▸ ha.plain,htext.symm ▸ ha.ended,fun j => ?_⟩
    by_cases hji : j = i
    · subst hji
      rw [advance_point_self]
      refine ⟨?_,?_⟩
      · cases hjob : job j <;> first | rfl | (have hjj := hj j; rw [hjob] at hjj; exact hjj.elim)
      · rw [entries,advance_shared]
        exact htext.symm ▸ ha.effect
    · obtain rfl : j = !i := by cases i <;> cases j <;> simp_all
      rw [advance_point_ne _ _ _ hne]
      refine (h.kept (!i)).written (n:=n) (q:=r) ?_ (by rwa [Bool.not_not]) (hdis i n hn) ?_ ?_ fun hl => ?_
      · rw [entries,advance_shared]
        exact (congrArg (readText · ∅) htext).trans hr
      · change (if fileWrite (env i) sec fil (c.point i) c.shared then _ else _) = _
        rw [if_pos hw]
      · exact advance_seen_ne _ _ _ hne
      · rw [Bool.not_not,advance_point_self]
        exact hlone hl
  · have htext := step_text pcre (by simpa using hw) hst
    have he : entries sec fil ((calls pcre sec fil job env).advance c i q v).shared = entries sec fil c.shared :=
      entries_text htext
    have hver : ((calls pcre sec fil job env).advance c i q v).version = c.version := if_neg hw
    refine ⟨htext.symm ▸ h.plain,htext.symm ▸ h.ended,fun j => ?_⟩
    by_cases hji : j = i
    · subst hji
      rw [advance_point_self]
      exact (h.kept j).step pcre (hj j) hst he hver (advance_seen_self c j q v) (by simpa using hw)
    · obtain rfl : j = !i := by cases i <;> cases j <;> simp_all
      rw [advance_point_ne _ _ _ hne]
      refine (h.kept (!i)).same ⟨he,hver,advance_seen_ne _ _ _ hne⟩ fun hl => ?_
      rw [Bool.not_not,advance_point_self]
      exact hlone hl

theorem Beginning.writing {c : Pair} (h : Beginning sec fil job c) :
    Writing sec fil job env c := by
  refine ⟨h.plain,h.ended,fun i => ?_⟩
  have hlone : ∀ j, Lone sec fil (c.point j) c.shared := by
    intro j
    rw [h.start j]
    refine ⟨h.coherent,fun a t hp => ?_,fun t hp => ?_⟩ <;> cases hjob : job j <;> rw [hjob] at hp <;>
      simp only [Job.start] at hp <;> (try split at hp) <;> simp at hp
  have hl : Kept sec fil job env c i (.look .first) := ⟨hlone _,h.seen i⟩
  rw [h.start i]
  cases hjob : job i with
  | get => exact hl
  | update id data => exact hl
  | delete id => exact hl
  | save data =>
    simp only [Job.start]
    split
    · trivial
    · exact hl

/-- Two calls on different IDs of one file, in any order of their steps: when both have answered, the
file holds what both have written, if no update has written over what it had not read. -/
theorem updates_kept (hj : ∀ i, (job i).Edits)
    (hdis : ∀ k ∈ (job false).ids (env false), k ∉ (job true).ids (env true)) {c d : Pair} {is : List Bool}
    (h₀ : Beginning sec fil job c)
    (h : System.Run ((calls pcre sec fil job env).turns (Beginning sec fil job) (Timely job)) c is d)
    (hd : ∀ i, d.point i = .done (some .ok)) (i : Bool) :
    (job i).Effect (env i) (entries sec fil d.shared) := by
  have hdis' : ∀ i, ∀ k ∈ (job i).ids (env i), k ∉ (job !i).ids (env !i) := by
    intro i k hk
    cases i with
    | false => exact hdis k hk
    | true => exact fun hh => hdis k hh hk
  have hstep : ∀ t l u, Writing sec fil job env t →
      ((calls pcre sec fil job env).turns (Beginning sec fil job) (Timely job)).step t l u →
        Writing sec fil job env u := fun _ _ _ hi hs => hi.step pcre hj hdis' hs.1 hs.2
  have hw := h.invariant hstep h₀.writing
  have hk := hw.kept i
  rw [hd i] at hk
  exact hk

def twoPorts : World := World.ofFiles [("network","eth.cfg","ID=eth0\nSTAT=0\nID=eth1\nSTAT=0\n")]

def statOn : Params := OrdMap.empty.setAll [("STAT","1")]

/-- Two calls at noon that are about to begin on it. -/
def portsStart (job : Bool → Job) : Pair := ⟨twoPorts,fun i => (job i).start,0,fun _ => 0⟩

theorem portsStart_beginning (job : Bool → Job) : Beginning "network" "eth.cfg" job (portsStart job) := by
  have hc : fileArrayGet twoPorts (objName "network" "eth.cfg") = ∅ := by decide
  have hp : Plain (text "network" "eth.cfg" twoPorts) := by decide
  have he : LineEnded (text "network" "eth.cfg" twoPorts) := by decide
  exact ⟨Or.inl hc,hp,he,fun _ => rfl,fun _ => le_rfl⟩

def portCalls (job : Bool → Job) : Processes World Point Bool :=
  calls Pcre.plain "network" "eth.cfg" job fun _ => noonEnv

def upAndNew : Bool → Job
  | false => .update "eth0" statOn
  | true => .save (OrdMap.empty.setAll [("ID","eth2"),("STAT","1")])

/-- Both read the file before either of them has written it. -/
def bothReadFirst : List Bool :=
  [false,false,false,false,true,true,true,true,false,false,false,false,true,true]

theorem updates_kept_ports :
    (upAndNew false).Effect noonEnv (entries "network" "eth.cfg"
      ((portCalls upAndNew).endOf (Timely upAndNew) (portsStart upAndNew) bothReadFirst).shared) ∧
    (upAndNew true).Effect noonEnv (entries "network" "eth.cfg"
      ((portCalls upAndNew).endOf (Timely upAndNew) (portsStart upAndNew) bothReadFirst).shared) := by
  have hj : ∀ i, (upAndNew i).Edits := by
    intro i
    cases i with
    | false => exact fun x hx => Or.inr (by revert x; decide)
    | true => exact ⟨by decide,by decide⟩
  have hk : ∀ i, (upAndNew i).Effect noonEnv (entries "network" "eth.cfg"
      ((portCalls upAndNew).endOf (Timely upAndNew) (portsStart upAndNew) bothReadFirst).shared) := fun i =>
    updates_kept Pcre.plain hj (by decide) (portsStart_beginning _)
      (run_endOf (by decide)) (by decide) i
  exact ⟨hk false,hk true⟩

def bothUp : Bool → Job
  | false => .update "eth0" statOn
  | true => .update "eth1" statOn

/-- Nothing keeps an update from writing over what it has not read. -/
theorem updates_lost : ¬ ∀ (c d : Pair) (is : List Bool), Beginning "network" "eth.cfg" bothUp c →
    System.Run ((portCalls bothUp).turns (Beginning "network" "eth.cfg" bothUp) fun _ _ => True) c is d →
    (∀ i, d.point i = .done (some .ok)) →
    ∀ i, (bothUp i).Effect noonEnv (entries "network" "eth.cfg" d.shared) := by
  intro h
  have hr : System.Run ((portCalls bothUp).turns (Beginning "network" "eth.cfg" bothUp) fun _ _ => True)
      (portsStart bothUp) bothReadFirst
      ((portCalls bothUp).endOf (fun _ _ => True) (portsStart bothUp) bothReadFirst) :=
    run_endOf (by decide)
  have he := h _ _ _ (portsStart_beginning _) hr (by decide) false ("STAT","1") (by decide) (by decide)
  revert he
  decide

end Registry
end Mybox
