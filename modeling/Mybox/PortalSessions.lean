import Mybox.PortalNames

/-! One session for each user of the captive portal. -/
namespace Mybox
namespace Portal
open Php

variable {ρ : Type} [DecidableEq ρ] (g : Setting ρ)

/-- All session files of a user belong to one address and hardware address. -/
def OneSession (files : OrdMap Str Session) : Prop :=
  ∀ f s f' s', files.get? f = some s → files.get? f' = some s' → s.name = s'.name → lower f = lower f'

def Fewer (files files' : OrdMap Str Session) : Prop := ∀ f s, files'.get? f = some s → files.get? f = some s

theorem Fewer.refl (files : OrdMap Str Session) : Fewer files files := fun _ _ => id

theorem Fewer.trans {a b c : OrdMap Str Session} (h : Fewer a b) (hh : Fewer b c) : Fewer a c :=
  fun f s hs => h f s (hh f s hs)

theorem fewer_erase (files : OrdMap Str Session) (f : Str) : Fewer files (files.erase f) := by
  intro j s h
  rw [OrdMap.get?_erase] at h
  split at h
  · cases h
  · exact h

theorem OneSession.fewer {files files' : OrdMap Str Session} (h : OneSession files) (hf : Fewer files files') :
    OneSession files' := fun f s f' s' hs hs' hn => h f s f' s' (hf f s hs) (hf f' s' hs') hn

@[simp] theorem doAccess_files (ip mac : Str) (opt : Access) (w : World ρ) :
    (doAccess g ip mac opt w).2.files = w.files := by
  unfold doAccess
  cases g.rule ip mac <;> cases opt <;> rfl

theorem doAccess_fst (ip mac : Str) (w : World ρ) : (doAccess g ip mac .A w).1 = (g.rule ip mac).isSome := by
  unfold doAccess
  cases g.rule ip mac <;> rfl

omit [DecidableEq ρ] in
@[simp] theorem unlink_files (f : Str) (w : World ρ) : (unlink f w).files = w.files.erase f := rfl

theorem sweep_fewer (t : ℚ) (w : World ρ) : Fewer w.files (sweep g t w).files := by
  have key : ∀ (es : List Entry) (v : World ρ), Fewer v.files (es.foldl (fun w e =>
      if expired w.files t e.file = true then unlink e.file (doAccess g e.ip e.mac .D w).2 else w) v).files := by
    intro es
    induction es with
    | nil => exact fun v => .refl _
    | cons e es ih =>
      intro v
      rw [List.foldl_cons]
      split
      · refine Fewer.trans ?_ (ih _)
        rw [unlink_files,doAccess_files]
        exact fewer_erase _ _
      · exact ih v
  exact key _ w

omit [DecidableEq ρ] in
theorem reloadLoop_fewer (t : ℚ) (es : List Entry) (r : OrdMap Str Session × List (Option ρ)) :
    Fewer r.1 (reloadLoop g t es r).1 := by
  induction es generalizing r with
  | nil => exact .refl _
  | cons e es ih =>
    unfold reloadLoop
    split
    · exact (fewer_erase _ _).trans (ih _)
    · exact ih _

omit [DecidableEq ρ] in
theorem doPolicyCaptive_fewer (t : ℚ) (w : World ρ) : Fewer w.files (doPolicyCaptive g t w).files := by
  unfold doPolicyCaptive
  split
  · exact reloadLoop_fewer g t (entries w.files) (w.files,[])
  · exact .refl _

theorem logout_fewer (q : Request) (w : World ρ) : Fewer w.files (logout g q w).files := by
  unfold logout
  split
  · rw [unlink_files,doAccess_files]
    exact fewer_erase _ _
  · exact .refl _

theorem displace_files (q : Request) (w : World ρ) : (displace g q w).files =
    match q.displaced w.files with
    | none => w.files
    | some e => w.files.erase (fileName e.ip e.mac) := by
  unfold displace
  cases q.displaced w.files with
  | none => rfl
  | some e => rw [unlink_files,doAccess_files]

theorem grant_files (t : ℚ) (ip mac name : Str) (w : World ρ) : (grant g t ip mac name w).files =
    if (g.rule ip mac).isSome = true then w.files.set (fileName ip mac) ⟨t + 60*htimeout g,name,t⟩ else w.files := by
  unfold grant
  dsimp only
  split
  · rename_i v h
    have hs : (doAccess g ip mac .A (doAccess g ip mac .D w).2).1 = true := by rw [h]
    have hv : (doAccess g ip mac .A (doAccess g ip mac .D w).2).2 = v := by rw [h]
    rw [doAccess_fst] at hs
    rw [if_pos hs,← hv]
    simp
  · rename_i v h
    have hs : (doAccess g ip mac .A (doAccess g ip mac .D w).2).1 = false := by rw [h]
    have hv : (doAccess g ip mac .A (doAccess g ip mac .D w).2).2 = v := by rw [h]
    rw [doAccess_fst] at hs
    rw [if_neg (by rw [hs]; simp),← hv]
    simp

theorem wants_one {q : Request} (h : q.wants 1 = true) : q.wants 2 = false := by
  unfold Request.wants at h ⊢
  cases hj : q.justLogin with
  | none => rfl
  | some s =>
    rw [hj] at h
    simp only [Option.any_some,Bool.and_eq_true,decide_eq_true_eq] at h
    have hs : ¬ toNumber s = 2 := by
      rw [h.1.1]
      decide
    rw [Option.any_some,decide_eq_false hs]
    rfl

/-- A login that is neither refused nor for somebody else. -/
def Request.opens (q : Request) (t : ℚ) (files : OrdMap Str Session) : Bool :=
  q.complete t && q.wants 1 && !q.refused files && q.own

def Request.leaves (q : Request) (t : ℚ) : Bool := q.complete t && q.wants 2 && q.own

theorem page_opens {t : ℚ} {q : Request} {w : World ρ} (h : q.opens t w.files = true) (found : World ρ → World ρ) :
    page g (enter g q found) t q w = found (displace g q w) := by
  simp only [Request.opens,Bool.and_eq_true,Bool.not_eq_true'] at h
  obtain ⟨⟨⟨hc,h1⟩,hr⟩,ho⟩ := h
  rw [page,if_pos hc,if_pos h1,if_neg (by rw [wants_one h1]; simp),enter,if_neg (by rw [hr]; simp),if_pos ho]

/-- A request that does not open a session is a logout, or nothing. -/
theorem page_not_opens {t : ℚ} {q : Request} {w : World ρ} (h : q.opens t w.files = false) (found : World ρ → World ρ) :
    page g (enter g q found) t q w = if q.leaves t = true then logout g q w else w := by
  unfold page Request.leaves
  by_cases hc : q.complete t = true
  · rw [if_pos hc,hc,Bool.true_and]
    dsimp only
    by_cases h1 : q.wants 1 = true
    · have he : enter g q found w = w := by
        unfold enter
        split
        · rfl
        · rename_i hr
          split
          · rename_i ho
            rw [Request.opens,hc,h1,ho,Bool.eq_false_iff.mpr hr] at h
            cases h
          · rfl
      simp [h1,wants_one h1,he]
    · rw [if_neg h1]
      by_cases h2 : q.wants 2 = true
      · rw [if_pos h2,h2,Bool.true_and]
        by_cases ho : q.own = true
        · rw [if_pos ho]
        · rw [if_neg ho,logout,if_neg ho]
      · rw [if_neg h2,Bool.eq_false_iff.mpr h2]
        rfl
  · rw [if_neg hc,Bool.eq_false_iff.mpr hc]
    rfl

theorem serve_opens {t : ℚ} {q : Request} {w : World ρ} (h : q.opens t w.files = true) : serve g t q w =
    match account g q with
    | some name => grant g t (q.myip.getD []) (q.mymac.getD []) name (displace g q w)
    | none => displace g q w := page_opens g h _

theorem serve_not_opens {t : ℚ} {q : Request} {w : World ρ} (h : q.opens t w.files = false) : serve g t q w =
    if q.leaves t = true then logout g q w else w := page_not_opens g h _

def granted (t : ℚ) (q : Request) (files : OrdMap Str Session) : Option Str :=
  if q.opens t files = true ∧ (g.rule (q.myip.getD []) (q.mymac.getD [])).isSome = true then account g q else none

theorem displace_fewer (q : Request) (w : World ρ) : Fewer w.files (displace g q w).files := by
  rw [displace_files]
  split
  · exact .refl _
  · exact fewer_erase _ _

theorem serve_granted {t : ℚ} {q : Request} {w : World ρ} {name : Str} (h : granted g t q w.files = some name) :
    (serve g t q w).files = (displace g q w).files.set (fileName (q.myip.getD []) (q.mymac.getD []))
      ⟨t + 60*htimeout g,name,t⟩ := by
  unfold granted at h
  split at h
  · rename_i ho
    rw [serve_opens g ho.1,h,grant_files,if_pos ho.2]
  · cases h

theorem serve_fewer {t : ℚ} {q : Request} {w : World ρ} (h : granted g t q w.files = none) :
    Fewer w.files (serve g t q w).files := by
  cases ho : q.opens t w.files with
  | true =>
    rw [serve_opens g ho]
    cases ha : account g q with
    | none => exact displace_fewer g q w
    | some name =>
      have hr : ¬(g.rule (q.myip.getD []) (q.mymac.getD [])).isSome = true := by
        intro hr
        rw [granted,if_pos ⟨ho,hr⟩,ha] at h
        cases h
      dsimp only
      rw [grant_files,if_neg hr]
      exact displace_fewer g q w
  | false =>
    rw [serve_not_opens g ho]
    split
    · exact logout_fewer g q w
    · exact .refl _

/-- The session is the first one listed of the user with another address and another hardware address, and the
request asks for its end. -/
def Ended (q : Request) (files : OrdMap Str Session) (f : Str) : Prop :=
  q.forceLogout.isSome ∧ looseEq (q.forceLogout.getD []) "1" = true ∧ q.username.getD [] ≠ [] ∧
    ∃ before e after, entries files = before ++ e::after ∧ fileName e.ip e.mac = f ∧
      elsewhere files (q.username.getD []) (q.myip.getD []) (q.mymac.getD []) e = true ∧
      ∀ b ∈ before, elsewhere files (q.username.getD []) (q.myip.getD []) (q.mymac.getD []) b = false

/-- Where a request is let in, every session of the account is at the same addresses, or the one that is
ended. -/
def KeepsOne (w : World ρ) : Op → Prop
  | .request t q => ∀ name ∈ granted g t q w.files, ∀ f s, w.files.get? f = some s → s.name = name →
      lower f = lower (fileName (q.myip.getD []) (q.mymac.getD [])) ∨ Ended q w.files f
  | _ => True

theorem displaced_eq_some {q : Request} {files : OrdMap Str Session} {f : Str} :
    (∃ e, q.displaced files = some e ∧ fileName e.ip e.mac = f) ↔ Ended q files f := by
  unfold Request.displaced Ended isLogin
  constructor
  · rintro ⟨e,h,hf⟩
    split at h
    · rename_i hq
      split at h
      · cases h
      · rename_i hu
        obtain ⟨he,before,after,hs,hb⟩ := List.find?_eq_some_iff_append.mp h
        exact ⟨hq.1,hq.2,hu,before,e,after,hs,hf,he,fun b hb' => by simpa using hb b hb'⟩
    · cases h
  · rintro ⟨h1,h2,hu,before,e,after,hs,hf,he,hb⟩
    refine ⟨e,?_,hf⟩
    rw [if_pos ⟨h1,h2⟩,if_neg hu]
    exact List.find?_eq_some_iff_append.mpr ⟨he,before,after,hs,fun b hb' => by simpa using hb b hb'⟩

theorem get?_displace (q : Request) (w : World ρ) (f : Str) (s : Session) :
    (displace g q w).files.get? f = some s ↔ w.files.get? f = some s ∧ ¬Ended q w.files f := by
  rw [displace_files,← displaced_eq_some]
  cases hd : q.displaced w.files with
  | none => simp
  | some e =>
    simp only [Option.some.injEq,exists_eq_left',OrdMap.get?_erase]
    split
    · rename_i hf
      simp [hf]
    · rename_i hf
      simp [hf]

/-- A step keeps the sessions of a user together exactly if it meets the condition. -/
theorem oneSession_run (w : World ρ) (op : Op) (h : OneSession w.files) :
    OneSession (run g w op).files ↔ KeepsOne g w op := by
  cases op with
  | sweep t => exact iff_of_true (h.fewer (sweep_fewer g t w)) trivial
  | reload t => exact iff_of_true (h.fewer (doPolicyCaptive_fewer g t w)) trivial
  | request t q =>
    change OneSession (serve g t q w).files ↔ _
    cases ha : granted g t q w.files with
    | none =>
      refine iff_of_true (h.fewer (serve_fewer g ha)) fun name hn => ?_
      rw [ha] at hn
      cases hn
    | some name =>
      rw [serve_granted g ha]
      let own := fileName (q.myip.getD []) (q.mymac.getD [])
      constructor
      · intro ho name' hn f s hs hname
        obtain rfl : name = name' := by
          rw [ha] at hn
          exact Option.some.inj hn
        by_cases he : Ended q w.files f
        · exact Or.inr he
        · by_cases hf : own = f
          · exact Or.inl (hf ▸ rfl)
          · refine Or.inl (ho f s own ⟨t + 60*htimeout g,name,t⟩ ?_ (OrdMap.get?_set_self ..) hname)
            rw [OrdMap.get?_set_ne _ _ hf,get?_displace]
            exact ⟨hs,he⟩
      · intro hk
        have hown : ∀ f s, ((displace g q w).files.set own ⟨t + 60*htimeout g,name,t⟩).get? f = some s →
            s.name = name → lower f = lower own := by
          intro f s hs hn
          rw [OrdMap.get?_set] at hs
          split at hs
          · rename_i hf
            rw [hf]
          · obtain ⟨hs,he⟩ := (get?_displace g q w f s).mp hs
            exact (hk name ha f s hs hn).resolve_right he
        intro f s f' s' hs hs' hn
        by_cases hname : s.name = name
        · rw [hown f s hs hname,hown f' s' hs' (hn ▸ hname)]
        · have hold : ∀ f s, ((displace g q w).files.set own ⟨t + 60*htimeout g,name,t⟩).get? f = some s →
              s.name ≠ name → w.files.get? f = some s := by
            intro f s hs hn
            rw [OrdMap.get?_set] at hs
            split at hs
            · cases hs
              exact absurd rfl hn
            · exact ((get?_displace g q w f s).mp hs).1
          exact h f s f' s' (hold f s hs hname) (hold f' s' hs' (hn ▸ hname)) hn

/-- The sessions of every user belong together all along a run exactly if each request that is let in finds them
so, or ends the other one. -/
theorem oneSession_iff {w : World ρ} (h : OneSession w.files) (ops : List Op) :
    (∀ before after, ops = before ++ after → OneSession (before.foldl (run g) w).files) ↔
      ∀ before op after, ops = before ++ op::after → KeepsOne g (before.foldl (run g) w) op :=
  System.prefixes_iff (J := fun _ => True) (I := fun w => OneSession w.files) (fun _ _ _ => trivial)
    (fun v op _ _ hv => oneSession_run g v op hv) trivial h

theorem mem_keys {files : OrdMap Str Session} {f : Str} : f ∈ files.keys ↔ files.get? f ≠ none := by
  rw [Ne,OrdMap.get?_eq_none,not_not]

/-- The same user logs in at another place, and asks for the end of the session he has. -/
def moved : List Op :=
  [.request 1000 (form "1" "10.0.0.5" "AA:BB:CC:DD:EE:01" none),
    .request 1060 (form "1" "10.0.0.6" "AA:BB:CC:DD:EE:02" (some "1"))]

def renewed : List Op :=
  [.request 1000 (form "1" "10.0.0.5" "AA:BB:CC:DD:EE:01" none),
    .request 1060 (form "1" "10.0.0.6" "AA:BB:CC:DD:EE:01" none)]

theorem closed_one : OneSession closed.files := fun f s f' s' hs => by cases hs

theorem oneSession_iff_moved : OneSession (moved.foldl (run office) closed).files := by
  have hk : ∀ before op after, moved = before ++ op::after → KeepsOne office (before.foldl (run office) closed) op := by
    refine System.forall_splits_cons.mpr ⟨?_,System.forall_splits_cons.mpr ⟨?_,System.forall_splits_nil⟩⟩
    · exact fun name _ f s hs => by cases hs
    · intro name _ f s hs _
      have hk : ([Op.request 1000 (form "1" "10.0.0.5" "AA:BB:CC:DD:EE:01" none)].foldl (run office) closed).files.keys =
          [fileName "10.0.0.5" "AA:BB:CC:DD:EE:01"] := by decide +kernel
      have hf : f ∈ ([Op.request 1000 (form "1" "10.0.0.5" "AA:BB:CC:DD:EE:01" none)].foldl (run office) closed).files.keys :=
        mem_keys.mpr (by rw [hs]; simp)
      rw [hk,List.mem_singleton] at hf
      refine Or.inr (displaced_eq_some.mp ⟨⟨f,"10.0.0.5","AA:BB:CC:DD:EE:01"⟩,?_,hf.symm⟩)
      rw [hf]
      decide +kernel
  exact (oneSession_iff office closed_one moved).mpr hk moved [] rfl

theorem two_sessions : ¬ ∀ ops : List Op, ∀ before after, ops = before ++ after →
    OneSession (before.foldl (run office) closed).files := by
  intro h
  have ho := h renewed renewed [] rfl
  have hs : ∀ f : Str, ((renewed.foldl (run office) closed).files.get? f).isSome → ∃ s,
      (renewed.foldl (run office) closed).files.get? f = some s := fun f => Option.isSome_iff_exists.mp
  have hall : ((renewed.foldl (run office) closed).files.get? (fileName "10.0.0.5" "AA:BB:CC:DD:EE:01")).isSome ∧
      ((renewed.foldl (run office) closed).files.get? (fileName "10.0.0.6" "AA:BB:CC:DD:EE:01")).isSome ∧
      ((renewed.foldl (run office) closed).files.get? (fileName "10.0.0.5" "AA:BB:CC:DD:EE:01")).map Session.name =
        ((renewed.foldl (run office) closed).files.get? (fileName "10.0.0.6" "AA:BB:CC:DD:EE:01")).map Session.name := by
    decide +kernel
  obtain ⟨h₁,h₂,hn⟩ := hall
  obtain ⟨s,hs₁⟩ := hs _ h₁
  obtain ⟨s',hs₂⟩ := hs _ h₂
  rw [hs₁,hs₂] at hn
  have hl := ho _ s _ s' hs₁ hs₂ (Option.some.inj hn)
  revert hl
  decide

end Portal
end Mybox
