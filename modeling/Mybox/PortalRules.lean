import Mybox.Mirror
import Mybox.PortalSessions

/-! The accept rules of the captive portal and the session files: the rules mirror the files as long as no session
ends while a file that stays spells the same addresses another way. -/
namespace Mybox
namespace Portal
open Php

variable {ρ : Type} [DecidableEq ρ] (g : Setting ρ)

/-- `iptables` takes nothing but an address and a hardware address. -/
def Reads (g : Setting ρ) : Prop := ∀ ip mac r, g.rule ip mac = some r → Address ip ∧ Hardware mac

def ruleOf (f : Str) : Option ρ := (nameParts f).bind fun p => g.rule p.1 p.2

/-- The accept rules are those of the session files, each of them once. -/
def Mirrored (w : World ρ) : Prop := Mirrors (ruleOf g) (· ∈ w.files.keys) w.chain

/-- Every session file is named by addresses that `iptables` has taken. -/
def Named (files : OrdMap Str Session) : Prop :=
  ∀ f ∈ files.keys, ∃ ip mac, f = fileName ip mac ∧ (g.rule ip mac).isSome

variable {g} (hg : Reads g)

include hg in
omit [DecidableEq ρ] in
theorem ruleOf_fileName {ip mac : Str} (h : (g.rule ip mac).isSome) : ruleOf g (fileName ip mac) = g.rule ip mac := by
  obtain ⟨r,hr⟩ := Option.isSome_iff_exists.mp h
  obtain ⟨hi,hm⟩ := hg ip mac r hr
  rw [ruleOf,nameParts_fileName hi hm]
  rfl

include hg in
omit [DecidableEq ρ] in
/-- The loops find every session file, with the addresses it is named by. -/
theorem entries_eq {files : OrdMap Str Session} (hn : Named g files) :
    (entries files).map Entry.file = (files.sortKeys nameLe).keys ∧
    ∀ e ∈ entries files, e.file = fileName e.ip e.mac ∧ (g.rule e.ip e.mac).isSome := by
  have hk : ∀ f ∈ (files.sortKeys nameLe).keys, f ∈ files.keys := by
    intro f hf
    rwa [OrdMap.keys_sortKeys,List.mem_insertionSort] at hf
  have key : ∀ fs : List Str, (∀ f ∈ fs, f ∈ files.keys) →
      ((fs.filter listed).filterMap fun n => (nameParts (pathTrim n)).map fun p =>
        (⟨pathTrim n,p.1,p.2⟩ : Entry)).map Entry.file = fs ∧
      ∀ e ∈ (fs.filter listed).filterMap fun n => (nameParts (pathTrim n)).map fun p =>
        (⟨pathTrim n,p.1,p.2⟩ : Entry), e.file = fileName e.ip e.mac ∧ (g.rule e.ip e.mac).isSome := by
    intro fs
    induction fs with
    | nil => exact fun _ => ⟨rfl,fun e he => by cases he⟩
    | cons f fs ih =>
      intro hf
      obtain ⟨ip,mac,rfl,hr⟩ := hn f (hf f (by simp))
      obtain ⟨r,hrr⟩ := Option.isSome_iff_exists.mp hr
      obtain ⟨hi,hm⟩ := hg ip mac r hrr
      obtain ⟨ih₁,ih₂⟩ := ih fun f h => hf f (List.mem_cons_of_mem _ h)
      rw [List.filter_cons_of_pos (listed_fileName hi hm),List.filterMap_cons,pathTrim_fileName hm,
        nameParts_fileName hi hm]
      refine ⟨congrArg (List.cons _) ih₁,fun e he => ?_⟩
      rcases List.mem_cons.mp he with rfl | he
      · exact ⟨rfl,hr⟩
      · exact ih₂ e he
  exact key _ hk

include hg in
omit [DecidableEq ρ] in
theorem entries_nodup {files : OrdMap Str Session} (hn : Named g files) : ((entries files).map Entry.file).Nodup := by
  rw [(entries_eq hg hn).1]
  exact (files.sortKeys nameLe).nodup

include hg in
omit [DecidableEq ρ] in
theorem mem_entries_file {files : OrdMap Str Session} (hn : Named g files) (f : Str) :
    f ∈ (entries files).map Entry.file ↔ f ∈ files.keys := by
  rw [(entries_eq hg hn).1,OrdMap.keys_sortKeys,List.mem_insertionSort]

include hg in
omit [DecidableEq ρ] in
theorem ruleOf_entry {files : OrdMap Str Session} (hn : Named g files) {e : Entry} (he : e ∈ entries files) :
    ruleOf g e.file = g.rule e.ip e.mac := by
  obtain ⟨hf,hr⟩ := (entries_eq hg hn).2 e he
  rw [hf,ruleOf_fileName hg hr]

theorem doAccess_D_chain (ip mac : Str) {w : World ρ} (h : w.chain.Nodup) :
    (doAccess g ip mac .D w).2.chain.Nodup ∧
    ∀ r, r ∈ (doAccess g ip mac .D w).2.chain ↔ r ∈ w.chain ∧ g.rule ip mac ≠ some r := by
  unfold doAccess
  cases hr : g.rule ip mac with
  | none => simpa using h
  | some x =>
    refine ⟨h.erase x,fun r => ?_⟩
    change r ∈ w.chain.erase x ↔ _
    rw [h.mem_erase_iff,and_comm,ne_comm]
    simp

theorem doAccess_A_chain {ip mac : Str} {x : ρ} (hx : g.rule ip mac = some x) (w : World ρ) :
    (doAccess g ip mac .A w).2.chain = w.chain ++ [x] := by
  unfold doAccess
  rw [hx]

omit [DecidableEq ρ] in
theorem Named.fewer {files files' : OrdMap Str Session} (h : Named g files) (hf : Fewer files files') :
    Named g files' := by
  intro f hk
  obtain ⟨s,hs⟩ := Option.ne_none_iff_exists'.mp (mem_keys.mp hk)
  exact h f (mem_keys.mpr (by rw [hf f s hs]; simp))

def swept (t : ℚ) (es : List Entry) (files : OrdMap Str Session) : OrdMap Str Session :=
  es.foldl (fun files e => if expired files t e.file = true then files.erase e.file else files) files

theorem expired_erase {files : OrdMap Str Session} {f f' : Str} (h : f' ≠ f) (t : ℚ) :
    expired (files.erase f) t f' = expired files t f' := by
  unfold expired
  rw [OrdMap.get?_erase,if_neg (Ne.symm h)]

theorem get?_swept (t : ℚ) (es : List Entry) (files : OrdMap Str Session) (f : Str) : (swept t es files).get? f =
    if f ∈ es.map Entry.file ∧ expired files t f = true then none else files.get? f := by
  induction es generalizing files with
  | nil => simp [swept]
  | cons e es ih =>
    rw [swept,List.foldl_cons]
    change (swept t es _).get? f = _
    rw [ih]
    by_cases hf : f = e.file
    · subst hf
      by_cases he : expired files t e.file = true
      · simp [he,OrdMap.get?_erase]
      · simp [he]
    · split
      · rw [expired_erase hf,OrdMap.get?_erase,if_neg (Ne.symm hf)]
        simp [hf]
      · simp [hf]

theorem mem_keys_swept {t : ℚ} {es : List Entry} {files : OrdMap Str Session} {f : Str} :
    f ∈ (swept t es files).keys ↔ f ∈ files.keys ∧ ¬(f ∈ es.map Entry.file ∧ expired files t f = true) := by
  rw [mem_keys,mem_keys,get?_swept]
  split
  · rename_i h
    simp [h]
  · rename_i h
    simp only [ne_eq,h,not_false_eq_true,and_true]

/-- The loop of the sweep takes away the files that have run out and the rules for their addresses. -/
theorem sweepLoop_spec (t : ℚ) (es : List Entry) (v : World ρ) (hd : v.chain.Nodup) (hn : (es.map Entry.file).Nodup) :
    let v' := es.foldl (fun w e => if expired w.files t e.file = true then
      unlink e.file (doAccess g e.ip e.mac .D w).2 else w) v
    v'.files = swept t es v.files ∧ v'.chain.Nodup ∧ ∀ r, r ∈ v'.chain ↔
      r ∈ v.chain ∧ ¬∃ e ∈ es, expired v.files t e.file = true ∧ g.rule e.ip e.mac = some r := by
  induction es generalizing v with
  | nil => exact ⟨rfl,hd,by simp⟩
  | cons e es ih =>
    obtain ⟨hne,hn⟩ := List.nodup_cons.mp hn
    have hfile : ∀ e' ∈ es, e'.file ≠ e.file := fun e' he' hf => hne (hf ▸ List.mem_map_of_mem he')
    simp only [List.foldl_cons]
    by_cases he : expired v.files t e.file = true
    · obtain ⟨hcd,hcm⟩ := doAccess_D_chain (g := g) e.ip e.mac hd
      obtain ⟨h₁,h₂,h₃⟩ := ih (unlink e.file (doAccess g e.ip e.mac .D v).2) hcd hn
      rw [if_pos he]
      refine ⟨?_,h₂,fun r => ?_⟩
      · rw [h₁,unlink_files,doAccess_files,swept,swept,List.foldl_cons,if_pos he]
      · rw [h₃]
        change (r ∈ (doAccess g e.ip e.mac .D v).2.chain ∧ _) ↔ _
        rw [hcm,unlink_files,doAccess_files]
        have hex : ∀ e' ∈ es, expired (v.files.erase e.file) t e'.file = expired v.files t e'.file :=
          fun e' he' => expired_erase (hfile e' he') t
        constructor
        · rintro ⟨⟨hr,hne⟩,hno⟩
          refine ⟨hr,?_⟩
          rintro ⟨e',he',hx,hrule⟩
          rcases List.mem_cons.mp he' with rfl | he'
          · exact hne hrule
          · exact hno ⟨e',he',by rw [hex e' he']; exact hx,hrule⟩
        · rintro ⟨hr,hno⟩
          refine ⟨⟨hr,fun hrule => hno ⟨e,by simp,he,hrule⟩⟩,?_⟩
          rintro ⟨e',he',hx,hrule⟩
          exact hno ⟨e',List.mem_cons_of_mem _ he',by rw [← hex e' he']; exact hx,hrule⟩
    · obtain ⟨h₁,h₂,h₃⟩ := ih v hd hn
      rw [if_neg he]
      refine ⟨?_,h₂,fun r => ?_⟩
      · rw [h₁,swept,swept,List.foldl_cons,if_neg he]
      · rw [h₃]
        simp [he]

omit [DecidableEq ρ] in
theorem reloadLoop_spec (t : ℚ) (es : List Entry) (files : OrdMap Str Session) (rules : List (Option ρ))
    (hn : (es.map Entry.file).Nodup) : reloadLoop g t es (files,rules) = (swept t es files,
      rules ++ (es.filter fun e => !expired files t e.file).map fun e => g.rule e.ip e.mac) := by
  induction es generalizing files rules with
  | nil => simp [reloadLoop,swept]
  | cons e es ih =>
    obtain ⟨hne,hn⟩ := List.nodup_cons.mp hn
    have hfile : ∀ e' ∈ es, e'.file ≠ e.file := fun e' he' hf => hne (hf ▸ List.mem_map_of_mem he')
    rw [reloadLoop]
    by_cases he : expired files t e.file = true
    · rw [if_pos he,ih _ _ hn]
      have hf : (es.filter fun e' => !expired (files.erase e.file) t e'.file) = es.filter fun e' => !expired files t e'.file :=
        List.filter_congr fun e' he' => by rw [expired_erase (hfile e' he')]
      rw [hf,swept,swept,List.foldl_cons,if_pos he,List.filter_cons_of_neg (by simp [he])]
    · rw [if_neg he,ih _ _ hn,swept,swept,List.foldl_cons,if_neg he,List.filter_cons_of_pos (by simp [he])]
      simp

theorem Named.run {w : World ρ} (hn : Named g w.files) (op : Op) : Named g (Portal.run g w op).files := by
  cases op with
  | sweep t => exact hn.fewer (sweep_fewer g t w)
  | reload t => exact hn.fewer (doPolicyCaptive_fewer g t w)
  | request t q =>
    change Named g (serve g t q w).files
    cases ha : granted g t q w.files with
    | none => exact hn.fewer (serve_fewer g ha)
    | some name =>
      have hr : (g.rule (q.myip.getD []) (q.mymac.getD [])).isSome = true := by
        unfold granted at ha
        split at ha
        · rename_i h
          exact h.2
        · cases ha
      rw [serve_granted g ha]
      intro f hf
      rw [mem_keys,OrdMap.get?_set] at hf
      split at hf
      · rename_i he
        exact ⟨_,_,he.symm,hr⟩
      · exact (hn.fewer (displace_fewer g q w)) f (mem_keys.mpr hf)

/-- The rule for the session a login puts an end to. -/
def EndedRule (q : Request) (files : OrdMap Str Session) (r : ρ) : Prop := ∃ f, Ended q files f ∧ ruleOf g f = some r

include hg in
theorem displace_spec (q : Request) {w : World ρ} (hn : Named g w.files) (hd : w.chain.Nodup) :
    (displace g q w).chain.Nodup ∧
    (∀ r, r ∈ (displace g q w).chain ↔ r ∈ w.chain ∧ ¬EndedRule (g := g) q w.files r) ∧
    ∀ f, f ∈ (displace g q w).files.keys ↔ f ∈ w.files.keys ∧ ¬Ended q w.files f := by
  have hk : ∀ f, f ∈ (displace g q w).files.keys ↔ f ∈ w.files.keys ∧ ¬Ended q w.files f := by
    intro f
    rw [mem_keys,mem_keys,Option.ne_none_iff_exists',Option.ne_none_iff_exists']
    simp only [get?_displace,exists_and_right]
  cases hq : q.displaced w.files with
  | none =>
    have he : ∀ f, ¬Ended q w.files f := fun f hf => by
      obtain ⟨e,he,-⟩ := displaced_eq_some.mpr hf
      rw [hq] at he
      cases he
    have hw : displace g q w = w := by rw [displace,hq]
    rw [hw] at hk ⊢
    exact ⟨hd,fun r => (and_iff_left fun ⟨f,hf,_⟩ => he f hf).symm,hk⟩
  | some e =>
    have hein : e ∈ entries w.files := by
      unfold Request.displaced isLogin at hq
      split at hq
      · split at hq
        · cases hq
        · exact List.mem_of_find?_eq_some hq
      · cases hq
    have hrule : ruleOf g (fileName e.ip e.mac) = g.rule e.ip e.mac := by
      rw [← ((entries_eq hg hn).2 e hein).1]
      exact ruleOf_entry hg hn hein
    have he : ∀ r, EndedRule (g := g) q w.files r ↔ g.rule e.ip e.mac = some r := by
      intro r
      rw [← hrule]
      constructor
      · rintro ⟨f,hf,hr⟩
        obtain ⟨e',he',rfl⟩ := displaced_eq_some.mpr hf
        rw [hq] at he'
        cases he'
        exact hr
      · exact fun hr => ⟨_,displaced_eq_some.mp ⟨e,hq,rfl⟩,hr⟩
    have hw : displace g q w = unlink (fileName e.ip e.mac) (doAccess g e.ip e.mac .D w).2 := by rw [displace,hq]
    obtain ⟨hcd,hcm⟩ := doAccess_D_chain (g := g) e.ip e.mac hd
    rw [hw] at hk ⊢
    refine ⟨hcd,fun r => ?_,hk⟩
    rw [he]
    exact hcm r

theorem grant_chain (t : ℚ) {ip mac : Str} {x : ρ} (hx : g.rule ip mac = some x) (name : Str) {w : World ρ}
    (hd : w.chain.Nodup) : (grant g t ip mac name w).chain.Nodup ∧
    ∀ r, r ∈ (grant g t ip mac name w).chain ↔ r = x ∨ r ∈ w.chain := by
  obtain ⟨hcd,hcm⟩ := doAccess_D_chain (g := g) ip mac hd
  have hc : (grant g t ip mac name w).chain = (doAccess g ip mac .D w).2.chain ++ [x] := by
    rw [← doAccess_A_chain hx]
    unfold grant
    dsimp only
    split
    · rename_i v h
      rw [h]
    · rename_i v h
      rw [h]
  rw [hc]
  constructor
  · refine List.nodup_append.mpr ⟨hcd,by simp,?_⟩
    rintro a ha b hb rfl
    rw [List.mem_singleton] at hb
    exact ((hcm a).mp ha).2 (hb ▸ hx)
  · intro r
    rw [List.mem_append,List.mem_singleton,hcm,hx,or_comm]
    by_cases hr : r = x
    · simp [hr]
    · simp [hr,Ne.symm hr]

variable (g)

/-- The addresses of a request that gets as far as the firewall are such as `iptables` takes. -/
def Succeeds : Op → Prop
  | .request t q => q.complete t = true → q.own = true → q.wants 1 = true ∨ q.wants 2 = true →
      (g.rule (q.myip.getD []) (q.mymac.getD [])).isSome = true
  | _ => True

/-- When a session ends, no other session file that stays spells the same addresses, unless they are let in again;
and when the rules are written anew, no two files do. -/
def KeepsMirror (w : World ρ) : Op → Prop
  | .request t q =>
    if q.opens t w.files = true then
      ∀ f ∈ w.files.keys, ¬Ended q w.files f → ∀ r, ruleOf g f = some r → EndedRule (g := g) q w.files r →
        (granted g t q w.files).isSome = true ∧ g.rule (q.myip.getD []) (q.mymac.getD []) = some r
    else q.leaves t = true → ∀ f ∈ w.files.keys, f ≠ fileName (q.myip.getD []) (q.mymac.getD []) →
        ruleOf g f ≠ g.rule (q.myip.getD []) (q.mymac.getD [])
  | .sweep t => ∀ f ∈ w.files.keys, expired w.files t f = false → ∀ f' ∈ w.files.keys, expired w.files t f' = true →
      ruleOf g f ≠ ruleOf g f'
  | .reload t => g.active = true → ∀ f ∈ w.files.keys, expired w.files t f = false → ∀ f' ∈ w.files.keys,
      expired w.files t f' = false → ruleOf g f = ruleOf g f' → f = f'

variable {g}

include hg in
theorem mirrored_serve {t : ℚ} {q : Request} {w : World ρ} (hn : Named g w.files) (hm : Mirrored g w)
    (hs : Succeeds g (.request t q)) :
    Mirrored g (serve g t q w) ↔ KeepsMirror g w (.request t q) := by
  unfold KeepsMirror
  dsimp only
  cases ho : q.opens t w.files with
  | true =>
    rw [if_pos rfl]
    obtain ⟨hcd,hcm,hk⟩ := displace_spec hg q hn hm.nodup
    have hl : ∀ f r, f ∈ w.files.keys → Ended q w.files f → ruleOf g f = some r → EndedRule (g := g) q w.files r :=
      fun f r _ he hr => ⟨f,he,hr⟩
    have hsome : (g.rule (q.myip.getD []) (q.mymac.getD [])).isSome = true := by
      simp only [Request.opens,Bool.and_eq_true] at ho
      exact hs ho.1.1.1 ho.2 (Or.inl ho.1.1.2)
    rw [serve_opens g ho]
    cases ha : account g q with
    | none =>
      have hadm : granted g t q w.files = none := by rw [granted,if_pos ⟨ho,hsome⟩,ha]
      refine (hm.remove_iff hk hl hcd hcm).trans ?_
      rw [hadm]
      constructor
      · exact fun h f hf he r hr hlr => absurd hlr (h f r hf he hr)
      · exact fun h f r hf he hr hlr => absurd (h f hf he r hr hlr).1 (by simp)
    | some name =>
      have hadm : granted g t q w.files = some name := by rw [granted,if_pos ⟨ho,hsome⟩,ha]
      obtain ⟨x,hx⟩ := Option.isSome_iff_exists.mp hsome
      obtain ⟨had,ham⟩ := grant_chain t hx name hcd
      have hown : ruleOf g (fileName (q.myip.getD []) (q.mymac.getD [])) = some x := by
        rw [ruleOf_fileName hg hsome,hx]
      have hkeys : ∀ f, f ∈ (grant g t (q.myip.getD []) (q.mymac.getD []) name (displace g q w)).files.keys ↔
          f = fileName (q.myip.getD []) (q.mymac.getD []) ∨ f ∈ w.files.keys ∧ ¬Ended q w.files f := by
        intro f
        rw [grant_files,if_pos hsome,← hk,mem_keys,OrdMap.get?_set,mem_keys]
        by_cases hf : fileName (q.myip.getD []) (q.mymac.getD []) = f
        · simp [hf]
        · simp [hf,Ne.symm hf]
      refine (hm.replace_iff hown hkeys hl had fun r => (ham r).trans (or_congr_right (hcm r))).trans ?_
      rw [hadm,hx]
      constructor
      · exact fun h f hf he r hr hlr => ⟨rfl,congrArg some (h f r hf he hr hlr).symm⟩
      · exact fun h f r hf he hr hlr => (Option.some.inj (h f hf he r hr hlr).2).symm
  | false =>
    rw [if_neg Bool.false_ne_true,serve_not_opens g ho]
    by_cases hl : q.leaves t = true
    · have hl' := hl
      simp only [Request.leaves,Bool.and_eq_true] at hl'
      obtain ⟨⟨hc,h2⟩,hown⟩ := hl'
      rw [if_pos hl,logout,if_pos hown]
      have hsome := hs hc hown (Or.inr h2)
      obtain ⟨x,hx⟩ := Option.isSome_iff_exists.mp hsome
      obtain ⟨hcd,hcm⟩ := doAccess_D_chain (g := g) (q.myip.getD []) (q.mymac.getD []) hm.nodup
      have hkeys : ∀ f, f ∈ (unlink (fileName (q.myip.getD []) (q.mymac.getD []))
          (doAccess g (q.myip.getD []) (q.mymac.getD []) .D w).2).files.keys ↔
          f ∈ w.files.keys ∧ ¬f = fileName (q.myip.getD []) (q.mymac.getD []) := by
        intro f
        rw [unlink_files,doAccess_files,mem_keys,mem_keys,OrdMap.get?_erase]
        by_cases hf : fileName (q.myip.getD []) (q.mymac.getD []) = f
        · simp [hf]
        · simp [hf,Ne.symm hf]
      have hlost : ∀ f r, f ∈ w.files.keys → f = fileName (q.myip.getD []) (q.mymac.getD []) → ruleOf g f = some r →
          g.rule (q.myip.getD []) (q.mymac.getD []) = some r := by
        rintro f r - rfl hr
        rwa [ruleOf_fileName hg hsome] at hr
      refine (hm.remove_iff hkeys hlost hcd hcm).trans ?_
      rw [hx]
      constructor
      · exact fun h _ f hf hne hr => h f x hf hne hr rfl
      · rintro h f r hf hne hr hxr
        exact h hl f hf hne (hr.trans hxr.symm)
    · rw [if_neg hl]
      exact iff_of_true hm fun h => absurd h hl

include hg in
theorem mirrored_sweep {t : ℚ} {w : World ρ} (hn : Named g w.files) (hm : Mirrored g w) :
    Mirrored g (sweep g t w) ↔ KeepsMirror g w (.sweep t) := by
  obtain ⟨hfiles,hcd,hcm⟩ := sweepLoop_spec (g := g) t (entries w.files) w hm.nodup (entries_nodup hg hn)
  have hkeys : ∀ f, f ∈ (sweep g t w).files.keys ↔ f ∈ w.files.keys ∧ ¬expired w.files t f = true := by
    intro f
    rw [show (sweep g t w).files = swept t (entries w.files) w.files from hfiles,mem_keys_swept,mem_entries_file hg hn]
    constructor
    · exact fun h => ⟨h.1,fun he => h.2 ⟨h.1,he⟩⟩
    · exact fun h => ⟨h.1,fun he => h.2 he.2⟩
  have hlost : ∀ r, (∃ e ∈ entries w.files, expired w.files t e.file = true ∧ g.rule e.ip e.mac = some r) ↔
      ∃ f ∈ w.files.keys, expired w.files t f = true ∧ ruleOf g f = some r := by
    intro r
    constructor
    · rintro ⟨e,he,hx,hr⟩
      exact ⟨e.file,(mem_entries_file hg hn _).mp (List.mem_map_of_mem he),hx,(ruleOf_entry hg hn he).trans hr⟩
    · rintro ⟨f,hf,hx,hr⟩
      obtain ⟨e,he,rfl⟩ := List.mem_map.mp ((mem_entries_file hg hn f).mpr hf)
      exact ⟨e,he,hx,(ruleOf_entry hg hn he).symm.trans hr⟩
  refine (hm.remove_iff hkeys (fun f r hf hx hr => ⟨f,hf,hx,hr⟩) hcd fun r => (hcm r).trans
    (and_congr_right' (not_congr (hlost r)))).trans ?_
  constructor
  · intro h f hf hx f' hf' hx' hr
    obtain ⟨ip,mac,rfl,hsome⟩ := hn f hf
    obtain ⟨r,hrr⟩ := Option.isSome_iff_exists.mp hsome
    rw [ruleOf_fileName hg hsome,hrr] at hr
    exact h _ r hf (by rw [hx]; simp) (by rw [ruleOf_fileName hg hsome,hrr]) ⟨f',hf',hx',hr.symm⟩
  · rintro h f r hf hx hr ⟨f',hf',hx',hr'⟩
    exact h f hf (Bool.eq_false_iff.mpr hx) f' hf' hx' (hr.trans hr'.symm)

omit [DecidableEq ρ] in
include hg in
theorem mirrored_reload {t : ℚ} {w : World ρ} (hn : Named g w.files) (hm : Mirrored g w) :
    Mirrored g (doPolicyCaptive g t w) ↔ KeepsMirror g w (.reload t) := by
  unfold KeepsMirror doPolicyCaptive
  dsimp only
  cases ha : g.active with
  | false => exact iff_of_true hm fun h => by cases h
  | true =>
    rw [if_pos rfl,reloadLoop_spec t _ _ _ (entries_nodup hg hn)]
    let es := (entries w.files).filter fun e => !expired w.files t e.file
    have hes : ∀ e ∈ es, e ∈ entries w.files := fun e he => List.mem_of_mem_filter he
    have hrules : ([] ++ es.map fun e : Entry => g.rule e.ip e.mac) = (es.map Entry.file).map (ruleOf g) := by
      rw [List.nil_append,List.map_map]
      exact List.map_congr_left fun e he => (ruleOf_entry hg hn (hes e he)).symm
    have hall : ([] ++ es.map fun e : Entry => g.rule e.ip e.mac).all Option.isSome = true := by
      rw [List.nil_append,List.all_eq_true]
      intro x hx
      obtain ⟨e,he,rfl⟩ := List.mem_map.mp hx
      exact ((entries_eq hg hn).2 e (hes e he)).2
    have hkeys : ∀ f, f ∈ (swept t (entries w.files) w.files).keys ↔ f ∈ es.map Entry.file := by
      intro f
      rw [mem_keys_swept,mem_entries_file hg hn]
      constructor
      · rintro ⟨hf,hx⟩
        obtain ⟨e,he,rfl⟩ := List.mem_map.mp ((mem_entries_file hg hn f).mpr hf)
        exact List.mem_map_of_mem (List.mem_filter.mpr ⟨he,by simpa [hf] using hx⟩)
      · intro hf
        obtain ⟨e,he,rfl⟩ := List.mem_map.mp hf
        obtain ⟨he,hx⟩ := List.mem_filter.mp he
        exact ⟨(mem_entries_file hg hn _).mp (List.mem_map_of_mem he),by simpa using fun _ => hx⟩
    have hnd : (es.map Entry.file).Nodup :=
      (entries_nodup hg hn).sublist (List.filter_sublist.map _)
    have hmem : ∀ f, f ∈ es.map Entry.file ↔ f ∈ w.files.keys ∧ expired w.files t f = false := by
      intro f
      rw [← hkeys,mem_keys_swept,mem_entries_file hg hn]
      constructor
      · exact fun h => ⟨h.1,Bool.eq_false_iff.mpr fun hx => h.2 ⟨h.1,hx⟩⟩
      · exact fun h => ⟨h.1,fun hx => by rw [h.2] at hx; cases hx.2⟩
    have hreduce : ∀ l : List (Option ρ), l.reduceOption = l.filterMap id := fun _ => rfl
    rw [if_pos hall,hrules,hreduce,List.filterMap_map]
    refine (Mirrors.rebuild_iff hnd hkeys).trans ?_
    constructor
    · intro h _ f hf hx f' hf' hx' hr
      obtain ⟨ip,mac,rfl,hsome⟩ := hn f hf
      obtain ⟨r,hrr⟩ := Option.isSome_iff_exists.mp hsome
      rw [← ruleOf_fileName hg hsome] at hrr
      exact h _ ((hmem _).mpr ⟨hf,hx⟩) f' ((hmem _).mpr ⟨hf',hx'⟩) r hrr (hr ▸ hrr)
    · intro h f hf f' hf' r hr hr'
      obtain ⟨hf,hx⟩ := (hmem f).mp hf
      obtain ⟨hf',hx'⟩ := (hmem f').mp hf'
      exact h rfl f hf hx f' hf' hx' (hr.trans hr'.symm)

include hg in
/-- The accept rules mirror the session files all along a run exactly if no session ends while its addresses are
spelled in another file as well, and no two such files are there when the rules are written anew. -/
theorem mirrored_iff {w : World ρ} (hn : Named g w.files) (hm : Mirrored g w) {ops : List Op}
    (hs : ∀ op ∈ ops, Succeeds g op) :
    (∀ before after, ops = before ++ after → Mirrored g (before.foldl (run g) w)) ↔
      ∀ before op after, ops = before ++ op::after → KeepsMirror g (before.foldl (run g) w) op :=
  System.prefixes_iff (J := fun w => Named g w.files) (I := Mirrored g) (fun _ op hv => hv.run op)
    (fun v op hop hv hm => by
      cases op with
      | request t q => exact mirrored_serve hg hv hm (hs _ hop)
      | sweep t => exact mirrored_sweep hg hv hm
      | reload t => exact mirrored_reload hg hv hm) hn hm

/-- A file that a run has made was made by a request that was let in. -/
theorem made_by_request {w : World ρ} {ops : List Op} {f : Str} (hf : f ∉ w.files.keys)
    (hf' : f ∈ (ops.foldl (run g) w).files.keys) :
    ∃ before t q after name, ops = before ++ .request t q::after ∧
      granted g t q (before.foldl (run g) w).files = some name ∧ f = fileName (q.myip.getD []) (q.mymac.getD []) := by
  induction ops using List.reverseRecOn with
  | nil => exact absurd hf' hf
  | append_singleton ops op ih =>
    rw [List.foldl_append,List.foldl_cons,List.foldl_nil] at hf'
    by_cases ho : f ∈ (ops.foldl (run g) w).files.keys
    · obtain ⟨before,t,q,after,name,rfl,ha,hn⟩ := ih ho
      exact ⟨before,t,q,after ++ [op],name,by simp,ha,hn⟩
    · have hfewer : ¬Fewer (ops.foldl (run g) w).files (run g (ops.foldl (run g) w) op).files := by
        intro h
        obtain ⟨s,hs⟩ := Option.ne_none_iff_exists'.mp (mem_keys.mp hf')
        exact ho (mem_keys.mpr (by rw [h f s hs]; simp))
      cases op with
      | sweep t => exact absurd (sweep_fewer g t _) hfewer
      | reload t => exact absurd (doPolicyCaptive_fewer g t _) hfewer
      | request t q =>
        cases ha : granted g t q (ops.foldl (run g) w).files with
        | none => exact absurd (serve_fewer g ha) hfewer
        | some name =>
          refine ⟨ops,t,q,[],name,rfl,ha,?_⟩
          change f ∈ (serve g t q _).files.keys at hf'
          rw [serve_granted g ha,mem_keys,OrdMap.get?_set] at hf'
          split at hf'
          · rename_i h
            exact h.symm
          · obtain ⟨s,hs⟩ := Option.ne_none_iff_exists'.mp hf'
            have := displace_fewer g q _ f s hs
            exact absurd (mem_keys.mpr (by rw [this]; simp)) ho

/-- What is accepted at the end of a run and was not at its start has been let in on the way: nobody who has
logged out or run out of time is accepted without a new login. -/
theorem accepted_since {w : World ρ} {ops : List Op} (hm : Mirrored g w) (he : Mirrored g (ops.foldl (run g) w)) {r : ρ}
    (hr : r ∉ w.chain) (hr' : r ∈ (ops.foldl (run g) w).chain) :
    ∃ before t q after name, ops = before ++ .request t q::after ∧
      granted g t q (before.foldl (run g) w).files = some name ∧
      ruleOf g (fileName (q.myip.getD []) (q.mymac.getD [])) = some r := by
  obtain ⟨f,hf,hv⟩ := (he.mem r).mp hr'
  have hnew : f ∉ w.files.keys := fun h => hr ((hm.mem r).mpr ⟨f,h,hv⟩)
  obtain ⟨before,t,q,after,name,hops,ha,rfl⟩ := made_by_request hnew hf
  exact ⟨before,t,q,after,name,hops,ha,hv⟩

theorem office_reads : Reads office := by
  intro ip mac r h
  unfold office at h
  dsimp only at h
  split at h
  · rename_i ha
    exact ha
  · cases h

def inAndOut : List Op :=
  [.request 1000 (form "1" "10.0.0.5" "AA:BB:CC:DD:EE:01" none),.request 1060 (form "2" "10.0.0.5" "AA:BB:CC:DD:EE:01" none)]

def respelled : List Op :=
  [.request 1000 (form "1" "10.0.0.5" "AA:BB:CC:DD:EE:01" none),.request 1060 (form "2" "10.0.0.5" "aa:bb:cc:dd:ee:01" none)]

theorem closed_named : Named office closed.files := fun f hf => by cases hf

theorem closed_mirrored : Mirrored office closed := ⟨.nil,fun r => by simp [closed,OrdMap.keys]⟩

theorem mirrored_iff_inAndOut : Mirrored office (inAndOut.foldl (run office) closed) := by
  have hs : ∀ op ∈ inAndOut, Succeeds office op := by
    intro op hop
    simp only [inAndOut,List.mem_cons,List.not_mem_nil,or_false] at hop
    rcases hop with rfl | rfl <;> unfold Succeeds <;> decide +kernel
  have hk : ∀ before op after, inAndOut = before ++ op::after → KeepsMirror office (before.foldl (run office) closed) op := by
    refine System.forall_splits_cons.mpr ⟨?_,System.forall_splits_cons.mpr ⟨?_,System.forall_splits_nil⟩⟩
    · have hk : closed.files.keys = [] := rfl
      change KeepsMirror office closed _
      unfold KeepsMirror
      dsimp only
      rw [if_pos (by decide +kernel),hk]
      exact fun f hf => by cases hf
    · unfold KeepsMirror
      dsimp only
      have hk : ([Op.request 1000 (form "1" "10.0.0.5" "AA:BB:CC:DD:EE:01" none)].foldl (run office) closed).files.keys =
          [fileName "10.0.0.5" "AA:BB:CC:DD:EE:01"] := by decide +kernel
      rw [if_neg (by decide +kernel),hk]
      exact fun _ f hf hne => absurd (List.mem_singleton.mp hf) hne
  exact (mirrored_iff office_reads closed_named closed_mirrored hs).mpr hk inAndOut [] rfl

theorem mirror_broken : ¬ ∀ ops : List Op, (∀ op ∈ ops, Succeeds office op) →
    ∀ before after, ops = before ++ after → Mirrored office (before.foldl (run office) closed) := by
  intro h
  have hs : ∀ op ∈ respelled, Succeeds office op := by
    intro op hop
    simp only [respelled,List.mem_cons,List.not_mem_nil,or_false] at hop
    rcases hop with rfl | rfl <;> unfold Succeeds <;> decide +kernel
  have hm := h respelled hs respelled [] rfl
  have hf : fileName "10.0.0.5" "AA:BB:CC:DD:EE:01" ∈ (respelled.foldl (run office) closed).files.keys := by
    decide +kernel
  have hr : (("10.0.0.5" : Str),("aa:bb:cc:dd:ee:01" : Str)) ∈ (respelled.foldl (run office) closed).chain :=
    (hm.mem _).mpr ⟨_,hf,by decide⟩
  revert hr
  decide +kernel

end Portal
end Mybox
