import Mybox.AlertQueue

/-! Version 3.0: the limit for alerts that repeat. `mybox_alert_queue_limit` counts the alerts of a title in
`/var/sys/alert_do_chk` and notes until when the title is held. -/
namespace Mybox
namespace AlertLimit
open Php AlertQueue

/-- `$_dup_a[$title]` -/
structure Hold where
  time : ℕ
  cnt : ℕ
  deriving DecidableEq

/-- A call of `mybox_alert_queue_limit`, in one second; `init_start` tells whether `/var/sys/init_start` is there. -/
structure Request where
  config : Config
  init_start : Bool
  title : Str
  msg : Str
  type : Str
  opt : Bool
  time : ℕ

def Request.taken (r : Request) : Bool := !r.init_start && r.config.takes r.type

/-- What becomes of the entry of a title, and whether the alert goes on. -/
def held (e : Option Hold) (time : ℕ) : Option Hold × Bool :=
  match e with
  | some h =>
    -- hold alert 3 times
    if h.cnt = 3 then (some ⟨h.time,10⟩,false)
    -- hold 2 hour
    else if h.time ≤ time ∧ h.cnt = 10 then (none,false)
    else (some ⟨h.time,h.cnt + 1⟩,true)
  | none => (some ⟨time + 60 * 120,1⟩,true)

/-- `/var/sys/alert_do_chk`, and the spool with what has been sent; a file stands for the request it is written for. -/
structure State where
  dup : OrdMap Str Hold
  box : Spool.Box Str Request Request

def State.new : State := ⟨∅,.new⟩

def put (dup : OrdMap Str Hold) (title : Str) : Option Hold → OrdMap Str Hold
  | some h => dup.set title h
  | none => dup.erase title

/-- An alert that goes on is sent at once, or queued. -/
def send (b : Spool.Box Str Request Request) (r : Request) : Spool.Box Str Request Request :=
  if r.opt = true then ⟨b.files,b.out ++ [r]⟩ else ⟨b.files.set (msgFile r.time) r,b.out⟩

def alertQueueLimit (s : State) (r : Request) : State :=
  if r.taken = false then s
  else
    let h := held (s.dup.get? r.title) r.time
    ⟨put s.dup r.title h.1,if h.2 = true then send s.box r else s.box⟩

def run (s : State) (rs : List Request) : State := rs.foldl alertQueueLimit s

def Ordered (rs : List Request) : Prop := rs.Pairwise fun a b => a.time ≤ b.time

def passes (s : State) (r : Request) : Bool := r.taken && (held (s.dup.get? r.title) r.time).2

def passed (s : State) : List Request → List Request
  | [] => []
  | r::rs => (if passes s r = true then [r] else []) ++ passed (alertQueueLimit s r) rs

def ofTitle (title : Str) (rs : List Request) : List Request := rs.filter fun r => r.title = title

/-- The same alerts of a title are in the queue, and have been sent. -/
structure Alike (title : Str) (b b' : Spool.Box Str Request Request) : Prop where
  files : ∀ name r, r.title = title → (b.files.get? name = some r ↔ b'.files.get? name = some r)
  out : ofTitle title b.out = ofTitle title b'.out

/-- From a request that notes the hold time of its title, at most three alerts of the title go on until then; and
for each title it is all the same whether there are requests of other titles. -/
structure HeldBack (rs : List Request) : Prop where
  limit : ∀ before r after, rs = before ++ r::after → r.taken = true → (run .new before).dup.get? r.title = none →
    ((passed (run .new before) (r::after)).filter fun p => p.title = r.title ∧ p.time < r.time + 60 * 120).length ≤ 3
  apart : ∀ title, ofTitle title (passed .new rs) = passed .new (ofTitle title rs)
  spool : ∀ title, Alike title (run .new rs).box (run .new (ofTitle title rs)).box

/-- The requests of a title that reach the counter. -/
def turns (title : Str) (rs : List Request) : List Request := rs.filter fun r => r.taken && decide (r.title = title)

/-- In each five requests the last one comes two hours after the first one or later. -/
def Spread (ts : List Request) : Prop :=
  ∀ k a e, ts[5 * k]? = some a → ts[5 * k + 4]? = some e → a.time + 60 * 120 ≤ e.time

/-- A request that is to be queued: it is one of the first three in its five. -/
def Early (rs : List Request) (r : Request) : Prop :=
  ∃ before after, rs = before ++ r::after ∧ r.taken = true ∧ (turns r.title before).length % 5 < 3 ∧ r.opt = false

def Alone (rs : List Request) : Prop := ∀ r r', Early rs r → Early rs r' → r.time = r'.time → r.title = r'.title

def entry (e : Option Hold) (ts : List Request) : Option Hold := ts.foldl (fun e r => (held e r.time).1) e

def going (e : Option Hold) : List Request → List Request
  | [] => []
  | r::ts => (if (held e r.time).2 = true then [r] else []) ++ going (held e r.time).1 ts

theorem get?_put (dup : OrdMap Str Hold) (title : Str) (e : Option Hold) (t : Str) :
    (put dup title e).get? t = if title = t then e else dup.get? t := by
  cases e with
  | some h => exact OrdMap.get?_set dup title t h
  | none => exact OrdMap.get?_erase dup title t

theorem turns_cons (t : Str) (r : Request) (rs : List Request) :
    turns t (r::rs) = if r.taken = true ∧ r.title = t then r::turns t rs else turns t rs := by
  unfold turns
  rw [List.filter_cons]
  simp only [Bool.and_eq_true,decide_eq_true_eq]

theorem turns_append (t : Str) (rs rs' : List Request) : turns t (rs ++ rs') = turns t rs ++ turns t rs' :=
  List.filter_append ..

theorem turns_ofTitle (t : Str) (rs : List Request) : turns t (ofTitle t rs) = turns t rs := by
  unfold turns ofTitle
  rw [List.filter_filter]
  refine List.filter_congr fun r _ => ?_
  cases r.taken <;> simp

theorem get?_alertQueueLimit (s : State) (r : Request) (t : Str) : (alertQueueLimit s r).dup.get? t =
    if r.taken = true ∧ r.title = t then (held (s.dup.get? t) r.time).1 else s.dup.get? t := by
  unfold alertQueueLimit
  cases ht : r.taken with
  | false => simp
  | true =>
    simp only [Bool.true_eq_false,if_false,get?_put,true_and]
    split
    · next h => rw [h]
    · rfl

theorem get?_run (s : State) (rs : List Request) (t : Str) :
    (run s rs).dup.get? t = entry (s.dup.get? t) (turns t rs) := by
  induction rs generalizing s with
  | nil => rfl
  | cons r rs ih =>
    change (run (alertQueueLimit s r) rs).dup.get? t = _
    rw [ih,get?_alertQueueLimit,turns_cons]
    split
    · rfl
    · rfl

theorem ofTitle_passed (s : State) (rs : List Request) (t : Str) :
    ofTitle t (passed s rs) = going (s.dup.get? t) (turns t rs) := by
  induction rs generalizing s with
  | nil => rfl
  | cons r rs ih =>
    have hi := ih (alertQueueLimit s r)
    rw [get?_alertQueueLimit] at hi
    rw [passed,ofTitle,List.filter_append]
    change _ ++ ofTitle t (passed (alertQueueLimit s r) rs) = _
    rw [hi,turns_cons,passes]
    by_cases h : r.taken = true ∧ r.title = t
    · rw [if_pos h,if_pos h,going,h.1,← h.2,Bool.true_and]
      split <;> simp
    · rw [if_neg h,if_neg h]
      have hn : (if (r.taken && (held (s.dup.get? r.title) r.time).2) = true then [r] else []).filter
          (fun r => decide (r.title = t)) = [] := by
        split
        · next hp =>
          rw [Bool.and_eq_true] at hp
          exact List.filter_cons_of_neg (by simpa using fun ht => h ⟨hp.1,ht⟩)
        · rfl
      rw [hn,List.nil_append]

theorem passed_sublist (s : State) (rs : List Request) : (passed s rs).Sublist rs := by
  induction rs generalizing s with
  | nil => exact List.Sublist.refl _
  | cons r rs ih =>
    rw [passed]
    split
    · exact (ih _).cons_cons r
    · exact (ih _).cons r

theorem passed_apart (rs : List Request) (t : Str) : ofTitle t (passed .new rs) = passed .new (ofTitle t rs) := by
  have hall : ofTitle t (passed .new (ofTitle t rs)) = passed .new (ofTitle t rs) :=
    List.filter_eq_self.mpr fun r hr => (List.mem_filter.mp ((passed_sublist _ _).subset hr)).2
  rw [ofTitle_passed,← hall,ofTitle_passed,turns_ofTitle]

theorem mem_passed {s : State} {rs : List Request} {r : Request} :
    r ∈ passed s rs ↔ ∃ before after, rs = before ++ r::after ∧ passes (run s before) r = true := by
  induction rs generalizing s with
  | nil => simp [passed]
  | cons x rs ih =>
    rw [passed,List.mem_append,ih]
    constructor
    · rintro (h | ⟨before,after,rfl,hp⟩)
      · split at h
        · next hp =>
          cases List.mem_singleton.mp h
          exact ⟨[],rs,rfl,hp⟩
        · exact (List.not_mem_nil h).elim
      · exact ⟨x::before,after,rfl,hp⟩
    · rintro ⟨before,after,he,hp⟩
      cases before with
      | nil =>
        obtain ⟨rfl,rfl⟩ := List.cons.inj he
        refine Or.inl ?_
        rw [if_pos (show passes s x = true from hp)]
        exact List.mem_singleton_self x
      | cons y before =>
        obtain ⟨rfl,rfl⟩ := List.cons.inj he
        exact Or.inr ⟨before,after,rfl,hp⟩

theorem entry_concat (e : Option Hold) (ts : List Request) (r : Request) :
    entry e (ts ++ [r]) = (held (entry e ts) r.time).1 := List.foldl_concat ..

theorem Spread.left {ts t : List Request} (h : Spread (ts ++ t)) : Spread ts := by
  intro k a e ha he
  have hk : 5 * k + 4 < ts.length := (List.getElem?_eq_some_iff.mp he).1
  refine h k a e ?_ ?_
  · rw [List.getElem?_append_left (by omega),ha]
  · rw [List.getElem?_append_left hk,he]

/-- The entry after requests that are spread: the first one of the last five has noted the time. -/
theorem entry_spread {ts : List Request} (h : Spread ts) : entry none ts =
    ts[5 * (ts.length / 5)]?.map fun a => ⟨a.time + 60 * 120,if ts.length % 5 = 4 then 10 else ts.length % 5⟩ := by
  induction ts using List.reverseRecOn with
  | nil => rfl
  | append_singleton ts r ih =>
    rw [entry_concat,ih h.left,List.length_append,List.length_singleton]
    have hdiv := Nat.div_add_mod ts.length 5
    have hmod := Nat.mod_lt ts.length (by decide : 0 < 5)
    by_cases hz : ts.length % 5 = 0
    · have hk : 5 * (ts.length / 5) = ts.length := by omega
      have hk' : 5 * ((ts.length + 1) / 5) = ts.length := by omega
      have hm : (ts.length + 1) % 5 = 1 := by omega
      rw [hk,hk',hm,List.getElem?_eq_none le_rfl,List.getElem?_concat_length]
      rfl
    · obtain ⟨a,ha⟩ : ∃ a, ts[5 * (ts.length / 5)]? = some a :=
        ⟨ts[5 * (ts.length / 5)],List.getElem?_eq_getElem (by omega)⟩
      by_cases hl : ts.length % 5 = 4
      · -- the last one of five clears the entry
        have hk : 5 * ((ts.length + 1) / 5) = ts.length + 1 := by omega
        have ht := h (ts.length / 5) a r (by rw [List.getElem?_append_left (by omega),ha])
          (by rw [show 5 * (ts.length / 5) + 4 = ts.length by omega,List.getElem?_concat_length])
        rw [hk,ha,hl,List.getElem?_eq_none (by simp)]
        simp [held,ht]
      · have hk : (ts.length + 1) / 5 = ts.length / 5 := by omega
        have hm : (ts.length + 1) % 5 = ts.length % 5 + 1 := by omega
        rw [hk,ha,hm,List.getElem?_append_left (by omega),ha]
        by_cases h3 : ts.length % 5 = 3
        · simp [held,h3]
        · have hten : ¬ts.length % 5 = 10 := by omega
          simp [held,hl,h3,hten]

theorem entry_none_iff {ts : List Request} (h : Spread ts) : entry none ts = none ↔ ts.length % 5 = 0 := by
  rw [entry_spread h,Option.map_eq_none_iff,List.getElem?_eq_none_iff]
  omega

theorem held_spread {ts : List Request} {r : Request} (h : Spread (ts ++ [r])) :
    (held (entry none ts) r.time).2 = true ↔ ts.length % 5 < 3 := by
  rw [entry_spread h.left]
  by_cases hz : ts.length % 5 = 0
  · rw [List.getElem?_eq_none (by omega),hz]
    exact iff_of_true rfl (by decide)
  · have ha : ts[5 * (ts.length / 5)]? = some ts[5 * (ts.length / 5)] := List.getElem?_eq_getElem (by omega)
    rw [ha]
    by_cases hl : ts.length % 5 = 4
    · have ht := h (ts.length / 5) _ r (by rw [List.getElem?_append_left (by omega),ha])
        (by rw [show 5 * (ts.length / 5) + 4 = ts.length by omega,List.getElem?_concat_length])
      simp [held,hl,ht]
    · by_cases h3 : ts.length % 5 = 3
      · simp [held,h3]
      · have hten : ¬ts.length % 5 = 10 := by omega
        simp [held,hl,h3,hten]
        omega

def Limited (ts : List Request) : Prop :=
  ∀ before r after, ts = before ++ r::after → entry none before = none →
    ((going none (r::after)).filter fun p => decide (p.time < r.time + 60 * 120)).length ≤ 3

theorem going_sublist (e : Option Hold) (ts : List Request) : (going e ts).Sublist ts := by
  induction ts generalizing e with
  | nil => exact List.Sublist.refl _
  | cons r ts ih =>
    rw [going]
    split
    · exact (ih _).cons_cons r
    · exact (ih _).cons r

theorem going_append (e : Option Hold) (ts ts' : List Request) :
    going e (ts ++ ts') = going e ts ++ going (entry e ts) ts' := by
  induction ts generalizing e with
  | nil => rfl
  | cons r ts ih =>
    rw [List.cons_append,going,going,ih,List.append_assoc]
    rfl

theorem going_four (a b c d : Request) (ts : List Request) :
    going none (a::b::c::d::ts) = [a,b,c] ++ going (some ⟨a.time + 60 * 120,10⟩) ts := by
  simp [going,held]

theorem limited_iff {ts : List Request} (ho : Ordered ts) : Limited ts ↔ Spread ts := by
  constructor
  · intro h
    induction ts using List.reverseRecOn with
    | nil => exact fun k a e ha => by simp at ha
    | append_singleton ts r ih =>
      have hleft : Limited ts := by
        intro before x after he hn
        refine (List.Sublist.length_le ?_).trans (h before x (after ++ [r]) (by rw [he]; simp) hn)
        rw [← List.cons_append,going_append]
        exact (List.sublist_append_left _ _).filter _
      have hs := ih (List.pairwise_append.mp ho).1 hleft
      intro k a e ha he
      by_cases hk : 5 * k + 4 < ts.length
      · rw [List.getElem?_append_left (by omega)] at ha
        rw [List.getElem?_append_left hk] at he
        exact hs k a e ha he
      · -- the request that is added is the fifth one
        have hlen : 5 * k + 4 = ts.length := by
          have := (List.getElem?_eq_some_iff.mp he).1
          simp at this
          omega
        rw [hlen,List.getElem?_concat_length] at he
        cases he
        rw [List.getElem?_append_left (by omega)] at ha
        obtain ⟨hka,rfl⟩ := List.getElem?_eq_some_iff.mp ha
        have hsplit : ts = ts.take (5 * k) ++ ts[5 * k]::ts.drop (5 * k + 1) := by
          rw [← List.drop_eq_getElem_cons hka,List.take_append_drop]
        obtain ⟨b,c,d,hd⟩ := List.length_eq_three.mp (show (ts.drop (5 * k + 1)).length = 3 by
          rw [List.length_drop]
          omega)
        have hn : entry none (ts.take (5 * k)) = none := by
          refine (entry_none_iff (Spread.left (by rwa [List.take_append_drop]))).mpr ?_
          rw [List.length_take]
          omega
        have hle : ∀ x ∈ ts, x.time ≤ r.time := fun x hx =>
          (List.pairwise_append.mp ho).2.2 x hx r (List.mem_singleton_self r)
        have hmem : ∀ x ∈ [b,c,d], x ∈ ts := fun x hx => List.mem_of_mem_drop (hd ▸ hx)
        have hb := hle b (hmem b (by simp))
        have hc := hle c (hmem c (by simp))
        have hall := h (ts.take (5 * k)) ts[5 * k] [b,c,d,r] (by
          rw [show [b,c,d,r] = [b,c,d] ++ [r] from rfl,← List.cons_append,← List.append_assoc,← hd,← hsplit]) hn
        -- were it early, the fourth alert would go on
        by_contra hlt
        rw [Nat.not_le] at hlt
        have hgoing : going (some ⟨ts[5 * k].time + 60 * 120,10⟩) [r] = [r] := by
          simp [going,held,show ¬ts[5 * k].time + 60 * 120 ≤ r.time by omega]
        have hearly : ∀ x ∈ [ts[5 * k],b,c] ++ [r], decide (x.time < ts[5 * k].time + 60 * 120) = true := by
          simp
          omega
        rw [going_four,hgoing,List.filter_eq_self.mpr hearly] at hall
        exact absurd hall (by simp)
  · intro h before r after he hn
    have hbefore : before.length % 5 = 0 := (entry_none_iff (Spread.left (he ▸ h))).mp hn
    have hshort : (r::after).length ≤ 3 →
        ((going none (r::after)).filter fun p => decide (p.time < r.time + 60 * 120)).length ≤ 3 := fun hl =>
      (List.length_filter_le _ _).trans ((going_sublist _ _).length_le.trans hl)
    rcases after with _ | ⟨b,_ | ⟨c,_ | ⟨d,rest⟩⟩⟩
    · exact hshort (by simp)
    · exact hshort (by simp)
    · exact hshort (by simp)
    · -- all that come behind the fourth one are too late
      have hrest : ∀ x ∈ rest, r.time + 60 * 120 ≤ x.time := by
        intro x hx
        cases rest with
        | nil => cases hx
        | cons e rest =>
          have hr : ts[5 * (before.length / 5)]? = some r := by
            rw [he,show 5 * (before.length / 5) = before.length by omega]
            simp
          have hfive : ts[5 * (before.length / 5) + 4]? = some e := by
            rw [he,show 5 * (before.length / 5) + 4 = before.length + 4 by omega]
            simp
          have hfirst := h _ r e hr hfive
          rcases List.mem_cons.mp hx with rfl | hx
          · exact hfirst
          · have hsuffix : (e::rest) <:+ ts := ⟨before ++ [r,b,c,d],by rw [he]; simp⟩
            exact hfirst.trans ((List.pairwise_cons.mp (ho.sublist hsuffix.sublist)).1 x hx)
      have hnone : (going (some ⟨r.time + 60 * 120,10⟩) rest).filter
          (fun p => decide (p.time < r.time + 60 * 120)) = [] :=
        List.filter_eq_nil_iff.mpr fun x hx => by simpa using hrest x ((going_sublist _ _).subset hx)
      rw [going_four,List.filter_append,hnone,List.append_nil]
      exact List.length_filter_le _ _

def queued (rs : List Request) : List Request := (passed .new rs).filter fun r => !r.opt

theorem alertQueueLimit_box (s : State) (r : Request) :
    (alertQueueLimit s r).box = if passes s r = true then send s.box r else s.box := by
  unfold alertQueueLimit passes
  cases r.taken <;> simp

theorem run_box (s : State) (rs : List Request) : (run s rs).box = (passed s rs).foldl send s.box := by
  induction rs generalizing s with
  | nil => rfl
  | cons r rs ih =>
    change (run (alertQueueLimit s r) rs).box = _
    rw [ih,passed,List.foldl_append,alertQueueLimit_box]
    split <;> rfl

theorem foldl_send (rs : List Request) : rs.foldl send .new =
    ⟨OrdMap.collect (fun r => msgFile r.time) (rs.filter fun r => !r.opt),rs.filter fun r => r.opt⟩ := by
  induction rs using List.reverseRecOn with
  | nil => rfl
  | append_singleton rs r ih =>
    rw [List.foldl_concat,ih,List.filter_append,List.filter_append,send]
    cases ho : r.opt with
    | true => simp [ho]
    | false => simp [ho,OrdMap.collect_concat]

def inFile (name : Str) (rs : List Request) : List Request := rs.filter fun r => msgFile r.time = name

theorem files_run (rs : List Request) (name : Str) :
    (run .new rs).box.files.get? name = (inFile name (queued rs)).getLast? := by
  rw [run_box]
  change ((passed .new rs).foldl send .new).files.get? name = _
  rw [foldl_send,OrdMap.get?_collect]
  rfl

theorem queued_apart (t : Str) (rs : List Request) : queued (ofTitle t rs) = ofTitle t (queued rs) := by
  unfold queued
  rw [← passed_apart,ofTitle,ofTitle,List.filter_filter,List.filter_filter]
  simp only [Bool.and_comm]

theorem inFile_ofTitle (name t : Str) (rs : List Request) : inFile name (ofTitle t rs) = ofTitle t (inFile name rs) := by
  unfold inFile ofTitle
  rw [List.filter_filter,List.filter_filter]
  simp only [Bool.and_comm]

theorem alike_iff (rs : List Request) (t : Str) : Alike t (run .new rs).box (run .new (ofTitle t rs)).box ↔
    ∀ name r, r.title = t → ((inFile name (queued rs)).getLast? = some r ↔
      (ofTitle t (inFile name (queued rs))).getLast? = some r) := by
  have hfiles : ∀ name r, ((run .new rs).box.files.get? name = some r ↔
      (run .new (ofTitle t rs)).box.files.get? name = some r) ↔ ((inFile name (queued rs)).getLast? = some r ↔
      (ofTitle t (inFile name (queued rs))).getLast? = some r) := by
    intro name r
    rw [files_run,files_run,queued_apart,inFile_ofTitle]
  have hout : ofTitle t (run .new rs).box.out = ofTitle t (run .new (ofTitle t rs)).box.out := by
    rw [run_box,run_box,← passed_apart]
    change ofTitle t ((passed .new rs).foldl send .new).out = ofTitle t ((ofTitle t (passed .new rs)).foldl send .new).out
    rw [foldl_send,foldl_send]
    simp only [ofTitle,List.filter_filter]
    refine List.filter_congr fun r _ => ?_
    cases r.opt <;> simp
  refine ⟨fun h name r ht => (hfiles name r).mp (h.files name r ht),fun h => ⟨fun name r ht => ?_,hout⟩⟩
  exact (hfiles name r).mpr (h name r ht)

/-- The queue is alike for all titles when no two of them are queued in one second. -/
theorem spool_iff (rs : List Request) : (∀ t, Alike t (run .new rs).box (run .new (ofTitle t rs)).box) ↔
    ∀ r ∈ queued rs, ∀ r' ∈ queued rs, r.time = r'.time → r.title = r'.title := by
  simp only [alike_iff]
  constructor
  · intro h r hr r' hr' ht
    -- the one that is written last in this second
    have hin : ∀ x ∈ queued rs, x.time = r.time → x ∈ inFile (msgFile r.time) (queued rs) := fun x hx hxt =>
      List.mem_filter.mpr ⟨hx,by simp [hxt]⟩
    have hlast : ∀ x ∈ queued rs, x.time = r.time →
        ∃ y, (inFile (msgFile r.time) (queued rs)).getLast? = some y ∧ y.title = x.title := by
      intro x hx hxt
      have hmem : x ∈ ofTitle x.title (inFile (msgFile r.time) (queued rs)) :=
        List.mem_filter.mpr ⟨hin x hx hxt,by simp⟩
      obtain ⟨y,hy⟩ := Option.ne_none_iff_exists'.mp fun hn => List.ne_nil_of_mem hmem (List.getLast?_eq_none_iff.mp hn)
      have hyt : y.title = x.title := by simpa using (List.mem_filter.mp (List.mem_of_getLast? hy)).2
      exact ⟨y,(h x.title _ y hyt).mpr hy,hyt⟩
    obtain ⟨y,hy,hyr⟩ := hlast r hr rfl
    obtain ⟨y',hy',hyr'⟩ := hlast r' hr' ht.symm
    rw [hy] at hy'
    cases hy'
    rw [← hyr,← hyr']
  · intro h t name r ht
    have hsame : ∀ x ∈ inFile name (queued rs), ∀ y ∈ inFile name (queued rs), x.title = y.title := by
      intro x hx y hy
      obtain ⟨hx,hxn⟩ := List.mem_filter.mp hx
      obtain ⟨hy,hyn⟩ := List.mem_filter.mp hy
      refine h x hx y hy (msgFile_inj.mp ?_)
      rw [of_decide_eq_true hxn,of_decide_eq_true hyn]
    have hall : r ∈ inFile name (queued rs) → ofTitle t (inFile name (queued rs)) = inFile name (queued rs) :=
      fun hr => List.filter_eq_self.mpr fun x hx => by simpa [ht] using hsame x hx r hr
    constructor
    · intro hr
      rw [hall (List.mem_of_getLast? hr)]
      exact hr
    · intro hr
      rw [← hall (List.mem_filter.mp (List.mem_of_getLast? hr)).1]
      exact hr

theorem turns_split {t : Str} {rs before after : List Request} {r : Request} (h : turns t rs = before ++ r::after) :
    ∃ front back, rs = front ++ r::back ∧ turns t front = before ∧ turns t back = after ∧ r.taken = true ∧
      r.title = t := by
  obtain ⟨front,rest,rfl,rfl,hrest⟩ := List.filter_eq_append_iff.mp h
  obtain ⟨quiet,back,rfl,hquiet,hr,rfl⟩ := List.filter_eq_cons_iff.mp hrest
  rw [Bool.and_eq_true,decide_eq_true_eq] at hr
  refine ⟨front ++ quiet,back,by simp,?_,rfl,hr.1,hr.2⟩
  have hnil : turns t quiet = [] := List.filter_eq_nil_iff.mpr hquiet
  rw [turns_append,hnil,List.append_nil]
  rfl

theorem limit_iff (rs : List Request) : (∀ before r after, rs = before ++ r::after → r.taken = true →
    (run .new before).dup.get? r.title = none →
    ((passed (run .new before) (r::after)).filter fun p => p.title = r.title ∧ p.time < r.time + 60 * 120).length ≤ 3) ↔
      ∀ t, Limited (turns t rs) := by
  have hcount : ∀ before r after, r.taken = true → (run .new before).dup.get? r.title = none →
      (passed (run .new before) (r::after)).filter (fun p => p.title = r.title ∧ p.time < r.time + 60 * 120) =
        (going none (r::turns r.title after)).filter fun p => decide (p.time < r.time + 60 * 120) := by
    intro before r after ht hn
    have hg := ofTitle_passed (run .new before) (r::after) r.title
    rw [hn,turns_cons,if_pos ⟨ht,rfl⟩] at hg
    rw [← hg,ofTitle,List.filter_filter]
    refine List.filter_congr fun p _ => ?_
    rw [Bool.decide_and,Bool.and_comm]
  constructor
  · intro h t before r after he hn
    obtain ⟨front,back,rfl,rfl,rfl,ht,rfl⟩ := turns_split he
    have hnone : (run .new front).dup.get? r.title = none := (get?_run .new front r.title).trans hn
    have := h front r back rfl ht hnone
    rwa [hcount front r back ht hnone] at this
  · rintro h before r after rfl ht hn
    rw [hcount before r after ht hn]
    refine h r.title (turns r.title before) r (turns r.title after) ?_ ((get?_run .new before r.title).symm.trans hn)
    rw [turns_append,turns_cons,if_pos ⟨ht,rfl⟩]

/-- While the requests are spread, those that are queued are the early ones. -/
theorem mem_queued {rs : List Request} (h : ∀ t, Spread (turns t rs)) {r : Request} : r ∈ queued rs ↔ Early rs r := by
  have hpass : ∀ before after, rs = before ++ r::after → r.taken = true →
      (passes (run .new before) r = true ↔ (turns r.title before).length % 5 < 3) := by
    rintro before after rfl ht
    have hs : Spread (turns r.title before ++ [r]) := by
      refine Spread.left (t:=turns r.title after) ?_
      have := h r.title
      rwa [turns_append,turns_cons,if_pos ⟨ht,rfl⟩,List.append_cons] at this
    rw [passes,ht,Bool.true_and,get?_run]
    exact held_spread hs
  rw [queued,List.mem_filter,mem_passed]
  constructor
  · rintro ⟨⟨before,after,he,hp⟩,ho⟩
    have ht : r.taken = true := (Bool.and_eq_true _ _ ▸ hp).1
    exact ⟨before,after,he,ht,(hpass before after he ht).mp hp,by simpa using ho⟩
  · rintro ⟨before,after,he,ht,hc,ho⟩
    exact ⟨⟨before,after,he,(hpass before after he ht).mpr hc⟩,by simp [ho]⟩

/-- Alerts are held back exactly when each fifth request of a title comes two hours after the first one of its five or
later, and no two titles are queued in one second. -/
theorem heldBack_iff {rs : List Request} (h : Ordered rs) :
    HeldBack rs ↔ (∀ t, Spread (turns t rs)) ∧ Alone rs := by
  have hl : (∀ t, Limited (turns t rs)) ↔ ∀ t, Spread (turns t rs) :=
    forall_congr' fun t => limited_iff (List.Pairwise.filter _ h)
  constructor
  · intro hb
    have hs := hl.mp ((limit_iff rs).mp hb.limit)
    refine ⟨hs,fun r r' hr hr' ht => ?_⟩
    exact (spool_iff rs).mp hb.spool r ((mem_queued hs).mpr hr) r' ((mem_queued hs).mpr hr') ht
  · rintro ⟨hs,ha⟩
    refine ⟨(limit_iff rs).mpr (hl.mpr hs),fun t => passed_apart rs t,(spool_iff rs).mpr fun r hr r' hr' ht => ?_⟩
    exact ha r r' ((mem_queued hs).mp hr) ((mem_queued hs).mp hr') ht

def attack (time : ℕ) : Request where
  config := alertsOn
  init_start := false
  title := "[CRIT] Attack"
  msg := "Attack detected"
  type := "13"
  opt := false
  time := time

def scan (time : ℕ) : Request := {attack time with title := "[WARN] Scan"}

/-- Five requests of one title, the last of them two hours after the first, and one of another title. -/
def raid : List Request :=
  [attack 1190000000,attack 1190000001,scan 1190000002,attack 1190000003,attack 1190000004,attack 1190007200]

theorem raid_spread (t : Str) : Spread (turns t raid) := by
  intro k a e ha he
  obtain ⟨hlen,-⟩ := List.getElem?_eq_some_iff.mp he
  by_cases ht : (attack 0).title = t
  · subst ht
    have hraid : turns (attack 0).title raid =
        [attack 1190000000,attack 1190000001,attack 1190000003,attack 1190000004,attack 1190007200] := rfl
    rw [hraid] at ha he hlen
    obtain rfl : k = 0 := by
      simp only [List.length_cons,List.length_nil] at hlen
      omega
    obtain rfl := Option.some.inj ha
    obtain rfl := Option.some.inj he
    decide
  · have hno : ∀ n, decide ((attack n).title = t) = false := fun n => decide_eq_false ht
    have hone : (turns t raid).length ≤ 1 := by
      simp only [turns,raid,List.filter_cons,hno,Bool.and_false,Bool.false_eq_true,if_false,List.filter_nil]
      split <;> simp
    omega

/-- The fourth request of a title is held back, and so is the one that ends the hold time. -/
theorem heldBack_iff_raid : HeldBack raid ∧
    (passed .new raid).map Request.time = [1190000000,1190000001,1190000002,1190000003] := by
  have ho : Ordered raid := by
    unfold Ordered raid
    decide
  have htimes : ∀ r ∈ raid, ∀ r' ∈ raid, r.time = r'.time → r.title = r'.title := by
    unfold raid
    decide
  have hmem : ∀ {r}, Early raid r → r ∈ raid := by
    rintro r ⟨before,after,he,-⟩
    rw [he]
    exact List.mem_append_right _ List.mem_cons_self
  exact ⟨(heldBack_iff ho).mpr ⟨raid_spread,fun r r' hr hr' => htimes r (hmem hr) r' (hmem hr')⟩,rfl⟩

/-- The fifth request goes on within the two hours. -/
theorem fifth_sent : Ordered (List.replicate 5 (attack 1190000000)) ∧ ¬HeldBack (List.replicate 5 (attack 1190000000)) := by
  refine ⟨List.pairwise_replicate.mpr (Or.inr le_rfl),fun h => ?_⟩
  have hl := h.limit [] (attack 1190000000) (List.replicate 4 (attack 1190000000)) rfl (by decide) rfl
  exact absurd hl (by decide)

end AlertLimit
end Mybox
