import Mybox.OrderedMap
import Mybox.Php
import Mybox.RuleTables

/-! Version 3.0: the blacklist. Its entries are hardware addresses, addresses and networks, or strings; the chain
`ACL1000-05` is made of the enabled ones, behind the box's own addresses. -/
namespace Mybox
namespace BlacklistRules
open Php RuleTables
open PacketFilter (hardware)

/-- The settings, with their numbers. -/
inductive Direction
  | inbound
  | outbound
  | both
  deriving DecidableEq

inductive Action
  | drop
  | reject
  deriving DecidableEq

def Action.code : Action → Str
  | drop => "1"
  | reject => "2"

structure Row where
  id : Str
  ip : Str
  stat : Bool
  log : Bool

structure Spyware where
  id : Str
  ip : Str

structure Setting where
  stat : Bool
  block : Direction
  drop : Action
  spyware_stat : Bool
  spyware_block : Direction
  spyware_log : Bool
  spyware_drop : Action

/-- The groups of up to two digits that are left, with `n` places for a separator between them. -/
def macGroups : ℕ → Str → Bool
  | 0, s => [0,1,2].any fun k => (s.take k).length = k && (s.take k).all hexDigit && (s.drop k = [] || s.drop k = ['\n'])
  | n + 1, s => [0,1,2].any fun k => (s.take k).length = k && (s.take k).all hexDigit &&
      (macGroups n (s.drop k) || ((s.drop k).head?.any fun c => c = '-' || c = ':' || c = ' ') && macGroups n (s.drop (k + 1)))

def checkMac (mac : Str) : Bool := mac.length = 17 && macGroups 6 mac

def digits (s : Str) : Bool := s ≠ [] && s.all digit

/-- `\d+\.\d+\.\d+\.\d+` -/
def dotted (s : Str) : Bool := (split '.' s).length = 4 && (split '.' s).all digits

/-- An address, a network with the length of its prefix, or one with its mask; a line may end behind it. -/
def ipShape (s : Str) : Bool :=
  match split '/' (if s.getLast? = some '\n' then s.dropLast else s) with
  | [a] => dotted a
  | [a,l] => dotted a && (digits l || dotted l)
  | _ => false

def chain : Str := "ACL1000-05"

/-- `-m limit --limit 5/sec --limit-burst 10` -/
def limitedString : List Match :=
  [.words "-m state --state NEW,RELATED,ESTABLISHED",.words "-m limit --limit 6/minute --limit-burst 1"]

/-- The rule, and before it the one that takes a note of the packet. -/
def logged (c : Str) (log : Bool) (m : Match) (extra : List Match) (note : Str) (t : Target) : List Rule :=
  (if log then [⟨c,m::extra,.nflog note⟩] else []) ++ [⟨c,[m],t⟩]

/-- `$_drop` -/
def dropOf (block : Direction) : Target := if block = .outbound then .reject else .drop

def dropText (block : Direction) : Str := if block = .outbound then "REJECT" else "DROP"

/-- `policy_blacklist`, for one row; it gets the direction only. -/
def policyBlacklist (block : Direction) (r : Row) : List Rule :=
  let note := "F:B:".toList ++ dropText block ++ ':'::r.id ++ [' ']
  let dropNote := "F:B:DROP:".toList ++ r.id ++ [' ']
  let t := dropOf block
  match block with
  | .both =>
    if checkMac r.ip then logged chain r.log (.mac r.ip) [.limited] note t
    else if ipShape r.ip then
      logged chain r.log (.source r.ip) [.limited] dropNote t ++ logged chain r.log (.dest r.ip) [.limited] dropNote t
    else logged chain r.log (.content r.ip) limitedString note t
  | .outbound =>
    if checkMac r.ip then []
    else if ipShape r.ip then logged chain r.log (.dest r.ip) [] note t
    else logged chain r.log (.content r.ip) limitedString note t
  | .inbound =>
    if checkMac r.ip then logged chain r.log (.mac r.ip) [] note t
    else if ipShape r.ip then logged chain r.log (.source r.ip) [] dropNote t
    else logged chain r.log (.content r.ip) limitedString note t

/-- `policy_spyware`, for one row. -/
def policySpyware (s : Setting) (r : Spyware) : List Rule :=
  let note := "SPYWARE:".toList ++ r.id ++ ':'::s.spyware_drop.code ++ [' ']
  let t : Target := if s.spyware_drop = .reject then .reject else .drop
  let c : Str := "ACL1000-04"
  if ipShape r.ip then
    match s.spyware_block with
    | .both => logged c s.spyware_log (.source r.ip) [.limited] note t ++ logged c s.spyware_log (.dest r.ip) [.limited] note t
    | .outbound => logged c s.spyware_log (.dest r.ip) [.limited] note t
    | .inbound => logged c s.spyware_log (.source r.ip) [.limited] note t
  else []

/-- The tables and files that are read. -/
structure World where
  /-- The addresses `policy_get_data` finds. -/
  locals : OrdMap Str Str
  gw_ip : Str
  rows : List Row
  spyware : List Spyware

/-- `$_local` -/
def World.own (w : World) : OrdMap Str Str :=
  let l := w.locals.set "127.0.0.1" "127.0.0.1"
  if w.gw_ip = [] then l else l.set w.gw_ip w.gw_ip

def returns (ip : Str) : List Rule :=
  if ip = [] then []
  else [⟨"ACL1000-04",[.anyProto,.source ip],.back⟩,⟨chain,[.anyProto,.source ip],.back⟩]

/-- The rules of `do_policy_blacklist`. -/
def doPolicyBlacklist (s : Setting) (w : World) : List Rule :=
  (if s.stat = true ∨ s.spyware_stat = true then w.own.keys.flatMap returns else []) ++
    ((if s.stat = true then (w.rows.filter Row.stat).flatMap (policyBlacklist s.block) else []) ++
      (if s.spyware_stat = true then w.spyware.flatMap (policySpyware s) else []))

/-- The entry matches the packet in a direction: its source inbound, its destination outbound. -/
def Hits (block : Direction) (ip : Str) (p : Seen) : Prop :=
  if checkMac ip = true then block ≠ .outbound ∧ hardware ip = some p.frame.mac
  else if ipShape ip = true then
    (block ≠ .outbound ∧ (area ip).any fun a => a.has p.frame.packet.src) ∨
      (block ≠ .inbound ∧ (area ip).any fun a => a.has p.frame.packet.dst)
  else ip <:+: p.content

def Action.verdict : Action → Verdict
  | drop => .drop
  | reject => .reject

def Listed (s : Setting) (w : World) (p : Seen) : Prop :=
  s.stat = true ∧ ∃ r ∈ w.rows, r.stat = true ∧ Hits s.block r.ip p

/-- The rules are put in place, and discard with the action that is set the packets that match an entry, and no
others. -/
def Decides (e : RuleTables.Env) (s : Setting) (w : World) (p : Seen) : Prop :=
  ∃ rules, load e (doPolicyBlacklist s w) = some rules ∧
    (Listed s w p → walk e rules p 1 chain = some s.drop.verdict) ∧ (¬Listed s w p → walk e rules p 1 chain = none)

def Row.Fit (block : Direction) (r : Row) : Prop :=
  if checkMac r.ip = true then block ≠ .outbound → (hardware r.ip).isSome = true
  else if ipShape r.ip = true then (area r.ip).isSome = true
  else Stringy r.ip

/-- All addresses and strings can be part of a rule. -/
structure World.Fit (s : Setting) (w : World) : Prop where
  own : s.stat = true ∨ s.spyware_stat = true → ∀ ip ∈ w.own.keys, ip ≠ [] → (area ip).isSome = true
  rows : s.stat = true → ∀ r ∈ w.rows, r.stat = true → r.Fit s.block
  spyware : s.spyware_stat = true → ∀ r ∈ w.spyware, ipShape r.ip = true → (area r.ip).isSome = true

/-- The packet comes from the box itself, or from the gateway. -/
def World.Own (w : World) (p : Seen) : Prop :=
  ∃ ip ∈ w.own.keys, ip ≠ [] ∧ (area ip).any (fun a => a.has p.frame.packet.src) = true

variable {e : RuleTables.Env} {jump : Str → Option Verdict} {p : Seen}

theorem limited_reads : ∀ m ∈ [Match.limited], (m.reads e).isSome = true := by
  intro m hm
  rw [List.mem_singleton.mp hm]
  rfl

theorem limitedString_reads : ∀ m ∈ limitedString, (m.reads e).isSome = true := by
  intro m hm
  rcases List.mem_pair.mp hm with rfl | rfl <;> rfl

theorem readable_logged (c : Str) (log : Bool) (m : Match) {extra : List Match}
    (hx : ∀ x ∈ extra, (x.reads e).isSome = true) (note : Str) (t : Target) :
    (∀ r ∈ logged c log m extra note t, r.Readable e) ↔ (m.reads e).isSome = true := by
  have hone : Rule.Readable e ⟨c,[m],t⟩ ↔ (m.reads e).isSome = true := List.forall_mem_singleton
  have hmore : Rule.Readable e ⟨c,m::extra,.nflog note⟩ ↔ (m.reads e).isSome = true :=
    List.forall_mem_cons.trans (and_iff_left hx)
  unfold logged
  rw [List.forall_mem_append,List.forall_mem_singleton,hone]
  split
  · rw [List.forall_mem_singleton,hmore,and_self]
  · exact and_iff_right fun r hr => (List.not_mem_nil hr).elim

def Discards (t : Target) (v : Verdict) : Prop := t = .drop ∧ v = .drop ∨ t = .reject ∧ v = .reject

theorem follow_logged {t : Target} {v : Verdict} (ht : Discards t v) (c : Str) (log : Bool) (m : Match)
    (extra : List Match) (note : Str) (rs : List Rule) :
    follow e jump p (logged c log m extra note t ++ rs) = if m.holds e p = true then some v else follow e jump p rs := by
  unfold logged
  rw [List.append_assoc,follow_skip]
  · rw [List.singleton_append]
    have ha : Rule.applies e p ⟨c,[m],t⟩ = m.holds e p := Bool.and_true _
    rcases ht with ⟨rfl,rfl⟩ | ⟨rfl,rfl⟩ <;> rw [follow,ha]
  · intro r hr _
    split at hr
    · rw [List.mem_singleton.mp hr]
      rfl
    · exact (List.not_mem_nil hr).elim

def dropped (block : Direction) : Verdict := if block = .outbound then .reject else .drop

theorem discards (block : Direction) : Discards (dropOf block) (dropped block) := by
  cases block with
  | outbound => exact Or.inr ⟨rfl,rfl⟩
  | inbound | both => exact Or.inl ⟨rfl,rfl⟩

theorem follow_row {block : Direction} {r : Row} (hr : r.Fit block) (rs : List Rule) :
    (Hits block r.ip p → follow e jump p (policyBlacklist block r ++ rs) = some (dropped block)) ∧
      (¬Hits block r.ip p → follow e jump p (policyBlacklist block r ++ rs) = follow e jump p rs) := by
  have hd := discards block
  unfold Row.Fit at hr
  unfold Hits policyBlacklist
  by_cases hm : checkMac r.ip = true
  · simp only [hm,if_true]
    cases block with
    | outbound => simp
    | inbound | both =>
      simp only [follow_logged hd,holds_mac]
      constructor <;> intro h <;> simp_all
  · rw [if_neg hm] at hr
    simp only [hm,if_false,Bool.false_eq_true]
    by_cases hs : ipShape r.ip = true
    · simp only [hs,if_true]
      cases block with
      | outbound => simp only [follow_logged hd,holds_dest]; constructor <;> intro h <;> simp_all
      | inbound => simp only [follow_logged hd,holds_source]; constructor <;> intro h <;> simp_all
      | both =>
        simp only [List.append_assoc,follow_logged hd,holds_source,holds_dest]
        constructor <;> intro h
        · rcases h with h | h <;> simp_all
        · simp_all
    · rw [if_neg hs] at hr
      simp only [hs,if_false,Bool.false_eq_true]
      cases block with
      | inbound | outbound | both =>
        simp only [follow_logged hd,holds_content hr]
        exact ⟨fun h => if_pos h,fun h => if_neg h⟩

theorem readable_row (block : Direction) (r : Row) :
    (∀ x ∈ policyBlacklist block r, x.Readable e) ↔ r.Fit block := by
  have hmac : ((Match.mac r.ip).reads e).isSome = (hardware r.ip).isSome := Option.isSome_map
  have hsrc : ((Match.source r.ip).reads e).isSome = (area r.ip).isSome := Option.isSome_map
  have hdst : ((Match.dest r.ip).reads e).isSome = (area r.ip).isSome := Option.isSome_map
  have hstr : ((Match.content r.ip).reads e).isSome = true ↔ Stringy r.ip := by
    rw [reads_content]
    split
    · next h => exact iff_of_true rfl h
    · next h => exact iff_of_false nofun h
  have hnil : ∀ m ∈ ([] : List Match), (m.reads e).isSome = true := fun m hm => (List.not_mem_nil hm).elim
  unfold Row.Fit policyBlacklist
  by_cases hm : checkMac r.ip = true
  · simp only [hm,if_true]
    cases block with
    | outbound => simp
    | inbound => simp only [readable_logged _ _ _ hnil,hmac]; simp
    | both => simp only [readable_logged _ _ _ limited_reads,hmac]; simp
  · by_cases hs : ipShape r.ip = true
    · simp only [hm,hs,if_true,if_false,Bool.false_eq_true]
      cases block with
      | outbound => simp only [readable_logged _ _ _ hnil,hdst]
      | inbound => simp only [readable_logged _ _ _ hnil,hsrc]
      | both => simp only [List.forall_mem_append,readable_logged _ _ _ limited_reads,hsrc,hdst,and_self]
    · simp only [hm,hs,if_false,Bool.false_eq_true]
      cases block <;> simp only [readable_logged _ _ _ limitedString_reads,hstr]

theorem follow_rows {block : Direction} {rows : List Row} (hr : ∀ r ∈ rows, r.Fit block) :
    ((∃ r ∈ rows, Hits block r.ip p) → follow e jump p (rows.flatMap (policyBlacklist block)) = some (dropped block)) ∧
      ((¬∃ r ∈ rows, Hits block r.ip p) → follow e jump p (rows.flatMap (policyBlacklist block)) = none) := by
  induction rows with
  | nil => exact ⟨fun ⟨_,hm,_⟩ => (List.not_mem_nil hm).elim,fun _ => rfl⟩
  | cons r rows ih =>
    rw [List.forall_mem_cons] at hr
    obtain ⟨hhit,hmiss⟩ := @follow_row e jump p block r hr.1 (rows.flatMap (policyBlacklist block))
    obtain ⟨ihit,imiss⟩ := ih hr.2
    simp only [List.mem_cons,or_and_right,exists_or,exists_eq_left,List.flatMap_cons]
    by_cases h : Hits block r.ip p
    · exact ⟨fun _ => hhit h,fun hn => absurd (Or.inl h) hn⟩
    · rw [hmiss h]
      exact ⟨fun he => ihit (he.resolve_left h),fun hn => imiss fun he => hn (Or.inr he)⟩

def returned (ip : Str) : List Rule := if ip = [] then [] else [⟨chain,[.anyProto,.source ip],.back⟩]

theorem filter_logged (log : Bool) (m : Match) (extra : List Match) (note : Str) (t : Target) :
    (logged chain log m extra note t).filter (fun r => r.chain = chain) = logged chain log m extra note t ∧
      (logged "ACL1000-04" log m extra note t).filter (fun r => r.chain = chain) = [] := by
  unfold logged
  cases log <;> exact ⟨rfl,rfl⟩

theorem filter_row (block : Direction) (r : Row) :
    (policyBlacklist block r).filter (fun r => r.chain = chain) = policyBlacklist block r := by
  unfold policyBlacklist
  cases block <;> dsimp only <;> split <;> try split
  all_goals simp only [List.filter_append,(filter_logged _ _ _ _ _).1,List.filter_nil]

theorem filter_spyware (s : Setting) (r : Spyware) : (policySpyware s r).filter (fun r => r.chain = chain) = [] := by
  unfold policySpyware
  dsimp only
  split
  · split <;> simp only [List.filter_append,(filter_logged _ _ _ _ _).2,List.append_nil]
  · rfl

/-- The rules of the chain. -/
theorem filter_chain (s : Setting) (w : World) : (doPolicyBlacklist s w).filter (fun r => r.chain = chain) =
    (if s.stat = true ∨ s.spyware_stat = true then w.own.keys.flatMap returned else []) ++
      if s.stat = true then (w.rows.filter Row.stat).flatMap (policyBlacklist s.block) else [] := by
  have hret : ∀ ip, (returns ip).filter (fun r => r.chain = chain) = returned ip := by
    intro ip
    unfold returns returned
    split <;> rfl
  unfold doPolicyBlacklist
  rw [List.filter_append,List.filter_append]
  congr 1
  · split
    · simp only [List.filter_flatMap,hret]
    · rfl
  · have hspy : (if s.spyware_stat = true then w.spyware.flatMap (policySpyware s) else []).filter
        (fun r => r.chain = chain) = [] := by
      split
      · simp [List.filter_flatMap,filter_spyware]
      · rfl
    rw [hspy,List.append_nil]
    split
    · simp only [List.filter_flatMap,filter_row]
    · rfl

theorem applies_returned (ip : Str) :
    Rule.applies e p ⟨chain,[.anyProto,.source ip],.back⟩ = (area ip).any fun a => a.has p.frame.packet.src := by
  rw [Rule.applies,List.all_cons,List.all_cons,List.all_nil,Bool.and_true,holds_source]
  exact Bool.true_and _

theorem follow_own {w : World} (rs : List Rule) :
    (w.Own p → follow e jump p (w.own.keys.flatMap returned ++ rs) = none) ∧
      (¬w.Own p → follow e jump p (w.own.keys.flatMap returned ++ rs) = follow e jump p rs) := by
  unfold World.Own
  induction w.own.keys with
  | nil => exact ⟨fun ⟨_,hm,_⟩ => (List.not_mem_nil hm).elim,fun _ => rfl⟩
  | cons ip ips ih =>
    simp only [List.mem_cons,or_and_right,exists_or,exists_eq_left,List.flatMap_cons,List.append_assoc]
    by_cases hn : ip = []
    · rw [returned,if_pos hn,List.nil_append]
      simpa only [hn,ne_eq,not_true_eq_false,false_and,false_or] using ih
    · rw [returned,if_neg hn,List.singleton_append]
      by_cases ha : (area ip).any (fun a => a.has p.frame.packet.src) = true
      · refine ⟨fun _ => ?_,fun h => absurd (Or.inl ⟨hn,ha⟩) h⟩
        rw [follow,applies_returned,if_pos ha]
      · rw [follow_cons_of_not (by rw [applies_returned]; simpa using ha)]
        simpa only [ha,hn,ne_eq,not_false_eq_true,true_and,false_or,Bool.false_eq_true] using ih

/-- The rules can be put in place just when all addresses and strings fit. -/
theorem readable_iff (s : Setting) (w : World) : (∀ r ∈ doPolicyBlacklist s w, r.Readable e) ↔ w.Fit s := by
  have hown : ∀ ip, (∀ r ∈ returns ip, r.Readable e) ↔ (ip ≠ [] → (area ip).isSome = true) := by
    intro ip
    unfold returns
    by_cases hn : ip = []
    · simp [hn]
    · have hr : ∀ c : Str, Rule.Readable e ⟨c,[.anyProto,.source ip],.back⟩ ↔ (area ip).isSome = true := by
        intro c
        have hs : ((Match.source ip).reads e).isSome = (area ip).isSome := Option.isSome_map
        rw [← hs]
        exact List.forall_mem_cons.trans ((and_iff_right rfl).trans List.forall_mem_singleton)
      rw [if_neg hn,List.forall_mem_cons,List.forall_mem_singleton,hr,hr,and_self]
      exact ⟨fun h _ => h,fun h => h hn⟩
  have hspy : ∀ r : Spyware, (∀ x ∈ policySpyware s r, x.Readable e) ↔ (ipShape r.ip = true → (area r.ip).isSome = true) := by
    intro r
    have hsrc : ((Match.source r.ip).reads e).isSome = (area r.ip).isSome := Option.isSome_map
    have hdst : ((Match.dest r.ip).reads e).isSome = (area r.ip).isSome := Option.isSome_map
    unfold policySpyware
    by_cases hs : ipShape r.ip = true
    · simp only [hs,if_true,true_imp_iff]
      split <;> simp only [List.forall_mem_append,readable_logged _ _ _ limited_reads,hsrc,hdst,and_self]
    · simp [hs]
  have hif : ∀ (c : Prop) [Decidable c] (l : List Rule), (∀ r ∈ (if c then l else []), r.Readable e) ↔
      (c → ∀ r ∈ l, r.Readable e) := by
    intro c _ l
    split
    · next h => exact ⟨fun hl _ => hl,fun hl => hl h⟩
    · next h => exact iff_of_true (fun r hr => (List.not_mem_nil hr).elim) fun hc => absurd hc h
  unfold doPolicyBlacklist
  simp only [List.forall_mem_append,hif,List.forall_mem_flatMap,hown,hspy,readable_row,List.mem_filter]
  constructor
  · rintro ⟨ho,hr,hp⟩
    exact ⟨ho,fun hs r hm hst => hr hs r ⟨hm,hst⟩,hp⟩
  · rintro ⟨ho,hr,hp⟩
    exact ⟨ho,fun hs r hm => hr hs r hm.1 hm.2,hp⟩

/-- The verdict of the chain. -/
theorem walk_chain {s : Setting} {w : World} (hw : w.Fit s) : walk e (doPolicyBlacklist s w) p 1 chain =
    open Classical in if Listed s w p ∧ ¬w.Own p then some (dropped s.block) else none := by
  rw [walk,filter_chain]
  by_cases hs : s.stat = true
  · rw [if_pos (Or.inl hs),if_pos hs]
    obtain ⟨hown,hother⟩ := @follow_own e (walk e (doPolicyBlacklist s w) p 0) p w
      ((w.rows.filter Row.stat).flatMap (policyBlacklist s.block))
    obtain ⟨hhit,hmiss⟩ := @follow_rows e (walk e (doPolicyBlacklist s w) p 0) p s.block
      (w.rows.filter Row.stat) fun r hr => hw.rows hs r (List.mem_filter.mp hr).1 (List.mem_filter.mp hr).2
    have hl : Listed s w p ↔ ∃ r ∈ w.rows.filter Row.stat, Hits s.block r.ip p := by
      simp only [Listed,hs,true_and,List.mem_filter,and_assoc]
    rw [hl]
    by_cases ho : w.Own p
    · rw [hown ho,if_neg fun h => h.2 ho]
    · rw [hother ho]
      split
      · next h => exact hhit h.1
      · next h => exact hmiss fun hh => h ⟨hh,ho⟩
  · have hl : ¬Listed s w p := fun h => hs h.1
    obtain ⟨hown,hother⟩ := @follow_own e (walk e (doPolicyBlacklist s w) p 0) p w []
    have hc : ¬(Listed s w p ∧ ¬w.Own p) := fun h => hl h.1
    rw [if_neg hs,if_neg hc]
    split
    · by_cases ho : w.Own p
      · exact hown ho
      · exact hother ho
    · rfl

/-- The blacklist decides a packet as it is set exactly when its entries fit and, for a packet that an entry matches,
the packet is not the box's own and the action goes with the direction. -/
theorem blacklist_decides_iff (e : RuleTables.Env) (s : Setting) (w : World) (p : Seen) : Decides e s w p ↔
    w.Fit s ∧ (Listed s w p → ¬w.Own p ∧ (s.block = .outbound ↔ s.drop = .reject)) := by
  have hv : some (dropped s.block) = some s.drop.verdict ↔ (s.block = .outbound ↔ s.drop = .reject) := by
    cases s.block <;> cases s.drop <;> decide
  constructor
  · rintro ⟨rules,hload,hin,hout⟩
    obtain ⟨rfl,hr⟩ := load_iff.mp hload
    have hw := (readable_iff s w).mp hr
    refine ⟨hw,fun hl => ?_⟩
    have h := hin hl
    rw [walk_chain hw] at h
    split at h
    · next hc => exact ⟨hc.2,hv.mp h⟩
    · cases h
  · rintro ⟨hw,hc⟩
    refine ⟨_,load_iff.mpr ⟨rfl,(readable_iff s w).mpr hw⟩,fun hl => ?_,fun hl => ?_⟩
    · rw [walk_chain hw,if_pos ⟨hl,(hc hl).1⟩]
      exact hv.mpr (hc hl).2
    · rw [walk_chain hw,if_neg fun h => hl h.1]

def inboundReject : Setting := ⟨true,.inbound,.reject,false,.inbound,false,.drop⟩

def scanner : World := ⟨∅,[],[⟨"1","192.0.2.7",true,false⟩],[]⟩

def probe : Seen := ⟨⟨⟨3221225991,167772161,.tcp 40000 80⟩,"eth0",[]⟩,[],true⟩

/-- The packet is dropped, not rejected. -/
theorem reject_lost : ¬Decides Env.bare inboundReject scanner probe := by
  rintro ⟨rules,hload,hin,-⟩
  obtain ⟨rfl,-⟩ := load_iff.mp hload
  have hl : Listed inboundReject scanner probe := by
    refine ⟨rfl,_,List.mem_singleton_self _,rfl,?_⟩
    rw [Hits,if_neg (by decide),if_pos (by decide)]
    exact Or.inl ⟨by decide,by decide⟩
  have hw : walk Env.bare (doPolicyBlacklist inboundReject scanner) probe 1 chain = some .drop := by decide
  rw [hw] at hin
  exact absurd (hin hl) (by decide)

end BlacklistRules
end Mybox
