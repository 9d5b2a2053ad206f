import Mybox.Groups
import Mybox.PacketFilter
import Mybox.Runs
import Mathlib.Algebra.Order.Ring.Rat
import Mathlib.Data.Nat.Cast.Order.Basic

/-! Failed logins: `_SESSION_ATTEMPT` keeps a record for each address and blocks the address with a rule
in the ADMIN chain; `_SESSION_ATTEMPT_CHECK` and `_SESSION_ATTEMPT_DELETE` take records away again. -/
namespace Mybox
namespace Sessions

open Php RegistryFormat

/-- A record under the login path. -/
structure Login where
  cnt : ℕ
  time : ℚ
  block : Bool
  type : Str
  ip : Str
  deriving DecidableEq

/-- `-s $_ip -m tcp -p tcp --dport $_port -j LOG_DROP` in the chain ADMIN. -/
structure Drop where
  src : Str
  dport : Str
  deriving DecidableEq

structure State where
  /-- Address to record. -/
  login : OrdMap Str Login
  /-- The drop rules, first one first. -/
  rules : List Drop
  deriving DecidableEq

/-- What a call reads from the registry: `system.cfg`, `attempt_exclude.cfg` and what
`_DEFINITIONS_GET_BYNAME_R` gives for a name among the networks; and what `ip2long` makes of a text. -/
structure Reads where
  system : Token
  exclude : Token
  networks : Str → List Params
  ip2long : Str → Option ℤ

/-- What there is to read in a state of the registry. -/
def Reads.ofWorld (pcre : Pcre) (env : Env) (w : World) : Reads where
  system := (Registry.iniTokenGet env "system" "system.cfg" ∅ w).1
  exclude := (Registry.iniTokenGet env "system" "attempt_exclude.cfg" ∅ w).1
  networks n := (Definitions.definitionsGetBynameR pcre env .networks n w).1
  ip2long := env.ip2long

def servicePort (system : Token) (type : Str) : Str :=
  if type = ("ftp" : Str) then (system.getD "service_ftp" ∅).val "PORT"
  else if type = ("ssh" : Str) then (system.getD "service_ssh" ∅).val "PORT"
  else if type = ("web" : Str) then (system.getD "service_http" ∅).val "PORT"
  else []

/-- Whether the rules could be loaded, and the rules: `-I` puts a rule in front, `-D` takes the first
one away that is the same. -/
def sessionAttemptBlock (system : Token) (ip type : Str) (opt : Bool) (rules : List Drop) :
    Bool × List Drop :=
  let port := servicePort system type
  if system.isEmpty || null port then (false,rules)
  else if opt then (true,⟨ip,port⟩::rules)
  else if ⟨ip,port⟩ ∈ rules then (true,rules.erase ⟨ip,port⟩)
  else (false,rules)

/-- `_CHK_HOSTRANGE`: not (start > stop), where `FALSE` stands for what is not read and makes the comparison one of
truth values. -/
def chkHostrange (ip2long : Str → Option ℤ) (start stop : Str) : Bool :=
  match ip2long start,ip2long stop with
  | some x,some y => x ≤ y
  | some x,none => x = 0
  | none,_ => true

/-- Whether an object stands for an address that is left alone. -/
def excludes (ip2long : Str → Option ℤ) (ip : Str) (d : Params) : Bool :=
  let hip := split '-' (d.val "ADDR")
  looseEq (d.val "NAME") "any" ||
  looseEq (d.val "__DATA_TYPE") "hostrange" && chkHostrange ip2long (hip.getD 0 []) ip &&
    chkHostrange ip2long ip (hip.getD 1 []) ||
  looseEq (d.val "ADDR") ip

def sessionAttemptExclude (r : Reads) (ip : Str) : Bool :=
  r.exclude.entries.any fun e => !null (e.2.val "HOST") && (r.networks (e.2.val "HOST")).any (excludes r.ip2long ip)

def Reads.attempt (r : Reads) : ℚ := toNumber ((r.system.getD "security" ∅).val "ATTEMPT")

def Reads.block (r : Reads) : ℚ := toNumber ((r.system.getD "security" ∅).val "BLOCK")

def Reads.disabled (r : Reads) : Bool := r.attempt = 0 || r.block = 0

/-- A turn of the loop of `_SESSION_ATTEMPT_CHECK`. -/
def checkRecord (system : Token) (now : ℕ) (s : State) (e : Str × Login) : State :=
  if e.2.time ≤ now then
    { login := s.login.erase e.1
      rules := if e.2.block then (sessionAttemptBlock system e.2.ip e.2.type false s.rules).2 else s.rules }
  else s

def sessionAttemptCheck (system : Token) (now : ℕ) (s : State) : State :=
  s.login.entries.foldl (checkRecord system now) s

def sessionAttemptDelete (ip : Str) (s : State) : State := { s with login := s.login.erase ip }

/-- The record of an address that fails and is not blocked yet. -/
def counted (now : ℕ) (ip type : Str) (cnt : ℕ) : Login := ⟨cnt + 1,now + 60*5,false,type,ip⟩

def sessionAttempt (r : Reads) (now : ℕ) (ip type : Str) (s : State) : Bool × State :=
  if ip = ("unknown" : Str) then (false,s)
  else if r.disabled then (false,{ s with login := ∅ })
  else if sessionAttemptExclude r ip then (false,s)
  else match s.login.get? ip with
  | some d =>
    if d.block then (false,sessionAttemptCheck r.system now s)
    else if r.attempt ≤ d.cnt then
      (true,⟨s.login.set ip { d with block := true, time := now + r.block },
        (sessionAttemptBlock r.system ip type true s.rules).2⟩)
    else (true,{ s with login := s.login.set ip (counted now ip type d.cnt) })
  | none => (true,{ s with login := s.login.set ip (counted now ip type 0) })

inductive Call
  | attempt (ip type : Str)
  | check
  | delete (ip : Str)

structure Event where
  call : Call
  now : ℕ
  reads : Reads

def step (s : State) (e : Event) : State :=
  match e.call with
  | .attempt ip type => (sessionAttempt e.reads e.now ip type s).2
  | .check => sessionAttemptCheck e.reads.system e.now s
  | .delete ip => sessionAttemptDelete ip s

def run (s : State) (es : List Event) : State := es.foldl step s

section Rules

variable (port : Str → Str)

def dropOf (e : Str × Login) : Option Drop :=
  if e.2.block && !null (port e.2.type) then some ⟨e.1,port e.2.type⟩ else none

def drops (m : OrdMap Str Login) : List Drop := m.entries.filterMap (dropOf port)

/-- The rules are the ones the records call for, in any order. -/
def Matched (s : State) : Prop := s.rules.Perm (drops port s.login)

def Named (s : State) : Prop := ∀ ip d, s.login.get? ip = some d → d.ip = ip

variable {port}

def ruleOf (port : Str → Str) (ip type : Str) : Option Drop :=
  if null (port type) then none else some ⟨ip,port type⟩

variable {system : Token} {now : ℕ}

theorem checkRecord_get? (s : State) (e : Str × Login) (k : Str) :
    (checkRecord system now s e).login.get? k =
      if e.1 = k ∧ e.2.time ≤ now then none else s.login.get? k := by
  unfold checkRecord
  split
  · rename_i ht
    simp only [OrdMap.get?_erase,ht,and_true]
  · rename_i ht
    simp [ht]

theorem checkRecords_get? {es : List (Str × Login)} (hd : (es.map Prod.fst).Nodup) : ∀ {s : State},
    (∀ e ∈ es, s.login.get? e.1 = some e.2) → ∀ k, (es.foldl (checkRecord system now) s).login.get? k =
      if k ∈ es.map Prod.fst then (s.login.get? k).filter (fun d => !decide (d.time ≤ (now : ℚ)))
      else s.login.get? k := by
  induction es with
  | nil => simp
  | cons e es ih =>
    intro s hs k
    rw [List.map_cons,List.nodup_cons] at hd
    have hne : ∀ x ∈ es, e.1 ≠ x.1 := fun x hx he => hd.1 (he ▸ List.mem_map.mpr ⟨x,hx,rfl⟩)
    have hrest : ∀ x ∈ es, (checkRecord system now s e).login.get? x.1 = some x.2 := fun x hx => by
      rw [checkRecord_get?,if_neg fun h => hne x hx h.1]
      exact hs x (List.mem_cons_of_mem _ hx)
    rw [List.foldl_cons,ih hd.2 hrest,checkRecord_get?]
    by_cases hk : e.1 = k
    · subst hk
      have hm : e.1 ∈ (e::es).map Prod.fst := by simp
      rw [if_neg hd.1,if_pos hm,hs e (by simp)]
      by_cases ht : e.2.time ≤ now <;> simp [Option.filter,ht]
    · simp only [hk,false_and,if_false,List.map_cons,List.mem_cons,Ne.symm hk,false_or]

theorem check_get? (s : State) (k : Str) : (sessionAttemptCheck system now s).login.get? k =
    (s.login.get? k).filter (fun d => !decide (d.time ≤ (now : ℚ))) := by
  unfold sessionAttemptCheck
  rw [checkRecords_get? s.login.nodup fun e he => OrdMap.get?_eq_some.mpr he]
  split
  · rfl
  · rename_i hk
    rw [OrdMap.get?_eq_none.mpr hk]
    rfl

/-- The condition of a call: nothing is switched off or deleted that has a rule, and a block begins on
the port of the service in the record. -/
def Clear (port : Str → Str) (s : State) (e : Event) : Prop :=
  match e.call with
  | .attempt ip type =>
    ip = ("unknown" : Str) ∨
    if e.reads.disabled then ∀ x ∈ s.login.entries, x.2.block = true → port x.2.type = []
    else sessionAttemptExclude e.reads ip = true ∨ ∀ d, s.login.get? ip = some d → d.block = false →
      e.reads.attempt ≤ d.cnt → port type = port d.type
  | .check => True
  | .delete ip => ∀ d, s.login.get? ip = some d → d.block = true → port d.type = []

def loginWorld : World := World.ofFiles [("system","system.cfg",
  "ID=service_ssh\nPORT=22\nID=service_ftp\nPORT=21\nID=security\nATTEMPT=1\nBLOCK=600\n")]

def loginReads : Reads := .ofWorld Pcre.plain noonEnv loginWorld

theorem loginReads_read :
    ((loginReads.system.getD "service_ftp" ∅).val "PORT" = ("21" : Str) ∧
      (loginReads.system.getD "service_ssh" ∅).val "PORT" = ("22" : Str) ∧
      (loginReads.system.getD "service_http" ∅).val "PORT" = ([] : Str)) ∧
    loginReads.attempt = (1 : ℕ) ∧ 0 < loginReads.block ∧ sessionAttemptExclude loginReads "10.0.0.5" = false := by
  decide +kernel

def fails (now : ℕ) (type : Str) : Event := ⟨.attempt "10.0.0.5" type,now,loginReads⟩

def sweep (now : ℕ) : Event := ⟨.check,now,loginReads⟩

end Rules

section Threshold

variable (ip : Str)

def Blocked (s : State) : Prop := ∃ d, s.login.get? ip = some d ∧ d.block = true

/-- A call, and how many failures of the address there have been since its record was taken away. -/
def tallyStep (p : State × ℕ) (e : Event) : State × ℕ :=
  (step p.1 e,
    if (p.1.login.get? ip).isSome && ((step p.1 e).login.get? ip).isNone then 0
    else match e.call with
    | .attempt i _ => if i = ip then p.2 + 1 else p.2
    | _ => p.2)

def tally (s : State) (es : List Event) : ℕ := (es.foldl (tallyStep ip) (s,0)).2

variable {ip}

theorem tally_run (s : State) (n : ℕ) (es : List Event) :
    (es.foldl (tallyStep ip) (s,n)).1 = run s es := by
  induction es generalizing s n with
  | nil => rfl
  | cons e es ih => exact ih (step s e) _

def Tallied (n : ℕ) (p : State × ℕ) (ip : Str) : Prop :=
  match p.1.login.get? ip with
  | none => p.2 = 0
  | some d => if d.block then n < p.2 else d.cnt = p.2 ∧ p.2 ≤ n

theorem swept_or_same (now : ℕ) (system : Token) (s : State) :
    (sessionAttemptCheck system now s).login.get? ip = s.login.get? ip ∨
      (sessionAttemptCheck system now s).login.get? ip = none := by
  rw [check_get?]
  cases s.login.get? ip with
  | none => exact Or.inl rfl
  | some d => by_cases h : d.time ≤ now <;> simp [Option.filter,h]

/-- A call that is no failure of the address leaves its record or takes it away. -/
theorem step_other {s : State} {e : Event} (hr : e.reads.disabled = false)
    (he : ∀ type, e.call ≠ .attempt ip type) : (step s e).login.get? ip = s.login.get? ip ∨
      (step s e).login.get? ip = none := by
  obtain ⟨call,now,r⟩ := e
  cases call with
  | check => exact swept_or_same now r.system s
  | delete i =>
    change (s.login.erase i).get? ip = _ ∨ (s.login.erase i).get? ip = _
    rw [OrdMap.get?_erase]
    split
    · exact Or.inr rfl
    · exact Or.inl rfl
  | attempt i type =>
    have hi : i ≠ ip := fun h => he type (by rw [h])
    have hset : ∀ d, (s.login.set i d).get? ip = s.login.get? ip := fun d => OrdMap.get?_set_ne _ d hi
    change r.disabled = false at hr
    simp only [step,sessionAttempt,hr,Bool.false_eq_true,if_false]
    split
    · exact Or.inl rfl
    · split
      · exact Or.inl rfl
      · split
        · split
          · exact swept_or_same now r.system s
          · split
            · exact Or.inl (hset _)
            · exact Or.inl (hset _)
        · exact Or.inl (hset _)

theorem Tallied.other {n : ℕ} {p : State × ℕ} {e : Event} (h : Tallied n p ip)
    (hr : e.reads.disabled = false) (he : ∀ type, e.call ≠ .attempt ip type) :
    Tallied n (tallyStep ip p e) ip := by
  have hc : (match e.call with | .attempt i _ => if i = ip then p.2 + 1 else p.2 | _ => p.2) = p.2 := by
    cases hcall : e.call with
    | check => rfl
    | delete => rfl
    | attempt i type =>
      have hi : i ≠ ip := fun hi => he type (by rw [hcall,hi])
      exact if_neg hi
  unfold Tallied tallyStep at *
  dsimp only
  rw [hc]
  rcases step_other hr he with hs | hs <;> rw [hs]
  · cases hg : p.1.login.get? ip with
    | none => simpa [hg] using h
    | some d => simpa [hg] using h
  · cases hg : p.1.login.get? ip with
    | none => simpa [hg] using h
    | some d => simp

/-- The record of an address that fails. -/
theorem attempt_get? {s : State} {r : Reads} {now : ℕ} {type : Str} (hr : r.disabled = false)
    (hu : ip ≠ ("unknown" : Str)) (hx : sessionAttemptExclude r ip = false) :
    match s.login.get? ip with
    | none => (sessionAttempt r now ip type s).2.login.get? ip = some (counted now ip type 0)
    | some d =>
      (d.block = true → (sessionAttempt r now ip type s).2.login.get? ip = some d ∨
        (sessionAttempt r now ip type s).2.login.get? ip = none) ∧
      (d.block = false → r.attempt ≤ d.cnt →
        ∃ x, (sessionAttempt r now ip type s).2.login.get? ip = some x ∧ x.block = true) ∧
      (d.block = false → ¬ r.attempt ≤ d.cnt →
        (sessionAttempt r now ip type s).2.login.get? ip = some (counted now ip type d.cnt)) := by
  have hs : sessionAttempt r now ip type s = match s.login.get? ip with
      | some d =>
        if d.block then (false,sessionAttemptCheck r.system now s)
        else if r.attempt ≤ d.cnt then
          (true,⟨s.login.set ip { d with block := true, time := now + r.block },
            (sessionAttemptBlock r.system ip type true s.rules).2⟩)
        else (true,{ s with login := s.login.set ip (counted now ip type d.cnt) })
      | none => (true,{ s with login := s.login.set ip (counted now ip type 0) }) := by
    rw [sessionAttempt,if_neg hu,if_neg (by simp [hr]),if_neg (by simp [hx])]
  rw [hs]
  cases hg : s.login.get? ip with
  | none => exact OrdMap.get?_set_self ..
  | some d =>
    refine ⟨fun hb => ?_,fun hb ht => ?_,fun hb ht => ?_⟩
    · simp only [hb,if_true]
      have hc := @swept_or_same ip now r.system s
      rwa [hg] at hc
    · simp only [hb,Bool.false_eq_true,if_false,ht,if_true]
      exact ⟨_,OrdMap.get?_set_self ..,rfl⟩
    · simp only [hb,Bool.false_eq_true,if_false,ht]
      exact OrdMap.get?_set_self ..

theorem Tallied.failure {n : ℕ} {p : State × ℕ} {now : ℕ} {r : Reads} {type : Str} (h : Tallied n p ip)
    (hn : 1 ≤ n) (ha : r.attempt = n) (hr : r.disabled = false) (hu : ip ≠ ("unknown" : Str))
    (hx : sessionAttemptExclude r ip = false) :
    Tallied n (tallyStep ip p ⟨.attempt ip type,now,r⟩) ip := by
  have hs : step p.1 ⟨.attempt ip type,now,r⟩ = (sessionAttempt r now ip type p.1).2 := rfl
  have hg := @attempt_get? ip p.1 r now type hr hu hx
  unfold Tallied tallyStep at *
  dsimp only
  rw [hs]
  cases hl : p.1.login.get? ip with
  | none =>
    rw [hl] at h hg
    dsimp only at h hg
    simp only [hg,Option.isSome_none,Bool.false_and,Bool.false_eq_true,if_false,if_true,counted]
    omega
  | some d =>
    rw [hl] at h hg
    dsimp only at h hg
    obtain ⟨hblock,hfull,hcount⟩ := hg
    have hle : r.attempt ≤ d.cnt ↔ n ≤ d.cnt := by
      rw [ha]
      exact Nat.cast_le
    by_cases hb : d.block = true
    · rw [if_pos hb] at h
      rcases hblock hb with hc | hc
      · simp only [hc,hb,if_true,Option.isSome_some,Option.isNone_some,Bool.and_false,Bool.false_eq_true,
          if_false]
        omega
      · simp [hc]
    · rw [if_neg hb] at h
      rw [Bool.not_eq_true] at hb
      by_cases ht : n ≤ d.cnt
      · obtain ⟨x,hc,hxb⟩ := hfull hb (hle.mpr ht)
        simp only [hc,hxb,if_true,Option.isSome_some,Option.isNone_some,Bool.and_false,Bool.false_eq_true,
          if_false]
        omega
      · simp only [hcount hb (mt hle.mp ht),counted,if_true,Option.isSome_some,Option.isNone_some,
          Bool.and_false,Bool.false_eq_true,if_false]
        omega

theorem Tallied.blocked_iff {n : ℕ} {p : State × ℕ} (h : Tallied n p ip) : Blocked ip p.1 ↔ n < p.2 := by
  unfold Tallied at h
  unfold Blocked
  cases hg : p.1.login.get? ip with
  | none =>
    rw [hg] at h
    simp only [reduceCtorEq,false_and,exists_false,false_iff]
    dsimp only at h
    omega
  | some d =>
    rw [hg] at h
    cases hb : d.block <;> simp only [hb,Bool.false_eq_true,if_false,if_true] at h <;>
      simp only [Option.some.injEq,exists_eq_left',hb,Bool.false_eq_true,false_iff,true_iff] <;> omega

/-- An address is blocked as soon as it has failed `n` times, and not before, exactly while it has not
failed `n` times and no more. -/
theorem blocked_at_threshold_iff {r : Reads} {n : ℕ} (hn : 1 ≤ n) (ha : r.attempt = n) (hb : 0 < r.block)
    (hu : ip ≠ ("unknown" : Str)) (hx : sessionAttemptExclude r ip = false) {s : State}
    (h₀ : s.login.get? ip = none) {es : List Event} (hr : ∀ e ∈ es, e.reads = r) :
    (Blocked ip (run s es) ↔ n ≤ tally ip s es) ↔ tally ip s es ≠ n := by
  have hd : r.disabled = false := by
    have h₁ : r.attempt ≠ 0 := by
      rw [ha]
      exact Nat.cast_ne_zero.mpr (by omega)
    simp [Reads.disabled,h₁,hb.ne']
  have hall : ∀ es : List Event, (∀ e ∈ es, e.reads = r) → ∀ p : State × ℕ, Tallied n p ip →
      Tallied n (es.foldl (tallyStep ip) p) ip := by
    intro es
    induction es with
    | nil => exact fun _ _ h => h
    | cons e es ih =>
      intro hr p h
      obtain ⟨call,now,r'⟩ := e
      obtain rfl : r' = r := hr ⟨call,now,r'⟩ (by simp)
      refine ih (fun x hx => hr x (List.mem_cons_of_mem _ hx)) _ ?_
      by_cases hc : ∃ type, call = .attempt ip type
      · obtain ⟨type,rfl⟩ := hc
        exact h.failure hn ha hd hu hx
      · exact h.other hd fun type ht => hc ⟨type,ht⟩
  have hrun := (hall es hr (s,0) (by rw [Tallied,h₀])).blocked_iff
  rw [tally_run] at hrun
  rw [hrun,tally]
  omega

theorem blocked_at_threshold_iff_ssh :
    (Blocked "10.0.0.5" (run ⟨∅,[]⟩ [fails 0 "ssh",fails 5 "ssh"]) ↔
      1 ≤ tally "10.0.0.5" ⟨∅,[]⟩ [fails 0 "ssh",fails 5 "ssh"]) ↔
      tally "10.0.0.5" ⟨∅,[]⟩ [fails 0 "ssh",fails 5 "ssh"] ≠ 1 :=
  blocked_at_threshold_iff (r:=loginReads) (by decide) loginReads_read.2.1 loginReads_read.2.2.1 (by decide)
    loginReads_read.2.2.2 rfl fun e he => by
      simp only [List.mem_cons,List.not_mem_nil,or_false] at he
      rcases he with rfl | rfl <;> rfl

/-- The failure that reaches the number of attempts is still let go. -/
theorem not_blocked_at_threshold : ¬ ∀ es : List Event, (∀ e ∈ es, e.reads = loginReads) →
    (Blocked "10.0.0.5" (run ⟨∅,[]⟩ es) ↔ 1 ≤ tally "10.0.0.5" ⟨∅,[]⟩ es) := by
  intro h
  have hb := h [fails 0 "ssh"] fun e he => by
    simp only [List.mem_cons,List.not_mem_nil,or_false] at he
    rw [he]
    rfl
  obtain ⟨d,hd,ho⟩ := hb.mpr (by decide)
  have hopen : ((run ⟨∅,[]⟩ [fails 0 "ssh"]).login.get? "10.0.0.5").all fun d => !d.block := by
    decide +kernel
  rw [hd] at hopen
  simp [ho] at hopen

end Threshold

end Sessions
end Mybox
