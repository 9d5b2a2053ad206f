import Mybox.PortalSessions

/-! What the shell is given while a request to the captive portal is served: every command as the fields of the
request make it, and the accounts behind the queries. -/
namespace Mybox
namespace Portal
open Php

variable {ρ : Type} [DecidableEq ρ] (g : Setting ρ)

def special (c : Char) : Bool := ("|&;<>()$`\\\"'*?[]#~={}!%^" : Str).contains c || c = '\n' || c = '\r' || c = '\x00'

def wordBreak (c : Char) : Bool := c = ' ' || c = '\t'

def words (s : Str) : List Str := (s.splitOnP wordBreak).filter (· ≠ [])

/-- The words of a command that is one plain command and nothing else. -/
def simpleCommand (s : Str) : Option (List Str) := if s.any special then none else some (words s)

/-- `iptables` on the portal chain, for an address and a hardware address. -/
def invocation (opt : Access) (a m : Str) : List Str :=
  ["/bin/iptables","-t","mangle",'-'::opt.letter,"ACL1004-00","-s",a,"-m","mac","--mac-source",m,"-j","MARK",
    "--set-mark","4294967295"]

/-- The call runs `iptables` once, for the address and a hardware address that is well formed. -/
def Invokes (k : Call) (a : Str) : Prop :=
  ∃ m, Hardware m ∧ simpleCommand k.command = some (invocation k.opt a m)

/-- A text that is one word, with nothing but blanks around it. -/
def Given (s w : Str) : Prop := s.any special = false ∧ words s = [w]

instance (s w : Str) : Decidable (Given s w) := inferInstanceAs (Decidable (_ ∧ _))

theorem words_append (s t : Str) : words (s ++ ' '::t) = words s ++ words t := by
  unfold words
  rw [List.splitOnP_append_cons _ _ (by decide),List.filter_append]

theorem not_special_append (s t : Str) : (s ++ ' '::t).any special = false ↔ s.any special = false ∧ t.any special = false := by
  have h : special ' ' = false := by decide
  rw [List.any_append,List.any_cons,h,Bool.false_or,Bool.or_eq_false_iff]

def commandHead (opt : Access) : Str := "/bin/iptables -t mangle -" ++ opt.letter ++ " ACL1004-00 -s"

def commandTail : Str := "-j MARK --set-mark 4294967295"

theorem command_eq {k : Call} (h : k.mac ≠ []) : k.command =
    commandHead k.opt ++ ' '::(k.ip ++ ' '::("-m mac --mac-source" ++ ' '::(k.mac ++ ' '::commandTail))) := by
  have h₁ : (" ACL1004-00 -s " : Str) = " ACL1004-00 -s" ++ [' '] := by decide
  have h₂ : ("-m mac --mac-source " : Str) = "-m mac --mac-source" ++ [' '] := by decide
  have h₃ : (" -j MARK --set-mark 4294967295" : Str) = ' '::commandTail := by decide
  have h₄ : (" " : Str) = [' '] := rfl
  rw [Call.command,if_pos h,h₁,h₂,h₃,h₄,commandHead]
  simp only [List.append_assoc,List.cons_append,List.nil_append]

theorem words_head (opt : Access) : (commandHead opt).any special = false ∧
    words (commandHead opt) = (["/bin/iptables","-t","mangle",'-'::opt.letter,"ACL1004-00","-s"] : List Str) := by
  cases opt <;> decide

theorem words_tail : commandTail.any special = false ∧ words commandTail = (["-j","MARK","--set-mark","4294967295"] : List Str) := by
  decide

theorem words_middle : ("-m mac --mac-source" : Str).any special = false ∧
    words ("-m mac --mac-source" : Str) = (["-m","mac","--mac-source"] : List Str) := by decide

theorem address_ne {a : Str} (h : Address a) : a ≠ ("-m" : Str) := by
  rintro rfl
  exact absurd h (by decide)

/-- Only one word can stand in each of the two places. -/
theorem words_between {ws vs : List Str} {a m : Str} (ha : a ≠ ("-m" : Str)) :
    ws ++ ((["-m","mac","--mac-source"] : List Str) ++ vs) = a::((["-m","mac","--mac-source"] : List Str) ++ [m]) ↔
      ws = [a] ∧ vs = [m] := by
  constructor
  · intro h
    have hl := congrArg List.length h
    simp only [List.length_append,List.length_cons,List.length_nil] at hl
    match ws,vs,hl,h with
    | [],_,_,h =>
      simp only [List.nil_append,List.cons_append,List.cons.injEq] at h
      exact absurd h.1.symm ha
    | [w],[v],_,h =>
      simp only [List.cons_append,List.nil_append,List.cons.injEq,true_and,and_true] at h
      exact ⟨by rw [h.1],by rw [h.2]⟩
    | [w,u],[],_,h =>
      simp only [List.cons_append,List.nil_append,List.cons.injEq] at h
      exact absurd h.2.2.1 (by decide)
    | [w],[],hl,_ => simp at hl
    | [w],_::_::_,hl,_ => simp at hl; omega
    | [w,u],_::_,hl,_ => simp at hl; omega
    | _::_::_::_,_,hl,_ => simp at hl; omega
  · rintro ⟨rfl,rfl⟩
    rfl

/-- The call is what it should be exactly if its two texts are an address and a hardware address. -/
theorem invokes_iff {k : Call} {a : Str} (hm : k.mac ≠ []) (ha : a ≠ ("-m" : Str)) :
    Invokes k a ↔ Given k.ip a ∧ ∃ m, Hardware m ∧ Given k.mac m := by
  obtain ⟨hs₁,hw₁⟩ := words_head k.opt
  obtain ⟨hs₂,hw₂⟩ := words_middle
  obtain ⟨hs₃,hw₃⟩ := words_tail
  have hwords : words k.command = words (commandHead k.opt) ++ ((words k.ip ++ ((["-m","mac","--mac-source"] : List Str) ++
      words k.mac)) ++ words commandTail) := by
    rw [command_eq hm,words_append,words_append,words_append,words_append,hw₂]
    simp only [List.append_assoc]
  have hinv : ∀ m, invocation k.opt a m = words (commandHead k.opt) ++ ((a::((["-m","mac","--mac-source"] : List Str) ++
      [m])) ++ words commandTail) := by
    intro m
    rw [hw₁,hw₃]
    rfl
  have hspecial : k.command.any special = false ↔ k.ip.any special = false ∧ k.mac.any special = false := by
    rw [command_eq hm,not_special_append,not_special_append,not_special_append,not_special_append,hs₁,hs₂,hs₃]
    simp
  have key : ∀ m, simpleCommand k.command = some (invocation k.opt a m) ↔ Given k.ip a ∧ Given k.mac m := by
    intro m
    rw [simpleCommand,hwords,hinv]
    constructor
    · intro h
      split at h
      · cases h
      · rename_i hn
        obtain ⟨hi,hmm⟩ := hspecial.mp (Bool.eq_false_iff.mpr hn)
        have hb := List.append_cancel_right (List.append_cancel_left (Option.some.inj h))
        obtain ⟨hwi,hwm⟩ := (words_between ha).mp hb
        exact ⟨⟨hi,hwi⟩,hmm,hwm⟩
    · rintro ⟨⟨hi,hwi⟩,hmm,hwm⟩
      rw [if_neg (by rw [hspecial.mpr ⟨hi,hmm⟩]; simp),hwi,hwm]
      rfl
  unfold Invokes
  constructor
  · rintro ⟨m,hh,h⟩
    exact ⟨((key m).mp h).1,m,hh,((key m).mp h).2⟩
  · rintro ⟨hi,m,hh,h⟩
    exact ⟨m,hh,(key m).mpr ⟨hi,h⟩⟩

@[simp] theorem doAccess_calls (ip mac : Str) (opt : Access) (w : World ρ) :
    (doAccess g ip mac opt w).2.calls = w.calls ++ [⟨opt,ip,mac⟩] := by
  unfold doAccess
  cases g.rule ip mac <;> cases opt <;> rfl

def Request.call (q : Request) (opt : Access) : Call := ⟨opt,q.myip.getD [],q.mymac.getD []⟩

def displacedCalls (q : Request) (files : OrdMap Str Session) : List Call :=
  (q.displaced files).toList.map fun e => ⟨.D,e.ip,e.mac⟩

/-- What the lookup of a name or a key leads to. -/
inductive Verdict
  | unknown
  | ended
  | known
  deriving DecidableEq

def Verdict.calls (q : Request) : Verdict → List Call
  | unknown => []
  | ended => [q.call .D]
  | known => [q.call .D,q.call .A]

def userVerdict (q : Request) : Verdict := if (account g q).isSome = true then .known else .unknown

def keyVerdict (t : ℚ) (q : Request) : Verdict :=
  match (g.wifiRows (keyQuery (q.wifikey.getD []))).getLast? with
  | some r => if r.id = [] then .unknown else if r.over t = true then .ended else if r.wifiKey = [] then .unknown else .known
  | none => .unknown

def verdict (t : ℚ) (q : Request) : Verdict := if g.intouch = true then keyVerdict g t q else userVerdict g q

/-- The request with what it is checked by as the user name. -/
def asked (q : Request) : Request := if g.intouch = true then q.withKey else q

def requestCalls (t : ℚ) (q : Request) (files : OrdMap Str Session) : List Call :=
  if (asked g q).opens t files = true then displacedCalls (asked g q) files ++ (verdict g t q).calls q
  else if q.leaves t = true then [q.call .D]
  else []

theorem displace_calls (q : Request) (w : World ρ) : (displace g q w).calls = w.calls ++ displacedCalls q w.files := by
  unfold displace displacedCalls
  cases q.displaced w.files with
  | none => simp
  | some e => exact doAccess_calls g e.ip e.mac .D w

theorem logout_calls {t : ℚ} {q : Request} (h : q.leaves t = true) (w : World ρ) :
    (logout g q w).calls = w.calls ++ [q.call .D] := by
  simp only [Request.leaves,Bool.and_eq_true] at h
  rw [logout,if_pos h.2]
  exact doAccess_calls g _ _ .D w

theorem relet_calls (q : Request) (w : World ρ) :
    (doAccess g (q.myip.getD []) (q.mymac.getD []) .A (doAccess g (q.myip.getD []) (q.mymac.getD []) .D w).2).2.calls =
      w.calls ++ [q.call .D,q.call .A] := by simp [Request.call]

theorem grant_calls (t : ℚ) (q : Request) (name : Str) (w : World ρ) :
    (grant g t (q.myip.getD []) (q.mymac.getD []) name w).calls = w.calls ++ [q.call .D,q.call .A] := by
  have h := relet_calls g q w
  unfold grant
  dsimp only
  split <;> rename_i v hv <;> rw [hv] at h <;> exact h

theorem keyGrant_calls (t : ℚ) (q : Request) (r : WifiRow) (w : World ρ) :
    (keyGrant g t (q.myip.getD []) (q.mymac.getD []) r w).calls = w.calls ++
      Verdict.calls q (if r.id = [] then .unknown else if r.over t = true then .ended
        else if r.wifiKey = [] then .unknown else .known) := by
  have h := relet_calls g q w
  unfold keyGrant
  split
  · simp [Verdict.calls]
  · split
    · exact doAccess_calls g _ _ .D w
    · split
      · simp [Verdict.calls]
      · dsimp only
        split <;> rename_i v hv <;> rw [hv] at h <;> exact h

theorem index_calls (t : ℚ) (q : Request) (w : World ρ) : (index g t q w).calls = w.calls ++ requestCalls g t q w.files := by
  unfold index requestCalls asked verdict
  cases hi : g.intouch with
  | true =>
    simp only [if_true]
    have hp : keyServe g t q w = page g (enter g q.withKey fun w =>
        match (g.wifiRows (keyQuery (q.wifikey.getD []))).getLast? with
        | some r => keyGrant g t (q.myip.getD []) (q.mymac.getD []) r w
        | none => w) t q.withKey w := rfl
    rw [hp]
    cases ho : q.withKey.opens t w.files with
    | true =>
      rw [page_opens g ho,if_pos rfl,keyVerdict]
      cases (g.wifiRows (keyQuery (q.wifikey.getD []))).getLast? with
      | none => simp [displace_calls,Verdict.calls]
      | some r => simp [keyGrant_calls,displace_calls]
    | false =>
      rw [page_not_opens g ho,if_neg Bool.false_ne_true]
      have hk : q.withKey.leaves t = q.leaves t := rfl
      rw [hk]
      by_cases hl : q.leaves t = true
      · rw [if_pos hl,if_pos hl]
        exact logout_calls g hl w
      · rw [if_neg hl,if_neg hl,List.append_nil]
  | false =>
    simp only [Bool.false_eq_true,if_false]
    cases ho : q.opens t w.files with
    | true =>
      rw [serve_opens g ho,if_pos rfl,userVerdict]
      cases account g q with
      | none => simp [displace_calls,Verdict.calls]
      | some name => simp [grant_calls,displace_calls,Verdict.calls]
    | false =>
      rw [serve_not_opens g ho,if_neg Bool.false_ne_true]
      by_cases hl : q.leaves t = true
      · rw [if_pos hl,if_pos hl]
        exact logout_calls g hl w
      · rw [if_neg hl,if_neg hl,List.append_nil]

structure Account where
  name : Str
  passwd : Str
  stat : Str
  deriving DecidableEq

/-- `addslashes`, as `magic_quotes_gpc` has it done to every field. -/
def addslashes (s : Str) : Str :=
  s.flatMap fun c => if c = '\'' ∨ c = '"' ∨ c = '\\' then ['\\',c] else if c = '\x00' then ['\\','0'] else [c]

def Request.slashed (q : Request) : Request :=
  { q with
    doSave := q.doSave.map addslashes
    serial := q.serial.map addslashes
    justLogin := q.justLogin.map addslashes
    mymac := q.mymac.map addslashes
    myip := q.myip.map addslashes
    username := q.username.map addslashes
    wifikey := q.wifikey.map addslashes
    pass := q.pass.map addslashes
    forceLogout := q.forceLogout.map addslashes }

/-- The tables behind the two queries. SQLite ends a string at the next quotation mark; MySQL reads it back from the
text with backslashes, and compares in its own way. -/
structure Tables (g : Setting ρ) where
  accounts : List Account
  keys : List WifiRow
  sameKey : Str → Str → Bool
  rows_eq : ∀ u p, '\'' ∉ u → '\'' ∉ p → g.rows (accountQuery u p) =
    (accounts.filter fun a => a.stat = ("1" : Str) ∧ a.name = u ∧ a.passwd = p).map Account.name
  wifiRows_eq : ∀ k, g.wifiRows (keyQuery (addslashes k)) = keys.filter fun r => r.stat = ("1" : Str) ∧ sameKey k r.wifiKey = true

/-- The request has the name and password, or the key, of an enabled account. -/
def Credentials {g : Setting ρ} (d : Tables g) (q : Request) : Prop :=
  if g.intouch = true then ∃ r ∈ d.keys, r.stat = ("1" : Str) ∧ d.sameKey (q.wifikey.getD []) r.wifiKey = true
  else ∃ a ∈ d.accounts, a.stat = ("1" : Str) ∧ a.name = addslashes (q.username.getD []) ∧
    a.passwd = strEncrypt (addslashes (q.pass.getD []))

theorem dottedRuns_parts {n : ℕ} {s d r : Str} (h : dottedRuns n s = some (d,r)) :
    ∃ ps : List Str, ps.length = n ∧ (∀ p ∈ ps, p ≠ [] ∧ ∀ c ∈ p, digit c = true) ∧ d = ps.flatMap (· ++ ['.']) := by
  induction n generalizing s d r with
  | zero =>
    cases h
    exact ⟨[],rfl,by simp,rfl⟩
  | succ n ih =>
    unfold dottedRuns at h
    split at h
    · rename_i t ht
      split at h
      · cases h
      · rename_i hne
        obtain ⟨⟨d',r'⟩,hd,he⟩ := Option.map_eq_some_iff.mp h
        cases he
        obtain ⟨ps,hl,hp,rfl⟩ := ih hd
        refine ⟨s.takeWhile digit::ps,by rw [List.length_cons,hl],?_,by simp⟩
        intro p hp'
        rcases List.mem_cons.mp hp' with rfl | hp'
        · exact ⟨hne,fun c hc => List.mem_takeWhile_imp hc⟩
        · exact hp p hp'
    · cases h

/-- What is read as an address is one, and what is read as a hardware address is one word. -/
theorem partsAt_parts {s ip mac : Str} (h : partsAt s = some (ip,mac)) :
    Address ip ∧ mac ≠ [] ∧ ∀ c ∈ mac, regexSpace c = false := by
  unfold partsAt at h
  split at h
  · cases h
  · rename_i d r hd
    dsimp only at h
    split at h
    · rename_i hc
      cases h
      obtain ⟨ps,hl,hp,rfl⟩ := dottedRuns_parts hd
      have hne : ps ≠ [] := by
        rintro rfl
        cases hl
      have hip : (ps.flatMap (· ++ ['.'])).dropLast = ['.'].intercalate ps := by
        rw [← LineText.intercalate_concat '.' hne,List.dropLast_concat]
      have hdot : ∀ p ∈ ps, '.' ∉ p := fun p hp' hm => absurd ((hp p hp').2 '.' hm) (by decide)
      have hs : split '.' (['.'].intercalate ps) = ps := List.splitOn_intercalate '.' hdot hne
      refine ⟨?_,?_,fun c hm => by simpa using List.mem_takeWhile_imp hm⟩
      · rw [hip]
        unfold Address
        rw [hs]
        exact ⟨hl,hp⟩
      · intro he
        rw [he] at hc
        exact absurd hc (by decide)
    · cases h

theorem nameParts_parts {s ip mac : Str} (h : nameParts s = some (ip,mac)) :
    Address ip ∧ mac ≠ [] ∧ ∀ c ∈ mac, regexSpace c = false := by
  induction s with
  | nil => cases h
  | cons c s ih =>
    rw [nameParts,Option.or_eq_some_iff] at h
    rcases h with h | ⟨-,h⟩
    · exact partsAt_parts h
    · exact ih h

theorem displaced_entry {q : Request} {files : OrdMap Str Session} {e : Entry} (h : q.displaced files = some e) :
    e ∈ entries files ∧ elsewhere files (q.username.getD []) (q.myip.getD []) (q.mymac.getD []) e = true := by
  unfold Request.displaced at h
  split at h
  · unfold isLogin at h
    split at h
    · cases h
    · exact ⟨List.mem_of_find?_eq_some h,List.find?_some h⟩
  · cases h

theorem entry_parts {files : OrdMap Str Session} {e : Entry} (h : e ∈ entries files) :
    Address e.ip ∧ e.mac ≠ [] ∧ ∀ c ∈ e.mac, regexSpace c = false := by
  obtain ⟨n,-,he⟩ := List.mem_filterMap.mp h
  obtain ⟨p,hp,rfl⟩ := Option.map_eq_some_iff.mp he
  exact nameParts_parts hp

theorem words_single {s : Str} (h : s ≠ []) (hb : ∀ c ∈ s, wordBreak c = false) : words s = [s] := by
  unfold words
  rw [List.splitOnP_eq_singleton (fun c hc => by simp [hb c hc])]
  simp [h]

theorem hexDigit_plain {c : Char} (h : hexDigit c = true) : special c = false := by
  by_contra hs
  simp only [special,Bool.not_eq_false,Bool.or_eq_true,decide_eq_true_eq] at hs
  rcases hs with ((hs | rfl) | rfl) | rfl
  · have hm : c ∈ ("|&;<>()$`\\\"'*?[]#~={}!%^" : Str) := by simpa using hs
    have hall : ∀ c ∈ ("|&;<>()$`\\\"'*?[]#~={}!%^" : Str), hexDigit c = false := by decide
    rw [hall c hm] at h
    cases h
  all_goals revert h; decide

theorem digit_hexDigit {c : Char} (h : digit c = true) : hexDigit c = true := by
  simp only [hexDigit,digit] at *
  simp [h]

theorem address_chars {ip : Str} (h : Address ip) : ip ≠ [] ∧ ∀ c ∈ ip, c = '.' ∨ digit c = true := by
  have hne : split '.' ip ≠ [] := fun he => by
    have := h.1
    rw [he] at this
    cases this
  have hi : ['.'].intercalate (split '.' ip) = ip := List.intercalate_splitOn '.'
  have hc := LineText.intercalate_concat '.' hne
  rw [hi] at hc
  constructor
  · rintro rfl
    exact absurd h (by decide)
  · intro c hm
    have hf : c ∈ (split '.' ip).flatMap (· ++ ['.']) := hc ▸ List.mem_append_left _ hm
    obtain ⟨p,hp,hcp⟩ := List.mem_flatMap.mp hf
    rcases List.mem_append.mp hcp with hcp | hcp
    · exact Or.inr ((h.2 p hp).2 c hcp)
    · exact Or.inl (List.mem_singleton.mp hcp)

theorem given_address {ip : Str} (h : Address ip) : Given ip ip := by
  obtain ⟨hne,hc⟩ := address_chars h
  have hplain : ∀ c ∈ ip, special c = false ∧ wordBreak c = false := by
    intro c hm
    rcases hc c hm with rfl | hd
    · decide
    · refine ⟨hexDigit_plain (digit_hexDigit hd),?_⟩
      by_contra hw
      simp only [wordBreak,Bool.not_eq_false,Bool.or_eq_true,decide_eq_true_eq] at hw
      rcases hw with rfl | rfl <;> revert hd <;> decide
  refine ⟨List.any_eq_false.mpr fun c hm => by simp [(hplain c hm).1],words_single hne fun c hm => (hplain c hm).2⟩

theorem given_word {mac : Str} (hne : mac ≠ []) (hb : ∀ c ∈ mac, regexSpace c = false) :
    (∃ m, Hardware m ∧ Given mac m) ↔ Hardware mac := by
  have hw : words mac = [mac] := by
    refine words_single hne fun c hc => ?_
    have h := hb c hc
    simp only [regexSpace,Bool.or_eq_false_iff,decide_eq_false_iff_not] at h
    simp [wordBreak,h.1.1.1.1,h.1.1.1.2]
  constructor
  · rintro ⟨m,hm,-,hg⟩
    rw [hw,List.cons.injEq] at hg
    exact hg.1 ▸ hm
  · intro hm
    refine ⟨mac,hm,List.any_eq_false.mpr fun c hc => ?_,hw⟩
    rcases hardware_black hm c hc with rfl | hx
    · decide
    · simp [hexDigit_plain hx]

theorem special_of_escaped {c : Char} (h : (c = '\'' ∨ c = '"' ∨ c = '\\') ∨ c = '\x00') : special c = true := by
  rcases h with (rfl | rfl | rfl) | rfl <;> decide

theorem addslashes_eq {s : Str} (h : s.any special = false) : addslashes s = s := by
  induction s with
  | nil => rfl
  | cons c s ih =>
    rw [List.any_cons,Bool.or_eq_false_iff] at h
    have h₁ : ¬(c = '\'' ∨ c = '"' ∨ c = '\\') := fun hc => by
      rw [special_of_escaped (Or.inl hc)] at h
      cases h.1
    have h₂ : ¬c = '\x00' := fun hc => by
      rw [special_of_escaped (Or.inr hc)] at h
      cases h.1
    have hs : addslashes (c::s) = (if c = '\'' ∨ c = '"' ∨ c = '\\' then ['\\',c]
        else if c = '\x00' then ['\\','0'] else [c]) ++ addslashes s := rfl
    rw [hs,if_neg h₁,if_neg h₂,ih h.2]
    rfl

theorem addslashes_special {s : Str} (h : s.any special = true) : (addslashes s).any special = true := by
  obtain ⟨c,hc,hs⟩ := List.any_eq_true.mp h
  refine List.any_eq_true.mpr ?_
  by_cases h₁ : c = '\'' ∨ c = '"' ∨ c = '\\'
  · exact ⟨c,List.mem_flatMap.mpr ⟨c,hc,by simp [h₁]⟩,hs⟩
  · by_cases h₂ : c = '\x00'
    · exact ⟨'\\',List.mem_flatMap.mpr ⟨c,hc,by simp [h₂]⟩,by decide⟩
    · exact ⟨c,List.mem_flatMap.mpr ⟨c,hc,by simp [h₁,h₂]⟩,hs⟩

theorem given_addslashes {s w : Str} : Given (addslashes s) w ↔ Given s w := by
  cases h : s.any special with
  | false => rw [addslashes_eq h]
  | true =>
    have hs := addslashes_special h
    exact iff_of_false (fun hg => by rw [hg.1] at hs; cases hs) fun hg => by rw [hg.1] at h; cases h

theorem not_quote_addslashes {s : Str} (h : '\'' ∉ s) : '\'' ∉ addslashes s := by
  intro hm
  obtain ⟨c,hc,hq⟩ := List.mem_flatMap.mp hm
  have hne : c ≠ '\'' := fun he => h (he ▸ hc)
  split at hq
  · simp only [List.mem_cons,List.not_mem_nil,or_false] at hq
    rcases hq with hq | hq
    · revert hq
      decide
    · exact hne hq.symm
  · split at hq
    · revert hq
      decide
    · exact hne (List.mem_singleton.mp hq).symm

theorem base64Digit_plain (n : ℕ) : base64Digit n ≠ '\'' := by
  unfold base64Digit
  rw [List.getD_eq_getElem?_getD]
  cases h : base64Digits[n]? with
  | none => decide
  | some c =>
    rintro (rfl : c = '\'')
    exact absurd (List.mem_of_getElem? h) (by decide)

theorem base64Encode_plain (bs : List ℕ) : '\'' ∉ base64Encode bs := by
  have hd : ∀ n, '\'' ≠ base64Digit n := fun n => (base64Digit_plain n).symm
  induction bs using base64Encode.induct with
  | case1 a b c s ih =>
    rw [base64Encode,List.mem_append]
    simp [hd,ih]
  | case2 a b => simp [base64Encode,hd]
  | case3 a => simp [base64Encode,hd]
  | case4 => simp [base64Encode]

variable {g}

omit [DecidableEq ρ] in
/-- A name without a quotation mark is found for the credentials of an account only. -/
theorem credentials_of_account {d : Tables g} {q : Request} (hi : g.intouch = false) (hu : '\'' ∉ q.username.getD [])
    (h : account g q.slashed ≠ none) : Credentials d q := by
  have hname : q.slashed.username.getD [] = addslashes (q.username.getD []) := by
    unfold Request.slashed
    cases q.username <;> rfl
  have hpass : q.slashed.pass.getD [] = addslashes (q.pass.getD []) := by
    unfold Request.slashed
    cases q.pass <;> rfl
  have hp : '\'' ∉ strEncrypt (addslashes (q.pass.getD [])) := base64Encode_plain _
  unfold account at h
  rw [hname,hpass,d.rows_eq _ _ (not_quote_addslashes hu) hp] at h
  rw [Credentials,if_neg (by rw [hi]; simp)]
  split at h
  · exact absurd rfl h
  · rename_i n ns hr
    have hm : n ∈ (d.accounts.filter fun a => a.stat = ("1" : Str) ∧ a.name = addslashes (q.username.getD []) ∧
        a.passwd = strEncrypt (addslashes (q.pass.getD []))).map Account.name := by
      rw [hr]
      exact List.mem_cons_self
    obtain ⟨a,ha,-⟩ := List.mem_map.mp hm
    obtain ⟨ha,hp⟩ := List.mem_filter.mp ha
    exact ⟨a,ha,of_decide_eq_true hp⟩

omit [DecidableEq ρ] in
theorem credentials_of_key {d : Tables g} {t : ℚ} {q : Request} (hi : g.intouch = true)
    (h : keyVerdict g t q.slashed = .known) : Credentials d q := by
  have hkey : q.slashed.wifikey.getD [] = addslashes (q.wifikey.getD []) := by
    unfold Request.slashed
    cases q.wifikey <;> rfl
  unfold keyVerdict at h
  rw [hkey,d.wifiRows_eq] at h
  rw [Credentials,if_pos hi]
  split at h
  · rename_i r hr
    obtain ⟨hk,hp⟩ := List.mem_filter.mp (List.mem_of_getLast? hr)
    exact ⟨r,hk,of_decide_eq_true hp⟩
  · cases h

/-- The addresses given are the one the request comes from, and a hardware address. -/
def Request.Honest (q : Request) : Prop :=
  Given (q.myip.getD []) q.remoteAddr ∧ ∃ m, Hardware m ∧ Given (q.mymac.getD []) m

variable (g)

/-- The request gets as far as a rule for the addresses it gives. -/
def Request.acts (q : Request) (t : ℚ) (files : OrdMap Str Session) : Bool :=
  if (asked g q).opens t files = true then verdict g t q ≠ .unknown else q.leaves t

variable {g}

/-- The addresses given are those of the client, wherever a rule is added or deleted for them; a session that is
displaced is named by a hardware address; and a user name with a quotation mark is found for the credentials of an
account only. -/
structure Sound (d : Tables g) (t : ℚ) (q : Request) (files : OrdMap Str Session) : Prop where
  own : q.slashed.acts g t files = true → q.Honest
  other : (asked g q.slashed).opens t files = true → ∀ e, (asked g q.slashed).displaced files = some e → Hardware e.mac
  named : g.intouch = false → q.slashed.opens t files = true → account g q.slashed ≠ none →
    '\'' ∈ q.username.getD [] → Credentials d q

variable (g)

/-- The command is one call of `iptables` for the client, or for the session that is displaced. -/
def Single (q : Request) (files : OrdMap Str Session) (k : Call) : Prop :=
  Invokes k q.remoteAddr ∨
    ∃ e, (asked g q.slashed).displaced files = some e ∧ k = ⟨.D,e.ip,e.mac⟩ ∧ Invokes k e.ip

omit [DecidableEq ρ] in
theorem asked_addresses (q : Request) : (asked g q).myip = q.myip ∧ (asked g q).mymac = q.mymac := by
  unfold asked
  split <;> exact ⟨rfl,rfl⟩

omit [DecidableEq ρ] in
theorem single_displaced {q : Request} {files : OrdMap Str Session} {e : Entry}
    (h : (asked g q.slashed).displaced files = some e) (hr : Address q.remoteAddr) :
    Single g q files ⟨.D,e.ip,e.mac⟩ ↔ Hardware e.mac := by
  obtain ⟨hi,hne,hb⟩ := entry_parts (displaced_entry h).1
  have hinv : ∀ {a : Str}, Address a → (Invokes ⟨.D,e.ip,e.mac⟩ a ↔ Given e.ip a ∧ Hardware e.mac) := by
    intro a ha
    rw [invokes_iff hne (address_ne ha),given_word hne hb]
  unfold Single
  constructor
  · rintro (h | ⟨e',-,he,h⟩)
    · exact ((hinv hr).mp h).2
    · rw [Call.mk.injEq] at he
      exact ((hinv (he.2.1 ▸ hi)).mp h).2
  · exact fun hm => Or.inr ⟨e,h,rfl,(hinv hi).mpr ⟨given_address hi,hm⟩⟩

omit [DecidableEq ρ] in
theorem single_own {q : Request} {files : OrdMap Str Session} (hm : q.slashed.mymac.getD [] ≠ [])
    (hr : Address q.remoteAddr) (opt : Access) : Single g q files (q.slashed.call opt) ↔ q.Honest := by
  have hip : q.slashed.myip.getD [] = addslashes (q.myip.getD []) := by
    unfold Request.slashed
    cases q.myip <;> rfl
  have hmac : q.slashed.mymac.getD [] = addslashes (q.mymac.getD []) := by
    unfold Request.slashed
    cases q.mymac <;> rfl
  have hinv : Invokes (q.slashed.call opt) q.remoteAddr ↔ q.Honest := by
    have h := invokes_iff (k := q.slashed.call opt) (a := q.remoteAddr) hm (address_ne hr)
    simp only [Request.call,hip,hmac,given_addslashes] at h
    rw [Request.call,hip,hmac]
    exact h
  unfold Single
  constructor
  · rintro (h | ⟨e,he,hk,-⟩)
    · exact hinv.mp h
    · -- A session that is displaced has another address than the one that is given.
      have hs := (displaced_entry he).2
      rw [Request.call,Call.mk.injEq] at hk
      rw [(asked_addresses g q.slashed).1,hk.2.1] at hs
      unfold elsewhere at hs
      split at hs
      · simp at hs
      · cases hs
  · exact fun h => Or.inl (hinv.mpr h)

theorem wants_mac {q : Request} {n : ℚ} (h : q.wants n = true) : q.mymac.getD [] ≠ [] := by
  simp only [Request.wants,Bool.and_eq_true] at h
  cases hm : q.mymac with
  | none =>
    rw [hm] at h
    cases h.1.2
  | some m =>
    rw [hm] at h
    simpa using h.1.2

omit [DecidableEq ρ] in
/-- Every command of a request is a single call as it should be exactly if the request is as it should be. -/
theorem single_iff {t : ℚ} {q : Request} {files : OrdMap Str Session} (hr : Address q.remoteAddr) :
    (∀ k ∈ requestCalls g t q.slashed files, Single g q files k) ↔
      (q.slashed.acts g t files = true → q.Honest) ∧
        ((asked g q.slashed).opens t files = true → ∀ e, (asked g q.slashed).displaced files = some e → Hardware e.mac) := by
  unfold requestCalls Request.acts
  by_cases ho : (asked g q.slashed).opens t files = true
  · have hw : q.slashed.mymac.getD [] ≠ [] := by
      have h := ho
      simp only [Request.opens,Bool.and_eq_true] at h
      rw [← (asked_addresses g q.slashed).2]
      exact wants_mac h.1.1.2
    simp only [if_pos ho,List.forall_mem_append]
    rw [and_comm]
    refine and_congr ?_ ?_
    · cases verdict g t q.slashed with
      | unknown => simp [Verdict.calls]
      | ended => simp [Verdict.calls,single_own g hw hr]
      | known => simp [Verdict.calls,single_own g hw hr]
    · unfold displacedCalls
      cases hd : (asked g q.slashed).displaced files with
      | none => simp
      | some e => simp [single_displaced g hd hr,ho]
  · simp only [if_neg ho]
    by_cases hl : q.slashed.leaves t = true
    · have hw : q.slashed.mymac.getD [] ≠ [] := by
        have h := hl
        simp only [Request.leaves,Bool.and_eq_true] at h
        exact wants_mac h.1.2
      simp [hl,single_own g hw hr,ho]
    · simp [hl,ho]

/-- Every command is a single call for the client, or the session that is displaced, and a rule is added for the
credentials of an account only. -/
def Served {g : Setting ρ} (d : Tables g) (q : Request) (files : OrdMap Str Session) (calls : List Call) : Prop :=
  ∀ k ∈ calls, Single g q files k ∧ (k.opt = .A → Credentials d q)

omit [DecidableEq ρ] in
theorem adds_iff {t : ℚ} {q : Request} {files : OrdMap Str Session} {P : Prop} :
    (∀ k ∈ requestCalls g t q files, k.opt = .A → P) ↔ ((asked g q).opens t files = true → verdict g t q = .known → P) := by
  have hd : ∀ k ∈ displacedCalls (asked g q) files, k.opt ≠ .A := by
    intro k hk
    obtain ⟨e,-,rfl⟩ := List.mem_map.mp hk
    exact Access.noConfusion
  unfold requestCalls
  by_cases ho : (asked g q).opens t files = true
  · simp only [if_pos ho,List.forall_mem_append]
    rw [and_iff_right fun k hk ha => absurd ha (hd k hk),imp_iff_right ho]
    cases verdict g t q <;> simp [Verdict.calls,Request.call]
  · simp only [if_neg ho]
    by_cases hl : q.leaves t = true
    · simp [hl,ho,Request.call]
    · simp [hl,ho]

/-- Every command that the shell gets while a request is served is as it should be exactly if the request is. -/
theorem served_iff (d : Tables g) {q : Request} (hr : Address q.remoteAddr) (t : ℚ) (files : OrdMap Str Session)
    (chain : List ρ) : Served d q files (index g t q.slashed ⟨files,chain,[]⟩).calls ↔ Sound d t q files := by
  have hc : (index g t q.slashed ⟨files,chain,[]⟩).calls = requestCalls g t q.slashed files := by
    rw [index_calls,List.nil_append]
  have hadds : (∀ k ∈ requestCalls g t q.slashed files, k.opt = .A → Credentials d q) ↔ _ := adds_iff g
  rw [hc]
  constructor
  · intro h
    obtain ⟨hown,hother⟩ := (single_iff g hr).mp fun k hk => (h k hk).1
    refine ⟨hown,hother,fun hi ho ha _ => hadds.mp (fun k hk => (h k hk).2) ?_ ?_⟩
    · rw [asked,hi]
      exact ho
    · rw [verdict,hi]
      exact if_pos (Option.isSome_iff_ne_none.mpr ha)
  · rintro ⟨hown,hother,hnamed⟩ k hk
    refine ⟨(single_iff g hr).mpr ⟨hown,hother⟩ k hk,hadds.mpr (fun ho hv => ?_) k hk⟩
    cases hi : g.intouch with
    | true =>
      rw [verdict,hi] at hv
      exact credentials_of_key hi hv
    | false =>
      rw [asked,hi] at ho
      rw [verdict,hi] at hv
      have ha : account g q.slashed ≠ none := by
        intro hn
        have hu : userVerdict g q.slashed = .unknown := by
          rw [userVerdict,hn]
          rfl
        exact absurd (hu.symm.trans hv) (by decide)
      by_cases hu : '\'' ∈ q.username.getD []
      · exact hnamed hi ho ha hu
      · exact credentials_of_account hi hu ha

theorem quote_cut {u v s t : Str} (hu : '\'' ∉ u) (hv : '\'' ∉ v) (h : u ++ '\''::s = v ++ '\''::t) : u = v ∧ s = t := by
  have hne : ∀ {w : Str}, '\'' ∉ w → ∀ c ∈ w, decide (c ≠ '\'') = true := fun hw c hc =>
    decide_eq_true fun he => hw (he ▸ hc)
  have hcut : ∀ {w r : Str}, '\'' ∉ w → (w ++ '\''::r).takeWhile (· ≠ '\'') = w := fun hw => by
    rw [List.takeWhile_append_of_pos (hne hw),List.takeWhile_cons_of_neg (by simp),List.append_nil]
  have he : u = v := by rw [← hcut (r := s) hu,h,hcut hv]
  refine ⟨he,?_⟩
  rw [he] at h
  exact (List.cons.inj (List.append_cancel_left h)).2

theorem accountQuery_inj {u v p r : Str} (hu : '\'' ∉ u) (hv : '\'' ∉ v) (hp : '\'' ∉ p) (hr : '\'' ∉ r) :
    accountQuery u p = accountQuery v r ↔ u = v ∧ p = r := by
  have hq : ("' and passwd='" : Str) = '\''::" and passwd='" := rfl
  constructor
  · intro h
    simp only [accountQuery,List.append_assoc,hq,List.cons_append] at h
    obtain ⟨hun,h⟩ := quote_cut hu hv (List.append_cancel_left h)
    exact ⟨hun,(quote_cut hp hr (List.append_cancel_left h)).1⟩
  · rintro ⟨rfl,rfl⟩
    rfl

def officeTables : Tables office where
  accounts := [⟨"bob",strEncrypt "secret","1"⟩]
  keys := []
  sameKey a b := a = b
  rows_eq u p hu hp := by
    have hb : '\'' ∉ ("bob" : Str) := by decide
    have hs : '\'' ∉ strEncrypt "secret" := base64Encode_plain _
    have hq := accountQuery_inj hu hb hp hs
    have hr : office.rows (accountQuery u p) =
        if accountQuery u p = accountQuery "bob" (strEncrypt "secret") then [("bob" : Str)] else [] := rfl
    rw [hr,List.filter_cons,List.filter_nil]
    by_cases h : u = ("bob" : Str) ∧ p = strEncrypt "secret"
    · rw [if_pos (hq.mpr h),if_pos (by simp [h])]
      rfl
    · rw [if_neg (fun he => h (hq.mp he)),if_neg (fun he => h ?_)]
      · rfl
      · have hd := of_decide_eq_true he
        exact ⟨hd.2.1.symm,hd.2.2.symm⟩
  wifiRows_eq _ := rfl

theorem served_iff_login : Served officeTables (form "1" "10.0.0.5" "AA:BB:CC:DD:EE:01" none) ∅
    (index office 1000 (form "1" "10.0.0.5" "AA:BB:CC:DD:EE:01" none).slashed ⟨∅,[],[]⟩).calls := by
  refine (served_iff office officeTables (by decide) 1000 ∅ []).mpr ⟨fun _ => ?_,fun _ e he => ?_,fun _ _ _ hu => ?_⟩
  · exact ⟨by decide,"AA:BB:CC:DD:EE:01",by decide,by decide⟩
  · cases he
  · exact absurd hu (by decide)

/-- Nobody has to be logged in to log out. -/
theorem shell_reached : ¬ ∀ (q : Request) (t : ℚ) (files : OrdMap Str Session), Address q.remoteAddr →
    Served officeTables q files (index office t q.slashed ⟨files,[],[]⟩).calls := by
  intro h
  let q := form "2" "10.0.0.5" "x;reboot" none
  have hk : q.slashed.call .D ∈ (index office 1000 q.slashed ⟨∅,[],[]⟩).calls := by decide +kernel
  obtain ⟨⟨m,-,hs⟩ | ⟨e,he,-⟩,-⟩ := h q 1000 ∅ (by decide) _ hk
  · have hn : simpleCommand (q.slashed.call .D).command = none := by decide
    rw [hn] at hs
    cases hs
  · cases he

end Portal
end Mybox
