import Mybox.Lockout
import Mybox.Patterns

/-! The log of the SSH daemon, read line by line: `_parse_sshlog` decides by four patterns what a line
means, and charges failures to the address it finds in the line. -/
namespace Mybox
namespace SshLog

open Php Patterns

/-- What the handler calls. -/
inductive Action
  | kill (pid : Str)
  | logAuth (txt : Str)
  | resetAuthPassword
  | attempt (ip type : Str)
  | attemptDelete (ip : Str)
  /-- `_SESSION_SSH` with `'1'` and with `'2'`. -/
  | login (pid ldate ip : Str)
  | logout (pid ldate : Str)
  deriving DecidableEq

/-- What the handler finds on the machine: the text of `/etc/ssh/ssh_user`, the address kept for a
process, and which texts are IPv6 addresses. -/
structure Host where
  sshUser : Str
  sessionIp : Str → Str
  isIpv6 : Str → Bool

def isOctet (w : Str) : Bool := (PacketFilter.octet w).isSome && (w = ("0" : Str) || w.head? ≠ some '0')

def isIpv4 (s : Str) : Bool :=
  match split '.' s with
  | [a,b,c,d] => isOctet a && isOctet b && isOctet c && isOctet d
  | _ => false

def checkIp (h : Host) (s : Str) : Bool := isIpv4 s || h.isIpv6 s

def wordChar (c : Char) : Bool :=
  digit c || ('a' ≤ c && c ≤ 'z') || ('A' ≤ c && c ≤ 'Z') || c = '_'

def blackChar (c : Char) : Bool := !regexSpace c

/-- `\s+` -/
def gap : Piece := .plus regexSpace false

/-- `\s+(\w+)\s+from\s+(\S+)` -/
def userFrom : Pattern :=
  gap :: .plus wordChar true :: gap :: (word ("from" : Str) ++ [gap,.plus blackChar true])

def pat1 : Pattern := word ("Accepted" : Str) ++ gap :: (word ("password" : Str) ++ gap :: (word ("for" : Str) ++ userFrom))

def pat2 : Pattern := word ("Connection" : Str) ++ gap :: (word ("closed" : Str) ++ gap :: (word ("by" : Str) ++
  [gap,.plus blackChar true]))

def pat3 : Pattern := word ("Failed" : Str) ++ gap :: (word ("password" : Str) ++ gap :: (word ("for" : Str) ++ userFrom))

def pat4 : Pattern := word ("Invalid" : Str) ++ gap :: (word ("user" : Str) ++ userFrom)

def peerIp (h : Host) (s : Str) : Str := if checkIp h s then s else "unknown"

def authText (ecode who ip msg : Str) : Str :=
  ("ECODE=" : Str) ++ ecode ++ (" TYPE=ssh USER=" : Str) ++ who ++ (" IP=" : Str) ++ ip ++ (" MSG=" : Str) ++ msg

/-- The four branches, given what the pattern keeps. -/
def onAccepted (h : Host) (ldate pid : Str) (m : List Str) : Bool × List Action :=
  let who := trim (m.getD 0 [])
  let ip := peerIp h (m.getD 1 [])
  let sshuser := if null h.sshUser then ("sshuser" : Str) else h.sshUser
  if !looseEq who sshuser then
    (false,[.kill pid,.logAuth (authText "00" who ip "Invalid login request"),.resetAuthPassword,
      .attempt ip "ssh"])
  else (true,[.login pid ldate ip,.logAuth (authText "00" who ip "Password Accepted"),.attemptDelete ip,
    .resetAuthPassword])

def onClosed (h : Host) (ldate pid : Str) (m : List Str) : Bool × List Action :=
  (true,[.logout pid ldate,.logAuth (authText "01" (m.getD 0 []) (h.sessionIp pid) "Session logout"),
    .resetAuthPassword])

def onFailed (h : Host) (pid : Str) (m : List Str) : Bool × List Action :=
  let ip := peerIp h (m.getD 1 [])
  (true,[.kill pid,.logAuth (authText "01" (m.getD 0 []) ip "Password incorrect"),.attempt ip "ssh",
    .resetAuthPassword])

/-- The name is taken from another array, which is not set. -/
def onInvalid (h : Host) (pid : Str) (m : List Str) : Bool × List Action :=
  let ip := peerIp h (m.getD 1 [])
  (true,[.kill pid,.resetAuthPassword,.logAuth (authText "01" "unknown" ip "Invalid login request"),
    .attempt ip "ssh",.resetAuthPassword])

/-- What is done when the patterns are found, the first that is found deciding. -/
def decideLine (h : Host) (ldate pid : Str) (m₁ m₂ m₃ m₄ : Option (List Str)) : Bool × List Action :=
  match m₁ with
  | some m => onAccepted h ldate pid m
  | none => match m₂ with
    | some m => onClosed h ldate pid m
    | none => match m₃ with
      | some m => onFailed h pid m
      | none => match m₄ with
        | some m => onInvalid h pid m
        | none => (true,[.resetAuthPassword])

def parseSshlog (h : Host) (ldate pid str : Str) : Bool × List Action :=
  decideLine h ldate pid (search pat1 str) (search pat2 str) (search pat3 str) (search pat4 str)

def acceptedLine (u ip port : Str) : Str :=
  ("Accepted password for " : Str) ++ u ++ (" from " : Str) ++ ip ++ (" port " : Str) ++ port ++ (" ssh2" : Str)

def failedLine (u ip port : Str) : Str :=
  ("Failed password for " : Str) ++ u ++ (" from " : Str) ++ ip ++ (" port " : Str) ++ port ++ (" ssh2" : Str)

/-- The two lines of a login with a name that is no account. -/
def invalidUserLine (u ip : Str) : Str := ("Invalid user " : Str) ++ u ++ (" from " : Str) ++ ip

def failedInvalidLine (u ip port : Str) : Str :=
  ("Failed password for invalid user " : Str) ++ u ++ (" from " : Str) ++ ip ++ (" port " : Str) ++ port ++
    (" ssh2" : Str)

/-- The addresses that failures are recorded for; `_SESSION_ATTEMPT` records nothing for `unknown`. -/
def charged (as : List Action) : List Str :=
  as.filterMap fun
    | .attempt ip _ => if ip = ("unknown" : Str) then none else some ip
    | _ => none

def opened (as : List Action) : List Str :=
  as.filterMap fun
    | .login _ _ ip => some ip
    | _ => none

/-- Whatever the peer, a failed login and a login with no account are charged to it once and open no
session, and an accepted one concerns no other address. -/
def Attributed (h : Host) (u : Str) : Prop :=
  ∀ ldate pid ip port, isIpv4 ip = true → (∀ c ∈ port, digit c = true) →
    charged (parseSshlog h ldate pid (failedLine u ip port)).2 = [ip] ∧
    opened (parseSshlog h ldate pid (failedLine u ip port)).2 = [] ∧
    charged (parseSshlog h ldate pid (invalidUserLine u ip)).2 ++
      charged (parseSshlog h ldate pid (failedInvalidLine u ip port)).2 = [ip] ∧
    opened (parseSshlog h ldate pid (invalidUserLine u ip)).2 ++
      opened (parseSshlog h ldate pid (failedInvalidLine u ip port)).2 = [] ∧
    ∀ x ∈ charged (parseSshlog h ldate pid (acceptedLine u ip port)).2 ++
      opened (parseSshlog h ldate pid (acceptedLine u ip port)).2, x = ip

/-- A name of letters, digits and underscores, blanks around it aside. -/
def wordUser (u : Str) : Bool :=
  let v := u.dropWhile regexSpace
  !(v.takeWhile wordChar).isEmpty && (v.dropWhile wordChar).all regexSpace

theorem space_word {c : Char} (h : regexSpace c = true) : wordChar c = false := by
  simp only [regexSpace,Bool.or_eq_true,decide_eq_true_eq] at h
  rcases h with (((rfl | rfl) | rfl) | rfl) | rfl <;> decide

theorem word_space {c : Char} (h : wordChar c = true) : regexSpace c = false := by
  by_contra hs
  rw [space_word (by simpa using hs)] at h
  simp at h

theorem black_space {c : Char} : blackChar c = !regexSpace c := rfl

theorem blocks_black : Blocks regexSpace [.plus blackChar true] :=
  blocks_plus (fun c h => by simp [black_space,h]) _ _

theorem blocks_from (p : Pattern) : Blocks regexSpace (word ("from" : Str) ++ p) := blocks_char (by decide) _

theorem blocks_gap (p : Pattern) : Blocks wordChar (gap::p) := blocks_plus (fun _ => word_space) _ _

theorem blocks_word (p : Pattern) : Blocks regexSpace (.plus wordChar true::p) :=
  blocks_plus (fun _ => space_word) _ _

theorem matchAt_gap {p : Pattern} (h : Blocks regexSpace p) {x y : Str} (hx : ∀ c ∈ x, regexSpace c = true)
    (hne : x ≠ []) (hy : ∀ c ∈ y.head?, regexSpace c = false) : matchAt (gap::p) (x ++ y) = matchAt p y := by
  rw [gap,matchAt_class h false hx hne hy]
  simp

theorem userFrom_name {a w b s : Str} (ha : ∀ c ∈ a, regexSpace c = true) (hae : a ≠ [])
    (hw : ∀ c ∈ w, wordChar c = true) (hwe : w ≠ []) (hb : ∀ c ∈ b, regexSpace c = true) (hbe : b ≠ [])
    (hs : ∀ c ∈ s.head?, regexSpace c = false) : matchAt userFrom (a ++ (w ++ (b ++ s))) =
      (matchAt (word ("from" : Str) ++ [gap,.plus blackChar true]) s).map (w::·) := by
  obtain ⟨c,t,rfl⟩ := List.exists_cons_of_ne_nil hwe
  obtain ⟨d,r,rfl⟩ := List.exists_cons_of_ne_nil hbe
  have hc := word_space (hw c (by simp))
  have hd := space_word (hb d (by simp))
  rw [userFrom,matchAt_gap (blocks_word _) ha hae (by simpa using hc),
    matchAt_class (blocks_gap _) true hw hwe (by simpa using hd),matchAt_gap (blocks_from _) hb hbe hs]
  simp

theorem from_address {b s : Str} (hb : ∀ c ∈ b, regexSpace c = true) (hbe : b ≠ [])
    (hs : ∀ c ∈ s.head?, regexSpace c = false) :
    matchAt (word ("from" : Str) ++ [gap,.plus blackChar true]) (("from" : Str) ++ (b ++ s)) =
      if s.takeWhile blackChar = [] then none else some [s.takeWhile blackChar] := by
  rw [matchAt_words,matchAt_gap blocks_black hb hbe hs,matchAt_plus_last]

theorem from_absent {p : Pattern} {s : Str} (h : ¬ ("from" : Str) <+: s) :
    matchAt (word ("from" : Str) ++ p) s = none := by rw [matchAt_word,if_neg h]

theorem isOctet_digits {w : Str} (h : isOctet w = true) : w ≠ [] ∧ ∀ c ∈ w, digit c = true := by
  unfold isOctet at h
  rw [Bool.and_eq_true,Option.isSome_iff_exists] at h
  obtain ⟨⟨n,hn⟩,-⟩ := h
  obtain ⟨hw,hd⟩ := PacketFilter.number_isWord (PacketFilter.octet_number hn)
  exact ⟨hw.ne,fun c hc => by simpa [digit] using hd c hc⟩

/-- An address consists of digits and dots, begins with a digit and has a dot. -/
theorem isIpv4_chars {s : Str} (h : isIpv4 s = true) :
    (∀ c ∈ s, c = '.' ∨ digit c = true) ∧ (∃ c t, s = c::t ∧ digit c = true) ∧ '.' ∈ s := by
  unfold isIpv4 at h
  split at h
  · rename_i a b c d hs
    simp only [Bool.and_eq_true] at h
    obtain ⟨⟨⟨ha,hb⟩,hc⟩,hd⟩ := h
    have hjoin : s = a ++ '.'::(b ++ '.'::(c ++ '.'::d)) := by
      have hi : ['.'].intercalate (split '.' s) = s := List.intercalate_splitOn '.'
      rw [hs] at hi
      rw [← hi]
      simp [List.intercalate]
    obtain ⟨hne,hdig⟩ := isOctet_digits ha
    obtain ⟨x,t,hx⟩ := List.exists_cons_of_ne_nil hne
    refine ⟨fun e he => ?_,⟨x,t ++ '.'::(b ++ '.'::(c ++ '.'::d)),by rw [hjoin,hx]; rfl,hdig x (by simp [hx])⟩,
      by rw [hjoin]; simp⟩
    rw [hjoin] at he
    simp only [List.mem_append,List.mem_cons] at he
    rcases he with he | rfl | he | rfl | he | rfl | he
    · exact Or.inr (hdig e he)
    · exact Or.inl rfl
    · exact Or.inr ((isOctet_digits hb).2 e he)
    · exact Or.inl rfl
    · exact Or.inr ((isOctet_digits hc).2 e he)
    · exact Or.inl rfl
    · exact Or.inr ((isOctet_digits hd).2 e he)
  · simp at h

theorem digit_black {c : Char} (h : c = '.' ∨ digit c = true) : blackChar c = true := by
  rcases h with rfl | h
  · decide
  · rw [black_space,word_space (by simp [wordChar,h])]
    rfl

def behind (u y : Str) : Str := ' '::(u ++ ((" from " : Str) ++ y))

theorem behind_eq (a v y : Str) : behind (a ++ v) y = (' '::a) ++ (v ++ ([' '] ++ (("from" : Str) ++ ([' '] ++ y)))) := by
  rw [behind,show (" from " : Str) = [' '] ++ (("from" : Str) ++ [' ']) from rfl]
  simp only [List.append_assoc,List.cons_append]

theorem all_cons {f : Char → Bool} {c : Char} {s : Str} (h : f c = true) (hs : ∀ d ∈ s, f d = true) :
    ∀ d ∈ c::s, f d = true := by
  intro d hd
  rcases List.mem_cons.mp hd with rfl | hd
  · exact h
  · exact hs d hd

theorem all_concat {f : Char → Bool} {c : Char} {s : Str} (h : f c = true) (hs : ∀ d ∈ s, f d = true) :
    ∀ d ∈ s ++ [c], f d = true := by
  intro d hd
  rcases List.mem_append.mp hd with hd | hd
  · exact hs d hd
  · rw [List.mem_singleton] at hd
    rw [hd]
    exact h

theorem from_head (s : Str) : ∀ c ∈ (("from" : Str) ++ s).head?, regexSpace c = false := by
  intro c hc
  obtain rfl : 'f' = c := Option.some.inj hc
  decide

/-- A proper name is found, and the address behind it. -/
theorem wordUser_found {u : Str} (h : wordUser u = true) : ∃ w, ∀ ip t, isIpv4 ip = true →
    (∀ c ∈ t.head?, blackChar c = false) → matchAt userFrom (behind u (ip ++ t)) = some [w,ip] := by
  simp only [wordUser,Bool.and_eq_true,Bool.not_eq_true',List.isEmpty_eq_false_iff,List.all_eq_true] at h
  obtain ⟨a,v,hu,-,hv,ha,-⟩ := split_class regexSpace u
  rw [hv] at h
  obtain ⟨w,b,hw,hwt,hbd,hww,-⟩ := split_class wordChar v
  rw [hwt,hbd] at h
  refine ⟨w,fun ip t hip ht => ?_⟩
  obtain ⟨hc,⟨x,r,hx,hdig⟩,-⟩ := isIpv4_chars hip
  have hblack : ∀ c ∈ ip, blackChar c = true := fun c hm => digit_black (hc c hm)
  have hhead : ∀ c ∈ (ip ++ t).head?, regexSpace c = false := by
    have hb := digit_black (Or.inr hdig)
    rw [black_space] at hb
    rw [hx]
    simpa using hb
  have htext : behind u (ip ++ t) =
      (' '::a) ++ (w ++ ((b ++ [' ']) ++ (("from" : Str) ++ ([' '] ++ (ip ++ t))))) := by
    rw [hu,behind_eq,hw]
    simp only [List.append_assoc]
  rw [htext,userFrom_name (all_cons rfl ha) (by simp) hww h.1 (all_concat rfl h.2) (by simp) (from_head _),
    from_address (by decide) (by simp) hhead,(class_append hblack ht).1]
  rw [if_neg (by rw [hx]; simp)]
  rfl

/-- The address found after a second `from` that stands in the name. -/
theorem from_const (q : Str) : ∃ r : Option (List Str), ∀ y : Str,
    matchAt [gap,.plus blackChar true] (q ++ ' '::(("from" : Str) ++ ' '::y)) = r := by
  obtain ⟨b,z,hq,-,-,hb,hz⟩ := split_class regexSpace q
  cases hze : z with
  | nil =>
    refine ⟨some [("from" : Str)],fun y => ?_⟩
    have htext : q ++ ' '::(("from" : Str) ++ ' '::y) = (b ++ [' ']) ++ (("from" : Str) ++ ' '::y) := by
      rw [hq,hze]
      simp only [List.append_assoc,List.append_nil,List.cons_append,List.nil_append]
    have hall : ∀ c ∈ ("from" : Str), blackChar c = true := by decide
    rw [htext,matchAt_gap blocks_black (all_concat rfl hb) (by simp) (from_head _),matchAt_plus_last,
      (class_append hall (by simp; decide)).1]
    rfl
  | cons c z' =>
    have hhead : ∀ t : Str, ∀ d ∈ (z ++ t).head?, regexSpace d = false := fun t d hd =>
      hz d (by rw [hze] at hd ⊢; exact hd)
    by_cases hbe : b = []
    · refine ⟨none,fun y => ?_⟩
      rw [hq,hbe]
      exact matchAt_class_none _ false (hhead _)
    · refine ⟨if z.takeWhile blackChar = [] then none else some [z.takeWhile blackChar],fun y => ?_⟩
      rw [hq,List.append_assoc,matchAt_gap blocks_black hb hbe (hhead _),matchAt_plus_last,
        takeWhile_stop (by decide)]

/-- What follows the first word of a name that has more than a word in it. -/
theorem word_const {a w r : Str} (ha : ∀ c ∈ a, regexSpace c = true) (hae : a ≠ [])
    (hw : ∀ c ∈ w, wordChar c = true) (hwe : w ≠ []) (hr : ∀ c ∈ r.head?, wordChar c = false)
    (hb : ∃ c ∈ r, regexSpace c = false) : ∃ q : Option (List Str), ∀ y : Str,
      matchAt userFrom (a ++ (w ++ (r ++ ' '::(("from" : Str) ++ ' '::y)))) = q := by
  obtain ⟨b,z,hq,-,-,hbs,hz⟩ := split_class regexSpace r
  obtain ⟨c,t,hze⟩ : ∃ c t, z = c::t := by
    refine List.exists_cons_of_ne_nil ?_
    rintro rfl
    obtain ⟨c,hc,hcb⟩ := hb
    rw [hq,List.append_nil] at hc
    simp [hbs c hc] at hcb
  have hzt : ∀ s : Str, ∀ d ∈ (z ++ s).head?, regexSpace d = false := fun s d hd =>
    hz d (by rw [hze] at hd ⊢; exact hd)
  by_cases hbe : b = []
  · -- the word runs into a character that is neither a blank nor of a word
    refine ⟨none,fun y => ?_⟩
    obtain ⟨x,v,rfl⟩ := List.exists_cons_of_ne_nil hwe
    have hx := word_space (hw x (by simp))
    have hr' : ∀ c ∈ (r ++ ' '::(("from" : Str) ++ ' '::y)).head?, wordChar c = false := fun d hd =>
      hr d (by rw [hq,hbe,hze] at hd ⊢; exact hd)
    rw [userFrom,matchAt_gap (blocks_word _) ha hae (by simpa using hx),
      matchAt_class (blocks_gap _) true hw hwe hr',hq,hbe,List.nil_append,gap,
      matchAt_class_none _ false (hzt _)]
    rfl
  · by_cases hf : ("from" : Str) <+: z
    · obtain ⟨q,rfl⟩ := hf
      obtain ⟨m,hm⟩ := from_const q
      refine ⟨m.map (w::·),fun y => ?_⟩
      rw [hq,List.append_assoc,userFrom_name ha hae hw hwe hbs hbe (hzt _),List.append_assoc,matchAt_words,hm]
    · refine ⟨none,fun y => ?_⟩
      rw [hq,List.append_assoc,userFrom_name ha hae hw hwe hbs hbe (hzt _),
        from_absent (by rwa [prefix_stop (by decide)])]
      rfl

/-- With any other name the address that is found, if any, is part of the name. -/
theorem other_const {u : Str} (h : wordUser u = false) : ∃ r : Option (List Str), ∀ y : Str,
    (∀ c ∈ y.head?, digit c = true) → matchAt userFrom (behind u y) = r := by
  obtain ⟨a,v,hu,-,hv,ha,hvh⟩ := split_class regexSpace u
  have hsp : ∀ c ∈ ' '::a, regexSpace c = true := all_cons rfl ha
  cases hve : v with
  | nil =>
    refine ⟨none,fun y hy => ?_⟩
    have htext : behind u y = (' '::(a ++ [' '])) ++ (("from" : Str) ++ ([' '] ++ y)) := by
      rw [hu,behind_eq,hve]
      simp only [List.append_assoc,List.cons_append,List.nil_append]
    have hys : ∀ c ∈ y.head?, regexSpace c = false := fun c hc =>
      word_space (by simp [wordChar,hy c hc])
    have hyf : ¬ ("from" : Str) <+: y := by
      intro hp
      obtain ⟨t,rfl⟩ := hp
      exact absurd (hy 'f' rfl) (by decide)
    rw [htext,userFrom_name (all_cons rfl (all_concat rfl ha)) (by simp) (by decide) (by decide) (by decide)
      (by simp) hys,from_absent hyf]
    rfl
  | cons e v' =>
    have hvt : ∀ t : Str, ∀ c ∈ (v ++ t).head?, regexSpace c = false := fun t c hc =>
      hvh c (by rw [hve] at hc ⊢; exact hc)
    obtain ⟨w,r,hw,hwt,hrd,hww,hrh⟩ := split_class wordChar v
    by_cases hwe : w = []
    · refine ⟨none,fun y _ => ?_⟩
      have hvw : ∀ t : Str, ∀ c ∈ (v ++ t).head?, wordChar c = false := fun t c hc => by
        rw [hwe,List.nil_append] at hw
        exact hrh c (by rw [← hw]; rw [hve] at hc ⊢; exact hc)
      rw [hu,behind_eq,userFrom,matchAt_gap (blocks_word _) hsp (by simp) (hvt _)]
      exact matchAt_class_none _ true (hvw _)
    · have hb : ∃ c ∈ r, regexSpace c = false := by
        simp only [wordUser,hv,hwt,hrd,Bool.and_eq_false_iff,Bool.not_eq_false',List.isEmpty_iff,hwe,
          false_or,List.all_eq_false] at h
        simpa using h
      obtain ⟨q,hq⟩ := word_const hsp (by simp) hww hwe hrh hb
      refine ⟨q,fun y _ => ?_⟩
      rw [← hq y,hu,behind_eq,hw]
      simp only [List.append_assoc,List.cons_append,List.nil_append]

def lineEnd (port : Str) : Str := (" port " : Str) ++ port ++ (" ssh2" : Str)

theorem lineEnd_head (port : Str) : ∀ c ∈ (lineEnd port).head?, blackChar c = false := by
  intro c hc
  obtain rfl : ' ' = c := Option.some.inj hc
  decide

theorem lineEnd_mem {port : Str} (hp : ∀ c ∈ port, digit c = true) {c : Char}
    (hc : c ∉ (" port  ssh2" : Str)) (hd : digit c = false) : c ∉ lineEnd port := by
  intro hm
  rcases List.mem_append.mp hm with hm | hm
  · rcases List.mem_append.mp hm with hm | hm
    · exact hc (List.mem_append_left (" ssh2" : Str) hm)
    · simp [hp c hm] at hd
  · exact hc (List.mem_append_right (" port " : Str) hm)

theorem ip_mem {ip : Str} (h : isIpv4 ip = true) {c : Char} (hc : c ≠ '.') (hd : digit c = false) : c ∉ ip := by
  intro hm
  rcases (isIpv4_chars h).1 c hm with h | h
  · exact hc h
  · simp [h] at hd

theorem spares_word {d : Char} {g : Char → Bool} {w : Str} {p : Pattern} (hw : d ∉ w) (h : Spares d g p) :
    Spares d g (word w ++ p) := by
  induction w with
  | nil => exact h
  | cons c w ih =>
    rw [List.mem_cons,not_or] at hw
    exact .char (Ne.symm hw.1) (ih hw.2)

theorem spares_gap {g : Char → Bool} {p : Pattern} (h : Spares '.' g p) : Spares '.' g (gap::p) :=
  .plus (by decide) h

theorem spares_userFrom : Spares '.' blackChar userFrom :=
  spares_gap (.plus (by decide) (spares_gap (spares_word (by decide) (spares_gap .last))))

theorem spares_pat1 : Spares '.' blackChar pat1 :=
  spares_word (by decide) (spares_gap (spares_word (by decide) (spares_gap
    (spares_word (by decide) spares_userFrom))))

theorem spares_pat2 : Spares '.' blackChar pat2 :=
  spares_word (by decide) (spares_gap (spares_word (by decide) (spares_gap
    (spares_word (by decide) (spares_gap .last)))))

theorem spares_pat3 : Spares '.' blackChar pat3 :=
  spares_word (by decide) (spares_gap (spares_word (by decide) (spares_gap
    (spares_word (by decide) spares_userFrom))))

theorem spares_pat4 : Spares '.' blackChar pat4 :=
  spares_word (by decide) (spares_gap (spares_word (by decide) spares_userFrom))

def within (p : Pattern) (u ip : Str) : Option (List Str) := search p (u ++ ((" from " : Str) ++ ip))

abbrev Keyed (c : Char) : Prop := c ∈ ("ACFI" : Str)

theorem Keyed.other {c : Char} (h : Keyed c) :
    c ≠ '.' ∧ digit c = false ∧ regexSpace c = false ∧ c ∉ (" port  ssh2" : Str) ∧ c ∉ (" from " : Str) := by
  have hall : ∀ c ∈ ("ACFI" : Str), c ≠ '.' ∧ digit c = false ∧ regexSpace c = false ∧
      c ∉ (" port  ssh2" : Str) ∧ c ∉ (" from " : Str) := by decide
  exact hall c h

theorem search_within {c : Char} {p : Pattern} (hk : Keyed c) (hs : Spares '.' blackChar (.char c::p))
    {a : Str} (ha : c ∉ a) (u : Str) {ip t : Str} (hip : isIpv4 ip = true)
    (ht : ∀ d ∈ t.head?, blackChar d = false) (hct : c ∉ t) :
    search (.char c::p) (a ++ (u ++ ((" from " : Str) ++ (ip ++ t)))) = within (.char c::p) u ip := by
  have hd := ip_mem hip (Keyed.other hk).1 (Keyed.other hk).2.1
  rw [search_skip ha,← List.append_assoc,search_append hs ht (isIpv4_chars hip).2.2 hd hct,within,
    List.append_assoc]

theorem matchAt_keyword {c : Char} (hc : regexSpace c = false) (w : Str) (p : Pattern) (s : Str) :
    matchAt (gap::(word (c::w) ++ p)) (' '::((c::w) ++ s)) = matchAt p s := by
  have hb : Blocks regexSpace (word (c::w) ++ p) := blocks_char hc _
  have hg := matchAt_gap hb (x:=[' ']) (y:=(c::w) ++ s) (by decide) (by simp) (by simpa using hc)
  rw [List.singleton_append] at hg
  rw [hg,matchAt_words]

theorem pat1_behind (s : Str) : matchAt pat1 (("Accepted password for" : Str) ++ s) = matchAt userFrom s := by
  have ht : ("Accepted password for" : Str) ++ s = ("Accepted" : Str) ++ (' '::(("password" : Str) ++
    (' '::(("for" : Str) ++ s)))) := rfl
  rw [ht,pat1,matchAt_words]
  exact (matchAt_keyword (by decide) _ _ _).trans (matchAt_keyword (by decide) _ _ _)

theorem pat3_behind (s : Str) : matchAt pat3 (("Failed password for" : Str) ++ s) = matchAt userFrom s := by
  have ht : ("Failed password for" : Str) ++ s = ("Failed" : Str) ++ (' '::(("password" : Str) ++
    (' '::(("for" : Str) ++ s)))) := rfl
  rw [ht,pat3,matchAt_words]
  exact (matchAt_keyword (by decide) _ _ _).trans (matchAt_keyword (by decide) _ _ _)

theorem pat4_behind (s : Str) : matchAt pat4 (("Invalid user" : Str) ++ s) = matchAt userFrom s := by
  have ht : ("Invalid user" : Str) ++ s = ("Invalid" : Str) ++ (' '::(("user" : Str) ++ s)) := rfl
  rw [ht,pat4,matchAt_words]
  exact matchAt_keyword (by decide) _ _ _

/-- The name of a login without an account does not follow the keyword of a failure. -/
theorem userFrom_invalid (s : Str) : matchAt userFrom ((" invalid user" : Str) ++ s) = none := by
  have ht : (" invalid user" : Str) ++ s = [' '] ++ (("invalid" : Str) ++ ([' '] ++ (("user" : Str) ++ s))) := rfl
  have hu : ¬ ("from" : Str) <+: ("user" : Str) ++ s := by
    rintro ⟨t,h⟩
    exact absurd (congrArg List.head? h) (by simp [Str.of_ascii])
  rw [ht,userFrom_name (by decide) (by simp) (by decide) (by decide) (by decide) (by simp) (by
    intro c hc
    obtain rfl : 'u' = c := Option.some.inj hc
    decide),from_absent hu]
  rfl

theorem pat1_within {a u ip t : Str} (ha : 'A' ∉ a) (hip : isIpv4 ip = true)
    (ht : ∀ d ∈ t.head?, blackChar d = false) (hc : ∀ c, Keyed c → c ∉ t) :
    search pat1 (a ++ (u ++ ((" from " : Str) ++ (ip ++ t)))) = within pat1 u ip :=
  have hk : Keyed 'A' := by decide
  search_within hk spares_pat1 ha u hip ht (hc _ hk)

theorem pat2_within {a u ip t : Str} (ha : 'C' ∉ a) (hip : isIpv4 ip = true)
    (ht : ∀ d ∈ t.head?, blackChar d = false) (hc : ∀ c, Keyed c → c ∉ t) :
    search pat2 (a ++ (u ++ ((" from " : Str) ++ (ip ++ t)))) = within pat2 u ip :=
  have hk : Keyed 'C' := by decide
  search_within hk spares_pat2 ha u hip ht (hc _ hk)

theorem pat3_within {a u ip t : Str} (ha : 'F' ∉ a) (hip : isIpv4 ip = true)
    (ht : ∀ d ∈ t.head?, blackChar d = false) (hc : ∀ c, Keyed c → c ∉ t) :
    search pat3 (a ++ (u ++ ((" from " : Str) ++ (ip ++ t)))) = within pat3 u ip :=
  have hk : Keyed 'F' := by decide
  search_within hk spares_pat3 ha u hip ht (hc _ hk)

theorem pat4_within {a u ip t : Str} (ha : 'I' ∉ a) (hip : isIpv4 ip = true)
    (ht : ∀ d ∈ t.head?, blackChar d = false) (hc : ∀ c, Keyed c → c ∉ t) :
    search pat4 (a ++ (u ++ ((" from " : Str) ++ (ip ++ t)))) = within pat4 u ip :=
  have hk : Keyed 'I' := by decide
  search_within hk spares_pat4 ha u hip ht (hc _ hk)

theorem behind_end {u ip t : Str} (hip : isIpv4 ip = true) (ht : ∀ d ∈ t.head?, blackChar d = false) :
    matchAt userFrom (behind u (ip ++ t)) = matchAt userFrom (behind u ip) := by
  have hb : behind u (ip ++ t) = behind u ip ++ t := by simp [behind]
  have hm : '.' ∈ behind u ip := by simp [behind,(isIpv4_chars hip).2.2]
  rw [hb,matchAt_append spares_userFrom ht hm]

theorem keyed_end {port : Str} (hp : ∀ c ∈ port, digit c = true) : ∀ c, Keyed c → c ∉ lineEnd port :=
  fun _ hc => lineEnd_mem hp (Keyed.other hc).2.2.2.1 (Keyed.other hc).2.1

section Lines

variable (h : Host) (ldate pid u : Str) {ip port : Str} (hip : isIpv4 ip = true)
  (hp : ∀ c ∈ port, digit c = true)

include hip hp

omit hp in
theorem parse_invalidUser : parseSshlog h ldate pid (invalidUserLine u ip) =
    decideLine h ldate pid (within pat1 u ip) (within pat2 u ip) (within pat3 u ip)
      ((matchAt userFrom (behind u ip)).or (within pat4 u ip)) := by
  have hl : invalidUserLine u ip = ("Invalid user " : Str) ++ (u ++ ((" from " : Str) ++ (ip ++ []))) := by
    simp only [invalidUserLine,List.append_assoc,List.append_nil]
  have hz : ∀ d ∈ ([] : Str).head?, blackChar d = false := by simp
  have h₄ : search pat4 (("Invalid user " : Str) ++ (u ++ ((" from " : Str) ++ (ip ++ [])))) =
      (matchAt pat4 (("Invalid user" : Str) ++ behind u (ip ++ []))).or (search pat4
        (("nvalid user " : Str) ++ (u ++ ((" from " : Str) ++ (ip ++ []))))) := rfl
  rw [parseSshlog,hl,pat1_within (by decide) hip hz (by simp),pat2_within (by decide) hip hz (by simp),
    pat3_within (by decide) hip hz (by simp),h₄,pat4_behind,pat4_within (by decide) hip hz (by simp),
    List.append_nil]

theorem parse_failedInvalid : parseSshlog h ldate pid (failedInvalidLine u ip port) =
    decideLine h ldate pid (within pat1 u ip) (within pat2 u ip) (within pat3 u ip) (within pat4 u ip) := by
  have hl : failedInvalidLine u ip port = ("Failed password for invalid user " : Str) ++
      (u ++ ((" from " : Str) ++ (ip ++ lineEnd port))) := by
    simp only [failedInvalidLine,lineEnd,List.append_assoc]
  have hk := keyed_end hp
  have h₃ : search pat3 (("Failed password for invalid user " : Str) ++
      (u ++ ((" from " : Str) ++ (ip ++ lineEnd port)))) =
      (matchAt pat3 (("Failed password for" : Str) ++ ((" invalid user" : Str) ++
        behind u (ip ++ lineEnd port)))).or (search pat3 (("ailed password for invalid user " : Str) ++
        (u ++ ((" from " : Str) ++ (ip ++ lineEnd port))))) := rfl
  rw [parseSshlog,hl,pat1_within (by decide) hip (lineEnd_head port) hk,
    pat2_within (by decide) hip (lineEnd_head port) hk,h₃,pat3_behind,userFrom_invalid,
    pat3_within (by decide) hip (lineEnd_head port) hk,pat4_within (by decide) hip (lineEnd_head port) hk]
  rfl

theorem parse_failed : parseSshlog h ldate pid (failedLine u ip port) =
    decideLine h ldate pid (within pat1 u ip) (within pat2 u ip)
      ((matchAt userFrom (behind u ip)).or (within pat3 u ip)) (within pat4 u ip) := by
  have hl : failedLine u ip port = ("Failed password for " : Str) ++
      (u ++ ((" from " : Str) ++ (ip ++ lineEnd port))) := by
    simp only [failedLine,lineEnd,List.append_assoc]
  have hk := keyed_end hp
  have h₃ : search pat3 (("Failed password for " : Str) ++ (u ++ ((" from " : Str) ++ (ip ++ lineEnd port)))) =
      (matchAt pat3 (("Failed password for" : Str) ++ behind u (ip ++ lineEnd port))).or (search pat3
        (("ailed password for " : Str) ++ (u ++ ((" from " : Str) ++ (ip ++ lineEnd port))))) := rfl
  rw [parseSshlog,hl,pat1_within (by decide) hip (lineEnd_head port) hk,
    pat2_within (by decide) hip (lineEnd_head port) hk,h₃,pat3_behind,behind_end hip (lineEnd_head port),
    pat3_within (by decide) hip (lineEnd_head port) hk,pat4_within (by decide) hip (lineEnd_head port) hk]

theorem parse_accepted : parseSshlog h ldate pid (acceptedLine u ip port) =
    decideLine h ldate pid ((matchAt userFrom (behind u ip)).or (within pat1 u ip)) (within pat2 u ip)
      (within pat3 u ip) (within pat4 u ip) := by
  have hl : acceptedLine u ip port = ("Accepted password for " : Str) ++
      (u ++ ((" from " : Str) ++ (ip ++ lineEnd port))) := by
    simp only [acceptedLine,lineEnd,List.append_assoc]
  have hk := keyed_end hp
  have h₁ : search pat1 (("Accepted password for " : Str) ++ (u ++ ((" from " : Str) ++ (ip ++ lineEnd port)))) =
      (matchAt pat1 (("Accepted password for" : Str) ++ behind u (ip ++ lineEnd port))).or (search pat1
        (("ccepted password for " : Str) ++ (u ++ ((" from " : Str) ++ (ip ++ lineEnd port))))) := rfl
  rw [parseSshlog,hl,h₁,pat1_behind,behind_end hip (lineEnd_head port),
    pat1_within (by decide) hip (lineEnd_head port) hk,pat2_within (by decide) hip (lineEnd_head port) hk,
    pat3_within (by decide) hip (lineEnd_head port) hk,pat4_within (by decide) hip (lineEnd_head port) hk]

end Lines

variable {h : Host} {u : Str}

def charge (h : Host) (s : Str) : List Str := if peerIp h s = ("unknown" : Str) then [] else [peerIp h s]

@[simp] theorem charged_attempt (ip type : Str) (as : List Action) :
    charged (.attempt ip type::as) = (if ip = ("unknown" : Str) then [] else [ip]) ++ charged as := by
  unfold charged
  by_cases hi : ip = ("unknown" : Str)
  · simp [hi]
  · simp [hi]

theorem charged_onFailed (h : Host) (pid : Str) (m : List Str) :
    charged (onFailed h pid m).2 = charge h (m.getD 1 []) :=
  (charged_attempt _ "ssh" [.resetAuthPassword]).trans (List.append_nil _)

theorem charged_onInvalid (h : Host) (pid : Str) (m : List Str) :
    charged (onInvalid h pid m).2 = charge h (m.getD 1 []) :=
  (charged_attempt _ "ssh" [.resetAuthPassword]).trans (List.append_nil _)

theorem onAccepted_ip {h : Host} {ldate pid : Str} {m : List Str} {x : Str}
    (hx : x ∈ charged (onAccepted h ldate pid m).2 ++ opened (onAccepted h ldate pid m).2) :
    x = peerIp h (m.getD 1 []) := by
  unfold onAccepted at hx
  generalize (if null h.sshUser then ("sshuser" : Str) else h.sshUser) = name at hx
  dsimp only at hx
  split at hx
  · -- charged, for an account that is not the login account
    replace hx : x ∈ charged [Action.attempt (peerIp h (m.getD 1 [])) ("ssh" : Str)] ++ [] := hx
    rw [List.append_nil,charged_attempt,show charged [] = [] from rfl,List.append_nil] at hx
    split at hx
    · simp at hx
    · exact List.mem_singleton.mp hx
  · exact List.mem_singleton.mp hx

theorem charge_single {s ip : Str} (h' : charge h s = [ip]) : peerIp h s = ip := by
  unfold charge at h'
  split at h'
  · simp at h'
  · simpa using h'

theorem peerIp_ip {ip : Str} (hip : isIpv4 ip = true) : peerIp h ip = ip := by
  rw [peerIp,checkIp,hip]
  rfl

theorem charge_ip {ip : Str} (hip : isIpv4 ip = true) : charge h ip = [ip] := by
  have hu : ip ≠ ("unknown" : Str) := by rintro rfl; exact absurd hip (by decide)
  rw [charge,peerIp_ip hip,if_neg hu]

theorem twice_ne {α : Type} (l : List α) (a : α) : l ++ l ≠ [a] := by
  intro hl
  have := congrArg List.length hl
  simp only [List.length_append,List.length_singleton] at this
  omega

/-- Where the failures of a name are right, the address is found right behind it. -/
theorem Attributed.found (ha : Attributed h u) {ip : Str} (hip : isIpv4 ip = true) :
    ∃ m, matchAt userFrom (behind u ip) = some m ∧ peerIp h (m.getD 1 []) = ip := by
  have hp : ∀ c ∈ ("22" : Str), digit c = true := by decide
  obtain ⟨hf,-,hi,-⟩ := ha [] [] ip "22" hip hp
  rw [parse_failed h [] [] u hip hp] at hf
  rw [parse_invalidUser h [] [] u hip,parse_failedInvalid h [] [] u hip hp] at hi
  -- what is found inside the name is found in both lines of a login
  cases h₁ : within pat1 u ip with
  | some m => rw [h₁] at hi; exact absurd hi (twice_ne _ _)
  | none =>
    cases h₂ : within pat2 u ip with
    | some m => rw [h₁,h₂] at hi; exact absurd hi (twice_ne _ _)
    | none =>
      cases h₃ : within pat3 u ip with
      | some m => rw [h₁,h₂,h₃] at hi; exact absurd hi (twice_ne _ _)
      | none =>
        rw [h₁,h₂,h₃] at hi hf
        cases hm : matchAt userFrom (behind u ip) with
        | none => rw [hm,Option.none_or] at hi; exact absurd hi (twice_ne _ _)
        | some m =>
          rw [hm] at hf
          exact ⟨m,rfl,charge_single ((charged_onFailed h [] m).symm.trans hf)⟩

/-- Inside a proper name no keyword is followed by the next one. -/
theorem keyword_absent {k l v b s : Str} {q : Pattern} (hl : ¬ l <+: ("from" : Str) ++ s)
    (hk : ∀ c ∈ k, regexSpace c = false) (hv : ∀ c ∈ v, wordChar c = true)
    (hb : ∀ c ∈ b, regexSpace c = true) (hbe : b ≠ []) {x : Char} {l' : Str} (hx : l = x::l')
    (hxs : regexSpace x = false) :
    matchAt (word k ++ gap::(word l ++ q)) (v ++ (b ++ (("from" : Str) ++ s))) = none := by
  rw [matchAt_word]
  split
  · rename_i hp
    obtain ⟨c,t,rfl⟩ := List.exists_cons_of_ne_nil hbe
    have hc : c ∉ k := fun hm => by
      have := hk c hm
      rw [hb c (by simp)] at this
      simp at this
    obtain ⟨r,rfl⟩ := (prefix_stop hc).mp hp
    rw [List.append_assoc,List.drop_left' rfl]
    by_cases hr : r = []
    · have hbl : Blocks regexSpace (word l ++ q) := by
        rw [hx]
        exact blocks_char hxs _
      rw [hr,List.nil_append,matchAt_gap hbl hb (by simp) (from_head _),matchAt_word,if_neg hl]
    · obtain ⟨d,t',rfl⟩ := List.exists_cons_of_ne_nil hr
      exact matchAt_class_none _ false fun e he => by
        obtain rfl : d = e := Option.some.inj he
        exact word_space (hv d (by simp))
  · rfl

theorem search_absent_word {c x : Char} {k l v b s : Str} {q : Pattern} (hl : ¬ (x::l) <+: ("from" : Str) ++ s)
    (hk : ∀ d ∈ c::k, regexSpace d = false) (hb : ∀ d ∈ b, regexSpace d = true) (hbe : b ≠ [])
    (hxs : regexSpace x = false) (hc : c ∉ b ++ (("from" : Str) ++ s)) (hv : ∀ d ∈ v, wordChar d = true) :
    search (word (c::k) ++ gap::(word (x::l) ++ q)) (v ++ (b ++ (("from" : Str) ++ s))) = none := by
  induction v with
  | nil => exact search_absent hc
  | cons d v ih =>
    have hm := keyword_absent (q:=q) hl hk hv hb hbe rfl hxs
    rw [List.cons_append] at hm
    rw [List.cons_append,search,hm,ih fun e he => hv e (List.mem_cons_of_mem _ he)]
    rfl

/-- A proper name: no keyword inside, and the address behind it. -/
theorem wordUser_within (hu : wordUser u = true) {ip : Str} (hip : isIpv4 ip = true) :
    within pat1 u ip = none ∧ within pat2 u ip = none ∧ within pat3 u ip = none ∧ within pat4 u ip = none := by
  simp only [wordUser,Bool.and_eq_true,Bool.not_eq_true',List.isEmpty_eq_false_iff,List.all_eq_true] at hu
  obtain ⟨a,v,hau,-,hv,ha,-⟩ := split_class regexSpace u
  rw [hv] at hu
  obtain ⟨w,b,hw,hwt,hbd,hww,-⟩ := split_class wordChar v
  rw [hwt,hbd] at hu
  have htext : u ++ ((" from " : Str) ++ ip) = a ++ (w ++ ((b ++ [' ']) ++ (("from" : Str) ++ (' '::ip)))) := by
    rw [hau,hw,show (" from " : Str) = [' '] ++ (("from" : Str) ++ [' ']) from rfl]
    simp only [List.append_assoc,List.cons_append,List.nil_append]
  have hb := all_concat (c := ' ') rfl hu.2
  have hbe : b ++ [' '] ≠ [] := by simp
  have hskip : ∀ c, Keyed c → c ∉ a := fun c hc hm => by
    have := (Keyed.other hc).2.2.1
    rw [ha c hm] at this
    simp at this
  have hafter : ∀ c, Keyed c → c ∉ (b ++ [' ']) ++ (("from" : Str) ++ (' '::ip)) := fun c hc hm => by
    rcases List.mem_append.mp hm with hm | hm
    · have := (Keyed.other hc).2.2.1
      rw [hb c hm] at this
      simp at this
    · rw [show ("from" : Str) ++ (' '::ip) = ("from " : Str) ++ ip from rfl,List.mem_append] at hm
      rcases hm with hm | hm
      · exact (Keyed.other hc).2.2.2.2 (List.mem_cons_of_mem _ hm)
      · exact ip_mem hip (Keyed.other hc).1 (Keyed.other hc).2.1 hm
  have hne : ∀ {x : Char} {l : Str}, x ≠ 'f' → ¬ (x::l) <+: ("from" : Str) ++ (' '::ip) := by
    rintro x l hx ⟨t,ht⟩
    exact hx (List.cons.inj ht).1
  have h₁ : Keyed 'A' := by decide
  have h₂ : Keyed 'C' := by decide
  have h₃ : Keyed 'F' := by decide
  have h₄ : Keyed 'I' := by decide
  simp only [within,htext]
  refine ⟨?_,?_,?_,?_⟩
  · exact (search_skip (hskip _ h₁) _).trans
      (search_absent_word (hne (by decide)) (by decide) hb hbe (by decide) (hafter _ h₁) hww)
  · exact (search_skip (hskip _ h₂) _).trans
      (search_absent_word (hne (by decide)) (by decide) hb hbe (by decide) (hafter _ h₂) hww)
  · exact (search_skip (hskip _ h₃) _).trans
      (search_absent_word (hne (by decide)) (by decide) hb hbe (by decide) (hafter _ h₃) hww)
  · exact (search_skip (hskip _ h₄) _).trans
      (search_absent_word (hne (by decide)) (by decide) hb hbe (by decide) (hafter _ h₄) hww)

/-- Failures are charged to the peer exactly for the names that are one word. -/
theorem attributed_iff (h : Host) (u : Str) : Attributed h u ↔ wordUser u = true := by
  constructor
  · intro ha
    by_contra hn
    obtain ⟨r,hr⟩ := other_const (by simpa using hn)
    -- the address found does not depend on the peer
    have h₁ : isIpv4 "10.0.0.1" = true := by decide
    have h₂ : isIpv4 "10.0.0.2" = true := by decide
    obtain ⟨m,hm,hmi⟩ := ha.found h₁
    obtain ⟨m',hm',hmi'⟩ := ha.found h₂
    rw [hr _ (by decide)] at hm hm'
    rw [hm,Option.some.injEq] at hm'
    rw [← hm',hmi] at hmi'
    exact absurd hmi' (by decide)
  · intro hu ldate pid ip port hip hp
    obtain ⟨h₁,h₂,h₃,h₄⟩ := wordUser_within hu hip
    obtain ⟨w,hw⟩ := wordUser_found hu
    have hm := hw ip [] hip (by simp)
    rw [List.append_nil] at hm
    rw [parse_failed h ldate pid u hip hp,parse_invalidUser h ldate pid u hip,
      parse_failedInvalid h ldate pid u hip hp,parse_accepted h ldate pid u hip hp,h₁,h₂,h₃,h₄,hm]
    refine ⟨?_,rfl,?_,rfl,?_⟩
    · exact (charged_onFailed h pid [w,ip]).trans (charge_ip hip)
    · rw [show charged (decideLine h ldate pid none none none none).2 = [] from rfl,List.append_nil]
      exact (charged_onInvalid h pid [w,ip]).trans (charge_ip hip)
    · intro x hx
      exact (onAccepted_ip hx).trans (peerIp_ip hip)

/-- A login from `1.2.3.4` as `a from 9.9.9.9` is charged to `9.9.9.9`, and one as `sshuser from 9.9.9.9`
opens a session for it. -/
theorem peer_forged : ¬ ∀ h u, Attributed h u := by
  intro h
  have hline : charged (parseSshlog ⟨[],fun _ => [],fun _ => false⟩ [] []
      (failedLine "a from 9.9.9.9" "1.2.3.4" "22")).2 = [("9.9.9.9" : Str)] := by decide
  have := (h ⟨[],fun _ => [],fun _ => false⟩ "a from 9.9.9.9" [] [] "1.2.3.4" "22" (by decide) (by decide)).1
  rw [hline] at this
  exact absurd this (by decide)

example : opened (parseSshlog ⟨[],fun _ => [],fun _ => false⟩ [] []
    (acceptedLine "sshuser from 9.9.9.9" "1.2.3.4" "22")).2 = [("9.9.9.9" : Str)] := by decide

end SshLog
end Mybox
