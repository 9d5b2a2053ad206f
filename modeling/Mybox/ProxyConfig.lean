import Mybox.HostRange

/-! Version 3.0: the configuration the web proxy hands to browsers. The script is written as text from the list of the
local networks; a browser reads it and asks it for every host. -/
namespace Mybox
namespace ProxyConfig

open Php Ipcalc

/-- The assignments to `$_CLASSIP`, in the order of the source. -/
def classIpRows : List (Str × Str) :=
  [("32","255.255.255.255"),("32","255.255.255.254"),("30","255.255.255.252"),("29","255.255.255.248"),
    ("28","255.255.255.240"),("27","255.255.255.224"),("26","255.255.255.192"),("25","255.255.255.128"),
    ("24","255.255.255.0"),("23","255.255.254.0"),("22","255.255.252.0"),("21","255.255.248.0"),
    ("20","255.255.240.0"),("19","255.255.224.0"),("18","255.255.192.0"),("17","255.255.128.0"),
    ("16","255.255.0.0"),("15","255.254.0.0"),("14","255.252.0.0"),("13","255.248.0.0"),("12","255.240.0.0"),
    ("11","255.224.0.0"),("10","255.192.0.0"),("9","255.128.0.0"),("8","255.0.0.0"),("7","254.0.0.0"),
    ("6","252.0.0.0"),("5","248.0.0.0"),("4","240.0.0.0"),("3","224.0.0.0"),("2","192.0.0.0"),("1","128.0.0.0")]

def classIp (k : Str) : Str := (((classIpRows.filter fun r => r.1 = k).getLast?).map Prod.snd).getD []

/-- `/^(.*?)\/(\d\d)$/` -/
def slashed (ip : Str) : Option (Str × Str) :=
  match ip.reverse with
  | b::a:: '/'::s => if digit a && digit b then some (s.reverse,[a,b]) else none
  | _ => none

/-- The test for an entry of the list, with the mask the table has. -/
def inetOf (ip : Str) : Option (Str × Str) :=
  if trim ip = [] then none else (slashed (trim ip)).map fun m => (m.1,classIp m.2)

def inets (networks : Str) : List (Str × Str) := (networks.splitOnP regexSpace).filterMap inetOf

def inetText (e : Str × Str) : Str := ("isInNet(host,\"" : Str) ++ e.1 ++ ("\",\"" : Str) ++ e.2 ++ ("\")||" : Str)

def cfClientConfig (networks port : Str) : Str :=
  let inet := (inets networks).flatMap inetText
  ("function FindProxyForURL(url,host) \x7b \n" : Str) ++
  ("\tif(isPlainHostName(host)||\n" : Str) ++
  (if inet ≠ [] then ("\t\t" : Str) ++ inet ++ ("\n" : Str) else []) ++
  ("\t\thost==\"mybox.internal.proxy\") \x7b\n" : Str) ++
  ("\t\treturn \"DIRECT\";\n" : Str) ++
  ("\t\x7d else \x7b\n" : Str) ++
  ("\t\treturn \"PROXY mybox.internal.proxy:" : Str) ++ port ++ ("; DIRECT\";\n" : Str) ++
  ("\t\x7d\n" : Str) ++
  ("\x7d\n" : Str)

-- Reading the script: a function with one test, a disjunction, and two texts it returns.
inductive Cond
  | plainHostName
  | inNet (pattern mask : Str)
  | hostIs (name : Str)

structure Script where
  conds : List Cond
  yes : Str
  no : Str

def blank (c : Char) : Bool := c = ' ' || c = '\t' || c = '\n'

def token (w s : Str) : Option Str :=
  if w <+: s.dropWhile blank then some ((s.dropWhile blank).drop w.length) else none

/-- A text in quotes; one with a backslash or a newline is not read. -/
def quoted (s : Str) : Option (Str × Str) :=
  match s.dropWhile blank with
  | '"'::t =>
    match t.dropWhile (· ≠ '"') with
    | '"'::r =>
      if (t.takeWhile (· ≠ '"')).all fun c => c ≠ '\\' && c ≠ '\n' then some (t.takeWhile (· ≠ '"'),r) else none
    | _ => none
  | _ => none

def readCond (s : Str) : Option (Cond × Str) :=
  match token "isPlainHostName(host)" s with
  | some s => some (.plainHostName,s)
  | none =>
    match token "isInNet(host," s with
    | some s => do
      let (p,s) ← quoted s
      let s ← token "," s
      let (m,s) ← quoted s
      let s ← token ")" s
      return (.inNet p m,s)
    | none => do
      let s ← token "host==" s
      let (n,s) ← quoted s
      return (.hostIs n,s)

/-- Tests with `||` between them, up to so many. -/
def readConds : ℕ → Str → Option (List Cond × Str)
  | 0, _ => none
  | n+1, s => do
    let (c,s) ← readCond s
    match token "||" s with
    | none => return ([c],s)
    | some s => do
      let (cs,s) ← readConds n s
      return (c::cs,s)

def readReturn (s : Str) : Option (Str × Str) := do
  let s ← token "\x7b" s
  let s ← token "return" s
  let (r,s) ← quoted s
  let s ← token ";" s
  let s ← token "\x7d" s
  return (r,s)

def readScript (s : Str) : Option Script := do
  let s ← token "function FindProxyForURL(url,host)" s
  let s ← token "\x7b" s
  let s ← token "if(" s
  let (cs,s) ← readConds s.length s
  let s ← token ")" s
  let (yes,s) ← readReturn s
  let s ← token "else" s
  let (no,s) ← readReturn s
  let s ← token "\x7d" s
  if s.all blank then return ⟨cs,yes,no⟩ else none

/-- What a browser makes of a host name, and its test of a host against an address and a mask as it is documented. -/
structure Browser where
  resolve : Str → Option (BitVec 32)
  isInNet : Str → Str → Str → Bool
  documented : ∀ host x m, isInNet host (dotted x) (dotted m) = true ↔
    ∃ a, resolve host = some a ∧ a &&& m = x &&& m

/-- `isPlainHostName` is true of a name without dots. -/
def Cond.holds (b : Browser) (host : Str) : Cond → Bool
  | .plainHostName => !host.contains '.'
  | .inNet p m => b.isInNet host p m
  | .hostIs n => host = n

def Script.run (b : Browser) (host : Str) (s : Script) : Str := if s.conds.any (Cond.holds b host) then s.yes else s.no

/-- What the browser gets from the text of a script. -/
def findProxyForUrl (b : Browser) (config host : Str) : Option Str := (readScript config).map (Script.run b host)

/-- An address, alone or with the length of a mask. -/
structure Net where
  ip : BitVec 32
  len : Option ℕ
  le : ∀ p ∈ len, p ≤ 32

def Net.text (n : Net) : Str :=
  match n.len with
  | none => dotted n.ip
  | some p => dotted n.ip ++ '/'::decimal p

def Net.Has (n : Net) (a : BitVec 32) : Prop := a &&& netmask (n.len.getD 32) = n.ip &&& netmask (n.len.getD 32)

def networksText (nets : List Net) : Str := List.intercalate [' '] (nets.map Net.text)

/-- A plain name, the appliance, or an address in one of the networks. -/
def Local (nets : List Net) (b : Browser) (host : Str) : Prop :=
  '.' ∉ host ∨ host = ("mybox.internal.proxy" : Str) ∨ ∃ a, b.resolve host = some a ∧ ∃ n ∈ nets, n.Has a

def direct : Str := "DIRECT"

def proxied (port : Str) : Str := ("PROXY mybox.internal.proxy:" : Str) ++ port ++ ("; DIRECT" : Str)

/-- In every browser the script sends the local hosts, and only them, past the proxy. -/
def Exact (nets : List Net) (port : ℕ) : Prop :=
  ∀ b host, (findProxyForUrl b (cfClientConfig (networksText nets) (decimal port)) host = some direct ↔ Local nets b host) ∧
    (findProxyForUrl b (cfClientConfig (networksText nets) (decimal port)) host = some (proxied (decimal port)) ↔
      ¬ Local nets b host)

/-- The addresses that share all bits but the last. -/
def Beside (x a : BitVec 32) : Prop := a &&& netmask 31 = x &&& netmask 31

instance (n : Net) (a : BitVec 32) : Decidable (n.Has a) := inferInstanceAs (Decidable (_ = _))

instance (x a : BitVec 32) : Decidable (Beside x a) := inferInstanceAs (Decidable (_ = _))

/-- An entry that is written with two digits, and an address its test is for. -/
inductive Net.Tested (a : BitVec 32) : Net → Prop
  | long {n : Net} {p : ℕ} : n.len = some p → 10 ≤ p → p ≤ 30 → n.Has a → Tested a n
  | host {n : Net} : n.len = some 32 → Beside n.ip a → Tested a n

/-- No prefix of 31, nothing lost with the entries that are not written with two digits, and no other address beside
one with a prefix of 32. -/
structure Covered (nets : List Net) : Prop where
  no31 : ∀ n ∈ nets, n.len ≠ some 31
  short : ∀ n ∈ nets, n.len.getD 0 < 10 → ∀ a, n.Has a → ∃ m ∈ nets, m.Tested a
  beside : ∀ n ∈ nets, n.len = some 32 → ∀ a, Beside n.ip a → ∃ m ∈ nets, m.Has a

def script (es : List (Str × Str)) (port : Str) : Script where
  conds := .plainHostName::(es.map (fun e => .inNet e.1 e.2) ++ [.hostIs "mybox.internal.proxy"])
  yes := direct
  no := proxied port

def Quotable (w : Str) : Prop := ∀ c ∈ w, c ≠ '"' ∧ c ≠ '\\' ∧ c ≠ '\n'

def Begins (w : Str) : Prop := (w.head?.any fun c => !blank c) = true

instance (w : Str) : Decidable (Begins w) := inferInstanceAs (Decidable (_ = _))

theorem Begins.dropWhile {w : Str} (h : Begins w) (s : Str) : (w ++ s).dropWhile blank = w ++ s := by
  cases w with
  | nil => exact absurd h (by decide)
  | cons c t => exact List.dropWhile_cons_of_neg (by simpa [Begins] using h)

theorem token_append {w : Str} (h : Begins w) (s : Str) : token w (w ++ s) = some s := by
  rw [token,h.dropWhile,if_pos (List.prefix_append _ _),List.drop_left]

theorem token_blank {c : Char} (h : blank c = true) (w s : Str) : token w (c::s) = token w s := by
  rw [token,List.dropWhile_cons_of_pos h]
  rfl

theorem token_other {w v : Str} (h : Begins v) (hw : ¬ w <+: v) (hv : ¬ v <+: w) (s : Str) :
    token w (v ++ s) = none := by
  rw [token,h.dropWhile,if_neg]
  intro hp
  rcases List.prefix_or_prefix_of_prefix hp (List.prefix_append v s) with h | h
  · exact hw h
  · exact hv h

theorem quoted_text {w : Str} (h : Quotable w) (s : Str) : quoted ('"'::(w ++ '"'::s)) = some (w,s) := by
  have ht : (w ++ '"'::s).takeWhile (· ≠ '"') = w := by
    rw [List.takeWhile_append_of_pos fun c hc => decide_eq_true (h c hc).1]
    simp
  have hd : (w ++ '"'::s).dropWhile (· ≠ '"') = '"'::s := by
    rw [List.dropWhile_append_of_pos fun c hc => decide_eq_true (h c hc).1]
    simp
  have ha : (w.all fun c => c ≠ '\\' && c ≠ '\n') = true :=
    List.all_eq_true.mpr fun c hc => by simp [(h c hc).2.1,(h c hc).2.2]
  rw [quoted,List.dropWhile_cons_of_neg (by decide)]
  simp only [hd,ht,ha,if_true]

theorem readCond_blank {c : Char} (h : blank c = true) (s : Str) : readCond (c::s) = readCond s := by
  unfold readCond
  simp only [token_blank h]

theorem readCond_plain (s : Str) : readCond (("isPlainHostName(host)" : Str) ++ s) = some (.plainHostName,s) := by
  simp (disch := decide) only [readCond,token_append]

theorem readCond_inNet {p m : Str} (hp : Quotable p) (hm : Quotable m) (s : Str) :
    readCond (("isInNet(host," : Str) ++ '"'::(p ++ '"'::(("," : Str) ++ '"'::(m ++ '"'::((")" : Str) ++ s))))) =
      some (.inNet p m,s) := by
  simp (disch := decide) only [readCond,token_other,token_append,quoted_text hp,quoted_text hm,Option.bind_eq_bind,
    Option.bind_some]
  rfl

theorem readCond_hostIs {n : Str} (hn : Quotable n) (s : Str) :
    readCond (("host==" : Str) ++ '"'::(n ++ '"'::s)) = some (.hostIs n,s) := by
  simp (disch := decide) only [readCond,token_other,token_append,quoted_text hn,Option.bind_eq_bind,Option.bind_some]
  rfl

theorem readConds_blank {c : Char} (h : blank c = true) (n : ℕ) (s : Str) : readConds n (c::s) = readConds n s := by
  cases n with
  | zero => rfl
  | succ n => rw [readConds,readConds,readCond_blank h]

theorem inetText_append (e : Str × Str) (s : Str) : inetText e ++ s =
    ("isInNet(host," : Str) ++ '"'::(e.1 ++ '"'::(("," : Str) ++ '"'::(e.2 ++ '"'::((")" : Str) ++ (("||" : Str) ++ s))))) := by
  simp [inetText,Str.of_ascii]

def lastText (s : Str) : Str := ("host==" : Str) ++ '"'::(("mybox.internal.proxy" : Str) ++ '"'::((")" : Str) ++ s))

def testsText (es : List (Str × Str)) (s : Str) : Str :=
  ("isPlainHostName(host)" : Str) ++ (("||" : Str) ++ '\n'::
    ((if es = [] then [] else ['\t','\t']) ++ (es.flatMap inetText ++
      ((if es = [] then [] else ['\n']) ++ '\t':: '\t'::lastText s))))

theorem quotable_appliance : Quotable "mybox.internal.proxy" := by
  unfold Quotable
  decide

theorem readConds_inets {es : List (Str × Str)} (h : ∀ e ∈ es, Quotable e.1 ∧ Quotable e.2) {n : ℕ} (hn : es.length < n)
    (s : Str) : readConds n (es.flatMap inetText ++ '\n':: '\t':: '\t'::lastText s) =
      some (es.map (fun e => .inNet e.1 e.2) ++ [.hostIs "mybox.internal.proxy"],(")" : Str) ++ s) := by
  induction es generalizing n with
  | nil =>
    obtain ⟨k,rfl⟩ := Nat.exists_eq_add_of_lt hn
    simp (disch := decide) only [List.flatMap_nil,List.nil_append,readConds_blank]
    rw [lastText,readConds,readCond_hostIs quotable_appliance]
    simp (disch := decide) only [Option.bind_eq_bind,Option.bind_some,token_other]
    rfl
  | cons e es ih =>
    obtain ⟨k,rfl⟩ := Nat.exists_eq_add_of_lt hn
    obtain ⟨h₁,h₂⟩ := h e (by simp)
    rw [List.flatMap_cons,List.append_assoc,inetText_append,readConds,readCond_inNet h₁ h₂]
    simp (disch := decide) only [Option.bind_eq_bind,Option.bind_some,token_append]
    rw [ih (fun f hf => h f (by simp [hf])) (by rw [List.length_cons]; omega)]
    rfl

def returnText (r s : Str) : Str :=
  ' '::(("\x7b" : Str) ++ '\n':: '\t':: '\t'::(("return" : Str) ++ ' ':: '"'::(r ++ '"'::((";" : Str) ++
    '\n':: '\t'::(("\x7d" : Str) ++ s)))))

theorem readReturn_text {r : Str} (h : Quotable r) (s : Str) : readReturn (returnText r s) = some (r,s) := by
  have hq : quoted (' ':: '"'::(r ++ '"'::((";" : Str) ++ '\n':: '\t'::(("\x7d" : Str) ++ s)))) =
      some (r,(";" : Str) ++ '\n':: '\t'::(("\x7d" : Str) ++ s)) := quoted_text h _
  rw [readReturn,returnText]
  simp (disch := decide) only [Option.bind_eq_bind,Option.bind_some,token_append,token_blank,hq]
  rfl

def bodyText (port : Str) : Str :=
  returnText direct (' '::(("else" : Str) ++ returnText (proxied port) ('\n'::(("\x7d" : Str) ++ ['\n']))))

set_option maxRecDepth 4000 in
theorem cfClientConfig_eq (networks port : Str) : cfClientConfig networks port =
    ("function FindProxyForURL(url,host)" : Str) ++ ' '::(("\x7b" : Str) ++ ' ':: '\n':: '\t'::(("if(" : Str) ++
      testsText (inets networks) (bodyText port))) := by
  by_cases h : inets networks = []
  · simp [cfClientConfig,h,testsText,lastText,bodyText,returnText,proxied,direct,Str.of_ascii]
  · have hne : (inets networks).flatMap inetText ≠ [] := by
      obtain ⟨e,es,he⟩ := List.exists_cons_of_ne_nil h
      rw [he,List.flatMap_cons,inetText_append]
      simp [Str.of_ascii]
    rw [cfClientConfig,testsText]
    simp only [if_pos hne,if_neg h]
    simp [lastText,bodyText,returnText,proxied,direct,Str.of_ascii]

theorem length_inets (es : List (Str × Str)) : es.length ≤ (es.flatMap inetText).length := by
  induction es with
  | nil => simp
  | cons e es ih =>
    rw [List.flatMap_cons,List.length_append,List.length_cons,inetText]
    simp only [List.length_append]
    have h : (("isInNet(host,\"" : Str)).length = 14 := rfl
    omega

theorem readConds_all {es : List (Str × Str)} (h : ∀ e ∈ es, Quotable e.1 ∧ Quotable e.2) {n : ℕ} (hn : es.length < n)
    (s : Str) : readConds (n+1) (testsText es s) =
      some (.plainHostName::(es.map (fun e => .inNet e.1 e.2) ++ [.hostIs "mybox.internal.proxy"]),(")" : Str) ++ s) := by
  have hi := readConds_inets h hn s
  rw [readConds,testsText,readCond_plain]
  simp (disch := decide) only [Option.bind_eq_bind,Option.bind_some,token_append]
  by_cases he : es = []
  · rw [he] at hi
    simp only [he,if_true,List.nil_append]
    rw [show '\n'::(([] : List (Str × Str)).flatMap inetText ++ '\t':: '\t'::lastText s) =
      ([] : List (Str × Str)).flatMap inetText ++ '\n':: '\t':: '\t'::lastText s from rfl,hi]
    rfl
  · simp only [if_neg he,List.cons_append,List.nil_append]
    simp (disch := decide) only [readConds_blank]
    rw [hi]
    rfl

theorem testsText_length (es : List (Str × Str)) (s : Str) : ∃ n, (testsText es s).length = n+1 ∧ es.length < n := by
  have hl := length_inets es
  have hp : (("||" : Str)).length = 2 := rfl
  have hn : 2 ≤ (("isPlainHostName(host)" : Str)).length := by decide
  refine ⟨(testsText es s).length - 1,?_,?_⟩
  · rw [testsText]
    simp only [List.length_append,List.length_cons]
    omega
  · rw [testsText]
    simp only [List.length_append,List.length_cons]
    omega

theorem readScript_config {networks port : Str} (h : ∀ e ∈ inets networks, Quotable e.1 ∧ Quotable e.2)
    (hp : Quotable (proxied port)) :
    readScript (cfClientConfig networks port) = some (script (inets networks) port) := by
  have hd : Quotable direct := by
    unfold Quotable
    decide
  have hc : readConds (testsText (inets networks) (bodyText port)).length (testsText (inets networks) (bodyText port)) =
      some (.plainHostName::((inets networks).map (fun e => .inNet e.1 e.2) ++ [.hostIs "mybox.internal.proxy"]),
        (")" : Str) ++ bodyText port) := by
    obtain ⟨n,hn,hlt⟩ := testsText_length (inets networks) (bodyText port)
    rw [hn]
    exact readConds_all h hlt (bodyText port)
  rw [cfClientConfig_eq,readScript]
  simp (disch := decide) only [Option.bind_eq_bind,Option.bind_some,token_append,token_blank,hc]
  rw [bodyText]
  simp (disch := decide) only [Option.bind_some,readReturn_text hd,readReturn_text hp,token_append,token_blank]
  rfl

theorem plain_dotted (x : BitVec 32) : ∀ c ∈ dotted x, plainChar c = true := bintodq_bits x ▸ plain_bintodq _

theorem plain_text (n : Net) : ∀ c ∈ n.text, plainChar c = true ∨ c = '/' := by
  intro c hc
  rw [Net.text] at hc
  cases hl : n.len with
  | none =>
    rw [hl] at hc
    exact Or.inl (plain_dotted _ c hc)
  | some p =>
    rw [hl] at hc
    rcases List.mem_append.mp hc with hc | hc
    · exact Or.inl (plain_dotted _ c hc)
    · rcases List.mem_cons.mp hc with rfl | hc
      · exact Or.inr rfl
      · exact Or.inl (plain_decimal p c hc)

theorem plainChar_black {c : Char} (h : plainChar c = true ∨ c = '/') : regexSpace c = false ∧ trimChar c = false := by
  rcases h with h | rfl
  · constructor
    · rw [Bool.eq_false_iff]
      intro hs
      simp only [regexSpace,Bool.or_eq_true,decide_eq_true_eq] at hs
      rcases hs with (((rfl | rfl) | rfl) | rfl) | rfl <;> exact absurd h (by decide)
    · rw [Bool.eq_false_iff]
      intro hs
      simp only [trimChar,Bool.or_eq_true,decide_eq_true_eq] at hs
      rcases hs with ((((rfl | rfl) | rfl) | rfl) | rfl) | rfl <;> exact absurd h (by decide)
  · decide

theorem quotable_plain {w : Str} (h : ∀ c ∈ w, plainChar c = true) : Quotable w := by
  intro c hc
  refine ⟨?_,?_,?_⟩ <;> (rintro rfl; exact absurd (h _ hc) (by decide))

theorem inets_networks (nets : List Net) : inets (networksText nets) = nets.filterMap fun n => inetOf n.text := by
  induction nets with
  | nil => decide
  | cons n nets ih =>
    have hn : ∀ c ∈ n.text, regexSpace c = false := fun c hc => (plainChar_black (plain_text n c hc)).1
    cases nets with
    | nil =>
      rw [networksText,List.map_cons,List.map_nil,List.intercalate_singleton,inets,List.splitOnP_eq_singleton hn]
      rfl
    | cons m nets =>
      have hi : networksText (n::m::nets) = n.text ++ ' '::networksText (m::nets) := by
        rw [networksText,List.map_cons,List.map_cons,List.intercalate_cons_cons]
        simp [networksText]
      rw [hi,inets,List.splitOnP_append_cons _ _ (by decide),List.splitOnP_eq_singleton hn,List.filterMap_append,
        List.filterMap_cons,List.filterMap_nil,List.filterMap_cons (a := n),← ih]
      cases inetOf n.text <;> rfl

/-- The prefixes that are written with two digits, and the others. -/
theorem decimal_digits : ∀ p < 33, (∃ a, decimal p = [a] ∧ p < 10) ∨
    ∃ a b, decimal p = [a,b] ∧ digit a = true ∧ digit b = true ∧ 10 ≤ p := by
  intro p hp
  have h : ∀ p < 33, ((decimal p).length = 1 ∧ p < 10) ∨ ((decimal p).length = 2 ∧ (decimal p).all digit = true ∧ 10 ≤ p) := by
    decide
  rcases h p hp with ⟨hl,hp⟩ | ⟨hl,hd,hp⟩
  · obtain ⟨a,ha⟩ := List.length_eq_one_iff.mp hl
    exact Or.inl ⟨a,ha,hp⟩
  · obtain ⟨a,b,hab⟩ := List.length_eq_two.mp hl
    rw [hab] at hd
    simp only [List.all_cons,List.all_nil,Bool.and_true,Bool.and_eq_true] at hd
    exact Or.inr ⟨a,b,hab,hd.1,hd.2,hp⟩

theorem slash_dotted (x : BitVec 32) : '/' ∉ dotted x := fun h => absurd (plain_dotted x _ h) (by decide)

theorem slashed_plain {w : Str} (h : '/' ∉ w) : slashed w = none := by
  have hs : '/' ∉ w.reverse := fun hm => h (List.mem_reverse.mp hm)
  rw [slashed]
  split
  · rename_i heq
    rw [heq] at hs
    exact absurd (by simp) hs
  · rfl

theorem slashed_one {w : Str} (h : '/' ∉ w) (a : Char) : slashed (w ++ ['/',a]) = none := by
  have hs : '/' ∉ w.reverse := fun hm => h (List.mem_reverse.mp hm)
  have hr : (w ++ ['/',a]).reverse = a:: '/'::w.reverse := by simp
  rw [slashed,hr]
  split
  · rename_i heq
    rw [List.cons_eq_cons,List.cons_eq_cons] at heq
    rw [heq.2.2] at hs
    exact absurd (by simp) hs
  · rfl

theorem slashed_two {a b : Char} (ha : digit a = true) (hb : digit b = true) (w : Str) :
    slashed (w ++ ['/',a,b]) = some (w,[a,b]) := by
  have hr : (w ++ ['/',a,b]).reverse = b::a:: '/'::w.reverse := by simp
  rw [slashed,hr]
  simp [ha,hb]

/-- Only entries with two digits become a test. -/
theorem inetOf_text (n : Net) : inetOf n.text =
    match n.len with
    | some p => if 10 ≤ p then some (dotted n.ip,classIp (decimal p)) else none
    | none => none := by
  have hb : trim n.text = n.text := References.trim_of_black fun c hc => (plainChar_black (plain_text n c hc)).2
  have hs := slash_dotted n.ip
  rw [inetOf,hb]
  cases hl : n.len with
  | none =>
    rw [Net.text,hl,slashed_plain hs]
    exact ite_self none
  | some p =>
    have hne : dotted n.ip ++ '/'::decimal p ≠ [] := by simp
    rw [Net.text,hl]
    rcases decimal_digits p (by have := n.le p (by simp [hl]); omega) with ⟨a,ha,hp⟩ | ⟨a,b,hab,hda,hdb,hp⟩
    · simp only [if_neg hne]
      rw [ha,slashed_one hs,if_neg (by omega)]
      rfl
    · simp only [if_neg hne]
      rw [hab,slashed_two hda hdb,if_pos hp]
      rfl

theorem classIp_mask : ∀ p < 33, 10 ≤ p → p ≠ 31 →
    classIp (decimal p) = dotted (netmask (if p = 32 then 31 else p)) := by
  decide +kernel

theorem classIp_31 : classIp (decimal 31) = [] := by decide

theorem plain_classIp_digit : ∀ p < 10, ∀ c ∈ classIp (decimal p), plainChar c = true := by
  decide +kernel

theorem plain_classIp (p : ℕ) (hp : p < 33) : ∀ c ∈ classIp (decimal p), plainChar c = true := by
  by_cases hd : p < 10
  · exact plain_classIp_digit p hd
  · by_cases h : p = 31
    · rw [h,classIp_31]
      simp
    · rw [classIp_mask p hp (by omega) h]
      exact plain_dotted _

theorem quotable_proxied (port : ℕ) : Quotable (proxied (decimal port)) := by
  intro c hc
  rw [proxied] at hc
  rcases List.mem_append.mp hc with hc | hc
  · rcases List.mem_append.mp hc with hc | hc
    · exact (by decide : ∀ c ∈ ("PROXY mybox.internal.proxy:" : Str), c ≠ '"' ∧ c ≠ '\\' ∧ c ≠ '\n') c hc
    · exact quotable_plain (plain_decimal port) c hc
  · exact (by decide : ∀ c ∈ ("; DIRECT" : Str), c ≠ '"' ∧ c ≠ '\\' ∧ c ≠ '\n') c hc

section

variable {nets : List Net}

theorem mem_inets {e : Str × Str} : e ∈ inets (networksText nets) ↔
    ∃ n ∈ nets, ∃ p, n.len = some p ∧ 10 ≤ p ∧ e = (dotted n.ip,classIp (decimal p)) := by
  rw [inets_networks,List.mem_filterMap]
  refine exists_congr fun n => and_congr_right fun _ => ?_
  rw [inetOf_text]
  cases n.len with
  | none => simp
  | some p => simp [eq_comm]

theorem inets_quotable : ∀ e ∈ inets (networksText nets), Quotable e.1 ∧ Quotable e.2 := by
  intro e he
  obtain ⟨n,-,p,hp,-,rfl⟩ := mem_inets.mp he
  have hlt : p < 33 := Nat.lt_succ_of_le (n.le p hp)
  exact ⟨quotable_plain (plain_dotted n.ip),quotable_plain (plain_classIp p hlt)⟩

def Passed (nets : List Net) (b : Browser) (host : Str) : Prop :=
  '.' ∉ host ∨ host = ("mybox.internal.proxy" : Str) ∨
    ∃ n ∈ nets, ∃ p, n.len = some p ∧ 10 ≤ p ∧ b.isInNet host (dotted n.ip) (classIp (decimal p)) = true

theorem passed_iff (b : Browser) (host port : Str) :
    (script (inets (networksText nets)) port).conds.any (Cond.holds b host) = true ↔ Passed nets b host := by
  simp only [script,List.any_cons,List.any_append,List.any_map,List.any_nil,Bool.or_false,Bool.or_eq_true]
  have hp : (Cond.holds b host .plainHostName) = true ↔ '.' ∉ host := by simp [Cond.holds]
  have hh : (Cond.holds b host (.hostIs "mybox.internal.proxy")) = true ↔ host = ("mybox.internal.proxy" : Str) := by
    simp [Cond.holds]
  have hi : (inets (networksText nets)).any (Cond.holds b host ∘ fun e => .inNet e.1 e.2) = true ↔
      ∃ n ∈ nets, ∃ p, n.len = some p ∧ 10 ≤ p ∧ b.isInNet host (dotted n.ip) (classIp (decimal p)) = true := by
    rw [List.any_eq_true]
    constructor
    · rintro ⟨e,he,hb⟩
      obtain ⟨n,hn,p,hp,h10,rfl⟩ := mem_inets.mp he
      exact ⟨n,hn,p,hp,h10,hb⟩
    · rintro ⟨n,hn,p,hp,h10,hb⟩
      exact ⟨_,mem_inets.mpr ⟨n,hn,p,hp,h10,rfl⟩,hb⟩
  rw [hp,hh,hi,Passed]
  exact or_congr_right or_comm

theorem findProxyForUrl_eq (nets : List Net) (port : ℕ) (b : Browser) (host : Str) [Decidable (Passed nets b host)] :
    findProxyForUrl b (cfClientConfig (networksText nets) (decimal port)) host =
      some (if Passed nets b host then direct else proxied (decimal port)) := by
  rw [findProxyForUrl,readScript_config inets_quotable (quotable_proxied port),Option.map_some,Script.run]
  congr 1
  exact if_congr (passed_iff b host (decimal port)) rfl rfl

theorem direct_ne (port : Str) : direct ≠ proxied port := fun h =>
  absurd (show some 'D' = some 'P' from congrArg List.head? h) (by decide)

theorem exact_passed (port : ℕ) : Exact nets port ↔ ∀ b host, Passed nets b host ↔ Local nets b host := by
  classical
  refine forall_congr' fun b => forall_congr' fun host => ?_
  rw [findProxyForUrl_eq,Option.some.injEq,Option.some.injEq]
  by_cases hp : Passed nets b host
  · rw [if_pos hp]
    simp [hp,direct_ne]
  · rw [if_neg hp]
    simp [hp,(direct_ne _).symm]

end

section

variable {nets : List Net}

theorem netmask_dotted {p : ℕ} (hp : p ≤ 32) (h10 : 10 ≤ p) (h : p ≠ 31) {n : Net} (hl : n.len = some p) (a : BitVec 32) :
    a &&& netmask (if p = 32 then 31 else p) = n.ip &&& netmask (if p = 32 then 31 else p) ↔ n.Tested a := by
  constructor
  · intro he
    by_cases h32 : p = 32
    · rw [if_pos h32] at he
      exact .host (h32 ▸ hl) he
    · rw [if_neg h32] at he
      exact .long hl h10 (by omega) (by rwa [Net.Has,hl])
  · intro ht
    cases ht with
    | long hq _ hq30 hh =>
      obtain rfl := Option.some.inj (hl.symm.trans hq)
      rw [if_neg (by omega)]
      rwa [Net.Has,hl] at hh
    | host hq hb =>
      obtain rfl := Option.some.inj (hl.symm.trans hq)
      rwa [if_pos rfl]

/-- Without a prefix of 31 the tests are for the addresses of the entries with two digits. -/
theorem passed_tested (h : ∀ n ∈ nets, n.len ≠ some 31) (b : Browser) (host : Str) : Passed nets b host ↔
    '.' ∉ host ∨ host = ("mybox.internal.proxy" : Str) ∨
      ∃ a, b.resolve host = some a ∧ ∃ n ∈ nets, n.Tested a := by
  refine or_congr_right (or_congr_right ?_)
  constructor
  · rintro ⟨n,hn,p,hp,h10,hi⟩
    have hle := n.le p hp
    have h31 : p ≠ 31 := by
      rintro rfl
      exact h n hn hp
    rw [classIp_mask p (by omega) h10 h31,b.documented] at hi
    obtain ⟨a,ha,he⟩ := hi
    exact ⟨a,ha,n,hn,(netmask_dotted hle h10 h31 hp a).mp he⟩
  · rintro ⟨a,ha,n,hn,ht⟩
    obtain ⟨p,hp,h10,h31⟩ : ∃ p, n.len = some p ∧ 10 ≤ p ∧ p ≠ 31 := by
      cases ht with
      | long hp h10 h30 _ => exact ⟨_,hp,h10,by omega⟩
      | host hp _ => exact ⟨32,hp,by decide,by decide⟩
    have hle := n.le p hp
    refine ⟨n,hn,p,hp,h10,?_⟩
    rw [classIp_mask p (by omega) h10 h31,b.documented]
    exact ⟨a,ha,(netmask_dotted hle h10 h31 hp a).mpr ht⟩

def always (r : Option (BitVec 32)) (other : Bool) : Browser where
  resolve _ := r
  isInNet _ p m := if SshLog.isIpv4 m then r.any fun a => a &&& value m = value p &&& value m else other
  documented _ x m := by
    rw [if_pos (dotted_valid m).1,(dotted_valid m).2,(dotted_valid x).2]
    cases r <;> simp

theorem exact_sets (port : ℕ) : Exact nets port ↔
    (∀ n ∈ nets, n.len ≠ some 31) ∧ ∀ a, (∃ n ∈ nets, n.Tested a) ↔ ∃ n ∈ nets, n.Has a := by
  have hd : '.' ∈ ("a.b" : Str) := by decide
  have ha : ("a.b" : Str) ≠ "mybox.internal.proxy" := by decide
  rw [exact_passed]
  constructor
  · intro h
    have h31 : ∀ n ∈ nets, n.len ≠ some 31 := by
      intro n hn hl
      -- no address is known, but the test with an empty mask comes out true
      have hp : Passed nets (always none true) "a.b" :=
        Or.inr (Or.inr ⟨n,hn,31,hl,by decide,by rw [classIp_31]; rfl⟩)
      rcases (h _ _).mp hp with hc | hc | ⟨a,hc,-⟩
      · exact hc hd
      · exact ha hc
      · exact absurd hc (by simp [always])
    refine ⟨h31,fun a => ?_⟩
    have hb := (passed_tested h31 (always (some a) false) "a.b").symm.trans (h _ _)
    simpa [Local,always,hd,ha] using hb
  · rintro ⟨h31,hs⟩ b host
    rw [passed_tested h31,Local]
    exact or_congr_right (or_congr_right (exists_congr fun a => and_congr_right fun _ => hs a))

/-- The script is right exactly for the lists that are covered. -/
theorem exact_iff_covered (nets : List Net) (port : ℕ) : Exact nets port ↔ Covered nets := by
  rw [exact_sets]
  constructor
  · rintro ⟨h31,hs⟩
    exact ⟨h31,fun n hn _ a ha => (hs a).mpr ⟨n,hn,ha⟩,fun n hn hl a ha => (hs a).mp ⟨n,hn,.host hl ha⟩⟩
  · rintro ⟨h31,hshort,hbeside⟩
    refine ⟨h31,fun a => ⟨?_,?_⟩⟩
    · rintro ⟨n,hn,ht⟩
      cases ht with
      | long _ _ _ hh => exact ⟨n,hn,hh⟩
      | host hl hb => exact hbeside n hn hl a hb
    · rintro ⟨n,hn,hh⟩
      by_cases hs : n.len.getD 0 < 10
      · exact hshort n hn hs a hh
      · obtain ⟨p,hp⟩ : ∃ p, n.len = some p := by
          cases hl : n.len with
          | none => exact absurd (by rw [hl]; decide) hs
          | some p => exact ⟨p,rfl⟩
        have hle := n.le p hp
        have hne : p ≠ 31 := fun he => h31 n hn (he ▸ hp)
        rw [hp,Option.getD_some] at hs
        by_cases h32 : p = 32
        · subst h32
          have he : a = n.ip := by
            have hm : netmask 32 = BitVec.allOnes 32 := by decide
            rwa [Net.Has,hp,Option.getD_some,hm,BitVec.and_allOnes,BitVec.and_allOnes] at hh
          exact ⟨n,hn,.host hp (by rw [he]; rfl)⟩
        · exact ⟨n,hn,.long hp (by omega) (by omega) hh⟩

end

/-- The address of an interface, as it stands in the list: the address beside it is sent past the proxy as well. -/
theorem beside_interface : ¬ Exact [⟨0xC0A80101#32,some 32,by simp⟩] 8080 := by
  intro h
  have hs := ((exact_sets 8080).mp h).2 0xC0A80100#32
  obtain ⟨n,hn,hh⟩ := hs.mp ⟨_,List.mem_singleton_self _,.host rfl (by decide)⟩
  rw [List.mem_singleton.mp hn] at hh
  exact absurd hh (by decide)

end ProxyConfig
end Mybox
