import Mybox.AlertQueue

/-! Version 3.0: the list of the DHCP leases. `mybox_get_dhcp_lease` cuts the lines of the lease file into tokens, and
then takes a number of tokens for each word it knows. -/
namespace Mybox
namespace DhcpLeases
open Php AlertQueue

-- The tokens of a line. A line has its newline at the end only, so that `(.*)$` leaves what comes before it.
/-- `/^\s*[\r|\n]/` -/
def blank (line : Str) : Bool :=
  (line.takeWhile regexSpace).any (fun c => c = '\r' || c = '\n') || (line.dropWhile regexSpace).head? = some '|'

/-- `/^([^"#]*)#.*$/` -/
def comment (line : Str) : Bool := (line.dropWhile fun c => c ≠ '"' && c ≠ '#').head? = some '#'

/-- `/^([^"]*)\/\/.*$/` -/
def slashes (line : Str) : Bool := ("//" : Str) <:+: line.takeWhile (· ≠ '"')

/-- `/\s*#(.*)/` -/
def hash (line : Str) : Bool := '#' ∈ line

/-- A quotation mark before `\176`. -/
def tilde (line : Str) : Bool := ['"','~'] <:+: line

/-- The five patterns. The one after them asks for a `#`, and is not left any. -/
def dropped (line : Str) : Bool := blank line || comment line || slashes line || hash line || tilde line

/-- What the loop puts into `$return`, with the flag of a brace or a semicolon. -/
abbrev Token := Str × Bool

def rest (s : Str) : Str := s.takeWhile (· ≠ '\n')

/-- `/^\s*"([^"]*)"(.*)$/` -/
def quoted (line : Str) : Option (Token × Str) :=
  match line.dropWhile regexSpace with
  | '"'::r => if '"' ∈ r then some ((r.takeWhile (· ≠ '"'),false),rest ((r.dropWhile (· ≠ '"')).drop 1)) else none
  | _ => none

def isBrace (c : Char) : Bool := c = '{' || c = '}' || c = ';'

/-- `/^\s*([{};])(.*)$/`; the token is all that has matched. -/
def brace (line : Str) : Option (Token × Str) :=
  match line.dropWhile regexSpace with
  | c::r => if isBrace c then some ((line.takeWhile regexSpace ++ c::rest r,true),rest r) else none
  | [] => none

def wordChar (c : Char) : Bool := !(isBrace c || c = ' ' || c = '\t')

/-- `/^\s*([^{}; \t]+)(.*)$/`: the word begins as late as it can. -/
def word : Str → Option (Token × Str)
  | [] => none
  | c::s =>
    match if regexSpace c then word s else none with
    | some r => some r
    | none =>
      if wordChar c then some ((c::s.takeWhile wordChar,false),rest (s.dropWhile wordChar)) else none

def next (line : Str) : Option (Token × Str) := (quoted line).or ((brace line).or (word line))

/-- The loop over a line; each turn takes a character at least. -/
def cut : ℕ → Str → List Token
  | 0, _ => []
  | n+1, line =>
    match next line with
    | none => []
    | some (t,r) => t::if r = [] ∨ r = ("0" : Str) then [] else cut n r

def lineTokens (line : Str) : List Token := if dropped line then [] else cut line.length line

def tokens (s : Str) : List Token := (mailLines s).flatMap lineTokens

structure Lease where
  ip : Option Str
  dev : Option Str
  hostname : Option Str
  mac : Option Str
  start : Option Str
  finish : Option Str
  act : Option Str
  deriving DecidableEq

def Lease.unset : Lease := ⟨none,none,none,none,none,none,none⟩

/-- `$i` and `$leases` -/
structure Leases where
  i : ℕ
  leases : OrdMap ℕ Lease

/-- `$leases[$i][..]=..` -/
def Leases.put (s : Leases) (f : Lease → Lease) : Leases :=
  {s with leases := s.leases.set s.i (f (s.leases.getD s.i Lease.unset))}

/-- `$d=array_shift($return)`, and `$d[0]` -/
def shift (ts : List Token) : Str × List Token := ((ts.head?.map Prod.fst).getD [],ts.tail)

abbrev MatchName := Str → Str

variable (matchName : MatchName)

def readToken (t : Token) (ts : List Token) (s : Leases) : List Token × Leases :=
  if t.1 = ("next" : Str) then ((shift ts).2,s)
  else if t.1 = ("lease" : Str) then
    let d := shift ts
    (d.2,s.put fun l => {l with ip := some d.1, dev := some (matchName d.1)})
  else if t.1 = ("client-hostname" : Str) then
    let d := shift ts
    (d.2,s.put fun l => {l with hostname := some d.1})
  else if t.1 = ("hardware" : Str) then
    let d := shift ts
    if d.1 = ("ethernet" : Str) then
      let m := shift d.2
      (m.2,s.put fun l => {l with mac := some m.1})
    else (d.2,s)
  else if t.1 = ("starts" : Str) then
    let d := shift (shift ts).2
    let e := shift d.2
    (e.2,s.put fun l => {l with start := some (d.1 ++ ' '::e.1)})
  else if t.1 = ("ends" : Str) then
    let d := shift (shift ts).2
    let e := shift d.2
    (e.2,s.put fun l => {l with finish := some (d.1 ++ ' '::e.1)})
  else if t.1 = ("binding" : Str) then
    let d := shift ts
    if d.1 = ("state" : Str) then
      let a := shift d.2
      (a.2,s.put fun l => {l with act := some a.1})
    else (d.2,s)
  else if t = (['}'],true) then (ts,{s with i := s.i+1})
  else (ts,s)

/-- The loop over the tokens; each turn takes one at least. -/
def readTokens : ℕ → List Token → Leases → Leases
  | 0, _, s => s
  | _+1, [], s => s
  | n+1, t::ts, s => readTokens n (readToken matchName t ts s).1 (readToken matchName t ts s).2

def start : Leases := ⟨0,∅⟩

/-- `mybox_get_dhcp_lease`, with the file when it can be opened. -/
def getDhcpLease (file : Option Str) : List Lease :=
  match file with
  | none => []
  | some s => ((readTokens matchName (tokens s).length (tokens s) start).leases.entries.map Prod.snd).reverse

inductive Time
  | never
  | on (day date time : Str)

def Time.words : Time → List Str
  | never => ["never"]
  | on day date time => [day,date,time]

def Time.own : Time → Str
  | never => "never"
  | on _ date time => date ++ ' '::time

/-- The statements that say something of the lease, and the one that says what its state was rewound to. -/
inductive Named
  | starts (t : Time)
  | ends (t : Time)
  | hardware (type mac : Str)
  | binding (state : Str)
  | rewind (state : Str)
  | clientHostname (h : Str)

def Named.words : Named → List Str
  | starts t => "starts"::t.words
  | ends t => "ends"::t.words
  | hardware type mac => ["hardware",type,mac]
  | binding state => ["binding","state",state]
  | rewind state => ["rewind","binding","state",state]
  | clientHostname _ => ["client-hostname"]

def joined : List Str → Str
  | [] => []
  | w::ws => w ++ ws.flatMap fun v => ' '::v

def Named.text : Named → Str
  | clientHostname h => ("client-hostname" : Str) ++ ' ':: '"'::(h ++ ['"',';'])
  | n => joined n.words ++ [';']

/-- A line of a lease: a statement after blanks, or any other line, such as `tstp`, `cltt`, `next binding state`, `uid`,
`set`, `option`, `abandoned` and what stands in the blocks of `on`. -/
inductive Line
  | named (indent : Str) (n : Named)
  | other (s : Str)

def Line.text : Line → Str
  | named indent n => indent ++ n.text
  | other s => s

structure Block where
  addr : Str
  body : List Line

def Block.head (b : Block) : Str := joined ["lease",b.addr] ++ [' ','{']

def Block.lines (b : Block) : List Str := b.head::(b.body.map Line.text ++ [['}']])

/-- A lease, or a line of a comment, of a blank and of any other declaration. -/
inductive Item
  | lease (b : Block)
  | other (s : Str)

def Item.lines : Item → List Str
  | lease b => b.lines
  | other s => [s]

abbrev File := List Item

def File.text (f : File) : Str := (f.flatMap Item.lines).flatMap (· ++ ['\n'])

def Item.block : Item → Option Block
  | lease b => some b
  | other _ => none

def File.blocks (f : File) : List Block := f.filterMap Item.block

def Named.own : Named → Lease → Lease
  | starts t, l => {l with start := some t.own}
  | ends t, l => {l with finish := some t.own}
  | hardware _ mac, l => {l with mac := some mac}
  | binding state, l => {l with act := some state}
  | rewind _, l => l
  | clientHostname h, l => {l with hostname := some h}

def Line.own : Line → Lease → Lease
  | named _ n => n.own
  | other _ => id

def Block.unset (b : Block) : Lease := {Lease.unset with ip := some b.addr, dev := some (matchName b.addr)}

def Block.record (b : Block) : Lease := b.body.foldl (fun l x => x.own l) (b.unset matchName)

/-- One record for each lease, the last lease first, each with what its own lease says. -/
def File.Complete (f : File) : Prop := getDhcpLease matchName (some f.text) = (f.blocks.map (Block.record matchName)).reverse

def plainChar (c : Char) : Bool := wordChar c && !regexSpace c && c ≠ '"' && c ≠ '#' && c ≠ '|'

/-- A word, without the slashes that a comment starts with. -/
structure WordOk (w : Str) : Prop where
  ne : w ≠ []
  plain : ∀ c ∈ w, plainChar c = true
  slashes : ¬ ['/','/'] <:+: w

instance (w : Str) : Decidable (WordOk w) :=
  decidable_of_iff (w ≠ [] ∧ (∀ c ∈ w, plainChar c = true) ∧ ¬ ['/','/'] <:+: w)
    ⟨fun ⟨h₁,h₂,h₃⟩ => ⟨h₁,h₂,h₃⟩,fun h => ⟨h.1,h.2,h.3⟩⟩

def Blanks (b : Str) : Prop := ∀ c ∈ b, c = ' ' ∨ c = '\t'

instance (b : Str) : Decidable (Blanks b) := inferInstanceAs (Decidable (∀ c ∈ b, _))

def Named.Ok : Named → Prop
  | clientHostname _ => True
  | n => ∀ w ∈ n.words, WordOk w

instance : DecidablePred Named.Ok
  | .clientHostname _ => isTrue trivial
  | .starts t => inferInstanceAs (Decidable (∀ w ∈ (Named.starts t).words, WordOk w))
  | .ends t => inferInstanceAs (Decidable (∀ w ∈ (Named.ends t).words, WordOk w))
  | .hardware type mac => inferInstanceAs (Decidable (∀ w ∈ (Named.hardware type mac).words, WordOk w))
  | .binding state => inferInstanceAs (Decidable (∀ w ∈ (Named.binding state).words, WordOk w))
  | .rewind state => inferInstanceAs (Decidable (∀ w ∈ (Named.rewind state).words, WordOk w))

def Line.Ok : Line → Prop
  | named indent n => Blanks indent ∧ n.Ok
  | other s => '\n' ∉ s

instance : DecidablePred Line.Ok
  | .named indent n => inferInstanceAs (Decidable (Blanks indent ∧ n.Ok))
  | .other s => inferInstanceAs (Decidable ('\n' ∉ s))

def Line.start? : Line → Option Time
  | named _ (.starts t) => some t
  | _ => none

def Line.finish? : Line → Option Time
  | named _ (.ends t) => some t
  | _ => none

def Line.host? : Line → Option Str
  | named _ (.clientHostname h) => some h
  | _ => none

/-- The server writes the start, the end and the host name once at most. -/
structure Block.Ok (b : Block) : Prop where
  addr : WordOk b.addr
  body : ∀ x ∈ b.body, x.Ok
  start : (b.body.filterMap Line.start?).length ≤ 1
  finish : (b.body.filterMap Line.finish?).length ≤ 1
  host : (b.body.filterMap Line.host?).length ≤ 1

instance (b : Block) : Decidable b.Ok :=
  decidable_of_iff (WordOk b.addr ∧ (∀ x ∈ b.body, x.Ok) ∧ (b.body.filterMap Line.start?).length ≤ 1 ∧
    (b.body.filterMap Line.finish?).length ≤ 1 ∧ (b.body.filterMap Line.host?).length ≤ 1)
    ⟨fun ⟨h₁,h₂,h₃,h₄,h₅⟩ => ⟨h₁,h₂,h₃,h₄,h₅⟩,fun h => ⟨h.1,h.2,h.3,h.4,h.5⟩⟩

def Item.Ok : Item → Prop
  | lease b => b.Ok
  | other s => '\n' ∉ s

instance : DecidablePred Item.Ok
  | .lease b => inferInstanceAs (Decidable b.Ok)
  | .other s => inferInstanceAs (Decidable ('\n' ∉ s))

def File.Ok (f : File) : Prop := ∀ x ∈ f, x.Ok

instance (f : File) : Decidable f.Ok := inferInstanceAs (Decidable (∀ x ∈ f, x.Ok))

theorem Blanks.space {b : Str} (h : Blanks b) : ∀ c ∈ b, regexSpace c = true := by
  intro c hc
  rcases h c hc with rfl | rfl <;> decide

theorem Blanks.free {b : Str} (h : Blanks b) {c : Char} (hc : c ≠ ' ' ∧ c ≠ '\t') : c ∉ b := by
  intro hm
  rcases h c hm with rfl | rfl
  · exact hc.1 rfl
  · exact hc.2 rfl

theorem WordOk.cons {w : Str} (h : WordOk w) : ∃ c w', w = c::w' ∧ regexSpace c = false ∧ wordChar c = true ∧
    isBrace c = false ∧ c ≠ '"' ∧ c ≠ '|' := by
  obtain ⟨c,w',rfl⟩ := List.exists_cons_of_ne_nil h.ne
  have hc := h.plain c (by simp)
  simp only [plainChar,Bool.and_eq_true,Bool.not_eq_true',decide_eq_true_eq] at hc
  refine ⟨c,w',rfl,hc.1.1.1.2,hc.1.1.1.1,?_,hc.1.1.2,hc.2⟩
  have hw := hc.1.1.1.1
  simp only [wordChar,Bool.not_eq_true',Bool.or_eq_false_iff] at hw
  exact hw.1.1

theorem dropWhile_blanks {b s : Str} (hb : Blanks b) (hs : ∀ c ∈ s.head?, regexSpace c = false) :
    (b ++ s).dropWhile regexSpace = s ∧ (b ++ s).takeWhile regexSpace = b := by
  have hd : s.dropWhile regexSpace = s ∧ s.takeWhile regexSpace = [] := by
    cases s with
    | nil => exact ⟨rfl,rfl⟩
    | cons c s =>
      have hc := hs c rfl
      simp [hc]
  rw [List.dropWhile_append_of_pos hb.space,List.takeWhile_append_of_pos hb.space,hd.1,hd.2,List.append_nil]
  exact ⟨rfl,rfl⟩

theorem word_blanks {b : Str} (hb : Blanks b) {s : Str} {r : Token × Str} (h : word s = some r) :
    word (b ++ s) = some r := by
  induction b with
  | nil => exact h
  | cons c b ih =>
    have hc : regexSpace c = true := hb.space c (by simp)
    rw [List.cons_append,word,if_pos hc,ih fun d hd => hb d (List.mem_cons_of_mem c hd)]

theorem next_word {b w r : Str} (hb : Blanks b) (hw : WordOk w) (hr : ∀ c ∈ r.head?, wordChar c = false) :
    next (b ++ (w ++ r)) = some ((w,false),rest r) := by
  obtain ⟨c,w',rfl,hs,hc,hbr,hq,-⟩ := hw.cons
  obtain ⟨hd,-⟩ := dropWhile_blanks (s := c::w' ++ r) hb fun d hd => by
    obtain rfl : c = d := by simpa using hd
    exact hs
  have hall : ∀ d ∈ w', wordChar d = true := fun d hd => by
    have := hw.plain d (List.mem_cons_of_mem c hd)
    simp only [plainChar,Bool.and_eq_true] at this
    exact this.1.1.1.1
  have htail : r.takeWhile wordChar = [] ∧ r.dropWhile wordChar = r := by
    cases r with
    | nil => exact ⟨rfl,rfl⟩
    | cons d r =>
      have hd := hr d rfl
      simp [hd]
  have h₁ : quoted (b ++ (c::w' ++ r)) = none := by
    unfold quoted
    rw [hd]
    split
    · rename_i heq
      exact absurd (List.cons.inj heq).1 hq
    · rfl
  have h₂ : brace (b ++ (c::w' ++ r)) = none := by
    unfold brace
    rw [hd]
    simp [hbr]
  have h₃ : word (b ++ (c::w' ++ r)) = some ((c::w',false),rest r) := by
    refine word_blanks hb ?_
    rw [List.cons_append,word,if_neg (by simp [hs]),if_pos hc,List.takeWhile_append_of_pos hall,
      List.dropWhile_append_of_pos hall,htail.1,htail.2,List.append_nil]
  rw [next,h₁,h₂,h₃]
  rfl

theorem next_brace {b r : Str} (hb : Blanks b) {c : Char} (hc : isBrace c = true) :
    next (b ++ c::r) = some ((b ++ c::rest r,true),rest r) := by
  have hs : regexSpace c = false ∧ c ≠ '"' := by
    simp only [isBrace,Bool.or_eq_true,decide_eq_true_eq] at hc
    rcases hc with (rfl | rfl) | rfl <;> decide
  obtain ⟨hd,ht⟩ := dropWhile_blanks (s := c::r) hb fun d hd => by
    obtain rfl : c = d := by simpa using hd
    exact hs.1
  have h₁ : quoted (b ++ c::r) = none := by
    unfold quoted
    rw [hd]
    split
    · rename_i heq
      exact absurd (List.cons.inj heq).1 hs.2
    · rfl
  rw [next,h₁,brace,hd,ht]
  simp [hc]

def Ending (e : Str) : Prop := e = [';'] ∨ e = [' ','{']

theorem Ending.free {e : Str} (h : Ending e) : '"' ∉ e ∧ '#' ∉ e ∧ '/' ∉ e ∧ '\n' ∉ e ∧ e ≠ [] ∧ e ≠ ("0" : Str) := by
  rcases h with rfl | rfl <;> decide

theorem rest_line {s nl : Str} (h : '\n' ∉ s) (hn : nl = [] ∨ nl = ['\n']) : rest (s ++ nl) = s := by
  have hall : ∀ c ∈ s, decide (c ≠ '\n') = true := fun c hc => decide_eq_true fun he => h (he ▸ hc)
  rw [rest,List.takeWhile_append_of_pos hall]
  rcases hn with rfl | rfl <;> simp

theorem cut_ending {e nl : Str} (he : Ending e) (hn : nl = [] ∨ nl = ['\n']) (n : ℕ) : cut (n+1) (e ++ nl) = [(e,true)] := by
  have hr : rest nl = [] := by rcases hn with rfl | rfl <;> decide
  rcases he with rfl | rfl
  · rw [cut,show [';'] ++ nl = [] ++ ';'::nl from rfl,next_brace (fun c hc => absurd hc (by simp)) (by decide),hr]
    rfl
  · rw [cut,show [' ','{'] ++ nl = [' '] ++ '{'::nl from rfl,next_brace (fun c hc => Or.inl (by simpa using hc)) (by decide),hr]
    rfl

theorem WordOk.newline {w : Str} (h : WordOk w) : '\n' ∉ w := fun hm => absurd (h.plain _ hm) (by decide)

/-- A line of words is cut into its words. -/
theorem cut_words {ws : List Str} (hws : ∀ v ∈ ws, WordOk v) {e nl : Str} (he : Ending e) (hn : nl = [] ∨ nl = ['\n'])
    {b w : Str} (hb : Blanks b) (hw : WordOk w) (n : ℕ) :
    cut (n+ws.length+2) (b ++ (w ++ (ws.flatMap (fun v => ' '::v) ++ e ++ nl))) =
      (w::ws).map (·,false) ++ [(e,true)] := by
  obtain ⟨-,-,-,hnl,hne,hzero⟩ := he.free
  induction ws generalizing b w nl with
  | nil =>
    have hhead : ∀ c ∈ (e ++ nl).head?, wordChar c = false := fun c hc => by
      rcases he with rfl | rfl
      · obtain rfl : ';' = c := by simpa using hc
        decide
      · obtain rfl : ' ' = c := by simpa using hc
        decide
    rw [List.flatMap_nil,List.nil_append,List.length_nil,cut,next_word hb hw hhead,rest_line hnl hn]
    dsimp only
    rw [if_neg (by simp [hne,hzero]),← List.append_nil e,cut_ending he (Or.inl rfl),List.append_nil]
    rfl
  | cons v ws ih =>
    have hv := hws v (by simp)
    have hws' := fun x hx => hws x (List.mem_cons_of_mem v hx)
    have hfree : '\n' ∉ (v::ws).flatMap (fun v => ' '::v) ++ e := by
      rw [List.mem_append,List.mem_flatMap,not_or]
      refine ⟨?_,hnl⟩
      rintro ⟨x,hx,hm⟩
      rcases List.mem_cons.mp hm with hm | hm
      · exact absurd hm (by decide)
      · exact (hws x hx).newline hm
    have hnext := next_word (r := (v::ws).flatMap (fun v => ' '::v) ++ e ++ nl) hb hw fun c hc => by
      obtain rfl : ' ' = c := by simpa using hc
      decide
    have htail : (v::ws).flatMap (fun v => ' '::v) ++ e = [' '] ++ (v ++ (ws.flatMap (fun v => ' '::v) ++ e ++ [])) := by
      simp
    rw [rest_line hfree hn] at hnext
    rw [List.length_cons,show n+(ws.length+1)+2 = (n+ws.length+2)+1 by omega,cut,hnext]
    dsimp only
    have hgoes : ¬ ([' '] ++ (v ++ (ws.flatMap (fun v => ' '::v) ++ e ++ [])) = [] ∨
        [' '] ++ (v ++ (ws.flatMap (fun v => ' '::v) ++ e ++ [])) = ("0" : Str)) := by
      rintro (h | h)
      · exact List.cons_ne_nil _ _ h
      · exact absurd (List.cons.inj h).1 (by decide)
    rw [htail,if_neg hgoes,ih hws' (Or.inl rfl) (fun c hc => Or.inl (by simpa using hc)) hv]
    rfl

theorem pair_infix {x c : Char} (hc : c ≠ x) {w s : Str} (h : [x,x] <:+: w ++ c::s) : [x,x] <:+: w ∨ [x,x] <:+: s := by
  induction w with
  | nil =>
    rcases List.infix_cons_iff.mp h with h | h
    · exact absurd (List.cons_prefix_cons.mp h).1.symm hc
    · exact Or.inr h
  | cons d w ih =>
    rcases List.infix_cons_iff.mp h with h | h
    · obtain ⟨hx,hw⟩ := List.cons_prefix_cons.mp h
      cases w with
      | nil => exact absurd (List.cons_prefix_cons.mp hw).1.symm hc
      | cons f w =>
        obtain ⟨hf,-⟩ := List.cons_prefix_cons.mp hw
        exact Or.inl ⟨[],w,by simp [← hx,← hf]⟩
    · exact (ih h).imp_left List.infix_cons

theorem pair_words {ws : List Str} (hws : ∀ v ∈ ws, WordOk v) {e : Str} (he : Ending e) {w : Str} (hw : WordOk w) :
    ¬ ['/','/'] <:+: w ++ (ws.flatMap (fun v => ' '::v) ++ e ++ ['\n']) := by
  induction ws generalizing w with
  | nil =>
    intro h
    rcases he with rfl | rfl
    · rcases pair_infix (by decide) h with h | h
      · exact hw.slashes h
      · exact absurd h (by decide)
    · rcases pair_infix (by decide) h with h | h
      · exact hw.slashes h
      · exact absurd h (by decide)
  | cons v ws ih =>
    intro h
    rw [List.flatMap_cons,List.cons_append,List.cons_append,List.cons_append] at h
    rcases pair_infix (by decide) h with h | h
    · exact hw.slashes h
    · refine ih (fun x hx => hws x (List.mem_cons_of_mem v hx)) (hws v (by simp)) ?_
      simpa using h

theorem pair_blanks {b s : Str} (hb : Blanks b) (h : ['/','/'] <:+: b ++ s) : ['/','/'] <:+: s := by
  induction b with
  | nil => exact h
  | cons c b ih =>
    have hc : c ≠ '/' := by
      rcases hb c (by simp) with rfl | rfl <;> decide
    rcases List.infix_cons_iff.mp h with h | h
    · exact absurd (List.cons_prefix_cons.mp h).1.symm hc
    · exact ih (fun d hd => hb d (List.mem_cons_of_mem c hd)) h

/-- A line is not left out when it begins with a word, holds no `#` and no two slashes before a quotation mark, and no
tilde behind one. -/
theorem dropped_false {b w r : Str} (hb : Blanks b) (hw : WordOk w) (hh : '#' ∉ w ++ r)
    (hs : ¬ ['/','/'] <:+: (b ++ (w ++ r)).takeWhile (· ≠ '"')) (ht : ¬ ['"','~'] <:+: b ++ (w ++ r)) :
    dropped (b ++ (w ++ r)) = false := by
  obtain ⟨c,w',rfl,hsp,-,-,-,hbar⟩ := hw.cons
  obtain ⟨hd,htk⟩ := dropWhile_blanks (s := c::w' ++ r) hb fun d hd => by
    obtain rfl : c = d := by simpa using hd
    exact hsp
  have hhash : '#' ∉ b ++ (c::w' ++ r) := by
    rw [List.mem_append,not_or]
    exact ⟨hb.free (by decide),hh⟩
  have h₁ : blank (b ++ (c::w' ++ r)) = false := by
    rw [blank,hd,htk,Bool.or_eq_false_iff]
    refine ⟨?_,by simpa using hbar⟩
    rw [List.any_eq_false]
    intro d hm
    rcases hb d hm with rfl | rfl <;> decide
  have h₂ : comment (b ++ (c::w' ++ r)) = false := by
    refine decide_eq_false fun he => hhash ?_
    exact (List.dropWhile_suffix _).subset (List.mem_of_mem_head? he)
  rw [dropped,h₁,h₂,slashes,hash,tilde]
  simp only [Bool.false_or,Bool.or_eq_false_iff,decide_eq_false_iff_not]
  exact ⟨⟨hs,hhash⟩,ht⟩

theorem words_chars {ws : List Str} (hws : ∀ v ∈ ws, WordOk v) {e : Str} (he : Ending e) {w : Str} (hw : WordOk w) :
    ∀ c ∈ w ++ (ws.flatMap (fun v => ' '::v) ++ e ++ ['\n']), c ≠ '"' ∧ c ≠ '#' := by
  have hword : ∀ v, WordOk v → ∀ c ∈ v, c ≠ '"' ∧ c ≠ '#' := fun v hv c hc => by
    have := hv.plain c hc
    simp only [plainChar,Bool.and_eq_true,decide_eq_true_eq] at this
    exact ⟨this.1.1.2,this.1.2⟩
  obtain ⟨hq,hh,-⟩ := he.free
  simp only [List.mem_append,List.mem_flatMap,List.mem_cons,List.not_mem_nil,or_false]
  rintro c (hc | (⟨v,hv,rfl | hc⟩ | hc) | rfl)
  · exact hword w hw c hc
  · decide
  · exact hword v (hws v hv) c hc
  · exact ⟨fun h => hq (h ▸ hc),fun h => hh (h ▸ hc)⟩
  · decide

theorem tokens_words {ws : List Str} (hws : ∀ v ∈ ws, WordOk v) {e : Str} (he : Ending e) {b w : Str} (hb : Blanks b)
    (hw : WordOk w) :
    lineTokens (b ++ (w ++ (ws.flatMap (fun v => ' '::v) ++ e)) ++ ['\n']) = (w::ws).map (·,false) ++ [(e,true)] := by
  have hchars := words_chars hws he hw
  have htext : b ++ (w ++ (ws.flatMap (fun v => ' '::v) ++ e)) ++ ['\n'] =
      b ++ (w ++ (ws.flatMap (fun v => ' '::v) ++ e ++ ['\n'])) := by simp
  have hquote : '"' ∉ b ++ (w ++ (ws.flatMap (fun v => ' '::v) ++ e ++ ['\n'])) := by
    rw [List.mem_append,not_or]
    exact ⟨hb.free (by decide),fun hm => (hchars _ hm).1 rfl⟩
  have hd := dropped_false hb hw (fun hm => (hchars _ hm).2 rfl)
    (fun hi => pair_words hws he hw (pair_blanks hb (hi.trans (List.takeWhile_prefix _).isInfix)))
    fun hi => hquote (hi.subset (by simp))
  have hlen : ws.length+2 ≤ (b ++ (w ++ (ws.flatMap (fun v => ' '::v) ++ e ++ ['\n']))).length := by
    have h₁ : ws.length ≤ (ws.flatMap fun v => ' '::v).length := by
      rw [List.length_flatMap]
      refine le_trans (le_of_eq ?_) (List.length_le_sum_of_one_le _ ?_)
      · simp
      · intro i hi
        obtain ⟨v,-,rfl⟩ := List.mem_map.mp hi
        simp
    have h₂ := List.length_pos_iff.mpr hw.ne
    simp only [List.length_append,List.length_singleton]
    omega
  rw [htext,lineTokens,hd,if_neg (by simp)]
  obtain ⟨n,hn⟩ := Nat.exists_eq_add_of_le hlen
  rw [hn,show ws.length+2+n = n+ws.length+2 by omega]
  exact cut_words hws he (Or.inr rfl) hb hw n

def hostLine (b h : Str) : Str := (Line.named b (.clientHostname h)).text ++ ['\n']

def Plain (h : Str) : Prop := '"' ∉ h ∧ '#' ∉ h ∧ h.head? ≠ some '~'

instance (h : Str) : Decidable (Plain h) := inferInstanceAs (Decidable (_ ∧ _))

theorem host_word : WordOk ("client-hostname" : Str) := by decide

theorem hostLine_text (b h : Str) :
    hostLine b h = b ++ (("client-hostname" : Str) ++ (' ':: '"'::(h ++ ['"',';']) ++ ['\n'])) := by
  simp [hostLine,Line.text,Named.text]

theorem host_dropped {b h : Str} (hd : '#' ∈ h ∨ h.head? = some '~') : dropped (hostLine b h) = true := by
  rw [dropped,hostLine_text]
  rcases hd with hd | hd
  · have : hash (b ++ (("client-hostname" : Str) ++ (' ':: '"'::(h ++ ['"',';']) ++ ['\n']))) = true :=
      decide_eq_true (by simp [hd])
    rw [this]
    simp
  · obtain ⟨h',rfl⟩ := List.head?_eq_some_iff.mp hd
    have : tilde (b ++ (("client-hostname" : Str) ++ (' ':: '"'::('~'::h' ++ ['"',';']) ++ ['\n']))) = true :=
      decide_eq_true ⟨b ++ ("client-hostname" : Str) ++ [' '],h' ++ ['"',';','\n'],by simp⟩
    rw [this]
    simp

theorem infix_behind {x y : Char} {u v : Str} (hu : x ∉ u) (h : [x,y] <:+: u ++ v) : [x,y] <:+: v := by
  induction u with
  | nil => exact h
  | cons c u ih =>
    rcases List.infix_cons_iff.mp h with h | h
    · exact absurd (List.cons_prefix_cons.mp h).1 fun he => hu (he ▸ List.mem_cons_self)
    · exact ih (fun hm => hu (List.mem_cons_of_mem c hm)) h

theorem host_kept {b h : Str} (hb : Blanks b) (hp : Plain h) : dropped (hostLine b h) = false := by
  obtain ⟨hq,hh,ht⟩ := hp
  rw [hostLine_text]
  refine dropped_false hb host_word (fun hm => ?_) (fun hi => ?_) fun hi => ?_
  · simp only [List.mem_append,List.mem_cons,List.not_mem_nil,or_false] at hm
    rcases hm with hm | (hm | hm | hm | hm | hm) | hm
    · exact absurd hm (by decide)
    · exact absurd hm (by decide)
    · exact absurd hm (by decide)
    · exact hh hm
    · exact absurd hm (by decide)
    · exact absurd hm (by decide)
    · exact absurd hm (by decide)
  · have htake : (b ++ (("client-hostname" : Str) ++ (' ':: '"'::(h ++ ['"',';']) ++ ['\n']))).takeWhile (· ≠ '"') =
        b ++ ("client-hostname " : Str) := by
      have hall : ∀ c ∈ b ++ ("client-hostname " : Str), decide (c ≠ '"') = true := fun c hc => by
        rcases List.mem_append.mp hc with hc | hc
        · rcases hb c hc with rfl | rfl <;> decide
        · exact (by decide : ∀ c ∈ ("client-hostname " : Str), decide (c ≠ '"') = true) c hc
      rw [show b ++ (("client-hostname" : Str) ++ (' ':: '"'::(h ++ ['"',';']) ++ ['\n'])) =
        b ++ ("client-hostname " : Str) ++ '"'::(h ++ ['"',';','\n']) by simp [Str.of_ascii],List.takeWhile_append_of_pos hall]
      simp
    rw [htake] at hi
    exact absurd (pair_blanks hb hi) (by decide)
  · rw [show b ++ (("client-hostname" : Str) ++ (' ':: '"'::(h ++ ['"',';']) ++ ['\n'])) =
      (b ++ ("client-hostname " : Str)) ++ '"'::(h ++ ['"',';','\n']) by simp [Str.of_ascii]] at hi
    have hfree : '"' ∉ b ++ ("client-hostname " : Str) := by
      rw [List.mem_append,not_or]
      exact ⟨hb.free (by decide),by decide⟩
    rcases List.infix_cons_iff.mp (infix_behind hfree hi) with hi | hi
    · obtain ⟨-,hi⟩ := List.cons_prefix_cons.mp hi
      cases h with
      | nil => exact absurd hi (by decide)
      | cons c h => exact ht (congrArg some (List.cons_prefix_cons.mp hi).1.symm)
    · exact absurd (infix_behind hq hi) (by decide)

/-- The name is cut at its first quotation mark. -/
theorem host_tokens {b h : Str} (hb : Blanks b) (hn : '\n' ∉ h) (hd : dropped (hostLine b h) = false) :
    ∃ us : List Token, lineTokens (hostLine b h) = (("client-hostname" : Str),false)::(h.takeWhile (· ≠ '"'),false)::us ∧
      ('"' ∉ h → us = [([';'],true)]) := by
  have hfree : '\n' ∉ ' ':: '"'::(h ++ ['"',';']) := by simp [hn]
  have hfirst := next_word (r := ' ':: '"'::(h ++ ['"',';']) ++ ['\n']) hb host_word fun c hc => by
    obtain rfl : ' ' = c := by simpa using hc
    decide
  rw [rest_line hfree (Or.inr rfl),← hostLine_text] at hfirst
  have htake : (h ++ ['"',';']).takeWhile (· ≠ '"') = h.takeWhile (· ≠ '"') := by
    rw [List.takeWhile_append]
    split
    · rename_i hall
      rw [(List.takeWhile_prefix _).eq_of_length hall]
      simp
    · rfl
  have hsecond : next (' ':: '"'::(h ++ ['"',';'])) = some ((h.takeWhile (· ≠ '"'),false),
      rest (((h ++ ['"',';']).dropWhile (· ≠ '"')).drop 1)) := by
    have hq : '"' ∈ h ++ ['"',';'] := by simp
    have hs : (' ':: '"'::(h ++ ['"',';'])).dropWhile regexSpace = '"'::(h ++ ['"',';']) := rfl
    rw [next,quoted,hs]
    simp only [if_pos hq]
    rw [htake]
    rfl
  obtain ⟨n,hlen⟩ : ∃ n, (hostLine b h).length = n+3 := by
    refine Nat.exists_eq_add_of_le' ?_
    simp only [hostLine_text,List.length_append,List.length_cons]
    omega
  rw [lineTokens,hd,if_neg (by simp),hlen,cut,hfirst]
  dsimp only
  rw [if_neg (by simp [Str.of_ascii]),cut,hsecond]
  refine ⟨_,rfl,fun hq => ?_⟩
  have hdrop : (h ++ ['"',';']).dropWhile (· ≠ '"') = ['"',';'] := by
    have hall : ∀ c ∈ h, decide (c ≠ '"') = true := fun c hc => decide_eq_true fun he => hq (he ▸ hc)
    rw [List.dropWhile_append_of_pos hall]
    rfl
  rw [hdrop]
  exact @cut_ending [';'] [] (Or.inl rfl) (Or.inl rfl) n

def Lease.Spaced (l : Lease) : Prop := (∀ t ∈ l.start, ' ' ∈ t) ∧ ∀ t ∈ l.finish, ' ' ∈ t

def Leases.Spaced (s : Leases) : Prop := ∀ e ∈ s.leases.entries, e.2.Spaced

def Turn (ts : List Token) (s : Leases) (p : List Token × Leases) : Prop :=
  p.1 <:+ ts ∧ (p.2.leases = s.leases ∨ ∃ f, p.2 = s.put f ∧ ∀ l : Lease, l.Spaced → (f l).Spaced)

theorem Turn.keep {ts us : List Token} {s s' : Leases} (hu : us <:+ ts) (hs : s'.leases = s.leases) : Turn ts s (us,s') :=
  ⟨hu,Or.inl hs⟩

theorem Turn.put {ts us : List Token} {s : Leases} (hu : us <:+ ts) {f : Lease → Lease}
    (hf : ∀ l : Lease, l.Spaced → (f l).Spaced) : Turn ts s (us,s.put f) :=
  ⟨hu,Or.inr ⟨f,rfl,hf⟩⟩

theorem readToken_turn (t : Token) (ts : List Token) (s : Leases) : Turn ts s (readToken matchName t ts s) := by
  have h₁ : (shift ts).2 <:+ ts := List.tail_suffix ts
  have h₂ : (shift (shift ts).2).2 <:+ ts := (List.tail_suffix _).trans h₁
  have h₃ : (shift (shift (shift ts).2).2).2 <:+ ts := (List.tail_suffix _).trans h₂
  have hblank : ∀ a b : Str, ∀ t ∈ some (a ++ ' '::b), ' ' ∈ t := fun a b t ht => by
    obtain rfl := Option.mem_some.mp ht
    simp
  refine iteInduction (motive := Turn ts s) (fun _ => Turn.keep h₁ rfl) fun _ => ?_
  refine iteInduction (motive := Turn ts s) (fun _ => Turn.put h₁ fun l hl => hl) fun _ => ?_
  refine iteInduction (motive := Turn ts s) (fun _ => Turn.put h₁ fun l hl => hl) fun _ => ?_
  refine iteInduction (motive := Turn ts s) (fun _ => ?_) fun _ => ?_
  · exact iteInduction (motive := Turn ts s) (fun _ => Turn.put h₂ fun l hl => hl) fun _ => Turn.keep h₁ rfl
  refine iteInduction (motive := Turn ts s) (fun _ => Turn.put h₃ fun l hl => ⟨hblank _ _,hl.2⟩) fun _ => ?_
  refine iteInduction (motive := Turn ts s) (fun _ => Turn.put h₃ fun l hl => ⟨hl.1,hblank _ _⟩) fun _ => ?_
  refine iteInduction (motive := Turn ts s) (fun _ => ?_) fun _ => ?_
  · exact iteInduction (motive := Turn ts s) (fun _ => Turn.put h₂ fun l hl => hl) fun _ => Turn.keep h₁ rfl
  · exact iteInduction (motive := Turn ts s) (fun _ => Turn.keep (List.suffix_refl ts) rfl)
      fun _ => Turn.keep (List.suffix_refl ts) rfl

def run (ts : List Token) (s : Leases) : Leases := readTokens matchName ts.length ts s

def Leases.held (s : Leases) (r : Lease) : Leases := {s with leases := s.leases.set s.i r}

theorem put_held (s : Leases) (r : Lease) (f : Lease → Lease) : (s.held r).put f = s.held (f r) := by
  rw [Leases.put,Leases.held,OrdMap.getD,OrdMap.get?_set_self,Option.getD_some,OrdMap.set_set_self]
  rfl

theorem readToken_length (t : Token) (ts : List Token) (s : Leases) : (readToken matchName t ts s).1.length ≤ ts.length :=
  (readToken_turn matchName t ts s).1.length_le

theorem readTokens_fuel {n m : ℕ} {ts : List Token} (hn : ts.length ≤ n) (hm : ts.length ≤ m) (s : Leases) :
    readTokens matchName n ts s = readTokens matchName m ts s := by
  induction n generalizing m ts s with
  | zero =>
    obtain rfl := List.length_eq_zero_iff.mp (Nat.le_zero.mp hn)
    cases m <;> rfl
  | succ n ih =>
    cases ts with
    | nil => cases m <;> rfl
    | cons t ts =>
      cases m with
      | zero => simp at hm
      | succ m =>
        have hl := readToken_length matchName t ts s
        rw [List.length_cons] at hn hm
        exact ih (by omega) (by omega) _

theorem run_nil (s : Leases) : run matchName [] s = s := rfl

theorem run_cons (t : Token) (ts : List Token) (s : Leases) :
    run matchName (t::ts) s = run matchName (readToken matchName t ts s).1 (readToken matchName t ts s).2 :=
  readTokens_fuel matchName (readToken_length matchName t ts s) le_rfl _

/-- Words the reader takes more words for, in every case. -/
def Taken (w : Str) : Prop := w ∈ [("lease" : Str),"client-hostname","starts","ends"]

instance (w : Str) : Decidable (Taken w) := inferInstanceAs (Decidable (_ ∈ _))

def Followed (w : Str) : Prop := w ∈ [("next" : Str),"hardware","binding"]

instance (w : Str) : Decidable (Followed w) := inferInstanceAs (Decidable (_ ∈ _))

/-- Tokens that the reader passes over without a record being written; with `closes` they may count leases. -/
def passed (closes : Bool) : List Token → Bool
  | [] => true
  | t::ts =>
    if Taken t.1 then false
    else if Followed t.1 then
      match ts with
      | [] => false
      | d::ts =>
        !(t.1 = ("hardware" : Str) && d.1 = ("ethernet" : Str)) && !(t.1 = ("binding" : Str) && d.1 = ("state" : Str)) &&
          passed closes ts
    else (closes || t ≠ (['}'],true)) && passed closes ts

theorem readToken_followed {t d : Token} {ts : List Token} (ht : Followed t.1)
    (hh : (t.1 = ("hardware" : Str) && d.1 = ("ethernet" : Str)) = false)
    (hb : (t.1 = ("binding" : Str) && d.1 = ("state" : Str)) = false) (s : Leases) :
    readToken matchName t (d::ts) s = (ts,s) := by
  obtain ⟨w,b⟩ := t
  have hw : w = ("next" : Str) ∨ w = ("hardware" : Str) ∨ w = ("binding" : Str) := by simpa [Followed] using ht
  rcases hw with rfl | rfl | rfl
  · rfl
  · have hd : ¬ d.1 = ("ethernet" : Str) := by simpa using hh
    exact if_neg hd
  · have hd : ¬ d.1 = ("state" : Str) := by simpa using hb
    exact if_neg hd

theorem readToken_other {t : Token} (ht : ¬ Taken t.1) (hf : ¬ Followed t.1) (ts : List Token) (s : Leases) :
    readToken matchName t ts s = (ts,if t = (['}'],true) then {s with i := s.i+1} else s) := by
  simp only [Taken,Followed,List.mem_cons,List.not_mem_nil,or_false,not_or] at ht hf
  obtain ⟨h₁,h₂,h₃,h₄⟩ := ht
  obtain ⟨h₅,h₆,h₇⟩ := hf
  rw [readToken,if_neg h₅,if_neg h₁,if_neg h₂,if_neg h₆,if_neg h₃,if_neg h₄,if_neg h₇]
  split <;> rfl

theorem run_passed {closes : Bool} {ts : List Token} (h : passed closes ts = true) (s : Leases) :
    ∃ k, (closes = false → k = 0) ∧
      ∀ us, run matchName (ts ++ us) s = run matchName us {s with i := s.i+k} := by
  induction ts using passed.induct generalizing s with
  | case1 => exact ⟨0,fun _ => rfl,fun us => rfl⟩
  | case2 t ts ht =>
    rw [passed.eq_def] at h
    exact absurd (h.symm.trans (if_pos ht)) (by decide)
  | case3 t ht hf => simp [passed,ht,hf] at h
  | case4 t ht hf d ts ih =>
    rw [passed,if_neg ht,if_pos hf] at h
    simp only [Bool.and_eq_true,Bool.not_eq_true'] at h
    obtain ⟨k,hk,hrun⟩ := ih h.2 s
    refine ⟨k,hk,fun us => ?_⟩
    rw [List.cons_append,List.cons_append,run_cons,readToken_followed matchName hf h.1.1 h.1.2,hrun]
  | case5 t ts ht hf ih =>
    rw [passed.eq_def] at h
    dsimp only at h
    rw [if_neg ht,if_neg hf] at h
    simp only [Bool.and_eq_true,Bool.or_eq_true,decide_eq_true_eq] at h
    by_cases hc : t = (['}'],true)
    · obtain ⟨k,hk,hrun⟩ := ih h.2 {s with i := s.i+1}
      refine ⟨1+k,fun he => absurd hc (h.1.resolve_left (by simp [he])),fun us => ?_⟩
      rw [List.cons_append,run_cons,readToken_other matchName ht hf,if_pos hc,hrun,Nat.add_assoc]
    · obtain ⟨k,hk,hrun⟩ := ih h.2 s
      refine ⟨k,hk,fun us => ?_⟩
      rw [List.cons_append,run_cons,readToken_other matchName ht hf,if_neg hc,hrun]

def Line.tokens (x : Line) : List Token := lineTokens (x.text ++ ['\n'])

def Line.read : Line → Lease → Lease
  | named b (.clientHostname h), l =>
    if dropped (hostLine b h) then l else {l with hostname := some (h.takeWhile (· ≠ '"'))}
  | named _ (.rewind state), l => {l with act := some state}
  | named _ (.hardware type mac), l => if type = ("ethernet" : Str) then {l with mac := some mac} else l
  | x, l => x.own l

/-- No record is written by what the reader does not know, nor by what is left of a line behind a host name or a type
that is not Ethernet. The name stands on one line. -/
def Line.passed : Line → Bool
  | x@(named b (.clientHostname h)) =>
    '\n' ∉ h && (dropped (hostLine b h) || DhcpLeases.passed false (x.tokens.drop 2))
  | named _ (.hardware type mac) => type = ("ethernet" : Str) || DhcpLeases.passed false [(mac,false)]
  | named _ _ => true
  | x@(other _) => DhcpLeases.passed false x.tokens

/-- A line behind which nothing of the lease is left to be read. -/
def Line.closing : Line → Bool
  | named _ _ => false
  | x@(other _) => DhcpLeases.passed true x.tokens

/-- A brace of its own, such as the one that ends an `on`, is not before what the record is to have. -/
def bodyPassed : List Line → Bool
  | [] => true
  | x::xs => (x.passed && bodyPassed xs) || (x::xs).all Line.closing

def Line.never : Line → Prop
  | named _ (.starts .never) => True
  | named _ (.ends .never) => True
  | _ => False

instance : DecidablePred Line.never
  | .named _ (.starts .never) => isTrue trivial
  | .named _ (.ends .never) => isTrue trivial
  | .named _ (.starts (.on ..)) => isFalse id
  | .named _ (.ends (.on ..)) => isFalse id
  | .named _ (.hardware ..) => isFalse id
  | .named _ (.binding _) => isFalse id
  | .named _ (.rewind _) => isFalse id
  | .named _ (.clientHostname _) => isFalse id
  | .other _ => isFalse id

theorem tokens_named {b : Str} {n : Named} (hb : Blanks b) {w : Str} {ws : List Str} (hn : n.words = w::ws)
    (ht : n.text = joined n.words ++ [';']) (hws : ∀ v ∈ n.words, WordOk v) :
    (Line.named b n).tokens = (w::ws).map (·,false) ++ [([';'],true)] := by
  rw [hn] at hws ht
  have htext : (Line.named b n).text = b ++ (w ++ (ws.flatMap (fun v => ' '::v) ++ [';'])) := by
    rw [Line.text,ht,joined,List.append_assoc]
  rw [Line.tokens,htext]
  exact tokens_words (fun v hv => hws v (List.mem_cons_of_mem w hv)) (Or.inl rfl) hb (hws w (by simp))

theorem run_semicolon (us : List Token) (s : Leases) : run matchName (([';'],true)::us) s = run matchName us s := by
  rw [run_cons,readToken_other matchName (by decide) (by decide),if_neg (by decide)]

theorem run_read {t : Token} (ds ts : List Token) {s s' : Leases} (h : readToken matchName t (ds ++ ts) s = (ts,s')) :
    run matchName (t::(ds ++ ts)) s = run matchName ts s' := by
  rw [run_cons,h]

theorem run_line {x : Line} (hx : x.Ok) (hn : ¬ x.never) (hp : x.passed = true) (s : Leases) (r : Lease) (us : List Token) :
    run matchName (x.tokens ++ us) (s.held r) = run matchName us (s.held (x.read r)) := by
  match x,hx,hn,hp with
  | .other _,_,_,hp =>
    obtain ⟨k,hk,hrun⟩ := run_passed matchName hp (s.held r)
    rw [hrun,hk rfl]
    rfl
  | .named b (.starts (.on day date time)),⟨hb,hw⟩,_,_ =>
    rw [tokens_named hb rfl rfl hw]
    refine (run_read matchName [(day,false),(date,false),(time,false)] _ rfl).trans ?_
    rw [put_held]
    exact run_semicolon matchName us _
  | .named b (.ends (.on day date time)),⟨hb,hw⟩,_,_ =>
    rw [tokens_named hb rfl rfl hw]
    refine (run_read matchName [(day,false),(date,false),(time,false)] _ rfl).trans ?_
    rw [put_held]
    exact run_semicolon matchName us _
  | .named b (.hardware type mac),⟨hb,hw⟩,_,hp =>
    rw [tokens_named hb rfl rfl hw,Line.read]
    by_cases ht : type = ("ethernet" : Str)
    · rw [if_pos ht,ht]
      refine (run_read matchName [("ethernet",false),(mac,false)] _ rfl).trans ?_
      rw [put_held]
      exact run_semicolon matchName us _
    · have hmac : passed false [(mac,false)] = true := by simpa [Line.passed,ht] using hp
      obtain ⟨k,hk,hrun⟩ := run_passed matchName hmac (s.held r)
      rw [if_neg ht]
      refine (run_read matchName [(type,false)] _ (readToken_followed matchName (d := (type,false)) (by decide)
        (by simp [ht]) (by simp [Str.of_ascii]) _)).trans ?_
      refine (hrun _).trans ?_
      rw [hk rfl]
      exact run_semicolon matchName us _
  | .named b (.binding state),⟨hb,hw⟩,_,_ =>
    rw [tokens_named hb rfl rfl hw]
    refine (run_read matchName [("state",false),(state,false)] _ rfl).trans ?_
    rw [put_held]
    exact run_semicolon matchName us _
  | .named b (.rewind state),⟨hb,hw⟩,_,_ =>
    rw [tokens_named hb rfl rfl hw]
    refine (run_read matchName [] _ rfl).trans ?_
    refine (run_read matchName [("state",false),(state,false)] _ rfl).trans ?_
    rw [put_held]
    exact run_semicolon matchName us _
  | .named b (.clientHostname h),⟨hb,_⟩,_,hp =>
    obtain ⟨hw,hp⟩ := (Bool.and_eq_true _ _).mp hp
    cases hd : dropped (hostLine b h) with
    | true =>
      have ht : (Line.named b (.clientHostname h)).tokens = [] := if_pos hd
      rw [ht,Line.read,hd]
      rfl
    | false =>
      obtain ⟨ds,hds,-⟩ := host_tokens hb (of_decide_eq_true hw) hd
      have ht : (Line.named b (.clientHostname h)).tokens = _ := hds
      have hp' : passed false ds = true := by
        rw [hd,ht] at hp
        exact hp
      obtain ⟨k,hk,hrun⟩ := run_passed matchName hp' (s.held {r with hostname := some (h.takeWhile (· ≠ '"'))})
      rw [ht]
      refine (run_read matchName [(h.takeWhile (· ≠ '"'),false)] (ds ++ us) rfl).trans ?_
      rw [put_held]
      refine (hrun us).trans ?_
      rw [hk rfl,Line.read,hd]
      rfl
  | .named _ (.starts .never),_,hn,_ => exact absurd trivial hn
  | .named _ (.ends .never),_,hn,_ => exact absurd trivial hn

theorem run_closing {xs : List Line} (h : xs.all Line.closing = true) (s : Leases) :
    ∃ k, ∀ us, run matchName (xs.flatMap Line.tokens ++ us) s = run matchName us {s with i := s.i+k} := by
  induction xs generalizing s with
  | nil => exact ⟨0,fun us => rfl⟩
  | cons x xs ih =>
    rw [List.all_cons,Bool.and_eq_true] at h
    match x,h.1 with
    | .other a,hx =>
      obtain ⟨j,-,hj⟩ := run_passed matchName hx s
      obtain ⟨k,hk⟩ := ih h.2 {s with i := s.i+j}
      refine ⟨j+k,fun us => ?_⟩
      rw [List.flatMap_cons,List.append_assoc,hj,hk,Nat.add_assoc]

theorem read_closing {xs : List Line} (h : xs.all Line.closing = true) (r : Lease) :
    xs.foldl (fun l x => x.read l) r = r := by
  induction xs with
  | nil => rfl
  | cons x xs ih =>
    rw [List.all_cons,Bool.and_eq_true] at h
    match x,h.1 with
    | .other a,_ => exact ih h.2

theorem run_body {xs : List Line} (hx : ∀ x ∈ xs, x.Ok) (hn : ∀ x ∈ xs, ¬ x.never) (hp : bodyPassed xs = true)
    (s : Leases) (r : Lease) :
    ∃ k, ∀ us, run matchName (xs.flatMap Line.tokens ++ us) (s.held r) =
      run matchName us {s.held (xs.foldl (fun l x => x.read l) r) with i := s.i+k} := by
  induction xs generalizing r with
  | nil => exact ⟨0,fun us => rfl⟩
  | cons x xs ih =>
    rw [bodyPassed,Bool.or_eq_true] at hp
    rcases hp with hp | hp
    · rw [Bool.and_eq_true] at hp
      obtain ⟨k,hk⟩ := ih (fun y hy => hx y (List.mem_cons_of_mem x hy)) (fun y hy => hn y (List.mem_cons_of_mem x hy)) hp.2
        (x.read r)
      refine ⟨k,fun us => ?_⟩
      rw [List.flatMap_cons,List.append_assoc,run_line matchName (hx x (by simp)) (hn x (by simp)) hp.1,hk,List.foldl_cons]
    · obtain ⟨k,hk⟩ := run_closing matchName hp (s.held r)
      refine ⟨k,fun us => ?_⟩
      rw [hk,read_closing hp]
      rfl

def Block.read (b : Block) : Lease := b.body.foldl (fun l x => x.read l) (b.unset matchName)

def Block.tokens (b : Block) : List Token := (b.lines.map (· ++ ['\n'])).flatMap lineTokens

theorem tokens_block {b : Block} (hb : b.Ok) :
    b.tokens = (("lease" : Str),false)::(b.addr,false)::([' ','{'],true)::
      (b.body.flatMap Line.tokens ++ [(['}'],true)]) := by
  have hhead : lineTokens (b.head ++ ['\n']) = [(("lease" : Str),false),(b.addr,false),([' ','{'],true)] := by
    have := @tokens_words [b.addr] (by simpa using hb.addr) [' ','{'] (Or.inr rfl) [] "lease" (by simp [Blanks])
      (by decide)
    simpa [Block.head,joined] using this
  have hend : lineTokens (['}'] ++ ['\n']) = [(['}'],true)] := by decide
  rw [Block.tokens,Block.lines,List.map_cons,List.flatMap_cons,hhead,List.map_append,List.flatMap_append,List.map_map,
    List.flatMap_map,List.map_singleton,List.flatMap_singleton,hend]
  rfl

theorem put_unset {s : Leases} (hs : s.i ∉ s.leases.keys) (f : Lease → Lease) : s.put f = s.held (f Lease.unset) := by
  rw [Leases.put,OrdMap.getD,OrdMap.get?_eq_none.mpr hs]
  rfl

theorem run_block {b : Block} (hb : b.Ok) (hn : ∀ x ∈ b.body, ¬ x.never) (hp : bodyPassed b.body = true) {s : Leases}
    (hs : s.i ∉ s.leases.keys) :
    ∃ k, ∀ us, run matchName (b.tokens ++ us) s =
      run matchName us {s.held (b.read matchName) with i := s.i+k+1} := by
  obtain ⟨k,hk⟩ := run_body matchName hb.body hn hp s (b.unset matchName)
  refine ⟨k,fun us => ?_⟩
  rw [tokens_block hb,List.cons_append,List.cons_append]
  refine (run_read matchName [(b.addr,false)]
    (([' ','{'],true)::(b.body.flatMap Line.tokens ++ [(['}'],true)] ++ us)) rfl).trans ?_
  rw [put_unset hs,List.append_assoc,run_cons,readToken_other matchName (by decide) (by decide),if_neg (by decide)]
  refine (hk _).trans ?_
  rw [List.singleton_append,run_cons,readToken_other matchName (by decide) (by decide),if_pos rfl]
  rfl

def Item.tokens (x : Item) : List Token := (x.lines.map (· ++ ['\n'])).flatMap lineTokens

def Item.passed : Item → Bool
  | lease b => bodyPassed b.body
  | x@(other _) => DhcpLeases.passed true x.tokens

/-- The records are written by the statements that are written for them. -/
def File.Passed (f : File) : Prop := ∀ x ∈ f, x.passed = true

instance (f : File) : Decidable f.Passed := inferInstanceAs (Decidable (∀ x ∈ f, _))

def File.Timed (f : File) : Prop := ∀ b ∈ f.blocks, ∀ x ∈ b.body, ¬ x.never

instance (f : File) : Decidable f.Timed := inferInstanceAs (Decidable (∀ b ∈ f.blocks, ∀ x ∈ b.body, ¬ x.never))

theorem run_file {f : File} (hf : f.Ok) (hn : f.Timed) (hp : f.Passed) {s : Leases} (hs : ∀ k ∈ s.leases.keys, k < s.i) :
    (run matchName (f.flatMap Item.tokens) s).leases.entries.map Prod.snd =
      s.leases.entries.map Prod.snd ++ f.blocks.map (Block.read matchName) := by
  induction f generalizing s with
  | nil => simp [run_nil,File.blocks]
  | cons x f ih =>
    have hf' := fun y hy => hf y (List.mem_cons_of_mem x hy)
    have hp' := fun y hy => hp y (List.mem_cons_of_mem x hy)
    match x,hf x (by simp),hp x (by simp),hn with
    | .other a,_,hx,hn =>
      obtain ⟨k,-,hk⟩ := run_passed matchName hx s
      rw [List.flatMap_cons,hk,ih (s := {s with i := s.i+k}) hf' hn hp' fun j hj => Nat.lt_add_right k (hs j hj)]
      rfl
    | .lease b,hb,hx,hn =>
      have hfresh : s.i ∉ s.leases.keys := fun hm => absurd (hs _ hm) (lt_irrefl _)
      obtain ⟨k,hk⟩ := run_block matchName hb (hn b List.mem_cons_self) hx hfresh
      have hkeys : ∀ j ∈ (s.held (b.read matchName)).leases.keys, j < s.i+k+1 := fun j hj => by
        rcases (OrdMap.mem_keys_set _ _).mp hj with hj | rfl
        · have := hs j hj
          omega
        · omega
      have htok : (Item.lease b).tokens = b.tokens := rfl
      rw [List.flatMap_cons,htok,hk,ih hf' (fun c hc => hn c (List.mem_cons_of_mem b hc)) hp' hkeys]
      dsimp only [Leases.held]
      rw [OrdMap.set_entries_fresh _ _ hfresh,List.map_append,List.append_assoc]
      rfl

theorem joined_newline {ws : List Str} (h : ∀ w ∈ ws, WordOk w) : '\n' ∉ joined ws := by
  cases ws with
  | nil => exact List.not_mem_nil
  | cons w ws =>
    rw [joined,List.mem_append,List.mem_flatMap,not_or]
    refine ⟨(h w (by simp)).newline,?_⟩
    rintro ⟨v,hv,hm⟩
    rcases List.mem_cons.mp hm with hm | hm
    · exact absurd hm (by decide)
    · exact (h v (List.mem_cons_of_mem w hv)).newline hm

theorem Line.newline {x : Line} (hx : x.Ok) (hh : ∀ h ∈ x.host?, '\n' ∉ h) : '\n' ∉ x.text := by
  have hwords : ∀ {b : Str} {n : Named}, Blanks b → n.text = joined n.words ++ [';'] → (∀ w ∈ n.words, WordOk w) →
      '\n' ∉ (named b n).text := fun hb ht hw => by
    rw [Line.text,ht,List.mem_append,List.mem_append,not_or,not_or]
    exact ⟨hb.free (by decide),joined_newline hw,by decide⟩
  cases x with
  | other s => exact hx
  | named b n =>
    obtain ⟨hb,hn⟩ := hx
    cases n with
    | clientHostname h =>
      have hname : '\n' ∉ h := hh h rfl
      have hword : '\n' ∉ ("client-hostname" : Str) := by decide
      have hblank : '\n' ∉ b := hb.free (by decide)
      simp [Line.text,Named.text,hname,hword,hblank]
    | _ => exact hwords hb rfl hn

theorem bodyPassed_host {xs : List Line} (hp : bodyPassed xs = true) : ∀ x ∈ xs, ∀ h ∈ x.host?, '\n' ∉ h := by
  induction xs with
  | nil => simp
  | cons x xs ih =>
    rw [bodyPassed,Bool.or_eq_true] at hp
    rcases hp with hp | hp
    · rw [Bool.and_eq_true] at hp
      intro y hy
      rcases List.mem_cons.mp hy with rfl | hy
      · intro h hh
        match y,hp.1,hh with
        | .named b (.clientHostname g),hg,hh =>
          obtain rfl : g = h := Option.mem_some.mp hh
          exact of_decide_eq_true ((Bool.and_eq_true _ _).mp hg).1
      · exact ih hp.2 y hy
    · intro y hy h hh
      have hc := List.all_eq_true.mp hp y hy
      match y,hc,hh with
      | .named b n,hc,_ => exact absurd hc (by simp [Line.closing])

theorem lines_newline {f : File} (hf : f.Ok) (hp : f.Passed) : ∀ l ∈ f.flatMap Item.lines, '\n' ∉ l := by
  intro l hl
  obtain ⟨x,hx,hl⟩ := List.mem_flatMap.mp hl
  match x,hf x hx,hp x hx,hl with
  | .other a,ha,_,hl =>
    obtain rfl : l = a := by simpa [Item.lines] using hl
    exact ha
  | .lease b,hb,hp,hl =>
    have haddr : ∀ w ∈ [("lease" : Str),b.addr], WordOk w := fun w hw => by
      rcases List.mem_cons.mp hw with rfl | hw
      · decide
      · obtain rfl := List.mem_singleton.mp hw
        exact hb.addr
    simp only [Item.lines,Block.lines,List.mem_cons,List.mem_append,List.mem_map,List.not_mem_nil,or_false] at hl
    rcases hl with rfl | ⟨y,hy,rfl⟩ | rfl
    · rw [Block.head,List.mem_append,not_or]
      exact ⟨joined_newline haddr,by decide⟩
    · exact Line.newline (hb.body y hy) (bodyPassed_host hp y hy)
    · decide

theorem tokens_file {f : File} (hf : f.Ok) (hp : f.Passed) : tokens f.text = f.flatMap Item.tokens := by
  rw [tokens,File.text,mailLines_lines (lines_newline hf hp),List.flatMap_map,List.flatMap_assoc]
  congr 1
  funext x
  rw [Item.tokens,List.flatMap_map]

theorem getDhcpLease_read {f : File} (hf : f.Ok) (hn : f.Timed) (hp : f.Passed) :
    getDhcpLease matchName (some f.text) = (f.blocks.map (Block.read matchName)).reverse := by
  have hrun := run_file matchName hf hn hp (s := start) fun k hk => absurd hk List.not_mem_nil
  rw [← tokens_file hf hp,run] at hrun
  rw [getDhcpLease,hrun]
  rfl

theorem Leases.Spaced.put {s : Leases} (hs : s.Spaced) {f : Lease → Lease} (hf : ∀ l, l.Spaced → (f l).Spaced) :
    (s.put f).Spaced := by
  intro e he
  rcases OrdMap.mem_set he with rfl | he
  · refine hf _ ?_
    rw [OrdMap.getD]
    cases hg : s.leases.get? s.i with
    | none => exact ⟨fun t ht => by simp [Lease.unset] at ht,fun t ht => by simp [Lease.unset] at ht⟩
    | some l => exact hs _ (OrdMap.get?_eq_some.mp hg)
  · exact hs e he

theorem readToken_spaced (t : Token) (ts : List Token) {s : Leases} (hs : s.Spaced) :
    (readToken matchName t ts s).2.Spaced := by
  rcases (readToken_turn matchName t ts s).2 with h | ⟨f,h,hf⟩
  · rw [Leases.Spaced,h]
    exact hs
  · rw [h]
    exact hs.put hf

theorem readTokens_spaced (n : ℕ) (ts : List Token) {s : Leases} (hs : s.Spaced) : (readTokens matchName n ts s).Spaced := by
  induction n generalizing ts s with
  | zero => exact hs
  | succ n ih =>
    cases ts with
    | nil => exact hs
    | cons t ts => exact ih _ (readToken_spaced matchName t ts hs)

theorem getDhcpLease_spaced (file : Option Str) : ∀ l ∈ getDhcpLease matchName file, l.Spaced := by
  intro l hl
  cases file with
  | none => exact absurd hl List.not_mem_nil
  | some s =>
    obtain ⟨e,he,rfl⟩ := List.mem_map.mp (List.mem_reverse.mp hl)
    exact readTokens_spaced matchName _ _ (fun e he => absurd he List.not_mem_nil) e he

theorem foldl_last {β : Type} {f : Line → Lease → Lease} {g : Lease → Option β} {p : Line → Option β}
    (h : ∀ x l, g (f x l) = (p x).or (g l)) (xs : List Line) (l : Lease) :
    g (xs.foldl (fun l x => f x l) l) = (xs.filterMap p).getLast?.or (g l) := by
  induction xs generalizing l with
  | nil => rfl
  | cons x xs ih =>
    rw [List.foldl_cons,ih,h]
    cases hx : p x with
    | none => rw [List.filterMap_cons_none hx,Option.none_or]
    | some a =>
      rw [List.filterMap_cons_some hx,List.getLast?_cons]
      cases (xs.filterMap p).getLast? <;> rfl

theorem own_start (x : Line) (l : Lease) : (x.own l).start = (x.start?.map Time.own).or l.start := by
  match x with
  | .other _ => rfl
  | .named _ n => cases n <;> rfl

theorem own_finish (x : Line) (l : Lease) : (x.own l).finish = (x.finish?.map Time.own).or l.finish := by
  match x with
  | .other _ => rfl
  | .named _ n => cases n <;> rfl

/-- A time that is written once at most is the one that is written. -/
theorem own_time {g : Lease → Option Str} {pick : Line → Option Time}
    (h : ∀ (x : Line) l, g (x.own l) = ((pick x).map Time.own).or (g l)) {xs : List Line}
    (hl : (xs.filterMap pick).length ≤ 1) {x : Line} (hx : x ∈ xs) {t : Time} (ht : pick x = some t) (l : Lease) :
    g (xs.foldl (fun l x => x.own l) l) = some t.own := by
  rw [foldl_last (p := fun x => (pick x).map Time.own) h,← List.map_filterMap]
  have hm : t ∈ xs.filterMap pick := List.mem_filterMap.mpr ⟨x,hx,ht⟩
  match xs.filterMap pick,hl,hm with
  | [u],_,hm =>
    rw [List.mem_singleton.mp hm]
    rfl

theorem mem_blocks {f : File} {b : Block} : b ∈ f.blocks ↔ Item.lease b ∈ f := by
  rw [File.blocks,List.mem_filterMap]
  constructor
  · rintro ⟨i,hi,hb⟩
    match i,hb with
    | .lease c,hb => exact Option.some.inj hb ▸ hi
  · exact fun h => ⟨_,h,rfl⟩

theorem complete_timed {f : File} (hf : f.Ok) (hc : f.Complete matchName) : f.Timed := by
  intro b hb x hx hn
  have hok : b.Ok := hf _ (mem_blocks.mp hb)
  have hsp : (b.record matchName).Spaced := by
    refine getDhcpLease_spaced matchName (some f.text) _ ?_
    rw [show getDhcpLease matchName (some f.text) = _ from hc,List.mem_reverse]
    exact List.mem_map_of_mem hb
  match x,hx,hn with
  | .named _ (.starts .never),hx,_ =>
    have := hsp.1 _ (own_time own_start hok.start hx rfl (b.unset matchName))
    exact absurd this (by decide)
  | .named _ (.ends .never),hx,_ =>
    have := hsp.2 _ (own_time own_finish hok.finish hx rfl (b.unset matchName))
    exact absurd this (by decide)

def Line.binding? : Line → Option Str
  | named _ (.binding state) => some state
  | _ => none

/-- The states that are read, those a lease was rewound to among them. -/
def Line.state? : Line → Option Str
  | named _ (.binding state) => some state
  | named _ (.rewind state) => some state
  | _ => none

def Line.hostRead? : Line → Option Str
  | named b (.clientHostname h) => if dropped (hostLine b h) then none else some (h.takeWhile (· ≠ '"'))
  | _ => none

def Line.mac? : Line → Option Str
  | named _ (.hardware _ mac) => some mac
  | _ => none

def Line.ethernet? : Line → Option Str
  | named _ (.hardware type mac) => if type = ("ethernet" : Str) then some mac else none
  | _ => none

structure Block.Fit (b : Block) : Prop where
  host : ∀ h ∈ b.body.filterMap Line.host?, Plain h
  state : (b.body.filterMap Line.state?).getLast? = (b.body.filterMap Line.binding?).getLast?
  hardware : (b.body.filterMap Line.ethernet?).getLast? = (b.body.filterMap Line.mac?).getLast?

instance (b : Block) : Decidable b.Fit :=
  decidable_of_iff (_ ∧ _ ∧ _) ⟨fun h => ⟨h.1,h.2.1,h.2.2⟩,fun h => ⟨h.1,h.2,h.3⟩⟩

theorem own_act (x : Line) (l : Lease) : (x.own l).act = x.binding?.or l.act := by
  match x with
  | .other _ => rfl
  | .named _ n => cases n <;> rfl

theorem own_hostname (x : Line) (l : Lease) : (x.own l).hostname = x.host?.or l.hostname := by
  match x with
  | .other _ => rfl
  | .named _ n => cases n <;> rfl

theorem own_mac (x : Line) (l : Lease) : (x.own l).mac = x.mac?.or l.mac := by
  match x with
  | .other _ => rfl
  | .named _ n => cases n <;> rfl

/-- A host name that is read may be another or none, and so may the hardware address; the other fields are the same, but
for the state. -/
theorem read_fields (x : Line) (l : Lease) : (x.read l).act = x.state?.or l.act ∧
    (x.read l).hostname = x.hostRead?.or l.hostname ∧ (x.read l).mac = x.ethernet?.or l.mac := by
  cases x with
  | other s => exact ⟨rfl,rfl,rfl⟩
  | named b n =>
    cases n with
    | clientHostname h =>
      rw [Line.read,Line.hostRead?]
      split <;> exact ⟨rfl,rfl,rfl⟩
    | hardware type mac =>
      rw [Line.read,Line.ethernet?]
      split <;> exact ⟨rfl,rfl,rfl⟩
    | _ => exact ⟨rfl,rfl,rfl⟩

def Lease.bare (l : Lease) : Lease := {l with hostname := none, act := none, mac := none}

theorem bare_read (x : Line) {l m : Lease} (h : l.bare = m.bare) : (x.read l).bare = (x.own m).bare := by
  cases x with
  | other s => exact h
  | named b n =>
    cases n with
    | starts t => exact congrArg (fun r : Lease => {r with start := some t.own}) h
    | ends t => exact congrArg (fun r : Lease => {r with finish := some t.own}) h
    | hardware type mac =>
      rw [Line.read]
      split <;> exact h
    | binding state => exact h
    | rewind state => exact h
    | clientHostname name =>
      rw [Line.read]
      split <;> exact h

theorem bare_foldl (xs : List Line) {l m : Lease} (h : l.bare = m.bare) :
    (xs.foldl (fun l x => x.read l) l).bare = (xs.foldl (fun l x => x.own l) m).bare := by
  induction xs generalizing l m with
  | nil => exact h
  | cons x xs ih => exact ih (bare_read x h)

theorem Lease.bare_ext {l m : Lease} (h : l.bare = m.bare) :
    l = m ↔ l.hostname = m.hostname ∧ l.act = m.act ∧ l.mac = m.mac := by
  refine ⟨fun he => ⟨congrArg _ he,congrArg _ he,congrArg _ he⟩,fun ⟨hh,ha,hm⟩ => ?_⟩
  have := congrArg (fun r : Lease => {r with hostname := l.hostname, act := l.act, mac := l.mac}) h
  calc l = {m.bare with hostname := l.hostname, act := l.act, mac := l.mac} := this
    _ = m := by rw [hh,ha,hm]; rfl

theorem host_read_iff {b h : Str} (hb : Blanks b) : (Line.named b (.clientHostname h)).hostRead? = some h ↔ Plain h := by
  rw [Line.hostRead?]
  constructor
  · intro hr
    split at hr
    · exact absurd hr (by simp)
    · rename_i hd
      have hq : h.takeWhile (· ≠ '"') = h := Option.some.inj hr
      refine ⟨fun hm => ?_,fun hm => hd (host_dropped (Or.inl hm)),fun ht => hd (host_dropped (Or.inr ht))⟩
      exact absurd (List.takeWhile_eq_self_iff.mp hq _ hm) (by decide)
  · intro hp
    rw [if_neg (by rw [host_kept hb hp]; decide)]
    refine congrArg some (List.takeWhile_eq_self_iff.mpr fun c hc => decide_eq_true fun he => hp.1 (he ▸ hc))

theorem Line.of_host {x : Line} (hx : x.host?.isSome = true) : ∃ b h, x = named b (.clientHostname h) := by
  cases x with
  | other s => cases hx
  | named b n =>
    cases n with
    | clientHostname h => exact ⟨b,h,rfl⟩
    | _ => cases hx

theorem last_host_iff {xs : List Line} (hl : xs.length ≤ 1) (hx : ∀ x ∈ xs, x.Ok ∧ x.host?.isSome = true) :
    (xs.filterMap Line.hostRead?).getLast? = (xs.filterMap Line.host?).getLast? ↔
      ∀ h ∈ xs.filterMap Line.host?, Plain h := by
  match xs,hl with
  | [],_ => simp
  | [x],_ =>
    obtain ⟨hok,hh⟩ := hx x (by simp)
    obtain ⟨b,h,rfl⟩ := Line.of_host hh
    have hown : (Line.named b (.clientHostname h)).host? = some h := rfl
    rw [List.filterMap_cons_some hown,List.filterMap_nil,List.getLast?_singleton,List.forall_mem_singleton,
      ← host_read_iff hok.1]
    cases hr : (Line.named b (.clientHostname h)).hostRead? with
    | none => rw [List.filterMap_cons_none hr]; rfl
    | some g => rw [List.filterMap_cons_some hr]; rfl

theorem hostname_iff {b : Block} (hb : b.Ok) : (b.body.filterMap Line.hostRead?).getLast? = (b.body.filterMap Line.host?).getLast? ↔
    ∀ h ∈ b.body.filterMap Line.host?, Plain h := by
  have hread : b.body.filterMap Line.hostRead? = (b.body.filter fun x => x.host?.isSome).filterMap Line.hostRead? := by
    rw [List.filterMap_filter]
    refine List.filterMap_congr fun x _ => ?_
    match x with
    | .other _ => rfl
    | .named _ n => cases n <;> rfl
  have hown : b.body.filterMap Line.host? = (b.body.filter fun x => x.host?.isSome).filterMap Line.host? := by
    rw [List.filterMap_filter]
    refine List.filterMap_congr fun x _ => ?_
    cases hx : x.host? <;> simp
  have hlen : (b.body.filter fun x => x.host?.isSome).length ≤ 1 := by
    have := hb.host
    rwa [List.length_filterMap_eq_countP,List.countP_eq_length_filter] at this
  rw [hread,hown]
  refine last_host_iff hlen fun x hx => ?_
  obtain ⟨hm,hx⟩ := List.mem_filter.mp hx
  exact ⟨hb.body x hm,hx⟩

theorem read_iff {b : Block} (hb : b.Ok) : b.read matchName = b.record matchName ↔ b.Fit := by
  have hbare : (b.read matchName).bare = (b.record matchName).bare := bare_foldl b.body rfl
  rw [Lease.bare_ext hbare,Block.read,Block.record,foldl_last (g := Lease.act) fun x l => (read_fields x l).1,
    foldl_last (g := Lease.hostname) fun x l => (read_fields x l).2.1,foldl_last (g := Lease.mac) fun x l => (read_fields x l).2.2,
    foldl_last (g := Lease.act) own_act,foldl_last (g := Lease.hostname) own_hostname,foldl_last (g := Lease.mac) own_mac,
    show (b.unset matchName).hostname = none from rfl,show (b.unset matchName).act = none from rfl,
    show (b.unset matchName).mac = none from rfl]
  simp only [Option.or_none]
  rw [hostname_iff hb]
  exact ⟨fun h => ⟨h.1,h.2.1,h.2.2⟩,fun h => ⟨h.1,h.2,h.3⟩⟩

/-- What the reader returns for the files the server writes. It is not complete where a lease starts or ends never, and
where the other lines are passed over it is complete if and only if the times, the host names, the states and the
hardware addresses are such that they are read. -/
theorem leases_complete {f : File} (hf : f.Ok) : (f.Complete matchName → f.Timed) ∧
    (f.Passed → (f.Complete matchName ↔ f.Timed ∧ ∀ b ∈ f.blocks, b.Fit)) := by
  refine ⟨complete_timed matchName hf,fun hp => ?_⟩
  have hiff : f.Timed → (f.Complete matchName ↔ ∀ b ∈ f.blocks, b.Fit) := fun hn => by
    rw [File.Complete,getDhcpLease_read matchName hf hn hp,List.reverse_inj,List.map_inj_left]
    exact forall₂_congr fun b hb => read_iff matchName (hf _ (mem_blocks.mp hb))
  refine ⟨fun hc => ?_,fun h => (hiff h.1).mpr h.2⟩
  have hn := complete_timed matchName hf hc
  exact ⟨hn,(hiff hn).mp hc⟩

def sample : File :=
  [.other "# The format of this file is documented in the dhcpd.leases(5) manual page.",
    .lease ⟨"192.168.1.10",[.named "  " (.starts (.on "4" "2006/11/30" "10:00:00")),
      .named "  " (.ends (.on "4" "2006/11/30" "22:00:00")),.other "  tstp 4 2006/11/30 22:00:00;",
      .named "  " (.binding "active"),.other "  next binding state free;",.named "  " (.hardware "ethernet" "00:11:22:33:44:55"),
      .other "  uid \"\\001\\000\\021\";",.named "  " (.clientHostname "build box; {1}")]⟩,
    .lease ⟨"192.168.1.11",[.named "  " (.starts (.on "5" "2006/12/01" "08:30:00")),
      .named "  " (.ends (.on "5" "2006/12/01" "20:30:00")),.named "  " (.binding "free"),
      .named "  " (.hardware "ethernet" "00:11:22:33:44:66")]⟩]

def endless : File :=
  [.lease ⟨"192.168.1.20",[.named "  " (.starts (.on "4" "2006/11/30" "10:00:00")),.named "  " (.ends .never),
    .other "  tstp never;",.named "  " (.binding "active"),.named "  " (.hardware "ethernet" "00:11:22:33:44:55")]⟩]

theorem sample_read : sample.Ok ∧ sample.Passed ∧ sample.Timed ∧ ∀ b ∈ sample.blocks, b.Fit := by
  decide +kernel

theorem leases_complete_sample : sample.Complete fun _ => ("eth1" : Str) :=
  ((leases_complete _ sample_read.1).2 sample_read.2.1).mpr sample_read.2.2

/-- What is taken for the end is the semicolon and the next statement's first word. -/
theorem endless_lost : endless.Ok ∧ (getDhcpLease (fun _ => ("eth1" : Str)) (some endless.text)).map Lease.finish =
    [some ("; tstp" : Str)] ∧ ¬ endless.Complete fun _ => ("eth1" : Str) := by
  refine ⟨by decide,by decide,fun h => ?_⟩
  exact absurd (complete_timed _ (by decide) h) (by decide)

end DhcpLeases
end Mybox
