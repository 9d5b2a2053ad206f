import Mybox.PacketFilter

/-! A rule file read line by line. Words stand between blanks, a quoted text is one word, and a rule
tests what it names of a frame. The first rule of a chain whose tests all hold gives the verdict, and a
line that cannot be read leaves no chain at all. -/
namespace Mybox
namespace PacketFilter

/-- A packet, the device it comes in by and the hardware address it comes from. -/
structure Frame where
  packet : Packet
  device : Word
  mac : List Nat

/-- The words from a character on: whether a quotation is open, and the word begun. -/
def tokensFrom : Bool → Option Word → Word → List Word
  | _, cur, [] => cur.toList
  | q, cur, c::s =>
    if c = '"' then tokensFrom (!q) (some (cur.getD [])) s
    else if c = ' ' ∧ q = false then cur.toList ++ tokensFrom false none s
    else tokensFrom q (some (cur.getD [] ++ [c])) s

def tokens (s : Word) : List Word := tokensFrom false none s

/-- A text without a blank, a quotation mark or the end of a line in it. -/
structure PlainWord (w : Word) : Prop where
  ne : w ≠ []
  chars : ∀ c ∈ w, c ≠ ' ' ∧ c ≠ '"' ∧ c ≠ '\n'

instance (w : Word) : Decidable (PlainWord w) :=
  decidable_of_iff (w ≠ [] ∧ ∀ c ∈ w, c ≠ ' ' ∧ c ≠ '"' ∧ c ≠ '\n') ⟨fun h => ⟨h.1,h.2⟩,fun h => ⟨h.1,h.2⟩⟩

theorem tokensFrom_chars {q : Bool} {w : Word} (h : ∀ c ∈ w, c ≠ '"' ∧ (c = ' ' → q = true)) (v s : Word) :
    tokensFrom q (some v) (w ++ s) = tokensFrom q (some (v ++ w)) s := by
  induction w generalizing v with
  | nil => simp
  | cons c w ih =>
    obtain ⟨hc,hb⟩ := h c (by simp)
    rw [List.cons_append,tokensFrom,if_neg hc,if_neg (by
      rintro ⟨rfl,hq⟩
      rw [hb rfl] at hq
      exact absurd hq (by decide)),Option.getD_some,ih (fun d hd => h d (List.mem_cons_of_mem _ hd))]
    simp

/-- The text is cut into these words, alone and in front of more. -/
structure Splits (s : Word) (ws : List Word) : Prop where
  alone : tokens s = ws
  front : ∀ t, tokens (s ++ ' ' :: t) = ws ++ tokens t

theorem splits_nil : Splits [] [] := ⟨rfl,fun _ => rfl⟩

theorem PlainWord.splits {w : Word} (h : PlainWord w) : Splits w [w] := by
  obtain ⟨c,w,rfl⟩ := List.exists_cons_of_ne_nil h.ne
  obtain ⟨hc,hq,-⟩ := h.chars c (by simp)
  have hw : ∀ d ∈ w, d ≠ '"' ∧ (d = ' ' → false = true) := fun d hd =>
    have hd := h.chars d (List.mem_cons_of_mem _ hd)
    ⟨hd.2.1,fun he => absurd he hd.1⟩
  have key : ∀ t, tokens (c::w ++ t) = tokensFrom false (some (c::w)) t := by
    intro t
    rw [tokens,List.cons_append,tokensFrom,if_neg hq,if_neg (by simp [hc]),tokensFrom_chars hw]
    rfl
  constructor
  · have h₀ := key []
    rw [List.append_nil] at h₀
    rw [h₀]
    rfl
  · intro t
    rw [key,tokensFrom,if_neg (by decide),if_pos ⟨rfl,rfl⟩]
    rfl

theorem splits_quoted {w : Word} (h : '"' ∉ w) : Splits ('"' :: (w ++ ['"'])) [w] := by
  have hw : ∀ c ∈ w, c ≠ '"' ∧ (c = ' ' → true = true) := fun c hc => ⟨fun he => h (he ▸ hc),fun _ => rfl⟩
  have key : ∀ t, tokens ('"' :: (w ++ '"' :: t)) = tokensFrom false (some w) t := by
    intro t
    rw [tokens,tokensFrom,if_pos rfl,Bool.not_false,Option.getD_none,tokensFrom_chars hw,tokensFrom,if_pos rfl]
    rfl
  constructor
  · rw [key]
    rfl
  · intro t
    rw [List.cons_append,List.append_assoc,List.singleton_append,key,tokensFrom,if_neg (by decide),
      if_pos ⟨rfl,rfl⟩]
    rfl

theorem Splits.append {s t : Word} {ws vs : List Word} (hs : Splits s ws) (ht : Splits t vs) :
    Splits (s ++ ' ' :: t) (ws ++ vs) := by
  constructor
  · rw [hs.front,ht.alone]
  · intro u
    rw [List.append_assoc,List.cons_append,hs.front,ht.front,List.append_assoc]

/-- Without quotation marks the words are those between the blanks. -/
theorem splits_unquoted {s : Word} (h : '"' ∉ s) : Splits s (tokens s) := by
  have key : ∀ (cur : Option Word) (t : Word), tokensFrom false cur (s ++ ' ' :: t) =
      tokensFrom false cur s ++ tokens t := by
    intro cur t
    induction s generalizing cur with
    | nil => cases cur <;> simp [tokensFrom,tokens]
    | cons c s ih =>
      have hc : c ≠ '"' := fun he => h (by simp [he])
      have hs : '"' ∉ s := fun hm => h (List.mem_cons_of_mem _ hm)
      rw [List.cons_append,tokensFrom,tokensFrom,if_neg hc,if_neg hc]
      split
      · rw [ih hs,List.append_assoc]
      · exact ih hs _
  exact ⟨rfl,key none⟩

inductive Test
  /-- A comment, or a module that tests nothing by itself. -/
  | free
  | opt (o : Opt)
  | device (d : Word)
  | mac (m : List Nat)
  | srcRange (r : Range)
  | dports (rs : List Range)

def Payload.dport : Payload → Option Nat
  | .tcp _ d => some d
  | .udp _ d => some d
  | _ => none

/-- A device name that ends in a plus sign stands for every name it starts. -/
def deviceHas (d x : Word) : Bool :=
  if d.getLast? = some '+' then d.dropLast.isPrefixOf x else d = x

def Test.matches (types : Types) : Test → Frame → Bool
  | free, _ => true
  | opt o, f => o.matches types f.packet
  | device d, f => deviceHas d f.device
  | mac m, f => f.mac = m
  | srcRange r, f => r.has f.packet.src
  | dports rs, f => f.packet.payload.dport.any fun d => rs.any fun r => r.has d

def hexValue (c : Char) : Option Nat :=
  if '0' ≤ c ∧ c ≤ '9' then some (c.toNat - 48)
  else if 'a' ≤ c ∧ c ≤ 'f' then some (c.toNat - 87)
  else if 'A' ≤ c ∧ c ≤ 'F' then some (c.toNat - 55) else none

def hexByte : Word → Option Nat
  | [a,b] => (hexValue a).bind fun x => (hexValue b).map fun y => 16*x + y
  | _ => none

def hardware (w : Word) : Option (List Nat) :=
  let ps := w.splitOn ':'
  if ps.length = 6 then ps.mapM hexByte else none

/-- Two addresses in order, with a hyphen between them. -/
def addressRange (w : Word) : Option Range :=
  match w.splitOn '-' with
  | [a,b] => (address a).bind fun x => (address b).bind fun y => if x ≤ y then some ⟨x,y⟩ else none
  | _ => none

def portList (w : Word) : Option (List Range) := (w.splitOn ',').mapM range

def deviceName (w : Word) : Option Word := if w.length ≤ 15 then some w else none

def freeModules : List Word := ["comment".toList,"mac".toList,"iprange".toList,"multiport".toList]

def test (o w : Word) : Option Test :=
  if o = "--comment".toList then some .free
  else if o = "-m".toList then if w ∈ freeModules then some .free else (moduleOf w).map (.opt ∘ .load)
  else if o = "-i".toList then (deviceName w).map .device
  else if o = "--mac-source".toList then (hardware w).map .mac
  else if o = "--src-range".toList then (addressRange w).map .srcRange
  else if o = "--dports".toList then (portList w).map .dports
  else (option o w).map .opt

structure ChainRule where
  chain : Word
  tests : List Test
  target : Word

def ruleParts : List Word → Option (List Test × Word)
  | [o,w] => if o = "-j".toList then some ([],w) else none
  | o::w::ws => (test o w).bind fun x => (ruleParts ws).map fun r => (x::r.1,r.2)
  | _ => none

def ChainRule.matches (types : Types) (r : ChainRule) (f : Frame) : Bool := r.tests.all fun t => t.matches types f

def tests : List Word → Option (List Test)
  | [] => some []
  | [_] => none
  | o::w::ws => (test o w).bind fun x => (tests ws).map (x::·)

theorem tests_append {ws vs : List Word} (h : ws.length % 2 = 0) :
    tests (ws ++ vs) = (tests ws).bind fun ts => (tests vs).map (ts ++ ·) := by
  induction ws using tests.induct with
  | case1 => simp [tests]
  | case2 w => simp at h
  | case3 o w ws ih =>
    have hw : ws.length % 2 = 0 := by simp only [List.length_cons] at h; omega
    rw [List.cons_append,List.cons_append,tests,tests,ih hw]
    cases test o w <;> cases tests ws <;> cases tests vs <;> rfl

theorem ruleParts_append {ws vs : List Word} (h : ws.length % 2 = 0) (hv : vs ≠ []) :
    ruleParts (ws ++ vs) = (tests ws).bind fun ts => (ruleParts vs).map fun r => (ts ++ r.1,r.2) := by
  induction ws using tests.induct with
  | case1 => simp [tests]
  | case2 w => simp at h
  | case3 o w ws ih =>
    have hw : ws.length % 2 = 0 := by simp only [List.length_cons] at h; omega
    have hne : ws ++ vs ≠ [] := by simp [hv]
    obtain ⟨x,xs,hx⟩ := List.exists_cons_of_ne_nil hne
    have hr : ruleParts (o::w::x::xs) = (test o w).bind fun y => (ruleParts (x::xs)).map fun r => (y::r.1,r.2) := by
      rw [ruleParts]
      simp
    rw [List.cons_append,List.cons_append,tests,hx,hr,← hx,ih hw]
    cases test o w <;> cases tests ws <;> cases ruleParts vs <;> rfl

/-- One line between the name of the table and `COMMIT`. -/
def readLine (rs : List ChainRule) (l : Word) : Option (List ChainRule) :=
  match tokens l with
  | o::c::ws =>
    if o = "-F".toList ∧ ws = [] then some (rs.filter fun r => r.chain ≠ c)
    else if o = "-A".toList then (ruleParts ws).map fun r => rs ++ [⟨c,r.1,r.2⟩]
    else none
  | _ => none

def Appends (l : Word) (r : Option ChainRule) : Prop := ∀ rs, readLine rs l = r.map fun r => rs ++ [r]

theorem appends_of_tokens {l : Word} {c : Word} {ws : List Word} (h : tokens l = "-A".toList :: c :: ws) :
    Appends l ((ruleParts ws).map fun r => ⟨c,r.1,r.2⟩) := by
  intro rs
  rw [readLine,h]
  dsimp only
  rw [if_neg (by rintro ⟨h,-⟩; exact absurd h (by decide)),if_pos rfl,Option.map_map]
  rfl

def ReadsAs (s : Word) (ts : Option (List Test)) : Prop := ∃ ws, Splits s ws ∧ ws.length % 2 = 0 ∧ tests ws = ts

theorem readsAs_nil : ReadsAs [] (some []) := ⟨[],splits_nil,rfl,rfl⟩

theorem readsAs_option {o w : Word} (ho : PlainWord o) (hw : PlainWord w) :
    ReadsAs (o ++ ' ' :: w) ((test o w).map fun t => [t]) := by
  refine ⟨[o] ++ [w],ho.splits.append hw.splits,by simp,?_⟩
  rw [List.singleton_append,tests,tests]
  cases test o w <;> rfl

theorem ReadsAs.append {s t : Word} {a b : Option (List Test)} (hs : ReadsAs s a) (ht : ReadsAs t b) :
    ReadsAs (s ++ ' ' :: t) (a.bind fun x => b.map (x ++ ·)) := by
  obtain ⟨ws,hs,hw,rfl⟩ := hs
  obtain ⟨vs,ht,hv,rfl⟩ := ht
  exact ⟨ws ++ vs,hs.append ht,by rw [List.length_append]; omega,tests_append hw⟩

theorem appends_rule {chain target body : Word} {ts : Option (List Test)} (hc : PlainWord chain)
    (ht : PlainWord target) (hb : ReadsAs body ts) :
    Appends ("-A".toList ++ ' ' :: (chain ++ ' ' :: (body ++ ' ' :: ("-j".toList ++ ' ' :: target))))
      (ts.map fun ts => ⟨chain,ts,target⟩) := by
  obtain ⟨ws,hs,hw,rfl⟩ := hb
  have hj : Splits ("-j".toList ++ ' ' :: target) ["-j".toList,target] :=
    (splits_unquoted (s := "-j".toList) (by decide)).append ht.splits
  have hl := (splits_unquoted (s := "-A".toList) (by decide)).append (hc.splits.append (hs.append hj))
  have ha : Appends _ ((ruleParts (ws ++ ["-j".toList,target])).map fun r => (⟨chain,r.1,r.2⟩ : ChainRule)) :=
    appends_of_tokens hl.alone
  rw [ruleParts_append hw (by simp)] at ha
  have hr : ruleParts ["-j".toList,target] = some ([],target) := by
    rw [ruleParts,if_pos rfl]
  rw [hr] at ha
  have he : (((tests ws).bind fun ts => (some (([] : List Test),target)).map fun r => (ts ++ r.1,r.2)).map
      fun r => (⟨chain,r.1,r.2⟩ : ChainRule)) = (tests ws).map fun ts => ⟨chain,ts,target⟩ := by
    cases tests ws <;> simp
  rw [← he]
  exact ha

theorem foldlM_appends {α : Type} {line : α → Word} {rule : α → Option ChainRule} {xs : List α}
    (h : ∀ x ∈ xs, Appends (line x) (rule x)) (rs : List ChainRule) :
    (xs.map line).foldlM readLine rs =
      if ∀ x ∈ xs, rule x ≠ none then some (rs ++ xs.filterMap rule) else none := by
  induction xs generalizing rs with
  | nil => simp
  | cons x xs ih =>
    rw [List.map_cons,List.foldlM_cons,h x (by simp) rs]
    cases hx : rule x with
    | none => simp [hx]
    | some r =>
      have hi := ih (fun y hy => h y (List.mem_cons_of_mem _ hy)) (rs ++ [r])
      rw [Option.map_some]
      simp only [Option.bind_eq_bind,Option.bind_some,hi,List.forall_mem_cons,hx,ne_eq,reduceCtorEq,
        not_false_eq_true,true_and,List.filterMap_cons,List.append_assoc,List.singleton_append]

def restore (table : Word) (ls : List Word) : Option (List ChainRule) :=
  if ls.head? = some ('*' :: table) ∧ ls.getLast? = some "COMMIT".toList then
    ls.tail.dropLast.foldlM readLine []
  else none

def verdict (types : Types) (chain : Word) (rs : List ChainRule) (f : Frame) : Option Word :=
  (rs.find? fun r => r.chain = chain && r.matches types f).map ChainRule.target

end PacketFilter
end Mybox
