import Mybox.NegatedMatches

/-! Rules in chains. A chain is gone through rule by rule: a rule that applies decides, goes on in another chain, goes
back, or lets the next rule have its say. What depends on earlier packets is left open. -/
namespace Mybox
namespace RuleTables
open PacketFilter

/-- A frame, with what else the rules look at; `syn` tells that of SYN, RST and ACK only SYN is set. -/
structure Seen where
  frame : Frame
  content : Word
  syn : Bool

structure Area where
  addr : ℕ
  mask : ℕ

def Area.has (a : Area) (n : ℕ) : Bool := n &&& a.mask = a.addr &&& a.mask

/-- An address, alone or with the length of its leading part or a mask. -/
def area (w : Word) : Option Area :=
  match w.splitOn '/' with
  | [a] => (address a).map fun n => ⟨n,2^32 - 1⟩
  | [a,l] => (address a).bind fun n =>
      (((prefixLen l).map fun k => 2^32 - 2^(32 - k)).or (address l)).map fun m => ⟨n,m⟩
  | _ => none

/-- The options of a `hashlimit` match. -/
structure Limit where
  rate : Word
  burst : Word
  mode : Word
  name : Word
  deriving DecidableEq

inductive Recent
  | rcheck (seconds : Word)
  | remove
  | set

/-- The matches of a rule; `words` are options as they are read elsewhere. -/
inductive Match
  | words (s : Word)
  | anyProto
  | source (w : Word)
  | dest (w : Word)
  | mac (w : Word)
  | content (s : Word)
  | notSyn
  | hashlimit (l : Limit)
  | recent (name : Word) (op : Option Recent)

def Recent.text : Recent → Word
  | rcheck s => "--rcheck --seconds ".toList ++ s
  | remove => "--remove".toList
  | set => "--set".toList

def Match.text : Match → Word
  | words s => s
  | anyProto => "-p all".toList
  | source w => "-s ".toList ++ w
  | dest w => "-d ".toList ++ w
  | mac w => "-m mac --mac-source ".toList ++ w
  | content s => "-m string --algo bm --to 65535 --string ".toList ++ '"'::s ++ ['"']
  | notSyn => "-p tcp -m tcp ! --tcp-flags SYN,RST,ACK SYN".toList
  | hashlimit l => "-m hashlimit --hashlimit ".toList ++ l.rate ++ "/sec --hashlimit-burst ".toList ++ l.burst ++
      " --hashlimit-mode ".toList ++ l.mode ++ " --hashlimit-name ".toList ++ l.name
  | recent name op => "-m recent --name ".toList ++ name ++ (op.map fun o => ' '::o.text).getD []

inductive Target
  | chain (c : Word)
  | accept
  | drop
  | reject
  | back
  | notrack
  | nflog (note : Word)
  /-- A rule without a target. -/
  | none

def Target.text : Target → Word
  | chain c => " -j ".toList ++ c
  | accept => " -j ACCEPT".toList
  | drop => " -j DROP".toList
  | reject => " -j REJECT".toList
  | back => " -j RETURN".toList
  | notrack => " -j NOTRACK".toList
  | nflog note => " -j NFLOG --nflog-prefix ".toList ++ '"'::note ++ ['"']
  | none => []

structure Rule where
  chain : Word
  conds : List Match
  target : Target

def Rule.text (r : Rule) : Word := "-A ".toList ++ [' '].intercalate (r.chain::r.conds.map Match.text) ++ r.target.text

/-- What the rules do not decide by themselves: the tables of names, the rates a limit takes, and whether a packet is
within a limit, or on a list. -/
structure Env where
  setting : Setting
  rate : Word → Bool
  within : Limit → Seen → Bool
  listed : Word → Recent → Seen → Bool

def Stringy (s : Word) : Prop := s ≠ [] ∧ s.length ≤ 128 ∧ '"' ∉ s

instance (s : Word) : Decidable (Stringy s) := inferInstanceAs (Decidable (_ ∧ _))

def Match.reads (e : Env) : Match → Option (Seen → Bool)
  | words s => (conditions e.setting (tokens s)).map fun cs p => cs.all fun c => c p.frame
  | anyProto => some fun _ => true
  | source w => (area w).map fun a p => a.has p.frame.packet.src
  | dest w => (area w).map fun a p => a.has p.frame.packet.dst
  | mac w => (hardware w).map fun m p => p.frame.mac = m
  | content s => if Stringy s then some fun p => decide (s <:+: p.content) else none
  | notSyn => some fun p => !p.syn
  | hashlimit l => if e.rate l.rate = true then some (e.within l) else none
  | recent name op =>
    match op with
    | some .set => some fun _ => true
    | some o => some (e.listed name o)
    -- one of the operations has to be named
    | none => none

/-- Nothing is listed, no name is known, and every rate is one that can be read. -/
def Env.bare : Env := ⟨⟨fun _ _ _ => false,fun _ => none,fun _ _ _ => false⟩,fun _ => true,fun _ _ => true,fun _ _ _ => false⟩

def Match.limited : Match := .words "-m limit --limit 5/sec --limit-burst 10".toList

def Match.holds (e : Env) (p : Seen) (m : Match) : Bool := (m.reads e).any fun c => c p

def Rule.Readable (e : Env) (r : Rule) : Prop := ∀ m ∈ r.conds, (m.reads e).isSome = true

instance (e : Env) (r : Rule) : Decidable (r.Readable e) := inferInstanceAs (Decidable (∀ _ ∈ _, _))

def Rule.applies (e : Env) (p : Seen) (r : Rule) : Bool := r.conds.all (Match.holds e p)

inductive Verdict
  | accept
  | drop
  | reject
  deriving DecidableEq

/-- The rules of a chain, where other chains are decided by `jump`. -/
def follow (e : Env) (jump : Word → Option Verdict) (p : Seen) : List Rule → Option Verdict
  | [] => none
  | r::rs =>
    if r.applies e p = true then
      match r.target with
      | .accept => some .accept
      | .drop => some .drop
      | .reject => some .reject
      | .back => none
      | .chain c => (jump c).or (follow e jump p rs)
      | .notrack | .nflog _ | .none => follow e jump p rs
    else follow e jump p rs

def walk (e : Env) (rules : List Rule) (p : Seen) : ℕ → Word → Option Verdict
  | 0, _ => none
  | n + 1, c => follow e (walk e rules p n) p (rules.filter fun r => r.chain = c)

/-- A table is put in place as a whole, or not at all. -/
def load (e : Env) (rules : List Rule) : Option (List Rule) := if ∀ r ∈ rules, r.Readable e then some rules else none

variable {e : Env} {jump : Word → Option Verdict} {p : Seen}

def Target.quiet : Target → Bool
  | notrack | nflog _ | none => true
  | _ => false

theorem follow_cons_of_not {r : Rule} (h : r.applies e p = false) (rs : List Rule) :
    follow e jump p (r::rs) = follow e jump p rs := by
  rw [follow,if_neg (by simp [h])]

theorem follow_cons_quiet {r : Rule} (h : r.target.quiet = true) (rs : List Rule) :
    follow e jump p (r::rs) = follow e jump p rs := by
  rw [follow]
  cases ht : r.target with
  | notrack | nflog _ | none => exact ite_self _
  | _ =>
    rw [ht] at h
    cases h

/-- Rules that do not apply, or leave the decision, are passed over. -/
theorem follow_skip {rs : List Rule} (h : ∀ r ∈ rs, r.applies e p = true → r.target.quiet = true) (rs' : List Rule) :
    follow e jump p (rs ++ rs') = follow e jump p rs' := by
  induction rs with
  | nil => rfl
  | cons r rs ih =>
    rw [List.forall_mem_cons] at h
    rw [List.cons_append,← ih h.2]
    cases ha : r.applies e p with
    | false => exact follow_cons_of_not ha _
    | true => exact follow_cons_quiet (h.1 ha) _

theorem applies_iff {r : Rule} : r.applies e p = true ↔ ∀ m ∈ r.conds, m.holds e p = true := List.all_eq_true

theorem holds_source (w : Word) : (Match.source w).holds e p = (area w).any fun a => a.has p.frame.packet.src :=
  Option.any_map

theorem holds_dest (w : Word) : (Match.dest w).holds e p = (area w).any fun a => a.has p.frame.packet.dst :=
  Option.any_map

theorem holds_mac (w : Word) : (Match.mac w).holds e p = true ↔ hardware w = some p.frame.mac := by
  have hm : (Match.mac w).holds e p = (hardware w).any fun m => decide (p.frame.mac = m) := Option.any_map
  rw [hm]
  cases hardware w with
  | none => exact iff_of_false Bool.false_ne_true nofun
  | some m => rw [Option.any_some,decide_eq_true_eq,Option.some.injEq,eq_comm]

theorem reads_content (s : Word) : (Match.content s).reads e =
    if Stringy s then some fun p => decide (s <:+: p.content) else none := rfl

theorem holds_content {s : Word} (h : Stringy s) : (Match.content s).holds e p = true ↔ s <:+: p.content := by
  rw [Match.holds,reads_content,if_pos h,Option.any_some,decide_eq_true_eq]

theorem load_iff {rules rs : List Rule} : load e rules = some rs ↔ rules = rs ∧ ∀ r ∈ rules, r.Readable e := by
  rw [load]
  split
  · next h =>
    rw [Option.some.injEq]
    exact ⟨fun he => And.intro he h,And.left⟩
  · next h =>
    refine iff_of_false (by simp) fun he => h he.2

end RuleTables
end Mybox
