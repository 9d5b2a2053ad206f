import Mybox.LineText
import Mathlib.Algebra.Ring.Nat
import Mathlib.Tactic.Common

/-! Packets, and the options of a packet filter rule: addresses, protocols, ports, message
types and security parameter indices. A rule is a line of words, an option and its argument
taking two; it applies to the packets that satisfy every option. Which names stand for which
message types is a table left open. -/
namespace Mybox
namespace PacketFilter

abbrev Word := List Char

/-- Both ends included. -/
structure Range where
  lo : Nat
  hi : Nat
  deriving DecidableEq

def Range.has (r : Range) (n : Nat) : Bool := r.lo ≤ n && n ≤ r.hi

/-- The addresses that agree on a leading part. -/
structure Net where
  addr : Nat
  len : Nat
  deriving DecidableEq

def Net.has (n : Net) (a : Nat) : Bool := a/2^(32-n.len) = n.addr/2^(32-n.len)

/-- What follows the address header; `other` when no further header is looked at. -/
inductive Payload
  | tcp (sport dport : Nat)
  | udp (sport dport : Nat)
  | icmp (type code : Nat)
  | ah (spi : Nat)
  | esp (spi : Nat)
  | other (proto : Nat)

def Payload.proto : Payload → Nat
  | tcp _ _ => 6
  | udp _ _ => 17
  | icmp _ _ => 1
  | ah _ => 51
  | esp _ => 50
  | other n => n

structure Packet where
  src : Nat
  dst : Nat
  payload : Payload

/-- The modules `-m` loads; each looks at packets that carry its own header. -/
inductive Module
  | tcp
  | udp
  | icmp
  | ah
  | esp

def Module.sees : Module → Payload → Bool
  | tcp, .tcp _ _ => true
  | udp, .udp _ _ => true
  | icmp, .icmp _ _ => true
  | ah, .ah _ => true
  | esp, .esp _ => true
  | _, _ => false

inductive Opt
  | src (n : Net)
  | dst (n : Net)
  | proto (n : Nat)
  | load (m : Module)
  | sport (r : Range)
  | dport (r : Range)
  | icmpType (t : Word)
  | ahspi (r : Range)
  | espspi (r : Range)

abbrev Types := Word → Nat → Nat → Bool

def Opt.matches (types : Types) : Opt → Packet → Bool
  | src n, p => n.has p.src
  | dst n, p => n.has p.dst
  | proto n, p => n = 0 || p.payload.proto = n
  | load m, p => m.sees p.payload
  | sport r, ⟨_,_,.tcp s _⟩ => r.has s
  | sport r, ⟨_,_,.udp s _⟩ => r.has s
  | dport r, ⟨_,_,.tcp _ d⟩ => r.has d
  | dport r, ⟨_,_,.udp _ d⟩ => r.has d
  | icmpType t, ⟨_,_,.icmp ty co⟩ => types t ty co
  | ahspi r, ⟨_,_,.ah s⟩ => r.has s
  | espspi r, ⟨_,_,.esp s⟩ => r.has s
  | _, _ => false

def number (w : Word) : Option Nat :=
  if w ≠ [] ∧ w.all (fun c => '0' ≤ c && c ≤ '9') then
    some (w.foldl (fun n c => 10*n + (c.toNat - 48)) 0)
  else none

def range (w : Word) : Option Range :=
  match w.splitOn ':' with
  | [a] => (number a).map fun n => ⟨n,n⟩
  | [a,b] => (number a).bind fun n => (number b).map fun m => ⟨n,m⟩
  | _ => none

def octet (w : Word) : Option Nat := (number w).filter (fun n => n ≤ 255)

def address (w : Word) : Option Nat :=
  match w.splitOn '.' with
  | [a,b,c,d] => (octet a).bind fun a => (octet b).bind fun b => (octet c).bind fun c =>
      (octet d).map fun d => ((a*256 + b)*256 + c)*256 + d
  | _ => none

def prefixLen (w : Word) : Option Nat := (number w).filter (fun n => n ≤ 32)

/-- An address, or an address and the length of its leading part. -/
def net (w : Word) : Option Net :=
  match w.splitOn '/' with
  | [a] => (address a).map fun n => ⟨n,32⟩
  | [a,l] => (address a).bind fun n => (prefixLen l).map fun l => ⟨n,l⟩
  | _ => none

def moduleOf (w : Word) : Option Module :=
  if w = "tcp".toList then some .tcp else if w = "udp".toList then some .udp
  else if w = "icmp".toList then some .icmp else if w = "ah".toList then some .ah
  else if w = "esp".toList then some .esp else none

def protocolOf (w : Word) : Option Nat :=
  if w = "tcp".toList then some 6 else if w = "udp".toList then some 17
  else if w = "icmp".toList then some 1 else number w

def option (o w : Word) : Option Opt :=
  if o = "-s".toList then (net w).map .src
  else if o = "-d".toList then (net w).map .dst
  else if o = "-p".toList then (protocolOf w).map .proto
  else if o = "-m".toList then (moduleOf w).map .load
  else if o = "--sport".toList then (range w).map .sport
  else if o = "--dport".toList then (range w).map .dport
  else if o = "--icmp-type".toList then some (.icmpType w)
  else if o = "--ahspi".toList then (range w).map .ahspi
  else if o = "--espspi".toList then (range w).map .espspi
  else none

def options : List Word → Option (List Opt)
  | [] => some []
  | [_] => none
  | o::w::ws => (option o w).bind fun x => (options ws).map (x::·)

def words (s : Word) : List Word := LineText.lines (fun c => c = ' ') ' ' s

def ruleMatches (types : Types) (s : Word) (p : Packet) : Bool :=
  match options (words s) with
  | some os => os.all fun o => o.matches types p
  | none => false

def Means (types : Types) (s : Word) (f : Packet → Bool) : Prop :=
  ∃ os, options (words s) = some os ∧ ∀ p, (os.all fun o => o.matches types p) = f p

theorem Means.ruleMatches {types : Types} {s : Word} {f : Packet → Bool} (h : Means types s f)
    (p : Packet) : ruleMatches types s p = f p := by
  obtain ⟨os,ho,hf⟩ := h
  simp [PacketFilter.ruleMatches,ho,hf p]

theorem options_append {ws vs : List Word} {os : List Opt} (h : options ws = some os) :
    options (ws ++ vs) = (options vs).map (os ++ ·) := by
  induction ws using options.induct generalizing os with
  | case1 =>
    simp only [options,Option.some.injEq] at h
    subst h
    simp
  | case2 w => simp [options] at h
  | case3 o w ws ih =>
    simp only [options,Option.bind_eq_some_iff,Option.map_eq_some_iff] at h
    obtain ⟨x,hx,ys,hy,rfl⟩ := h
    simp only [List.cons_append,options,hx,Option.bind_some,ih hy]
    cases options vs <;> simp

theorem words_append (s t : Word) : words (s ++ ' ' :: t) = words s ++ words t :=
  LineText.lines_append_nl _ ' ' s t

theorem Means.append {types : Types} {s t : Word} {f g : Packet → Bool} (hs : Means types s f)
    (ht : Means types t g) : Means types (s ++ ' ' :: t) fun p => f p && g p := by
  obtain ⟨os,ho,hf⟩ := hs
  obtain ⟨vs,hv,hg⟩ := ht
  refine ⟨os ++ vs,?_,fun p => by rw [List.all_append,hf,hg]⟩
  rw [words_append,options_append ho,hv]
  rfl

structure IsWord (w : Word) : Prop where
  ne : w ≠ []
  black : ' ' ∉ w

theorem words_word {w : Word} (h : IsWord w) : words w = [w] := by
  have hs : LineText.strip (fun c => decide (c = ' ')) w = w := by
    rw [← LineText.Stripped,LineText.stripped_iff]
    constructor
    · intro c hc
      have hm := List.mem_of_mem_head? hc
      rw [decide_eq_true_eq]
      rintro rfl
      exact h.black hm
    · intro c hc
      have hm := List.mem_of_mem_getLast? hc
      rw [decide_eq_true_eq]
      rintro rfl
      exact h.black hm
  rw [words,LineText.lines_single _ ' ' h.black,hs,if_neg h.ne]

theorem means_option (types : Types) {o w : Word} {x : Opt} (ho : IsWord o) (hw : IsWord w)
    (h : option o w = some x) : Means types (o ++ ' ' :: w) (x.matches types) := by
  refine ⟨[x],?_,fun p => by simp⟩
  rw [words_append,words_word ho,words_word hw]
  simp [options,h]

theorem number_isWord {w : Word} {n : Nat} (h : number w = some n) :
    IsWord w ∧ ∀ c ∈ w, '0' ≤ c ∧ c ≤ '9' := by
  unfold number at h
  split at h
  · rename_i hw
    have hd : ∀ c ∈ w, '0' ≤ c ∧ c ≤ '9' := by
      intro c hc
      have := List.all_eq_true.mp hw.2 c hc
      simpa using this
    exact ⟨⟨hw.1,fun hb => absurd (hd _ hb) (by decide)⟩,hd⟩
  · simp at h

/-- A character of a text is a separator or lies in a piece. -/
theorem mem_of_mem_pieces (sep : Char) {s : Word} {c : Char} (h : c ∈ s) :
    c = sep ∨ ∃ r ∈ s.splitOn sep, c ∈ r := by
  induction s with
  | nil => simp at h
  | cons d s ih =>
    rw [List.splitOn_cons_eq_if_modifyHead]
    split
    · rename_i hd
      have hd' : d = sep := by simpa using hd
      rcases List.mem_cons.mp h with rfl | h
      · exact Or.inl hd'
      · rcases ih h with h | ⟨r,hr,hc⟩
        · exact Or.inl h
        · exact Or.inr ⟨r,List.mem_cons_of_mem _ hr,hc⟩
    · obtain ⟨v,vs,hv⟩ := List.exists_cons_of_ne_nil (List.splitOn_ne_nil sep s)
      rw [hv] at ih ⊢
      rw [List.modifyHead_cons]
      rcases List.mem_cons.mp h with rfl | h
      · exact Or.inr ⟨c::v,by simp,by simp⟩
      · rcases ih h with h | ⟨r,hr,hc⟩
        · exact Or.inl h
        · rcases List.mem_cons.mp hr with rfl | hr
          · exact Or.inr ⟨d::r,by simp,List.mem_cons_of_mem _ hc⟩
          · exact Or.inr ⟨r,List.mem_cons_of_mem _ hr,hc⟩

theorem pieces_chars {s : Word} {sep : Char} {P : Char → Prop}
    (h : ∀ r ∈ s.splitOn sep, ∀ c ∈ r, P c) : ∀ c ∈ s, c = sep ∨ P c := by
  intro c hc
  rcases mem_of_mem_pieces sep hc with hs | ⟨r,hr,hm⟩
  · exact Or.inl hs
  · exact Or.inr (h r hr c hm)

theorem octet_number {w : Word} {n : Nat} (h : octet w = some n) : number w = some n := by
  unfold octet at h
  exact (Option.filter_eq_some_iff.mp h).1

theorem address_chars {w : Word} {n : Nat} (h : address w = some n) :
    w ≠ [] ∧ ∀ c ∈ w, c = '.' ∨ '0' ≤ c ∧ c ≤ '9' := by
  unfold address at h
  split at h
  · rename_i a b c d hs
    simp only [Option.bind_eq_some_iff,Option.map_eq_some_iff] at h
    obtain ⟨x,hx,y,hy,z,hz,t,ht,-⟩ := h
    constructor
    · rintro rfl; simp at hs
    · apply pieces_chars
      rw [hs]
      intro r hr
      simp only [List.mem_cons,List.not_mem_nil,or_false] at hr
      rcases hr with rfl | rfl | rfl | rfl
      · exact (number_isWord (octet_number hx)).2
      · exact (number_isWord (octet_number hy)).2
      · exact (number_isWord (octet_number hz)).2
      · exact (number_isWord (octet_number ht)).2
  · simp at h

theorem address_isWord {w : Word} {n : Nat} (h : address w = some n) : IsWord w :=
  ⟨(address_chars h).1,fun hb => absurd ((address_chars h).2 _ hb) (by decide)⟩

theorem address_slash {w : Word} {n : Nat} (h : address w = some n) : '/' ∉ w :=
  fun hb => absurd ((address_chars h).2 _ hb) (by decide)

theorem prefixLen_number {w : Word} {n : Nat} (h : prefixLen w = some n) : number w = some n := by
  unfold prefixLen at h
  exact (Option.filter_eq_some_iff.mp h).1

theorem net_prefixLen {a l : Word} {n k : Nat} (ha : address a = some n) (hl : prefixLen l = some k) :
    net (a ++ '/' :: l) = some ⟨n,k⟩ := by
  have hs : '/' ∉ l := fun hb =>
    absurd ((number_isWord (prefixLen_number hl)).2 _ hb) (by decide)
  rw [net,List.splitOn_append_cons_self_of_not_mem (address_slash ha),List.splitOn_eq_singleton hs]
  simp [ha,hl]

theorem net_chars {w : Word} {n : Net} (h : net w = some n) :
    w ≠ [] ∧ ∀ c ∈ w, c = '/' ∨ c = '.' ∨ '0' ≤ c ∧ c ≤ '9' := by
  unfold net at h
  split at h
  · rename_i a hs
    obtain ⟨x,hx,-⟩ := Option.map_eq_some_iff.mp h
    constructor
    · rintro rfl; simp at hs; exact (address_chars hx).1 hs
    · apply pieces_chars
      rw [hs]
      intro r hr
      rw [List.mem_singleton.mp hr]
      exact (address_chars hx).2
  · rename_i a l hs
    simp only [Option.bind_eq_some_iff,Option.map_eq_some_iff] at h
    obtain ⟨x,hx,y,hy,-⟩ := h
    constructor
    · rintro rfl; simp at hs
    · apply pieces_chars
      rw [hs]
      intro r hr
      simp only [List.mem_cons,List.not_mem_nil,or_false] at hr
      rcases hr with rfl | rfl
      · exact (address_chars hx).2
      · exact fun c hc => Or.inr ((number_isWord (prefixLen_number hy)).2 c hc)
  · simp at h

theorem net_isWord {w : Word} {n : Net} (h : net w = some n) : IsWord w :=
  ⟨(net_chars h).1,fun hb => absurd ((net_chars h).2 _ hb) (by decide)⟩

theorem range_isWord {w : Word} {r : Range} (h : range w = some r) : IsWord w := by
  have key : ∀ ps : List Word, w.splitOn ':' = ps → ps ≠ [[]] → (∀ a ∈ ps, ' ' ∉ a) → IsWord w := by
    intro ps hs hne hb
    constructor
    · rintro rfl; simp at hs; exact hne hs.symm
    · intro hm
      rcases mem_of_mem_pieces ':' hm with h | ⟨r,hr,hc⟩
      · exact absurd h (by decide)
      · exact hb r (hs ▸ hr) hc
  unfold range at h
  split at h
  · rename_i a hs
    rw [Option.map_eq_some_iff] at h
    obtain ⟨x,hx,-⟩ := h
    have ha := (number_isWord hx).1
    exact key _ hs (by simpa using ha.ne) (by simpa using ha.black)
  · rename_i a b hs
    simp only [Option.bind_eq_some_iff,Option.map_eq_some_iff] at h
    obtain ⟨x,hx,y,hy,-⟩ := h
    exact key _ hs (by simp) (by simpa using ⟨(number_isWord hx).1.black,(number_isWord hy).1.black⟩)
  · simp at h

end PacketFilter
end Mybox
