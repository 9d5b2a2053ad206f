import Mybox.NatRows

/-! Version 3.0: the configuration of the traffic shaper. Every class of a device gets a file with its clients, and every
client names addresses with ports in a block for its destination and one for its source. -/
namespace Mybox
namespace ShaperClasses
open Php PolicyTables NatRows

/-- A row of `htb_class` that is on. -/
structure ClassRow where
  dev : Str
  bandwidth : Str
  climit : Str
  priority : Str

/-- A class as it is read back: the name of the interface, the device, and the values. -/
structure Head where
  dev : Str
  dev1 : Str
  bandwidth : Str
  climit : Str
  priority : Str
  deriving DecidableEq

/-- A row of `htb_client` that is on. -/
structure ClientRow where
  name : Str
  dev : Str
  bandwidth : Str
  climit : Str
  priority : Str
  src : Str
  service : Str
  dst : Str

/-- The tables, and the arrays of names: of devices, addresses of interfaces, networks and services. -/
structure World where
  classes : List ClassRow
  clients : List ClientRow
  namedev : OrdMap Str Str
  name2dev : OrdMap Str Str
  defnet : Table
  services : Table

/-- A line of a block. -/
structure Line where
  addr : Str
  ports : List Str
  deriving DecidableEq

structure Client where
  name : Str
  bandwidth : Str
  limit : Str
  priority : Str
  dst : Option (List Line)
  src : Option (List Line)
  deriving DecidableEq

/-- `/etc/htb/` with the name of the device, and what is written to it. -/
structure Conf where
  file : Str
  dev : Str
  bandwidth : Str
  limit : Str
  priority : Str
  clients : List Client
  deriving DecidableEq

/-- `preg_replace` of `/\s+/` by `_` -/
def underscores : Bool → Str → Str
  | _, [] => []
  | b, c::s => if regexSpace c then (if b then underscores true s else '_'::underscores true s) else c::underscores false s

/-- `preg_match` of `/\/\d\d$/`: a line break may follow. -/
def twoDigits (s : Str) : Bool :=
  match s.reverse with
  | '\n'::b::a:: '/'::_ => digit a && digit b
  | b::a:: '/'::_ => digit a && digit b
  | _ => false

def host (type ip : Str) : Str := if toNumber type = 2 then ip ++ "/32".toList else ip

def qosGetIp (w : World) (name : Str) : List Str :=
  let ip := w.name2dev.getD name []
  if ip ≠ [] then [if twoDigits ip then ip else ip ++ "/32".toList]
  else
    let e := w.defnet.getD name ∅
    if given e "name" then [host (field e "type") (field e "ip")]
    else if given e "group" then (members e).flatMap fun b => [host (b.getD "type" []) (b.getD "ip" [])]
    else []

/-- The ports, joined with blanks when they are written; one that is blank does not show. -/
def qosGetService (w : World) (name : Str) : List Str :=
  if name = any then []
  else
    let e := w.services.getD name ∅
    (if given e "name" then [field e "dport"]
      else if given e "group" then (members e).flatMap fun b => [b.getD "dport" []]
      else []).filter fun p => trim p ≠ []

/-- A block of a client; without addresses there is none. -/
def block (w : World) (name service : Str) : Option (List Line) :=
  if name = any then none
  else
    let l := qosGetIp w name
    if l = [] then none else some ((l.filter (· ≠ [])).map fun a => ⟨a,qosGetService w service⟩)

/-- A client is written with the priority of the class. -/
def client (w : World) (k : Head) (r : ClientRow) : Client where
  name := underscores false (trim r.name)
  bandwidth := trim r.bandwidth
  limit := trim r.climit
  priority := k.priority
  dst := block w (trim r.dst) (trim r.service)
  src := block w (trim r.src) (trim r.service)

def rows (w : World) (dev : Str) : List ClientRow := w.clients.filter fun r => r.dev = dev

def conf (w : World) (k : Head) : Conf where
  file := k.dev1
  dev := k.dev
  bandwidth := k.bandwidth
  limit := k.climit
  priority := k.priority
  clients := (rows w k.dev).map (client w k)

/-- `$qos_dev`: the fields of a class whose device is known, with bars between them. -/
def qosDev (w : World) : List Str := (w.classes.filter fun k => w.namedev.getD (trim k.dev) [] ≠ []).map fun k =>
  ['|'].intercalate [trim k.dev,w.namedev.getD (trim k.dev) [],trim k.bandwidth,trim k.climit,trim k.priority]

/-- `list(..)=preg_split("/\|/",$lx)`; a bar in a name moves what comes behind it. -/
def head (lx : Str) : Head :=
  let l := split '|' lx
  ⟨l.getD 0 [],l.getD 1 [],l.getD 2 [],l.getD 3 [],l.getD 4 []⟩

def heads (w : World) : List Head := (qosDev w).map head

/-- The files; a later class of the same device overwrites an earlier one. -/
def qosConfig (w : World) : OrdMap Str Conf := OrdMap.collect Conf.file ((heads w).map (conf w))

def Line.text (l : Line) : Str := "\t\t\t".toList ++ trim (l.addr ++ ' '::[' '].intercalate l.ports) ++ ";\n".toList

def blockText (name : Str) : Option (List Line) → Str
  | none => []
  | some ls => "\t\t".toList ++ name ++ " \x7b\n".toList ++ ls.flatMap Line.text ++ "\t\t\x7d;\n".toList

def Client.text (c : Client) : Str :=
  "\tclient ".toList ++ c.name ++ " \x7b\n\t\tbandwidth ".toList ++ c.bandwidth ++ ";\n\t\tlimit ".toList ++ c.limit ++
    ";\n\t\tburst 0;\n\t\tpriority ".toList ++ c.priority ++ ";\n".toList ++ blockText "dst" c.dst ++ blockText "src" c.src ++
    "\t\x7d;\n".toList

def Conf.text (c : Conf) : Str :=
  "class ".toList ++ c.dev ++ " \x7b\n\tbandwidth ".toList ++ c.bandwidth ++ ";\n\tlimit ".toList ++ c.limit ++
    ";\n\tburst 0;\n\tpriority ".toList ++ c.priority ++ ";\n".toList ++ c.clients.flatMap Client.text ++
    "\x7d;\nclass default \x7b bandwidth 8; \x7d;\n".toList

-- What the configuration is to say. A packet is described by its source, its destination and its port, as far as they
-- are named.
/-- A line of the block has the address and the port. -/
def Line.Matches (l : Line) (x p : List Str) : Prop := x = [l.addr] ∧ if l.ports = [] then p = [] else ∃ q ∈ l.ports, p = [q]

/-- What the blocks of a client name. -/
structure Client.Matches (c : Client) (s d p : List Str) : Prop where
  src : match c.src with
    | none => s = []
    | some ls => ∃ l ∈ ls, l.Matches s p
  dst : match c.dst with
    | none => d = []
    | some ls => ∃ l ∈ ls, l.Matches d p
  port : c.src = none → c.dst = none → p = []

section Spec

variable (w : World)

/-- An address of a definition, or of a member of a group: a network, or a host. -/
def DefAddress (n x : Str) : Prop := x ≠ [] ∧ ∃ e, w.defnet.get? n = some e ∧ ∃ u ∈ objects e,
  (toNumber (u "type") = 1 ∨ toNumber (u "type") = 2) ∧ x = host (u "type") (u "ip")

def Address (n x : Str) : Prop :=
  let ip := w.name2dev.getD n []
  if ip ≠ [] then x = if '/' ∈ ip then ip else ip ++ "/32".toList else DefAddress w n x

def Port (n p : Str) : Prop := trim p ≠ [] ∧ ∃ e, w.services.get? n = some e ∧ ∃ u ∈ objects e, p = u "dport"

/-- The class of a row, with a match set that is a product. -/
structure Class (r : ClientRow) (c : Client) : Prop where
  name : c.name = underscores false (trim r.name)
  bandwidth : c.bandwidth = trim r.bandwidth
  limit : c.limit = trim r.climit
  priority : c.priority = trim r.priority
  matched : ∀ s d p, c.Matches s d p ↔
    Part (Address w) (trim r.src) s ∧ Part (Address w) (trim r.dst) d ∧ Part (Port w) (trim r.service) p

def written (dev : Str) : List Client :=
  ((qosConfig w).entries.filter fun e => e.2.dev = dev).flatMap fun e => e.2.clients

def Exact : Prop := ∀ dev, List.Forall₂ (Class w) (rows w dev) (written w dev)

/-- The classes of a name, as far as no later one has their device. -/
def named (dev : Str) : List Head := (OrdMap.lastOf Head.dev1 (heads w)).filter fun k => k.dev = dev

/-- One class only has the name and stays. -/
def Parent (dev : Str) (k : Head) : Prop := named w dev = [k]

def Resolved (r : ClientRow) : Prop :=
  Known (Address w) (trim r.src) ∧ Known (Address w) (trim r.dst) ∧ Known (Port w) (trim r.service)

/-- The network of an interface has a prefix of two digits, and a definition has networks and hosts only. -/
def AddressFine (n : Str) : Prop :=
  n = any ∨ if w.name2dev.getD n [] ≠ [] then '/' ∈ w.name2dev.getD n [] ↔ twoDigits (w.name2dev.getD n []) = true
    else ∀ e, w.defnet.get? n = some e → ∀ u ∈ objects e,
      toNumber (u "type") = 1 ∨ toNumber (u "type") = 2 ∨ u "ip" = [] ∨ DefAddress w n (u "ip")

def Blank (n : Str) : Prop := n ≠ any ∧ AllEmpty (qosGetIp w n)

/-- The row has the priority of its class, and either its names resolve to addresses that are written as they are, and a
service comes with a source or a destination; or one of the names stands for empty addresses only. -/
def RowFine (k : Head) (r : ClientRow) : Prop :=
  trim r.priority = k.priority ∧
    ((Resolved w r ∧ AddressFine w (trim r.src) ∧ AddressFine w (trim r.dst) ∧
        ¬(trim r.service ≠ any ∧ trim r.src = any ∧ trim r.dst = any)) ∨
      (¬Resolved w r ∧ (Blank w (trim r.src) ∨ Blank w (trim r.dst))))

end Spec

section Lists

variable {w : World}

def listed (w : World) (n : Str) : List Str := if n = any then [] else qosGetIp w n

theorem block_eq (n service : Str) : block w n service = if listed w n = [] then none else
    some (((listed w n).filter (· ≠ [])).map fun a => ⟨a,qosGetService w service⟩) := by
  unfold block listed
  by_cases hn : n = any
  · rw [if_pos hn,if_pos hn,if_pos rfl]
  · rw [if_neg hn,if_neg hn]

theorem mem_ports {n q : Str} (hn : n ≠ any) : q ∈ qosGetService w n ↔ Port w n q := by
  unfold qosGetService Port
  rw [if_neg hn,List.mem_filter,decide_eq_true_eq,and_comm,mem_objects _ fun u => [u "dport"],mem_entry]
  simp only [List.mem_singleton]

theorem ports_any : qosGetService w any = [] := if_pos rfl

theorem ports_ne {n : Str} : ∀ q ∈ qosGetService w n, q ≠ [] := by
  intro q hq
  by_cases hn : n = any
  · rw [hn,ports_any] at hq
    cases hq
  · rintro rfl
    exact ((mem_ports hn).mp hq).1 rfl

theorem lists_port (n : Str) : Lists (Port w) n (qosGetService w n) :=
  ⟨fun h => h ▸ ports_any,fun h _ => mem_ports h,fun q hq he => hq.1 (by rw [he]; rfl)⟩

theorem line_matches {a service : Str} {x p : List Str} :
    Line.Matches ⟨a,qosGetService w service⟩ x p ↔ x = [a] ∧ p ∈ choices (qosGetService w service) := by
  unfold Line.Matches
  rw [mem_choices]
  refine and_congr_right fun _ => ?_
  by_cases h : qosGetService w service = []
  · simp [h]
  · simp only [h,if_false,false_and,false_or]
    exact exists_congr fun q => and_congr_right fun hq => (and_iff_right (ports_ne q hq)).symm

theorem side_iff {n service : Str} {x p : List Str} :
    (match block w n service with
      | none => x = []
      | some ls => ∃ l ∈ ls, l.Matches x p) ↔
    x ∈ choices (listed w n) ∧ (listed w n ≠ [] → p ∈ choices (qosGetService w service)) := by
  rw [block_eq,mem_choices]
  by_cases h : listed w n = []
  · simp [h]
  · rw [if_neg h]
    simp only [List.mem_map,List.mem_filter,decide_eq_true_eq,exists_exists_and_eq_and,line_matches,h,false_and,false_or,
      ne_eq,not_false_eq_true,true_imp_iff]
    constructor
    · rintro ⟨a,⟨ha,hne⟩,hx,hp⟩
      exact ⟨⟨a,ha,hne,hx⟩,hp⟩
    · rintro ⟨⟨a,ha,hne,hx⟩,hp⟩
      exact ⟨a,⟨ha,hne⟩,hx,hp⟩

def portsOf (w : World) (r : ClientRow) : List Str :=
  if listed w (trim r.src) = [] ∧ listed w (trim r.dst) = [] then [] else qosGetService w (trim r.service)

theorem matches_iff {k : Head} {r : ClientRow} {s d p : List Str} : (client w k r).Matches s d p ↔
    s ∈ choices (listed w (trim r.src)) ∧ d ∈ choices (listed w (trim r.dst)) ∧ p ∈ choices (portsOf w r) := by
  have hnone : ∀ n service, block w n service = none ↔ listed w n = [] := by
    intro n service
    rw [block_eq]
    split
    · next h => exact iff_of_true rfl h
    · next h => exact iff_of_false nofun h
  have hm : (client w k r).Matches s d p ↔
      (s ∈ choices (listed w (trim r.src)) ∧ (listed w (trim r.src) ≠ [] → p ∈ choices (qosGetService w (trim r.service)))) ∧
      (d ∈ choices (listed w (trim r.dst)) ∧ (listed w (trim r.dst) ≠ [] → p ∈ choices (qosGetService w (trim r.service)))) ∧
      (listed w (trim r.src) = [] → listed w (trim r.dst) = [] → p = []) := by
    rw [← side_iff,← side_iff,← hnone _ (trim r.service),← hnone _ (trim r.service)]
    exact ⟨fun h => ⟨h.src,h.dst,h.port⟩,fun ⟨h1,h2,h3⟩ => ⟨h1,h2,h3⟩⟩
  have hnil : p ∈ choices [] ↔ p = [] := List.mem_singleton
  rw [hm,portsOf]
  by_cases hs : listed w (trim r.src) = [] <;> by_cases hd : listed w (trim r.dst) = [] <;>
    simp only [hs,hd,ne_eq,not_true_eq_false,not_false_eq_true,false_imp_iff,true_imp_iff,and_true,and_self,if_true,if_false,
      and_false,imp_true_iff,hnil]
  · exact ⟨fun ⟨⟨hs,hp⟩,hd⟩ => ⟨hs,hd,hp⟩,fun ⟨hs,hd,hp⟩ => ⟨⟨hs,hp⟩,hd⟩⟩
  · exact ⟨fun ⟨⟨hs,hp⟩,hd,_⟩ => ⟨hs,hd,hp⟩,fun ⟨hs,hd,hp⟩ => ⟨⟨hs,hp⟩,hd,hp⟩⟩

theorem mem_qosGetIp {n x : Str} (hd : w.name2dev.getD n [] = []) :
    x ∈ qosGetIp w n ↔ ∃ e, w.defnet.get? n = some e ∧ ∃ u ∈ objects e, x = host (u "type") (u "ip") := by
  unfold qosGetIp
  dsimp only
  rw [if_neg (not_not.mpr hd),mem_objects _ fun u => [host (u "type") (u "ip")],mem_entry]
  simp only [List.mem_singleton]

theorem defAddress_mem {n x : Str} (hd : w.name2dev.getD n [] = []) (h : DefAddress w n x) : x ∈ qosGetIp w n := by
  obtain ⟨-,e,he,u,hu,-,hx⟩ := h
  exact (mem_qosGetIp hd).mpr ⟨e,he,u,hu,hx⟩

theorem listed_ne {n x : Str} (hn : n ≠ any) (h : Address w n x) : listed w n ≠ [] := by
  unfold Address at h
  unfold listed
  rw [if_neg hn]
  by_cases hd : w.name2dev.getD n [] = []
  · rw [if_neg (not_not.mpr hd)] at h
    exact List.ne_nil_of_mem (defAddress_mem hd h)
  · unfold qosGetIp
    dsimp only
    rw [if_pos hd]
    exact List.cons_ne_nil _ _

theorem listed_eq_nil {n : Str} (hk : Known (Address w) n) : listed w n = [] ↔ n = any := by
  constructor
  · intro h
    by_contra hn
    obtain ⟨x,hx⟩ := hk.resolve_left hn
    exact listed_ne hn hx h
  · exact fun h => if_pos h

theorem twoDigits_slash {s : Str} (h : twoDigits s = true) : '/' ∈ s := by
  unfold twoDigits at h
  split at h
  · next hs =>
    rw [← List.mem_reverse,hs]
    simp
  · next hs =>
    rw [← List.mem_reverse,hs]
    simp
  · cases h

/-- The addresses of a name are written as they are just when they are fine. -/
theorem address_choices {n : Str} (hk : Known (Address w) n) :
    (∀ ms, ms ∈ choices (listed w n) ↔ Part (Address w) n ms) ↔ AddressFine w n := by
  unfold AddressFine
  by_cases hn : n = any
  · refine iff_of_true (fun ms => ?_) (Or.inl hn)
    rw [listed,if_pos hn,NatRows.Part,if_pos hn]
    exact List.mem_singleton
  rw [or_iff_right hn]
  have hne : listed w n ≠ [] := fun h => hn ((listed_eq_nil hk).mp h)
  have hmem : (∀ ms, ms ∈ choices (listed w n) ↔ Part (Address w) n ms) ↔
      ∀ x, (x ∈ listed w n ∧ x ≠ []) ↔ Address w n x := by
    simp only [mem_choices,NatRows.Part,hn,hne,if_false,false_and,false_or]
    constructor
    · intro h x
      have hx := h [x]
      simpa [and_comm] using hx
    · intro h ms
      refine exists_congr fun x => ?_
      rw [← and_assoc,h x]
  rw [hmem]
  unfold listed Address
  rw [if_neg hn]
  by_cases hd : w.name2dev.getD n [] = []
  · simp only [if_neg (not_not.mpr hd),mem_qosGetIp hd]
    constructor
    · intro h e he u hu
      by_cases h1 : toNumber (u "type") = 1
      · exact Or.inl h1
      by_cases h2 : toNumber (u "type") = 2
      · exact Or.inr (Or.inl h2)
      by_cases h3 : u "ip" = []
      · exact Or.inr (Or.inr (Or.inl h3))
      · exact Or.inr (Or.inr (Or.inr ((h _).mp ⟨⟨e,he,u,hu,by rw [host,if_neg h2]⟩,h3⟩)))
    · intro h x
      constructor
      · rintro ⟨⟨e,he,u,hu,rfl⟩,hx⟩
        rcases h e he u hu with h1 | h2 | h3 | h4
        · exact ⟨hx,e,he,u,hu,Or.inl h1,rfl⟩
        · exact ⟨hx,e,he,u,hu,Or.inr h2,rfl⟩
        · by_cases h2 : toNumber (u "type") = 2
          · exact ⟨hx,e,he,u,hu,Or.inr h2,rfl⟩
          · rw [host,if_neg h2] at hx
            exact absurd h3 hx
        · by_cases h2 : toNumber (u "type") = 2
          · exact ⟨hx,e,he,u,hu,Or.inr h2,rfl⟩
          · rwa [host,if_neg h2]
      · rintro ⟨hx,e,he,u,hu,-,rfl⟩
        exact ⟨⟨e,he,u,hu,rfl⟩,hx⟩
  · simp only [if_pos hd]
    unfold qosGetIp
    dsimp only
    rw [if_pos hd]
    have happ : w.name2dev.getD n [] ≠ w.name2dev.getD n [] ++ "/32".toList := fun h => by
      have hl := congrArg List.length h
      rw [List.length_append] at hl
      exact absurd hl (by simp)
    simp only [List.mem_singleton]
    by_cases ht : twoDigits (w.name2dev.getD n []) = true
    · have hs := twoDigits_slash ht
      rw [if_pos ht,if_pos hs]
      refine iff_of_true (fun x => and_iff_left_of_imp ?_) (iff_of_true hs ht)
      rintro rfl
      exact hd
    · rw [if_neg ht]
      by_cases hs : '/' ∈ w.name2dev.getD n []
      · rw [if_pos hs]
        refine iff_of_false (fun h => ?_) fun h => ht (h.mp hs)
        exact happ ((h _).mpr rfl).1
      · rw [if_neg hs]
        refine iff_of_true (fun x => and_iff_left_of_imp ?_) (iff_of_false hs ht)
        rintro rfl
        simp

/-- Two products are the same, if one of them is not empty, just when their factors are. -/
theorem product_iff {α β γ : Type} {A A' : α → Prop} {B B' : β → Prop} {C C' : γ → Prop} (ha : ∃ a, A' a) (hb : ∃ b, B' b)
    (hc : ∃ c, C' c) : (∀ a b c, A a ∧ B b ∧ C c ↔ A' a ∧ B' b ∧ C' c) ↔
      (∀ a, A a ↔ A' a) ∧ (∀ b, B b ↔ B' b) ∧ ∀ c, C c ↔ C' c := by
  obtain ⟨a₀,ha⟩ := ha
  obtain ⟨b₀,hb⟩ := hb
  obtain ⟨c₀,hc⟩ := hc
  constructor
  · intro h
    obtain ⟨ha₁,hb₁,hc₁⟩ := (h a₀ b₀ c₀).mpr ⟨ha,hb,hc⟩
    refine ⟨fun a => ?_,fun b => ?_,fun c => ?_⟩
    · exact ⟨fun hx => ((h a b₀ c₀).mp ⟨hx,hb₁,hc₁⟩).1,fun hx => ((h a b₀ c₀).mpr ⟨hx,hb,hc⟩).1⟩
    · exact ⟨fun hx => ((h a₀ b c₀).mp ⟨ha₁,hx,hc₁⟩).2.1,fun hx => ((h a₀ b c₀).mpr ⟨ha,hx,hc⟩).2.1⟩
    · exact ⟨fun hx => ((h a₀ b₀ c).mp ⟨ha₁,hb₁,hx⟩).2.2,fun hx => ((h a₀ b₀ c).mpr ⟨ha,hb,hx⟩).2.2⟩
  · rintro ⟨h1,h2,h3⟩ a b c
    rw [h1,h2,h3]

/-- The ports are written unless neither address is. -/
theorem ports_choices {r : ClientRow} (hr : Resolved w r) :
    (∀ p, p ∈ choices (portsOf w r) ↔ Part (Port w) (trim r.service) p) ↔
      ¬(trim r.service ≠ any ∧ trim r.src = any ∧ trim r.dst = any) := by
  obtain ⟨hs,hd,hv⟩ := hr
  have hsrv := (lists_port (w:=w) (trim r.service)).choices hv
  have hnil : listed w (trim r.src) = [] ∧ listed w (trim r.dst) = [] ↔ trim r.src = any ∧ trim r.dst = any :=
    and_congr (listed_eq_nil hs) (listed_eq_nil hd)
  unfold portsOf
  by_cases hb : trim r.src = any ∧ trim r.dst = any
  · rw [if_pos (hnil.mpr hb),and_iff_left hb,not_not]
    constructor
    · intro h
      by_contra hn
      have hp := (h []).mp (List.mem_singleton_self _)
      rw [NatRows.Part,if_neg hn] at hp
      obtain ⟨q,-,he⟩ := hp
      cases he
    · intro hn p
      rw [NatRows.Part,if_pos hn]
      exact List.mem_singleton
  · rw [if_neg fun h => hb (hnil.mp h)]
    exact iff_of_true hsrv fun h => hb h.2

theorem blank_iff {n : Str} : AllEmpty (listed w n) ↔ Blank w n := by
  unfold Blank listed
  by_cases hn : n = any
  · rw [if_pos hn]
    exact iff_of_false (fun h => h.1 rfl) fun h => h.1 hn
  · rw [if_neg hn,and_iff_right hn]

/-- The match set of a client is the product that is asked for. -/
theorem matched_iff {k : Head} {r : ClientRow} : (∀ s d p, (client w k r).Matches s d p ↔
      Part (Address w) (trim r.src) s ∧ Part (Address w) (trim r.dst) d ∧ Part (Port w) (trim r.service) p) ↔
    (Resolved w r ∧ AddressFine w (trim r.src) ∧ AddressFine w (trim r.dst) ∧
        ¬(trim r.service ≠ any ∧ trim r.src = any ∧ trim r.dst = any)) ∨
      (¬Resolved w r ∧ (Blank w (trim r.src) ∨ Blank w (trim r.dst))) := by
  simp only [matches_iff]
  by_cases hr : Resolved w r
  · rw [or_iff_left fun h => h.1 hr,and_iff_right hr,product_iff hr.1.part hr.2.1.part hr.2.2.part,address_choices hr.1,
      address_choices hr.2.1,ports_choices hr]
  · rw [or_iff_right fun h => hr h.1,and_iff_right hr,← blank_iff,← blank_iff,← choices_eq_nil,← choices_eq_nil]
    have hno : ∀ s d p, ¬(Part (Address w) (trim r.src) s ∧ Part (Address w) (trim r.dst) d ∧
        Part (Port w) (trim r.service) p) := fun s d p h => hr ⟨h.1.known,h.2.1.known,h.2.2.known⟩
    simp only [iff_false_intro (hno _ _ _),iff_false]
    constructor
    · intro h
      by_contra hn
      obtain ⟨hs,hd⟩ := not_or.mp hn
      obtain ⟨s,hs⟩ := List.exists_mem_of_ne_nil _ hs
      obtain ⟨d,hd⟩ := List.exists_mem_of_ne_nil _ hd
      obtain ⟨p,hp⟩ : ∃ p, p ∈ choices (portsOf w r) := by
        refine NatRows.exists_choice _ fun q hq => ?_
        unfold portsOf at hq
        split at hq
        · cases hq
        · exact ports_ne q hq
      exact h s d p ⟨hs,hd,hp⟩
    · rintro (h | h) s d p ⟨hs,hd,-⟩
      · rw [h] at hs
        exact List.not_mem_nil hs
      · rw [h] at hd
        exact List.not_mem_nil hd

end Lists

section Files

variable {w : World}

theorem Parent.unique {dev : Str} {k k' : Head} (h : Parent w dev k) (h' : Parent w dev k') : k = k' :=
  List.singleton_inj.mp (h.symm.trans h')

end Files

/-- A class with priority 0 and a client with priority 1. -/
def office : World where
  classes := [⟨"eth","1024","1024","0"⟩]
  clients := [⟨"web","eth","64","128","1","any","any","any"⟩]
  namedev := (∅ : OrdMap Str Str).set "eth" "eth0"
  name2dev := ∅
  defnet := ∅
  services := ∅

end ShaperClasses
end Mybox
