import Mybox.Columns
import Mybox.DefinitionArrays
import Mybox.NegatedMatches

/-! Version 3.0: what the rules of a filter row match. Names stand for sets of addresses or of protocols and ports;
`policy_filter` lists the matches of each name and writes a rule for every choice of them. -/
namespace Mybox
namespace FilterRows
open Php PolicyTables Columns
open PacketFilter (Frame Payload Setting Unbroken Tests Met Applies Starts Holds Range)

inductive Side
  | src
  | dst

def Side.opt : Side → PolicyTables.Opt
  | src => .src
  | dst => .dst

abbrev Side.Point : Side → Type
  | src => ℕ × List ℕ
  | dst => ℕ

def Side.address : (o : Side) → o.Point → ℕ
  | src, p => p.1
  | dst, p => p

def Side.place : (o : Side) → Frame → o.Point
  | src, f => (f.packet.src,f.mac)
  | dst, f => f.packet.dst

def netObject (o : Side) (ip : Str) : Option (Set o.Point) := (PacketFilter.net ip).map fun n => {p | n.has (o.address p)}

/-- The object of a definition in its place; a hardware address is no destination. -/
def addressObjects (o : Side) (type ip : Str) : Objects o.Point :=
  if toNumber type = 3 then [(PacketFilter.addressRange ip).map fun r => {p | r.has (o.address p)}]
  else if toNumber type = 4 then
    match o with
    | .src => [(PacketFilter.hardware ip).map fun m => {p : ℕ × List ℕ | p.2 = m}]
    | .dst => []
  else [netObject o ip]

/-- Any word is taken for the name of a message type. -/
def icmpObject (g : Setting) (etc : Str) : Option (Set Payload) :=
  if PacketFilter.isArgument etc then some {x | ∃ t c, x = .icmp t c ∧ g.types etc t c} else none

def serviceObjects (g : Setting) (p dport sport etc : Str) : Objects Payload :=
  let ports (k : ℕ → ℕ → Payload) : Option (Set Payload) :=
    (PacketFilter.range sport).bind fun s => (PacketFilter.range dport).map fun d =>
      {x | ∃ a b, x = k a b ∧ s.has a ∧ d.has b}
  let spis (k : ℕ → Payload) : Option (Set Payload) := (PacketFilter.range etc).map fun r => {x | ∃ n, x = k n ∧ r.has n}
  if proto p = ("TCP" : Str) then [ports .tcp]
  else if proto p = ("UDP" : Str) then [ports .udp]
  else if proto p = ("TCP/UDP" : Str) then [ports .tcp,ports .udp]
  else if proto p = ("ICMP" : Str) then [icmpObject g etc]
  else if proto p = ("IP" : Str) then [(PacketFilter.protocolNumber g etc).map fun n => {x | n = 0 ∨ x.proto = n}]
  else if proto p = ("ESP" : Str) then [spis .esp]
  else if proto p = ("AH" : Str) then [spis .ah]
  else []

/-- Definitions have names, no member of a group is named as a column is, and no field has a blank or a quotation
mark in it. -/
structure Tables where
  networks : List Network
  netGroups : List Group
  services : List Service
  srvGroups : List Group
  interfaces : List Interface
  times : List TimeDef
  networks_named : ∀ d ∈ networks, d.name ≠ []
  services_named : ∀ d ∈ services, d.name ≠ []
  netGroups_named : ∀ g ∈ netGroups, g.name ≠ []
  srvGroups_named : ∀ g ∈ srvGroups, g.name ≠ []
  net_members : ∀ g ∈ netGroups, ∀ a ∈ split ',' g.members, a ∉ reserved ["type","ip"]
  srv_members : ∀ g ∈ srvGroups, ∀ a ∈ split ',' g.members, a ∉ reserved ["proto","dport","sport","etc"]
  networks_unbroken : ∀ d ∈ networks, Unbroken d.ip
  services_unbroken : ∀ d ∈ services, Unbroken d.dport ∧ Unbroken d.sport ∧ Unbroken d.etc
  interfaces_unbroken : ∀ r ∈ interfaces, Unbroken r.ip ∧ Unbroken r.pref

variable (t : Tables)

def Tables.arrays : Arrays where
  deftime := deftimesArray t.times
  defnet := defnetworkArray t.networks t.netGroups
  defservice := defservicesArray t.services t.srvGroups
  defservice4nat := defservices4natArray t.services t.srvGroups
  namedev := name2devArray t.interfaces

def Tables.device (n : Str) : Option Str := deviceOf t.interfaces n

def Tables.network (n : Str) : Option Network := networkOf t.networks n

def Tables.service (n : Str) : Option Service := (OrdMap.collect Service.name t.services).get? n

def Tables.networkObjects (o : Side) (n : Str) : Option (Objects o.Point) :=
  (t.network n).map fun d => addressObjects o d.type d.ip

def Tables.serviceObjects (g : Setting) (n : Str) : Option (Objects Payload) :=
  (t.service n).map fun d => FilterRows.serviceObjects g d.protocol d.dport d.sport d.etc

def Tables.addresses (o : Side) : Naming Str o.Point where
  all := "any"
  objects n := ((t.device n).map fun ip => [netObject o ip]).or (t.networkObjects o n)
  member n m := ∃ g ∈ t.netGroups, g.name = n ∧ m ∈ split ',' g.members

def Tables.ports (g : Setting) : Naming Str Payload where
  all := "any"
  objects := t.serviceObjects g
  member n m := ∃ gr ∈ t.srvGroups, gr.name = n ∧ m ∈ split ',' gr.members

/-- The objects of the members taken over into the array; of a group there is nothing that can be read. -/
def Tables.netMembers (o : Side) (n : Str) : Objects o.Point :=
  (takenOver (fun a => (t.network a).isSome) n [] t.netGroups).flatMap fun a => (t.networkObjects o a).getD [none]

def Tables.srvMembers (g : Setting) (n : Str) : Objects Payload :=
  (takenOver (fun a => (t.service a).isSome) n [] t.srvGroups).flatMap fun a => (t.serviceObjects g a).getD []

def Tables.listed (o : Side) (n : Str) : Objects o.Point :=
  if n = ("any" : Str) then [] else ((t.addresses o).objects n).getD (t.netMembers o n)

def Tables.listedPorts (g : Setting) (n : Str) : Objects Payload :=
  if n = ("any" : Str) then [] else (t.serviceObjects g n).getD (t.srvMembers g n)

def Selected (g : Setting) (r : FilterRow) (f : Frame) : Prop :=
  Side.src.place f ∈ wanted r.srcn ((t.addresses .src).extent (trim r.src)) ∧
  Side.dst.place f ∈ wanted r.dstn ((t.addresses .dst).extent (trim r.dst)) ∧
  f.packet.payload ∈ wanted false ((t.ports g).extent (trim r.service))

/-- The chain of the inbound or of the outbound rules. -/
def chainOf (outbound : Bool) : Str := if outbound then "ACL1000-08" else "ACL1000-07"

def Matched (g : Setting) (outbound : Bool) (r : FilterRow) (f : Frame) : Prop :=
  ∃ d ∈ filterDrafts t.arrays (chainOf outbound) r, Applies g (d.text []) f

variable {t} {g : Setting}

theorem met_passes {α P : Type} {x : Option α} {k : α → Frame → Bool} {S : α → Set P} {q : Frame → P}
    (h : ∀ a f, k a f = true ↔ q f ∈ S a) (f : Frame) :
    (Met (x.map k) f ↔ Passes false (x.map S) (q f)) ∧
    (Met ((x.map k).map fun c f => !c f) f ↔ Passes true (x.map S) (q f)) := by
  cases x with
  | none => simp [Met,Passes]
  | some a => simp [Met,Passes,h a f,← Bool.not_eq_true]

def Renders (g : Setting) {P : Type} (q : Frame → P) (neg : Bool) (s : Str) (x : Option (Set P)) : Prop :=
  s ≠ [] ∧ Tests g s fun f => Passes neg x (q f)

theorem renders_option {α P : Type} {x : Option α} {k : α → Frame → Bool} {S : α → Set P} {q : Frame → P}
    {o w : Str} (ho : PacketFilter.IsOption o) (hw : Unbroken w) (hc : PacketFilter.condition g o w = x.map k)
    (hn : o ≠ "-m".toList ∧ o ≠ "-j".toList) (h : ∀ a f, k a f = true ↔ q f ∈ S a) (neg : Bool) :
    Renders g q neg (o ++ ' '::negation neg ++ w) (x.map S) := by
  cases neg with
  | false =>
    refine ⟨by simp,?_⟩
    have ht := PacketFilter.tests_option (g:=g) ho hw
    rw [hc] at ht
    simpa [negation] using ht.congr fun f => (met_passes h f).1
  | true =>
    refine ⟨by simp,?_⟩
    have ht := PacketFilter.tests_marked (g:=g) ho hw
    rw [PacketFilter.opposite,if_neg (not_or.mpr hn),hc] at ht
    exact ht.congr fun f => (met_passes h f).2

theorem tests_module {m : Str} (hm : Unbroken m) (h : PacketFilter.condition g "-m".toList m = some fun _ => true) :
    Tests g ("-m".toList ++ ' '::m) fun _ => True := by
  have ht := PacketFilter.tests_option (g:=g) (o:="-m".toList) (by decide) hm
  rw [h] at ht
  exact ht.congr fun f => iff_of_true ⟨_,rfl,rfl⟩ trivial

theorem Renders.module {P : Type} {q : Frame → P} {neg : Bool} {m s : Str} {x : Option (Set P)} (hm : Unbroken m)
    (h : PacketFilter.condition g "-m".toList m = some fun _ => true) (hs : Renders g q neg s x) :
    Renders g q neg ("-m".toList ++ ' '::m ++ ' '::s) x :=
  ⟨by simp,((tests_module hm h).append hs.2).congr fun f => by rw [true_and]⟩

/-- A range, with the mark before its option. -/
theorem renders_range {P : Type} {k : Range → Frame → Bool} {S : Range → Set P} {q : Frame → P} {o w : Str}
    (ho : PacketFilter.IsOption o) (hw : Unbroken w)
    (hc : PacketFilter.condition g o w = (PacketFilter.addressRange w).map k)
    (hn : o ≠ "-m".toList ∧ o ≠ "-j".toList) (h : ∀ a f, k a f = true ↔ q f ∈ S a) (neg : Bool) :
    Renders g q neg ("-m iprange ".toList ++ negation neg ++ (o ++ ' '::w)) ((PacketFilter.addressRange w).map S) := by
  have hm : PacketFilter.condition g "-m".toList "iprange".toList = some fun _ => true := by
    simp [PacketFilter.condition,PacketFilter.isArgument,PacketFilter.test,PacketFilter.freeModules,
      PacketFilter.Test.matches]
  cases neg with
  | false =>
    have hr := (renders_option ho hw hc hn h false).module (m:="iprange".toList) (by decide) hm
    simpa [negation] using hr
  | true =>
    have hmet : Met (PacketFilter.condition g "-m".toList "iprange".toList) = fun _ => True := by
      rw [hm]
      funext f
      exact eq_true ⟨_,rfl,rfl⟩
    have ht := PacketFilter.tests_unless (g:=g) (m:="iprange".toList) (by decide) hmet ho hw
    rw [PacketFilter.opposite,if_neg (not_or.mpr hn),hc] at ht
    refine ⟨by simp,?_⟩
    simpa [negation,Str.of_ascii] using ht.congr fun f => (met_passes h f).2

structure Rendered (g : Setting) {P : Type} (q : Frame → P) (neg : Bool) (l : List Str) (os : Objects P) : Prop where
  texts : ∀ s ∈ l, ∃ x ∈ os, Renders g q neg s x
  objects : ∀ x ∈ os, ∃ s ∈ l, Renders g q neg s x

section Rendered

variable {P : Type} {q : Frame → P} {neg : Bool}

theorem rendered_nil : Rendered g q neg [] [] := ⟨by simp,by simp⟩

theorem Renders.single {s : Str} {x : Option (Set P)} (h : Renders g q neg s x) : Rendered g q neg [s] [x] :=
  ⟨by simpa using h,by simpa using h⟩

theorem Rendered.ite {c : Prop} [Decidable c] {l m : List Str} {os us : Objects P} (h : Rendered g q neg l os)
    (hh : Rendered g q neg m us) : Rendered g q neg (if c then l else m) (if c then os else us) := by
  split
  · exact h
  · exact hh

theorem Rendered.append {l m : List Str} {os us : Objects P} (h : Rendered g q neg l os)
    (hh : Rendered g q neg m us) : Rendered g q neg (l ++ m) (os ++ us) := by
  constructor
  · intro s hs
    rcases List.mem_append.mp hs with hs | hs
    · obtain ⟨x,hx,hr⟩ := h.texts s hs
      exact ⟨x,List.mem_append_left _ hx,hr⟩
    · obtain ⟨x,hx,hr⟩ := hh.texts s hs
      exact ⟨x,List.mem_append_right _ hx,hr⟩
  · intro x hx
    rcases List.mem_append.mp hx with hx | hx
    · obtain ⟨s,hs,hr⟩ := h.objects x hx
      exact ⟨s,List.mem_append_left _ hs,hr⟩
    · obtain ⟨s,hs,hr⟩ := hh.objects x hx
      exact ⟨s,List.mem_append_right _ hs,hr⟩

theorem Rendered.flatMap {α : Type} {as : List α} {f : α → List Str} {k : α → Objects P}
    (h : ∀ a ∈ as, Rendered g q neg (f a) (k a)) : Rendered g q neg (as.flatMap f) (as.flatMap k) := by
  induction as with
  | nil => exact rendered_nil
  | cons a as ih =>
    rw [List.flatMap_cons,List.flatMap_cons]
    exact (h a (by simp)).append (ih fun b hb => h b (List.mem_cons_of_mem _ hb))

theorem Rendered.congr {l m : List Str} {os : Objects P} (h : Rendered g q neg l os) (he : ∀ s, s ∈ l ↔ s ∈ m) :
    Rendered g q neg m os := by
  refine ⟨fun s hs => h.texts s ((he s).mpr hs),fun x hx => ?_⟩
  obtain ⟨s,hs,hr⟩ := h.objects x hx
  exact ⟨s,(he s).mp hs,hr⟩

end Rendered

def netText (o : Side) (eq ip : Str) : Str :=
  match o with
  | .src => "-s ".toList ++ eq ++ ip
  | .dst => "-d ".toList ++ eq ++ ip

theorem renders_net (o : Side) (neg : Bool) {ip : Str} (h : Unbroken ip) :
    Renders g o.place neg (netText o (negation neg) ip) (netObject o ip) := by
  cases o with
  | src =>
    have hr := renders_option (S:=fun n => {p : Side.src.Point | n.has (Side.src.address p)}) (q:=Side.src.place)
      (by decide) h (PacketFilter.condition_src g ip) (by decide) (fun _ _ => Iff.rfl) neg
    simpa [netText,netObject] using hr
  | dst =>
    have hr := renders_option (S:=fun n => {p : Side.dst.Point | n.has (Side.dst.address p)}) (q:=Side.dst.place)
      (by decide) h (PacketFilter.condition_dst g ip) (by decide) (fun _ _ => Iff.rfl) neg
    simpa [netText,netObject] using hr

theorem rendered_address (o : Side) (neg : Bool) (type : Str) {ip : Str} (h : Unbroken ip) :
    Rendered g o.place neg (addressMatches o.opt (negation neg) type ip) (addressObjects o type ip) := by
  unfold addressMatches addressObjects
  by_cases h₃ : toNumber type = 3
  · rw [if_pos h₃,if_pos h₃]
    cases o with
    | src =>
      have hr := renders_range (S:=fun r => {p : Side.src.Point | r.has (Side.src.address p)}) (q:=Side.src.place)
        (by decide) h (PacketFilter.condition_srcRange g ip) (by decide) (fun _ _ => Iff.rfl) neg
      simpa [Side.opt] using hr.single
    | dst =>
      have hr := renders_range (S:=fun r => {p : Side.dst.Point | r.has (Side.dst.address p)}) (q:=Side.dst.place)
        (by decide) h (PacketFilter.condition_dstRange g ip) (by decide) (fun _ _ => Iff.rfl) neg
      simpa [Side.opt] using hr.single
  · rw [if_neg h₃,if_neg h₃]
    by_cases h₄ : toNumber type = 4
    · rw [if_pos h₄,if_pos h₄]
      cases o with
      | src =>
        have hm : PacketFilter.condition g "-m".toList "mac".toList = some fun _ => true := by
          simp [PacketFilter.condition,PacketFilter.isArgument,PacketFilter.test,PacketFilter.freeModules,
            PacketFilter.Test.matches]
        have hr := (renders_option (S:=fun m => {p : Side.src.Point | p.2 = m}) (q:=Side.src.place) (by decide) h
          (PacketFilter.condition_mac g ip) (by decide) (fun _ _ => decide_eq_true_iff) neg).module
          (m:="mac".toList) (by decide) hm
        simpa [Side.opt] using hr.single
      | dst => exact rendered_nil
    · rw [if_neg h₄,if_neg h₄]
      have hr := (renders_net (g:=g) o neg h).single
      cases o <;> exact hr

def payload (f : Frame) : Payload := f.packet.payload

theorem renders_ports {w : Str} {n : ℕ} {m : PacketFilter.Module} {k : ℕ → ℕ → Payload} {sport dport : Str}
    (hw : Unbroken w) (hs : Unbroken sport) (hd : Unbroken dport)
    (hp : PacketFilter.condition g "-p".toList w = some fun f => n = 0 || f.packet.payload.proto = n)
    (hm : PacketFilter.condition g "-m".toList w = some fun f => m.sees f.packet.payload)
    (h : ∀ (s d : Range) (f : Frame), (n = 0 || f.packet.payload.proto = n) = true ∧ m.sees f.packet.payload = true ∧
      (PacketFilter.Opt.sport s).matches g.types f.packet = true ∧
      (PacketFilter.Opt.dport d).matches g.types f.packet = true ↔
        ∃ a b, f.packet.payload = k a b ∧ s.has a ∧ d.has b) :
    Renders g payload false ("-p ".toList ++ w ++ " -m ".toList ++ w ++ " --sport ".toList ++ sport ++
      " --dport ".toList ++ dport)
      ((PacketFilter.range sport).bind fun s => (PacketFilter.range dport).map fun d =>
        {x | ∃ a b, x = k a b ∧ s.has a ∧ d.has b}) := by
  refine ⟨by simp,?_⟩
  have ht := ((PacketFilter.tests_option (g:=g) (o:="-p".toList) (by decide) hw).append
    ((PacketFilter.tests_option (g:=g) (o:="-m".toList) (by decide) hw).append
    ((PacketFilter.tests_option (g:=g) (o:="--sport".toList) (by decide) hs).append
    (PacketFilter.tests_option (g:=g) (o:="--dport".toList) (by decide) hd))))
  rw [hp,hm,PacketFilter.condition_sport,PacketFilter.condition_dport] at ht
  have ht' := ht.congr (u:=fun f => Passes false ((PacketFilter.range sport).bind fun s =>
    (PacketFilter.range dport).map fun d => {x | ∃ a b, x = k a b ∧ s.has a ∧ d.has b}) (payload f)) fun f => by
      cases PacketFilter.range sport with
      | none => simp [Met,Passes]
      | some s =>
        cases PacketFilter.range dport with
        | none => simp [Met,Passes]
        | some d =>
          have hh := h s d f
          simp only [Met,Passes,payload,Option.map_some,Option.bind_some,Option.some.injEq,exists_eq_left',
            Set.mem_ofPred_eq,iff_true,hh]
  simpa using ht'

/-- A header of one module, of which one option looks at a field. -/
theorem renders_header {w o etc : Str} {x : Option (Set Payload)} (hw : Unbroken w) (ho : PacketFilter.IsOption o)
    (he : Unbroken etc)
    (h : ∀ f, Met (PacketFilter.condition g "-p".toList w) f ∧ Met (PacketFilter.condition g "-m".toList w) f ∧
      Met (PacketFilter.condition g o etc) f ↔ Passes false x (payload f)) :
    Renders g payload false ("-p ".toList ++ w ++ " -m ".toList ++ w ++ ' '::o ++ ' '::etc) x := by
  refine ⟨by simp,?_⟩
  have ht := ((PacketFilter.tests_option (g:=g) (o:="-p".toList) (by decide) hw).append
    ((PacketFilter.tests_option (g:=g) (o:="-m".toList) (by decide) hw).append
    (PacketFilter.tests_option (g:=g) ho he))).congr h
  simpa using ht

theorem met_header {w : Str} {n : ℕ} {m : PacketFilter.Module} (ha : PacketFilter.isArgument w = true)
    (hn : PacketFilter.protocolNumber g w = some n) (hm : PacketFilter.moduleOf w = some m)
    (hf : w ∉ PacketFilter.freeModules ∧ w ∉ ["state".toList,"limit".toList]) :
    PacketFilter.condition g "-p".toList w = some (fun f => n = 0 || f.packet.payload.proto = n) ∧
    PacketFilter.condition g "-m".toList w = some (fun f => m.sees f.packet.payload) := by
  refine ⟨by rw [PacketFilter.condition_proto,hn]; rfl,?_⟩
  rw [PacketFilter.condition,if_neg (by simp [ha]),if_neg (by decide),if_neg fun h => hf.2 h.2]
  simp [PacketFilter.test,hf.1,hm,PacketFilter.Test.matches,PacketFilter.Opt.matches]

/-- A header whose option is read as a value, and the payloads that value stands for. -/
theorem renders_value {w o etc : Str} {n : ℕ} {m : PacketFilter.Module} {α : Type} {y : Option α}
    {c : α → Frame → Bool} {S : α → Set Payload} (hw : Unbroken w) (ho : PacketFilter.IsOption o) (he : Unbroken etc)
    (hh : PacketFilter.condition g "-p".toList w = some (fun f => n = 0 || f.packet.payload.proto = n) ∧
      PacketFilter.condition g "-m".toList w = some (fun f => m.sees f.packet.payload))
    (hc : PacketFilter.condition g o etc = y.map c)
    (h : ∀ r (f : Frame), (n = 0 || f.packet.payload.proto = n) = true ∧ m.sees f.packet.payload = true ∧ c r f = true ↔
      f.packet.payload ∈ S r) :
    Renders g payload false ("-p ".toList ++ w ++ " -m ".toList ++ w ++ ' '::o ++ ' '::etc) (y.map S) :=
  renders_header hw ho he fun f => by
    rw [hh.1,hh.2,hc]
    cases y with
    | none => simp [Met,Passes]
    | some r => simp only [Met,Passes,payload,Option.map_some,Option.some.injEq,exists_eq_left',iff_true,h r f]

theorem rendered_service {p dport sport etc : Str} (hd : Unbroken dport) (hs : Unbroken sport) (he : Unbroken etc) :
    Rendered g payload false (serviceMatches p dport sport etc) (serviceObjects g p dport sport etc) := by
  have htcp := met_header (g:=g) (w:="tcp".toList) (n:=6) (m:=.tcp) (by decide) (by rfl) (by rfl) (by decide)
  have hudp := met_header (g:=g) (w:="udp".toList) (n:=17) (m:=.udp) (by decide) (by rfl) (by rfl) (by decide)
  have hicmp := met_header (g:=g) (w:="icmp".toList) (n:=1) (m:=.icmp) (by decide) (by rfl) (by rfl) (by decide)
  have hesp := met_header (g:=g) (w:="esp".toList) (n:=50) (m:=.esp) (by decide) (by rfl) (by rfl) (by decide)
  have hah := met_header (g:=g) (w:="ah".toList) (n:=51) (m:=.ah) (by decide) (by rfl) (by rfl) (by decide)
  have tcp := renders_ports (g:=g) (k:=.tcp) (by decide) hs hd htcp.1 htcp.2 fun s d f => by
    obtain ⟨⟨a,b,x⟩,dev,mac⟩ := f
    cases x <;> simp [Payload.proto,PacketFilter.Module.sees,PacketFilter.Opt.matches]
  have udp := renders_ports (g:=g) (k:=.udp) (by decide) hs hd hudp.1 hudp.2 fun s d f => by
    obtain ⟨⟨a,b,x⟩,dev,mac⟩ := f
    cases x <;> simp [Payload.proto,PacketFilter.Module.sees,PacketFilter.Opt.matches]
  have icmp : Renders g payload false ("-p ".toList ++ "icmp".toList ++ " -m ".toList ++ "icmp".toList ++
      ' '::"--icmp-type".toList ++ ' '::etc) (icmpObject g etc) := by
    have hx : icmpObject g etc = (if PacketFilter.isArgument etc then some () else none).map fun _ =>
        {x | ∃ t c, x = Payload.icmp t c ∧ g.types etc t c} := by
      unfold icmpObject
      split <;> rfl
    rw [hx]
    refine renders_value (w:="icmp".toList) (o:="--icmp-type".toList)
      (c:=fun _ f => (PacketFilter.Opt.icmpType etc).matches g.types f.packet) (by decide) (by decide) he hicmp
      (by rw [PacketFilter.condition_icmp]; split <;> rfl) fun _ f => ?_
    obtain ⟨⟨a,b,x⟩,dev,mac⟩ := f
    cases x <;> simp [Payload.proto,PacketFilter.Module.sees,PacketFilter.Opt.matches]
  have esp := renders_value (w:="esp".toList) (o:="--espspi".toList) (S:=fun r => {x | ∃ n, x = .esp n ∧ r.has n})
    (by decide) (by decide) he hesp (PacketFilter.condition_espspi g etc) fun r f => by
      obtain ⟨⟨a,b,x⟩,dev,mac⟩ := f
      cases x <;> simp [Payload.proto,PacketFilter.Module.sees,PacketFilter.Opt.matches]
  have ah := renders_value (w:="ah".toList) (o:="--ahspi".toList) (S:=fun r => {x | ∃ n, x = .ah n ∧ r.has n})
    (by decide) (by decide) he hah (PacketFilter.condition_ahspi g etc) fun r f => by
      obtain ⟨⟨a,b,x⟩,dev,mac⟩ := f
      cases x <;> simp [Payload.proto,PacketFilter.Module.sees,PacketFilter.Opt.matches]
  have ip : Renders g payload false ("-p ".toList ++ etc)
      ((PacketFilter.protocolNumber g etc).map fun n => {x : Payload | n = 0 ∨ x.proto = n}) := by
    have hr := renders_option (o:="-p".toList) (q:=payload) (S:=fun n => {x : Payload | n = 0 ∨ x.proto = n})
      (by decide) he (PacketFilter.condition_proto g etc) (by decide) (fun n f => by simp [payload]) false
    simpa [negation] using hr
  unfold serviceMatches serviceObjects
  dsimp only
  refine .ite ?_ (.ite ?_ (.ite ?_ (.ite ?_ (.ite ip.single (.ite ?_ (.ite ?_ rendered_nil))))))
  · simpa using tcp.single
  · simpa using udp.single
  · simpa using tcp.single.append udp.single
  · simpa using icmp.single
  · simpa using esp.single
  · simpa using ah.single

def serviceColumns (d : Service) : List (Str × Str) :=
  [("proto",d.protocol),("dport",d.dport),("sport",d.sport),("etc",d.etc)]

theorem serviceLayout : Layout serviceColumns ["proto","dport","sport","etc"] := ⟨fun _ => rfl,by decide⟩

/-- What an array lists for a name goes with the objects of its definition, or with those of the members of its
group. -/
theorem Rendered.ofBuilt {α P : Type} {q : Frame → P} {neg : Bool} {cols : α → List (Str × Str)} {keys : List Str}
    {own : Str → Option α} {grps : List Group} {arr : Table} (hl : Layout cols keys)
    (hb : Built cols keys own (grps.map Group.name).reverse
      (fun n => takenOver (fun a => (own a).isSome) n [] grps) arr)
    (hg : ∀ x ∈ grps, ∀ a ∈ split ',' x.members, a ∉ reserved keys) {n : Str} (hk : arr.get? n ≠ none) (hn : n ≠ [])
    {f : (Str → Str) → List Str} (hf : ∀ u v : Str → Str, (∀ k ∈ keys, u k = v k) → f u = f v)
    {k : α → Objects P} {d : Objects P}
    (hm : ∀ a, Rendered g q neg (f (columnOf cols own a)) (((own a).map k).getD d)) :
    Rendered g q neg (if given (arr.getD n ∅) "name" then f (field (arr.getD n ∅))
      else if given (arr.getD n ∅) "group" then (members (arr.getD n ∅)).flatMap fun b => f fun k => b.getD k []
      else [])
      (((own n).map k).getD ((takenOver (fun a => (own a).isSome) n [] grps).flatMap
        fun a => ((own a).map k).getD d)) := by
  have hmem := fun s => hb.mem_matches hl hn f f hf hf s fun a ha => takenOver_unreserved hg ha
  refine Rendered.congr (l:=if (own n).isSome then f (columnOf cols own n) else
    (takenOver (fun a => (own a).isSome) n [] grps).flatMap fun a => f (columnOf cols own a)) ?_ fun s => ?_
  · cases hown : own n with
    | some d =>
      have h := hm n
      rw [hown] at h
      exact h
    | none => exact Rendered.flatMap fun a _ => hm a
  · refine Iff.trans ?_ (hmem s).symm
    by_cases ho : (own n).isSome
    · rw [if_pos ho,if_pos ho]
    · rw [if_neg ho,if_neg ho,List.mem_flatMap]
      refine (and_iff_right ?_).symm
      by_contra hs
      exact hk ((hb.known n).mpr ⟨by simpa using ho,hs⟩)

variable (t)

theorem Tables.built_networks : Built networkColumns ["type","ip"] t.network (t.netGroups.map Group.name).reverse
    (fun n => takenOver (fun a => (t.network a).isSome) n [] t.netGroups) t.arrays.defnet :=
  networkLayout.built Network.name (by simp) t.networks t.netGroups t.net_members

theorem Tables.built_services : Built serviceColumns ["proto","dport","sport","etc"] t.service
    (t.srvGroups.map Group.name).reverse
    (fun n => takenOver (fun a => (t.service a).isSome) n [] t.srvGroups) t.arrays.defservice :=
  serviceLayout.built Service.name (by simp) t.services t.srvGroups t.srv_members

/-- The matches of a member: those of its definition, and an empty address for a group. -/
theorem Tables.rendered_member (o : Side) (neg : Bool) (a : Str) : Rendered g o.place neg
    (addressMatches o.opt (negation neg) (columnOf networkColumns t.network a "type")
      (columnOf networkColumns t.network a "ip")) ((t.networkObjects o a).getD [none]) := by
  rw [networkObjects,columnOf,columnOf]
  cases hd : t.network a with
  | none =>
    have h₀ : addressObjects o [] [] = [none] := by
      unfold addressObjects
      rw [if_neg (by decide),if_neg (by decide)]
      rfl
    rw [Option.map_none,Option.getD_none,← h₀]
    exact rendered_address o neg [] (by decide)
  | some d => exact rendered_address o neg d.type (t.networks_unbroken d (collect_mem hd).1)

theorem Tables.rendered_service (a : Str) : Rendered g payload false
    (serviceMatches (columnOf serviceColumns t.service a "proto") (columnOf serviceColumns t.service a "dport")
      (columnOf serviceColumns t.service a "sport") (columnOf serviceColumns t.service a "etc"))
    ((t.serviceObjects g a).getD []) := by
  rw [serviceObjects,columnOf,columnOf,columnOf,columnOf]
  cases hd : t.service a with
  | none => exact rendered_nil
  | some d =>
    obtain ⟨h₁,h₂,h₃⟩ := t.services_unbroken d (collect_mem hd).1
    exact FilterRows.rendered_service h₁ h₂ h₃

theorem unbroken_of_plain {s : Str} (h : ∀ c ∈ s, Ipcalc.plainChar c = true) : Unbroken s := by
  intro c hc
  constructor <;> rintro rfl <;> exact absurd (h _ hc) (by decide)

theorem unbroken_calc (ip pref : Str) : Unbroken (((NetCalc.ipcalc ip pref).map NetCalc.Calc.network).getD []) ∧
    Unbroken (((NetCalc.ipcalc ip pref).map NetCalc.Calc.broadcast).getD []) := by
  obtain ⟨hn,hb⟩ := NetCalc.calc_chars ip pref
  refine ⟨unbroken_of_plain hn,fun c hc => ?_⟩
  constructor <;> (rintro rfl; exact absurd (hb _ hc) (by decide))

theorem Tables.device_unbroken {n ip : Str} (h : t.device n = some ip) : Unbroken ip := by
  refine name2dev_all (fun r hr => ?_) (Option.filter_eq_some_iff.mp h).1
  obtain ⟨hi,hp⟩ := t.interfaces_unbroken r hr
  obtain ⟨hn,hb⟩ := unbroken_calc r.ip r.pref
  refine ⟨hi,fun c hc => ?_,hb⟩
  rcases List.mem_append.mp hc with hc | hc
  · exact hn c hc
  · rcases List.mem_cons.mp hc with rfl | hc
    · decide
    · exact hp c hc

/-- A source or destination column lists the objects of its name. -/
theorem Tables.rendered_column (o : Side) (neg : Bool) (n : Str) :
    Rendered g o.place neg (column t.arrays n o.opt (negation neg)) (t.listed o n) := by
  unfold column listed
  by_cases hn : n = ("any" : Str)
  · rw [if_pos hn,if_pos hn]
    exact rendered_nil
  · rw [if_neg hn,if_neg hn]
    dsimp only
    by_cases hd : t.arrays.namedev.getD n [] = []
    · have hdev : t.device n = none := (deviceOf_eq t.interfaces n).trans (if_pos hd)
      have hobj : (t.addresses o).objects n = t.networkObjects o n := by
        show ((t.device n).map _).or _ = _
        rw [hdev]
        rfl
      rw [if_neg (not_not.mpr hd),hobj]
      have hb := t.built_networks
      by_cases hk : t.arrays.defnet.get? n = none
      · obtain ⟨hown,hnone⟩ := hb.absent hk
        rw [if_pos hk,networkObjects,hown,Option.map_none,Option.getD_none,netMembers,hnone]
        exact rendered_nil
      · have hne : n ≠ [] := fun he => hk (he ▸ hb.unnamed t.networks_named t.netGroups_named)
        rw [if_neg hk]
        exact Rendered.ofBuilt networkLayout hb t.net_members hk hne
          (f:=fun u => addressMatches o.opt (negation neg) (u "type") (u "ip"))
          (fun u v h => by rw [h _ (by simp),h _ (by simp)]) fun a => t.rendered_member o neg a
    · have hdev : t.device n = some (t.arrays.namedev.getD n []) := (deviceOf_eq t.interfaces n).trans (if_neg hd)
      have hobj : (t.addresses o).objects n = some [netObject o (t.arrays.namedev.getD n [])] := by
        show ((t.device n).map _).or _ = _
        rw [hdev]
        rfl
      have hr := (renders_net (g:=g) o neg (t.device_unbroken hdev)).single
      rw [if_pos hd,hobj,Option.getD_some]
      cases o <;> exact hr

theorem Tables.rendered_services (n : Str) :
    Rendered g payload false (serviceColumn t.arrays n) (t.listedPorts g n) := by
  unfold serviceColumn listedPorts
  by_cases hn : n = ("any" : Str)
  · rw [if_pos hn,if_pos hn]
    exact rendered_nil
  · rw [if_neg hn,if_neg hn]
    have hb := t.built_services
    by_cases hk : t.arrays.defservice.get? n = none
    · obtain ⟨hown,hnone⟩ := hb.absent hk
      have hl : listServiceArray t.arrays.defservice n = [] := by
        rw [listServiceArray,OrdMap.getD,hk]
        rfl
      rw [hl,serviceObjects,hown,Option.map_none,Option.getD_none,srvMembers,hnone]
      exact rendered_nil
    · have hne : n ≠ [] := fun he => hk (he ▸ hb.unnamed t.services_named t.srvGroups_named)
      exact Rendered.ofBuilt serviceLayout hb t.srv_members hk hne
        (f:=fun u => serviceMatches (u "proto") (u "dport") (u "sport") (u "etc"))
        (fun u v h => by rw [h _ (by simp),h _ (by simp),h _ (by simp),h _ (by simp)])
        fun a => t.rendered_service a

section Choices

variable {P : Type} {q : Frame → P} {neg : Bool} {l : List Str} {os : Objects P}

def Chosen (g : Setting) (ws : List Str) (u : Frame → Prop) : Prop :=
  ∃ ps : List (Str × (Frame → Prop)), ps.map Prod.fst = ws ∧ (∀ p ∈ ps, Tests g p.1 p.2) ∧ ∀ f, (∀ p ∈ ps, p.2 f) ↔ u f

theorem chosen_nil : Chosen g [] fun _ => True := ⟨[],rfl,by simp,by simp⟩

theorem Renders.chosen {s : Str} {x : Option (Set P)} (h : Renders g q neg s x) :
    Chosen g [s] fun f => Passes neg x (q f) :=
  ⟨[(s,fun f => Passes neg x (q f))],rfl,by simpa using h.2,by simp⟩

theorem Chosen.append {ws vs : List Str} {u v : Frame → Prop} (h : Chosen g ws u) (hh : Chosen g vs v) :
    Chosen g (ws ++ vs) fun f => u f ∧ v f := by
  obtain ⟨ps,rfl,hp,hu⟩ := h
  obtain ⟨qs,rfl,hq,hv⟩ := hh
  refine ⟨ps ++ qs,List.map_append,List.forall_mem_append.mpr ⟨hp,hq⟩,fun f => ?_⟩
  rw [List.forall_mem_append,hu f,hv f]

/-- Every choice of a column tests for something the column lets through. -/
theorem Rendered.sound (h : Rendered g q neg l os) {ws : List Str} (hw : ws ∈ choices l) :
    ∃ u, Chosen g ws u ∧ ∀ f, u f → q f ∈ passed neg os := by
  unfold choices at hw
  split at hw
  · rename_i hl
    obtain rfl := List.mem_singleton.mp hw
    refine ⟨fun _ => True,chosen_nil,fun f _ => .inl ?_⟩
    cases os with
    | nil => rfl
    | cons x os =>
      obtain ⟨s,hs,-⟩ := h.objects x (by simp)
      rw [hl] at hs
      exact absurd hs List.not_mem_nil
  · obtain ⟨s,hs,rfl⟩ := List.mem_map.mp hw
    obtain ⟨x,hx,hr⟩ := h.texts s (List.mem_of_mem_filter hs)
    exact ⟨fun f => Passes neg x (q f),hr.chosen,fun f hf => .inr ⟨x,hx,hf⟩⟩

/-- What a column lets through is tested for by one of its choices. -/
theorem Rendered.complete (h : Rendered g q neg l os) {f : Frame} (hf : q f ∈ passed neg os) :
    ∃ ws ∈ choices l, ∃ u, Chosen g ws u ∧ u f := by
  unfold choices
  by_cases hl : l = []
  · rw [if_pos hl]
    exact ⟨[],by simp,_,chosen_nil,trivial⟩
  · rw [if_neg hl]
    rcases hf with ho | ⟨x,hx,hp⟩
    · obtain ⟨s,hs⟩ := List.exists_mem_of_ne_nil l hl
      obtain ⟨x,hx,-⟩ := h.texts s hs
      rw [ho] at hx
      exact absurd hx List.not_mem_nil
    · obtain ⟨s,hs,hr⟩ := h.objects x hx
      exact ⟨[s],List.mem_map.mpr ⟨s,List.mem_filter.mpr ⟨hs,by simpa using hr.1⟩,rfl⟩,_,hr.chosen,hp⟩

end Choices

/-- A rule but for its time, with what stands after its matches. -/
theorem applies_draft {chain after : Str} {ws : List Str} {u : Frame → Prop} (hc : PacketFilter.PlainWord chain)
    (hw : Chosen g ws u) (ha : Starts (PacketFilter.tokens after)) (f : Frame) :
    Applies g ((draft chain ws after).text []) f ↔ u f ∧ Holds g (PacketFilter.tokens after) f := by
  obtain ⟨ps,rfl,hp,hu⟩ := hw
  have ht : PacketFilter.tokens (' '::after) = PacketFilter.tokens after := by
    rw [PacketFilter.tokens,PacketFilter.tokensFrom,if_neg (by decide),if_pos ⟨rfl,rfl⟩]
    rfl
  have hs : (draft chain (ps.map Prod.fst) after).text [] =
      "-A".toList ++ ' '::[' '].intercalate (chain::ps.map Prod.fst ++ [' '::after]) := by
    have hi : ∀ (x : Str) (xs : List Str), [' '].intercalate (x::xs ++ [' '::after]) =
        [' '].intercalate (x::xs) ++ ' ':: ' '::after := by
      intro x xs
      induction xs generalizing x with
      | nil => simp
      | cons y ys ih =>
        rw [List.cons_append,List.cons_append,List.intercalate_cons_cons,← List.cons_append,ih,
          List.intercalate_cons_cons]
        simp
    rw [hi]
    simp [draft,Draft.text]
  rw [hs,PacketFilter.applies_texts hp hc (by rwa [ht]),hu f,ht]

theorem plainWord_chainOf (outbound : Bool) : PacketFilter.PlainWord (chainOf outbound) := by
  cases outbound <;> decide

theorem holds_action {action : Str} (h : pfp action ≠ []) (f : Frame) :
    Starts (PacketFilter.tokens ("-j ".toList ++ pfp action)) ∧
      Holds g (PacketFilter.tokens ("-j ".toList ++ pfp action)) f := by
  have key : ∀ w : Str, w = "ACCEPT" ∨ w = "DROP" ∨ w = "REJECT" →
      Starts (PacketFilter.tokens ("-j ".toList ++ w)) ∧ Holds g (PacketFilter.tokens ("-j ".toList ++ w)) f := by
    rintro w (rfl | rfl | rfl) <;> exact ⟨⟨_,_,rfl,rfl⟩,_,rfl,by simp⟩
  refine key _ ?_
  unfold pfp at h ⊢
  split_ifs at h ⊢ <;> simp_all

theorem starts_cmdlog (s : Str) : Starts (PacketFilter.tokens (cmdlog ++ s)) := by
  have h : cmdlog = ("-m" : Str) ++
      ' '::("state --state NEW -m limit --limit 2/sec --limit-burst 10 -j NFLOG --nflog-prefix" : Str) := by
    decide +kernel
  rw [h,List.append_assoc,List.cons_append]
  exact PacketFilter.starts_front rfl (by decide) _

/-- The rules of the row match what its columns let through. -/
theorem matched_iff (t : Tables) (g : Setting) (outbound : Bool) (r : FilterRow) (hr : pfp (trim r.action) ≠ [])
    (f : Frame) : Matched t g outbound r f ↔
      Side.src.place f ∈ passed r.srcn (t.listed .src (trim r.src)) ∧
      Side.dst.place f ∈ passed r.dstn (t.listed .dst (trim r.dst)) ∧
      payload f ∈ passed false (t.listedPorts g (trim r.service)) := by
  have hsrc := t.rendered_column (g:=g) .src r.srcn (trim r.src)
  have hdst := t.rendered_column (g:=g) .dst r.dstn (trim r.dst)
  have hsrv := t.rendered_services (g:=g) (trim r.service)
  have hc := plainWord_chainOf outbound
  constructor
  · rintro ⟨d,hd,ha⟩
    simp only [filterDrafts,crossed,List.mem_flatMap] at hd
    obtain ⟨s,hs,e,he,v,hv,hd⟩ := hd
    obtain ⟨us,hus,hs⟩ := hsrc.sound hs
    obtain ⟨ue,hue,he⟩ := hdst.sound he
    obtain ⟨uv,huv,hv⟩ := hsrv.sound hv
    have hch := (huv.append hus).append hue
    have hu : (uv f ∧ us f) ∧ ue f := by
      rcases List.mem_append.mp hd with hd | hd
      · split at hd
        · obtain rfl := List.mem_singleton.mp hd
          simp only [List.append_assoc] at ha
          exact ((applies_draft hc (by simpa using hch) (starts_cmdlog _) f).mp ha).1
        · exact absurd hd List.not_mem_nil
      · obtain rfl := List.mem_singleton.mp hd
        exact ((applies_draft hc hch (holds_action (g:=g) hr f).1 f).mp ha).1
    exact ⟨hs f hu.1.2,he f hu.2,hv f hu.1.1⟩
  · rintro ⟨hs,he,hv⟩
    obtain ⟨s,hsm,us,hus,hs⟩ := hsrc.complete hs
    obtain ⟨e,hem,ue,hue,he⟩ := hdst.complete he
    obtain ⟨v,hvm,uv,huv,hv⟩ := hsrv.complete hv
    have hch := (huv.append hus).append hue
    obtain ⟨hst,hh⟩ := holds_action (g:=g) hr f
    refine ⟨draft (chainOf outbound) (v ++ s ++ e) ("-j ".toList ++ pfp (trim r.action)),?_,
      (applies_draft hc hch hst f).mpr ⟨⟨⟨hv,hs⟩,he⟩,hh⟩⟩
    simp only [filterDrafts,crossed,List.mem_flatMap]
    exact ⟨s,hsm,e,hem,v,hvm,by simp⟩

def Listed (t : Tables) (g : Setting) (r : FilterRow) : Prop :=
  Fits r.srcn (t.listed .src (trim r.src)) ((t.addresses .src).extent (trim r.src)) ∧
  Fits r.dstn (t.listed .dst (trim r.dst)) ((t.addresses .dst).extent (trim r.dst)) ∧
  Fits false (t.listedPorts g (trim r.service)) ((t.ports g).extent (trim r.service))

def Blocked (t : Tables) (g : Setting) (r : FilterRow) : Prop :=
  Shut r.srcn (t.listed .src (trim r.src)) ∨ Shut r.dstn (t.listed .dst (trim r.dst)) ∨
  Shut false (t.listedPorts g (trim r.service))

/-- The row is about no packets: a name stands for nothing, or a negated one for everything. -/
def Vain (t : Tables) (g : Setting) (r : FilterRow) : Prop :=
  (t.addresses .src).extent (trim r.src) = (if r.srcn then Set.univ else ∅) ∨
  (t.addresses .dst).extent (trim r.dst) = (if r.dstn then Set.univ else ∅) ∨
  (t.ports g).extent (trim r.service) = ∅

/-- The rules of a row match the packets it is about, no others, just when its columns list what they should, or
when it is about no packets and nothing gets through. -/
theorem filter_exact_iff (t : Tables) (g : Setting) (outbound : Bool) (r : FilterRow)
    (hr : pfp (trim r.action) ≠ []) :
    (∀ f, Matched t g outbound r f ↔ Selected t g r f) ↔ Listed t g r ∨ Blocked t g r ∧ Vain t g r := by
  have hempty : ∀ {P : Type} (neg : Bool) (D : Set P), wanted neg D = ∅ ↔ D = if neg then Set.univ else ∅ := by
    intro P neg D
    cases neg with
    | false => exact Iff.rfl
    | true => exact Set.compl_empty_iff
  have hsurj : ∀ (p : Side.src.Point) (q : Side.dst.Point) (x : Payload),
      ∃ f : Frame, Side.src.place f = p ∧ Side.dst.place f = q ∧ payload f = x :=
    fun p q x => ⟨⟨⟨p.1,q,x⟩,[],p.2⟩,rfl,rfl,rfl⟩
  have hpoint : Nonempty Payload := ⟨.other 0⟩
  have h := product_iff (A:=passed r.srcn (t.listed .src (trim r.src)))
    (X:=wanted r.srcn ((t.addresses .src).extent (trim r.src)))
    (B:=passed r.dstn (t.listed .dst (trim r.dst))) (Y:=wanted r.dstn ((t.addresses .dst).extent (trim r.dst)))
    (C:=passed false (t.listedPorts g (trim r.service)))
    (Z:=wanted false ((t.ports g).extent (trim r.service))) hsurj
  simp only [passed_eq_iff,passed_eq_empty_iff,hempty] at h
  exact (forall_congr' fun f => iff_congr (matched_iff t g outbound r hr f) Iff.rfl).trans h

section Listed

variable {t : Tables} {o : Side} {n : Str}

theorem fits_own {os : Objects o.Point} (hn : n ≠ ("any" : Str)) (h : (t.addresses o).objects n = some os)
    (hos : os ≠ []) : Fits false (t.listed o n) ((t.addresses o).extent n) := by
  have hl : t.listed o n = os := by rw [Tables.listed,if_neg hn,h,Option.getD_some]
  rw [hl,Naming.extent_own hn h,Fits,if_neg hos]
  rfl

structure Flat (t : Tables) (o : Side) (n : Str) : Prop where
  group : n ≠ ("any" : Str) ∧ (t.addresses o).objects n = none
  members : ∀ g ∈ t.netGroups, g.name = n → ∀ m ∈ split ',' g.members,
    m ≠ ("any" : Str) ∧ t.device m = none ∧ t.network m ≠ none

theorem Flat.extent (h : Flat t o n) : (t.addresses o).extent n = union (t.netMembers o n) := by
  have hobj : ∀ {m : Str}, t.device m = none → (t.addresses o).objects m = t.networkObjects o m := by
    intro m hd
    show ((t.device m).map _).or _ = _
    rw [hd]
    rfl
  rw [Naming.extent_group h.group.1 h.group.2]
  funext p
  apply propext
  constructor
  · rintro ⟨m,⟨g,hg,hgn,hm⟩,hp⟩
    obtain ⟨hany,hdev,hnet⟩ := h.members g hg hgn m hm
    obtain ⟨d,hd⟩ := Option.ne_none_iff_exists'.mp hnet
    have ho : (t.addresses o).objects m = some (addressObjects o d.type d.ip) := by
      rw [hobj hdev,Tables.networkObjects,hd]
      rfl
    rw [Naming.extent_own hany ho] at hp
    obtain ⟨S,hS,hp⟩ := hp
    refine ⟨S,List.mem_flatMap.mpr ⟨m,takenOver_of_mem [] hg hgn hm (by rw [hd]; rfl),?_⟩,hp⟩
    rw [← hobj hdev,ho]
    exact hS
  · rintro ⟨S,hS,hp⟩
    obtain ⟨m,hm,hS⟩ := List.mem_flatMap.mp hS
    obtain ⟨g,hg,hgn,hm⟩ := mem_takenOver hm
    obtain ⟨hany,hdev,hnet⟩ := h.members g hg hgn m hm
    obtain ⟨d,hd⟩ := Option.ne_none_iff_exists'.mp hnet
    have ho : (t.addresses o).objects m = some (addressObjects o d.type d.ip) := by
      rw [hobj hdev,Tables.networkObjects,hd]
      rfl
    rw [← hobj hdev,ho] at hS
    refine ⟨m,⟨g,hg,hgn,hm⟩,?_⟩
    rw [Naming.extent_own hany ho]
    exact ⟨S,hS,hp⟩

theorem Flat.fits (h : Flat t o n) (hne : t.netMembers o n ≠ []) :
    Fits false (t.listed o n) ((t.addresses o).extent n) := by
  have hl : t.listed o n = t.netMembers o n := by rw [Tables.listed,if_neg h.group.1,h.group.2,Option.getD_none]
  rw [hl,h.extent,Fits,if_neg hne]
  rfl

end Listed

def site : Tables where
  networks := [⟨"LAN","1","10.0.0.0/8"⟩,⟨"Web","2","10.0.0.5"⟩,⟨"Mail","2","10.0.0.6"⟩]
  netGroups := [⟨"Servers","Web,Mail"⟩]
  services := [⟨"HTTP","1","80","1:65535",""⟩]
  srvGroups := []
  interfaces := []
  times := []
  networks_named := by decide
  services_named := by decide
  netGroups_named := by decide
  srvGroups_named := by decide
  net_members := by decide
  srv_members := by decide
  networks_unbroken := by decide
  services_unbroken := by decide
  interfaces_unbroken := by decide

def site_row (srcn : Bool) (src dst : Str) : FilterRow := ⟨"1",srcn,src,false,dst,"HTTP","1",[],false⟩

def site_setting : Setting := ⟨fun _ _ _ => false,fun _ => none,fun _ _ _ => false⟩

theorem addressObjects_net (o : Side) {type : Str} (h : toNumber type ≠ 3 ∧ toNumber type ≠ 4) (ip : Str) :
    addressObjects o type ip = [netObject o ip] := by
  unfold addressObjects
  rw [if_neg h.1,if_neg h.2]

theorem flat_servers (o : Side) : Flat site o "Servers" where
  group := ⟨by decide,rfl⟩
  members g hg _ m hm := by
    obtain rfl := List.mem_singleton.mp hg
    have hs : split ',' ("Web,Mail" : Str) = ["Web","Mail"] := by decide
    rw [hs] at hm
    rcases List.mem_cons.mp hm with rfl | hm
    · exact ⟨by decide,by rfl,by simp [show site.network "Web" = some ⟨"Web","2","10.0.0.5"⟩ from rfl]⟩
    · obtain rfl := List.mem_singleton.mp hm
      exact ⟨by decide,by rfl,by simp [show site.network "Mail" = some ⟨"Mail","2","10.0.0.6"⟩ from rfl]⟩

theorem servers_listed (o : Side) : site.netMembers o "Servers" = [netObject o "10.0.0.5",netObject o "10.0.0.6"] := by
  have ht : takenOver (fun a => (site.network a).isSome) "Servers" [] site.netGroups = ["Web","Mail"] := by
    decide
  have hnet : toNumber ("2" : Str) ≠ 3 ∧ toNumber ("2" : Str) ≠ 4 := by decide +kernel
  have hw : site.networkObjects o "Web" = some [netObject o "10.0.0.5"] := by
    show some (addressObjects o "2" "10.0.0.5") = _
    rw [addressObjects_net o hnet]
  have hm : site.networkObjects o "Mail" = some [netObject o "10.0.0.6"] := by
    show some (addressObjects o "2" "10.0.0.6") = _
    rw [addressObjects_net o hnet]
  rw [Tables.netMembers,ht]
  simp [hw,hm]

theorem netObject_of {ip : Str} {n : PacketFilter.Net} (o : Side) (h : PacketFilter.net ip = some n) :
    netObject o ip = some {p | n.has (o.address p)} := by
  rw [netObject,h]
  rfl

def webPorts : Set Payload := {x | ∃ a b, x = .tcp a b ∧ (⟨1,65535⟩ : Range).has a ∧ (⟨80,80⟩ : Range).has b}

theorem http_objects : site.serviceObjects site_setting "HTTP" = some [some webPorts] := by
  have hs : PacketFilter.range ("1:65535" : Str) = some ⟨1,65535⟩ := by decide
  have hd : PacketFilter.range ("80" : Str) = some ⟨80,80⟩ := by decide
  show some (serviceObjects site_setting "1" "80" "1:65535" []) = _
  unfold serviceObjects
  dsimp only
  rw [if_pos (by decide),hs,hd]
  rfl

theorem http_listed : site.listedPorts site_setting "HTTP" = [some webPorts] := by
  rw [Tables.listedPorts,if_neg (by decide),http_objects,Option.getD_some]

/-- A negated group is the union of complements: a member of it is let through. -/
theorem negated_group_matches : ¬ ∀ f, Matched site site_setting false (site_row true "Servers" "any") f ↔
    Selected site site_setting (site_row true "Servers" "any") f := by
  intro h
  let f : Frame := ⟨⟨167772165,0,.tcp 1024 80⟩,[],[]⟩
  have hweb := netObject_of .src (show PacketFilter.net ("10.0.0.5" : Str) = some ⟨167772165,32⟩ by decide)
  have hmail := netObject_of .src (show PacketFilter.net ("10.0.0.6" : Str) = some ⟨167772166,32⟩ by decide)
  have hl := servers_listed .src
  rw [hweb,hmail] at hl
  have hsrc : site.listed .src "Servers" = site.netMembers .src "Servers" := rfl
  have hm : Matched site site_setting false (site_row true "Servers" "any") f := by
    refine (matched_iff site site_setting false (site_row true "Servers" "any") (by decide) f).mpr ⟨?_,.inl rfl,?_⟩
    · show Side.src.place f ∈ passed true (site.listed .src "Servers")
      rw [hsrc,hl]
      exact .inr ⟨_,List.mem_cons_of_mem _ List.mem_cons_self,_,rfl,iff_of_false
        (show ¬ (⟨167772166,32⟩ : PacketFilter.Net).has 167772165 = true by decide) (by decide)⟩
    · show payload f ∈ passed false (site.listedPorts site_setting "HTTP")
      rw [http_listed]
      exact .inr ⟨_,List.mem_cons_self,webPorts,rfl,iff_of_true ⟨1024,80,rfl,by decide,by decide⟩ rfl⟩
  obtain ⟨hs,-,-⟩ := (h f).mp hm
  refine hs ?_
  show Side.src.place f ∈ (site.addresses .src).extent "Servers"
  rw [(flat_servers .src).extent,hl]
  exact ⟨_,List.mem_cons_self,show (⟨167772165,32⟩ : PacketFilter.Net).has 167772165 = true by decide⟩

theorem filter_exact_iff_site :
    Matched site site_setting false (site_row false "LAN" "Servers") ⟨⟨167772170,167772165,.tcp 1024 80⟩,[],[]⟩ ↔
    Selected site site_setting (site_row false "LAN" "Servers") ⟨⟨167772170,167772165,.tcp 1024 80⟩,[],[]⟩ := by
  refine (filter_exact_iff site site_setting false (site_row false "LAN" "Servers") (by decide)).mpr (.inl ⟨?_,?_,?_⟩) _
  · have hnet : toNumber ("1" : Str) ≠ 3 ∧ toNumber ("1" : Str) ≠ 4 := by decide +kernel
    have ho : (site.addresses .src).objects "LAN" = some [netObject .src "10.0.0.0/8"] := by
      show some (addressObjects .src "1" "10.0.0.0/8") = _
      rw [addressObjects_net .src hnet]
    exact fits_own (by decide) ho (by simp)
  · exact (flat_servers .dst).fits (by rw [servers_listed]; simp)
  · show Fits false (site.listedPorts site_setting "HTTP") ((site.ports site_setting).extent "HTTP")
    have hn : ("HTTP" : Str) ≠ (site.ports site_setting).all := by decide
    have ho : (site.ports site_setting).objects "HTTP" = some [some webPorts] := http_objects
    rw [http_listed,Naming.extent_own hn ho,Fits,if_neg (by simp)]
    rfl

end FilterRows
end Mybox
