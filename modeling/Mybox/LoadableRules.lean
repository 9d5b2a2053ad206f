import Mybox.HostRange
import Mybox.StoredObjects

/-! The lines of `_policy_normal_rules_data` as the options they are put together from. What stands behind an option
is the text of an object, whatever it is; the packet filter takes all the lines or none. -/
namespace Mybox
namespace Policy
open Php RegistryFormat Registry Definitions
open PacketFilter (net)
open Interfaces (Ipv6 dataOf)

variable (pcre : Pcre) (env : Env)

abbrev Line := List (Str × Str)

def lineText (l : Line) : Str := joinWords (l.map fun x => x.1 ++ ' ' :: x.2)

def addrLines (opt : Str) (ds : List Params) : List Line :=
  (ds.foldl (addPiece opt) ∅).keys.map fun a => [(opt,a)]

def given (opt v : Str) : Line := if null v then [] else [(opt,v)]

def portOptions (d : Params) : Line := given "--sport" (d.val "SPORT") ++ given "--dport" (d.val "DPORT")

def protoOptions (proto : Str) : Line := [("-m",proto),("-p",proto)]

def serviceLines (d : Params) : List Line :=
  let type := d.val "__DATA_TYPE"
  if null type then []
  else if looseEq type "tcp" || looseEq type "udp" then [protoOptions (lower (d.val "PROTO")) ++ portOptions d]
  else if looseEq type "tcpudp" then [protoOptions "tcp" ++ portOptions d,protoOptions "udp" ++ portOptions d]
  else if looseEq type "icmp" then [protoOptions "icmp" ++ given "--icmp-type" (d.val "CODE")]
  else if looseEq type "ip" then if null (d.val "NUM") then [] else [[("-p",d.val "NUM")]]
  else if looseEq type "ah" then if null (d.val "SPI") then [] else [[("-m","ah"),("--ahspi",d.val "SPI")]]
  else if looseEq type "esp" then if null (d.val "SPI") then [] else [[("-m","esp"),("--espspi",d.val "SPI")]]
  else []

def orBlank (ls : List Line) : List Line := if ls = [] then [[]] else ls

def ruleLines (srcs dsts services : List Line) : List Line :=
  if srcs = [] ∧ dsts = [] ∧ services = [] then [] else
  (orBlank srcs).flatMap fun s => (orBlank dsts).flatMap fun d => (orBlank services).map fun t => s ++ d ++ t

/-- What `_policy_normal_rules_data` puts together. -/
def rulesWritten (src dst service : Str) (w : World) : List Line :=
  let s := resolved pcre env .networks src w
  let d := resolved pcre env .networks dst s.2
  let t := resolved pcre env .services service d.2
  ruleLines (addrLines "-s" s.1) (addrLines "-d" d.1) (t.1.flatMap serviceLines)

theorem lineText_append {l m : Line} (hl : l ≠ []) (hm : m ≠ []) :
    lineText (l ++ m) = lineText l ++ ' ' :: lineText m := by
  induction l with
  | nil => exact absurd rfl hl
  | cons x l ih =>
    cases l with
    | nil =>
      cases m with
      | nil => exact absurd rfl hm
      | cons y m => rfl
    | cons y l =>
      have hi := ih (by simp)
      change (x.1 ++ ' ' :: x.2) ++ ' ' :: lineText (y::l ++ m) =
        ((x.1 ++ ' ' :: x.2) ++ ' ' :: lineText (y::l)) ++ ' ' :: lineText m
      rw [hi]
      simp

theorem addrPieces_eq (opt : Str) (ds : List Params) : addrPieces opt ds = (addrLines opt ds).map lineText := by
  have h := (foldl_addPiece opt ds ∅ (by simp)).1
  rw [addrPieces,addrLines,OrdMap.keys,List.map_map,List.map_map]
  exact List.map_congr_left fun e he => h e he

theorem lineText_given {l : Line} (hl : l ≠ []) (opt v : Str) :
    lineText (l ++ given opt v) = lineText l ++ if null v then [] else ' ' :: (opt ++ ' ' :: v) := by
  unfold given
  split
  · rw [List.append_nil,List.append_nil]
  · rw [lineText_append hl (by simp)]
    rfl

theorem lineText_protoOptions (p : Str) :
    lineText (protoOptions p) = ("-m " : Str) ++ p ++ (" -p " : Str) ++ p := by
  simp [lineText,protoOptions,joinWords,Str.of_ascii]

theorem lineText_ports (p : Str) (d : Params) : lineText (protoOptions p ++ portOptions d) =
    ("-m " : Str) ++ p ++ (" -p " : Str) ++ p ++ portText d := by
  rw [portOptions,← List.append_assoc,lineText_given (by simp [protoOptions]),
    lineText_given (by simp [protoOptions]),lineText_protoOptions,portText,List.append_assoc]
  rfl

theorem servicePieces_eq (d : Params) : servicePieces d = (serviceLines d).map lineText := by
  have hicmp : lineText (protoOptions "icmp" ++ given "--icmp-type" (d.val "CODE")) = ("-m icmp -p icmp" : Str) ++
      if null (d.val "CODE") then [] else (" --icmp-type " : Str) ++ d.val "CODE" := by
    rw [lineText_given (by simp [protoOptions])]
    rfl
  unfold servicePieces serviceLines
  simp only [apply_ite (List.map lineText)]
  refine if_congr Iff.rfl rfl (if_congr Iff.rfl ?_ (if_congr Iff.rfl ?_ (if_congr Iff.rfl ?_ rfl)))
  · rw [List.map_singleton,lineText_ports]
  · rw [List.map_cons,List.map_singleton,lineText_ports,lineText_ports]
    rfl
  · rw [List.map_singleton,hicmp]

theorem lines_ne {opt : Str} {ds : List Params} {l : Line} (h : l ∈ addrLines opt ds) : l ≠ [] := by
  obtain ⟨a,-,rfl⟩ := List.mem_map.mp h
  simp

theorem serviceLines_ne {d : Params} : ∀ l ∈ serviceLines d, l ≠ [] := by
  have hp : ∀ (p : Str) (m : Line), protoOptions p ++ m ≠ [] := fun p m => by simp [protoOptions]
  have hor : ∀ {c : Prop} [Decidable c] {ls ms : List Line}, (∀ l ∈ ls, l ≠ []) → (∀ l ∈ ms, l ≠ []) →
      ∀ l ∈ (if c then ls else ms), l ≠ [] := fun hl hm => iteInduction (motive:=fun ls : List Line =>
    ∀ l ∈ ls, l ≠ []) (fun _ => hl) fun _ => hm
  have hone : ∀ (x : Str × Str) (m : Line), ∀ l ∈ [x::m], l ≠ [] := by simp
  unfold serviceLines
  refine hor (by simp) (hor ?_ (hor ?_ (hor ?_ (hor (hor (by simp) (hone _ _)) (hor (hor (by simp) (hone _ _))
    (hor (hor (by simp) (hone _ _)) (by simp)))))))
  · rw [List.forall_mem_singleton]
    exact hp _ _
  · rw [List.forall_mem_cons,List.forall_mem_singleton]
    exact ⟨hp _ _,hp _ _⟩
  · rw [List.forall_mem_singleton]
    exact hp _ _

def toPiece (l : Line) : Option Str := if l = [] then none else some (lineText l)

theorem choices_map {ls : List Line} (h : ∀ l ∈ ls, l ≠ []) :
    choices (ls.map lineText) = (orBlank ls).map toPiece := by
  unfold choices orBlank
  by_cases hl : ls = []
  · simp [hl,toPiece]
  · rw [if_neg (by simpa using hl),if_neg hl,List.map_map]
    exact List.map_congr_left fun l hm => by simp [toPiece,h l hm]

theorem text_toPiece (s d t : Line) : Rule.text ⟨toPiece s,toPiece d,toPiece t⟩ = lineText (s ++ d ++ t) := by
  by_cases hs : s = [] <;> by_cases hd : d = [] <;> by_cases ht : t = [] <;>
    simp [Rule.text,Rule.pieces,toPiece,joinWords,lineText_append,hs,hd,ht]
  rfl

theorem policyList_lines {srcs dsts services : List Line} (hs : ∀ l ∈ srcs, l ≠ []) (hd : ∀ l ∈ dsts, l ≠ [])
    (ht : ∀ l ∈ services, l ≠ []) :
    policyList (srcs.map lineText) (dsts.map lineText) (services.map lineText) =
      (ruleLines srcs dsts services).map lineText := by
  rw [policyList_eq,product,ruleLines,choices_map hs,choices_map hd,choices_map ht]
  simp only [List.map_eq_nil_iff]
  split
  · rfl
  · simp only [List.map_flatMap,List.map_map,List.flatMap_map,Function.comp_def,text_toPiece]

theorem policyNormalRulesData_lines (src dst service : Str) (w : World) :
    (policyNormalRulesData pcre env src dst service w).1 =
      (rulesWritten pcre env src dst service w).map lineText := by
  have hserv : ∀ ds : List Params, ds.flatMap servicePieces = (ds.flatMap serviceLines).map lineText := fun ds => by
    rw [List.map_flatMap]
    exact List.flatMap_congr fun d _ => servicePieces_eq d
  have hne : ∀ (ds : List Params), ∀ l ∈ ds.flatMap serviceLines, l ≠ [] := fun ds l hl => by
    obtain ⟨d,-,hd⟩ := List.mem_flatMap.mp hl
    exact serviceLines_ne _ hd
  unfold policyNormalRulesData rulesWritten
  dsimp only
  rw [addrPieces_eq,addrPieces_eq,hserv]
  exact policyList_lines (fun l => lines_ne) (fun l => lines_ne) (hne _)

def protocols (opt : Str) : List Str :=
  if opt = ("--sport" : Str) ∨ opt = ("--dport" : Str) then ["tcp","6","udp","17"]
  else if opt = ("--icmp-type" : Str) then ["icmp","1"]
  else if opt = ("--ahspi" : Str) then ["ah","51"]
  else if opt = ("--espspi" : Str) then ["esp","50"]
  else []

/-- One address or network behind each `-s` and `-d`, and a protocol for whatever needs one. -/
structure Loadable (l : Line) : Prop where
  operand : ∀ x ∈ l, x.1 = ("-s" : Str) ∨ x.1 = ("-d" : Str) → (net x.2).isSome
  protocol : ∀ x ∈ l, protocols x.1 ≠ [] → ∃ y ∈ l, y.1 = ("-p" : Str) ∧ y.2 ∈ protocols x.1

instance (l : Line) : Decidable (Loadable l) :=
  decidable_of_iff ((∀ x ∈ l, x.1 = ("-s" : Str) ∨ x.1 = ("-d" : Str) → (net x.2).isSome) ∧
    ∀ x ∈ l, protocols x.1 ≠ [] → ∃ y ∈ l, y.1 = ("-p" : Str) ∧ y.2 ∈ protocols x.1)
    ⟨fun h => ⟨h.1,h.2⟩,fun h => ⟨h.operand,h.protocol⟩⟩

/-- A service object with the protocol its ports need. The SPI of an AH or ESP object is never given one. -/
structure Spoken (d : Params) : Prop where
  ports : d.val "__DATA_TYPE" = ("tcp" : Str) ∨ d.val "__DATA_TYPE" = ("udp" : Str) →
    d.val "SPORT" = [] ∧ d.val "DPORT" = [] ∨ lower (d.val "PROTO") ∈ protocols "--dport"
  spi : d.val "__DATA_TYPE" = ("ah" : Str) ∨ d.val "__DATA_TYPE" = ("esp" : Str) → d.val "SPI" = []

theorem loadable_addr {opt a : Str} (ho : opt = ("-s" : Str) ∨ opt = ("-d" : Str)) :
    Loadable [(opt,a)] ↔ (net a).isSome := by
  have hp : protocols opt = [] := by
    rcases ho with rfl | rfl <;> decide
  constructor
  · exact fun h => h.operand (opt,a) (by simp) ho
  · refine fun h => ⟨fun x hx _ => ?_,fun x hx hn => ?_⟩ <;> obtain rfl := List.mem_singleton.mp hx
    · exact h
    · exact absurd hp hn

theorem addrLines_loadable {opt : Str} (ho : opt = ("-s" : Str) ∨ opt = ("-d" : Str)) {ds : List Params}
    (hd : ∀ d ∈ ds, d.val "ADDR" ≠ []) :
    (∀ l ∈ addrLines opt ds, Loadable l) ↔ ∀ d ∈ ds, (net (addrText d)).isSome := by
  have hk := (foldl_addPiece opt ds ∅ (by simp)).2
  unfold addrLines
  rw [List.forall_mem_map]
  simp only [loadable_addr ho,hk]
  constructor
  · exact fun h d hm => h _ (Or.inr ⟨d,hm,hd d hm,rfl⟩)
  · rintro h a (ha | ⟨d,hm,-,rfl⟩)
    · simp [OrdMap.keys] at ha
    · exact h d hm

theorem loadable_proto {p : Str} {l : Line} (h : ∀ x ∈ l, x.1 ∉ (["-s","-d","-p"] : List Str)) :
    Loadable (protoOptions p ++ l) ↔ ∀ x ∈ l, protocols x.1 ≠ [] → p ∈ protocols x.1 := by
  constructor
  · intro hl x hx hn
    obtain ⟨y,hy,hyp,hym⟩ := hl.protocol x (List.mem_append_right _ hx) hn
    rcases List.mem_append.mp hy with hy | hy
    · rcases List.mem_cons.mp hy with rfl | hy
      · exact absurd hyp (by decide : ("-m" : Str) ≠ "-p")
      · rwa [List.mem_singleton.mp hy] at hym
    · exact absurd (hyp ▸ h y hy) (by decide)
  · refine fun hl => ⟨fun x hx ho => ?_,fun x hx hn => ⟨(("-p" : Str),p),by simp [protoOptions],rfl,?_⟩⟩
    · rcases List.mem_append.mp hx with hx | hx
      · simp only [protoOptions,List.mem_cons,List.not_mem_nil,or_false] at hx
        rcases hx with rfl | rfl
        · exact absurd ho (by decide : ¬(("-m" : Str) = "-s" ∨ ("-m" : Str) = "-d"))
        · exact absurd ho (by decide : ¬(("-p" : Str) = "-s" ∨ ("-p" : Str) = "-d"))
      · have hn := h x hx
        rcases ho with ho | ho <;> exact absurd (ho ▸ hn) (by decide)
    · rcases List.mem_append.mp hx with hx | hx
      · simp only [protoOptions,List.mem_cons,List.not_mem_nil,or_false] at hx
        rcases hx with rfl | rfl <;> exact absurd rfl hn
      · exact hl x hx hn

theorem mem_given {opt v : Str} {x : Str × Str} : x ∈ given opt v ↔ v ≠ [] ∧ x = (opt,v) := by
  unfold given
  by_cases hv : v = [] <;> simp [hv]

theorem loadable_ports (p : Str) (d : Params) : Loadable (protoOptions p ++ portOptions d) ↔
    d.val "SPORT" = [] ∧ d.val "DPORT" = [] ∨ p ∈ protocols "--dport" := by
  have hx : ∀ x, x ∈ portOptions d ↔ d.val "SPORT" ≠ [] ∧ x = (("--sport" : Str),d.val "SPORT") ∨
      d.val "DPORT" ≠ [] ∧ x = (("--dport" : Str),d.val "DPORT") := fun x => by
    rw [portOptions,List.mem_append,mem_given,mem_given]
  have hsame : protocols "--sport" = protocols "--dport" := by decide
  have hne : protocols "--dport" ≠ [] := by decide
  have hopt : ∀ x ∈ portOptions d, x.1 ∉ (["-s","-d","-p"] : List Str) := fun x h => by
    rcases (hx x).mp h with ⟨-,rfl⟩ | ⟨-,rfl⟩
    · exact (by decide : ("--sport" : Str) ∉ (["-s","-d","-p"] : List Str))
    · exact (by decide : ("--dport" : Str) ∉ (["-s","-d","-p"] : List Str))
  rw [loadable_proto hopt]
  simp only [hx]
  constructor
  · intro h
    by_cases hp : p ∈ protocols "--dport"
    · exact Or.inr hp
    · refine Or.inl ⟨by_contra fun hs => hp ?_,by_contra fun hd => hp ?_⟩
      · rw [← hsame] at hne ⊢
        exact h (("--sport" : Str),d.val "SPORT") (Or.inl ⟨hs,rfl⟩) hne
      · exact h (("--dport" : Str),d.val "DPORT") (Or.inr ⟨hd,rfl⟩) hne
  · rintro (⟨hs,hd⟩ | hp) x (⟨hxn,rfl⟩ | ⟨hxn,rfl⟩) -
    · exact absurd hs hxn
    · exact absurd hd hxn
    · rwa [← hsame] at hp
    · exact hp

theorem loadable_protocol (v : Str) : Loadable [(("-p" : Str),v)] := by
  constructor <;> intro x hx h <;> obtain rfl := List.mem_singleton.mp hx
  · exact absurd h (by decide : ¬(("-p" : Str) = "-s" ∨ ("-p" : Str) = "-d"))
  · exact absurd rfl h

theorem not_loadable_spi {m opt v : Str} (hm : protocols opt ≠ []) (ho : opt ≠ ("-p" : Str)) :
    ¬ Loadable [(("-m" : Str),m),(opt,v)] := by
  intro h
  obtain ⟨y,hy,hyp,-⟩ := h.protocol (opt,v) (by simp) hm
  simp only [List.mem_cons,List.not_mem_nil,or_false] at hy
  rcases hy with rfl | rfl
  · exact absurd hyp (by decide : ("-m" : Str) ≠ "-p")
  · exact ho hyp

theorem spoken_other {d : Params} (h : d.val "__DATA_TYPE" ∉ (["tcp","udp","ah","esp"] : List Str)) : Spoken d := by
  simp only [List.mem_cons,List.not_mem_nil,or_false,not_or] at h
  exact ⟨fun ht => absurd ht (not_or.mpr ⟨h.1,h.2.1⟩),fun ht => absurd ht (not_or.mpr h.2.2)⟩

theorem spoken_ports {d : Params} (h : d.val "__DATA_TYPE" = ("tcp" : Str) ∨ d.val "__DATA_TYPE" = ("udp" : Str)) :
    Spoken d ↔ d.val "SPORT" = [] ∧ d.val "DPORT" = [] ∨ lower (d.val "PROTO") ∈ protocols "--dport" := by
  refine ⟨fun hs => hs.ports h,fun hp => ⟨fun _ => hp,fun ht => ?_⟩⟩
  rcases h with h | h <;> rw [h] at ht <;> exact absurd ht (by decide)

theorem spoken_spi {d : Params} (h : d.val "__DATA_TYPE" = ("ah" : Str) ∨ d.val "__DATA_TYPE" = ("esp" : Str)) :
    Spoken d ↔ d.val "SPI" = [] := by
  refine ⟨fun hs => hs.spi h,fun hp => ⟨fun ht => ?_,fun _ => hp⟩⟩
  rcases h with h | h <;> rw [h] at ht <;> exact absurd ht (by decide)

theorem spi_loadable {d : Params} {opt m : Str}
    (h : d.val "__DATA_TYPE" = ("ah" : Str) ∨ d.val "__DATA_TYPE" = ("esp" : Str)) (hm : protocols opt ≠ [])
    (ho : opt ≠ ("-p" : Str)) :
    (∀ l ∈ (if null (d.val "SPI") then [] else [[(("-m" : Str),m),(opt,d.val "SPI")]]), Loadable l) ↔ Spoken d := by
  rw [spoken_spi h]
  split
  · rename_i hn
    exact iff_of_true (fun l hl => absurd hl List.not_mem_nil) (null_iff.mp hn)
  · rename_i hn
    exact iff_of_false (fun hl => not_loadable_spi hm ho (hl _ (List.mem_singleton.mpr rfl)))
      fun he => hn (null_iff.mpr he)

theorem serviceLines_loadable (d : Params) : (∀ l ∈ serviceLines d, Loadable l) ↔ Spoken d := by
  have hloose : ∀ t ∈ (["tcp","udp","tcpudp","icmp","ip","ah","esp"] : List Str), ∀ a,
      looseEq a t = decide (a = t) := fun t ht =>
    looseEq_text ((by decide : ∀ t ∈ (["tcp","udp","tcpudp","icmp","ip","ah","esp"] : List Str),
      numeric t = none) t ht)
  have hports : ∀ p ∈ (["tcp","udp"] : List Str), Loadable (protoOptions p ++ portOptions d) := fun p hp =>
    (loadable_ports p d).mpr (Or.inr
      ((by decide : ∀ p ∈ (["tcp","udp"] : List Str), p ∈ protocols "--dport") p hp))
  unfold serviceLines
  simp only [hloose _ (by simp : ("tcp" : Str) ∈ _),hloose _ (by simp : ("udp" : Str) ∈ _),
    hloose _ (by simp : ("tcpudp" : Str) ∈ _),hloose _ (by simp : ("icmp" : Str) ∈ _),
    hloose _ (by simp : ("ip" : Str) ∈ _),hloose _ (by simp : ("ah" : Str) ∈ _),
    hloose _ (by simp : ("esp" : Str) ∈ _),Bool.or_eq_true,decide_eq_true_eq]
  have hor : ∀ {c : Prop} [Decidable c] {ls ms : List Line}, (c → ((∀ l ∈ ls, Loadable l) ↔ Spoken d)) →
      (¬c → ((∀ l ∈ ms, Loadable l) ↔ Spoken d)) → ((∀ l ∈ (if c then ls else ms), Loadable l) ↔ Spoken d) :=
    fun h h' => iteInduction (motive:=fun ls : List Line => (∀ l ∈ ls, Loadable l) ↔ Spoken d) h h'
  refine hor (fun h => ?_) fun _ => hor (fun h => ?_) fun h₁ => hor (fun h => ?_) fun _ => hor (fun h => ?_) fun _ =>
    hor (fun h => ?_) fun _ => hor (fun h => ?_) fun h₂ => hor (fun h => ?_) fun h₃ => ?_
  · exact iff_of_true (fun l hl => absurd hl List.not_mem_nil) (spoken_other (null_iff.mp h ▸ by decide))
  · rw [List.forall_mem_singleton,loadable_ports,spoken_ports h]
  · refine iff_of_true (fun l hl => ?_) (spoken_other (h ▸ by decide))
    simp only [List.mem_cons,List.not_mem_nil,or_false] at hl
    rcases hl with rfl | rfl
    · exact hports _ (by simp)
    · exact hports _ (by simp)
  · refine iff_of_true (fun l hl => ?_) (spoken_other (h ▸ by decide))
    rw [List.mem_singleton.mp hl,loadable_proto]
    · intro x hx hn
      rw [(mem_given.mp hx).2]
      exact (by decide : ("icmp" : Str) ∈ protocols "--icmp-type")
    · intro x hx
      rw [(mem_given.mp hx).2]
      exact (by decide : ("--icmp-type" : Str) ∉ (["-s","-d","-p"] : List Str))
  · refine iff_of_true (fun l hl => ?_) (spoken_other (h ▸ by decide))
    split at hl
    · exact absurd hl List.not_mem_nil
    · rw [List.mem_singleton.mp hl]
      exact loadable_protocol _
  · exact spi_loadable (Or.inl h) (by decide) (by decide)
  · exact spi_loadable (Or.inr h) (by decide) (by decide)
  · refine iff_of_true (fun l hl => absurd hl List.not_mem_nil) (spoken_other ?_)
    simp only [List.mem_cons,List.not_mem_nil,or_false,not_or] at h₁ ⊢
    exact ⟨h₁.1,h₁.2,h₂,h₃⟩

def Addressed (l : Line) : Prop := ∀ x ∈ l, x.1 = ("-s" : Str) ∨ x.1 = ("-d" : Str)

theorem loadable_append {l m : Line} (hl : Addressed l) : Loadable (l ++ m) ↔ Loadable l ∧ Loadable m := by
  have hp : ∀ x ∈ l, protocols x.1 = [] ∧ x.1 ≠ ("-p" : Str) := fun x hx => by
    rcases hl x hx with h | h <;> rw [h] <;> decide
  constructor
  · intro h
    refine ⟨⟨fun x hx => h.operand x (List.mem_append_left _ hx),fun x hx hn => absurd (hp x hx).1 hn⟩,
      ⟨fun x hx => h.operand x (List.mem_append_right _ hx),fun x hx hn => ?_⟩⟩
    obtain ⟨y,hy,hyp,hym⟩ := h.protocol x (List.mem_append_right _ hx) hn
    exact ⟨y,(List.mem_append.mp hy).resolve_left fun hy => (hp y hy).2 hyp,hyp,hym⟩
  · rintro ⟨h,h'⟩
    refine ⟨fun x hx => (List.mem_append.mp hx).elim (h.operand x) (h'.operand x),fun x hx hn => ?_⟩
    rcases List.mem_append.mp hx with hx | hx
    · exact absurd (hp x hx).1 hn
    · obtain ⟨y,hy,hym⟩ := h'.protocol x hx hn
      exact ⟨y,List.mem_append_right _ hy,hym⟩

theorem loadable_nil : Loadable [] := ⟨by simp,by simp⟩

theorem orBlank_loadable (ls : List Line) : (∀ l ∈ orBlank ls, Loadable l) ↔ ∀ l ∈ ls, Loadable l := by
  unfold orBlank
  split
  · rename_i h
    simp [h,loadable_nil]
  · rfl

theorem exists_orBlank (ls : List Line) : ∃ l, l ∈ orBlank ls := by
  unfold orBlank
  split
  · exact ⟨[],by simp⟩
  · rename_i h
    exact List.exists_mem_of_ne_nil ls h

/-- Each line is part of a rule. -/
theorem ruleLines_loadable {srcs dsts services : List Line} (hs : ∀ l ∈ srcs, Addressed l)
    (hd : ∀ l ∈ dsts, Addressed l) : (∀ l ∈ ruleLines srcs dsts services, Loadable l) ↔
      (∀ l ∈ srcs, Loadable l) ∧ (∀ l ∈ dsts, Loadable l) ∧ ∀ l ∈ services, Loadable l := by
  have hblank : ∀ {ls : List Line}, (∀ l ∈ ls, Addressed l) → ∀ l ∈ orBlank ls, Addressed l := by
    intro ls h l hl
    unfold orBlank at hl
    split at hl
    · rw [List.mem_singleton.mp hl]
      exact fun x hx => absurd hx List.not_mem_nil
    · exact h l hl
  have hthree : ∀ s ∈ orBlank srcs, ∀ d ∈ orBlank dsts, ∀ t,
      (Loadable (s ++ d ++ t) ↔ Loadable s ∧ Loadable d ∧ Loadable t) := fun s h d h' t => by
    rw [List.append_assoc,loadable_append (hblank hs s h),loadable_append (hblank hd d h')]
  rw [← orBlank_loadable srcs,← orBlank_loadable dsts,← orBlank_loadable services]
  by_cases he : srcs = [] ∧ dsts = [] ∧ services = []
  · obtain ⟨rfl,rfl,rfl⟩ := he
    simp [ruleLines,orBlank,loadable_nil]
  · rw [ruleLines,if_neg he]
    constructor
    · intro h
      obtain ⟨s₀,hs₀⟩ := exists_orBlank srcs
      obtain ⟨d₀,hd₀⟩ := exists_orBlank dsts
      obtain ⟨t₀,ht₀⟩ := exists_orBlank services
      have hall : ∀ s ∈ orBlank srcs, ∀ d ∈ orBlank dsts, ∀ t ∈ orBlank services,
          Loadable s ∧ Loadable d ∧ Loadable t := fun s hsm d hdm t htm =>
        (hthree s hsm d hdm t).mp (h _ (List.mem_flatMap.mpr ⟨s,hsm,List.mem_flatMap.mpr
          ⟨d,hdm,List.mem_map_of_mem htm⟩⟩))
      exact ⟨fun s hsm => (hall s hsm d₀ hd₀ t₀ ht₀).1,fun d hdm => (hall s₀ hs₀ d hdm t₀ ht₀).2.1,
        fun t htm => (hall s₀ hs₀ d₀ hd₀ t htm).2.2⟩
    · rintro ⟨h₁,h₂,h₃⟩ l hl
      obtain ⟨s,hsm,hl⟩ := List.mem_flatMap.mp hl
      obtain ⟨d,hdm,hl⟩ := List.mem_flatMap.mp hl
      obtain ⟨t,htm,rfl⟩ := List.mem_map.mp hl
      exact (hthree s hsm d hdm t).mpr ⟨h₁ s hsm,h₂ d hdm,h₃ t htm⟩

/-- What a name resolves to has the field that makes it usable. -/
theorem resolved_field {k : Kind} {name : Str} {w : World} :
    ∀ d ∈ (resolved pcre env k name w).1, d.val k.field ≠ [] := by
  have hu : ∀ (p : Params), ∀ d ∈ usable k p, d.val k.field ≠ [] := by
    intro p d hd
    unfold usable at hd
    split at hd
    · simp at hd
    · rename_i hn
      rw [List.mem_singleton.mp hd]
      simpa using hn
  have hm : ∀ (ns : List Str) (token : Params) (v : World),
      ∀ d ∈ (getMembers pcre env k ns token v).1, d.val k.field ≠ [] := by
    intro ns
    induction ns with
    | nil => exact fun token v d hd => absurd hd List.not_mem_nil
    | cons n ns ih =>
      intro token v d hd
      rcases List.mem_append.mp hd with hd | hd
      · exact hu _ d hd
      · exact ih _ _ d hd
  unfold resolved definitionsGetBynameR
  dsimp only
  split
  · simp
  · split
    · simp
    · split
      · simp
      · split
        · exact hm _ _ _
        · exact hu _

/-- Every rule can be loaded exactly when each object of the source and the destination, through a group or not, has
one address or network, and each service object the protocol it needs. -/
theorem rules_loadable_iff (src dst service : Str) (w : World) :
    (policyNormalRulesData pcre env src dst service w).1 =
      (rulesWritten pcre env src dst service w).map lineText ∧
    ((∀ l ∈ rulesWritten pcre env src dst service w, Loadable l) ↔
      let s := resolved pcre env .networks src w
      let d := resolved pcre env .networks dst s.2
      let t := resolved pcre env .services service d.2
      (∀ o ∈ s.1, (net (addrText o)).isSome) ∧ (∀ o ∈ d.1, (net (addrText o)).isSome) ∧ ∀ o ∈ t.1, Spoken o) := by
  refine ⟨policyNormalRulesData_lines pcre env src dst service w,?_⟩
  have hopt : ∀ {opt : Str} {ds : List Params}, opt = ("-s" : Str) ∨ opt = ("-d" : Str) →
      ∀ l ∈ addrLines opt ds, Addressed l := by
    intro opt ds ho l hl x hx
    obtain ⟨a,-,rfl⟩ := List.mem_map.mp hl
    rwa [List.mem_singleton.mp hx]
  have haddr := @resolved_field pcre env .networks
  dsimp only
  unfold rulesWritten
  dsimp only
  rw [ruleLines_loadable (hopt (Or.inl rfl)) (hopt (Or.inr rfl)),addrLines_loadable (Or.inl rfl) haddr,
    addrLines_loadable (Or.inr rfl) haddr,List.forall_mem_flatMap]
  simp only [serviceLines_loadable]

/-- A range and an AH service, as they are added. -/
theorem rules_not_loadable :
    ((cliDefinitionsAdd Interfaces.ipv4Only noonEnv nowhere (.networks .hostrange)
        (["hostrange","pool","10.0.0.1-10.0.0.9"].map Str.of) ⟨∅,∅⟩).map fun r =>
          (r.1,rulesWritten Pcre.plain noonEnv "pool" "any" "any" r.2)) =
      some (true,[[(("-s" : Str),("10.0.0.1-10.0.0.9" : Str))]]) ∧
    ¬ Loadable [(("-s" : Str),("10.0.0.1-10.0.0.9" : Str))] ∧
    ((cliDefinitionsAdd Interfaces.ipv4Only noonEnv nowhere (.services .ah)
        (["ah","vpn","256"].map Str.of) ⟨∅,∅⟩).map fun r =>
          (r.1,rulesWritten Pcre.plain noonEnv "any" "any" "vpn" r.2)) =
      some (true,[[(("-m" : Str),("ah" : Str)),(("--ahspi" : Str),("256" : Str))]]) ∧
    ¬ Loadable [(("-m" : Str),("ah" : Str)),(("--ahspi" : Str),("256" : Str))] := by
  refine ⟨?_,by decide,?_,by decide⟩
  · decide
  · decide

end Policy
end Mybox
