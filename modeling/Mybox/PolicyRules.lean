import Mybox.Definitions
import Mybox.PacketFilter

/-! The packet filter rules of a source, a destination and a service
(`_policy_normal_rules_data`). Each list the three names resolve to is a factor of a
product, and an empty list drops out of it. -/
namespace Mybox
namespace Policy

open Php RegistryFormat Registry Definitions

variable (pcre : Pcre) (env : Env)

def addrText (d : Params) : Str :=
  if null (d.val "PREF") then d.val "ADDR" else d.val "ADDR" ++ '/' :: d.val "PREF"

def addPiece (opt : Str) (m : OrdMap Str Str) (d : Params) : OrdMap Str Str :=
  if null (d.val "ADDR") then m else m.set (addrText d) (opt ++ ' ' :: addrText d)

/-- `$_src_a` and `$_dst_a`: one rule piece for each address text. -/
def addrPieces (opt : Str) (ds : List Params) : List Str :=
  (ds.foldl (addPiece opt) ∅).entries.map Prod.snd

def portText (d : Params) : Str :=
  (if null (d.val "SPORT") then [] else (" --sport " : Str) ++ d.val "SPORT")
    ++ (if null (d.val "DPORT") then [] else (" --dport " : Str) ++ d.val "DPORT")

/-- What one service object adds to `$_service_a`. -/
def servicePieces (d : Params) : List Str :=
  let type := d.val "__DATA_TYPE"
  let proto := lower (d.val "PROTO")
  if null type then []
  else if looseEq type "tcp" || looseEq type "udp" then
    [("-m " : Str) ++ proto ++ (" -p " : Str) ++ proto ++ portText d]
  else if looseEq type "tcpudp" then
    [("-m tcp -p tcp" : Str) ++ portText d,("-m udp -p udp" : Str) ++ portText d]
  else if looseEq type "icmp" then
    [("-m icmp -p icmp" : Str)
      ++ (if null (d.val "CODE") then [] else (" --icmp-type " : Str) ++ d.val "CODE")]
  else if looseEq type "ip" then
    if null (d.val "NUM") then [] else [("-p " : Str) ++ d.val "NUM"]
  else if looseEq type "ah" then
    if null (d.val "SPI") then [] else [("-m ah --ahspi " : Str) ++ d.val "SPI"]
  else if looseEq type "esp" then
    if null (d.val "SPI") then [] else [("-m esp --espspi " : Str) ++ d.val "SPI"]
  else []

/-- The objects of a name; the wildcard is not looked up. -/
def resolved (k : Kind) (name : Str) (w : World) : List Params × World :=
  if looseEq name "any" then ([],w) else definitionsGetBynameR pcre env k name w

/-- The loops at the end of `_policy_normal_rules_data`. -/
def policyList (srcs dsts services : List Str) : List Str :=
  if srcs ≠ [] then
    srcs.flatMap fun s =>
      if dsts ≠ [] then
        dsts.flatMap fun d =>
          if services ≠ [] then services.map fun t => s ++ ' ' :: (d ++ ' ' :: t)
          else [s ++ ' ' :: d]
      else if services ≠ [] then services.map fun t => s ++ ' ' :: t
      else [s]
  else if dsts ≠ [] then
    dsts.flatMap fun d => if services ≠ [] then services.map fun t => d ++ ' ' :: t else [d]
  else services

def policyNormalRulesData (src dst service : Str) (w : World) : List Str × World :=
  let s := resolved pcre env .networks src w
  let d := resolved pcre env .networks dst s.2
  let t := resolved pcre env .services service d.2
  (policyList (addrPieces "-s" s.1) (addrPieces "-d" d.1) (t.1.flatMap servicePieces),t.2)

/-- At most one piece for each of the three names. -/
structure Rule where
  src : Option Str
  dst : Option Str
  service : Option Str

def joinWords : List Str → Str
  | [] => []
  | [a] => a
  | a::b::l => a ++ ' ' :: joinWords (b::l)

def Rule.pieces (r : Rule) : List Str := r.src.toList ++ r.dst.toList ++ r.service.toList

def Rule.text (r : Rule) : Str := joinWords r.pieces

def choices (l : List Str) : List (Option Str) := if l = [] then [none] else l.map some

def product (srcs dsts services : List Str) : List Rule :=
  if srcs = [] ∧ dsts = [] ∧ services = [] then [] else
  (choices srcs).flatMap fun s => (choices dsts).flatMap fun d => (choices services).map fun t => ⟨s,d,t⟩

theorem policyList_eq (srcs dsts services : List Str) :
    policyList srcs dsts services = (product srcs dsts services).map Rule.text := by
  by_cases hs : srcs = [] <;> by_cases hd : dsts = [] <;> by_cases ht : services = [] <;>
    simp [policyList,product,choices,hs,hd,ht,Rule.text,Rule.pieces,joinWords,List.map_flatMap,
      Function.comp_def,List.flatMap_map,List.flatMap_singleton']

theorem mem_product {srcs dsts services : List Str} {r : Rule} :
    r ∈ product srcs dsts services ↔ ¬(srcs = [] ∧ dsts = [] ∧ services = []) ∧
      r.src ∈ choices srcs ∧ r.dst ∈ choices dsts ∧ r.service ∈ choices services := by
  rcases r with ⟨s,d,t⟩
  unfold product
  split
  · rename_i h; simp [h]
  · rename_i h
    simp only [List.mem_flatMap,List.mem_map,Rule.mk.injEq,h,not_false_eq_true,true_and]
    constructor
    · rintro ⟨s',hs,d',hd,t',ht,rfl,rfl,rfl⟩
      exact ⟨hs,hd,ht⟩
    · rintro ⟨hs,hd,ht⟩
      exact ⟨s,hs,d,hd,t,ht,rfl,rfl,rfl⟩

theorem exists_choices {l : List Str} {P : Option Str → Prop} :
    (∃ x ∈ choices l, P x) ↔ (l = [] ∧ P none) ∨ ∃ s ∈ l, P (some s) := by
  unfold choices
  split
  · rename_i h; simp [h]
  · rename_i h; simp [h]

def netOf (d : Params) : Option PacketFilter.Net :=
  if null (d.val "PREF") then PacketFilter.net (d.val "ADDR")
  else (PacketFilter.address (d.val "ADDR")).bind fun a =>
    (PacketFilter.prefixLen (d.val "PREF")).map fun l => ⟨a,l⟩

/-- Ports are ranges, or absent; SPIs are ranges; a message type is one word. -/
inductive Service
  | tcp (sport dport : Option PacketFilter.Range)
  | udp (sport dport : Option PacketFilter.Range)
  | tcpudp (sport dport : Option PacketFilter.Range)
  | icmp (type : Option Str)
  | ip (num : Nat)
  | ah (spi : PacketFilter.Range)
  | esp (spi : PacketFilter.Range)
  deriving DecidableEq

def portOf (v : Str) : Option (Option PacketFilter.Range) :=
  if null v then some none else (PacketFilter.range v).map some

def portsOf (d : Params) (f : Option PacketFilter.Range → Option PacketFilter.Range → Service) :
    Option Service :=
  (portOf (d.val "SPORT")).bind fun s => (portOf (d.val "DPORT")).map fun t => f s t

/-- The service of an object that carries the fields its type needs. -/
def serviceOf (d : Params) : Option Service :=
  let type := d.val "__DATA_TYPE"
  let proto := lower (d.val "PROTO")
  if type = ("tcp" : Str) then if proto = ("tcp" : Str) then portsOf d .tcp else none
  else if type = ("udp" : Str) then if proto = ("udp" : Str) then portsOf d .udp else none
  else if type = ("tcpudp" : Str) then portsOf d .tcpudp
  else if type = ("icmp" : Str) then
    if null (d.val "CODE") then some (.icmp none)
    else if ' ' ∈ d.val "CODE" then none else some (.icmp (some (d.val "CODE")))
  else if type = ("ip" : Str) then (PacketFilter.number (d.val "NUM")).map .ip
  else if type = ("ah" : Str) then (PacketFilter.range (d.val "SPI")).map .ah
  else if type = ("esp" : Str) then (PacketFilter.range (d.val "SPI")).map .esp
  else none

def portHas (r : Option PacketFilter.Range) (n : Nat) : Bool := r.all fun r => r.has n

/-- Protocol and ports of the packet are those of the service; protocol number zero stands
for every protocol. -/
def Service.matches (types : PacketFilter.Types) : Service → PacketFilter.Packet → Bool
  | tcp s d, ⟨_,_,.tcp m n⟩ => portHas s m && portHas d n
  | udp s d, ⟨_,_,.udp m n⟩ => portHas s m && portHas d n
  | tcpudp s d, ⟨_,_,.tcp m n⟩ => portHas s m && portHas d n
  | tcpudp s d, ⟨_,_,.udp m n⟩ => portHas s m && portHas d n
  | icmp t, ⟨_,_,.icmp ty co⟩ => t.all fun t => types t ty co
  | ip n, p => n = 0 || p.payload.proto = n
  | ah r, ⟨_,_,.ah s⟩ => r.has s
  | esp r, ⟨_,_,.esp s⟩ => r.has s
  | _, _ => false

theorem product_holds (srcs dsts services : List Str) (P : Str → Prop) :
    (∃ r ∈ product srcs dsts services, ∀ x ∈ r.pieces, P x) ↔
      ¬(srcs = [] ∧ dsts = [] ∧ services = []) ∧ (srcs = [] ∨ ∃ x ∈ srcs, P x) ∧
        (dsts = [] ∨ ∃ x ∈ dsts, P x) ∧ (services = [] ∨ ∃ x ∈ services, P x) := by
  have hc : ∀ l : List Str, (∃ o ∈ choices l, ∀ x ∈ o, P x) ↔ l = [] ∨ ∃ x ∈ l, P x := by
    intro l
    rw [exists_choices]
    simp
  rw [← hc,← hc,← hc]
  constructor
  · rintro ⟨⟨s,d,t⟩,hr,hp⟩
    obtain ⟨he,hs,hd,ht⟩ := mem_product.mp hr
    refine ⟨he,⟨s,hs,fun x hx => hp x ?_⟩,⟨d,hd,fun x hx => hp x ?_⟩,⟨t,ht,fun x hx => hp x ?_⟩⟩ <;>
      simp only [Rule.pieces,List.mem_append,Option.mem_toList]
    · exact Or.inl (Or.inl hx)
    · exact Or.inl (Or.inr hx)
    · exact Or.inr hx
  · rintro ⟨he,⟨s,hs,hps⟩,⟨d,hd,hpd⟩,⟨t,ht,hpt⟩⟩
    refine ⟨⟨s,d,t⟩,mem_product.mpr ⟨he,hs,hd,ht⟩,fun x hx => ?_⟩
    simp only [Rule.pieces,List.mem_append,Option.mem_toList] at hx
    rcases hx with (hx | hx) | hx
    · exact hps x hx
    · exact hpd x hx
    · exact hpt x hx

theorem product_pieces_ne {srcs dsts services : List Str} {r : Rule}
    (h : r ∈ product srcs dsts services) : r.pieces ≠ [] := by
  obtain ⟨he,hs,hd,ht⟩ := mem_product.mp h
  intro hp
  simp only [Rule.pieces,List.append_eq_nil_iff,Option.toList_eq_nil_iff] at hp
  have hc : ∀ l : List Str, none ∈ choices l → l = [] := by
    intro l hl
    unfold choices at hl
    split at hl
    · assumption
    · simp at hl
  exact he ⟨hc _ (hp.1.1 ▸ hs),hc _ (hp.1.2 ▸ hd),hc _ (hp.2 ▸ ht)⟩

section Meaning

open PacketFilter

variable (types : Types)

theorem joinWords_means {l : List Str} (hl : l ≠ []) (h : ∀ x ∈ l, ∃ f, Means types x f) :
    Means types (joinWords l) fun p => l.all fun x => ruleMatches types x p := by
  induction l with
  | nil => exact absurd rfl hl
  | cons a l ih =>
    obtain ⟨f,hf⟩ := h a (by simp)
    have ha : f = ruleMatches types a := funext fun p => (hf.ruleMatches p).symm
    subst ha
    cases l with
    | nil => simpa [joinWords] using hf
    | cons b l =>
      have hb := ih (by simp) fun x hx => h x (List.mem_cons_of_mem _ hx)
      simpa [joinWords] using hf.append hb

/-- A packet matches a generated rule when it matches a piece of every list that is not
empty. -/
theorem policyList_matches {srcs dsts services : List Str}
    (hs : ∀ x ∈ srcs, ∃ f, Means types x f) (hd : ∀ x ∈ dsts, ∃ f, Means types x f)
    (ht : ∀ x ∈ services, ∃ f, Means types x f) (p : Packet) :
    (∃ r ∈ policyList srcs dsts services, ruleMatches types r p) ↔
      ¬(srcs = [] ∧ dsts = [] ∧ services = []) ∧
        (srcs = [] ∨ ∃ x ∈ srcs, ruleMatches types x p) ∧
        (dsts = [] ∨ ∃ x ∈ dsts, ruleMatches types x p) ∧
        (services = [] ∨ ∃ x ∈ services, ruleMatches types x p) := by
  have hc : ∀ (l : List Str) (o : Option Str), o ∈ choices l → ∀ x ∈ o, x ∈ l := by
    intro l o ho x hx
    unfold choices at ho
    split at ho
    · simp only [List.mem_singleton] at ho
      simp [ho] at hx
    · obtain ⟨y,hy,rfl⟩ := List.mem_map.mp ho
      simp only [Option.mem_some_iff] at hx
      exact hx ▸ hy
  have hr : ∀ r ∈ product srcs dsts services, ruleMatches types r.text p =
      r.pieces.all fun x => ruleMatches types x p := by
    intro r hr
    have hm : ∀ x ∈ r.pieces, ∃ f, Means types x f := by
      intro x hx
      obtain ⟨-,h₁,h₂,h₃⟩ := mem_product.mp hr
      simp only [Rule.pieces,List.mem_append,Option.mem_toList] at hx
      rcases hx with (hx | hx) | hx
      · exact hs x (hc _ _ h₁ x hx)
      · exact hd x (hc _ _ h₂ x hx)
      · exact ht x (hc _ _ h₃ x hx)
    exact (joinWords_means types (product_pieces_ne hr) hm).ruleMatches p
  rw [policyList_eq,← product_holds _ _ _ fun x => ruleMatches types x p = true]
  constructor
  · rintro ⟨t,htm,hp⟩
    obtain ⟨r,hrm,rfl⟩ := List.mem_map.mp htm
    rw [hr r hrm,List.all_eq_true] at hp
    exact ⟨r,hrm,hp⟩
  · rintro ⟨r,hrm,hp⟩
    exact ⟨r.text,List.mem_map_of_mem hrm,by rw [hr r hrm,List.all_eq_true]; exact hp⟩

theorem foldl_addPiece (opt : Str) (ds : List Params) (m : OrdMap Str Str)
    (hm : ∀ e ∈ m.entries, e.2 = opt ++ ' ' :: e.1) :
    (∀ e ∈ (ds.foldl (addPiece opt) m).entries, e.2 = opt ++ ' ' :: e.1) ∧
    ∀ k, k ∈ (ds.foldl (addPiece opt) m).keys ↔
      k ∈ m.keys ∨ ∃ d ∈ ds, d.val "ADDR" ≠ [] ∧ k = addrText d := by
  induction ds generalizing m with
  | nil => exact ⟨hm,by simp⟩
  | cons d ds ih =>
    rw [List.foldl_cons]
    by_cases hd : d.val "ADDR" = []
    · have hs : addPiece opt m d = m := by rw [addPiece,if_pos (null_iff.mpr hd)]
      rw [hs]
      have h := ih m hm
      refine ⟨h.1,fun k => ?_⟩
      rw [h.2 k]
      simp [hd]
    · have hs : addPiece opt m d = m.set (addrText d) (opt ++ ' ' :: addrText d) := by
        rw [addPiece,if_neg (by simpa using hd)]
      rw [hs]
      have hm' : ∀ e ∈ (m.set (addrText d) (opt ++ ' ' :: addrText d)).entries,
          e.2 = opt ++ ' ' :: e.1 := by
        intro e he
        rcases OrdMap.mem_set he with rfl | he
        · rfl
        · exact hm e he
      have h := ih _ hm'
      refine ⟨h.1,fun k => ?_⟩
      rw [h.2 k,OrdMap.mem_keys_set]
      simp [hd,or_assoc]

theorem mem_addrPieces {opt x : Str} {ds : List Params} :
    x ∈ addrPieces opt ds ↔ ∃ d ∈ ds, d.val "ADDR" ≠ [] ∧ x = opt ++ ' ' :: addrText d := by
  obtain ⟨hv,hk⟩ := foldl_addPiece opt ds ∅ (by simp)
  unfold addrPieces
  constructor
  · intro hx
    obtain ⟨e,he,rfl⟩ := List.mem_map.mp hx
    have hm := (hk e.1).mp (List.mem_map_of_mem he)
    obtain ⟨d,hd,ha,hek⟩ := hm.resolve_left (by simp [OrdMap.keys])
    exact ⟨d,hd,ha,by rw [hv e he,hek]⟩
  · rintro ⟨d,hd,ha,rfl⟩
    obtain ⟨e,he,hek⟩ := List.mem_map.mp ((hk (addrText d)).mpr (Or.inr ⟨d,hd,ha,rfl⟩))
    exact List.mem_map.mpr ⟨e,he,by rw [hv e he,hek]⟩

theorem net_addrText {d : Params} {n : Net} (h : netOf d = some n) :
    net (addrText d) = some n ∧ d.val "ADDR" ≠ [] := by
  unfold netOf at h
  unfold addrText
  split at h
  · rename_i hp
    rw [if_pos hp]
    refine ⟨h,fun ha => ?_⟩
    rw [ha] at h
    simp [net,address,List.splitOn_nil] at h
  · rename_i hp
    rw [if_neg hp]
    simp only [Option.bind_eq_some_iff,Option.map_eq_some_iff] at h
    obtain ⟨a,ha,l,hl,rfl⟩ := h
    exact ⟨net_prefixLen ha hl,(address_isWord ha).ne⟩

/-- The pieces of network objects: the packets of the networks. -/
theorem addrPieces_means (opt : Str) (mk : Net → Opt) (ho : IsWord opt)
    (hopt : ∀ w, option opt w = (net w).map mk) {ds : List Params}
    (h : ∀ d ∈ ds, netOf d ≠ none) :
    (∀ x ∈ addrPieces opt ds, ∃ f, Means types x f) ∧ (addrPieces opt ds = [] ↔ ds = []) ∧
    ∀ p, (∃ x ∈ addrPieces opt ds, ruleMatches types x p) ↔
      ∃ d ∈ ds, (netOf d).any fun n => (mk n).matches types p := by
  have hm : ∀ d ∈ ds, ∃ n, netOf d = some n ∧ d.val "ADDR" ≠ [] ∧
      Means types (opt ++ ' ' :: addrText d) ((mk n).matches types) := by
    intro d hd
    obtain ⟨n,hn⟩ := Option.ne_none_iff_exists'.mp (h d hd)
    obtain ⟨ht,ha⟩ := net_addrText hn
    exact ⟨n,hn,ha,means_option types ho (net_isWord ht) (by rw [hopt,ht]; rfl)⟩
  refine ⟨?_,?_,?_⟩
  · intro x hx
    obtain ⟨d,hd,-,rfl⟩ := mem_addrPieces.mp hx
    obtain ⟨n,-,-,hmn⟩ := hm d hd
    exact ⟨_,hmn⟩
  · constructor
    · intro he
      by_contra hne
      obtain ⟨d,ds',rfl⟩ := List.exists_cons_of_ne_nil hne
      obtain ⟨n,-,ha,-⟩ := hm d (by simp)
      have hx : opt ++ ' ' :: addrText d ∈ addrPieces opt (d::ds') :=
        mem_addrPieces.mpr ⟨d,by simp,ha,rfl⟩
      rw [he] at hx
      simp at hx
    · rintro rfl; rfl
  · intro p
    constructor
    · rintro ⟨x,hx,hp⟩
      obtain ⟨d,hd,-,rfl⟩ := mem_addrPieces.mp hx
      obtain ⟨n,hn,-,hmn⟩ := hm d hd
      exact ⟨d,hd,by rw [hn,Option.any_some,← hmn.ruleMatches]; exact hp⟩
    · rintro ⟨d,hd,hp⟩
      obtain ⟨n,hn,ha,hmn⟩ := hm d hd
      rw [hn,Option.any_some] at hp
      exact ⟨_,mem_addrPieces.mpr ⟨d,hd,ha,rfl⟩,by rw [hmn.ruleMatches]; exact hp⟩

theorem means_module {m : Str} {M : Module} {k : Nat} (hw : IsWord m) (hm : moduleOf m = some M)
    (hk : protocolOf m = some k) : Means types (("-m " : Str) ++ m ++ (" -p " : Str) ++ m)
      fun p => M.sees p.payload && (k = 0 || p.payload.proto = k) := by
  have hl : option "-m".toList m = some (.load M) := by
    have hr : option "-m".toList m = (moduleOf m).map .load := rfl
    rw [hr,hm]; rfl
  have hp : option "-p".toList m = some (.proto k) := by
    have hr : option "-p".toList m = (protocolOf m).map .proto := rfl
    rw [hr,hk]; rfl
  have h := (means_option types (by constructor <;> decide) hw hl).append
    (means_option types (by constructor <;> decide) hw hp)
  have ht : ("-m " : Str) ++ m ++ (" -p " : Str) ++ m =
      ("-m".toList ++ ' ' :: m) ++ ' ' :: ("-p".toList ++ ' ' :: m) := by
    rw [List.append_assoc (("-m " : Str) ++ m)]
    rfl
  rw [ht]
  exact h

theorem means_optional {s : Str} {f : Packet → Bool} (h : Means types s f) {o : Str}
    {mk : Range → Opt} (ho : IsWord o) (hopt : ∀ w, option o w = (range w).map mk) {v : Str}
    {r : Option Range} (hv : portOf v = some r) :
    Means types (s ++ if null v then [] else ' ' :: (o ++ ' ' :: v))
      fun p => f p && r.all fun r => (mk r).matches types p := by
  unfold portOf at hv
  split at hv
  · rename_i hn
    simp only [Option.some.injEq] at hv
    subst hv
    simpa [hn] using h
  · rename_i hn
    obtain ⟨x,hx,rfl⟩ := Option.map_eq_some_iff.mp hv
    rw [if_neg hn]
    have hm := means_option types ho (range_isWord hx) (x := mk x) (by rw [hopt,hx]; rfl)
    exact h.append hm

theorem means_ports {s : Str} {f : Packet → Bool} (h : Means types s f) {d : Params}
    {a b : Option Range} (ha : portOf (d.val "SPORT") = some a) (hb : portOf (d.val "DPORT") = some b) :
    Means types (s ++ portText d) fun p => f p && (a.all fun r => (Opt.sport r).matches types p)
      && (b.all fun r => (Opt.dport r).matches types p) := by
  have h₁ := means_optional types h (o := "--sport".toList) (by constructor <;> decide) (fun _ => rfl) ha
  have h₂ := means_optional types h₁ (o := "--dport".toList) (by constructor <;> decide) (fun _ => rfl) hb
  have ht : s ++ portText d = (s ++ if null (d.val "SPORT") then [] else
      ' ' :: ("--sport".toList ++ ' ' :: d.val "SPORT")) ++ if null (d.val "DPORT") then [] else
      ' ' :: ("--dport".toList ++ ' ' :: d.val "DPORT") := by
    rw [portText,List.append_assoc]
    rfl
  rw [ht]
  exact h₂

structure ServiceMeans (types : Types) (l : List Str) (s : Service) : Prop where
  ne : l ≠ []
  means : ∀ x ∈ l, ∃ f, Means types x f
  holds : ∀ p, (∃ x ∈ l, ruleMatches types x p) ↔ s.matches types p

theorem serviceMeans_single {x : Str} {f : Packet → Bool} {s : Service} (h : Means types x f)
    (hf : ∀ p, f p = s.matches types p) : ServiceMeans types [x] s :=
  ⟨by simp,by simpa using ⟨f,h⟩,fun p => by simp [h.ruleMatches,hf]⟩

theorem tcp_means {d : Params} {a b : Option Range} (ha : portOf (d.val "SPORT") = some a)
    (hb : portOf (d.val "DPORT") = some b) :
    Means types (("-m tcp -p tcp" : Str) ++ portText d) (Service.matches types (.tcp a b)) := by
  have ht : ("-m tcp -p tcp" : Str) = ("-m " : Str) ++ "tcp".toList ++ (" -p " : Str) ++ "tcp".toList := rfl
  have h := means_ports types (means_module types (m := "tcp".toList) (by constructor <;> decide)
    rfl rfl) ha hb
  rw [ht]
  convert h using 1
  funext ⟨x,y,q⟩
  cases q <;> cases a <;> cases b <;> simp [Service.matches,Module.sees,Payload.proto,portHas,Opt.matches]

theorem udp_means {d : Params} {a b : Option Range} (ha : portOf (d.val "SPORT") = some a)
    (hb : portOf (d.val "DPORT") = some b) :
    Means types (("-m udp -p udp" : Str) ++ portText d) (Service.matches types (.udp a b)) := by
  have ht : ("-m udp -p udp" : Str) = ("-m " : Str) ++ "udp".toList ++ (" -p " : Str) ++ "udp".toList := rfl
  have h := means_ports types (means_module types (m := "udp".toList) (by constructor <;> decide)
    rfl rfl) ha hb
  rw [ht]
  convert h using 1
  funext ⟨x,y,q⟩
  cases q <;> cases a <;> cases b <;> simp [Service.matches,Module.sees,Payload.proto,portHas,Opt.matches]

theorem portsOf_some {d : Params} {f : Option Range → Option Range → Service} {s : Service}
    (h : portsOf d f = some s) : ∃ a b, portOf (d.val "SPORT") = some a ∧
      portOf (d.val "DPORT") = some b ∧ s = f a b := by
  simp only [portsOf,Option.bind_eq_some_iff,Option.map_eq_some_iff] at h
  obtain ⟨a,ha,b,hb,rfl⟩ := h
  exact ⟨a,b,ha,hb,rfl⟩

theorem icmp_means {v : Str} (hv : v = [] ∨ ' ' ∉ v) : Means types (("-m icmp -p icmp" : Str)
      ++ if null v then [] else (" --icmp-type " : Str) ++ v)
    (Service.matches types (.icmp (if null v then none else some v))) := by
  have hb := means_module types (m := "icmp".toList) (by constructor <;> decide) rfl rfl
  have hm : Means types ("-m icmp -p icmp" : Str) (Service.matches types (.icmp none)) := by
    have ht : ("-m icmp -p icmp" : Str) =
        ("-m " : Str) ++ "icmp".toList ++ (" -p " : Str) ++ "icmp".toList := rfl
    rw [ht]
    convert hb using 1
    funext ⟨x,y,q⟩
    cases q <;> simp [Service.matches,Module.sees,Payload.proto]
  split
  · rename_i hn
    rw [List.append_nil]
    exact hm
  · rename_i hn
    have hn' : v ≠ [] := by simpa using hn
    have ho := means_option types (o := "--icmp-type".toList) (w := v) (x := .icmpType v)
      (by constructor <;> decide) ⟨hn',hv.resolve_left hn'⟩ rfl
    have ht : (" --icmp-type " : Str) ++ v = ' ' :: ("--icmp-type".toList ++ ' ' :: v) := rfl
    rw [ht]
    convert hm.append ho using 1
    funext ⟨x,y,q⟩
    cases q <;> simp [Service.matches,Opt.matches]

theorem spi_means {m : Str} {M : Module} {o : Str} {mk : Range → Opt} {v : Str} {r : Range}
    (hw : IsWord m) (hm : moduleOf m = some M) (ho : IsWord o)
    (hopt : ∀ w, option o w = (range w).map mk) (hr : range v = some r) :
    Means types (("-m " : Str) ++ m ++ ' ' :: (o ++ ' ' :: v))
      fun p => M.sees p.payload && (mk r).matches types p := by
  have hl : option "-m".toList m = some (.load M) := by
    have he : option "-m".toList m = (moduleOf m).map .load := rfl
    rw [he,hm]; rfl
  exact (means_option types (by constructor <;> decide) hw hl).append
    (means_option types ho (range_isWord hr) (by rw [hopt,hr]; rfl))

theorem protocolOf_number {v : Str} {n : Nat} (h : number v = some n) : protocolOf v = some n := by
  have hd := (number_isWord h).2
  have hne : ∀ c : Char, ¬('0' ≤ c ∧ c ≤ '9') → ∀ l : Str, v ≠ c::l := by
    intro c hc l he
    exact hc (hd c (by rw [he]; simp))
  have h₁ : v ≠ "tcp".toList := hne 't' (by decide) "cp".toList
  have h₂ : v ≠ "udp".toList := hne 'u' (by decide) "dp".toList
  have h₃ : v ≠ "icmp".toList := hne 'i' (by decide) "cmp".toList
  rw [protocolOf,if_neg h₁,if_neg h₂,if_neg h₃,h]

theorem tcpudp_means {d : Params} {a b : Option Range} (ha : portOf (d.val "SPORT") = some a)
    (hb : portOf (d.val "DPORT") = some b) :
    ServiceMeans types [("-m tcp -p tcp" : Str) ++ portText d,("-m udp -p udp" : Str) ++ portText d]
      (.tcpudp a b) := by
  have h₁ := tcp_means types ha hb
  have h₂ := udp_means types ha hb
  refine ⟨by simp,?_,?_⟩
  · intro x hx
    simp only [List.mem_cons,List.not_mem_nil,or_false] at hx
    rcases hx with rfl | rfl
    · exact ⟨_,h₁⟩
    · exact ⟨_,h₂⟩
  · rintro ⟨x,y,q⟩
    simp only [List.mem_cons,List.not_mem_nil,or_false,exists_eq_or_imp,exists_eq_left,
      h₁.ruleMatches,h₂.ruleMatches]
    cases q <;> simp [Service.matches]

theorem servicePieces_means {d : Params} {s : Service} (h : serviceOf d = some s) :
    ServiceMeans types (servicePieces d) s := by
  unfold serviceOf at h
  dsimp only at h
  split at h
  · rename_i ht
    split at h
    · rename_i hp
      obtain ⟨a,b,ha,hb,rfl⟩ := portsOf_some h
      have he : servicePieces d = [("-m tcp -p tcp" : Str) ++ portText d] := by
        unfold servicePieces; rw [ht,hp]; rfl
      rw [he]
      exact serviceMeans_single types (tcp_means types ha hb) fun _ => rfl
    · simp at h
  split at h
  · rename_i ht
    split at h
    · rename_i hp
      obtain ⟨a,b,ha,hb,rfl⟩ := portsOf_some h
      have he : servicePieces d = [("-m udp -p udp" : Str) ++ portText d] := by
        unfold servicePieces; rw [ht,hp]; rfl
      rw [he]
      exact serviceMeans_single types (udp_means types ha hb) fun _ => rfl
    · simp at h
  split at h
  · rename_i ht
    obtain ⟨a,b,ha,hb,rfl⟩ := portsOf_some h
    have he : servicePieces d =
        [("-m tcp -p tcp" : Str) ++ portText d,("-m udp -p udp" : Str) ++ portText d] := by
      unfold servicePieces; rw [ht]; rfl
    rw [he]
    exact tcpudp_means types ha hb
  split at h
  · rename_i ht
    have he : servicePieces d = [("-m icmp -p icmp" : Str)
        ++ if null (d.val "CODE") then [] else (" --icmp-type " : Str) ++ d.val "CODE"] := by
      unfold servicePieces; rw [ht]; rfl
    obtain ⟨hv,rfl⟩ : (d.val "CODE" = [] ∨ ' ' ∉ d.val "CODE") ∧
        s = .icmp (if null (d.val "CODE") then none else some (d.val "CODE")) := by
      split at h
      · rename_i hn
        simp only [Option.some.injEq] at h
        exact ⟨Or.inl (by simpa using hn),by rw [if_pos hn,← h]⟩
      · rename_i hn
        split at h
        · simp at h
        · rename_i hb
          simp only [Option.some.injEq] at h
          exact ⟨Or.inr hb,by rw [if_neg hn,← h]⟩
    rw [he]
    exact serviceMeans_single types (icmp_means types hv) fun _ => rfl
  split at h
  · rename_i ht
    obtain ⟨n,hn,rfl⟩ := Option.map_eq_some_iff.mp h
    have hw := (number_isWord hn).1
    have he : servicePieces d = if null (d.val "NUM") then [] else [("-p " : Str) ++ d.val "NUM"] := by
      unfold servicePieces; rw [ht]; rfl
    have ho : option "-p".toList (d.val "NUM") = some (.proto n) := by
      have hr : option "-p".toList (d.val "NUM") = (protocolOf (d.val "NUM")).map .proto := rfl
      rw [hr,protocolOf_number hn]; rfl
    rw [he,if_neg (by simpa using hw.ne)]
    exact serviceMeans_single types (s := .ip n)
      (means_option types (by constructor <;> decide) hw ho) fun p => by simp [Service.matches,Opt.matches]
  split at h
  · rename_i ht
    obtain ⟨r,hr,rfl⟩ := Option.map_eq_some_iff.mp h
    have he : servicePieces d =
        if null (d.val "SPI") then [] else [("-m ah --ahspi " : Str) ++ d.val "SPI"] := by
      unfold servicePieces; rw [ht]; rfl
    have hm := spi_means types (m := "ah".toList) (o := "--ahspi".toList) (by constructor <;> decide) rfl
      (by constructor <;> decide) (fun _ => rfl) hr
    rw [he,if_neg (by simpa using (range_isWord hr).ne)]
    refine serviceMeans_single types (s := .ah r) hm ?_
    rintro ⟨x,y,q⟩
    cases q <;> simp [Service.matches,Module.sees,Opt.matches]
  split at h
  · rename_i ht
    obtain ⟨r,hr,rfl⟩ := Option.map_eq_some_iff.mp h
    have he : servicePieces d =
        if null (d.val "SPI") then [] else [("-m esp --espspi " : Str) ++ d.val "SPI"] := by
      unfold servicePieces; rw [ht]; rfl
    have hm := spi_means types (m := "esp".toList) (o := "--espspi".toList) (by constructor <;> decide) rfl
      (by constructor <;> decide) (fun _ => rfl) hr
    rw [he,if_neg (by simpa using (range_isWord hr).ne)]
    refine serviceMeans_single types (s := .esp r) hm ?_
    rintro ⟨x,y,q⟩
    cases q <;> simp [Service.matches,Module.sees,Opt.matches]
  · simp at h

theorem flatMap_servicePieces_means {ds : List Params} (h : ∀ d ∈ ds, serviceOf d ≠ none) :
    (∀ x ∈ ds.flatMap servicePieces, ∃ f, Means types x f) ∧
    (ds.flatMap servicePieces = [] ↔ ds = []) ∧
    ∀ p, (∃ x ∈ ds.flatMap servicePieces, ruleMatches types x p) ↔
      ∃ d ∈ ds, (serviceOf d).any fun s => s.matches types p := by
  have hm : ∀ d ∈ ds, ∃ s, serviceOf d = some s ∧ ServiceMeans types (servicePieces d) s := by
    intro d hd
    obtain ⟨s,hs⟩ := Option.ne_none_iff_exists'.mp (h d hd)
    exact ⟨s,hs,servicePieces_means types hs⟩
  refine ⟨?_,?_,?_⟩
  · intro x hx
    obtain ⟨d,hd,hx⟩ := List.mem_flatMap.mp hx
    obtain ⟨s,-,hs⟩ := hm d hd
    exact hs.means x hx
  · constructor
    · intro he
      by_contra hne
      obtain ⟨d,ds',rfl⟩ := List.exists_cons_of_ne_nil hne
      obtain ⟨s,-,hs⟩ := hm d (by simp)
      rw [List.flatMap_cons,List.append_eq_nil_iff] at he
      exact hs.ne he.1
    · rintro rfl; rfl
  · intro p
    constructor
    · rintro ⟨x,hx,hp⟩
      obtain ⟨d,hd,hx⟩ := List.mem_flatMap.mp hx
      obtain ⟨s,hs,hsm⟩ := hm d hd
      exact ⟨d,hd,by rw [hs,Option.any_some]; exact (hsm.holds p).mp ⟨x,hx,hp⟩⟩
    · rintro ⟨d,hd,hp⟩
      obtain ⟨s,hs,hsm⟩ := hm d hd
      rw [hs,Option.any_some] at hp
      obtain ⟨x,hx,hp⟩ := (hsm.holds p).mpr hp
      exact ⟨x,List.mem_flatMap.mpr ⟨d,hd,hx⟩,hp⟩

/-- A name that resolves to objects, or the wildcard. -/
def Resolves {α : Type} (read : Params → Option α) (name : Str) (ds : List Params) : Prop :=
  name = ("any" : Str) ∨ ds ≠ [] ∧ ∀ d ∈ ds, read d ≠ none

theorem resolved_any {k : Kind} {name : Str} {w : World} (h : name = ("any" : Str)) :
    resolved pcre env k name w = ([],w) := by
  rw [resolved,looseEq_text (b := ("any" : Str)) rfl,if_pos (by simpa using h)]

theorem resolves_read {α : Type} {read : Params → Option α} {k : Kind} {name : Str} {w : World}
    (h : Resolves read name (resolved pcre env k name w).1) :
    (∀ d ∈ (resolved pcre env k name w).1, read d ≠ none) ∧
    ((resolved pcre env k name w).1 = [] ↔ name = ("any" : Str)) := by
  rcases h with h | ⟨hne,hr⟩
  · rw [resolved_any pcre env h]
    exact ⟨by simp,fun _ => h,fun _ => rfl⟩
  · refine ⟨hr,fun he => absurd he hne,fun ha => ?_⟩
    rw [resolved_any pcre env ha] at hne
    exact absurd rfl hne

/-- The generated rules match exactly the packets from a source, to a destination and of a
service among those the three names resolve to. -/
theorem policyNormalRulesData_exact (src dst service : Str) (w : World)
    (hany : ¬(src = ("any" : Str) ∧ dst = ("any" : Str) ∧ service = ("any" : Str)))
    (hs : Resolves netOf src (resolved pcre env .networks src w).1)
    (hd : Resolves netOf dst
      (resolved pcre env .networks dst (resolved pcre env .networks src w).2).1)
    (ht : Resolves serviceOf service (resolved pcre env .services service
      (resolved pcre env .networks dst (resolved pcre env .networks src w).2).2).1) (p : Packet) :
    let s := resolved pcre env .networks src w
    let d := resolved pcre env .networks dst s.2
    let t := resolved pcre env .services service d.2
    (∃ r ∈ (policyNormalRulesData pcre env src dst service w).1, ruleMatches types r p) ↔
      (src = ("any" : Str) ∨ ∃ o ∈ s.1, (netOf o).any fun n => n.has p.src) ∧
      (dst = ("any" : Str) ∨ ∃ o ∈ d.1, (netOf o).any fun n => n.has p.dst) ∧
      (service = ("any" : Str) ∨ ∃ o ∈ t.1, (serviceOf o).any fun v => v.matches types p) := by
  intro s d t
  obtain ⟨hs,hsa⟩ := resolves_read pcre env hs
  obtain ⟨hd,hda⟩ := resolves_read pcre env hd
  obtain ⟨ht,hta⟩ := resolves_read pcre env ht
  obtain ⟨hs₁,hs₂,hs₃⟩ := addrPieces_means types "-s" .src (by constructor <;> decide)
    (fun _ => rfl) hs
  obtain ⟨hd₁,hd₂,hd₃⟩ := addrPieces_means types "-d" .dst (by constructor <;> decide)
    (fun _ => rfl) hd
  obtain ⟨ht₁,ht₂,ht₃⟩ := flatMap_servicePieces_means types ht
  have h := policyList_matches types hs₁ hd₁ ht₁ p
  rw [hs₂,hd₂,ht₂,hs₃,hd₃,ht₃,hsa,hda,hta] at h
  change (∃ r ∈ policyList _ _ _, ruleMatches types r p) ↔ _
  rw [h]
  exact ⟨fun hh => hh.2,fun hh => ⟨hany,hh⟩⟩

/-- A network, a host and a service, one file each. -/
def siteWorld : World := World.ofFiles [
  ("definitions","network.cfg","ID=n1\nNAME=lan\nADDR=192.168.1.0\nPREF=24\n"),
  ("definitions","network_host.cfg","ID=h1\nNAME=web\nADDR=10.0.0.5\n"),
  ("definitions","service_tcp.cfg","ID=s1\nNAME=http\nPROTO=TCP\nSPORT=1:65535\nDPORT=80\n")]

def webPacket : Packet := ⟨3232235783,167772165,.tcp 1025 80⟩

theorem policyNormalRulesData_exact_web :
    ∃ r ∈ (policyNormalRulesData Pcre.plain noonEnv "lan" "web" "http" siteWorld).1,
      ruleMatches (fun _ _ _ => false) r webPacket := by
  have h := policyNormalRulesData_exact Pcre.plain noonEnv (fun _ _ _ => false) "lan" "web" "http"
    siteWorld (by decide) (Or.inr ⟨by decide,by decide⟩) (Or.inr ⟨by decide,by decide⟩)
    (Or.inr ⟨by decide,by decide⟩) webPacket
  exact h.mpr (by decide)

end Meaning

end Policy
end Mybox
