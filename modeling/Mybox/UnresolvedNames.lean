import Mybox.PolicyRoutes

/-! What the rules of a policy route match when one of its names is the wildcard, and when
one of them stands for nothing. -/
namespace Mybox
namespace PolicyRoutes

open Php RegistryFormat Registry Definitions Policy PacketFilter

variable (pcre : Pcre) (env : Env) (types : Types)

/-- The lists of rule pieces the names of an entry stand for, and where its routes go. -/
structure RuleSet where
  target : Str
  srcs : List Str
  dsts : List Str
  services : List Str
  device : Str
  deriving DecidableEq

def RuleSet.rules (g : RuleSet) : List Rule :=
  if null g.target then [] else product g.srcs g.dsts g.services

/-- `_policy_normal_rules_data` behind the lookup of the target, before its lists are put
together. -/
def ruleSet (fuel : Nat) (d : Params) (s : RouteState) : Option RuleSet :=
  (routeTarget pcre env fuel d s).bind fun t =>
    let src := resolved pcre env .networks (d.val "SRC") t.2.world
    let dst := resolved pcre env .networks (d.val "DST") src.2
    let service := resolved pcre env .services (d.val "SERVICE") dst.2
    (routePlan pcre env fuel d s).map fun p =>
      ⟨t.1,addrPieces "-s" src.1,addrPieces "-d" dst.1,service.1.flatMap servicePieces,p.1.device⟩

/-- A packet, and the device it comes in by. -/
structure Arrival where
  packet : Packet
  device : Str

/-- `-i`; a name that ends in a plus sign stands for every name it starts. -/
def throughDevice (device x : Str) : Bool :=
  if device = [] then true
  else if (device.drop 3).getLast? = some '+' then (device.drop 3).dropLast.isPrefixOf x
  else device.drop 3 = x

def RuleSet.Matches (g : RuleSet) (a : Arrival) : Prop :=
  ∃ r ∈ g.rules, (∀ x ∈ r.pieces, ruleMatches types x a.packet = true) ∧
    throughDevice g.device a.device = true

instance (g : RuleSet) (a : Arrival) : Decidable (g.Matches types a) :=
  inferInstanceAs (Decidable (∃ r ∈ g.rules, _ ∧ _))

def AllAny (d : Params) : Prop :=
  d.val "SRC" = ("any" : Str) ∧ d.val "DST" = ("any" : Str) ∧ d.val "SERVICE" = ("any" : Str)

instance (d : Params) : Decidable (AllAny d) := inferInstanceAs (Decidable (_ ∧ _))

/-- The wildcard matches everything, and a name that stands for nothing lets no packet
through that a name standing for something would stop. -/
structure Distinguishes (d : Params) (g : RuleSet) : Prop where
  wildcard : AllAny d → ∃ r ∈ g.rules, ∀ a : Arrival, throughDevice g.device a.device = true →
    ∀ x ∈ r.pieces, ruleMatches types x a.packet = true
  src : d.val "SRC" ≠ ("any" : Str) → g.srcs = [] → ∀ os : List Params, os ≠ [] →
    (∀ o ∈ os, netOf o ≠ none) → ∀ a, g.Matches types a →
      ({ g with srcs := addrPieces "-s" os } : RuleSet).Matches types a
  dst : d.val "DST" ≠ ("any" : Str) → g.dsts = [] → ∀ os : List Params, os ≠ [] →
    (∀ o ∈ os, netOf o ≠ none) → ∀ a, g.Matches types a →
      ({ g with dsts := addrPieces "-d" os } : RuleSet).Matches types a
  service : d.val "SERVICE" ≠ ("any" : Str) → g.services = [] → ∀ os : List Params, os ≠ [] →
    (∀ o ∈ os, serviceOf o ≠ none) → ∀ a, g.Matches types a →
      ({ g with services := os.flatMap servicePieces } : RuleSet).Matches types a
  device : d.val "DNAME" ≠ ("any" : Str) → g.device = [] → ∀ n : Str, n ≠ [] → ∀ a,
    g.Matches types a → ({ g with device := ("-i " : Str) ++ n } : RuleSet).Matches types a

/-- One of the names is not the wildcard and stands for nothing. -/
def Unresolved (d : Params) (g : RuleSet) : Prop :=
  (d.val "SRC" ≠ ("any" : Str) ∧ g.srcs = []) ∨ (d.val "DST" ≠ ("any" : Str) ∧ g.dsts = []) ∨
  (d.val "SERVICE" ≠ ("any" : Str) ∧ g.services = []) ∨
  (d.val "DNAME" ≠ ("any" : Str) ∧ g.device = [])

def RuleSet.Admits (g : RuleSet) (a : Arrival) : Prop :=
  (g.srcs = [] ∨ ∃ x ∈ g.srcs, ruleMatches types x a.packet = true) ∧
  (g.dsts = [] ∨ ∃ x ∈ g.dsts, ruleMatches types x a.packet = true) ∧
  (g.services = [] ∨ ∃ x ∈ g.services, ruleMatches types x a.packet = true) ∧
  throughDevice g.device a.device = true

/-- Nothing is written, or there is a list without packets. -/
def RuleSet.Idle (g : RuleSet) : Prop :=
  g.target = [] ∨ (g.srcs = [] ∧ g.dsts = [] ∧ g.services = []) ∨ ∀ a, ¬g.Admits types a

theorem matches_iff {g : RuleSet} {a : Arrival} : g.Matches types a ↔
    g.target ≠ [] ∧ ¬(g.srcs = [] ∧ g.dsts = [] ∧ g.services = []) ∧ g.Admits types a := by
  have hp := product_holds g.srcs g.dsts g.services
    fun x => ruleMatches types x a.packet = true
  unfold RuleSet.Matches RuleSet.rules RuleSet.Admits
  by_cases ht : g.target = []
  · simp [ht]
  · rw [if_neg (by simpa using ht)]
    constructor
    · rintro ⟨r,hr,hx,hd⟩
      obtain ⟨he,hs,hds,hv⟩ := hp.mp ⟨r,hr,hx⟩
      exact ⟨ht,he,hs,hds,hv,hd⟩
    · rintro ⟨-,he,hs,hds,hv,hd⟩
      obtain ⟨r,hr,hx⟩ := hp.mpr ⟨he,hs,hds,hv⟩
      exact ⟨r,hr,hx,hd⟩

theorem not_matches_iff {g : RuleSet} : (∀ a, ¬g.Matches types a) ↔ g.Idle types := by
  unfold RuleSet.Idle
  constructor
  · intro h
    by_contra hn
    simp only [not_or,not_forall,not_not] at hn
    obtain ⟨ht,he,a,ha⟩ := hn
    exact h a ((matches_iff types).mpr ⟨ht,he,ha⟩)
  · intro h a ha
    obtain ⟨ht,he,had⟩ := (matches_iff types).mp ha
    rcases h with h | h | h
    · exact ht h
    · exact he h
    · exact h a had

def host (addr : Str) : Params := (∅ : Params).set "ADDR" addr

def protocol (num : Str) : Params := ((∅ : Params).set "__DATA_TYPE" "ip").set "NUM" num

theorem exists_other_host (opt : Str) (mk : Net → Opt) (ho : IsWord opt)
    (hopt : ∀ w, option opt w = (net w).map mk) (side : Packet → Nat)
    (hm : ∀ n p, (mk n).matches types p = n.has (side p)) (p : Packet) :
    ∃ os : List Params, os ≠ [] ∧ (∀ o ∈ os, netOf o ≠ none) ∧ addrPieces opt os ≠ [] ∧
      ¬∃ x ∈ addrPieces opt os, ruleMatches types x p = true := by
  have key : ∀ (o : Params) (k : Nat), netOf o = some ⟨k,32⟩ → side p ≠ k →
      [o] ≠ [] ∧ (∀ x ∈ [o], netOf x ≠ none) ∧ addrPieces opt [o] ≠ [] ∧
        ¬∃ x ∈ addrPieces opt [o], ruleMatches types x p = true := by
    intro o k hk hp
    have hn : ∀ x ∈ [o], netOf x ≠ none := by simp [hk]
    obtain ⟨-,he,hx⟩ := addrPieces_means types opt mk ho hopt hn
    refine ⟨by simp,hn,by rw [ne_eq,he]; simp,?_⟩
    rw [hx p]
    simp [hk,hm,Net.has,hp]
  by_cases h₀ : side p = 0
  · exact ⟨_,key (host "0.0.0.1") 1 (by decide) (by omega)⟩
  · exact ⟨_,key (host "0.0.0.0") 0 (by decide) h₀⟩

theorem exists_other_service (p : Packet) :
    ∃ os : List Params, os ≠ [] ∧ (∀ o ∈ os, serviceOf o ≠ none) ∧ os.flatMap servicePieces ≠ [] ∧
      ¬∃ x ∈ os.flatMap servicePieces, ruleMatches types x p = true := by
  have key : ∀ (o : Params) (k : Nat), serviceOf o = some (.ip (k+1)) → p.payload.proto ≠ k+1 →
      [o] ≠ [] ∧ (∀ x ∈ [o], serviceOf x ≠ none) ∧ [o].flatMap servicePieces ≠ [] ∧
        ¬∃ x ∈ [o].flatMap servicePieces, ruleMatches types x p = true := by
    intro o k hk hp
    have hn : ∀ x ∈ [o], serviceOf x ≠ none := by simp [hk]
    obtain ⟨-,he,hx⟩ := flatMap_servicePieces_means types hn
    refine ⟨by simp,hn,by rw [ne_eq,he]; simp,?_⟩
    rw [hx p]
    simp [hk,Service.matches,hp]
  by_cases h₆ : p.payload.proto = 6
  · exact ⟨_,key (protocol "17") 16 (by decide) (by omega)⟩
  · exact ⟨_,key (protocol "6") 5 (by decide) h₆⟩

theorem exists_other_device (x : Str) : ∃ n : Str, n ≠ [] ∧
    throughDevice (("-i " : Str) ++ n) x = false := by
  by_cases hx : x = ("a" : Str)
  · subst hx
    exact ⟨"b",by decide,by decide⟩
  · refine ⟨"a",by decide,?_⟩
    have h : throughDevice (("-i " : Str) ++ ("a" : Str)) x = decide (("a" : Str) = x) := rfl
    rw [h]
    exact decide_eq_false fun hh => hx hh.symm

theorem ruleSet_allAny {fuel : Nat} {d : Params} {s : RouteState} {g : RuleSet}
    (h : ruleSet pcre env fuel d s = some g) (ha : AllAny d) : g.rules = [] := by
  obtain ⟨t,-,h⟩ := Option.bind_eq_some_iff.mp h
  obtain ⟨r,-,rfl⟩ := Option.map_eq_some_iff.mp h
  simp only [resolved_any pcre env ha.1,resolved_any pcre env ha.2.1,resolved_any pcre env ha.2.2]
  unfold RuleSet.rules
  split <;> rfl

/-- A rule set keeps the wildcard and a lost name apart exactly when its three names are not
all the wildcard and, where a name is lost, no packet is matched at all. -/
theorem ruleSet_distinguishes_iff {fuel : Nat} {d : Params} {s : RouteState} {g : RuleSet}
    (h : ruleSet pcre env fuel d s = some g) :
    Distinguishes types d g ↔ ¬AllAny d ∧ (Unresolved d g → g.Idle types) := by
  constructor
  · intro hd
    refine ⟨?_,fun hu => (not_matches_iff types).mp fun a hm => ?_⟩
    · intro ha
      obtain ⟨r,hr,-⟩ := hd.wildcard ha
      rw [ruleSet_allAny pcre env h ha] at hr
      simp at hr
    · rcases hu with ⟨hn,he⟩ | ⟨hn,he⟩ | ⟨hn,he⟩ | ⟨hn,he⟩
      · obtain ⟨os,ho,hr,hne,hx⟩ := exists_other_host types "-s" .src
          (by constructor <;> decide) (fun _ => rfl) Packet.src (fun _ _ => rfl) a.packet
        have hm' := (matches_iff types).mp (hd.src hn he os ho hr a hm)
        exact hx (hm'.2.2.1.resolve_left hne)
      · obtain ⟨os,ho,hr,hne,hx⟩ := exists_other_host types "-d" .dst
          (by constructor <;> decide) (fun _ => rfl) Packet.dst (fun _ _ => rfl) a.packet
        have hm' := (matches_iff types).mp (hd.dst hn he os ho hr a hm)
        exact hx (hm'.2.2.2.1.resolve_left hne)
      · obtain ⟨os,ho,hr,hne,hx⟩ := exists_other_service types a.packet
        have hm' := (matches_iff types).mp (hd.service hn he os ho hr a hm)
        exact hx (hm'.2.2.2.2.1.resolve_left hne)
      · obtain ⟨n,hne,hx⟩ := exists_other_device a.device
        have hm' := (matches_iff types).mp (hd.device hn he n hne a hm)
        rw [RuleSet.Admits,hx] at hm'
        exact absurd hm'.2.2.2.2.2 (by decide)
  · rintro ⟨ha,hi⟩
    have hn : Unresolved d g → ∀ a, ¬g.Matches types a := fun hu =>
      (not_matches_iff types).mpr (hi hu)
    exact ⟨fun hh => absurd hh ha,
      fun h₁ h₂ _ _ _ a hm => absurd hm (hn (Or.inl ⟨h₁,h₂⟩) a),
      fun h₁ h₂ _ _ _ a hm => absurd hm (hn (Or.inr (Or.inl ⟨h₁,h₂⟩)) a),
      fun h₁ h₂ _ _ _ a hm => absurd hm (hn (Or.inr (Or.inr (Or.inl ⟨h₁,h₂⟩))) a),
      fun h₁ h₂ _ _ a hm => absurd hm (hn (Or.inr (Or.inr (Or.inr ⟨h₁,h₂⟩))) a)⟩

/-- A route for packets to the network, by way of the gateway. -/
def routeData (src dst : Str) : Params := (∅ : Params).setAll [("ROUTE_TYPE","gateway"),
  ("ROUTE_GATEWAY","gw"),("DNAME","any"),("SRC",src),("DST",dst),("SERVICE","any"),("STAT","1")]

def lanSet : RuleSet := ⟨"10.0.0.1",[],["-d 192.168.1.0/24"],[],[]⟩

theorem ruleSet_lost : ruleSet Pcre.plain noonEnv 1 (routeData "old" "lan") (startState twoRoutes) =
    some lanSet := by
  decide

theorem ruleSet_distinguishes_iff_lost :
    Distinguishes (fun _ _ _ => false) (routeData "old" "lan") lanSet ↔
      ¬AllAny (routeData "old" "lan") ∧ (Unresolved (routeData "old" "lan") lanSet →
        lanSet.Idle fun _ _ _ => false) :=
  ruleSet_distinguishes_iff Pcre.plain noonEnv (fun _ _ _ => false) ruleSet_lost

/-- With the source of a route deleted, a packet from 10.0.0.5 is routed that is not routed
when the source stands for 10.0.0.1; and three wildcards make no rule. -/
theorem names_not_distinguished :
    (∃ g, ruleSet Pcre.plain noonEnv 1 (routeData "old" "lan") (startState twoRoutes) = some g ∧
      ¬Distinguishes (fun _ _ _ => false) (routeData "old" "lan") g) ∧
    ∃ g, ruleSet Pcre.plain noonEnv 1 (routeData "any" "any") (startState twoRoutes) = some g ∧
      ¬Distinguishes (fun _ _ _ => false) (routeData "any" "any") g := by
  constructor
  · refine ⟨lanSet,ruleSet_lost,fun h => ?_⟩
    have hm := h.src (by decide) rfl [host "10.0.0.1"] (by decide) (by decide)
      ⟨⟨167772165,3232235783,.other 0⟩,[]⟩ (by decide)
    exact absurd hm (by decide)
  · refine ⟨⟨"10.0.0.1",[],[],[],[]⟩,by decide,fun h => ?_⟩
    obtain ⟨r,hr,-⟩ := h.wildcard (by decide)
    exact absurd hr (List.not_mem_nil)

end PolicyRoutes
end Mybox
