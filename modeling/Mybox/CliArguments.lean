import Mybox.DefinitionHandlers

/-! How the words of a command reach its handler. The vector loses the words of the command itself and with them
every slot that is empty or says NULL, and the handler counts what is left. -/
namespace Mybox
namespace CliArguments
open Php
open Definitions (arg)

/-- A slot that `_CLI_RESET_ARGS` takes over. -/
def given (v : Str) : Bool := !(looseEq v "NULL" || null v)

/-- `_CLI_TRIM_ARGS` keeps the positions. -/
def trimArgs (args : List Str) : List Str := args.map fun v => if null v || looseEq v "NULL" then [] else v

def resetArgs (num : Nat) (args : List Str) : List Str := (args.drop (num + 1)).filter given

/-- The words of a command, the number handed to `_CLI_RESET_ARGS`, and the handler that gets the vector. -/
structure Route where
  words : List Str
  num : Nat
  handler : Str
  deriving DecidableEq

/-- The loop over the positions of the vector; the commands that hand over single words are left out. -/
def dispatch (routes : List Route) (argv : List Str) : Option (Str × List Str) :=
  let argv := trimArgs argv
  (List.range' 1 (argv.length - 1)).findSome? fun x =>
    (routes.find? fun r => (argv.drop x).take r.words.length = r.words).map fun r =>
      (r.handler,resetArgs r.num argv)

def cliDefinitions : List Route := [
  ⟨["networks","add"],2,"___CLI_DEFINITIONS_NETWORKS_ADD"⟩,
  ⟨["networks","set"],2,"___CLI_DEFINITIONS_NETWORKS_SET"⟩,
  ⟨["services","add"],2,"___CLI_DEFINITIONS_SERVICES_ADD"⟩,
  ⟨["services","set"],2,"___CLI_DEFINITIONS_SERVICES_SET"⟩,
  ⟨["time_events","add"],2,"___CLI_DEFINITIONS_TIMEEVENT_ADD"⟩,
  ⟨["time_events","set"],2,"___CLI_DEFINITIONS_TIMEEVENT_SET"⟩]

def cliInterfaces : List Route := [
  ⟨["ip","add","static"],3,"___CLI_INTERFACES_ADD_STATIC"⟩,
  ⟨["ip","add","vlan"],3,"___CLI_INTERFACES_ADD_VLAN"⟩,
  ⟨["ip","add","dhcp"],3,"___CLI_INTERFACES_ADD_DHCP"⟩,
  ⟨["ip","add","pppoe"],3,"___CLI_INTERFACES_ADD_PPPOE"⟩,
  ⟨["ip","set","static"],3,"___CLI_INTERFACES_SET_STATIC"⟩,
  ⟨["ip","set","vlan"],3,"___CLI_INTERFACES_SET_VLAN"⟩,
  ⟨["ip","set","dhcp"],3,"___CLI_INTERFACES_SET_DHCP"⟩,
  ⟨["ip","set","pppoe"],3,"___CLI_INTERFACES_SET_PPPOE"⟩,
  ⟨["vip","add"],2,"___CLI_INTERFACES_ADD_VIP"⟩,
  ⟨["vip","set"],2,"___CLI_INTERFACES_SET_VIP"⟩]

def cliRouteConfig : List Route := [
  ⟨["static","add"],2,"___CLI_ROUTE_CONFIG_STATIC_ADD"⟩,
  ⟨["static","set"],2,"___CLI_ROUTE_CONFIG_STATIC_SET"⟩,
  ⟨["policy","add"],2,"___CLI_ROUTE_CONFIG_POLICY_ADD"⟩,
  ⟨["policy","set"],2,"___CLI_ROUTE_CONFIG_POLICY_SET"⟩]

def cliDhcpConfig : List Route := [
  ⟨["server","add"],2,"___CLI_DHCP_CONFIG_SERVER_ADD"⟩,
  ⟨["server","set"],2,"___CLI_DHCP_CONFIG_SERVER_SET"⟩,
  ⟨["static","add"],2,"___CLI_DHCP_CONFIG_STATIC_ADD"⟩,
  ⟨["static","set"],2,"___CLI_DHCP_CONFIG_STATIC_SET"⟩,
  ⟨["relay","set"],2,"___CLI_DHCP_CONFIG_RELAY_SET"⟩]

def cliAccessControl : List Route := [
  ⟨["acl","add"],2,"___CLI_ACCESS_CONTROL_ADD"⟩,
  ⟨["acl","set"],2,"___CLI_ACCESS_CONTROL_SET"⟩,
  ⟨["config","security","exclude"],3,"___CLI_ACCESS_CONTROL_SECURITY_EXCLUDE"⟩]

def cliStaticArp : List Route := [⟨["add"],1,"___CLI_STATIC_ARP_ADD"⟩]

def cliDnsConfig : List Route := [
  ⟨["routing","add"],2,"___CLI_DNS_ROUTING_ADD"⟩,
  ⟨["routing","set"],2,"___CLI_DNS_ROUTING_SET"⟩,
  ⟨["static","add"],2,"___CLI_DNS_STATIC_ADD"⟩,
  ⟨["static","set"],2,"___CLI_DNS_STATIC_SET"⟩,
  ⟨["dyndns","add"],2,"___CLI_DNS_DYNDNS_ADD"⟩,
  ⟨["dyndns","set"],2,"___CLI_DNS_DYNDNS_SET"⟩]

/-- The programs with commands that hand over the vector. -/
def clis : List (List Route) :=
  [cliDefinitions,cliInterfaces,cliRouteConfig,cliDhcpConfig,cliAccessControl,cliStaticArp,cliDnsConfig]

/-- What a parameter says: nothing when it is omitted. -/
def clean (v : Str) : Str := if given v then v else []

/-- An omitted parameter has no given one behind it. -/
def InOrder (params : List Str) : Prop := params.Pairwise fun a b => given b = true → given a = true

instance (params : List Str) : Decidable (InOrder params) := inferInstanceAs (Decidable (List.Pairwise _ _))

theorem given_ne {v : Str} (h : given v = true) : v ≠ [] := by
  rintro rfl
  exact absurd h (by decide)

@[simp] theorem clean_nil : clean [] = [] := by decide

theorem clean_eq (v : Str) : (if null v || looseEq v "NULL" then [] else v) = clean v := by
  rw [clean,given,Bool.or_comm]
  cases looseEq v "NULL" || null v <;> rfl

@[simp] theorem given_clean (v : Str) : given (clean v) = given v := by
  by_cases h : given v = true
  · rw [clean,if_pos h]
  · rw [clean,if_neg h,Bool.eq_false_iff.mpr h]
    decide

theorem trimArgs_eq (args : List Str) : trimArgs args = args.map clean :=
  List.map_congr_left fun v _ => clean_eq v

theorem filter_clean (params : List Str) : (params.map clean).filter given = params.filter given := by
  induction params with
  | nil => rfl
  | cons v params ih =>
    rw [List.map_cons,List.filter_cons,List.filter_cons,given_clean,ih]
    split
    · rename_i h
      rw [clean,if_pos h]
    · rfl

theorem arg_cons (v : Str) (args : List Str) (i : ℕ) : arg (v::args) (i + 1) = arg args i := rfl

theorem filter_eq_nil {params : List Str} (h : ∀ v ∈ params, given v = false) : params.filter given = [] :=
  List.filter_eq_nil_iff.mpr fun v hv => by simp [h v hv]

/-- Counting what is given finds every parameter in its place exactly when nothing given follows an omission. -/
theorem kept_iff (params : List Str) :
    (∀ i, arg (params.filter given) i = clean (arg params i)) ↔ InOrder params := by
  induction params with
  | nil =>
    refine iff_of_true (fun i => ?_) List.Pairwise.nil
    simp [arg]
  | cons v params ih =>
    rw [InOrder,List.pairwise_cons]
    by_cases hv : given v = true
    · rw [List.filter_cons,if_pos hv]
      constructor
      · intro h
        exact ⟨fun _ _ _ => hv,ih.mp fun i => h (i + 1)⟩
      · rintro ⟨-,h⟩ i
        cases i with
        | zero => simp [arg,clean,hv]
        | succ i => exact ih.mpr h i
    · rw [List.filter_cons,if_neg hv]
      have hz : clean (arg (v::params) 0) = [] := by simp [arg,clean,hv]
      constructor
      · intro h
        have hn : params.filter given = [] := by
          cases hf : params.filter given with
          | nil => rfl
          | cons w ws =>
            have hw : given w = true := (List.mem_filter.mp (hf ▸ List.mem_cons_self : w ∈ params.filter given)).2
            have h₀ := h 0
            rw [hz,hf] at h₀
            exact absurd h₀ (given_ne hw)
        have hall := List.filter_eq_nil_iff.mp hn
        refine ⟨fun b hb hg => absurd hg (hall b hb),ih.mp fun i => ?_⟩
        rw [← arg_cons v params i,← h (i + 1),hn]
        rfl
      · rintro ⟨ha,h⟩ i
        have hn := filter_eq_nil fun b hb => Bool.eq_false_iff.mpr fun hg => hv (ha b hb hg)
        rw [hn]
        cases i with
        | zero => exact hz.symm
        | succ i => rw [arg_cons,← ih.mpr h i,hn]; rfl

theorem clis_wellFormed : ∀ rs ∈ clis, ∀ r ∈ rs, r.num = r.words.length ∧ r.words ≠ [] ∧ r.words.map clean = r.words ∧
    ∀ r' ∈ rs, r'.words <+: r.words ∨ r.words <+: r'.words → r' = r := by
  decide +kernel

theorem find?_unique {α : Type} {l : List α} {p : α → Bool} {a : α} (ha : a ∈ l) (hp : p a = true)
    (hu : ∀ b ∈ l, p b = true → b = a) : l.find? p = some a := by
  cases h : l.find? p with
  | none => exact absurd hp (List.find?_eq_none.mp h a ha)
  | some b => rw [hu b (List.mem_of_find?_eq_some h) (List.find?_some h)]

/-- The vector of a command reaches its handler, and the handler gets what is given of the parameters. -/
theorem dispatch_command {rs : List Route} (hrs : rs ∈ clis) {r : Route} (hr : r ∈ rs) (script : Str) (params : List Str) :
    dispatch rs (script :: (r.words ++ params)) = some (r.handler,params.filter given) := by
  obtain ⟨hnum,hne,hclean,hfree⟩ := clis_wellFormed rs hrs r hr
  have hargv : trimArgs (script :: (r.words ++ params)) = clean script :: (r.words ++ params.map clean) := by
    rw [trimArgs_eq,List.map_cons,List.map_append,hclean]
  have hfind : (rs.find? fun r' => ((clean script :: (r.words ++ params.map clean)).drop 1).take r'.words.length =
      r'.words) = some r := by
    refine find?_unique hr (by simp) fun r' hr' hp => hfree r' hr' ?_
    have hp' : r'.words <+: r.words ++ params.map clean := by
      rw [List.prefix_iff_eq_take]
      exact (of_decide_eq_true hp).symm
    exact List.prefix_or_prefix_of_prefix hp' (List.prefix_append _ _)
  have hreset : resetArgs r.num (clean script :: (r.words ++ params.map clean)) = params.filter given := by
    rw [resetArgs,hnum,List.drop_succ_cons,List.drop_left,filter_clean]
  obtain ⟨w,ws,hw⟩ := List.exists_cons_of_ne_nil hne
  have hlen : (clean script :: (r.words ++ params.map clean)).length - 1 = (ws ++ params.map clean).length + 1 := by
    simp [hw]
  rw [dispatch,hargv,hlen,List.range'_succ,List.findSome?_cons,hfind]
  simp only [Option.map_some,hreset]

/-- Every variable of the handler has the parameter of its place. -/
def Placed (rs : List Route) (r : Route) (script : Str) (params : List Str) : Prop :=
  ∃ args, dispatch rs (script :: (r.words ++ params)) = some (r.handler,args) ∧
    ∀ i, arg args i = clean (arg params i)

/-- The parameters of a command reach their places exactly when no omitted one has a given one behind it. -/
theorem placed_iff (rs : List Route) (r : Route) (script : Str) (params : List Str) (hrs : rs ∈ clis) (hr : r ∈ rs) :
    Placed rs r script params ↔ InOrder params := by
  rw [Placed,dispatch_command hrs hr,← kept_iff]
  constructor
  · rintro ⟨args,ha,h⟩
    obtain rfl : params.filter given = args := (Prod.mk.inj (Option.some.inj ha)).2
    exact h
  · exact fun h => ⟨_,rfl,h⟩

def networksAdd : Route := ⟨["networks","add"],2,"___CLI_DEFINITIONS_NETWORKS_ADD"⟩

theorem placed_host : Placed cliDefinitions networksAdd "definitions.exc" ["host","web","10.0.0.5","front","NULL"] :=
  (placed_iff cliDefinitions networksAdd _ _ (by decide) (by decide)).mpr (by decide)

def hostParams : List Str := ["host","web","10.0.0.5","","1"]

/-- The resource ID of the interface then stands in the place of the description. -/
theorem not_placed : ¬∀ (rs : List Route) (r : Route) (script : Str) (params : List Str), rs ∈ clis → r ∈ rs →
    Placed rs r script params := by
  intro h
  obtain ⟨args,ha,hp⟩ := h cliDefinitions networksAdd "definitions.exc" hostParams (by decide) (by decide)
  have hd : dispatch cliDefinitions (("definitions.exc" : Str) :: (networksAdd.words ++ hostParams)) =
      some (networksAdd.handler,hostParams.filter given) := by decide
  rw [hd] at ha
  obtain ⟨-,rfl⟩ := Prod.mk.inj (Option.some.inj ha)
  exact absurd (hp 3) (by decide)

end CliArguments
end Mybox
