import Mybox.AclList
import Mybox.DnsCommands

/-! Commands that take a number off the screen: which entry they find under it. -/
namespace Mybox
namespace ShownIds

open Php RegistryFormat Registry References DnsCommands
open Interfaces (Ipv6 dataOf ethName setVipPname vipOf Sound netFiles textOf ipv4Only)
open ResourceIds (addName objGetName)

variable (pcre : Pcre) (v6 : Ipv6) (env : Env)

/-- The types `___CLI_INTERFACES_PRINT` shows for an option. -/
def interfaceTypes (opt : Str) : List Str :=
  if looseEq opt "static" then ["static"]
  else if looseEq opt "vlan" then ["vlan"]
  else if looseEq opt "pppoe" then ["pppoe"]
  else if looseEq opt "dhcp" then ["dhcp","pppoe"]
  else ["static","vlan","dhcp","pppoe"]

def interfaceDisplay (opt : Str) (d : Params) : Option Params :=
  if null (d.val "NAME") || null (d.val "TYPE") then none
  else if (interfaceTypes opt).any fun t => looseEq (d.val "TYPE") t then some d else none

def interfacesPrint (opt : Str) (w : World) : Option Listing × World := printFile env (interfaceDisplay opt) "eth.cfg" w

def vipDisplay (d : Params) : Option Params := if null (d.val "NAME") || null (d.val "PNAME") then none else some d

def interfacesPrintVip (w : World) : Option Listing × World := printFile env vipDisplay "additional.cfg" w

def routeSlot (q : Str × Str) : ResourceIds.Slot :=
  ((∅ : ResourceIds.Slot).set (.text "id") (.id q.1)).set (.text "type") (.id q.2)

/-- `$_obj` of the static routes on display. -/
def routesObj (routes : List (Str × Str)) : ResourceIds.Obj :=
  OrdMap.empty.setAll ((routes.zipIdx 1).map fun q => (q.2,routeSlot q.1))

/-- `___CLI_INTERFACES_SET_VIP` of the parent: its number is looked up in the list of the aliases. -/
def interfacesSetVipPname (vip : OrdMap ℕ Str) (sid parent : Str) (w : World) : Bool × World :=
  match objAt vip sid with
  | none => (false,w)
  | some id =>
    match objAt vip parent with
    | none => (false,(vipOf env id w).2)
    | some p => setVipPname env id p w

/-- The network of `___CLI_ROUTE_CONFIG_STATIC_SET`: its number is looked up in the list of the routes. -/
def routeSetNetwork (routes : List (Str × Str)) (val : Str) (w : World) : Str :=
  (objGetName pcre env (routesObj routes) .networks val [] w).1

/-- What was listed last; nothing is when there was nothing to list. -/
def listed (r : Option Listing × World) : Listing := r.1.getD ⟨1,∅,[]⟩

/-- The lists on the screen. -/
structure Screen where
  statics : Listing
  routings : Listing
  aliases : Listing
  interfaces : Listing
  networks : List ResourceIds.Row
  routes : List (Str × Str)

def SameEffect {ρ : Type} (r s : ρ × World) : Prop := r.1 = s.1 ∧ r.2.reg = s.2.reg

/-- The commands act on what the screen shows under the numbers. -/
structure ActsOnShown (s : Screen) (w : World) : Prop where
  statics : ∀ r ∈ s.statics.rows, ∀ param value, SameEffect
    (dnsStaticSet v6 env s.statics.obj param (decimal r.cnt) value w)
    (setEntry env "named_static.cfg" r.id (staticData v6 param value) w)
  routings : ∀ r ∈ s.routings.rows, ∀ list param value, SameEffect
    (dnsRoutingSet env s.routings.obj list param (decimal r.cnt) value w)
    (setEntry env "named_routing.cfg" r.id (routingData list param value) w)
  aliases : ∀ a ∈ s.aliases.rows, ∀ r ∈ s.interfaces.rows, SameEffect
    (interfacesSetVipPname env s.aliases.obj (decimal a.cnt) (decimal r.cnt) w) (setVipPname env a.id r.id w)
  networks : s.routes ≠ [] → ∀ r ∈ s.networks, routeSetNetwork pcre env s.routes (decimal r.cnt) w = r.name

/-- The name found for a route: its ID is taken for one of an object of the type `id`, its type for one of the
type `type`. -/
def strayName (route : Option (Str × Str)) (w : World) : Str :=
  match route with
  | none => []
  | some q =>
    let r := addName pcre env .networks [] ([],w) "id" q.1
    trimWith (",") (addName pcre env .networks [] r "type" q.2).1

/-- The numbers on the screen happen to be those of the entries. -/
structure Coincide (s : Screen) (w : World) : Prop where
  statics : ∀ r ∈ s.statics.rows, r.id = decimal r.cnt
  routings : ∀ r ∈ s.routings.rows, r.id = decimal r.cnt
  aliases : ∀ a ∈ s.aliases.rows, ∀ r ∈ s.interfaces.rows, ∃ j, s.aliases.obj.get? r.cnt = some j ∧
    ethName env j w = ethName env r.id w

theorem dataOf_name {k : Str} (v : Str) (hk : k ≠ "NAME") : (dataOf [(k,v)]).val "NAME" = [] := by
  rw [Params.val,OrdMap.getD,Interfaces.dataOf_single,if_neg hk]
  rfl

theorem update_unwritable {sec fil : Str} {data : Params} {w : World} (hc : Coherent sec fil w) (hs : env.strg = false)
    (hn : data.val "NAME" = []) (id : Str) : (iniTokenUpdate env sec fil id data w).1 = .fail ∧
      (iniTokenUpdate env sec fil id data w).2.reg = w.reg := by
  have hf : (iniTokenUpdate env sec fil id data w).1 = .fail := by
    by_contra h
    rw [(AccessList.update_ok_of env hn h).2] at hs
    simp at hs
  refine ⟨hf,?_⟩
  rcases iniTokenUpdate_spec env sec fil id data hc with ⟨p,-,hr⟩ | ⟨-,-,hr⟩
  · exact hr.refused (by rw [hf]; simp)
  · exact (hr []).refused (by rw [hf]; simp)

/-- The note of an entry after an update of another one and after its own. -/
theorem note_other {fil id k : Str} {w : World} (hc : Coherent "network" fil w)
    (hcan : Canonical (entries "network" fil w)) (hs : env.strg = true) (hk : k ≠ id) {p : Params}
    (hp : (entries "network" fil w).get? id = some p) {v : Str} (hv : carried v = v ∧ '\n' ∉ v)
    (h : SameEffect (iniTokenUpdate env "network" fil k (dataOf [("NOTE",v)]) w)
      (iniTokenUpdate env "network" fil id (dataOf [("NOTE",v)]) w)) : p.val "NOTE" = v := by
  have hd : WritableData (dataOf [("NOTE",v)]) := Interfaces.writable_one (by decide) hv.2
  have hok := Interfaces.update_done env hc hcan hs hp (Or.inl (dataOf_name (k:="NOTE") v (by decide)))
  obtain ⟨q,hq,-,he⟩ := iniTokenUpdate_read env hc hcan id hd hok
  obtain ⟨q',-,-,he'⟩ := iniTokenUpdate_read env hc hcan k hd (h.1.trans hok)
  rw [entries_congr "network" fil h.2,he] at he'
  have hg := congrArg (fun t : Token => t.get? id) he'
  rw [OrdMap.get?_set_self,OrdMap.get?_set_ne _ _ hk,hp] at hg
  rw [← Option.some.inj hg,Interfaces.readBack_val _ (by decide),Params.val,OrdMap.getD]
  have hes : (carriedParams (dataOf [("NOTE",v)])).entries = [(("NOTE" : Str),carried v)] := rfl
  rw [hes,OrdMap.setAll_cons,OrdMap.setAll_nil,OrdMap.get?_set_self,hv.1]
  rfl

/-- A number updates the entry beside it when it is its ID, or when nothing can be written. -/
theorem update_same_iff {fil id k : Str} {w : World} (hc : Coherent "network" fil w)
    (hcan : Canonical (entries "network" fil w)) {p : Params} (hp : (entries "network" fil w).get? id = some p)
    {β : Type} {data : β → Option Params} (hn : ∀ b d, data b = some d → d.val "NAME" = [])
    (hnote : ∀ v, ∃ b, data b = some (dataOf [("NOTE",v)])) :
    (∀ b, SameEffect (setEntry env fil k (data b) w) (setEntry env fil id (data b) w)) ↔
      (env.strg = true → id = k) := by
  constructor
  · intro h hs
    by_contra hne
    have hv : ∀ v, carried v = v ∧ '\n' ∉ v → p.val "NOTE" = v := by
      intro v hv
      obtain ⟨b,hb⟩ := hnote v
      have hb' := h b
      rw [hb] at hb'
      exact note_other env hc hcan hs (Ne.symm hne) hp hv hb'
    have ha := hv ("a") (by decide)
    have hb := hv ("b") (by decide)
    rw [ha] at hb
    exact absurd hb (by decide)
  · intro h b
    by_cases hs : env.strg = true
    · rw [h hs]
      exact ⟨rfl,rfl⟩
    · rw [Bool.not_eq_true] at hs
      cases hd : data b with
      | none => exact ⟨rfl,rfl⟩
      | some d =>
        have hk := update_unwritable env hc hs (hn b d hd) k
        have hi := update_unwritable env hc hs (hn b d hd) id
        exact ⟨hk.1.trans hi.1.symm,hk.2.trans hi.2.symm⟩

theorem listed_rows {display : Params → Option Params} {fil : Str} {w : World} (hc : Coherent "network" fil w)
    {r : Row} (hr : r ∈ (listed (printFile env display fil w)).rows) :
    objAt (listed (printFile env display fil w)).obj (decimal r.cnt) = some r.id ∧
      ∃ p, (entries "network" fil w).get? r.id = some p ∧ display p = some r.data := by
  unfold listed at hr ⊢
  cases hl : (printFile env display fil w).1 with
  | none =>
    rw [hl] at hr
    simp at hr
  | some l =>
    rw [hl] at hr
    exact (printFile_spec env hc hl).2 r hr

/-- The set commands of a file act on what is shown when the numbers are the IDs. -/
theorem numbers_iff (env' : Env) {display : Params → Option Params} {fil : Str} {w : World}
    (hc : Coherent "network" fil w) (hcan : Canonical (entries "network" fil w)) {β : Type}
    {data : β → Option Params} (hn : ∀ b d, data b = some d → d.val "NAME" = [])
    (hnote : ∀ v, ∃ b, data b = some (dataOf [("NOTE",v)])) :
    (∀ r ∈ (listed (printFile env' display fil w)).rows, ∀ b, SameEffect
      (setNumber env fil (listed (printFile env' display fil w)).obj (decimal r.cnt) (data b) w)
      (setEntry env fil r.id (data b) w)) ↔
    (env.strg = true → ∀ r ∈ (listed (printFile env' display fil w)).rows, r.id = decimal r.cnt) := by
  rw [@forall_comm (env.strg = true)]
  refine forall_congr' fun r => ?_
  rw [@forall_comm (env.strg = true)]
  refine forall_congr' fun hr => ?_
  obtain ⟨ho,p,hp,-⟩ := listed_rows env' hc hr
  have hne : null r.id = false := null_false_iff.mpr (hcan.get? hp).ident.ne
  rw [← update_same_iff env hc hcan hp hn hnote]
  refine forall_congr' fun b => ?_
  rw [setNumber,ho,Option.all_some,hne]
  rfl

theorem staticData_name {param value : Str} {d : Params} (h : staticData v6 param value = some d) :
    d.val "NAME" = [] := by
  unfold staticData at h
  split_ifs at h <;> obtain rfl := Option.some.inj h <;> exact dataOf_name _ (by decide)

theorem routingData_name {list param value : Str} {d : Params} (h : routingData list param value = some d) :
    d.val "NAME" = [] := by
  unfold routingData at h
  split_ifs at h <;> obtain rfl := Option.some.inj h <;> exact dataOf_name _ (by decide)

theorem statics_iff (env' : Env) (find : Str) {w : World} (hc : Coherent "network" "named_static.cfg" w)
    (hcan : Canonical (entries "network" "named_static.cfg" w)) :
    let l := listed (dnsStaticPrint env' find w)
    (∀ r ∈ l.rows, ∀ param value, SameEffect (dnsStaticSet v6 env l.obj param (decimal r.cnt) value w)
      (setEntry env "named_static.cfg" r.id (staticData v6 param value) w)) ↔
    (env.strg = true → ∀ r ∈ l.rows, r.id = decimal r.cnt) := by
  have h := @numbers_iff env env' (staticDisplay find) _ w hc hcan (Str × Str)
    (fun b => staticData v6 b.1 b.2) (fun b d => staticData_name v6) fun v => ⟨("description",v),rfl⟩
  simp only [Prod.forall] at h
  exact h

theorem routings_iff (env' : Env) (addr : Str → Str) (find : Str) {w : World}
    (hc : Coherent "network" "named_routing.cfg" w) (hcan : Canonical (entries "network" "named_routing.cfg" w)) :
    let l := listed (dnsRoutingPrint env' addr find w)
    (∀ r ∈ l.rows, ∀ list param value, SameEffect (dnsRoutingSet env l.obj list param (decimal r.cnt) value w)
      (setEntry env "named_routing.cfg" r.id (routingData list param value) w)) ↔
    (env.strg = true → ∀ r ∈ l.rows, r.id = decimal r.cnt) := by
  have h := @numbers_iff env env' (routingDisplay addr find) _ w hc hcan (Str × Str × Str)
    (fun b => routingData b.1 b.2.1 b.2.2) (fun b d => routingData_name) fun v => ⟨([],"description",v),rfl⟩
  simp only [Prod.forall] at h
  exact h

/-- The set command of an alias that is there, with the name that is found. -/
theorem setVipPname_eq {w : World} (h : Fresh w) {id : Str} {q : Params}
    (hq : (entries "network" "additional.cfg" w).get? id = some q) : ∃ v, Interfaces.Quiet w v ∧ ∀ parent,
      setVipPname env id parent w = if ethName env parent w = [] then (false,v)
        else Interfaces.write env "additional.cfg" id (dataOf [("PNAME",ethName env parent w)]) v := by
  have hb := Interfaces.byparam_id env (h _ _ looked_network) hq ∅
  have hne : q.isEmpty = false :=
    Bool.eq_false_iff.mpr fun he => readText_ne_empty hq (OrdMap.isEmpty_iff.mp he)
  have hv : vipOf env id w = (some q,(vipOf env id w).2) := by
    unfold vipOf
    dsimp only
    rw [hb,hne]
    rfl
  have hq₁ := Interfaces.vipOf_quiet env id w
  generalize (vipOf env id w).2 = v₁ at hv hq₁
  refine ⟨(iniTokenGet env "network" "eth.cfg" ∅ v₁).2,hq₁.trans (Interfaces.get_quiet env "eth.cfg" v₁),fun parent => ?_⟩
  have hf := Interfaces.byparam_fst env "ID" parent (h "network" "eth.cfg" looked_network)
    (hq₁.fresh h "network" "eth.cfg" looked_network) hq₁.reg
  unfold setVipPname ethName
  rw [hv]
  dsimp only
  rw [hf,Interfaces.byparam_world]
  simp only [null_iff]

theorem write_parent (id n : Str) (v : World) : Interfaces.write env "additional.cfg" id (dataOf [("PNAME",n)]) v =
    (decide ((iniTokenUpdate env "network" "additional.cfg" id (dataOf [("PNAME",n)]) v).1 ≠ .fail),
      (iniTokenUpdate env "network" "additional.cfg" id (dataOf [("PNAME",n)]) v).2) :=
  if_neg (by simp [dataOf,OrdMap.setAll,OrdMap.isEmpty_iff,OrdMap.set_ne_empty])

theorem write_unwritable {w v : World} (h : Fresh w) (hq : Interfaces.Quiet w v) (hs : env.strg = false) (id n : Str) :
    SameEffect (Interfaces.write env "additional.cfg" id (dataOf [("PNAME",n)]) v) ((false,v) : Bool × World) := by
  have hu := update_unwritable env (hq.fresh h "network" "additional.cfg" looked_network) hs
    (dataOf_name (k:="PNAME") n (by decide)) id
  rw [write_parent,hu.1]
  exact ⟨rfl,hu.2⟩

/-- Two parents are written alike only when they have the same name. -/
theorem write_name {w v : World} (h : Sound w) (hq : Interfaces.Quiet w v) (hs : env.strg = true) {id : Str} {q : Params}
    (hi : (entries "network" "additional.cfg" w).get? id = some q) {n : Str} (hn : ReadValue n) :
    (Interfaces.write env "additional.cfg" id (dataOf [("PNAME",n)]) v).1 = true ∧
      ((entries "network" "additional.cfg" (Interfaces.write env "additional.cfg" id (dataOf [("PNAME",n)]) v).2).getD id ∅).val
        "PNAME" = n := by
  have hv := h.quiet hq
  have hi' : (entries "network" "additional.cfg" v).get? id = some q := by rw [entries_congr _ _ hq.reg]; exact hi
  have hok := Interfaces.update_ok env hv (by decide : ("additional.cfg" : Str) ∈ netFiles) hs hi'
    (Or.inl (dataOf_name (k:="PNAME") n (by decide)))
  have hd : WritableData (dataOf [("PNAME",n)]) := Interfaces.writable_one (by decide) hn.2.1
  obtain ⟨-,-,-,hr⟩ := Interfaces.update_read env hv (by decide : ("additional.cfg" : Str) ∈ netFiles) id hd
  obtain ⟨p,-,he⟩ := hr hok
  rw [write_parent,hok]
  refine ⟨rfl,?_⟩
  have hes : (carriedParams (dataOf [("PNAME",n)])).entries = [(("PNAME" : Str),carried n)] := rfl
  rw [he,OrdMap.getD,OrdMap.get?_set_self,Option.getD_some,Interfaces.readBack_val _ (by decide),hes,OrdMap.setAll_cons,
    OrdMap.setAll_nil,Params.val,OrdMap.getD,OrdMap.get?_set_self,Option.getD_some]
  exact carried_eq hn.1 hn.2.2

theorem aliases_iff (env' : Env) (opt : Str) {w : World} (h : Sound w) :
    let al := listed (interfacesPrintVip env' w)
    let inf := listed (interfacesPrint env' opt w)
    (∀ a ∈ al.rows, ∀ r ∈ inf.rows, SameEffect
      (interfacesSetVipPname env al.obj (decimal a.cnt) (decimal r.cnt) w) (setVipPname env a.id r.id w)) ↔
    (env.strg = true → ∀ a ∈ al.rows, ∀ r ∈ inf.rows, ∃ j, al.obj.get? r.cnt = some j ∧
      ethName env j w = ethName env r.id w) := by
  intro al inf
  rw [@forall_comm (env.strg = true)]
  refine forall_congr' fun a => ?_
  rw [@forall_comm (env.strg = true)]
  refine forall_congr' fun ha => ?_
  rw [@forall_comm (env.strg = true)]
  refine forall_congr' fun r => ?_
  rw [@forall_comm (env.strg = true)]
  refine forall_congr' fun hr => ?_
  have hc : ∀ fil, Coherent "network" fil w := fun fil => h.fresh "network" fil looked_network
  obtain ⟨hoa,q,hq,-⟩ := listed_rows env' (hc _) ha
  obtain ⟨-,p,hp,hd⟩ := listed_rows env' (hc _) hr
  obtain ⟨v,hv,he⟩ := setVipPname_eq env h.fresh hq
  have hname : ethName env r.id w ≠ [] := by
    rw [ethName,Interfaces.byparam_id env (hc _) hp ∅]
    intro hn
    rw [interfaceDisplay,hn] at hd
    simp at hd
  have hread : ∀ j, ethName env j w ≠ [] → ReadValue (ethName env j w) := fun j hj =>
    (Interfaces.byparam_name env "ID" j h.fresh hj).2
  have hcode : interfacesSetVipPname env al.obj (decimal a.cnt) (decimal r.cnt) w =
      match al.obj.get? r.cnt with
      | none => (false,(vipOf env a.id w).2)
      | some j => setVipPname env a.id j w := by
    have hoa' : objAt al.obj (decimal a.cnt) = some a.id := hoa
    unfold interfacesSetVipPname
    rw [objAt_decimal al.obj r.cnt,hoa']
  rw [hcode,he r.id,if_neg hname]
  have hquiet := Interfaces.vipOf_quiet env a.id w
  constructor
  · intro hs hstrg
    obtain ⟨htrue,hval⟩ := write_name env h hv hstrg hq (hread _ hname)
    cases hj : al.obj.get? r.cnt with
    | none =>
      rw [hj] at hs
      exact absurd (hs.1.trans htrue) (by simp)
    | some j =>
      rw [hj] at hs
      dsimp only at hs
      rw [he j] at hs
      refine ⟨j,rfl,?_⟩
      by_cases hjn : ethName env j w = []
      · rw [if_pos hjn] at hs
        exact absurd (hs.1.trans htrue) (by simp)
      · rw [if_neg hjn] at hs
        have hval' := (write_name env h hv hstrg hq (hread _ hjn)).2
        rw [entries_congr _ _ hs.2,hval] at hval'
        exact hval'.symm
  · intro hs
    by_cases hstrg : env.strg = true
    · obtain ⟨j,hj,hn⟩ := hs hstrg
      rw [hj]
      dsimp only
      rw [he j,hn,if_neg hname]
      exact ⟨rfl,rfl⟩
    · rw [Bool.not_eq_true] at hstrg
      obtain ⟨hw,hreg⟩ := write_unwritable env h.fresh hv hstrg a.id (ethName env r.id w)
      cases al.obj.get? r.cnt with
      | none => exact ⟨hw.symm,hquiet.reg.trans (hv.reg.symm.trans hreg.symm)⟩
      | some j =>
        dsimp only
        rw [he j]
        split
        · exact ⟨hw.symm,hreg.symm⟩
        · obtain ⟨hw',hreg'⟩ := write_unwritable env h.fresh hv hstrg a.id (ethName env j w)
          exact ⟨hw'.trans hw.symm,hreg'.trans hreg.symm⟩

theorem routesObj_get (routes : List (Str × Str)) (n : ℕ) : (routesObj routes).get? (n+1) = routes[n]?.map routeSlot := by
  have hkeys : ((routes.zipIdx 1).map fun q => (q.2,routeSlot q.1)).map Prod.fst = List.range' 1 routes.length := by
    rw [List.map_map]
    exact List.zipIdx_map_snd 1 routes
  unfold routesObj
  cases hn : routes[n]? with
  | none =>
    rw [OrdMap.get?_setAll_of_not_mem]
    · rfl
    · rw [hkeys,List.mem_range'_1]
      have := List.getElem?_eq_none_iff.mp hn
      omega
  | some q =>
    refine OrdMap.get?_setAll_of_mem _ (by rw [hkeys]; exact List.nodup_range') ?_
    refine List.mem_map.mpr ⟨(q,n+1),?_,rfl⟩
    rw [List.mk_mem_zipIdx_iff_le_and_getElem?_sub]
    exact ⟨by omega,by rw [Nat.add_sub_cancel]; exact hn⟩

theorem routeSetNetwork_eq (routes : List (Str × Str)) (n : ℕ) (w : World) :
    routeSetNetwork pcre env routes (decimal (n+1)) w = strayName pcre env routes[n]? w := by
  unfold routeSetNetwork objGetName
  rw [ResourceIds.cliMultinum_decimal,List.foldl_cons,List.foldl_nil,ResourceIds.slotOf_decimal,OrdMap.getD,routesObj_get]
  cases routes[n]? with
  | none => rfl
  | some q =>
    have hkey : ResourceIds.Key.text "id" ≠ ResourceIds.Key.text "type" := by decide
    have hes : (routeSlot q).entries = [(.text "id",.id q.1),(.text "type",.id q.2)] := by
      change OrdMap.assign (ResourceIds.Key.text "type") (ResourceIds.Held.id q.2)
        [(ResourceIds.Key.text "id",ResourceIds.Held.id q.1)] = _
      rw [OrdMap.assign,if_neg hkey]
      rfl
    rw [Option.map_some,Option.getD_some,hes,List.foldl_cons,List.foldl_cons,List.foldl_nil]
    simp only [ResourceIds.addHeld,ResourceIds.Key.name,strayName]

/-- The screen after the lists of a registry; the networks may have been listed before it came to be what it is. -/
def screen (addr : Str → Str) (staticFind routingFind opt netOpt netFind : Str) (routes : List (Str × Str))
    (w₀ w : World) : Screen where
  statics := listed (dnsStaticPrint env staticFind w)
  routings := listed (dnsRoutingPrint env addr routingFind w)
  aliases := listed (interfacesPrintVip env w)
  interfaces := listed (interfacesPrint env opt w)
  networks := ((ResourceIds.networksPrint pcre env netOpt netFind w₀).1.map ResourceIds.Sheet.dtx).getD []
  routes := routes

theorem networks_cnt {addr : Str → Str} {staticFind routingFind opt netOpt netFind : Str} {routes : List (Str × Str)}
    {w₀ w : World} {r : ResourceIds.Row}
    (hr : r ∈ (screen pcre env addr staticFind routingFind opt netOpt netFind routes w₀ w).networks) :
    ∃ n, r.cnt = n + 1 := by
  simp only [screen] at hr
  cases hs : (ResourceIds.networksPrint pcre env netOpt netFind w₀).1 with
  | none =>
    rw [hs] at hr
    simp at hr
  | some s =>
    rw [hs] at hr
    have hf := ResourceIds.networksPrint_sheet pcre env hs
    rw [Option.map_some,Option.getD_some,hf,ResourceIds.fill_dtx] at hr
    obtain ⟨i,x,-,rfl⟩ := ResourceIds.mem_rowsFrom.mp ((List.mem_append.mp hr).resolve_left (by simp [ResourceIds.Sheet.blank]))
    exact ⟨i,Nat.add_comm 1 i⟩

/-- The commands act on what is shown exactly when, as far as anything can be written, the DNS entries have the
numbers of their rows as IDs and the list of the aliases leads from the number of an interface to that interface, and
a network has the name that the route with its number leads to. -/
theorem actsOnShown_iff (env' : Env) (addr : Str → Str) (staticFind routingFind opt netOpt netFind : Str)
    (routes : List (Str × Str)) (w₀ : World) {w : World} (h : Sound w)
    (hd : ∀ fil ∈ (["named_static.cfg","named_routing.cfg"] : List Str), Plain (text "network" fil w)) :
    let s := screen pcre env' addr staticFind routingFind opt netOpt netFind routes w₀ w
    ActsOnShown pcre v6 env s w ↔ (env.strg = true → Coincide env s w) ∧
      (routes ≠ [] → ∀ r ∈ s.networks, r.name = strayName pcre env routes[r.cnt - 1]? w) := by
  intro s
  have hc : ∀ fil, Coherent "network" fil w := fun fil => h.fresh "network" fil looked_network
  have hst := statics_iff v6 env env' staticFind (hc _) (readText_canonical (hd _ (by simp)))
  have hrt := routings_iff env env' addr routingFind (hc _) (readText_canonical (hd _ (by simp)))
  have hal := aliases_iff env env' opt h
  have hnet : (∀ r ∈ s.networks, routeSetNetwork pcre env routes (decimal r.cnt) w = r.name) ↔
      ∀ r ∈ s.networks, r.name = strayName pcre env routes[r.cnt - 1]? w := by
    refine forall₂_congr fun r hr => ?_
    obtain ⟨n,hn⟩ := networks_cnt pcre env' hr
    rw [hn,routeSetNetwork_eq,Nat.add_sub_cancel]
    exact eq_comm
  constructor
  · rintro ⟨h₁,h₂,h₃,h₄⟩
    exact ⟨fun hs => ⟨hst.mp h₁ hs,hrt.mp h₂ hs,hal.mp h₃ hs⟩,fun hr => hnet.mp (h₄ hr)⟩
  · rintro ⟨h₁,h₂⟩
    exact ⟨hst.mpr fun hs => (h₁ hs).statics,hrt.mpr fun hs => (h₁ hs).routings,hal.mpr fun hs => (h₁ hs).aliases,
      fun hr => hnet.mpr (h₂ hr)⟩

/-- A registry with numbers for IDs, and an alias with the ID of its interface. -/
def numberedWorld : World := World.ofFiles [
  ("network","named_static.cfg",textOf ["ID=1","HOSTNAME=www.office","ADDR=192.168.1.5","STAT=1"]),
  ("network","named_routing.cfg",textOf ["ID=1","DOMAIN=branch","FORWARDER=gate","STAT=1"]),
  ("network","eth.cfg",textOf ["ID=eth0","NAME=lan","TYPE=static","DEVICE=eth0"]),
  ("network","additional.cfg",textOf ["ID=eth0","NAME=lan2","PNAME=lan","ADDR=192.168.2.1"])]

theorem actsOnShown_numbered : ActsOnShown Pcre.plain ipv4Only noonEnv
    (screen Pcre.plain noonEnv (fun _ => []) [] [] [] [] [] [] numberedWorld numberedWorld) numberedWorld := by
  have hs : Sound numberedWorld := ⟨⟨by decide,by decide⟩,fun _ _ _ => Or.inl rfl⟩
  have hd : ∀ fil ∈ (["named_static.cfg","named_routing.cfg"] : List Str), Plain (text "network" fil numberedWorld) := by
    decide
  have hc : (∀ r ∈ (listed (dnsStaticPrint noonEnv [] numberedWorld)).rows, r.id = decimal r.cnt) ∧
      (∀ r ∈ (listed (dnsRoutingPrint noonEnv (fun _ => []) [] numberedWorld)).rows, r.id = decimal r.cnt) ∧
      ∀ r ∈ (listed (interfacesPrint noonEnv [] numberedWorld)).rows,
        (listed (interfacesPrintVip noonEnv numberedWorld)).obj.get? r.cnt = some r.id := by decide
  exact (actsOnShown_iff Pcre.plain ipv4Only noonEnv noonEnv (fun _ => []) [] [] [] [] [] [] numberedWorld hs hd).mpr
    ⟨fun _ => ⟨hc.1,hc.2.1,fun _ _ r hr => ⟨r.id,hc.2.2 r hr,rfl⟩⟩,fun h => absurd rfl h⟩

def hostWorld : World := World.ofFiles [
  ("network","named_static.cfg",textOf ["ID=0123456789abcdef0123","HOSTNAME=www.office","ADDR=192.168.1.5","STAT=1"])]

/-- The static host on display under 1 cannot be switched off by this number. -/
theorem host_not_set : Sound hostWorld ∧ ¬ActsOnShown Pcre.plain ipv4Only noonEnv
    (screen Pcre.plain noonEnv (fun _ => []) [] [] [] [] [] [] hostWorld hostWorld) hostWorld := by
  refine ⟨⟨⟨by decide,by decide⟩,fun _ _ _ => Or.inl rfl⟩,fun h => ?_⟩
  have hr : ∃ r ∈ (listed (dnsStaticPrint noonEnv [] hostWorld)).rows,
      (dnsStaticSet ipv4Only noonEnv (listed (dnsStaticPrint noonEnv [] hostWorld)).obj "enable" (decimal r.cnt) "off"
        hostWorld).1 ≠ (setEntry noonEnv "named_static.cfg" r.id (staticData ipv4Only "enable" "off") hostWorld).1 := by
    decide
  obtain ⟨r,hm,hne⟩ := hr
  exact hne (h.statics r hm "enable" "off").1

end ShownIds
end Mybox
