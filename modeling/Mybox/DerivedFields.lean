import Mybox.Ipcalc
import Mybox.KeptFiles

/-! The fields of an interface that follow from its address and its prefix: the commands write some of them, the
lease hook writes some, and the start of the network fills in those that are empty. -/
namespace Mybox
namespace Interfaces

open Php RegistryFormat Registry References Definitions

/-- Which texts are IPv6 addresses. -/
structure Ipv6 where
  is : Str → Bool
  read : ∀ s, is s = true → ReadValue s

variable (v6 : Ipv6) (env : Env)

/-- What `_network_update_networkcfg` fills in, in its order, and the results it takes. -/
def networkFields : List (Str × Str) := [("NETWORK","network"),("MASK","netmask"),("PREF","prefix"),
  ("BCAST","broadcast"),("HOST_TOTAL","total"),("HOST_MIN","hostmin"),("HOST_MAX","hostmax"),("HOST_TYPE","type"),
  ("INET","inet")]

/-- One of the nine branches; the flag is `$_doupdate`. -/
def fillField (result : Params) (s : Params × Bool) (f : Str × Str) : Params × Bool :=
  if null (s.1.val f.1) && !null (result.val f.2) then (s.1.set f.1 (result.val f.2),true) else s

def networkPrefix (p : Params) : Str := if null (p.val "PREF") then p.val "MASK" else p.val "PREF"

def fillNetwork (p : Params) : Params × Bool :=
  networkFields.foldl (fillField (Ipcalc.ip v6.is (p.val "ADDR") (networkPrefix p))) (p,false)

/-- `_network_update_networkcfg`, with the data it leaves in its argument. -/
def networkUpdateNetworkcfg (id : Str) (p : Params) (w : World) : Params × World :=
  if null (p.val "ADDR") || (null (p.val "PREF") && null (p.val "MASK")) then (p,w)
  else
    let d := fillNetwork v6 p
    if !d.1.isEmpty && d.2 then (d.1,(iniTokenUpdate env "network" "eth.cfg" id d.1 w).2) else (d.1,w)

def startable (p : Params) : Bool :=
  !null (p.val "TYPE") && !(null (p.val "STAT") || looseZero (p.val "STAT"))

def addressed (p : Params) : Bool := looseEq (p.val "TYPE") "static" || looseEq (p.val "TYPE") "vlan"

def networkStartEntry (w : World) (e : Str × Params) : World :=
  if startable e.2 && addressed e.2 then (networkUpdateNetworkcfg v6 env e.1 e.2 w).2 else w

/-- `_network_clear_cache_config_pppoe` -/
def clearPppoe (w : World) (id : Str) : World :=
  (iniTokenUpdate env "network" "eth.cfg" id (dataOf [("HOST_TOTAL",[]),("HOST_MIN",[]),("HOST_MAX",[]),
    ("HOST_TYPE",[]),("INET",[]),("ADDR",[]),("GATEWAY",[]),("PDEV",[]),("MASK",[]),("PREF",[]),("NETWORK",[]),
    ("BCAST",[])]) w).2

/-- `@_UNLINK(_OBJ_PATH."/iosh_*")` -/
def unlinkPrints (w : World) : World := { w with obj := w.obj.select fun o _ => !("iosh_" : Str).isPrefixOf o }

/-- `network_start` up to the end of its loop, and whether it has run; the peers are those of PPPoE, cleared
when the machine is already up. -/
def networkStart (boot : Bool) (peers : List Str) (w : World) : Bool × World :=
  let w₁ := if boot then w else peers.foldl (clearPppoe env) w
  let g := iniTokenGet env "network" "eth.cfg" ∅ (unlinkPrints w₁)
  if g.1.isEmpty then (false,g.2) else (true,g.1.entries.foldl (networkStartEntry v6 env) g.2)

/-- What the DHCP client hands to its hook: addresses and numbers, and lists that take one line each. -/
structure Lease where
  interface : Str
  ip : Str
  network : Str
  cidr : Str
  mask : Str
  broadcast : Str
  routers : Str
  mtu : Str
  server : Str
  nameServers : Str
  domainSearch : Str
  read : ∀ s ∈ [ip,network,cidr,mask,broadcast], ReadValue s
  line : ∀ s ∈ [routers,mtu,server,nameServers,domainSearch], '\n' ∉ s

def Lease.data (l : Lease) : Params := dataOf [("ADDR",l.ip),("NETWORK",l.network),("PREF",l.cidr),("MASK",l.mask),
  ("BCAST",l.broadcast),("GATEWAY",l.routers),("DHCP_MTU",l.mtu),("DHCP_SERVER",l.server),
  ("DHCP_DNS_SERVERS",l.nameServers),("DHCP_DOMAIN_SEARCH",l.domainSearch)]

def leaseFields : List (Str × Str) := [("HOST_TOTAL","total"),("HOST_MIN","hostmin"),("HOST_MAX","hostmax"),
  ("HOST_TYPE","type"),("INET","inet")]

def updateNetworkConfig (id : Str) (data : Params) (w : World) : World :=
  if null (data.val "ADDR") || (null (data.val "PREF") && null (data.val "MASK")) then w
  else
    let result := Ipcalc.ip v6.is (data.val "ADDR") (data.val "PREF")
    let d := leaseFields.foldl (fun d f => if null (result.val f.2) then d else d.set f.1 (result.val f.2)) data
    (iniTokenUpdate env "network" "eth.cfg" id d w).2

/-- `_UPDATE_CONFIG`, as far as the interfaces are concerned. -/
def updateConfig (l : Lease) (w : World) : World :=
  if null l.interface then w
  else
    let g := iniTokenGetByparam env "network" "eth.cfg" "DEVICE" l.interface ∅ w
    if null (g.1.2.val dataId) then g.2 else updateNetworkConfig v6 env (g.1.2.val dataId) l.data g.2

def interfacesSetNetmask (type id nmask : Str) (w : World) : Bool × World :=
  match interfaceOf env type id w with
  | (none,v) => (false,v)
  | (some p,v) =>
    if null (p.val "ADDR") then (false,v)
    else
      let result := Ipcalc.ip v6.is (p.val "ADDR") nmask
      write env "eth.cfg" id (dataOf [("MASK",result.val "netmask"),("PREF",result.val "prefix"),
        ("INET",result.val "inet")]) v

/-- What the set commands write besides the name, the address and the netmask. -/
def otherKeys : List Str := ["DEFAULT","GATEWAY","STAT","ARP","UPLINK","NAT","MTU","NOTE","TAG","USERNAME","PASSWORD",
  "RETRY","RECONNECT"]

/-- The commands on interfaces, the lease hook and the start of the network; `goOn` is the answer to a ping. -/
inductive FieldOp
  | addStatic (id name ip nmask note : Str) (goOn : Bool)
  | addVlan (id name tag ip nmask note : Str) (goOn : Bool)
  | addDhcp (id name note : Str)
  | addPppoe (id name note : Str)
  | setName (type id name : Str)
  | setAddress (type id ip : Str) (goOn : Bool)
  | setNetmask (type id nmask : Str)
  | set (type id : Str) (data : Params)
  | lease (l : Lease)
  | start (boot : Bool) (peers : List Str)

def checkIp (s : Str) : Bool := SshLog.isIpv4 s || v6.is s

/-- The state after a step; none where the parameters of a set command are not its own. -/
def FieldOp.run : FieldOp → World → Option World
  | .addStatic id name ip nmask note goOn, w =>
    some (interfacesAddStatic env id name ip note ⟨checkIp v6 ip,goOn⟩ (Ipcalc.ip v6.is ip nmask) w).2
  | .addVlan id name tag ip nmask note goOn, w =>
    some (interfacesAddVlan env id name tag ip note ⟨checkIp v6 ip,goOn⟩ (Ipcalc.ip v6.is ip nmask) w).2
  | .addDhcp id name note, w => some (interfacesAddDhcp env id name note w).2
  | .addPppoe id name note, w => some (interfacesAddPppoe env id name note w).2
  | .setName type id name, w => some (interfacesSetName env type id name w).2
  | .setAddress type id ip goOn, w => some (interfacesSetAddress env type id ip ⟨checkIp v6 ip,goOn⟩ w).2
  | .setNetmask type id nmask, w => some (interfacesSetNetmask v6 env type id nmask w).2
  | .set type id data, w =>
    if data.keys.all (otherKeys.contains ·) then some (interfacesSet env type id data w).2 else none
  | .lease l, w => some (updateConfig v6 env l w)
  | .start boot peers, w => some (networkStart v6 env boot peers w).2

/-- The fields that follow from the address and the prefix, and the results they are. -/
def derivedFields : List (Str × Str) := [("NETWORK","network"),("BCAST","broadcast"),("MASK","netmask"),
  ("HOST_MIN","hostmin"),("HOST_MAX","hostmax"),("HOST_TOTAL","total")]

/-- An entry that has an address and a prefix has the calculator's fields. -/
def Current (p : Params) : Prop := p.val "ADDR" ≠ [] → p.val "PREF" ≠ [] → ∀ f ∈ derivedFields,
  p.val f.1 = (Ipcalc.ip v6.is (p.val "ADDR") (p.val "PREF")).val f.2

/-- A mask of four octets has no more ones than an address has bits. -/
def Narrow (m : Str) : Prop := ∀ k ∈ Ipcalc.readMask m, k.cdr ≤ 32

def startPrefix (addr pref mask : Str) : Str := if null pref then (Ipcalc.ip v6.is addr mask).val "prefix" else pref

/-- Where there is a prefix, each of the fields is missing or the calculator's. -/
def Agrees (addr pref : Str) (p : Params) (fs : List (Str × Str)) : Prop :=
  pref ≠ [] → ∀ f ∈ fs, p.val f.1 = [] ∨ p.val f.1 = (Ipcalc.ip v6.is addr pref).val f.2

/-- The start gives the entry the calculator's fields. -/
def Fillable (p : Params) : Prop := p.val "ADDR" ≠ [] → (p.val "PREF" = [] → Narrow (p.val "MASK")) ∧
  Agrees v6 (p.val "ADDR") (startPrefix v6 (p.val "ADDR") (p.val "PREF") (p.val "MASK")) p derivedFields

def Complete (p : Params) : Prop := ∀ f ∈ derivedFields, p.val f.1 = [] →
  (Ipcalc.ip v6.is (p.val "ADDR") (p.val "PREF")).val f.2 = []

theorem Fillable.current {p : Params} (h : Fillable v6 p) (hc : Complete v6 p) : Current v6 p := by
  intro ha hp f hf
  have hs : startPrefix v6 (p.val "ADDR") (p.val "PREF") (p.val "MASK") = p.val "PREF" := by
    rw [startPrefix,null_false_iff.mpr hp]
    rfl
  have hx := (h ha).2
  rw [hs] at hx
  rcases hx hp f hf with he | he
  · rw [he,hc f hf he]
  · exact he

theorem Current.fillable {p : Params} (h : Current v6 p) (hp : p.val "PREF" ≠ []) : Fillable v6 p := by
  intro ha
  have hs : startPrefix v6 (p.val "ADDR") (p.val "PREF") (p.val "MASK") = p.val "PREF" := by
    rw [startPrefix,null_false_iff.mpr hp]
    rfl
  rw [hs]
  exact ⟨fun he => absurd he hp,fun hn f hf => Or.inr (h ha hn f hf)⟩

theorem Fillable.congr {p q : Params} (h : Fillable v6 p) (ha : q.val "ADDR" = p.val "ADDR")
    (hp : q.val "PREF" = p.val "PREF") (hd : ∀ f ∈ derivedFields, q.val f.1 = p.val f.1) : Fillable v6 q := by
  have hm : q.val "MASK" = p.val "MASK" := hd ("MASK","netmask") (by simp [derivedFields])
  unfold Fillable
  rw [ha,hp,hm]
  intro hn
  obtain ⟨h₁,h₂⟩ := h hn
  exact ⟨h₁,fun hs f hf => by rw [hd f hf]; exact h₂ hs f hf⟩

theorem fillable_unaddressed {p : Params} (h : p.val "ADDR" = []) : Fillable v6 p := fun ha => absurd h ha

/-- Each missing field becomes the result, null or not. -/
theorem fill_val (result : Params) {fs : List (Str × Str)} (hd : (fs.map Prod.fst).Nodup) (s : Params × Bool)
    (k : Str) : Params.val (fs.foldl (fillField result) s).1 k = match OrdMap.lookup k fs with
      | some r => if null (s.1.val k) then result.val r else s.1.val k
      | none => s.1.val k := by
  induction fs generalizing s with
  | nil => rfl
  | cons f fs ih =>
    obtain ⟨j,r⟩ := f
    rw [List.map_cons,List.nodup_cons] at hd
    rw [List.foldl_cons,ih hd.2,OrdMap.lookup]
    by_cases hj : j = k
    · subst hj
      rw [OrdMap.lookup_eq_none.mpr hd.1,if_pos rfl]
      dsimp only
      by_cases hn : s.1.val j = []
      · by_cases hr : result.val r = []
        · simp [fillField,hn,hr]
        · simp [fillField,hn,hr,val_set]
      · simp [fillField,hn]
    · have hk : Params.val (fillField result s (j,r)).1 k = s.1.val k := by
        unfold fillField
        split
        · rw [val_set,if_neg hj]
        · rfl
      rw [if_neg hj,hk]

theorem fill_unchanged (result : Params) {fs : List (Str × Str)} {s : Params × Bool}
    (h : (fs.foldl (fillField result) s).2 = false) : fs.foldl (fillField result) s = s := by
  have mono : ∀ (fs : List (Str × Str)) (s : Params × Bool), s.2 = true →
      (fs.foldl (fillField result) s).2 = true := by
    intro fs
    induction fs with
    | nil => exact fun _ hs => hs
    | cons f fs ih =>
      intro s hs
      rw [List.foldl_cons]
      refine ih _ ?_
      unfold fillField
      split
      · rfl
      · exact hs
  induction fs generalizing s with
  | nil => rfl
  | cons f fs ih =>
    rw [List.foldl_cons] at h ⊢
    have hf : fillField result s f = s := by
      by_cases hc : (null (s.1.val f.1) && !null (result.val f.2)) = true
      · have hs : (fillField result s f).2 = true := by rw [fillField,if_pos hc]
        rw [mono fs _ hs] at h
        simp at h
      · rw [fillField,if_neg hc]
    rw [hf] at h ⊢
    exact ih h

theorem networkFields_nodup : (networkFields.map Prod.fst).Nodup := by decide

theorem fillNetwork_val (p : Params) {k r : Str} (h : OrdMap.lookup k networkFields = some r) :
    (fillNetwork v6 p).1.val k = if null (p.val k) then
      (Ipcalc.ip v6.is (p.val "ADDR") (networkPrefix p)).val r else p.val k := by
  rw [fillNetwork,fill_val _ networkFields_nodup,h]

theorem fillNetwork_val_ne (p : Params) {k : Str} (h : OrdMap.lookup k networkFields = none) :
    (fillNetwork v6 p).1.val k = p.val k := by
  rw [fillNetwork,fill_val _ networkFields_nodup,h]

theorem fillNetwork_val_nil {p : Params} {k : Str} (h : (fillNetwork v6 p).1.val k = []) : p.val k = [] := by
  cases hl : OrdMap.lookup k networkFields with
  | none => rwa [fillNetwork_val_ne v6 p hl] at h
  | some r =>
    rw [fillNetwork_val v6 p hl] at h
    by_contra hn
    rw [null_false_iff.mpr hn] at h
    exact hn h

theorem derived_network : ∀ f ∈ derivedFields, OrdMap.lookup f.1 networkFields = some f.2 ∧
    f.2 ∈ Ipcalc.networkResults := by decide

/-- After the start an entry that could be filled has the calculator's fields. -/
theorem fillNetwork_current {p : Params} (h : Fillable v6 p) : Current v6 (fillNetwork v6 p).1 := by
  have ha : (fillNetwork v6 p).1.val "ADDR" = p.val "ADDR" := fillNetwork_val_ne v6 p rfl
  have hpref : (fillNetwork v6 p).1.val "PREF" =
      startPrefix v6 (p.val "ADDR") (p.val "PREF") (p.val "MASK") := by
    rw [fillNetwork_val v6 p rfl,startPrefix,networkPrefix]
    split <;> simp_all
  intro hna hnp f hf
  rw [ha] at hna
  rw [hpref] at hnp
  obtain ⟨hnarrow,hagree⟩ := h hna
  obtain ⟨hl,hr⟩ := derived_network f hf
  -- the result of the mask is that of the prefix found for it
  have hres : (Ipcalc.ip v6.is (p.val "ADDR") (networkPrefix p)).val f.2 =
      (Ipcalc.ip v6.is (p.val "ADDR") (startPrefix v6 (p.val "ADDR") (p.val "PREF") (p.val "MASK"))).val f.2 := by
    by_cases hp : p.val "PREF" = []
    · rw [startPrefix,null_iff.mpr hp,if_pos rfl] at hnp ⊢
      rw [networkPrefix,null_iff.mpr hp,if_pos rfl]
      exact (Ipcalc.ip_pref v6.is _ (hnarrow hp) hnp f.2 hr).symm
    · rw [startPrefix,networkPrefix,null_false_iff.mpr hp]
      rfl
  rw [ha,hpref,fillNetwork_val v6 p hl,hres]
  split
  · rfl
  · rename_i hn
    exact (hagree hnp f hf).resolve_left (by simpa using hn)

theorem writeText_not_blank {t : Token} {id : Str} {p : Params} (h : t.get? id = some p) (hi : id ≠ []) :
    null (trim (writeText t)) = false := by
  rw [null_false_iff]
  intro hn
  have hm : 'I' ∈ writeText t := by
    refine List.mem_flatMap.mpr ⟨(id,p),OrdMap.get?_eq_some.mp h,?_⟩
    rw [writeEntry,null_false_iff.mpr hi]
    simp [Str.of_ascii]
  exact absurd (trim_eq_nil.mp hn _ hm) (by decide)

theorem update_done {sec fil : Str} {w : World} (hc : Coherent sec fil w) (hcan : Canonical (entries sec fil w))
    (hs : env.strg = true) {id : Str} {p data : Params} (hp : (entries sec fil w).get? id = some p)
    (hn : data.val "NAME" = [] ∨ data.val "NAME" = p.val "NAME") : (iniTokenUpdate env sec fil id data w).1 = .ok := by
  have hi : id ≠ [] := (hcan.get? hp).ident.ne
  have hr : (!null (p.val "NAME") && !null (data.val "NAME") && !looseEq (p.val "NAME") (data.val "NAME")) = false := by
    rcases hn with hn | hn
    · simp [hn]
    · simp [hn]
  unfold iniTokenUpdate
  dsimp only
  rw [iniTokenGet_fst env _ _ hc,hp]
  dsimp only
  rw [hr,writeText_not_blank (OrdMap.get?_set_self _ id _) hi]
  simp [fileSave,hs]

theorem update_ok {w : World} (h : Sound w) {fil : Str} (hf : fil ∈ netFiles) (hs : env.strg = true) {id : Str}
    {p data : Params} (hp : (entries "network" fil w).get? id = some p)
    (hn : data.val "NAME" = [] ∨ data.val "NAME" = p.val "NAME") :
    (iniTokenUpdate env "network" fil id data w).1 = .ok :=
  update_done env (h.fresh "network" fil looked_network) (readText_canonical (h.plain fil hf)) hs hp hn

def AllFillable (w : World) : Prop := ∀ id p, (ethEntries w).get? id = some p → Fillable v6 p

theorem derived_shown : ∀ f ∈ derivedFields, skipped f.1 = false := by decide

theorem fillable_readBack {n : Str} {p : Params} (h : Fillable v6 p) : Fillable v6 (readBack n p) :=
  h.congr v6 (readBack_val p (by decide)) (readBack_val p (by decide)) fun f hf => readBack_val p (derived_shown f hf)

theorem current_readBack {n : Str} {p : Params} (h : Current v6 p) : Current v6 (readBack n p) := by
  have hv : ∀ k, skipped k = false → (readBack n p).val k = p.val k := fun k hk => readBack_val p hk
  unfold Current
  rw [hv "ADDR" (by decide),hv "PREF" (by decide)]
  exact fun ha hp f hf => (hv f.1 (derived_shown f hf)).trans (h ha hp f hf)

def updated (p data : Params) : Params := p.setAll (carriedParams data).entries

theorem update_fillable {w : World} (h : Sound w) (hi : AllFillable v6 w) {id : Str} {data : Params}
    (hd : WritableData data) (hf : ∀ p, (ethEntries w).get? id = some p → Fillable v6 (updated p data)) :
    Sound (iniTokenUpdate env "network" "eth.cfg" id data w).2 ∧
    AllFillable v6 (iniTokenUpdate env "network" "eth.cfg" id data w).2 := by
  obtain ⟨hs,-,hr,ho⟩ := update_read env h (by decide : ("eth.cfg" : Str) ∈ netFiles) id hd
  refine ⟨hs,fun j q hq => ?_⟩
  by_cases hok : (iniTokenUpdate env "network" "eth.cfg" id data w).1 = .ok
  · obtain ⟨p,hp,he⟩ := ho hok
    rw [ethEntries,he,OrdMap.get?_set] at hq
    split at hq
    · rw [Option.some.injEq] at hq
      rw [← hq]
      exact fillable_readBack v6 (hf p hp)
    · exact hi j q hq
  · rw [ethEntries,entries_congr _ _ (hr hok)] at hq
    exact hi j q hq

theorem updated_val {p data : Params} {k v : Str} (hk : data.get? k = some v) (hv : ReadValue v) :
    (updated p data).val k = v := by
  rw [updated,setAll_val,carriedParams,OrdMap.get?_mapEntries,hk,Option.map_some,Option.getD_some,carriedValue,
    carried_eq hv.1 hv.2.2]
  split <;> rfl

theorem updated_val_none {p data : Params} {k : Str} (hk : data.get? k = none) :
    (updated p data).val k = p.val k := by
  rw [updated,setAll_val,carriedParams,OrdMap.get?_mapEntries,hk]
  rfl

theorem networkFields_keyName : ∀ f ∈ networkFields, KeyName f.1 := by decide

def AsRead (p : Params) : Prop := ∀ x ∈ p.entries, Writable x ∧ carriedValue x.1 x.2 = x.2

theorem fill_asRead {result : Params} (hr : ∀ k, ReadValue (result.val k)) {fs : List (Str × Str)}
    (hk : ∀ f ∈ fs, KeyName f.1) {s : Params × Bool} (h : AsRead s.1) :
    AsRead (fs.foldl (fillField result) s).1 := by
  induction fs generalizing s with
  | nil => exact h
  | cons f fs ih =>
    refine ih (fun g hg => hk g (List.mem_cons_of_mem f hg)) ?_
    unfold fillField
    split
    · intro x hx
      rcases OrdMap.mem_set hx with rfl | hx
      · have hv := hr f.2
        refine ⟨Or.inr (Or.inl ⟨hv.2.1,hk f (by simp)⟩),?_⟩
        dsimp only
        rw [carriedValue,carried_eq hv.1 hv.2.2]
        split <;> rfl
      · exact h x hx
    · exact h

theorem entry_asRead {n : Str} {p : Params} (h : EntryOk n p) : AsRead p := by
  intro x hx
  refine ⟨h.writable x hx,?_⟩
  have hm : (carriedParams p).entries = p.entries := by rw [carriedParams_entry h]
  have he : p.entries.map (fun x => (x.1,carriedValue x.1 x.2)) = p.entries.map id := hm.trans (List.map_id _).symm
  exact congrArg Prod.snd (List.map_inj_left.mp he x hx)

theorem asRead_carried {p : Params} (h : AsRead p) : carriedParams p = p := by
  apply OrdMap.ext
  have hm : p.entries.map (fun x => (x.1,carriedValue x.1 x.2)) = p.entries.map id :=
    List.map_congr_left fun x hx => by rw [(h x hx).2]; rfl
  exact hm.trans (List.map_id _)

theorem fillNetwork_asRead {n : Str} {p : Params} (h : EntryOk n p) : AsRead (fillNetwork v6 p).1 :=
  @fill_asRead _ (fun j => Ipcalc.ip_read v6.is (p.val "ADDR") (networkPrefix p) j) _ networkFields_keyName
    (p,false) (entry_asRead h)

theorem updated_fill {n : Str} {p : Params} (h : EntryOk n p) (k : Str) :
    (updated p (fillNetwork v6 p).1).val k = (fillNetwork v6 p).1.val k := by
  rw [updated,asRead_carried (fillNetwork_asRead v6 h),setAll_val]
  cases hg : (fillNetwork v6 p).1.get? k with
  | some v => rw [Option.getD_some,Params.val,OrdMap.getD,hg]; rfl
  | none =>
    have hv : (fillNetwork v6 p).1.val k = [] := by rw [Params.val,OrdMap.getD,hg]; rfl
    rw [hv,Option.getD_none]
    exact fillNetwork_val_nil v6 hv

theorem fillNetwork_fillable {p : Params} (h : Fillable v6 p) (hm : p.val "PREF" ≠ [] ∨ p.val "MASK" ≠ []) :
    Fillable v6 (fillNetwork v6 p).1 := by
  have hcur := fillNetwork_current v6 h
  by_cases hpr : (fillNetwork v6 p).1.val "PREF" = []
  · -- no prefix was found for the mask, which has stayed
    have hp : p.val "PREF" = [] := fillNetwork_val_nil v6 hpr
    have hmask : (fillNetwork v6 p).1.val "MASK" = p.val "MASK" := by
      rw [fillNetwork_val v6 p rfl,null_false_iff.mpr (hm.resolve_left fun hn => hn hp)]
      rfl
    have hnone : (Ipcalc.ip v6.is (p.val "ADDR") (p.val "MASK")).val "prefix" = [] := by
      rw [fillNetwork_val v6 p rfl,null_iff.mpr hp,if_pos rfl,networkPrefix,null_iff.mpr hp] at hpr
      exact hpr
    have haddr : (fillNetwork v6 p).1.val "ADDR" = p.val "ADDR" := fillNetwork_val_ne v6 p rfl
    intro ha
    rw [haddr] at ha ⊢
    rw [hmask,hpr]
    refine ⟨fun _ => (h ha).1 hp,fun hs => ?_⟩
    exact absurd hnone (by simpa [startPrefix] using hs)
  · exact hcur.fillable v6 hpr

theorem coherent_objects {sec fil : Str} {w w' : World} (hr : w'.reg = w.reg)
    (ho : w'.obj.get? (objName sec fil) = w.obj.get? (objName sec fil)) (h : Coherent sec fil w) :
    Coherent sec fil w' := by
  have hf : fileArrayGet w' (objName sec fil) = fileArrayGet w (objName sec fil) := by
    rw [fileArrayGet,fileArrayGet,ho]
  rw [Coherent,hf,entries_congr sec fil hr]
  exact h

theorem get?_select (p : Str → Object → Bool) (m : OrdMap Str Object) {k : Str} (h : ∀ a, p k a = true) :
    (m.select p).get? k = m.get? k := by
  have hm : ∀ a, (k,a) ∈ (m.select p).entries ↔ (k,a) ∈ m.entries := fun a => by
    simp [OrdMap.select,h a]
  cases hg : m.get? k with
  | some a => exact OrdMap.get?_eq_some.mpr ((hm a).mpr (OrdMap.get?_eq_some.mp hg))
  | none =>
    cases hs : (m.select p).get? k with
    | none => rfl
    | some a => rw [OrdMap.get?_eq_some.mpr ((hm a).mp (OrdMap.get?_eq_some.mp hs))] at hg; simp at hg

theorem unlinkPrints_quiet (w : World) : Quiet w (unlinkPrints w) := by
  refine ⟨rfl,fun h sec fil hs => ?_⟩
  have ho : (unlinkPrints w).obj.get? (objName sec fil) = w.obj.get? (objName sec fil) := by
    refine get?_select _ w.obj fun a => ?_
    rcases hs with rfl | rfl <;> rfl
  exact @coherent_objects sec fil w (unlinkPrints w) rfl ho (h sec fil hs)

theorem eth_netFile : ("eth.cfg" : Str) ∈ netFiles := by decide

/-- One turn of the loop: the entry it is about can be filled, and then is; the others stay. -/
theorem networkUpdate_fills {w : World} (h : Sound w) (hi : AllFillable v6 w) {id : Str} {p : Params}
    (hp : (ethEntries w).get? id = some p) :
    Sound (networkUpdateNetworkcfg v6 env id p w).2 ∧
    AllFillable v6 (networkUpdateNetworkcfg v6 env id p w).2 ∧
    (∀ j, id ≠ j → (ethEntries (networkUpdateNetworkcfg v6 env id p w).2).get? j = (ethEntries w).get? j) ∧
    (env.strg = true → ∀ q, (ethEntries (networkUpdateNetworkcfg v6 env id p w).2).get? id = some q →
      Current v6 q) := by
  have hep : EntryOk id p := (readText_canonical (h.plain _ eth_netFile)).get? hp
  have hfp := hi id p hp
  have hcur := fillNetwork_current v6 hfp
  have hv := updated_fill v6 hep
  unfold networkUpdateNetworkcfg
  split
  · -- without an address, or with neither a prefix nor a mask
    rename_i hc
    refine ⟨h,hi,fun _ _ => rfl,fun _ q hq => ?_⟩
    rw [hp,Option.some.injEq] at hq
    subst hq
    intro ha hpr
    simp [ha,hpr] at hc
  · rename_i hc
    have hm : p.val "PREF" ≠ [] ∨ p.val "MASK" ≠ [] := by
      by_contra hn
      simp only [not_or,not_not] at hn
      simp [hn.1,hn.2] at hc
    have hpe : (fillNetwork v6 p).1.isEmpty = false := by
      rw [Bool.eq_false_iff]
      intro he
      have hn : (fillNetwork v6 p).1.val "ADDR" = [] := by rw [OrdMap.isEmpty_iff.mp he]; rfl
      rw [fillNetwork_val_ne v6 p rfl] at hn
      simp [hn] at hc
    dsimp only
    rw [hpe,Bool.not_false,Bool.true_and]
    cases hd : (fillNetwork v6 p).2 with
    | false =>
      have he : (fillNetwork v6 p).1 = p := congrArg Prod.fst (fill_unchanged _ hd)
      refine ⟨h,hi,fun _ _ => rfl,fun _ q hq => ?_⟩
      rw [if_neg (by simp),hp,Option.some.injEq] at hq
      rwa [← hq,← he]
    | true =>
      rw [if_pos rfl]
      dsimp only
      have hw : WritableData (fillNetwork v6 p).1 := fun x hx => (fillNetwork_asRead v6 hep x hx).1
      obtain ⟨-,-,hr,ho⟩ := update_read env h eth_netFile id hw
      obtain ⟨hs,ha⟩ := update_fillable v6 env h hi hw fun q hq => by
        rw [hp,Option.some.injEq] at hq
        subst hq
        exact (fillNetwork_fillable v6 hfp hm).congr v6 (hv _) (hv _) fun f _ => hv f.1
      refine ⟨hs,ha,fun j hj => ?_,fun hstrg q hq => ?_⟩
      · by_cases hok : (iniTokenUpdate env "network" "eth.cfg" id (fillNetwork v6 p).1 w).1 = .ok
        · obtain ⟨p',-,he⟩ := ho hok
          rw [ethEntries,he,OrdMap.get?_set_ne _ _ hj]
        · rw [ethEntries,entries_congr _ _ (hr hok)]
      · have hname : (fillNetwork v6 p).1.val "NAME" = p.val "NAME" := fillNetwork_val_ne v6 p rfl
        obtain ⟨p',hp',he⟩ := ho (update_ok env h eth_netFile hstrg hp (Or.inr hname))
        rw [hp,Option.some.injEq] at hp'
        subst hp'
        rw [ethEntries,he,OrdMap.get?_set_self,Option.some.injEq] at hq
        rw [← hq]
        refine current_readBack v6 ?_
        unfold Current
        rw [show p.setAll (carriedParams (fillNetwork v6 p).1).entries = updated p (fillNetwork v6 p).1 from rfl,
          hv,hv]
        exact fun h₁ h₂ f hf => (hv f.1).trans (hcur h₁ h₂ f hf)

def Started (p : Params) : Prop := (startable p && addressed p) = true

instance (p : Params) : Decidable (Started p) := inferInstanceAs (Decidable (_ = true))

/-- The loop over the entries as they were read: those it starts are filled, the others stay. -/
theorem startEntries_fills {es : List (Str × Params)} (hd : (es.map Prod.fst).Nodup) {w : World} (h : Sound w)
    (hi : AllFillable v6 w) (he : ∀ e ∈ es, (ethEntries w).get? e.1 = some e.2) :
    Sound (es.foldl (networkStartEntry v6 env) w) ∧ AllFillable v6 (es.foldl (networkStartEntry v6 env) w) ∧
    (∀ j, (∀ e ∈ es, Started e.2 → e.1 ≠ j) →
      (ethEntries (es.foldl (networkStartEntry v6 env) w)).get? j = (ethEntries w).get? j) ∧
    (env.strg = true → ∀ e ∈ es, Started e.2 → ∀ q,
      (ethEntries (es.foldl (networkStartEntry v6 env) w)).get? e.1 = some q → Current v6 q) := by
  induction es generalizing w with
  | nil => exact ⟨h,hi,fun _ _ => rfl,fun _ e he => absurd he (by simp)⟩
  | cons e es ih =>
    rw [List.map_cons,List.nodup_cons] at hd
    have hne : ∀ x ∈ es, e.1 ≠ x.1 := fun x hx hh => hd.1 (hh ▸ List.mem_map_of_mem hx)
    rw [List.foldl_cons]
    by_cases hs : Started e.2
    · have hu := networkUpdate_fills v6 env h hi (he e (by simp))
      have hw : networkStartEntry v6 env w e = (networkUpdateNetworkcfg v6 env e.1 e.2 w).2 := if_pos hs
      rw [hw]
      obtain ⟨h₁,h₂,h₃,h₄⟩ := hu
      obtain ⟨i₁,i₂,i₃,i₄⟩ := ih hd.2 h₁ h₂ fun x hx => by
        rw [h₃ x.1 (hne x hx)]
        exact he x (List.mem_cons_of_mem e hx)
      refine ⟨i₁,i₂,fun j hj => ?_,fun hstrg x hx hsx q hq => ?_⟩
      · rw [i₃ j fun x hx => hj x (List.mem_cons_of_mem e hx),h₃ j (hj e (by simp) hs)]
      · rcases List.mem_cons.mp hx with rfl | hx
        · rw [i₃ x.1 fun y hy _ => (hne y hy).symm] at hq
          exact h₄ hstrg q hq
        · exact i₄ hstrg x hx hsx q hq
    · have hw : networkStartEntry v6 env w e = w := if_neg hs
      rw [hw]
      obtain ⟨i₁,i₂,i₃,i₄⟩ := ih hd.2 h hi fun x hx => he x (List.mem_cons_of_mem e hx)
      refine ⟨i₁,i₂,fun j hj => i₃ j fun x hx => hj x (List.mem_cons_of_mem e hx),fun hstrg x hx hsx q hq => ?_⟩
      rcases List.mem_cons.mp hx with rfl | hx
      · exact absurd hsx hs
      · exact i₄ hstrg x hx hsx q hq

def clearedData : Params := dataOf [("HOST_TOTAL",[]),("HOST_MIN",[]),("HOST_MAX",[]),("HOST_TYPE",[]),("INET",[]),
  ("ADDR",[]),("GATEWAY",[]),("PDEV",[]),("MASK",[]),("PREF",[]),("NETWORK",[]),("BCAST",[])]

theorem readValue_nil : ReadValue [] := ⟨rfl,by simp,by simp⟩

theorem clearPppoe_clears {w : World} (h : Sound w) (hi : AllFillable v6 w) (id : Str) :
    Sound (clearPppoe env w id) ∧ AllFillable v6 (clearPppoe env w id) ∧
    (∀ j, id ≠ j → (ethEntries (clearPppoe env w id)).get? j = (ethEntries w).get? j) ∧
    (env.strg = true → ∀ q, (ethEntries (clearPppoe env w id)).get? id = some q → q.val "ADDR" = []) := by
  have hw : WritableData clearedData := by decide
  have haddr : ∀ p : Params, (updated p clearedData).val "ADDR" = [] := fun p => updated_val rfl readValue_nil
  obtain ⟨-,-,hr,ho⟩ := update_read env h eth_netFile id hw
  obtain ⟨hs,ha⟩ := update_fillable v6 env h hi hw fun q _ => fillable_unaddressed v6 (haddr q)
  refine ⟨hs,ha,fun j hj => ?_,fun hstrg q hq => ?_⟩
  · by_cases hok : (iniTokenUpdate env "network" "eth.cfg" id clearedData w).1 = .ok
    · obtain ⟨p,-,he⟩ := ho hok
      exact (congrArg (OrdMap.get? · j) he).trans (OrdMap.get?_set_ne _ _ hj)
    · exact congrArg (OrdMap.get? · j) (entries_congr _ _ (hr hok))
  · cases hp : (ethEntries w).get? id with
    | none =>
      have hok : (iniTokenUpdate env "network" "eth.cfg" id clearedData w).1 ≠ .ok := fun hok => by
        obtain ⟨p,hp',-⟩ := ho hok
        rw [hp] at hp'
        simp at hp'
      have he := (congrArg (OrdMap.get? · id) (entries_congr "network" "eth.cfg" (hr hok))).symm.trans hq
      rw [hp] at he
      simp at he
    | some p =>
      obtain ⟨p',-,he⟩ := ho (update_ok env h eth_netFile hstrg hp (Or.inl rfl))
      have hg := (congrArg (OrdMap.get? · id) he).symm.trans hq
      rw [OrdMap.get?_set_self,Option.some.injEq] at hg
      rw [← hg,readBack_val _ (by decide)]
      exact haddr p'

theorem clearPeers_clears {peers : List Str} {w : World} (h : Sound w) (hi : AllFillable v6 w) :
    Sound (peers.foldl (clearPppoe env) w) ∧ AllFillable v6 (peers.foldl (clearPppoe env) w) ∧
    (env.strg = true → ∀ j q, (ethEntries (peers.foldl (clearPppoe env) w)).get? j = some q →
      q.val "ADDR" = [] ∨ j ∉ peers ∧ (ethEntries w).get? j = some q) := by
  induction peers generalizing w with
  | nil => exact ⟨h,hi,fun _ j q hq => Or.inr ⟨by simp,hq⟩⟩
  | cons id peers ih =>
    obtain ⟨h₁,h₂,h₃,h₄⟩ := clearPppoe_clears v6 env h hi id
    obtain ⟨i₁,i₂,i₃⟩ := ih h₁ h₂
    refine ⟨i₁,i₂,fun hstrg j q hq => ?_⟩
    rcases i₃ hstrg j q hq with ha | ⟨hn,hg⟩
    · exact Or.inl ha
    · by_cases hj : id = j
      · subst hj
        exact Or.inl (h₄ hstrg q hg)
      · rw [h₃ j hj] at hg
        exact Or.inr ⟨by simp [hn,Ne.symm hj],hg⟩

/-- What the start has to find: each entry is one it fills, one it clears, or lacks nothing. -/
def StartFills (boot : Bool) (peers : List Str) (w : World) : Prop := env.strg = true ∧
  ∀ id p, (ethEntries w).get? id = some p → Started p ∨ Complete v6 p ∨ boot = false ∧ id ∈ peers

theorem networkStart_fills {w : World} (h : Sound w) (hi : AllFillable v6 w) (boot : Bool) (peers : List Str) :
    Sound (networkStart v6 env boot peers w).2 ∧ AllFillable v6 (networkStart v6 env boot peers w).2 ∧
    (StartFills v6 env boot peers w → ∀ id q, (ethEntries (networkStart v6 env boot peers w).2).get? id = some q →
      Current v6 q) := by
  obtain ⟨v,hv,hs,ha,hc⟩ : ∃ v, v = (if boot then w else peers.foldl (clearPppoe env) w) ∧ Sound v ∧
      AllFillable v6 v ∧ (env.strg = true → ∀ j q, (ethEntries v).get? j = some q →
        q.val "ADDR" = [] ∨ ¬(boot = false ∧ j ∈ peers) ∧ (ethEntries w).get? j = some q) := by
    refine ⟨_,rfl,?_⟩
    cases boot with
    | true => exact ⟨h,hi,fun _ j q hq => Or.inr ⟨by simp,hq⟩⟩
    | false =>
      obtain ⟨h₁,h₂,h₃⟩ := @clearPeers_clears v6 env peers w h hi
      exact ⟨h₁,h₂,fun hstrg j q hq => (h₃ hstrg j q hq).imp_right fun hn => ⟨by simp [hn.1],hn.2⟩⟩
  have hq := (unlinkPrints_quiet v).trans (get_quiet env "eth.cfg" (unlinkPrints v))
  have hg := iniTokenGet_fst env _ _ ((hs.quiet (unlinkPrints_quiet v)).fresh "network" "eth.cfg" looked_network)
  rw [entries_congr _ _ (unlinkPrints_quiet v).reg] at hg
  generalize hr : iniTokenGet env "network" "eth.cfg" ∅ (unlinkPrints v) = g at hq hg
  replace hg : g.1 = ethEntries v := hg
  have hreg : ethEntries g.2 = ethEntries v := entries_congr _ _ hq.reg
  have hag : AllFillable v6 g.2 := fun id p hp => ha id p (by rwa [hreg] at hp)
  have hrun : networkStart v6 env boot peers w =
      if g.1.isEmpty then (false,g.2) else (true,g.1.entries.foldl (networkStartEntry v6 env) g.2) := by
    rw [← hr,hv]
    rfl
  rw [hrun]
  split
  · rename_i he
    refine ⟨hs.quiet hq,hag,fun _ id q hqq => ?_⟩
    rw [hreg,← hg,OrdMap.isEmpty_iff.mp he] at hqq
    simp at hqq
  · obtain ⟨h₁,h₂,h₃,h₄⟩ := startEntries_fills v6 env g.1.nodup (hs.quiet hq) hag fun e he => by
      rw [hreg,← hg]
      exact OrdMap.get?_eq_some.mpr he
    refine ⟨h₁,h₂,fun ⟨hstrg,hf⟩ id q hqq => ?_⟩
    by_cases hx : ∃ e ∈ g.1.entries, Started e.2 ∧ e.1 = id
    · obtain ⟨e,he,hse,rfl⟩ := hx
      exact h₄ hstrg e he hse q hqq
    · -- the loop has left the entry as it was
      rw [h₃ id fun e he hse hid => hx ⟨e,he,hse,hid⟩,hreg] at hqq
      have hns : ¬ Started q := fun hn =>
        hx ⟨(id,q),OrdMap.get?_eq_some.mp (by rw [hg]; exact hqq),hn,rfl⟩
      rcases hc hstrg id q hqq with hna | ⟨hnp,hw⟩
      · exact fun hn => absurd hna hn
      · exact (ha id q hqq).current v6 (((hf id q hw).resolve_left hns).resolve_right hnp)

def hostFields : List (Str × Str) := [("HOST_MIN","hostmin"),("HOST_MAX","hostmax"),("HOST_TOTAL","total")]

/-- What the VLAN and netmask commands leave in the entry. -/
def keptFields : List (Str × Str) := ("NETWORK","network")::("BCAST","broadcast")::hostFields

def givenFields : List (Str × Str) := [("NETWORK","network"),("BCAST","broadcast"),("MASK","netmask")]

def prefixOf (addr nmask : Str) : Str := (Ipcalc.ip v6.is addr nmask).val "prefix"

/-- The set command is for interfaces of this type. -/
def ofType (type : Str) (p : Params) : Bool := null (p.val "TYPE") || looseEq (p.val "TYPE") type

def leaseEntry (l : Lease) (w : World) : Params :=
  (iniTokenGetByparam env "network" "eth.cfg" "DEVICE" l.interface ∅ w).1.2

/-- What a step must meet: a field it does not write is missing, or already is what the calculator gives for the
new address and prefix. -/
def FieldOp.Safe : FieldOp → World → Prop
  | .addStatic _ name ip nmask note goOn, _ => '\n' ∉ name ∧ '\n' ∉ note ∧
    (checkIp v6 ip = true → goOn = true → Narrow nmask)
  | .addVlan id name tag ip nmask note goOn, w => '\n' ∉ name ∧ '\n' ∉ tag ∧ '\n' ∉ note ∧
    (checkIp v6 ip = true → goOn = true → Narrow nmask ∧
      ∀ p, (ethEntries w).get? id = some p → Agrees v6 ip (prefixOf v6 ip nmask) p keptFields)
  | .addDhcp _ name note, _ => '\n' ∉ name ∧ '\n' ∉ note
  | .addPppoe _ name note, _ => '\n' ∉ name ∧ '\n' ∉ note
  | .setName _ _ name, _ => '\n' ∉ name
  | .setAddress type id ip goOn, w => checkIp v6 ip = true → goOn = true →
    ∀ p, (ethEntries w).get? id = some p → ofType type p = true → (p.val "PREF" = [] → Narrow (p.val "MASK")) ∧
      Agrees v6 ip (startPrefix v6 ip (p.val "PREF") (p.val "MASK")) p derivedFields
  | .setNetmask type id nmask, w => ∀ p, (ethEntries w).get? id = some p → ofType type p = true →
    p.val "ADDR" ≠ [] → Narrow nmask ∧ Agrees v6 (p.val "ADDR") (prefixOf v6 (p.val "ADDR") nmask) p keptFields
  | .set _ _ data, _ => WritableData data
  | .lease l, w => l.ip ≠ [] → (l.cidr = [] → Narrow l.mask) ∧
    Agrees v6 l.ip (startPrefix v6 l.ip l.cidr l.mask) l.data givenFields ∧
    Agrees v6 l.ip (startPrefix v6 l.ip l.cidr l.mask) (leaseEntry env l w)
      (hostFields.filter fun f => null ((Ipcalc.ip v6.is l.ip l.cidr).val f.2))
  | .start _ _, _ => True

/-- The registry is sound, and every interface can be filled. -/
structure Filling (w : World) : Prop extends Sound w where
  fillable : AllFillable v6 w

theorem Filling.quiet {w w' : World} (h : Filling v6 w) (hq : Quiet w w') : Filling v6 w' :=
  ⟨h.toSound.quiet hq,fun id p hp => h.fillable id p (by
    rwa [ethEntries,entries_congr "network" "eth.cfg" hq.reg] at hp)⟩

theorem write_fills {w : World} (h : Filling v6 w) {id : Str} {data : Params} (hd : WritableData data)
    (hf : ∀ p, (ethEntries w).get? id = some p → Fillable v6 (updated p data)) :
    Filling v6 (write env "eth.cfg" id data w).2 := by
  unfold write
  split
  · exact h
  · obtain ⟨hs,ha⟩ := update_fillable v6 env h.toSound h.fillable hd hf
    exact ⟨hs,ha⟩

theorem interfaceOf_entry {type id : Str} {w v : World} {p : Params} (h : Fresh w)
    (hi : interfaceOf env type id w = (some p,v)) {q : Params} (hq : (ethEntries w).get? id = some q) :
    q = p ∧ ofType type p = true := by
  have hb := byparam_id env (h _ _ looked_network) hq ∅
  unfold interfaceOf at hi
  dsimp only at hi
  rw [hb] at hi
  simp only [Prod.mk.injEq] at hi
  have hp := hi.1
  split at hp
  · simp at hp
  · rename_i hn
    obtain rfl : q = p := by simpa using hp
    refine ⟨rfl,?_⟩
    simp only [Bool.or_eq_true,Bool.and_eq_true,Bool.not_eq_true',not_or,not_and] at hn
    rw [ofType,Bool.or_eq_true]
    by_cases ht : null (q.val "TYPE") = true
    · exact Or.inl ht
    · exact Or.inr (by simpa using hn.2 (Bool.eq_false_iff.mpr ht))

theorem readMask_pref_ne {m : Str} {k : Ipcalc.Mask} (h : Ipcalc.readMask m = some k) : k.pref ≠ [] := by
  unfold Ipcalc.readMask at h
  split_ifs at h with hp <;> simp only [Option.some.injEq] at h <;> subst h
  · rintro rfl
    simp [Ipcalc.isPrefix] at hp
  all_goals exact Php.decimal_ne _

theorem netmask_nil {addr m : Str} (h : prefixOf v6 addr m = []) :
    (Ipcalc.ip v6.is addr m).val "netmask" = [] := by
  unfold prefixOf Ipcalc.ip at h
  unfold Ipcalc.ip
  split_ifs at h ⊢
  · cases hk : Ipcalc.readMask m with
    | none =>
      rw [Ipcalc.ipv4calc,hk]
      rfl
    | some k =>
      rw [Ipcalc.val_ipv4calc hk (f := "prefix") (v := k.pref) (by simp [Ipcalc.result])] at h
      exact absurd h (readMask_pref_ne hk)
  · rfl
  · rfl

theorem prefixOf_nil (addr : Str) : prefixOf v6 addr [] = [] := by
  unfold prefixOf Ipcalc.ip
  split_ifs <;> rfl

theorem narrow_nil : Narrow [] := by
  intro k hk
  exact absurd hk (by simp [show Ipcalc.readMask [] = none from rfl])

/-- An entry with the address, the prefix and the netmask of a result. -/
theorem fillable_of_result {addr m : Str} {q : Params} (ha : q.val "ADDR" = addr)
    (hp : q.val "PREF" = prefixOf v6 addr m) (hmask : q.val "MASK" = (Ipcalc.ip v6.is addr m).val "netmask")
    (hf : Agrees v6 addr (prefixOf v6 addr m) q derivedFields) : Fillable v6 q := by
  intro _
  rw [ha,hp,hmask]
  by_cases hn : prefixOf v6 addr m = []
  · rw [hn,netmask_nil v6 hn]
    refine ⟨fun _ => narrow_nil,fun hs => ?_⟩
    exact absurd (prefixOf_nil v6 addr) (by simpa [startPrefix,prefixOf] using hs)
  · refine ⟨fun h => absurd h hn,?_⟩
    rw [startPrefix,null_false_iff.mpr hn]
    exact hf

theorem checkIp_read {ip : Str} (h : checkIp v6 ip = true) : ReadValue ip := by
  rw [checkIp,Bool.or_eq_true] at h
  rcases h with h | h
  · exact Ipcalc.readValue_plain (Ipcalc.plain_isIpv4 h)
  · exact v6.read ip h

theorem writableData_of {es : List (Str × Str)} {ks : List Str} (hk : ∀ k ∈ ks, KeyName k)
    (h : es.map Prod.fst = ks) (hv : ∀ e ∈ es, '\n' ∉ e.2) : WritableData (dataOf es) := by
  intro x hx
  rcases mem_setAll hx with hx | hx
  · exact absurd hx List.not_mem_nil
  · exact Or.inr (Or.inl ⟨hv x hx,hk x.1 (h ▸ List.mem_map_of_mem hx)⟩)

theorem add_fills {w : World} (h : Filling v6 w) (id name : Str) (ip : Option (Str × Probe)) {data : Params}
    (hd : (∀ x ∈ ip, x.2.valid = true ∧ x.2.goOn = true) → WritableData data)
    (hf : (∀ x ∈ ip, x.2.valid = true ∧ x.2.goOn = true) →
      ∀ p, (ethEntries w).get? id = some p → Fillable v6 (updated p data)) :
    Filling v6 (interfacesAdd env id name ip data w).2 := by
  rcases interfacesAdd_cases env id name ip data w with ⟨-,hq⟩ | ⟨v,hq,he,-,hip⟩
  · exact h.quiet v6 hq
  · have hx : ∀ x ∈ ip, x.2.valid = true ∧ x.2.goOn = true := fun x hm => (hip x hm).1
    rw [he]
    refine write_fills v6 env (h.quiet v6 hq) (hd hx) fun p hp => hf hx p ?_
    rwa [ethEntries,entries_congr "network" "eth.cfg" hq.reg] at hp

theorem agrees_of_result {addr m : Str} (hm : Narrow m) {q : Params} {fs : List (Str × Str)}
    (hf : ∀ f ∈ fs, f.2 ∈ Ipcalc.networkResults ∧
      (q.val f.1 = [] ∨ q.val f.1 = (Ipcalc.ip v6.is addr m).val f.2 ∨
      (prefixOf v6 addr m ≠ [] → q.val f.1 = [] ∨
        q.val f.1 = (Ipcalc.ip v6.is addr (prefixOf v6 addr m)).val f.2))) :
    Agrees v6 addr (prefixOf v6 addr m) q fs := by
  intro hn f hff
  obtain ⟨hr,hx⟩ := hf f hff
  rcases hx with hx | hx | hx
  · exact Or.inl hx
  · right
    rw [hx]
    exact (Ipcalc.ip_pref v6.is addr hm hn f.2 hr).symm
  · exact hx hn

theorem updated_dataOf {p : Params} {es : List (Str × Str)} {ks : List Str} (hn : ks.Nodup)
    (hk : es.map Prod.fst = ks) {k v : Str} (hl : OrdMap.lookup k es = some v) (hv : ReadValue v) :
    (updated p (dataOf es)).val k = v := updated_val (by rw [Ipcalc.get?_dataOf hn hk,hl]) hv

theorem updated_dataOf_none {p : Params} {es : List (Str × Str)} {ks : List Str} (hn : ks.Nodup)
    (hk : es.map Prod.fst = ks) {k : Str} (hl : k ∉ ks) : (updated p (dataOf es)).val k = p.val k :=
  updated_val_none (by rw [Ipcalc.get?_dataOf hn hk,OrdMap.lookup_eq_none,hk]; exact hl)

theorem hostmx_nil (addr m : Str) : (Ipcalc.ip v6.is addr m).val "hostmx" = [] := by
  unfold Ipcalc.ip
  split_ifs
  · unfold Ipcalc.ipv4calc
    split <;> rfl
  · rfl
  · rfl

def staticKeys : List Str := ["NAME","TYPE","STAT","ADDR","MASK","PREF","BCAST","NETWORK","HOST_TOTAL","HOST_MIN",
  "HOST_MAX","HOST_TYPE","INET","MTU","DEFAULT","GATEWAY","ARP","UPLINK","NAT","NOTE"]

theorem staticKeys_keyName : ∀ k ∈ staticKeys, KeyName k := by decide

theorem staticKeys_nodup : staticKeys.Nodup := by decide

def staticEntries (name ip note : Str) (ipcalc : Params) : List (Str × Str) := [("NAME",name),("TYPE","static"),
  ("STAT","0"),("ADDR",ip),("MASK",ipcalc.val "netmask"),("PREF",ipcalc.val "prefix"),("BCAST",ipcalc.val "broadcast"),
  ("NETWORK",ipcalc.val "network"),("HOST_TOTAL",ipcalc.val "total"),("HOST_MIN",ipcalc.val "hostmin"),
  ("HOST_MAX",ipcalc.val "hostmx"),("HOST_TYPE",ipcalc.val "type"),("INET",ipcalc.val "inet"),("MTU","1500"),
  ("DEFAULT","0"),("GATEWAY",[]),("ARP","0"),("UPLINK","0"),("NAT","0"),("NOTE",note)]

theorem staticEntries_lines {name ip note : Str} {ipcalc : Params} (hn : '\n' ∉ name) (hi : '\n' ∉ ip)
    (hr : ∀ k, '\n' ∉ ipcalc.val k) (ht : '\n' ∉ note) : ∀ e ∈ staticEntries name ip note ipcalc, '\n' ∉ e.2 := by
  unfold staticEntries
  simp only [List.forall_mem_cons]
  exact ⟨hn,by decide,by decide,hi,hr _,hr _,hr _,hr _,hr _,hr _,hr _,hr _,hr _,by decide,by decide,by decide,by decide,
    by decide,by decide,ht,by simp⟩

theorem addStatic_fills {w : World} (h : Filling v6 w) (id name ip nmask note : Str) (goOn : Bool)
    (hn : '\n' ∉ name) (ht : '\n' ∉ note) (hm : checkIp v6 ip = true → goOn = true → Narrow nmask) :
    Filling v6 (interfacesAddStatic env id name ip note ⟨checkIp v6 ip,goOn⟩ (Ipcalc.ip v6.is ip nmask) w).2 := by
  have hr := fun k => Ipcalc.ip_read v6.is ip nmask k
  refine add_fills v6 env h id name _ (fun hx => ?_) fun hx p _ => ?_
  · obtain ⟨hc,-⟩ := hx _ rfl
    exact writableData_of staticKeys_keyName rfl
      (staticEntries_lines hn (checkIp_read v6 hc).2.1 (fun k => (hr k).2.1) ht)
  · obtain ⟨hc,hg⟩ := hx _ rfl
    have hi := checkIp_read v6 hc
    refine fillable_of_result v6 (updated_dataOf staticKeys_nodup rfl rfl hi)
      (updated_dataOf staticKeys_nodup rfl rfl (hr "prefix")) (updated_dataOf staticKeys_nodup rfl rfl (hr "netmask"))
      (agrees_of_result v6 (hm hc hg) ?_)
    simp only [derivedFields,List.forall_mem_cons]
    exact ⟨⟨by decide,Or.inr (Or.inl (updated_dataOf staticKeys_nodup rfl rfl (hr "network")))⟩,
      ⟨by decide,Or.inr (Or.inl (updated_dataOf staticKeys_nodup rfl rfl (hr "broadcast")))⟩,
      ⟨by decide,Or.inr (Or.inl (updated_dataOf staticKeys_nodup rfl rfl (hr "netmask")))⟩,
      ⟨by decide,Or.inr (Or.inl (updated_dataOf staticKeys_nodup rfl rfl (hr "hostmin")))⟩,
      ⟨by decide,Or.inl ((updated_dataOf staticKeys_nodup rfl rfl (hr "hostmx")).trans (hostmx_nil v6 ip nmask))⟩,
      ⟨by decide,Or.inr (Or.inl (updated_dataOf staticKeys_nodup rfl rfl (hr "total")))⟩,by simp⟩

def vlanKeys : List Str := ["NAME","TYPE","TAG","STAT","ADDR","MASK","PREF","INET","MTU","DEFAULT","GATEWAY",
  "UPLINK","NAT","NOTE"]

theorem vlanKeys_keyName : ∀ k ∈ vlanKeys, KeyName k := by decide

theorem vlanKeys_nodup : vlanKeys.Nodup := by decide

def vlanEntries (name tag ip note : Str) (ipcalc : Params) : List (Str × Str) := [("NAME",name),("TYPE","vlan"),
  ("TAG",tag),("STAT","0"),("ADDR",ip),("MASK",ipcalc.val "netmask"),("PREF",ipcalc.val "prefix"),
  ("INET",ipcalc.val "inet"),("MTU","1500"),("DEFAULT","0"),("GATEWAY",[]),("UPLINK","0"),("NAT","0"),("NOTE",note)]

theorem vlanEntries_lines {name tag ip note : Str} {ipcalc : Params} (hn : '\n' ∉ name) (hg : '\n' ∉ tag)
    (hi : '\n' ∉ ip) (hr : ∀ k, '\n' ∉ ipcalc.val k) (ht : '\n' ∉ note) :
    ∀ e ∈ vlanEntries name tag ip note ipcalc, '\n' ∉ e.2 := by
  unfold vlanEntries
  simp only [List.forall_mem_cons]
  exact ⟨hn,by decide,hg,by decide,hi,hr _,hr _,hr _,by decide,by decide,by decide,by decide,by decide,ht,by simp⟩

theorem vlanKeys_kept : ∀ f ∈ keptFields, f.1 ∉ vlanKeys := by decide

theorem kept_results : ∀ f ∈ keptFields, f.2 ∈ Ipcalc.networkResults := by decide

theorem derived_kept : ∀ f ∈ derivedFields, f = ((("MASK" : Str),("netmask" : Str)) : Str × Str) ∨ f ∈ keptFields := by
  decide

/-- A command that writes the netmask only: the other fields are those of the entry. -/
theorem agrees_kept {addr m : Str} (hm : Narrow m) {p q : Params}
    (hmask : q.val "MASK" = (Ipcalc.ip v6.is addr m).val "netmask") (hk : ∀ f ∈ keptFields, q.val f.1 = p.val f.1)
    (h : Agrees v6 addr (prefixOf v6 addr m) p keptFields) :
    Agrees v6 addr (prefixOf v6 addr m) q derivedFields := by
  refine agrees_of_result v6 hm fun f hf => ?_
  rcases derived_kept f hf with rfl | hf
  · exact ⟨by decide,Or.inr (Or.inl hmask)⟩
  · refine ⟨kept_results f hf,Or.inr (Or.inr fun hn => ?_)⟩
    rw [hk f hf]
    exact h hn f hf

theorem addVlan_fills {w : World} (h : Filling v6 w) (id name tag ip nmask note : Str) (goOn : Bool)
    (hs : (FieldOp.addVlan id name tag ip nmask note goOn).Safe v6 env w) :
    Filling v6 (interfacesAddVlan env id name tag ip note ⟨checkIp v6 ip,goOn⟩ (Ipcalc.ip v6.is ip nmask) w).2 := by
  obtain ⟨hn,htag,ht,hm⟩ := hs
  have hr := fun k => Ipcalc.ip_read v6.is ip nmask k
  refine add_fills v6 env h id name _ (fun hx => ?_) fun hx p hp => ?_
  · obtain ⟨hc,-⟩ := hx _ rfl
    exact writableData_of vlanKeys_keyName rfl
      (vlanEntries_lines hn htag (checkIp_read v6 hc).2.1 (fun k => (hr k).2.1) ht)
  · obtain ⟨hc,hg⟩ := hx _ rfl
    have hi := checkIp_read v6 hc
    obtain ⟨hnarrow,hkept⟩ := hm hc hg
    refine fillable_of_result v6 (updated_dataOf vlanKeys_nodup rfl rfl hi)
      (updated_dataOf vlanKeys_nodup rfl rfl (hr "prefix")) (updated_dataOf vlanKeys_nodup rfl rfl (hr "netmask"))
      (agrees_kept v6 hnarrow (updated_dataOf vlanKeys_nodup rfl rfl (hr "netmask")) 
        (fun f hf => updated_dataOf_none vlanKeys_nodup rfl (vlanKeys_kept f hf)) (hkept p hp))

theorem unaddressed_fills {w : World} (h : Filling v6 w) (id name : Str) {es : List (Str × Str)} {ks : List Str}
    (hk : ∀ k ∈ ks, KeyName k) (hn : ks.Nodup) (he : es.map Prod.fst = ks) (hl : ∀ e ∈ es, '\n' ∉ e.2)
    (ha : OrdMap.lookup ("ADDR" : Str) es = some []) : Filling v6 (interfacesAdd env id name none (dataOf es) w).2 :=
  add_fills v6 env h id name none (fun _ => writableData_of hk he hl) fun _ _ _ =>
    fillable_unaddressed v6 (updated_dataOf hn he ha readValue_nil)

def pppoeKeys : List Str := ["NAME","TYPE","STAT","ADDR","MASK","PREF","BCAST","NETWORK","HOST_TOTAL",
  "HOST_MIN","HOST_MAX","HOST_TYPE","MTU","DEFAULT","GATEWAY","ARP","UPLINK","NAT","NOTE","USERNAME","PASSWORD",
  "RETRY","RECONNECT"]

theorem pppoeKeys_keyName : ∀ k ∈ pppoeKeys, KeyName k := by decide

theorem pppoeKeys_nodup : pppoeKeys.Nodup := by decide

def dhcpKeys : List Str := pppoeKeys.take 19

theorem dhcpKeys_keyName : ∀ k ∈ dhcpKeys, KeyName k := fun k hk => pppoeKeys_keyName k (List.mem_of_mem_take hk)

theorem dhcpKeys_nodup : dhcpKeys.Nodup := pppoeKeys_nodup.sublist (List.take_sublist _ _)

def unaddressedEntries (name type mtu note : Str) : List (Str × Str) := [("NAME",name),("TYPE",type),("STAT","0"),
  ("ADDR",[]),("MASK",[]),("PREF",[]),("BCAST",[]),("NETWORK",[]),("HOST_TOTAL",[]),("HOST_MIN",[]),("HOST_MAX",[]),
  ("HOST_TYPE",[]),("MTU",mtu),("DEFAULT","0"),("GATEWAY",[]),("ARP","0"),("UPLINK","0"),("NAT","0"),("NOTE",note)]

def dhcpEntries (name note : Str) : List (Str × Str) := unaddressedEntries name "dhcp" "1500" note

def accountEntries : List (Str × Str) := [("USERNAME",[]),("PASSWORD",[]),("RETRY","5"),("RECONNECT",[])]

theorem accountEntries_lines : ∀ e ∈ accountEntries, '\n' ∉ e.2 := by decide

def pppoeEntries (name note : Str) : List (Str × Str) :=
  unaddressedEntries name "pppoe" "1492" note ++ accountEntries

theorem unaddressedEntries_lines {name type mtu note : Str} (hn : '\n' ∉ name) (hy : '\n' ∉ type) (hm : '\n' ∉ mtu)
    (ht : '\n' ∉ note) : ∀ e ∈ unaddressedEntries name type mtu note, '\n' ∉ e.2 := by
  unfold unaddressedEntries
  simp only [List.forall_mem_cons]
  exact ⟨hn,hy,by decide,by decide,by decide,by decide,by decide,by decide,by decide,by decide,by decide,
    by decide,hm,by decide,by decide,by decide,by decide,by decide,ht,by simp⟩

theorem dhcpEntries_lines {name note : Str} (hn : '\n' ∉ name) (ht : '\n' ∉ note) :
    ∀ e ∈ dhcpEntries name note, '\n' ∉ e.2 := unaddressedEntries_lines hn (by decide) (by decide) ht

theorem pppoeEntries_lines {name note : Str} (hn : '\n' ∉ name) (ht : '\n' ∉ note) :
    ∀ e ∈ pppoeEntries name note, '\n' ∉ e.2 := by
  intro e he
  rcases List.mem_append.mp he with he | he
  · exact unaddressedEntries_lines hn (by decide) (by decide) ht e he
  · exact accountEntries_lines e he

theorem addDhcp_fills {w : World} (h : Filling v6 w) (id : Str) {name note : Str} (hn : '\n' ∉ name)
    (ht : '\n' ∉ note) : Filling v6 (interfacesAddDhcp env id name note w).2 :=
  @unaddressed_fills v6 env w h id name (dhcpEntries name note) dhcpKeys dhcpKeys_keyName dhcpKeys_nodup rfl
    (dhcpEntries_lines hn ht) rfl

theorem dataOf_append (es fs : List (Str × Str)) : (dataOf es).setAll fs = dataOf (es ++ fs) :=
  List.foldl_append.symm

theorem interfacesAddPppoe_eq (id name note : Str) (w : World) : interfacesAddPppoe env id name note w =
    interfacesAdd env id name none (dataOf (pppoeEntries name note)) w := by
  unfold interfacesAddPppoe unaddressed pppoeEntries
  rw [dataOf_append]
  rfl

theorem addPppoe_fills {w : World} (h : Filling v6 w) (id : Str) {name note : Str} (hn : '\n' ∉ name)
    (ht : '\n' ∉ note) : Filling v6 (interfacesAddPppoe env id name note w).2 := by
  rw [interfacesAddPppoe_eq]
  exact unaddressed_fills v6 env h id name pppoeKeys_keyName pppoeKeys_nodup rfl (pppoeEntries_lines hn ht) rfl

theorem dataOf_one (k v : Str) : (dataOf [(k,v)]).get? k = some v := OrdMap.get?_set_self _ _ _

theorem writable_one {k v : Str} (hk : KeyName k) (hv : '\n' ∉ v) : WritableData (dataOf [(k,v)]) :=
  @writableData_of [(k,v)] [k] (by simpa using hk) rfl (by simpa using hv)

theorem dataOf_one_ne {k j : Str} (v : Str) (h : k ≠ j) : (dataOf [(k,v)]).get? j = none := by
  rw [Interfaces.dataOf_single,if_neg h]

theorem setName_fills {w : World} (h : Filling v6 w) (type id : Str) {name : Str} (hn : '\n' ∉ name) :
    Filling v6 (interfacesSetName env type id name w).2 := by
  refine interfaceOf_cases env type id w _ (fun v hq => h.quiet v6 hq) fun p v hq => ?_
  have hq' := hq.trans (changeTaken_quiet env "NAME" (p.val "NAME") name v)
  dsimp only
  split
  · exact h.quiet v6 hq'
  · refine write_fills v6 env (h.quiet v6 hq') (writable_one (by decide) hn) fun q hqq => ?_
    have hold : ∀ {k : Str}, ("NAME" : Str) ≠ k → (updated q (dataOf [("NAME",name)])).val k = q.val k :=
      fun hk => updated_val_none (dataOf_one_ne name hk)
    exact ((h.quiet v6 hq').fillable id q hqq).congr v6 (hold (by decide)) (hold (by decide)) fun f hf =>
      hold ((by decide : ∀ f ∈ derivedFields, ("NAME" : Str) ≠ f.1) f hf)

theorem interfaceOf_typed {type id : Str} {w : World} (h : Filling v6 w) {q : Params}
    (hq : (ethEntries w).get? id = some q) {r : Option Params × World} (hr : interfaceOf env type id w = r) {p : Params}
    (hp : r.1 = some p) : q = p ∧ ofType type p = true :=
  interfaceOf_entry env (v := r.2) h.fresh (by rw [hr,← hp]) hq

theorem setAddress_fills {w : World} (h : Filling v6 w) (type id ip : Str) (goOn : Bool)
    (hs : (FieldOp.setAddress type id ip goOn).Safe v6 env w) :
    Filling v6 (interfacesSetAddress env type id ip ⟨checkIp v6 ip,goOn⟩ w).2 := by
  have hq := interfaceOf_quiet env type id w
  unfold interfacesSetAddress
  generalize hr : interfaceOf env type id w = r at hq
  obtain ⟨p | p,v⟩ := r
  · exact h.quiet v6 hq
  · have hq' := hq.trans (changeTaken_quiet env "ADDR" (p.val "ADDR") ip v)
    dsimp only
    split
    · exact h.quiet v6 hq
    · rename_i hc
      split
      · exact h.quiet v6 hq'
      · rename_i hg
        simp only [Bool.or_eq_true,Bool.not_eq_true',not_or,Bool.not_eq_false] at hc hg
        have hi := checkIp_read v6 hc
        refine write_fills v6 env (h.quiet v6 hq') (writable_one (by decide) hi.2.1) fun q hqq => ?_
        rw [ethEntries,entries_congr "network" "eth.cfg" hq'.reg] at hqq
        obtain ⟨rfl,ht⟩ := interfaceOf_typed v6 env h hqq hr rfl
        have hold : ∀ {k : Str}, ("ADDR" : Str) ≠ k → (updated q (dataOf [("ADDR",ip)])).val k = q.val k :=
          fun hk => updated_val_none (dataOf_one_ne ip hk)
        have hm := hold (k := "MASK") (by decide)
        have hp := hold (k := "PREF") (by decide)
        have hne : ∀ f ∈ derivedFields, ("ADDR" : Str) ≠ f.1 := by decide
        intro _
        rw [updated_val (dataOf_one "ADDR" ip) hi,hp,hm]
        obtain ⟨h₁,h₂⟩ := hs hc hg.2 q hqq ht
        refine ⟨h₁,fun hn f hf => ?_⟩
        rw [hold (hne f hf)]
        exact h₂ hn f hf

def netmaskKeys : List Str := ["MASK","PREF","INET"]

theorem netmaskKeys_keyName : ∀ k ∈ netmaskKeys, KeyName k := by decide

theorem netmaskKeys_nodup : netmaskKeys.Nodup := by decide

theorem netmaskKeys_kept : ∀ f ∈ keptFields, f.1 ∉ netmaskKeys := by decide

theorem setNetmask_fills {w : World} (h : Filling v6 w) (type id nmask : Str)
    (hs : (FieldOp.setNetmask type id nmask).Safe v6 env w) :
    Filling v6 (interfacesSetNetmask v6 env type id nmask w).2 := by
  have hq := interfaceOf_quiet env type id w
  unfold interfacesSetNetmask
  generalize hr : interfaceOf env type id w = r at hq
  obtain ⟨p | p,v⟩ := r
  · exact h.quiet v6 hq
  · dsimp only
    split
    · exact h.quiet v6 hq
    · rename_i hn
      have hv := fun k => Ipcalc.ip_read v6.is (p.val "ADDR") nmask k
      refine write_fills v6 env (h.quiet v6 hq) (writableData_of netmaskKeys_keyName rfl ?_) fun q hqq => ?_
      · simp only [List.forall_mem_cons]
        exact ⟨(hv _).2.1,(hv _).2.1,(hv _).2.1,by simp⟩
      · rw [ethEntries,entries_congr "network" "eth.cfg" hq.reg] at hqq
        obtain ⟨rfl,ht⟩ := interfaceOf_typed v6 env h hqq hr rfl
        obtain ⟨hnarrow,hkept⟩ := hs q hqq ht (by simpa using hn)
        exact fillable_of_result v6 (updated_dataOf_none netmaskKeys_nodup rfl (by decide))
          (updated_dataOf netmaskKeys_nodup rfl rfl (hv "prefix"))
          (updated_dataOf netmaskKeys_nodup rfl rfl (hv "netmask"))
          (agrees_kept v6 hnarrow (updated_dataOf netmaskKeys_nodup rfl rfl (hv "netmask"))
            (fun f hf => updated_dataOf_none netmaskKeys_nodup rfl (netmaskKeys_kept f hf)) hkept)

theorem otherKeys_derived : (("ADDR" : Str) ∉ otherKeys ∧ ("PREF" : Str) ∉ otherKeys) ∧
    ∀ f ∈ derivedFields, f.1 ∉ otherKeys := by decide

theorem set_fills {w : World} (h : Filling v6 w) (type id : Str) {data : Params} (hd : WritableData data)
    (hk : data.keys.all (otherKeys.contains ·) = true) : Filling v6 (interfacesSet env type id data w).2 := by
  refine interfaceOf_cases env type id w _ (fun v hq => h.quiet v6 hq) fun p v hq => ?_
  refine write_fills v6 env (h.quiet v6 hq) hd fun q hqq => ?_
  have hold : ∀ {k : Str}, k ∉ otherKeys → (updated q data).val k = q.val k := fun hn =>
    updated_val_none (get?_none_of_keys hk hn)
  exact ((h.quiet v6 hq).fillable id q hqq).congr v6 (hold otherKeys_derived.1.1) (hold otherKeys_derived.1.2)
    fun f hf => hold (otherKeys_derived.2 f hf)

/-- A result that is not null is put into the data. -/
theorem leaseFill_get? (result : Params) {fs : List (Str × Str)} (hd : (fs.map Prod.fst).Nodup) (d : Params) (k : Str) :
    (fs.foldl (fun d f => if null (result.val f.2) then d else d.set f.1 (result.val f.2)) d).get? k =
      match OrdMap.lookup k fs with
      | some r => if null (result.val r) then d.get? k else some (result.val r)
      | none => d.get? k := by
  induction fs generalizing d with
  | nil => rfl
  | cons f fs ih =>
    obtain ⟨j,r⟩ := f
    rw [List.map_cons,List.nodup_cons] at hd
    rw [List.foldl_cons,ih hd.2,OrdMap.lookup]
    by_cases hj : j = k
    · subst hj
      rw [OrdMap.lookup_eq_none.mpr hd.1,if_pos rfl]
      dsimp only
      split
      · rfl
      · exact OrdMap.get?_set_self _ _ _
    · have hk : (if null (result.val r) then d else d.set j (result.val r)).get? k = d.get? k := by
        split
        · rfl
        · exact OrdMap.get?_set_ne _ _ hj
      rw [if_neg hj,hk]

theorem leaseFields_nodup : (leaseFields.map Prod.fst).Nodup := by decide

theorem leaseFields_keyName : ∀ f ∈ leaseFields, KeyName f.1 := by decide

def leaseKeys : List Str := ["ADDR","NETWORK","PREF","MASK","BCAST","GATEWAY","DHCP_MTU","DHCP_SERVER",
  "DHCP_DNS_SERVERS","DHCP_DOMAIN_SEARCH"]

theorem leaseKeys_keyName : ∀ k ∈ leaseKeys, KeyName k := by decide

theorem leaseKeys_nodup : leaseKeys.Nodup := by decide

theorem Lease.get?_data {l : Lease} {k v : Str} (h : OrdMap.lookup k [(("ADDR" : Str),l.ip),("NETWORK",l.network),
    ("PREF",l.cidr),("MASK",l.mask),("BCAST",l.broadcast)] = some v) : l.data.get? k = some v := by
  have hl : ∀ (es fs : List (Str × Str)), OrdMap.lookup k es = some v → OrdMap.lookup k (es ++ fs) = some v := by
    intro es fs
    induction es with
    | nil => exact fun h => by cases h
    | cons e es ih =>
      rw [List.cons_append,OrdMap.lookup,OrdMap.lookup]
      split
      · exact id
      · exact ih
  exact (Ipcalc.get?_dataOf leaseKeys_nodup rfl k).trans (hl _ _ h)

theorem Lease.writable (l : Lease) : WritableData l.data := by
  have hr := l.read
  have hl := l.line
  simp only [List.forall_mem_cons] at hr hl
  obtain ⟨ha,hn,hp,hm,hb,-⟩ := hr
  obtain ⟨h₁,h₂,h₃,h₄,h₅,-⟩ := hl
  refine writableData_of leaseKeys_keyName rfl ?_
  simp only [List.forall_mem_cons]
  exact ⟨ha.2.1,hn.2.1,hp.2.1,hm.2.1,hb.2.1,h₁,h₂,h₃,h₄,h₅,by simp⟩

def leased (l : Lease) : Params := leaseFields.foldl (fun d f =>
  if null ((Ipcalc.ip v6.is l.ip l.cidr).val f.2) then d
  else d.set f.1 ((Ipcalc.ip v6.is l.ip l.cidr).val f.2)) l.data

theorem leased_writable (l : Lease) : WritableData (leased v6 l) := by
  have key : ∀ {fs : List (Str × Str)}, (∀ f ∈ fs, KeyName f.1) → ∀ d, WritableData d →
      WritableData (fs.foldl (fun d f => if null ((Ipcalc.ip v6.is l.ip l.cidr).val f.2) then d
        else d.set f.1 ((Ipcalc.ip v6.is l.ip l.cidr).val f.2)) d) := by
    intro fs
    induction fs with
    | nil => exact fun _ _ h => h
    | cons f fs ih =>
      intro hk d hd
      refine ih (fun g hg => hk g (List.mem_cons_of_mem f hg)) _ ?_
      dsimp only
      split
      · exact hd
      · intro x hx
        rcases OrdMap.mem_set hx with rfl | hx
        · exact Or.inr (Or.inl ⟨(Ipcalc.ip_read v6.is _ _ _).2.1,hk f (by simp)⟩)
        · exact hd x hx
  exact key leaseFields_keyName _ l.writable

theorem leased_val {l : Lease} {p : Params} {k v : Str} (hn : OrdMap.lookup k leaseFields = none)
    (hk : l.data.get? k = some v) (hv : ReadValue v) : (updated p (leased v6 l)).val k = v := by
  refine updated_val ?_ hv
  rw [leased,leaseFill_get? _ leaseFields_nodup,hn]
  exact hk

theorem leased_host {l : Lease} {p : Params} {f : Str × Str} (hf : f ∈ hostFields) :
    (updated p (leased v6 l)).val f.1 = if null ((Ipcalc.ip v6.is l.ip l.cidr).val f.2) then p.val f.1
      else (Ipcalc.ip v6.is l.ip l.cidr).val f.2 := by
  have hl : OrdMap.lookup f.1 leaseFields = some f.2 ∧ f.1 ∉ leaseKeys :=
    (by decide : ∀ f ∈ hostFields, OrdMap.lookup f.1 leaseFields = some f.2 ∧ f.1 ∉ leaseKeys) f hf
  have hg := leaseFill_get? (Ipcalc.ip v6.is l.ip l.cidr) leaseFields_nodup l.data f.1
  rw [hl.1] at hg
  split
  · rename_i hn
    refine updated_val_none ?_
    rw [leased,hg]
    dsimp only
    rw [if_pos hn]
    exact (Ipcalc.get?_dataOf leaseKeys_nodup rfl _).trans (OrdMap.lookup_eq_none.mpr hl.2)
  · rename_i hn
    refine updated_val ?_ (Ipcalc.ip_read v6.is _ _ _)
    rw [leased,hg]
    exact if_neg hn

theorem host_nil {addr : Str} {f : Str × Str} (hf : f ∈ hostFields) : (Ipcalc.ip v6.is addr []).val f.2 = [] := by
  have hk : f.2 ≠ ("inet" : Str) := (by decide : ∀ f ∈ hostFields, f.2 ≠ ("inet" : Str)) f hf
  unfold Ipcalc.ip
  split_ifs
  · rfl
  · rw [Params.val,OrdMap.getD,dataOf_one_ne _ hk.symm]
    rfl
  · rfl

theorem entry_dataId {n : Str} {p : Params} (h : EntryOk n p) : p.val dataId = n := by
  obtain ⟨es,he,-⟩ := h.shape
  rw [Params.val,OrdMap.getD,OrdMap.get?,he,OrdMap.lookup,if_pos rfl]
  rfl

theorem leaseEntry_entry {w : World} (h : Sound w) (l : Lease) {q : Params} (hn : (leaseEntry env l w).val dataId ≠ [])
    (hq : (ethEntries w).get? ((leaseEntry env l w).val dataId) = some q) : q = leaseEntry env l w := by
  have hne : leaseEntry env l w ≠ ∅ := fun he => hn (by rw [he]; rfl)
  obtain ⟨i,hi⟩ := byparam_entry env "DEVICE" l.interface h.fresh hne
  replace hi : (ethEntries w).get? i = some (leaseEntry env l w) := hi
  rw [entry_dataId ((readText_canonical (h.plain _ eth_netFile)).get? hi),hi,Option.some.injEq] at hq
  exact hq.symm

theorem lease_fillable {l : Lease} {p : Params} (hm : l.cidr = [] → Narrow l.mask)
    (hd : Agrees v6 l.ip (startPrefix v6 l.ip l.cidr l.mask) l.data givenFields)
    (hh : Agrees v6 l.ip (startPrefix v6 l.ip l.cidr l.mask) p
      (hostFields.filter fun f => null ((Ipcalc.ip v6.is l.ip l.cidr).val f.2))) :
    Fillable v6 (updated p (leased v6 l)) := by
  have hr := l.read
  simp only [List.forall_mem_cons] at hr
  obtain ⟨hra,hrn,hrp,hrm,hrb,-⟩ := hr
  have hv : ∀ {k v : Str}, l.data.get? k = some v → OrdMap.lookup k leaseFields = none → ReadValue v →
      (updated p (leased v6 l)).val k = v ∧ l.data.val k = v := fun hk hn hv =>
    ⟨leased_val v6 hn hk hv,by rw [Params.val,OrdMap.getD,hk]; rfl⟩
  have haddr := hv (Lease.get?_data (k := "ADDR") (v := l.ip) rfl) rfl hra
  have hpref := hv (Lease.get?_data (k := "PREF") (v := l.cidr) rfl) rfl hrp
  have hnet := hv (Lease.get?_data (k := "NETWORK") (v := l.network) rfl) rfl hrn
  have hbc := hv (Lease.get?_data (k := "BCAST") (v := l.broadcast) rfl) rfl hrb
  have hmask := hv (Lease.get?_data (k := "MASK") (v := l.mask) rfl) rfl hrm
  intro _
  rw [haddr.1,hpref.1,hmask.1]
  refine ⟨hm,fun hs f hf => ?_⟩
  have hdf := hd hs
  simp only [givenFields,List.forall_mem_cons] at hdf
  have hhost : ∀ f ∈ hostFields, (updated p (leased v6 l)).val f.1 = [] ∨ (updated p (leased v6 l)).val f.1 =
      (Ipcalc.ip v6.is l.ip (startPrefix v6 l.ip l.cidr l.mask)).val f.2 := by
    intro f hf
    rw [leased_host v6 hf]
    split
    · rename_i hn
      exact hh hs f (List.mem_filter.mpr ⟨hf,hn⟩)
    · rename_i hn
      have hc : l.cidr ≠ [] := fun hc => hn (by rw [hc,host_nil v6 hf]; rfl)
      rw [startPrefix,null_false_iff.mpr hc]
      exact Or.inr rfl
  obtain ⟨h₁,h₂,h₃,-⟩ := hdf
  rw [show derivedFields = givenFields ++ hostFields from rfl,List.mem_append,givenFields,List.mem_cons,List.mem_cons,
    List.mem_singleton,or_assoc,or_assoc] at hf
  rcases hf with rfl | rfl | rfl | hf
  · rw [hnet.2] at h₁
    rw [hnet.1]
    exact h₁
  · rw [hbc.2] at h₂
    rw [hbc.1]
    exact h₂
  · rw [hmask.2] at h₃
    rw [hmask.1]
    exact h₃
  · exact hhost f hf

theorem lease_fills {w : World} (h : Filling v6 w) (l : Lease) (hs : (FieldOp.lease l).Safe v6 env w) :
    Filling v6 (updateConfig v6 env l w) := by
  have hq := byparam_quiet env "eth.cfg" "DEVICE" l.interface ∅ w
  have hw := h.quiet v6 hq
  have he : (iniTokenGetByparam env "network" "eth.cfg" "DEVICE" l.interface ∅ w).1.2 = leaseEntry env l w := rfl
  unfold updateConfig
  split
  · exact h
  · dsimp only
    rw [he]
    split
    · exact hw
    · rename_i hn
      unfold updateNetworkConfig
      split
      · exact hw
      · rename_i hc
        have ha : l.ip ≠ [] := by
          intro hh
          have hv : l.data.val "ADDR" = l.ip := by
            rw [Params.val,OrdMap.getD,Lease.get?_data (k := "ADDR") (v := l.ip) rfl]
            rfl
          rw [hv,hh] at hc
          simp at hc
        obtain ⟨hm,hd,hh⟩ := hs ha
        change Filling v6 (iniTokenUpdate env "network" "eth.cfg" _ (leased v6 l) _).2
        obtain ⟨h₁,h₂⟩ := @update_fillable v6 env _ hw.toSound hw.fillable ((leaseEntry env l w).val dataId)
          (leased v6 l) (leased_writable v6 l) fun p hp => by
            rw [ethEntries,entries_congr "network" "eth.cfg" hq.reg] at hp
            rw [leaseEntry_entry env h.toSound l (by simpa using hn) hp]
            exact lease_fillable v6 hm hd hh
        exact ⟨h₁,h₂⟩

/-- What one step preserves. -/
theorem step_fills {op : FieldOp} {w w' : World} (h : Filling v6 w) (hs : op.Safe v6 env w)
    (hr : op.run v6 env w = some w') : Filling v6 w' := by
  cases op with
  | addStatic id name ip nmask note goOn =>
    obtain rfl := Option.some.inj hr
    exact addStatic_fills v6 env h id name ip nmask note goOn hs.1 hs.2.1 hs.2.2
  | addVlan id name tag ip nmask note goOn =>
    obtain rfl := Option.some.inj hr
    exact addVlan_fills v6 env h id name tag ip nmask note goOn hs
  | addDhcp id name note =>
    obtain rfl := Option.some.inj hr
    exact addDhcp_fills v6 env h id hs.1 hs.2
  | addPppoe id name note =>
    obtain rfl := Option.some.inj hr
    exact addPppoe_fills v6 env h id hs.1 hs.2
  | setName type id name =>
    obtain rfl := Option.some.inj hr
    exact setName_fills v6 env h type id hs
  | setAddress type id ip goOn =>
    obtain rfl := Option.some.inj hr
    exact setAddress_fills v6 env h type id ip goOn hs
  | setNetmask type id nmask =>
    obtain rfl := Option.some.inj hr
    exact setNetmask_fills v6 env h type id nmask hs
  | set type id data =>
    rw [FieldOp.run] at hr
    split at hr
    · rename_i hk
      obtain rfl := Option.some.inj hr
      exact set_fills v6 env h type id hs hk
    · simp at hr
  | lease l =>
    obtain rfl := Option.some.inj hr
    exact lease_fills v6 env h l hs
  | start boot peers =>
    obtain rfl := Option.some.inj hr
    obtain ⟨h₁,h₂,-⟩ := networkStart_fills v6 env h.toSound h.fillable boot peers
    exact ⟨h₁,h₂⟩

/-- The commands, the leases and the starts in any order. -/
def fieldSystem : System World (Env × FieldOp) where
  init := Filling v6
  step w t w' := t.2.run v6 t.1 w = some w'

def freshSystem : System World (Env × FieldOp) where
  init := Filling v6
  step w t w' := t.2.run v6 t.1 w = some w' ∧ t.2.Safe v6 t.1 w

/-- After a run and a start every interface has the fields the calculator gives for its address and prefix. -/
theorem fields_current {w w' : World} {ts : List (Env × FieldOp)} (hi : (freshSystem v6).init w)
    (hr : System.Run (freshSystem v6) w ts w') (boot : Bool) (peers : List Str)
    (hf : StartFills v6 env boot peers w') (id : Str) (p : Params)
    (hp : (ethEntries (networkStart v6 env boot peers w').2).get? id = some p) : Current v6 p := by
  have step : ∀ u t v, Filling v6 u → (freshSystem v6).step u t v → Filling v6 v := fun _ t _ hu ⟨hrun,hs⟩ =>
    step_fills v6 t.1 hu hs hrun
  have h : Filling v6 w' := hr.invariant step hi
  obtain ⟨-,-,hc⟩ := networkStart_fills v6 env h.toSound h.fillable boot peers
  exact hc hf id p hp

instance (m : Str) : Decidable (Narrow m) := inferInstanceAs (Decidable (∀ k ∈ Ipcalc.readMask m, _))

instance (addr pref : Str) (p : Params) (fs : List (Str × Str)) : Decidable (Agrees v6 addr pref p fs) :=
  inferInstanceAs (Decidable (_ → ∀ f ∈ fs, _))

instance (p : Params) : Decidable (Complete v6 p) := inferInstanceAs (Decidable (∀ f ∈ derivedFields, _))

instance (p : Params) : Decidable (Current v6 p) :=
  inferInstanceAs (Decidable (_ → _ → ∀ f ∈ derivedFields, _))

instance (s : Str) : Decidable (ReadValue s) := inferInstanceAs (Decidable (_ ∧ _))

instance (op : FieldOp) (w : World) : Decidable (op.Safe v6 env w) :=
  match op with
  | .addStatic _ _ _ _ _ _ => inferInstanceAs (Decidable (_ ∧ _ ∧ (_ → _ → Narrow _)))
  | .addVlan id _ _ _ _ _ _ => inferInstanceAs (Decidable (_ ∧ _ ∧ _ ∧ (_ → _ → Narrow _ ∧
      ∀ p ∈ (ethEntries w).get? id, Agrees v6 _ _ p _)))
  | .addDhcp _ _ _ => inferInstanceAs (Decidable (_ ∧ _))
  | .addPppoe _ _ _ => inferInstanceAs (Decidable (_ ∧ _))
  | .setName _ _ _ => inferInstanceAs (Decidable (¬ _))
  | .setAddress type id _ _ => inferInstanceAs (Decidable (_ → _ → ∀ p ∈ (ethEntries w).get? id,
      ofType type p = true → (p.val "PREF" = [] → Narrow (p.val "MASK")) ∧ Agrees v6 _ _ p _))
  | .setNetmask type id nmask => inferInstanceAs (Decidable (∀ p ∈ (ethEntries w).get? id, ofType type p = true →
      p.val "ADDR" ≠ [] → Narrow nmask ∧ Agrees v6 _ _ p _))
  | .set _ _ data => inferInstanceAs (Decidable (WritableData data))
  | .lease _ => inferInstanceAs (Decidable (_ → (_ → Narrow _) ∧ Agrees v6 _ _ _ _ ∧ Agrees v6 _ _ _ _))
  | .start _ _ => inferInstanceAs (Decidable True)

def ipv4Only : Ipv6 := ⟨fun _ => false,by simp⟩

def textOf (ls : List Str) : Str := ls.flatMap (· ++ ['\n'])

def devicesWorld : World := World.ofFiles [
  ("network","eth.cfg",textOf ["ID=eth0","DEVICE=eth0","STAT=0",[],"ID=eth1","DEVICE=eth1","STAT=0"])]

theorem devicesWorld_filling : Filling ipv4Only devicesWorld := by
  refine ⟨⟨⟨by decide,by decide⟩,fun _ _ _ => Or.inl rfl⟩,fun id p hp => ?_⟩
  have ha : ∀ e ∈ (ethEntries devicesWorld).entries, e.2.val "ADDR" = [] := by decide
  exact fillable_unaddressed _ (ha (id,p) (OrdMap.get?_eq_some.mp hp))

def afterTurns (ops : List FieldOp) (w : World) : World :=
  ops.foldl (fun w op => (op.run ipv4Only noonEnv w).getD w) w

theorem afterTurns_run {ops : List FieldOp} (h : ∀ op ∈ ops, ∀ w, (op.run ipv4Only noonEnv w).isSome) (w : World) :
    System.Run (fieldSystem ipv4Only) w (ops.map (noonEnv,·)) (afterTurns ops w) := by
  induction ops generalizing w with
  | nil => exact .nil
  | cons op ops ih =>
    rw [List.forall_mem_cons] at h
    obtain ⟨v,hv⟩ := Option.isSome_iff_exists.mp (h.1 w)
    have hstep : (fieldSystem ipv4Only).step w (noonEnv,op) ((op.run ipv4Only noonEnv w).getD w) := by
      rw [hv]
      exact hv
    exact (System.Run.nil.snoc hstep).append (ih h.2 _)

def SafeTurns : List FieldOp → World → Prop
  | [], _ => True
  | op::ops, w => (op.run ipv4Only noonEnv w).isSome ∧ op.Safe ipv4Only noonEnv w ∧
    SafeTurns ops ((op.run ipv4Only noonEnv w).getD w)

instance : ∀ (ops : List FieldOp) (w : World), Decidable (SafeTurns ops w)
  | [], _ => inferInstanceAs (Decidable True)
  | _::ops, _ =>
    have := instDecidableSafeTurns ops
    inferInstanceAs (Decidable (_ ∧ _ ∧ SafeTurns ops _))

theorem SafeTurns.run {ops : List FieldOp} {w : World} (h : SafeTurns ops w) :
    System.Run (freshSystem ipv4Only) w (ops.map (noonEnv,·)) (afterTurns ops w) := by
  induction ops generalizing w with
  | nil => exact .nil
  | cons op ops ih =>
    obtain ⟨hr,hs,ht⟩ := h
    obtain ⟨v,hv⟩ := Option.isSome_iff_exists.mp hr
    have hstep : (freshSystem ipv4Only).step w (noonEnv,op) ((op.run ipv4Only noonEnv w).getD w) := by
      rw [hv]
      exact ⟨hv,hs⟩
    exact (System.Run.nil.snoc hstep).append (ih ht)

def officeLease : Lease := ⟨"eth1","10.1.2.3","10.0.0.0","8","255.0.0.0","10.255.255.255","10.0.0.1","1500","10.0.0.2",
  "10.0.0.3 10.0.0.4","office",by decide,by decide⟩

/-- An interface whose address is changed within its network before it is first started, and a lease. -/
def officeTurns : List FieldOp := [.addStatic "eth0" "lan" "192.168.1.1" "255.255.255.0" [] true,
  .set "static" "eth0" (dataOf [("STAT","1")]),.setAddress "static" "eth0" "192.168.1.7" true,
  .addDhcp "eth1" "wan" [],.lease officeLease]

theorem fields_current_office : ∃ p, (ethEntries (networkStart ipv4Only noonEnv true []
    (afterTurns officeTurns devicesWorld)).2).get? "eth0" = some p ∧ Current ipv4Only p := by
  have hrun : SafeTurns officeTurns devicesWorld ∧
      (∀ e ∈ (ethEntries (afterTurns officeTurns devicesWorld)).entries, Started e.2 ∨ Complete ipv4Only e.2) ∧
      ((ethEntries (networkStart ipv4Only noonEnv true [] (afterTurns officeTurns devicesWorld)).2).get? "eth0").isSome := by
    decide +kernel
  obtain ⟨hs,hf,hk⟩ := hrun
  have hc := fields_current ipv4Only noonEnv devicesWorld_filling hs.run true []
    ⟨rfl,fun id p hp => (hf (id,p) (OrdMap.get?_eq_some.mp hp)).imp_right Or.inl⟩
  obtain ⟨p,hp⟩ := Option.isSome_iff_exists.mp hk
  exact ⟨p,hp,hc _ p hp⟩

def movedTurns : List FieldOp := [.addStatic "eth0" "lan" "192.168.1.1" "255.255.255.0" [] true,
  .set "static" "eth0" (dataOf [("STAT","1")]),.start true [],.setAddress "static" "eth0" "10.0.0.1" true]

theorem fields_stale : ¬ ∀ (v6 : Ipv6) (env : Env) (w w' : World) (ts : List (Env × FieldOp)),
    (fieldSystem v6).init w → System.Run (fieldSystem v6) w ts w' → ∀ (boot : Bool) (peers : List Str) (id : Str)
      (p : Params), (ethEntries (networkStart v6 env boot peers w').2).get? id = some p → Current v6 p := by
  intro h
  have hr : System.Run (fieldSystem ipv4Only) devicesWorld (movedTurns.map (noonEnv,·))
      (afterTurns movedTurns devicesWorld) := by
    refine afterTurns_run (fun op hop w => ?_) _
    simp only [movedTurns,List.mem_cons,List.not_mem_nil,or_false] at hop
    rcases hop with rfl | rfl | rfl | rfl
    · rfl
    · rw [FieldOp.run,if_pos (by decide)]
      rfl
    · rfl
    · rfl
  have hx : ((ethEntries (networkStart ipv4Only noonEnv true [] (afterTurns movedTurns devicesWorld)).2).get?
      "eth0").any (fun p => !decide (Current ipv4Only p)) = true := by
    decide +kernel
  obtain ⟨p,hp,hc⟩ := (Option.any_eq_true _ _).mp hx
  have hn : ¬ Current ipv4Only p := by simpa using hc
  exact hn (h _ noonEnv _ _ _ devicesWorld_filling hr true [] "eth0" p hp)

end Interfaces
end Mybox
