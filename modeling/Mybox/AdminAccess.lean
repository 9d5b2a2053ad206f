import Mybox.FilterChain
import Mybox.SshLog
import Mybox.Rewriting
import Mybox.NameLookup
import Mybox.HostRange

/-! Who may reach the administrative services: `policy_admin` writes a rule into the ADMIN chain for
each address that an entry of `acl.cfg` stands for, and drops the rest. An address that one entry has
written is not written for another. -/
namespace Mybox
namespace AdminAccess

open Php RegistryFormat Registry Definitions PacketFilter

variable (pcre : Pcre) (env : Env)

/-- What the loops of `policy_admin` carry: `$_rules`, the keys of `$_HOST_CHECK`, and the registry. -/
structure AdminState where
  rules : Str
  check : List Str
  world : World

def rulesid : Str := "-m comment --comment \"admin access-list\""

def hexGroup (n : Nat) (g : Str) : Bool := n ≤ g.length && g.length ≤ 2 && g.all Php.hexDigit

def checkMacaddr (mac : Str) : Bool :=
  match split ':' mac with
  | [a,b,c,d,e,f] => hexGroup 1 a && hexGroup 1 b && hexGroup 2 c && hexGroup 1 d && hexGroup 1 e && hexGroup 1 f
  | _ => false

/-- What a rule tests of the source, when `_policy_admin_acl` writes one. -/
def aclSource (type host : Str) : Option Str :=
  if looseEq type "host" || looseEq type "dnshost" then
    if looseEq type "dnshost" && looseEq host unresolved then none
    else if SshLog.isIpv4 host then some (("-s " : Str) ++ host) else none
  else if looseEq type "hostmac" then
    if checkMacaddr host then some (("-m mac --mac-source " : Str) ++ host) else none
  else if looseEq type "hostrange" then
    let list := split '-' host
    if !null (list.getD 0 []) && !null (list.getD 1 []) &&
        Sessions.chkHostrange env.ip2long (list.getD 0 []) (list.getD 1 []) then
      some (("-m iprange --src-range " : Str) ++ host)
    else none
  else if null host then none else some (("-s " : Str) ++ host)

/-- `$_int`; the lookup of the device has a bound on its depth. -/
def aclInt (fuel : Nat) (iface : Str) (w : World) : Option (Str × World) :=
  if null iface then some ([],w)
  else (definitionsGetInterfaceDevice env fuel iface w).map fun r =>
    (if null r.1 then [] else ("-i " : Str) ++ r.1,r.2)

def adminLine (int src dport : Str) : Str :=
  [' '].intercalate ["-A ADMIN",rulesid,int,"-p tcp -m tcp",src,"--sport 1:65535 --dport",dport,"-j CONFIRMED"]

def policyAdminAcl (fuel : Nat) (type host dport iface : Str) (s : AdminState) : Option AdminState :=
  (aclInt env fuel iface s.world).map fun i =>
    { s with
      rules := s.rules ++ ((aclSource env type host).map fun src => adminLine i.1 src dport ++ ['\n']).getD []
      world := i.2 }

def services : List Str := ["web","ftp","ssh"]

/-- One of the three tests of `TYPE`. -/
def adminService (fuel : Nat) (system : Token) (d o : Params) (addr : Str) (s : AdminState)
    (service : Str) : Option AdminState :=
  let port := Sessions.servicePort system service
  if !null port && decide (service <:+: d.val "TYPE") then
    policyAdminAcl env fuel (o.val "__DATA_TYPE") addr port (o.val "DNAME") s
  else some s

def adminAddr (fuel : Nat) (system : Token) (d o : Params) (s : AdminState) (addr : Str) : Option AdminState :=
  if null addr || addr ∈ s.check then some s
  else services.foldlM (adminService env fuel system d o addr) { s with check := s.check ++ [addr] }

/-- `$_DDTOKEN['ADDR']`, with the prefix of a network behind it. -/
def objectText (o : Params) : Str :=
  if looseEq (o.val "__DATA_TYPE") "network" && !null (o.val "PREF") then
    o.val "ADDR" ++ '/' :: o.val "PREF"
  else o.val "ADDR"

def incompleteObject (o : Params) : Bool :=
  null (o.val "ADDR") || null (o.val "__DATA_TYPE") || null (o.val "NAME")

def adminObject (fuel : Nat) (system : Token) (d : Params) (s : AdminState) (o : Params) : Option AdminState :=
  if incompleteObject o then some s
  else (split ',' (objectText o)).foldlM (adminAddr env fuel system d o) s

def incompleteEntry (d : Params) : Bool := null (d.val "HOST") || null (d.val "STAT") || null (d.val "TYPE")

/-- A turn of the loop over `acl.cfg`. -/
def adminEntry (fuel : Nat) (system : Token) (s : AdminState) (e : Str × Params) : Option AdminState :=
  if incompleteEntry e.2 then
    some { s with world := (iniTokenDelete pcre env "system" "acl.cfg" e.1 s.world).2 }
  else if looseZero (e.2.val "STAT") then some s
  else
    let r := definitionsGetBynameR pcre env .networks (e.2.val "HOST") s.world
    r.1.foldlM (adminObject env fuel system e.2) { s with world := r.2 }

def mports (system : Token) : Str :=
  trimWith "," (services.flatMap fun x =>
    let port := Sessions.servicePort system x
    if null port then [] else port ++ [','])

def dropLine (system : Token) : Str :=
  if null (mports system) then []
  else [' '].intercalate ["-A ADMIN",rulesid,"-p tcp -m tcp -m multiport --dports",mports system,"-j",
    if toNumber ((system.getD "security" ∅).val "LOG_DROP") = 1 then ("LOG_DROP" : Str) else ("DROP" : Str)]
    ++ ['\n']

/-- What `policy_admin` hands to `_policy_data`, if anything. -/
def policyAdmin (fuel : Nat) (w : World) : Option (Option Str) :=
  let t := iniTokenGet env "system" "acl.cfg" ∅ w
  if t.1.isEmpty then some none else
  let n := iniTokenGet env "system" "system.cfg" ∅ t.2
  (t.1.entries.foldlM (adminEntry pcre env fuel n.1) ⟨[],[],n.2⟩).map fun s =>
    let rules := trim (s.rules ++ dropLine n.1)
    if null rules then none
    else some (("*filter\n-F ADMIN\n" : Str) ++ rules ++ ("\nCOMMIT\n" : Str))

/-- The rules `_policy_data` loads. -/
def policyData (data : Str) : Option (List ChainRule) := restore "filter" (split '\n' (trim data))

def Enabled (d : Params) : Bool := !incompleteEntry d && !looseZero (d.val "STAT")

/-- The sources a test knows. -/
inductive Source
  | net (n : Net)
  | range (r : PacketFilter.Range)
  | mac (m : List Nat)
  deriving DecidableEq

def Source.has : Source → Frame → Bool
  | net n, f => n.has f.packet.src
  | range r, f => r.has f.packet.src
  | mac m, f => f.mac = m

/-- The addresses a text stands for in an object of a type. -/
def source (type addr : Str) : Option Source :=
  if looseEq type "host" || looseEq type "dnshost" then
    if SshLog.isIpv4 addr then (PacketFilter.net addr).map .net else none
  else if looseEq type "hostmac" then (hardware addr).map .mac
  else if looseEq type "hostrange" then (addressRange addr).map .range
  else (PacketFilter.net addr).map .net

/-- A text among the addresses of an object that an entry stands for. -/
structure Address where
  entry : Params
  object : Params
  text : Str
  deriving DecidableEq

def objectAddresses (o : Params) : List Str := if incompleteObject o then [] else split ',' (objectText o)

def named (w : World) (d : Params) : List Params :=
  (definitionsGetBynameR pcre env .networks (d.val "HOST") w).1

/-- The addresses of the enabled entries, in their order. -/
def addresses (w : World) : List Address :=
  ((entries "system" "acl.cfg" w).entries.filter fun e => Enabled e.2).flatMap fun e =>
    (named pcre env w e.2).flatMap fun o => (objectAddresses o).map fun a => ⟨e.2,o,a⟩

def device (fuel : Nat) (w : World) (name : Str) : Option Str :=
  (definitionsGetInterfaceDevice env fuel name w).map Prod.fst

def port (w : World) (service : Str) : Str := Sessions.servicePort (entries "system" "system.cfg" w) service

/-- A connection to the port of an administrative service. -/
structure Connection (w : World) where
  service : Str
  src : Nat
  dst : Nat
  mac : List Nat
  device : Str
  sport : Nat
  dport : Nat
  service_mem : service ∈ services
  sport_mem : 1 ≤ sport ∧ sport ≤ 65535
  dport_mem : ∃ r, PacketFilter.range (port w service) = some r ∧ r.has dport = true

def Connection.frame {w : World} (c : Connection w) : Frame := ⟨⟨c.src,c.dst,.tcp c.sport c.dport⟩,c.device,c.mac⟩

/-- The object is bound to no interface, or to the one the connection comes in by. -/
def Through (fuel : Nat) {w : World} (c : Connection w) (o : Params) : Prop :=
  o.val "DNAME" = [] ∨ ∃ dev, device env fuel w (o.val "DNAME") = some dev ∧ dev = c.device

/-- The entry is for the service of the connection, and the address for where it comes from. -/
structure Grants (fuel : Nat) {w : World} (c : Connection w) (a : Address) : Prop where
  service : c.service <:+: a.entry.val "TYPE"
  source : ∃ s, source (a.object.val "__DATA_TYPE") a.text = some s ∧ s.has c.frame = true
  through : Through env fuel c a.object

def Permitted (fuel : Nat) {w : World} (c : Connection w) : Prop :=
  ∃ a ∈ addresses pcre env w, Grants env fuel c a

def Accepted (types : Types) (data : Option Str) {w : World} (c : Connection w) : Prop :=
  ∃ s rs, data = some s ∧ policyData s = some rs ∧
    verdict types "ADMIN" rs c.frame = some ("CONFIRMED" : Str)

-- The registry while the rules are written: what the lookups see stays as it is.
/-- The sections `policy_admin` reads. -/
def Read (sec : Str) : Prop := Looked sec ∨ sec = ("system" : Str)

theorem Read.section_ {sec : Str} (h : Read sec) : '_' ∉ sec := by
  rcases h with h | rfl
  · exact h.section_
  · decide

/-- The caches agree with the files, no alias has lost its interface, and the entries of `acl.cfg` are
without a NAME. -/
structure Ready (w : World) : Prop where
  fresh : FreshOn Read w
  parents : orphans (ethEntries w) (aliasEntries w) = []
  nameless : ∀ i, nameIn (entries "system" "acl.cfg" w) i = []

structure Kept (w v : World) : Prop extends Ready v where
  text : ∀ sec fil, Looked sec → text sec fil v = text sec fil w
  files : definitionFiles v = definitionFiles w

theorem Ready.kept {w : World} (h : Ready w) : Kept w w := ⟨h,fun _ _ _ => rfl,rfl⟩

variable {w v : World}

theorem Kept.entries (h : Kept w v) {sec : Str} (hs : Looked sec) (fil : Str) :
    entries sec fil v = entries sec fil w := by rw [Registry.entries,Registry.entries,h.text sec fil hs]

theorem Kept.congr (h : Kept w v) {u : World} (hr : u.reg = v.reg) (hf : FreshOn Read u) : Kept w u where
  fresh := hf
  parents := by
    rw [ethEntries,aliasEntries,entries_congr _ _ hr,entries_congr _ _ hr]
    exact h.parents
  nameless := by
    rw [entries_congr _ _ hr]
    exact h.nameless
  text sec fil hs := by rw [Registry.text,hr]; exact h.text sec fil hs
  files := by rw [definitionFiles,hr]; exact h.files

theorem Kept.objects (h : Kept w v) (k : Kind) : objects k v = objects k w := by
  have ht : typedObjects k v = typedObjects k w := by
    unfold typedObjects
    rw [h.files]
    congr 1
    funext m fil
    rw [h.entries (Or.inr rfl)]
  unfold Definitions.objects
  cases k <;> simp only [ht,ethEntries,aliasEntries,h.entries (Or.inl rfl)]

theorem Kept.get (h : Kept w v) {sec : Str} (hs : Read sec) (fil : Str) :
    Kept w (iniTokenGet env sec fil ∅ v).2 :=
  h.congr (iniTokenGet_reg env sec fil ∅ v) (h.fresh.iniTokenGet env (fun _ => Read.section_) hs fil)

theorem Kept.definitionsGet (h : Kept w v) (k : Kind) :
    (definitionsGet pcre env k v).1 = Definitions.objects k w ∧ Kept w (definitionsGet pcre env k v).2 := by
  obtain ⟨hm,u,hr,hf,he⟩ := definitionsGet_freshOn pcre env (fun _ => Read.section_) (fun _ => Or.inl) k h.fresh
  rw [h.parents] at he
  have hu : (Definitions.definitionsGet pcre env k v).2 = u := by
    rw [he]; split <;> rfl
  rw [hm,hu]
  exact ⟨h.objects k,h.congr hr hf⟩

theorem Kept.getByparam (h : Kept w v) (k : Kind) (param value : Str) (itoken : Params) :
    (definitionsGetByparam pcre env k param value itoken [] v).1.2 =
      (findParam k (Definitions.objects k w) param value []).getD itoken ∧
    Kept w (definitionsGetByparam pcre env k param value itoken [] v).2 := by
  obtain ⟨hm,hk⟩ := h.definitionsGet pcre env k
  rw [definitionsGetByparam_eq,hm]
  exact ⟨rfl,hk⟩

def membersIn (k : Kind) (m : Objects) : List Str → Params → List Params
  | [], _ => []
  | n::ns, token =>
    let o := (findParam k m "NAME" n []).getD token
    usable k o ++ membersIn k m ns o

/-- What `_DEFINITIONS_GET_BYNAME_R` finds among objects. -/
def foundIn (m : Objects) (name : Str) : List Params :=
  let o := (findParam .networks m "NAME" name []).getD ∅
  if o.isEmpty then []
  else if looseEq (o.val "__DATA_TYPE") "group" then membersIn .networks m (split ',' (o.val "ADDR")) o
  else usable .networks o

theorem Kept.getMembers (h : Kept w v) (k : Kind) (ns : List Str) (token : Params) :
    (getMembers pcre env k ns token v).1 = membersIn k (Definitions.objects k w) ns token ∧
    Kept w (getMembers pcre env k ns token v).2 := by
  induction ns generalizing token v with
  | nil => exact ⟨rfl,h⟩
  | cons n ns ih =>
    obtain ⟨ho,hk⟩ := h.getByparam pcre env k "NAME" n token
    obtain ⟨hm,hk'⟩ := ih hk (definitionsGetByparam pcre env k "NAME" n token [] v).1.2
    simp only [Definitions.getMembers,membersIn]
    rw [hm,ho] at *
    exact ⟨rfl,hk'⟩

theorem Kept.named (h : Kept w v) (name : Str) :
    (definitionsGetBynameR pcre env .networks name v).1 = foundIn (Definitions.objects .networks w) name ∧
    Kept w (definitionsGetBynameR pcre env .networks name v).2 := by
  obtain ⟨ho,hk⟩ := h.getByparam pcre env .networks "NAME" name ∅
  unfold definitionsGetBynameR foundIn
  rw [if_neg (by decide)]
  dsimp only
  generalize definitionsGetByparam pcre env .networks "NAME" name ∅ [] v = g at ho hk ⊢
  rw [ho]
  split
  · exact ⟨rfl,hk⟩
  · split
    · exact hk.getMembers pcre env .networks _ _
    · exact ⟨rfl,hk⟩

def entryNamed (t : Token) (name : Str) : Params :=
  ((t.entries.find? fun e => !null (e.2.val "NAME") && looseEq (e.2.val "NAME") name).map Prod.snd).getD ∅

theorem Kept.tokenNamed (h : Kept w v) {sec : Str} (hs : Looked sec) (fil name : Str) :
    (iniTokenGetByparam env sec fil "NAME" name ∅ v).1.2 = entryNamed (Registry.entries sec fil w) name ∧
    Kept w (iniTokenGetByparam env sec fil "NAME" name ∅ v).2 := by
  have hg := iniTokenGet_fst env sec fil (h.fresh sec fil (Or.inl hs))
  have hk := h.get env (Or.inl hs) fil
  have hi : looseEq ("NAME" : Str) ("ID" : Str) = false := by decide
  unfold iniTokenGetByparam entryNamed
  dsimp only
  rw [hi,Bool.false_and,if_neg (by decide),hg,h.entries hs]
  split
  · rename_i e he
    rw [he]
    exact ⟨rfl,hk⟩
  · rename_i he
    rw [he]
    exact ⟨rfl,hk⟩

def deviceIn (eth additional : Token) : Nat → Str → Option Str
  | 0, _ => none
  | n+1, name =>
    let d := entryNamed eth name
    if !null (d.val "DEVICE") then
      some (if looseEq (d.val "TYPE") "vlan" && !null (d.val "TAG") then d.val "DEVICE" ++ '.' :: d.val "TAG"
        else if looseEq (d.val "TYPE") "pppoe" && !null (d.val "PDEV") then d.val "PDEV" else d.val "DEVICE")
    else
      let a := entryNamed additional name
      if !null (a.val "PNAME") && !null (a.val "__DATA_ID") then
        (deviceIn eth additional n (a.val "PNAME")).map fun x => x ++ ':' :: a.val "__DATA_ID"
      else some []

theorem Kept.device (h : Kept w v) (fuel : Nat) (name : Str) :
    (definitionsGetInterfaceDevice env fuel name v).map Prod.fst =
      deviceIn (ethEntries w) (aliasEntries w) fuel name ∧
    ∀ r, definitionsGetInterfaceDevice env fuel name v = some r → Kept w r.2 := by
  induction fuel generalizing name v with
  | zero => exact ⟨rfl,fun r hr => by simp [definitionsGetInterfaceDevice] at hr⟩
  | succ n ih =>
    obtain ⟨he,hk⟩ := h.tokenNamed env (Or.inl rfl) "eth.cfg" name
    obtain ⟨ha,hk'⟩ := hk.tokenNamed env (Or.inl rfl) "additional.cfg" name
    unfold definitionsGetInterfaceDevice deviceIn
    dsimp only
    rw [he,ha]
    split
    · refine ⟨rfl,fun r hr => ?_⟩
      simp only [Option.some.injEq] at hr
      rw [← hr]
      exact hk
    · split
      · obtain ⟨hd,hr⟩ := ih hk' ((entryNamed (aliasEntries w) name).val "PNAME")
        refine ⟨?_,fun r hx => ?_⟩
        · rw [← hd,Option.map_map,Option.map_map]
          rfl
        · obtain ⟨r',hr',rfl⟩ := Option.map_eq_some_iff.mp hx
          exact hr r' hr'
      · refine ⟨rfl,fun r hr => ?_⟩
        simp only [Option.some.injEq] at hr
        rw [← hr]
        exact hk'

/-- Deleting an entry of `acl.cfg` leaves what the lookups see. -/
theorem Kept.delete (h : Kept w v) (id : Str) :
    Kept w (iniTokenDelete pcre env "system" "acl.cfg" id v).2 := by
  have hs : Read "system" := Or.inr rfl
  have hf := @iniTokenDelete_freshOn pcre env "system" "acl.cfg" Read (fun _ => Read.section_) id v hs h.fresh
  obtain ⟨hw,-⟩ := iniTokenDelete_spec pcre env "system" "acl.cfg" id (h.fresh _ _ hs) (h.nameless id)
  by_cases ho : (iniTokenDelete pcre env "system" "acl.cfg" id v).1 = .ok
  · have hr := hw.done ho
    have ht : ∀ sec fil, (("system" : Str),("acl.cfg" : Str)) ≠ (sec,fil) →
        Registry.text sec fil (iniTokenDelete pcre env "system" "acl.cfg" id v).2 = Registry.text sec fil v := by
      intro sec fil hne
      rw [Registry.text,Registry.text,hr,OrdMap.getD,OrdMap.getD,OrdMap.get?_set_ne _ _ hne]
    have hne : ∀ {sec : Str} fil, Looked sec → (("system" : Str),("acl.cfg" : Str)) ≠ (sec,fil) := by
      rintro sec fil (rfl | rfl) he <;> simp [Str.of_ascii] at he
    refine ⟨⟨hf,?_,fun i => ?_⟩,fun sec fil hl => (ht sec fil (hne fil hl)).trans (h.text sec fil hl),?_⟩
    · rw [ethEntries,aliasEntries,Registry.entries,Registry.entries,ht _ _ (hne _ (Or.inl rfl)),
        ht _ _ (hne _ (Or.inl rfl))]
      exact h.parents
    · by_contra hi
      have hx : Registry.text "system" "acl.cfg" (iniTokenDelete pcre env "system" "acl.cfg" id v).2 =
          deleteText env ((Registry.entries "system" "acl.cfg" v).erase id) := by
        rw [Registry.text,hr,OrdMap.getD,OrdMap.get?_set_self]
        rfl
      rw [Registry.entries,hx] at hi
      have hm := readText_nameIn hi
      rw [namesOn_deleteText] at hm
      obtain ⟨j,hj⟩ := writeText_nameIn ((readText_lined _).erase id) hm
      -- there is no name to be written
      have hn : nameIn ((Registry.entries "system" "acl.cfg" v).erase id) j = [] := by
        rw [nameIn_erase]
        split
        · rfl
        · exact h.nameless j
      rw [Registry.entries] at hn
      rw [hn] at hj
      exact hi hj.symm
    · rw [definitionFiles,hr,← h.files,definitionFiles]
      congr 2
      rw [OrdMap.keys_set]
      split
      · rfl
      · rw [List.filter_append]
        simp [Str.of_ascii]
  · exact h.congr (hw.refused ho) hf

-- What is written: the lines of every address that comes first with its text.
/-- The addresses whose text is neither null nor a key of `$_HOST_CHECK` when their turn comes. -/
def leads : List Str → List Address → List Address
  | _, [] => []
  | seen, a::l => if null a.text || a.text ∈ seen then leads seen l else a :: leads (seen ++ [a.text]) l

theorem leads_append (seen : List Str) (l l' : List Address) :
    leads seen (l ++ l') = leads seen l ++ leads (seen ++ (leads seen l).map Address.text) l' := by
  induction l generalizing seen with
  | nil => simp [leads]
  | cons a l ih =>
    rw [List.cons_append,leads,leads]
    split
    · exact ih seen
    · rw [ih,List.map_cons,List.cons_append,List.append_assoc,List.singleton_append]

def First (l : List Address) (a : Address) : Prop :=
  ∃ l₁ l₂, l = l₁ ++ a :: l₂ ∧ a.text ≠ [] ∧ ∀ b ∈ l₁, b.text ≠ a.text

theorem mem_leads {seen : List Str} {l : List Address} {a : Address} :
    a ∈ leads seen l ↔ a.text ∉ seen ∧ First l a := by
  induction l generalizing seen with
  | nil => simp [leads,First]
  | cons b l ih =>
    have hf : First (b::l) a ↔ (a = b ∧ a.text ≠ []) ∨ (b.text ≠ a.text ∧ First l a) := by
      constructor
      · rintro ⟨l₁,l₂,he,hn,hb⟩
        cases l₁ with
        | nil =>
          simp only [List.nil_append,List.cons.injEq] at he
          exact Or.inl ⟨he.1.symm,hn⟩
        | cons c l₁ =>
          simp only [List.cons_append,List.cons.injEq] at he
          obtain ⟨rfl,rfl⟩ := he
          exact Or.inr ⟨hb b (by simp),l₁,l₂,rfl,hn,fun x hx => hb x (List.mem_cons_of_mem _ hx)⟩
      · rintro (⟨rfl,hn⟩ | ⟨hb,l₁,l₂,rfl,hn,hl⟩)
        · exact ⟨[],l,rfl,hn,by simp⟩
        · exact ⟨b::l₁,l₂,rfl,hn,by simpa using ⟨hb,hl⟩⟩
    rw [leads,hf]
    split
    · rename_i hc
      rw [ih]
      simp only [Bool.or_eq_true,null_iff,decide_eq_true_eq] at hc
      constructor
      · rintro ⟨hs,hl⟩
        refine ⟨hs,Or.inr ⟨?_,hl⟩⟩
        rcases hc with hc | hc
        · obtain ⟨-,-,-,hn,-⟩ := hl
          exact fun he => hn (he ▸ hc)
        · exact fun he => hs (he ▸ hc)
      · rintro ⟨hs,⟨rfl,hn⟩ | ⟨-,hl⟩⟩
        · exact absurd hc (by simp [hn,hs])
        · exact ⟨hs,hl⟩
    · rename_i hc
      simp only [Bool.or_eq_true,null_iff,decide_eq_true_eq,not_or] at hc
      rw [List.mem_cons,ih]
      simp only [List.mem_append,List.mem_singleton,not_or]
      constructor
      · rintro (rfl | ⟨⟨hs,hn⟩,hl⟩)
        · exact ⟨hc.2,Or.inl ⟨rfl,hc.1⟩⟩
        · exact ⟨hs,Or.inr ⟨fun he => hn he.symm,hl⟩⟩
      · rintro ⟨hs,⟨rfl,-⟩ | ⟨hn,hl⟩⟩
        · exact Or.inl rfl
        · exact Or.inr ⟨⟨hs,fun he => hn he.symm⟩,hl⟩

variable (fuel : Nat)

def intOf (w : World) (o : Params) : Str :=
  if null (o.val "DNAME") then []
  else
    let dev := (device env fuel w (o.val "DNAME")).getD []
    if null dev then [] else ("-i " : Str) ++ dev

def serviceLine (w : World) (a : Address) (service : Str) : List Str :=
  if !null (port w service) && decide (service <:+: a.entry.val "TYPE") then
    ((aclSource env (a.object.val "__DATA_TYPE") a.text).map fun src =>
      adminLine (intOf env fuel w a.object) src (port w service)).toList
  else []

def linesOf (w : World) (a : Address) : List Str := services.flatMap (serviceLine env fuel w a)

def Bound (w : World) (o : Params) : Prop := o.val "DNAME" = [] ∨ device env fuel w (o.val "DNAME") ≠ none

structure Wrote (w : World) (s s' : AdminState) (l : List Address) : Prop where
  rules : s'.rules = s.rules ++ ((leads s.check l).flatMap (linesOf env fuel w)).flatMap (· ++ ['\n'])
  check : s'.check = s.check ++ (leads s.check l).map Address.text
  kept : Kept w s'.world

theorem Wrote.trans {s s' s'' : AdminState} {l l' : List Address} (h : Wrote env fuel w s s' l)
    (h' : Wrote env fuel w s' s'' l') : Wrote env fuel w s s'' (l ++ l') where
  rules := by
    rw [h'.rules,h.rules,h.check,leads_append,List.flatMap_append,List.flatMap_append,List.append_assoc]
  check := by rw [h'.check,h.check,leads_append,List.map_append,List.append_assoc]
  kept := h'.kept

theorem foldlM_wrote {α : Type} {f : AdminState → α → Option AdminState} {g : α → List Address} (xs : List α)
    (h : ∀ x ∈ xs, ∀ s : AdminState, Kept w s.world → ∃ s', f s x = some s' ∧ Wrote env fuel w s s' (g x))
    (s : AdminState) (hs : Kept w s.world) :
    ∃ s', xs.foldlM f s = some s' ∧ Wrote env fuel w s s' (xs.flatMap g) := by
  induction xs generalizing s with
  | nil => exact ⟨s,rfl,by simp [leads],by simp [leads],hs⟩
  | cons x xs ih =>
    obtain ⟨u,hu,hw⟩ := h x (by simp) s hs
    obtain ⟨s',hs',hw'⟩ := ih (fun y hy => h y (List.mem_cons_of_mem _ hy)) u hw.kept
    refine ⟨s',?_,?_⟩
    · rw [List.foldlM_cons,hu]
      exact hs'
    · rw [List.flatMap_cons]
      exact hw.trans env fuel hw'

variable {env fuel}

theorem aclInt_kept (h : Kept w v) (hw : Kept w w) {o : Params} (hb : Bound env fuel w o) :
    ∃ r, aclInt env fuel (o.val "DNAME") v = some r ∧ r.1 = intOf env fuel w o ∧ Kept w r.2 := by
  unfold aclInt intOf
  by_cases hn : o.val "DNAME" = []
  · rw [hn]
    exact ⟨_,rfl,rfl,h⟩
  · rw [if_neg (by simpa using hn),if_neg (by simpa using hn)]
    obtain ⟨hd,hk⟩ := h.device env fuel (o.val "DNAME")
    have hd' := (hw.device env fuel (o.val "DNAME")).1
    have hb' := hb.resolve_left hn
    rw [device,hd',← hd] at hb'
    obtain ⟨dev,hdev⟩ := Option.ne_none_iff_exists'.mp hb'
    obtain ⟨r,hr,rfl⟩ := Option.map_eq_some_iff.mp hdev
    refine ⟨(if null r.1 then [] else ("-i " : Str) ++ r.1,r.2),by rw [hr]; rfl,?_,hk r hr⟩
    rw [device,hd',← hd,hdev]
    rfl

/-- The three tests of `TYPE` write the lines of the address. -/
theorem foldlM_services (hw : Kept w w) (d o : Params) (addr : Str) (hb : Bound env fuel w o) (xs : List Str)
    (s : AdminState) (hs : Kept w s.world) :
    ∃ s', xs.foldlM (adminService env fuel (Registry.entries "system" "system.cfg" w) d o addr) s = some s' ∧
      s'.rules = s.rules ++ (xs.flatMap (serviceLine env fuel w ⟨d,o,addr⟩)).flatMap (· ++ ['\n']) ∧
      s'.check = s.check ∧ Kept w s'.world := by
  induction xs generalizing s with
  | nil => exact ⟨s,rfl,by simp,rfl,hs⟩
  | cons x xs ih =>
    have step : ∃ u, adminService env fuel (Registry.entries "system" "system.cfg" w) d o addr s x = some u ∧
        u.rules = s.rules ++ (serviceLine env fuel w ⟨d,o,addr⟩ x).flatMap (· ++ ['\n']) ∧
        u.check = s.check ∧ Kept w u.world := by
      unfold adminService serviceLine port
      dsimp only
      split
      · obtain ⟨r,hr,hi,hk⟩ := aclInt_kept hs hw hb
        rw [policyAdminAcl,hr,Option.map_some]
        refine ⟨_,rfl,?_,rfl,hk⟩
        dsimp only
        rw [hi]
        cases aclSource env (o.val "__DATA_TYPE") addr <;> simp
      · exact ⟨s,rfl,by simp,rfl,hs⟩
    obtain ⟨u,hu,hr,hc,hk⟩ := step
    obtain ⟨s',hs',hr',hc',hk'⟩ := ih u hk
    refine ⟨s',?_,?_,hc'.trans hc,hk'⟩
    · rw [List.foldlM_cons,hu]
      exact hs'
    · rw [hr',hr,List.flatMap_cons,List.flatMap_append,List.append_assoc]

theorem adminAddr_wrote (hw : Kept w w) (d o : Params) (hb : Bound env fuel w o) (addr : Str) (s : AdminState)
    (hs : Kept w s.world) :
    ∃ s', adminAddr env fuel (Registry.entries "system" "system.cfg" w) d o s addr = some s' ∧
      Wrote env fuel w s s' [⟨d,o,addr⟩] := by
  unfold adminAddr
  split
  · rename_i hc
    have hl : leads s.check [⟨d,o,addr⟩] = [] := by
      rw [leads]
      simp only [Bool.or_eq_true,decide_eq_true_eq] at hc ⊢
      rw [if_pos hc]
      rfl
    exact ⟨s,rfl,by simp [hl],by simp [hl],hs⟩
  · rename_i hc
    have hl : leads s.check [⟨d,o,addr⟩] = [⟨d,o,addr⟩] := by
      rw [leads]
      simp only [Bool.or_eq_true,decide_eq_true_eq] at hc ⊢
      rw [if_neg hc]
      rfl
    obtain ⟨s',hs',hr,hk,hk'⟩ := foldlM_services hw d o addr hb services
      { s with check := s.check ++ [addr] } hs
    refine ⟨s',hs',?_,?_,hk'⟩
    · rw [hl,hr,List.flatMap_singleton,linesOf]
    · rw [hl,hk]
      rfl

def objectTurns (d o : Params) : List Address := (objectAddresses o).map fun a => ⟨d,o,a⟩

theorem adminObject_wrote (hw : Kept w w) (d o : Params) (hb : objectAddresses o ≠ [] → Bound env fuel w o)
    (s : AdminState) (hs : Kept w s.world) :
    ∃ s', adminObject env fuel (Registry.entries "system" "system.cfg" w) d s o = some s' ∧
      Wrote env fuel w s s' (objectTurns d o) := by
  unfold adminObject objectTurns objectAddresses at *
  split
  · exact ⟨s,rfl,by simp [leads],by simp [leads],hs⟩
  · rename_i hi
    rw [if_neg hi] at hb
    have hb := hb (List.splitOn_ne_nil ',' _)
    rw [← List.flatMap_pure_eq_map]
    exact foldlM_wrote env fuel _ (fun a _ u hu => adminAddr_wrote hw d o hb a u hu) s hs

variable (env fuel)

def entryTurns (w : World) (e : Str × Params) : List Address :=
  if Enabled e.2 then (named pcre env w e.2).flatMap (objectTurns e.2) else []

theorem addresses_eq (w : World) :
    addresses pcre env w = (Registry.entries "system" "acl.cfg" w).entries.flatMap (entryTurns pcre env w) := by
  have key : ∀ es : List (Str × Params), ((es.filter fun e => Enabled e.2).flatMap fun e =>
      (named pcre env w e.2).flatMap fun o => (objectAddresses o).map fun a => (⟨e.2,o,a⟩ : Address)) =
      es.flatMap (entryTurns pcre env w) := by
    intro es
    induction es with
    | nil => simp only [List.filter_nil,List.flatMap_nil]
    | cons e es ih =>
      by_cases he : Enabled e.2 = true
      · rw [List.filter_cons,if_pos he,List.flatMap_cons,ih,List.flatMap_cons,entryTurns,if_pos he]
        rfl
      · rw [List.filter_cons,if_neg he,ih,List.flatMap_cons,entryTurns,if_neg he,List.nil_append]
  exact key _

theorem adminEntry_wrote (hw : Kept w w) (e : Str × Params)
    (hb : ∀ a ∈ entryTurns pcre env w e, Bound env fuel w a.object)
    (s : AdminState) (hs : Kept w s.world) :
    ∃ s', adminEntry pcre env fuel (Registry.entries "system" "system.cfg" w) s e = some s' ∧
      Wrote env fuel w s s' (entryTurns pcre env w e) := by
  unfold adminEntry entryTurns Enabled at *
  by_cases hi : incompleteEntry e.2 = true
  · rw [if_pos hi,if_neg (by simp [hi])]
    exact ⟨_,rfl,by simp [leads],by simp [leads],hs.delete pcre env e.1⟩
  · rw [if_neg hi]
    by_cases hz : looseZero (e.2.val "STAT") = true
    · rw [if_pos hz,if_neg (by simp [hz])]
      exact ⟨s,rfl,by simp [leads],by simp [leads],hs⟩
    · have he : (!incompleteEntry e.2 && !looseZero (e.2.val "STAT")) = true := by simp [hi,hz]
      rw [if_pos he] at hb
      rw [if_neg hz,if_pos he]
      obtain ⟨hn,hk⟩ := hs.named pcre env (e.2.val "HOST")
      generalize definitionsGetBynameR pcre env .networks (e.2.val "HOST") s.world = g at hn hk ⊢
      have hn' := (hw.named pcre env (e.2.val "HOST")).1
      have hnamed : named pcre env w e.2 = foundIn (Definitions.objects .networks w) (e.2.val "HOST") := hn'
      rw [hnamed] at hb ⊢
      have hob : ∀ o ∈ foundIn (Definitions.objects .networks w) (e.2.val "HOST"), objectAddresses o ≠ [] →
          Bound env fuel w o := by
        intro o ho hne
        obtain ⟨a,l,hl⟩ := List.exists_cons_of_ne_nil hne
        exact hb ⟨e.2,o,a⟩ (List.mem_flatMap.mpr ⟨o,ho,by rw [objectTurns,hl]; simp⟩)
      obtain ⟨s',hs',hwr⟩ := @foldlM_wrote env w fuel _ (adminObject env fuel (Registry.entries "system" "system.cfg" w) e.2)
        (objectTurns e.2) _ (fun o ho u hu => adminObject_wrote hw e.2 o (hob o ho) u hu)
        { s with world := g.2 } hk
      rw [← hn] at hs' hwr ⊢
      exact ⟨s',hs',hwr.rules,hwr.check,hwr.kept⟩

def aclLines (w : World) : List Str := (leads [] (addresses pcre env w)).flatMap (linesOf env fuel w)

/-- The rules `policy_admin` collects. -/
theorem policyAdmin_rules (hw : Ready w) (hb : ∀ a ∈ addresses pcre env w, Bound env fuel w a.object) :
    policyAdmin pcre env fuel w = some (
      if (Registry.entries "system" "acl.cfg" w).isEmpty then none
      else
        let rules := trim ((aclLines pcre env fuel w).flatMap (· ++ ['\n']) ++
          dropLine (Registry.entries "system" "system.cfg" w))
        if null rules then none else some (("*filter\n-F ADMIN\n" : Str) ++ rules ++ ("\nCOMMIT\n" : Str))) := by
  have hs : Read "system" := Or.inr rfl
  have ht := iniTokenGet_fst env "system" "acl.cfg" (hw.fresh _ _ hs)
  have hk := hw.kept.get env hs "acl.cfg"
  have hn := iniTokenGet_fst env "system" "system.cfg" (hk.fresh _ _ hs)
  rw [entries_congr _ _ (iniTokenGet_reg env "system" "acl.cfg" ∅ w)] at hn
  have hk' := hk.get env hs "system.cfg"
  unfold policyAdmin
  dsimp only
  rw [ht,hn]
  by_cases he : (Registry.entries "system" "acl.cfg" w).isEmpty = true
  · rw [if_pos he,if_pos he]
  · rw [if_neg he,if_neg he]
    rw [addresses_eq] at hb
    obtain ⟨s,hs',hwr⟩ := foldlM_wrote env fuel (Registry.entries "system" "acl.cfg" w).entries
      (fun e he u hu => adminEntry_wrote pcre env fuel hw.kept e
        (fun a ha => hb a (List.mem_flatMap.mpr ⟨e,he,ha⟩)) u hu)
      ⟨[],[],_⟩ hk'
    rw [hs',Option.map_some,hwr.rules,aclLines,addresses_eq]
    rfl

theorem rulesid_splits : Splits rulesid ["-m".toList,"comment".toList,"--comment".toList,"admin access-list".toList] := by
  have h := (splits_unquoted (s := "-m comment --comment".toList) (by decide)).append
    (splits_quoted (w := "admin access-list".toList) (by decide))
  exact h

def Source.tests : Source → List Test
  | net n => [.opt (.src n)]
  | range r => [.free,.srcRange r]
  | mac m => [.free,.mac m]

theorem Source.tests_match (types : Types) (s : Source) (f : Frame) :
    (s.tests.all fun t => t.matches types f) = s.has f := by
  cases s <;> simp [Source.tests,Source.has,Test.matches,Opt.matches]

/-- The source of a rule is read as the addresses the text stands for. -/
theorem aclSource_reads {type host src : Str} (h : aclSource env type host = some src) (hp : PlainWord host) :
    ReadsAs src ((source type host).map Source.tests) := by
  have plain : ReadsAs (("-s " : Str) ++ host) (((PacketFilter.net host).map Source.net).map Source.tests) := by
    have hr := readsAs_option (o := "-s".toList) (by decide) hp
    rw [show test "-s".toList host = ((PacketFilter.net host).map Opt.src).map Test.opt from rfl,
      Option.map_map,Option.map_map] at hr
    rw [Option.map_map]
    exact hr
  have mac : ReadsAs (("-m mac --mac-source " : Str) ++ host) (((hardware host).map Source.mac).map Source.tests) := by
    have hr := (readsAs_option (o := "-m".toList) (w := "mac".toList) (by decide) (by decide)).append
      (readsAs_option (o := "--mac-source".toList) (by decide) hp)
    rw [show test "-m".toList "mac".toList = some .free from rfl,
      show test "--mac-source".toList host = (hardware host).map Test.mac from rfl,Option.map_map] at hr
    rw [Option.map_map]
    refine Eq.mp (congrArg (ReadsAs _) ?_) hr
    cases hardware host <;> rfl
  have range : ReadsAs (("-m iprange --src-range " : Str) ++ host)
      (((addressRange host).map Source.range).map Source.tests) := by
    have hr := (readsAs_option (o := "-m".toList) (w := "iprange".toList) (by decide) (by decide)).append
      (readsAs_option (o := "--src-range".toList) (by decide) hp)
    rw [show test "-m".toList "iprange".toList = some .free from rfl,
      show test "--src-range".toList host = (addressRange host).map Test.srcRange from rfl,Option.map_map] at hr
    rw [Option.map_map]
    refine Eq.mp (congrArg (ReadsAs _) ?_) hr
    cases addressRange host <;> rfl
  unfold aclSource at h
  unfold source
  by_cases ht : (looseEq type "host" || looseEq type "dnshost") = true
  · rw [if_pos ht] at h ⊢
    split at h
    · simp at h
    · split at h
      · rename_i hi
        rw [if_pos hi]
        exact Option.some_inj.mp h ▸ plain
      · simp at h
  · rw [if_neg ht] at h ⊢
    by_cases hm : looseEq type "hostmac" = true
    · rw [if_pos hm] at h ⊢
      split at h
      · exact Option.some_inj.mp h ▸ mac
      · simp at h
    · rw [if_neg hm] at h ⊢
      by_cases hr : looseEq type "hostrange" = true
      · rw [if_pos hr] at h ⊢
        dsimp only at h
        split at h
        · exact Option.some_inj.mp h ▸ range
        · simp at h
      · rw [if_neg hr] at h ⊢
        split at h
        · simp at h
        · exact Option.some_inj.mp h ▸ plain

/-- A line that is written: no blank around it and no end of a line in it. -/
structure LineOk (l : Str) : Prop where
  ne : l ≠ []
  trimmed : trim l = l
  newline : '\n' ∉ l

theorem trim_lines {ls : List Str} (hn : ls ≠ []) (h : ∀ l ∈ ls, LineOk l) :
    trim (ls.flatMap (· ++ ['\n'])) = ['\n'].intercalate ls := by
  have key : ∀ ls : List Str, ls ≠ [] → (∀ l ∈ ls, LineOk l) →
      ls.flatMap (· ++ ['\n']) = ['\n'].intercalate ls ++ ['\n'] ∧
      trim (['\n'].intercalate ls) = ['\n'].intercalate ls ∧ ['\n'].intercalate ls ≠ [] := by
    intro ls hn h
    induction ls with
    | nil => exact absurd rfl hn
    | cons l ls ih =>
      have hl := h l (by simp)
      cases ls with
      | nil => simpa [List.intercalate] using ⟨hl.trimmed,hl.ne⟩
      | cons m ls =>
        obtain ⟨he,ht,hne⟩ := ih (by simp) fun x hx => h x (List.mem_cons_of_mem _ hx)
        rw [List.intercalate_cons_cons,List.flatMap_cons,he]
        refine ⟨by simp,trimmed_iff.mpr ⟨fun a ha => ?_,fun a ha => ?_⟩,by simp⟩
        · obtain ⟨c,t,hc⟩ := List.exists_cons_of_ne_nil hl.ne
          rw [hc] at ha
          exact (trimmed_iff.mp hl.trimmed).1 a (by rw [hc]; simpa using ha)
        · rw [List.getLast?_append_of_ne_nil _ hne] at ha
          exact (trimmed_iff.mp ht).2 a ha
  obtain ⟨he,ht,hne⟩ := key ls hn h
  rw [he,trim,LineText.strip_concat_blank trimChar (by decide)]
  exact ht

theorem split_lines {ls : List Str} (hn : ls ≠ []) (h : ∀ l ∈ ls, LineOk l) :
    split '\n' (trim (ls.flatMap (· ++ ['\n']))) = ls := by
  rw [trim_lines hn h]
  exact List.splitOn_intercalate '\n' (fun l hl => (h l hl).newline) hn

/-- The lines of a file are cut as they were put together. -/
theorem policyData_lines {ls : List Str} (hn : ls ≠ []) (h : ∀ l ∈ ls, LineOk l) :
    policyData (("*filter\n-F ADMIN\n" : Str) ++ trim (ls.flatMap (· ++ ['\n'])) ++ ("\nCOMMIT\n" : Str)) =
      ls.foldlM readLine [] := by
  have hf : LineOk ("*filter" : Str) := ⟨by decide,by decide,by decide⟩
  have ha : LineOk ("-F ADMIN" : Str) := ⟨by decide,by decide,by decide⟩
  have hc : LineOk ("COMMIT" : Str) := ⟨by decide,by decide,by decide⟩
  have hl : ∀ l ∈ (("*filter" : Str)::("-F ADMIN" : Str)::(ls ++ [("COMMIT" : Str)])), LineOk l := by
    intro l hm
    simp only [List.mem_cons,List.mem_append,List.not_mem_nil,or_false] at hm
    rcases hm with rfl | rfl | hm | rfl
    · exact hf
    · exact ha
    · exact h l hm
    · exact hc
  have he : ls.flatMap (· ++ ['\n']) = trim (ls.flatMap (· ++ ['\n'])) ++ ['\n'] := by
    rw [trim_lines hn h]
    clear hl h
    induction ls with
    | nil => exact absurd rfl hn
    | cons l ls ih =>
      cases ls with
      | nil => simp [List.intercalate]
      | cons m ls =>
        rw [List.flatMap_cons,ih (by simp),List.intercalate_cons_cons]
        simp
  have ht : ("*filter\n-F ADMIN\n" : Str) ++ trim (ls.flatMap (· ++ ['\n'])) ++ ("\nCOMMIT\n" : Str) =
      (("*filter" : Str)::("-F ADMIN" : Str)::(ls ++ [("COMMIT" : Str)])).flatMap (· ++ ['\n']) := by
    rw [List.flatMap_cons,List.flatMap_cons,List.flatMap_append]
    generalize trim (ls.flatMap (· ++ ['\n'])) = t at he ⊢
    rw [he]
    simp [Str.of_ascii]
  rw [policyData,ht,split_lines (by simp) hl,restore]
  have hd : (("-F ADMIN" : Str)::(ls ++ [("COMMIT" : Str)])).dropLast = ("-F ADMIN" : Str)::ls := by
    rw [← List.cons_append,List.dropLast_concat]
  rw [if_pos ⟨rfl,by rw [← List.cons_append,← List.cons_append,List.getLast?_concat]; rfl⟩,List.tail_cons,hd,
    List.foldlM_cons]
  rfl

/-- An address, a service and the test of the source, for which a line is written. -/
structure Written where
  address : Address
  service : Str
  src : Str

def writtenFor (w : World) (a : Address) (service : Str) : Option Written :=
  if port w service ≠ [] ∧ service <:+: a.entry.val "TYPE" then
    (aclSource env (a.object.val "__DATA_TYPE") a.text).map fun src => ⟨a,service,src⟩
  else none

def written (w : World) : List Written :=
  (leads [] (addresses pcre env w)).flatMap fun a => services.filterMap (writtenFor env w a)

def Written.line (w : World) (q : Written) : Str := adminLine (intOf env fuel w q.address.object) q.src (port w q.service)

theorem aclLines_eq (w : World) : aclLines pcre env fuel w = (written pcre env w).map (Written.line env fuel w) := by
  have hs : ∀ (a : Address) (xs : List Str), xs.flatMap (serviceLine env fuel w a) =
      (xs.filterMap (writtenFor env w a)).map (Written.line env fuel w) := by
    intro a xs
    induction xs with
    | nil => rfl
    | cons x xs ih =>
      rw [List.flatMap_cons,ih,List.filterMap_cons]
      by_cases hc : port w x ≠ [] ∧ x <:+: a.entry.val "TYPE"
      · rw [serviceLine,writtenFor,if_pos hc,if_pos (by simpa using hc)]
        cases aclSource env (a.object.val "__DATA_TYPE") a.text <;> rfl
      · rw [serviceLine,writtenFor,if_neg hc,if_neg (by simpa using hc)]
        rfl
  unfold aclLines written
  rw [List.map_flatMap]
  exact List.flatMap_congr fun a _ => hs a services

theorem mem_written {w : World} {q : Written} : q ∈ written pcre env w ↔ First (addresses pcre env w) q.address ∧
    q.service ∈ services ∧ port w q.service ≠ [] ∧ q.service <:+: q.address.entry.val "TYPE" ∧
    aclSource env (q.address.object.val "__DATA_TYPE") q.address.text = some q.src := by
  unfold written
  simp only [List.mem_flatMap,List.mem_filterMap,writtenFor]
  constructor
  · rintro ⟨a,ha,x,hx,hq⟩
    split at hq
    · rename_i hc
      obtain ⟨src,hs,rfl⟩ := Option.map_eq_some_iff.mp hq
      exact ⟨(mem_leads.mp ha).2,hx,hc.1,hc.2,hs⟩
    · simp at hq
  · rintro ⟨ha,hx,hp,ht,hs⟩
    exact ⟨q.address,mem_leads.mpr ⟨by simp,ha⟩,q.service,hx,by rw [if_pos ⟨hp,ht⟩,hs]; rfl⟩

def intTests (w : World) (o : Params) : Option (List Test) :=
  if o.val "DNAME" = [] then some []
  else (deviceName ((device env fuel w (o.val "DNAME")).getD [])).map fun d => [.device d]

def Written.rule (w : World) (q : Written) : Option ChainRule :=
  (intTests env fuel w q.address.object).bind fun i =>
    (source (q.address.object.val "__DATA_TYPE") q.address.text).bind fun s =>
      (PacketFilter.range (port w q.service)).map fun r =>
        ⟨"ADMIN",[.free,.free] ++ (i ++ ([.opt (.proto 6)] ++ ([.opt (.load .tcp)] ++ (s.tests ++
          ([.opt (.sport ⟨1,65535⟩)] ++ [.opt (.dport r)]))))),"CONFIRMED"⟩

def dropTarget (system : Token) : Str :=
  if toNumber ((system.getD "security" ∅).val "LOG_DROP") = 1 then "LOG_DROP" else "DROP"

def dropRule (w : World) : Option ChainRule :=
  (portList (mports (Registry.entries "system" "system.cfg" w))).map fun rs =>
    ⟨"ADMIN",[.free,.free] ++ ([.opt (.proto 6)] ++ ([.opt (.load .tcp)] ++ ([.free] ++ [.dports rs]))),
      dropTarget (Registry.entries "system" "system.cfg" w)⟩

/-- The registry is settled, the texts that are written are single words, no port serves two services,
and the interfaces that objects are bound to are there. -/
structure Configured (w : World) : Prop where
  ready : Ready w
  texts : ∀ a ∈ addresses pcre env w, a.text ≠ [] → PlainWord a.text
  ports : ∀ x ∈ services, port w x ≠ [] → PlainWord (port w x)
  disjoint : ∀ x ∈ services, ∀ y ∈ services, ∀ r s, PacketFilter.range (port w x) = some r →
    PacketFilter.range (port w y) = some s → ∀ n, r.has n = true → s.has n = true → x = y
  bound : ∀ a ∈ addresses pcre env w, a.object.val "DNAME" ≠ [] →
    ∃ dev, device env fuel w (a.object.val "DNAME") = some dev ∧ PlainWord dev ∧ dev.getLast? ≠ some '+'

theorem rulesid_reads : ReadsAs rulesid (some [.free,.free]) :=
  ⟨_,rulesid_splits,rfl,rfl⟩

theorem First.mem {l : List Address} {a : Address} (h : First l a) : a ∈ l ∧ a.text ≠ [] := by
  obtain ⟨l₁,l₂,rfl,hn,-⟩ := h
  exact ⟨by simp,hn⟩

variable {pcre env fuel}

theorem intOf_reads (h : Configured pcre env fuel w) {a : Address} (ha : a ∈ addresses pcre env w) :
    ReadsAs (intOf env fuel w a.object) (intTests env fuel w a.object) := by
  unfold intOf intTests
  by_cases hn : a.object.val "DNAME" = []
  · rw [if_pos hn,hn]
    exact readsAs_nil
  · obtain ⟨dev,hd,hp,-⟩ := h.bound a ha hn
    rw [if_neg hn,if_neg (by simpa using hn),hd]
    dsimp only [Option.getD_some]
    rw [if_neg (by simpa using hp.ne)]
    have hr := readsAs_option (o := "-i".toList) (by decide) hp
    rw [show test "-i".toList dev = (deviceName dev).map Test.device from rfl,Option.map_map] at hr
    exact hr

theorem adminLine_eq (int src dport : Str) : adminLine int src dport =
    "-A".toList ++ ' ' :: ("ADMIN".toList ++ ' ' :: ((rulesid ++ ' ' :: (int ++ ' ' :: ("-p tcp".toList ++ ' ' ::
      ("-m tcp".toList ++ ' ' :: (src ++ ' ' :: ("--sport 1:65535".toList ++ ' ' :: ("--dport".toList ++ ' ' ::
        dport))))))) ++ ' ' :: ("-j".toList ++ ' ' :: "CONFIRMED".toList))) := by
  unfold adminLine
  simp only [List.intercalate_cons_cons,List.intercalate_singleton,List.append_assoc]
  simp [Str.of_ascii]

/-- The line of an address is read as its rule. -/
theorem line_appends (h : Configured pcre env fuel w) {q : Written} (hq : q ∈ written pcre env w) :
    Appends (q.line env fuel w) (q.rule env fuel w) := by
  obtain ⟨hf,hx,hp,-,hs⟩ := (mem_written pcre env).mp hq
  have hi := intOf_reads h hf.mem.1
  have hsrc := aclSource_reads env hs (h.texts _ hf.mem.1 hf.mem.2)
  have hport := h.ports _ hx hp
  have hbody := rulesid_reads.append (hi.append
    ((readsAs_option (o := "-p".toList) (w := "tcp".toList) (by decide) (by decide)).append
    ((readsAs_option (o := "-m".toList) (w := "tcp".toList) (by decide) (by decide)).append
    (hsrc.append ((readsAs_option (o := "--sport".toList) (w := "1:65535".toList) (by decide) (by decide)).append
    (readsAs_option (o := "--dport".toList) (by decide) hport))))))
  have ha := @appends_rule "ADMIN".toList "CONFIRMED".toList _ _ (by decide) (by decide) hbody
  rw [Written.line,adminLine_eq]
  refine Eq.mp (congrArg (Appends _) ?_) ha
  unfold Written.rule
  rw [show test "-p".toList "tcp".toList = some (.opt (.proto 6)) from rfl,
    show test "-m".toList "tcp".toList = some (.opt (.load .tcp)) from rfl,
    show test "--sport".toList "1:65535".toList = some (.opt (.sport ⟨1,65535⟩)) from rfl,
    show test "--dport".toList (port w q.service) =
      ((PacketFilter.range (port w q.service)).map Opt.dport).map Test.opt from rfl]
  cases intTests env fuel w q.address.object <;>
    cases source (q.address.object.val "__DATA_TYPE") q.address.text <;>
    cases PacketFilter.range (port w q.service) <;> rfl

theorem aclSource_eq {type host src : Str} (h : aclSource env type host = some src) :
    ∃ s ∈ [("-s " : Str),("-m mac --mac-source " : Str),("-m iprange --src-range " : Str)], src = s ++ host := by
  unfold aclSource at h
  split at h
  · split at h
    · simp at h
    · split at h
      · exact ⟨_,by simp,(Option.some_inj.mp h).symm⟩
      · simp at h
  · split at h
    · split at h
      · exact ⟨_,by simp,(Option.some_inj.mp h).symm⟩
      · simp at h
    · split at h
      · dsimp only at h
        split at h
        · exact ⟨_,by simp,(Option.some_inj.mp h).symm⟩
        · simp at h
      · split at h
        · simp at h
        · exact ⟨_,by simp,(Option.some_inj.mp h).symm⟩

/-- A hardware address that can be read passes the check. -/
theorem checkMacaddr_of_hardware {s : Str} {m : List Nat} (h : hardware s = some m) : checkMacaddr s = true := by
  have byte : ∀ {g : Str} {x : Nat}, hexByte g = some x → ∀ n ≤ 2, hexGroup n g = true := by
    intro g x hg n hn
    have digit : ∀ {c : Char} {y : Nat}, hexValue c = some y → Php.hexDigit c = true := by
      intro c y hc
      unfold hexValue at hc
      unfold Php.hexDigit Php.digit
      split at hc
      · rename_i hd; simp [hd.1,hd.2]
      · split at hc
        · rename_i hd; simp [hd.1,hd.2]
        · split at hc
          · rename_i hd; simp [hd.1,hd.2]
          · simp at hc
    unfold hexByte at hg
    split at hg
    · rename_i a b
      obtain ⟨y,hy,hg⟩ := Option.bind_eq_some_iff.mp hg
      obtain ⟨z,hz,-⟩ := Option.map_eq_some_iff.mp hg
      simp [hexGroup,digit hy,digit hz,hn]
    · simp at hg
  unfold hardware at h
  unfold checkMacaddr split
  dsimp only at h
  generalize List.splitOn ':' s = ps at h ⊢
  split at h
  · rename_i hl
    match ps,hl with
    | [a,b,c,d,e,f],_ =>
      simp only [List.mapM_cons,List.mapM_nil,Option.bind_eq_bind,Option.bind_eq_some_iff,Option.pure_def,
        Option.some.injEq] at h
      obtain ⟨_,ha,_,⟨_,hb,_,⟨_,hc,_,⟨_,hd,_,⟨_,he,_,⟨_,hf,-⟩,-⟩,-⟩,-⟩,-⟩,-⟩ := h
      dsimp only
      rw [byte ha 1 (by omega),byte hb 1 (by omega),byte hc 2 (by omega),byte hd 1 (by omega),byte he 1 (by omega),
        byte hf 1 (by omega)]
      rfl
  · simp at h

/-- The ends of a range are compared rightly: the integers have 64 bits, or both are in one half of the addresses. -/
def InHalf (conv : Ipcalc.Ip2long) (wide : Bool) (type text : Str) : Prop :=
  looseEq type "hostrange" = true → ∀ a b, split '-' text = [a,b] →
    if SshLog.isIpv4 a = true ∧ SshLog.isIpv4 b = true then
      wide = true ∨ (Ipcalc.value a).msb = (Ipcalc.value b).msb
    else ¬Ipcalc.Falls conv wide a b

theorem chkHostrange_addresses (conv : Ipcalc.Ip2long) (wide : Bool) {a b : Str} {x y : ℕ}
    (hx : PacketFilter.address a = some x) (hy : PacketFilter.address b = some y) (hxy : x ≤ y) :
    Ipcalc.chkHostrange conv wide a b = true ↔ if SshLog.isIpv4 a = true ∧ SshLog.isIpv4 b = true then
      wide = true ∨ (Ipcalc.value a).msb = (Ipcalc.value b).msb
    else ¬Ipcalc.Falls conv wide a b := by
  split
  · rename_i hv
    rw [Ipcalc.address_value hv.1,Option.some.injEq] at hx
    rw [Ipcalc.address_value hv.2,Option.some.injEq] at hy
    have hle : Ipcalc.value a ≤ Ipcalc.value b := by
      rw [BitVec.le_def,hx,hy]
      exact hxy
    rw [Ipcalc.chkHostrange_eq,conv.valid a hv.1,conv.valid b hv.2]
    simp only [decide_eq_true_eq,Ipcalc.long_le_iff,hle,true_iff]
  · exact Ipcalc.chkHostrange_iff conv wide a b

/-- A rule is written for every text that stands for addresses, but for a range that spans both halves. -/
theorem aclSource_iff {conv : Ipcalc.Ip2long} {wide : Bool} (hl : env.ip2long = conv.long wide) {type text : Str}
    (hn : text ≠ []) (h : source type text ≠ none) :
    aclSource env type text ≠ none ↔ InHalf conv wide type text := by
  obtain ⟨s,hs⟩ := Option.ne_none_iff_exists'.mp h
  unfold source at hs
  unfold aclSource InHalf
  have hne : ∀ {b : Str}, numeric b = none → b ≠ "hostrange" → looseEq type b = true →
      ¬looseEq type "hostrange" = true := by
    intro b hb hbr ht hr
    rw [looseEq_text hb,decide_eq_true_iff] at ht
    rw [looseEq_text (by decide),decide_eq_true_iff] at hr
    exact hbr (ht.symm.trans hr)
  by_cases ht : (looseEq type "host" || looseEq type "dnshost") = true
  · have hr : ¬looseEq type "hostrange" = true := by
      rcases Bool.or_eq_true_iff.mp ht with ht | ht
      · exact hne (by decide) (by decide) ht
      · exact hne (by decide) (by decide) ht
    rw [if_pos ht] at hs ⊢
    split at hs
    · rename_i hi
      have hu : looseEq text unresolved = false := by
        rw [looseEq_text (by decide),decide_eq_false_iff_not]
        rintro rfl
        exact absurd hi (by decide)
      rw [hu,Bool.and_false,if_neg (by decide),if_pos hi]
      simp [hr]
    · simp at hs
  · rw [if_neg ht] at hs ⊢
    by_cases hm : looseEq type "hostmac" = true
    · have hr := hne (by decide) (by decide) hm
      rw [if_pos hm] at hs ⊢
      obtain ⟨m,hm',-⟩ := Option.map_eq_some_iff.mp hs
      rw [if_pos (checkMacaddr_of_hardware hm')]
      simp [hr]
    · rw [if_neg hm] at hs ⊢
      by_cases hr : looseEq type "hostrange" = true
      · rw [if_pos hr] at hs ⊢
        obtain ⟨r,hr',-⟩ := Option.map_eq_some_iff.mp hs
        unfold addressRange at hr'
        split at hr'
        · rename_i a b hab
          obtain ⟨x,hx,hr'⟩ := Option.bind_eq_some_iff.mp hr'
          obtain ⟨y,hy,hr'⟩ := Option.bind_eq_some_iff.mp hr'
          split at hr'
          · rename_i hxy
            have hc := chkHostrange_addresses conv wide hx hy hxy
            rw [Ipcalc.chkHostrange,← hl] at hc
            dsimp only
            rw [split,hab]
            simp only [hr,List.cons.injEq,and_true,forall_const,and_imp,forall_apply_eq_imp_iff,forall_eq',← hc]
            simp [(address_chars hx).1,(address_chars hy).1]
          · simp at hr'
        · simp at hr'
      · rw [if_neg hr]
        simp [hn,hr]

variable (pcre env fuel)

/-- What is written for the addresses, and the list of ports, can be read. -/
structure Readable (w : World) : Prop where
  lines : ∀ a, First (addresses pcre env w) a → ∀ x ∈ services, port w x ≠ [] → x <:+: a.entry.val "TYPE" →
    aclSource env (a.object.val "__DATA_TYPE") a.text ≠ none →
    source (a.object.val "__DATA_TYPE") a.text ≠ none ∧ PacketFilter.range (port w x) ≠ none ∧
    (a.object.val "DNAME" ≠ [] → ∀ dev, device env fuel w (a.object.val "DNAME") = some dev → dev.length ≤ 15)
  ports : mports (Registry.entries "system" "system.cfg" w) ≠ [] →
    portList (mports (Registry.entries "system" "system.cfg" w)) ≠ none

def dropText (ports target : Str) : Str :=
  "-A".toList ++ ' ' :: ("ADMIN".toList ++ ' ' :: ((rulesid ++ ' ' :: ("-p tcp".toList ++ ' ' :: ("-m tcp".toList ++
    ' ' :: ("-m multiport".toList ++ ' ' :: ("--dports".toList ++ ' ' :: ports))))) ++ ' ' ::
      ("-j".toList ++ ' ' :: target)))

def dropLines (w : World) : List Str :=
  let system := Registry.entries "system" "system.cfg" w
  if mports system = [] then [] else [dropText (mports system) (dropTarget system)]

theorem dropLine_eq (w : World) :
    dropLine (Registry.entries "system" "system.cfg" w) = (dropLines w).flatMap (· ++ ['\n']) := by
  unfold dropLine dropLines dropText dropTarget
  by_cases hm : mports (Registry.entries "system" "system.cfg" w) = []
  · rw [if_pos hm,hm]
    rfl
  · have hchain : ("-A ADMIN" : Str) = "-A".toList ++ ' '::"ADMIN".toList := by decide
    have hports : ("-p tcp -m tcp -m multiport --dports" : Str) = "-p tcp".toList ++ ' '::("-m tcp".toList ++
        ' '::("-m multiport".toList ++ ' '::"--dports".toList)) := by
      decide +kernel
    have hjump : ("-j" : Str) = "-j".toList := by decide
    rw [if_neg hm,if_neg (by simpa using hm),hchain,hports,hjump]
    simp only [List.intercalate_cons_cons,List.intercalate_singleton,List.append_assoc,List.flatMap_singleton,
      List.cons_append,List.nil_append]

variable {pcre env fuel}

theorem mports_chars (h : Configured pcre env fuel w) : ∀ c ∈ mports (Registry.entries "system" "system.cfg" w),
    c ≠ ' ' ∧ c ≠ '"' ∧ c ≠ '\n' := by
  intro c hc
  have hm := LineText.strip_mem _ hc
  obtain ⟨x,hx,hcx⟩ := List.mem_flatMap.mp hm
  dsimp only at hcx
  split at hcx
  · simp at hcx
  · rename_i hp
    rcases List.mem_append.mp hcx with hcx | hcx
    · exact (h.ports x hx fun he => hp (null_iff.mpr he)).chars c hcx
    · rw [List.mem_singleton] at hcx
      subst hcx
      decide

theorem dropLines_appends (h : Configured pcre env fuel w) : ∀ l ∈ dropLines w, Appends l (dropRule w) := by
  intro l hl
  unfold dropLines at hl
  dsimp only at hl
  split at hl
  · simp at hl
  · rename_i hm
    rw [List.mem_singleton] at hl
    subst hl
    have hp : PlainWord (mports (Registry.entries "system" "system.cfg" w)) := ⟨hm,mports_chars h⟩
    have hbody := rulesid_reads.append ((readsAs_option (o := "-p".toList) (w := "tcp".toList) (by decide) (by decide)).append
      ((readsAs_option (o := "-m".toList) (w := "tcp".toList) (by decide) (by decide)).append
      ((readsAs_option (o := "-m".toList) (w := "multiport".toList) (by decide) (by decide)).append
      (readsAs_option (o := "--dports".toList) (by decide) hp))))
    have ht : PlainWord (dropTarget (Registry.entries "system" "system.cfg" w)) := by
      unfold dropTarget
      split <;> decide
    have ha := @appends_rule "ADMIN".toList _ _ _ (by decide) ht hbody
    refine Eq.mp (congrArg (Appends _) ?_) ha
    unfold dropRule
    rw [show test "-p".toList "tcp".toList = some (.opt (.proto 6)) from rfl,
      show test "-m".toList "tcp".toList = some (.opt (.load .tcp)) from rfl,
      show test "-m".toList "multiport".toList = some .free from rfl,
      show test "--dports".toList (mports (Registry.entries "system" "system.cfg" w)) =
        (portList (mports (Registry.entries "system" "system.cfg" w))).map Test.dports from rfl]
    cases portList (mports (Registry.entries "system" "system.cfg" w)) <;> rfl

theorem lineOk_of {s t : Str} {c : Char} (hs : '\n' ∉ s) (hc : trimChar c = false) (ht : s = '-' :: (t ++ [c])) :
    LineOk s := by
  refine ⟨by simp [ht],trimmed_iff.mpr ⟨fun a ha => ?_,fun a ha => ?_⟩,hs⟩
  · rw [ht] at ha
    simp only [List.head?_cons,Option.mem_some_iff] at ha
    subst ha
    decide
  · rw [ht,← List.cons_append,List.getLast?_concat] at ha
    simp only [Option.mem_some_iff] at ha
    subst ha
    simp [hc]

theorem adminLine_ok {int src dport : Str} (hi : '\n' ∉ int) (hs : '\n' ∉ src) (hd : '\n' ∉ dport) :
    LineOk (adminLine int src dport) := by
  refine lineOk_of (t := "A ADMIN ".toList ++ (rulesid ++ ' ' :: (int ++ " -p tcp -m tcp ".toList ++ (src ++
    " --sport 1:65535 --dport ".toList ++ (dport ++ " -j CONFIRME".toList))))) (c := 'D') ?_ (by decide) ?_
  · rw [adminLine_eq]
    simp [hi,hs,hd,rulesid,Str.of_ascii]
  · rw [adminLine_eq]
    simp

theorem dropText_ok {ports : Str} (hp : '\n' ∉ ports) (system : Token) :
    LineOk (dropText ports (dropTarget system)) := by
  have key : ∀ (t : Str) (c : Char), '\n' ∉ t → c ≠ '\n' → trimChar c = false → LineOk (dropText ports (t ++ [c])) := by
    intro t c ht hn hc
    refine lineOk_of (t := "A ADMIN ".toList ++ (rulesid ++ " -p tcp -m tcp -m multiport --dports ".toList ++
      (ports ++ (" -j ".toList ++ t)))) (c := c) ?_ hc ?_
    · simp [dropText,hp,ht,hn.symm,rulesid,Str.of_ascii]
    · simp [dropText]
  unfold dropTarget
  split
  · exact key "LOG_DRO" 'P' (by decide) (by decide) (by decide)
  · exact key "DRO" 'P' (by decide) (by decide) (by decide)

theorem lines_ok (h : Configured pcre env fuel w) : ∀ l ∈ aclLines pcre env fuel w ++ dropLines w, LineOk l := by
  intro l hl
  rcases List.mem_append.mp hl with hl | hl
  · rw [aclLines_eq] at hl
    obtain ⟨q,hq,rfl⟩ := List.mem_map.mp hl
    obtain ⟨hf,hx,hp,-,hs⟩ := (mem_written pcre env).mp hq
    have htext := h.texts _ hf.mem.1 hf.mem.2
    refine adminLine_ok ?_ ?_ fun hm => ((h.ports _ hx hp).chars _ hm).2.2 rfl
    · unfold intOf
      by_cases hn : q.address.object.val "DNAME" = []
      · rw [hn]
        simp
      · obtain ⟨dev,hd,hdev,-⟩ := h.bound _ hf.mem.1 hn
        rw [if_neg (by simpa using hn),hd]
        dsimp only [Option.getD_some]
        rw [if_neg (by simpa using hdev.ne)]
        intro hm
        rcases List.mem_append.mp hm with hm | hm
        · exact absurd hm (by decide)
        · exact (hdev.chars _ hm).2.2 rfl
    · obtain ⟨s,hsm,he⟩ := aclSource_eq hs
      rw [he]
      intro hm
      rcases List.mem_append.mp hm with hm | hm
      · simp only [List.mem_cons,List.not_mem_nil,or_false] at hsm
        rcases hsm with rfl | rfl | rfl <;> exact absurd hm (by decide)
      · exact (htext.chars _ hm).2.2 rfl
  · unfold dropLines at hl
    dsimp only at hl
    split at hl
    · simp at hl
    · rw [List.mem_singleton] at hl
      subst hl
      exact dropText_ok (fun hm => (mports_chars h _ hm).2.2 rfl) _

theorem forall_dropLines {w : World} {P : Str → Prop} : (∀ l ∈ dropLines w, P l) ↔
    (mports (Registry.entries "system" "system.cfg" w) ≠ [] →
      P (dropText (mports (Registry.entries "system" "system.cfg" w)) (dropTarget (Registry.entries "system" "system.cfg" w)))) := by
  unfold dropLines
  dsimp only
  split
  · rename_i hm; simp [hm]
  · rename_i hm; simp [hm]

theorem intTests_ne (h : Configured pcre env fuel w) {a : Address} (ha : a ∈ addresses pcre env w) :
    intTests env fuel w a.object ≠ none ↔ (a.object.val "DNAME" ≠ [] →
      ∀ dev, device env fuel w (a.object.val "DNAME") = some dev → dev.length ≤ 15) := by
  unfold intTests
  by_cases hn : a.object.val "DNAME" = []
  · simp [hn]
  · obtain ⟨dev,hd,-,-⟩ := h.bound a ha hn
    rw [if_neg hn,hd,Option.getD_some,deviceName]
    split
    · rename_i hl
      simp [hl]
    · rename_i hl
      simpa [hn] using hl

/-- The lines can be read together when each can be read. -/
theorem readable_iff (h : Configured pcre env fuel w) : Readable pcre env fuel w ↔
    (∀ q ∈ written pcre env w, q.rule env fuel w ≠ none) ∧ ∀ l ∈ dropLines w, dropRule w ≠ none := by
  have hrule : ∀ q : Written, q.rule env fuel w ≠ none ↔ intTests env fuel w q.address.object ≠ none ∧
      source (q.address.object.val "__DATA_TYPE") q.address.text ≠ none ∧
      PacketFilter.range (port w q.service) ≠ none := by
    intro q
    unfold Written.rule
    cases intTests env fuel w q.address.object <;>
      cases source (q.address.object.val "__DATA_TYPE") q.address.text <;>
      cases PacketFilter.range (port w q.service) <;> simp
  have hdrop : dropRule w ≠ none ↔ portList (mports (Registry.entries "system" "system.cfg" w)) ≠ none := by
    unfold dropRule
    cases portList (mports (Registry.entries "system" "system.cfg" w)) <;> simp
  rw [forall_dropLines (P := fun _ => dropRule w ≠ none),hdrop]
  constructor
  · rintro ⟨hl,hp⟩
    refine ⟨fun q hq => ?_,hp⟩
    obtain ⟨hf,hx,hport,ht,hs⟩ := (mem_written pcre env).mp hq
    obtain ⟨h₁,h₂,h₃⟩ := hl q.address hf q.service hx hport ht (by simp [hs])
    exact (hrule q).mpr ⟨(intTests_ne h hf.mem.1).mpr h₃,h₁,h₂⟩
  · rintro ⟨hq,hp⟩
    refine ⟨fun a hf x hx hport ht hs => ?_,hp⟩
    obtain ⟨src,hs⟩ := Option.ne_none_iff_exists'.mp hs
    obtain ⟨h₁,h₂,h₃⟩ := (hrule ⟨a,x,src⟩).mp (hq ⟨a,x,src⟩ ((mem_written pcre env).mpr ⟨hf,hx,hport,ht,hs⟩))
    exact ⟨h₂,h₃,(intTests_ne h hf.mem.1).mp h₁⟩

theorem rules_loaded (h : Configured pcre env fuel w) (rs : List ChainRule) :
    (aclLines pcre env fuel w ++ dropLines w).foldlM readLine [] = some rs ↔
      Readable pcre env fuel w ∧ rs = (written pcre env w).filterMap (Written.rule env fuel w) ++
        (dropLines w).filterMap fun _ => dropRule w := by
  have hd := @foldlM_appends _ id (fun _ => dropRule w) _ (dropLines_appends h)
  rw [readable_iff h,List.foldlM_append,aclLines_eq,foldlM_appends fun q hq => line_appends h hq]
  rw [List.map_id] at hd
  split
  · rename_i hq
    simp only [Option.bind_eq_bind,Option.bind_some,List.nil_append,hd]
    split
    · rename_i hl
      simp only [Option.some.injEq]
      exact ⟨fun he => ⟨⟨hq,hl⟩,he.symm⟩,fun he => he.2.symm⟩
    · rename_i hl
      exact ⟨fun he => by simp at he,fun he => absurd he.1.2 hl⟩
  · rename_i hq
    exact ⟨fun he => by simp at he,fun he => absurd he.1.1 hq⟩

/-- A rule of an address lets the connections through that the address grants. -/
theorem rule_matches (h : Configured pcre env fuel w) (types : Types) (c : Connection w) {q : Written}
    (hq : q ∈ written pcre env w) {r : ChainRule} (hr : q.rule env fuel w = some r) :
    r.chain = ("ADMIN" : Str) ∧ r.target = ("CONFIRMED" : Str) ∧
    (r.matches types c.frame = true ↔ q.service = c.service ∧ Grants env fuel c q.address) := by
  obtain ⟨hf,hx,hport,ht,hs⟩ := (mem_written pcre env).mp hq
  unfold Written.rule at hr
  obtain ⟨i,hi,hr⟩ := Option.bind_eq_some_iff.mp hr
  obtain ⟨s,hsrc,hr⟩ := Option.bind_eq_some_iff.mp hr
  obtain ⟨ρ,hρ,rfl⟩ := Option.map_eq_some_iff.mp hr
  refine ⟨rfl,rfl,?_⟩
  have hint : (i.all fun t => t.matches types c.frame) = true ↔ Through env fuel c q.address.object := by
    unfold intTests at hi
    unfold Through
    by_cases hn : q.address.object.val "DNAME" = []
    · rw [if_pos hn,Option.some.injEq] at hi
      subst hi
      simp [hn]
    · obtain ⟨dev,hd,-,hplus⟩ := h.bound _ hf.mem.1 hn
      rw [if_neg hn,hd,Option.getD_some,deviceName] at hi
      split at hi
      · simp only [Option.map_some,Option.some.injEq] at hi
        subst hi
        simp [hn,hd,Test.matches,deviceHas,hplus,Connection.frame]
      · simp at hi
  have hsport : (Range.mk 1 65535).has c.sport = true := by
    simp [PacketFilter.Range.has,c.sport_mem.1,c.sport_mem.2]
  calc
    _ ↔ Through env fuel c q.address.object ∧ s.has c.frame = true ∧ ρ.has c.dport = true := by
      rw [← hint,← Source.tests_match types]
      unfold ChainRule.matches
      simp only [List.all_append,Bool.and_eq_true]
      simp [Test.matches,Opt.matches,Connection.frame,Payload.proto,Module.sees,hsport]
    _ ↔ q.service = c.service ∧ Grants env fuel c q.address := by
      obtain ⟨ρ',hρ',hdp⟩ := c.dport_mem
      constructor
      · rintro ⟨hth,hhas,hd⟩
        have hx' := h.disjoint _ hx _ c.service_mem ρ ρ' hρ hρ' _ hd hdp
        exact ⟨hx',hx' ▸ ht,⟨s,hsrc,hhas⟩,hth⟩
      · rintro ⟨hx',hg⟩
        obtain ⟨s',hs',hhas⟩ := hg.source
        rw [hsrc,Option.some.injEq] at hs'
        rw [hx',hρ',Option.some.injEq] at hρ
        exact ⟨hg.through,hs' ▸ hhas,hρ ▸ hdp⟩

theorem verdict_append {types : Types} {as bs : List ChainRule} {f : Frame} {chain target : Word}
    (ha : ∀ r ∈ as, r.chain = chain ∧ r.target = target) (hb : ∀ r ∈ bs, r.target ≠ target) :
    verdict types chain (as ++ bs) f = some target ↔ ∃ r ∈ as, r.matches types f = true := by
  unfold verdict
  rw [List.find?_append]
  cases has : as.find? (fun r => r.chain = chain && r.matches types f) with
  | some r =>
    have hr := List.mem_of_find?_eq_some has
    have hm := List.find?_some has
    simp only [Bool.and_eq_true] at hm
    simp only [Option.some_or,Option.map_some,(ha r hr).2,true_iff]
    exact ⟨r,hr,hm.2⟩
  | none =>
    rw [List.find?_eq_none] at has
    rw [Option.none_or]
    constructor
    · intro h
      obtain ⟨r,hr,ht⟩ := Option.map_eq_some_iff.mp h
      exact absurd ht (hb r (List.mem_of_find?_eq_some hr))
    · rintro ⟨r,hr,hm⟩
      exact absurd (by simp [(ha r hr).1,hm]) (has r hr)

/-- What `_policy_data` makes of the lines. -/
theorem accepted_iff {conv : Ipcalc.Ip2long} {wide : Bool} (hi : env.ip2long = conv.long wide)
    (h : Configured pcre env fuel w) (types : Types) (c : Connection w) :
    ∃ data, policyAdmin pcre env fuel w = some data ∧ (Accepted types data c ↔ Readable pcre env fuel w ∧
      ∃ a, First (addresses pcre env w) a ∧ Grants env fuel c a ∧
        InHalf conv wide (a.object.val "__DATA_TYPE") a.text) := by
  have hb : ∀ a ∈ addresses pcre env w, Bound env fuel w a.object := by
    intro a ha
    by_cases hn : a.object.val "DNAME" = []
    · exact Or.inl hn
    · obtain ⟨dev,hd,-⟩ := h.bound a ha hn
      exact Or.inr (by simp [hd])
  refine ⟨_,policyAdmin_rules pcre env fuel h.ready hb,?_⟩
  -- a line is written for every address in front that grants something
  have line : ∀ a, First (addresses pcre env w) a → Grants env fuel c a →
      InHalf conv wide (a.object.val "__DATA_TYPE") a.text →
      ∃ src, (⟨a,c.service,src⟩ : Written) ∈ written pcre env w := by
    intro a hf hg hh
    obtain ⟨s,hs,-⟩ := hg.source
    have hsn : source (a.object.val "__DATA_TYPE") a.text ≠ none := by simp [hs]
    obtain ⟨src,hsrc⟩ := Option.ne_none_iff_exists'.mp ((aclSource_iff hi hf.mem.2 hsn).mpr hh)
    obtain ⟨ρ,hρ,-⟩ := c.dport_mem
    have hp : port w c.service ≠ [] := fun he => (range_isWord hρ).ne he
    exact ⟨src,(mem_written pcre env).mpr ⟨hf,c.service_mem,hp,hg.service,hsrc⟩⟩
  by_cases he : (Registry.entries "system" "acl.cfg" w).isEmpty = true
  · rw [if_pos he]
    have ha : addresses pcre env w = [] := by
      rw [addresses_eq,OrdMap.isEmpty_iff.mp he]
      rfl
    rw [ha]
    constructor
    · rintro ⟨s,rs,hs,-⟩
      simp at hs
    · rintro ⟨-,a,hf,-⟩
      exact absurd hf.mem.1 (by simp)
  · rw [if_neg he,dropLine_eq,← List.flatMap_append]
    dsimp only
    by_cases hl : aclLines pcre env fuel w ++ dropLines w = []
    · rw [hl]
      constructor
      · rintro ⟨s,rs,hs,-⟩
        simp at hs
      · rintro ⟨-,a,hf,hg,hh⟩
        obtain ⟨src,hq⟩ := line a hf hg hh
        rw [aclLines_eq,List.append_eq_nil_iff,List.map_eq_nil_iff] at hl
        rw [hl.1] at hq
        simp at hq
    · have hok := lines_ok h
      have hn : trim ((aclLines pcre env fuel w ++ dropLines w).flatMap (· ++ ['\n'])) ≠ [] := by
        rw [trim_lines hl hok]
        intro hi
        obtain ⟨l,ls,hls⟩ := List.exists_cons_of_ne_nil hl
        rw [hls] at hi
        have hne := (hok l (by rw [hls]; simp)).ne
        cases ls with
        | nil => exact hne (by simpa [List.intercalate] using hi)
        | cons m ls =>
          rw [List.intercalate_cons_cons] at hi
          simp at hi
      rw [if_neg (by simpa using hn)]
      unfold Accepted
      have hverdict : ∀ rs, policyData (("*filter\n-F ADMIN\n" : Str) ++
          trim ((aclLines pcre env fuel w ++ dropLines w).flatMap (· ++ ['\n'])) ++ ("\nCOMMIT\n" : Str)) = some rs →
          (verdict types "ADMIN" rs c.frame = some ("CONFIRMED" : Str) ↔
            ∃ a, First (addresses pcre env w) a ∧ Grants env fuel c a ∧
              InHalf conv wide (a.object.val "__DATA_TYPE") a.text) := by
        intro rs hrs
        rw [policyData_lines hl hok,rules_loaded h] at hrs
        obtain ⟨hread,rfl⟩ := hrs
        have hrule := ((readable_iff h).mp hread).1
        rw [verdict_append (fun r hr => ?_) fun r hr => ?_]
        · constructor
          · rintro ⟨r,hr,hm⟩
            obtain ⟨q,hq,hqr⟩ := List.mem_filterMap.mp hr
            obtain ⟨hf,-,-,-,hs⟩ := (mem_written pcre env).mp hq
            have hg := ((rule_matches h types c hq hqr).2.2.mp hm).2
            obtain ⟨s,hsrc,-⟩ := hg.source
            have hsn : source (q.address.object.val "__DATA_TYPE") q.address.text ≠ none := by simp [hsrc]
            exact ⟨q.address,hf,hg,(aclSource_iff hi hf.mem.2 hsn).mp (by simp [hs])⟩
          · rintro ⟨a,hf,hg,hh⟩
            obtain ⟨src,hq⟩ := line a hf hg hh
            obtain ⟨r,hr⟩ := Option.ne_none_iff_exists'.mp (hrule _ hq)
            exact ⟨r,List.mem_filterMap.mpr ⟨_,hq,hr⟩,(rule_matches h types c hq hr).2.2.mpr ⟨rfl,hg⟩⟩
        · obtain ⟨q,hq,hqr⟩ := List.mem_filterMap.mp hr
          obtain ⟨hch,htg,-⟩ := rule_matches h types c hq hqr
          exact ⟨hch,htg⟩
        · obtain ⟨-,-,hr⟩ := List.mem_filterMap.mp hr
          obtain ⟨rs',-,rfl⟩ := Option.map_eq_some_iff.mp hr
          dsimp only [dropTarget]
          split <;> decide
      constructor
      · rintro ⟨s,rs,hs,hrs,hv⟩
        obtain rfl := Option.some_inj.mp hs
        have hread := hrs
        rw [policyData_lines hl hok,rules_loaded h] at hread
        exact ⟨hread.1,(hverdict rs hrs).mp hv⟩
      · rintro ⟨hread,ha⟩
        have hrs := (rules_loaded h _).mpr ⟨hread,rfl⟩
        rw [← policyData_lines hl hok] at hrs
        exact ⟨_,_,rfl,hrs,(hverdict _ hrs).mpr ha⟩

/-- The rules decide as the access list says exactly when what is permitted is so by an address that is the first with
its text, and no range over both halves, and the rules can be read. -/
theorem admin_exact_iff {conv : Ipcalc.Ip2long} {wide : Bool} (hl : env.ip2long = conv.long wide)
    (h : Configured pcre env fuel w) (types : Types) (c : Connection w) :
    ∃ data, policyAdmin pcre env fuel w = some data ∧
      ((Accepted types data c ↔ Permitted pcre env fuel c) ↔
        (Permitted pcre env fuel c → Readable pcre env fuel w ∧
          ∃ a, First (addresses pcre env w) a ∧ Grants env fuel c a ∧
            InHalf conv wide (a.object.val "__DATA_TYPE") a.text)) := by
  obtain ⟨data,hd,ha⟩ := accepted_iff hl h types c
  refine ⟨data,hd,?_⟩
  rw [ha]
  constructor
  · exact fun hi => hi.mpr
  · exact fun hp => ⟨fun hr => hr.2.imp fun a hf => ⟨hf.1.mem.1,hf.2.1⟩,hp⟩

def deskEnv : Env := { noonEnv with ip2long := Ipcalc.Ip2long.dotted.long true }

/-- A host and a group it is in, under two entries. -/
def staffWorld (acl : String) : World := World.ofFiles [("system","acl.cfg",acl),
  ("system","system.cfg","ID=service_http\nPORT=80\nID=service_ssh\nPORT=22\n"),
  ("definitions","network_host.cfg","ID=h1\nNAME=desk\nADDR=10.0.0.5\n"),
  ("definitions","network_group.cfg","ID=g1\nNAME=staff\nADDR=desk\n")]

def bothServices : World := staffWorld "ID=a1\nHOST=desk\nSTAT=1\nTYPE=web,ssh\nID=a2\nHOST=staff\nSTAT=1\nTYPE=ssh\n"

def splitServices : World := staffWorld "ID=a1\nHOST=desk\nSTAT=1\nTYPE=web\nID=a2\nHOST=staff\nSTAT=1\nTYPE=ssh\n"

theorem configured_of {acl : String}
    (h : (orphans (ethEntries (staffWorld acl)) (aliasEntries (staffWorld acl)) = [] ∧
      ∀ e ∈ (Registry.entries "system" "acl.cfg" (staffWorld acl)).entries, e.2.val "NAME" = []) ∧
    (∀ a ∈ addresses Pcre.plain deskEnv (staffWorld acl),
      (a.text ≠ [] → PlainWord a.text) ∧ a.object.val "DNAME" = []) ∧
    ∀ x ∈ services, (port (staffWorld acl) x ≠ [] → PlainWord (port (staffWorld acl) x)) ∧
      ∀ y ∈ services, ∀ r ∈ PacketFilter.range (port (staffWorld acl) x),
        ∀ s ∈ PacketFilter.range (port (staffWorld acl) y), x = y ∨ r.hi < s.lo ∨ s.hi < r.lo) :
    Configured Pcre.plain deskEnv 1 (staffWorld acl) where
  ready := by
    obtain ⟨hp,-⟩ := h
    refine ⟨fun _ _ _ => Or.inl rfl,hp.1,fun i => ?_⟩
    rw [nameIn,OrdMap.getD]
    cases hg : (Registry.entries "system" "acl.cfg" (staffWorld acl)).get? i with
    | none => rfl
    | some p => exact hp.2 (i,p) (OrdMap.get?_eq_some.mp hg)
  texts a ha := (h.2.1 a ha).1
  ports x hx := (h.2.2 x hx).1
  disjoint x hx y hy r s h₁ h₂ n hrn hsn := by
    simp only [PacketFilter.Range.has,Bool.and_eq_true,decide_eq_true_eq] at hrn hsn
    rcases (h.2.2 x hx).2 y hy r h₁ s h₂ with h | h | h
    · exact h
    · omega
    · omega
  bound a ha hn := absurd (h.2.1 a ha).2 hn

theorem bothServices_configured : Configured Pcre.plain deskEnv 1 bothServices := by
  refine configured_of ?_
  decide +kernel

theorem splitServices_configured : Configured Pcre.plain deskEnv 1 splitServices := by
  refine configured_of ?_
  decide +kernel

def deskSsh (acl : String) (h : ∃ r, PacketFilter.range (port (staffWorld acl) "ssh") = some r ∧ r.has 22 = true) :
    Connection (staffWorld acl) where
  service := "ssh"
  src := 0x0a000005
  dst := 0x0a000001
  mac := [0,0,0,0,0,1]
  device := "eth0"
  sport := 40000
  dport := 22
  service_mem := by decide
  sport_mem := by decide
  dport_mem := h

def bothSsh : Connection bothServices := deskSsh _ ⟨⟨22,22⟩,by decide,by decide⟩

def splitSsh : Connection splitServices := deskSsh _ ⟨⟨22,22⟩,by decide,by decide⟩

theorem admin_exact_iff_desk : ∃ data, policyAdmin Pcre.plain deskEnv 1 bothServices = some data ∧
    ((Accepted (fun _ _ _ => false) data bothSsh ↔ Permitted Pcre.plain deskEnv 1 bothSsh) ↔
      (Permitted Pcre.plain deskEnv 1 bothSsh → Readable Pcre.plain deskEnv 1 bothServices ∧
        ∃ a, First (addresses Pcre.plain deskEnv bothServices) a ∧ Grants deskEnv 1 bothSsh a ∧
          InHalf .dotted true (a.object.val "__DATA_TYPE") a.text)) :=
  admin_exact_iff rfl bothServices_configured _ bothSsh

/-- The host is let in to the web server, so its address is not written again for the group. -/
theorem group_shut_out : ¬ ∀ (w : World) (fuel : Nat) (types : Types) (c : Connection w) (data : Option Str),
    policyAdmin Pcre.plain deskEnv fuel w = some data →
      (Accepted types data c ↔ Permitted Pcre.plain deskEnv fuel c) := by
  intro h
  obtain ⟨data,hd,ha⟩ := @accepted_iff _ _ _ _ .dotted true rfl splitServices_configured (fun _ _ _ => false) splitSsh
  have hg : ∃ a ∈ addresses Pcre.plain deskEnv splitServices, splitSsh.service <:+: a.entry.val "TYPE" ∧
      source (a.object.val "__DATA_TYPE") a.text = some (.net ⟨0x0a000005,32⟩) ∧ a.object.val "DNAME" = [] := by
    decide +kernel
  have hp : Permitted Pcre.plain deskEnv 1 splitSsh := by
    obtain ⟨a,hm,ht,hs,hn⟩ := hg
    exact ⟨a,hm,ht,⟨_,hs,by decide⟩,Or.inl hn⟩
  obtain ⟨-,a,hf,hx,-⟩ := ha.mp ((h splitServices 1 _ splitSsh data hd).mpr hp)
  have hl : ∀ a ∈ leads [] (addresses Pcre.plain deskEnv splitServices), ¬ splitSsh.service <:+: a.entry.val "TYPE" := by
    decide
  exact hl a (mem_leads.mpr ⟨by simp,hf⟩) hx.service

end AdminAccess
end Mybox
