import Mybox.ResourceIds

/-! The commands of the DNS entries: the static hosts and the request routing of the name server. -/
namespace Mybox
namespace DnsCommands

open Php RegistryFormat Registry
open Interfaces (Ipv6 checkIp dataOf)
open ResourceIds (arrayFind)
open Definitions (arg)

def strOnoff (opt : Str) : Str :=
  let ca := lower opt
  if looseEq ca "0" then "OFF"
  else if looseEq ca "1" then "ON"
  else if looseEq ca "on" then "1"
  else if looseEq ca "off" then "0"
  else if looseEq ca "enable" then "1"
  else if looseEq ca "disable" then "0"
  else opt

theorem strOnoff_line {opt : Str} (h : '\n' ∉ opt) : '\n' ∉ strOnoff opt := by
  unfold strOnoff
  dsimp only
  split_ifs
  all_goals first
    | exact h
    | decide

/-- `[A-Za-z_\.0-9\-]` -/
def domainChar (c : Char) : Bool := ('A' ≤ c && c ≤ 'Z') || ('a' ≤ c && c ≤ 'z') || digit c || c ∈ ("_.-" : Str)

/-- `_CHECK_DOMAIN_VAR`: the second pattern is not bound to the ends of the text. -/
def checkDomainVar (domain : Str) : Bool :=
  !(domain.head?.any fun c => c ∈ ("._-" : Str)) && domain.any domainChar

/-- A number on the screen and the entry beside it. -/
structure Row where
  cnt : ℕ
  id : Str
  data : Params
  deriving DecidableEq

/-- The rows on the screen, and `$_obj`, which the print leaves in a file. -/
structure Listing where
  cnt : ℕ
  obj : OrdMap ℕ Str
  rows : List Row
  deriving DecidableEq

def Listing.put (l : Listing) (id : Str) (data : Params) : Listing :=
  ⟨l.cnt + 1,l.obj.set l.cnt id,l.rows ++ [⟨l.cnt,id,data⟩]⟩

/-- The loop of a print; `display` is what it shows of an entry, if it shows it. -/
def listEntries (display : Params → Option Params) (t : Token) : Listing :=
  t.entries.foldl (fun l e => match display e.2 with
    | some d => l.put e.1 d
    | none => l) ⟨1,∅,[]⟩

variable (v6 : Ipv6) (env : Env)

def printFile (display : Params → Option Params) (fil : Str) (w : World) : Option Listing × World :=
  let g := iniTokenGet env "network" fil ∅ w
  let l := listEntries display g.1
  (if l.obj.isEmpty || !env.cache then none else some l,g.2)

/-- `if(_NULL($_DATA['STAT'])) $_DATA['STAT']=0;`, and the word for it. -/
def withStat (d : Params) : Params := d.set "STAT" (strOnoff (if null (d.val "STAT") then ['0'] else d.val "STAT"))

def staticDisplay (find : Str) (d : Params) : Option Params :=
  if null (d.val "HOSTNAME") || null (d.val "ADDR") then none
  else if !null find && !arrayFind find (withStat d) then none
  else some (withStat d)

def dnsStaticPrint (find : Str) (w : World) : Option Listing × World :=
  printFile env (staticDisplay find) "named_static.cfg" w

/-- The addresses a routing is searched by; `addr` gives the address of a host by its name. -/
def withFind (addr : Str → Str) (d : Params) : Params :=
  let hosts := ((split ',' (d.val "FORWARDER")).map trim).filter fun h => !null h
  let found := hosts.foldl (fun s h => s ++ ((if null (addr h) then ("unresolved" : Str) else addr h) ++ [','])) (d.val "FIND")
  if null found then d else d.set "FIND" (trimWith (",") found)

def routingDisplay (addr : Str → Str) (find : Str) (d : Params) : Option Params :=
  if null (d.val "DOMAIN") || null (d.val "FORWARDER") then none
  else if !null find && !arrayFind find (withFind addr (withStat d)) then none
  else some (withStat d)

def dnsRoutingPrint (addr : Str → Str) (find : Str) (w : World) : Option Listing × World :=
  printFile env (routingDisplay addr find) "named_routing.cfg" w

/-- `$_obj[$_no]` of a number that is typed in. -/
def objAt (obj : OrdMap ℕ Str) (no : Str) : Option Str :=
  obj.entries.findSome? fun e => if decimal e.1 = no then some e.2 else none

def dnsStaticAdd (args : List Str) (w : World) : Option (Ret × World) :=
  if args = [] || !checkDomainVar (arg args 0) then some (.fail,w)
  else
    let c := iniTokenCheck env "network" "named_static.cfg" "HOSTNAME" (arg args 0) w
    if !c.1 || !checkIp v6 (arg args 1) then some (.fail,c.2)
    else iniTokenSave env "network" "named_static.cfg" (dataOf [("HOSTNAME",arg args 0),("ADDR",arg args 1),
      ("STAT",strOnoff (arg args 2)),("NOTE",arg args 3)]) c.2

/-- `___CLI_DNS_ROUTING_ADD`; `list` has the names of the hosts the resource IDs stand for. -/
def dnsRoutingAdd (list : Str) (args : List Str) (w : World) : Option (Ret × World) :=
  if args = [] || null list || !checkDomainVar (arg args 0) then some (.fail,w)
  else
    let c := iniTokenCheck env "network" "named_routing.cfg" "DOMAIN" (arg args 0) w
    if !c.1 then some (.fail,c.2)
    else iniTokenSave env "network" "named_routing.cfg" (dataOf [("DOMAIN",arg args 0),("FORWARDER",list),
      ("STAT",strOnoff (arg args 2)),("NOTE",arg args 3)]) c.2

def staticData (param value : Str) : Option Params :=
  if looseEq param "hostname" then if checkDomainVar value then some (dataOf [("HOSTNAME",value)]) else none
  else if looseEq param "address" then if checkIp v6 value then some (dataOf [("ADDR",value)]) else none
  else if looseEq param "enable" then some (dataOf [("STAT",strOnoff value)])
  else if looseEq param "description" then some (dataOf [("NOTE",value)])
  else none

def routingData (list param value : Str) : Option Params :=
  if looseEq param "domain" then if checkDomainVar value then some (dataOf [("DOMAIN",value)]) else none
  else if looseEq param "servers" then if null list then none else some (dataOf [("FORWARDER",list)])
  else if looseEq param "enable" then some (dataOf [("STAT",strOnoff value)])
  else if looseEq param "description" then some (dataOf [("NOTE",value)])
  else none

def setEntry (fil id : Str) (data : Option Params) (w : World) : Ret × World :=
  match data with
  | none => (.fail,w)
  | some d => iniTokenUpdate env "network" fil id d w

/-- The number stands in `$_obj`, but the entry that is written is the one with the number as its ID. -/
def setNumber (fil : Str) (obj : OrdMap ℕ Str) (id : Str) (data : Option Params) (w : World) : Ret × World :=
  if (objAt obj id).all null then (.fail,w) else setEntry env fil id data w

def dnsStaticSet (obj : OrdMap ℕ Str) (param id value : Str) (w : World) : Ret × World :=
  setNumber env "named_static.cfg" obj id (staticData v6 param value) w

/-- `___CLI_DNS_ROUTING_SET`; `list` has the names of the hosts the resource IDs stand for. -/
def dnsRoutingSet (obj : OrdMap ℕ Str) (list param id value : Str) (w : World) : Ret × World :=
  setNumber env "named_routing.cfg" obj id (routingData list param value) w

/-- The rows are numbered from one on, and their IDs are kept under the numbers. -/
structure Listing.Kept (l : Listing) : Prop where
  below : ∀ k ∈ l.obj.keys, k < l.cnt
  rows : ∀ r ∈ l.rows, l.obj.get? r.cnt = some r.id
  keys : ∀ k i, l.obj.get? k = some i → ∃ r ∈ l.rows, r.cnt = k ∧ r.id = i

theorem Listing.Kept.put {l : Listing} (h : l.Kept) (id : Str) (data : Params) : (l.put id data).Kept where
  below k hk := by
    rcases (OrdMap.mem_keys_set _ _).mp hk with hk | rfl
    · exact (h.below k hk).trans (Nat.lt_succ_self _)
    · exact Nat.lt_succ_self _
  rows r hr := by
    rcases List.mem_append.mp hr with hr | hr
    · have hk := h.rows r hr
      have hlt := h.below r.cnt (by
        by_contra hn
        rw [OrdMap.get?_eq_none.mpr hn] at hk
        simp at hk)
      rw [Listing.put,OrdMap.get?_set_ne _ _ (Nat.ne_of_gt hlt)]
      exact hk
    · rw [List.mem_singleton.mp hr]
      exact OrdMap.get?_set_self _ _ _
  keys k i hk := by
    rw [Listing.put,OrdMap.get?_set] at hk
    split at hk
    · rename_i he
      exact ⟨⟨l.cnt,id,data⟩,by simp [Listing.put],he,Option.some.inj hk⟩
    · obtain ⟨r,hr,hc⟩ := h.keys k i hk
      exact ⟨r,by simp [Listing.put,hr],hc⟩

/-- What the rows show of the entries. -/
theorem listEntries_spec (display : Params → Option Params) (t : Token) : (listEntries display t).Kept ∧
    ∀ r ∈ (listEntries display t).rows, ∃ p, t.get? r.id = some p ∧ display p = some r.data := by
  have key : ∀ (es : List (Str × Params)) (l : Listing), l.Kept → (∀ e ∈ es, t.get? e.1 = some e.2) →
      (∀ r ∈ l.rows, ∃ p, t.get? r.id = some p ∧ display p = some r.data) →
      let l' := es.foldl (fun l e => match display e.2 with
        | some d => l.put e.1 d
        | none => l) l
      l'.Kept ∧ ∀ r ∈ l'.rows, ∃ p, t.get? r.id = some p ∧ display p = some r.data := by
    intro es
    induction es with
    | nil => exact fun l hl _ hr => ⟨hl,hr⟩
    | cons e es ih =>
      intro l hl he hr
      rw [List.foldl_cons]
      cases hd : display e.2 with
      | none => exact ih l hl (fun f hf => he f (by simp [hf])) hr
      | some d =>
        refine ih _ (hl.put e.1 d) (fun f hf => he f (by simp [hf])) fun r hm => ?_
        rcases List.mem_append.mp hm with hm | hm
        · exact hr r hm
        · rw [List.mem_singleton.mp hm]
          exact ⟨e.2,he e (by simp),hd⟩
  refine key t.entries ⟨1,∅,[]⟩ ⟨fun k hk => by simp [OrdMap.keys] at hk,by simp,fun k i hk => by simp at hk⟩ ?_ (by simp)
  exact fun e he => OrdMap.get?_eq_some.mpr he

theorem objAt_decimal (obj : OrdMap ℕ Str) (n : ℕ) : objAt obj (decimal n) = obj.get? n := by
  have hf : ∀ e : ℕ × Str, e.1 ≠ n → (if decimal e.1 = decimal n then some e.2 else none) = none :=
    fun e he => if_neg fun h => he (Php.decimal_injective h)
  rw [objAt,OrdMap.findSome?_entries obj hf]
  simp

theorem printFile_spec {display : Params → Option Params} {fil : Str} {w : World} {l : Listing}
    (hc : Coherent "network" fil w) (h : (printFile env display fil w).1 = some l) :
    l.Kept ∧ ∀ r ∈ l.rows, objAt l.obj (decimal r.cnt) = some r.id ∧
      ∃ p, (entries "network" fil w).get? r.id = some p ∧ display p = some r.data := by
  unfold printFile at h
  dsimp only at h
  split at h
  · simp at h
  · obtain ⟨hk,hr⟩ := listEntries_spec display (iniTokenGet env "network" fil ∅ w).1
    rw [Option.some.inj h] at hk hr
    rw [iniTokenGet_fst env _ _ hc] at hr
    exact ⟨hk,fun r hm => ⟨(objAt_decimal _ _).trans (hk.rows r hm),hr r hm⟩⟩

end DnsCommands
end Mybox
