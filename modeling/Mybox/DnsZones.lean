import Mybox.DnsCommands
import Mybox.KeptFiles

/-! The zones of the name server's configuration: three that are always there, one for each routing and one for each
static host; and when the commands keep their names apart. -/
namespace Mybox
namespace DnsZones

open Php RegistryFormat Registry References DnsCommands
open Interfaces (Ipv6 checkIp dataOf)
open Definitions (arg)

/-- What stands behind the name of a zone. -/
inductive ZoneKind
  | hint (file : Str)
  | master (file : Str)
  | forward (forwarders : Str)
  deriving DecidableEq

structure Zone where
  name : Str
  kind : ZoneKind
  deriving DecidableEq

def Zone.text (z : Zone) : Str :=
  ("zone \"" : Str) ++ z.name ++ ("\" IN \x7b" : Str) ++ (match z.kind with
    | .hint file => ("type hint;\nfile \"" : Str) ++ file ++ ("\";\n" : Str)
    | .master file => ("type master;\nfile \"" : Str) ++ file ++
        ("\";\ncheck-names fail;\nallow-update \x7b none; \x7d;\n" : Str)
    | .forward list => ("\ntype forward;\nforwarders \x7b " : Str) ++ list ++ (" \x7d;\ncheck-names fail;\n" : Str)) ++
    ("\x7d;\n" : Str)

def builtinZones : List Zone := [⟨".",.hint "root.hint"⟩,⟨"localhost",.master "localhost.zone"⟩,
  ⟨"0.0.127.in-addr.arpa",.master "127.0.0.zone"⟩]

/-- What the machine says: the objects of the networks by their names, and whether the file of a zone is saved. -/
structure Server where
  v6 : Ipv6
  lookup : Str → List Params
  saved : Str → Bool

variable (srv : Server)

def nameGetAddress (host : Str) : Str :=
  (srv.lookup host).flatMap fun d =>
    if null (d.val "ADDR") || null (d.val "__DATA_TYPE") then []
    else if !looseEq (d.val "__DATA_TYPE") "host" then [] else d.val "ADDR" ++ [';']

def off (d : Params) : Bool := null (d.val "STAT") || looseZero (d.val "STAT")

/-- One turn of the loop of `_name_config_routing`. -/
def routingZone (d : Params) : Option Zone :=
  if null (d.val "DOMAIN") || null (d.val "FORWARDER") || off d then none
  else
    let list := (((split ',' (d.val "FORWARDER")).map trim).filter fun s => !null s).flatMap (nameGetAddress srv)
    if null list then none else some ⟨d.val "DOMAIN",.forward list⟩

/-- One turn of the loop of `_name_config_static`. -/
def staticZone (d : Params) : Option Zone :=
  if null (d.val "HOSTNAME") || null (d.val "ADDR") || off d || !checkIp srv.v6 (d.val "ADDR") then none
  else if srv.saved (d.val "HOSTNAME") then
    some ⟨d.val "HOSTNAME",.master (("static/" : Str) ++ d.val "HOSTNAME" ++ (".zone" : Str))⟩
  else none

/-- The files the entries are in. -/
inductive File
  | routing
  | static
  deriving DecidableEq

def File.name : File → Str
  | routing => "named_routing.cfg"
  | static => "named_static.cfg"

def File.other : File → File
  | routing => static
  | static => routing

def dnsFiles : List Str := [File.routing.name,File.static.name]

def File.zone : File → Params → Option Zone
  | routing => routingZone srv
  | static => staticZone srv

def zonesOf (f : File) (t : Token) : List Zone := t.entries.filterMap fun e => f.zone srv e.2

/-- `if($_DATA['STAT']==1)` -/
def serving (w : World) : Bool :=
  looseOne (((entries "network" "named.cfg" w).getD "named" ∅).val "STAT")

/-- The zones `name_config` declares. -/
def nameConfig (w : World) : List Zone :=
  builtinZones ++ if serving w then
    zonesOf srv .routing (entries "network" File.routing.name w) ++ zonesOf srv .static (entries "network" File.static.name w)
  else []

inductive Command
  | addStatic (args : List Str)
  | addRouting (list : Str) (args : List Str)
  | setStatic (obj : OrdMap ℕ Str) (param id value : Str)
  | setRouting (obj : OrdMap ℕ Str) (list param id value : Str)

def Command.run (env : Env) : Command → World → Option (Ret × World)
  | addStatic args, w => dnsStaticAdd srv.v6 env args w
  | addRouting list args, w => dnsRoutingAdd env list args w
  | setStatic obj param id value, w => some (dnsStaticSet srv.v6 env obj param id value w)
  | setRouting obj list param id value, w => some (dnsRoutingSet env obj list param id value w)

/-- A command is one line, and so are the names of the hosts. -/
def Command.Typed : Command → Prop
  | addStatic args => ∀ a ∈ args, '\n' ∉ a
  | addRouting list args => '\n' ∉ list ∧ ∀ a ∈ args, '\n' ∉ a
  | setStatic _ _ _ value => '\n' ∉ value
  | setRouting _ list _ _ value => '\n' ∉ list ∧ '\n' ∉ value

def Command.file : Command → File
  | addStatic _ => .static
  | addRouting _ _ => .routing
  | setStatic _ _ _ _ => .static
  | setRouting _ _ _ _ _ => .routing

def Command.own : Command → Option Str
  | addStatic _ => none
  | addRouting _ _ => none
  | setStatic _ _ id _ => some id
  | setRouting _ _ _ id _ => some id

def Command.data : Command → Params
  | addStatic args => dataOf [("HOSTNAME",arg args 0),("ADDR",arg args 1),("STAT",strOnoff (arg args 2)),("NOTE",arg args 3)]
  | addRouting list args => dataOf [("DOMAIN",arg args 0),("FORWARDER",list),("STAT",strOnoff (arg args 2)),
      ("NOTE",arg args 3)]
  | setStatic _ param _ value => (staticData srv.v6 param value).getD ∅
  | setRouting _ list param _ value => (routingData list param value).getD ∅

def Command.old (c : Command) (w : World) : Params :=
  match c.own with
  | some id => (entries "network" c.file.name w).getD id ∅
  | none => ∅

/-- The entry a command leaves, with its values as they are read back. -/
def Command.leaves (c : Command) (w : World) : Params := (c.old w).setAll (carriedParams (c.data srv)).entries

def otherZones (c : Command) (w : World) : List Zone :=
  let t := entries "network" c.file.name w
  builtinZones ++ if serving w then
    zonesOf srv c.file (match c.own with
      | some id => t.erase id
      | none => t) ++ zonesOf srv c.file.other (entries "network" c.file.other.name w)
  else []

variable (same : Str → Str)

def names (zs : List Zone) : List Str := zs.map fun z => same z.name

def DeclaredOnce (w : World) : Prop := (names same (nameConfig srv w)).Nodup

/-- The zone of the entry that the command leaves, if it has one, is not a zone of another. -/
def Command.Apart (c : Command) (w : World) : Prop :=
  serving w = true → ∀ z ∈ c.file.zone srv (c.leaves srv w), same z.name ∉ names same (otherZones srv c w)

/-- An accepted command, and the registry before and after it. -/
structure Turn where
  env : Env
  command : Command
  before : World
  after : World

def zoneSystem : System World Turn where
  init w := KeptFiles dnsFiles w ∧ DeclaredOnce srv same w
  step w t v := t.before = w ∧ t.after = v ∧ t.command.Typed ∧ t.command.run srv t.env w = some (.ok,v)

structure Put (c : Command) (w v : World) : Prop where
  kept : KeptFiles dnsFiles v
  others : ∀ fil, c.file.name ≠ fil → entries "network" fil v = entries "network" fil w
  put : ∃ id p, (c.own = some id ∨ c.own = none ∧ (entries "network" c.file.name w).get? id = none) ∧
    entries "network" c.file.name v = (entries "network" c.file.name w).set id p ∧
    ∀ k, skipped k = false → p.val k = (c.leaves srv w).val k

theorem file_mem (f : File) : f.name ∈ dnsFiles := by
  cases f <;> decide

theorem put_of_written {c : Command} {w v : World} (h : Written dnsFiles c.file.name c.own (c.data srv) w v) :
    Put srv c w v := by
  obtain ⟨id,q,p,hown,he,hp⟩ := h.put
  have hold : c.old w = q := by
    rw [Command.old]
    rcases hown with ⟨ho,hq⟩ | ⟨ho,-,rfl⟩
    · rw [ho]
      dsimp only
      rw [OrdMap.getD,hq]
      rfl
    · rw [ho]
  refine ⟨h.kept,h.others,id,p,hown.imp And.left fun hn => ⟨hn.1,hn.2.1⟩,he,fun k hk => ?_⟩
  rw [hp k hk,Command.leaves,hold,← readBack_carried hk id]
  exact Interfaces.readBack_val _ hk

theorem save_put {env : Env} {c : Command} {w u v : World} (h : KeptFiles dnsFiles u) (hu : u.reg = w.reg)
    (hown : c.own = none) {es : List (Str × Str)} (hes : c.data srv = dataOf es) (hl : Definitions.Lines es)
    (hr : iniTokenSave env "network" c.file.name (dataOf es) u = some (.ok,v)) : Put srv c w v := by
  refine put_of_written srv ?_
  rw [hown,hes]
  exact (h.save_written (file_mem c.file) hl.newData hr).congr hu

theorem update_put {env : Env} {c : Command} {w v : World} (h : KeptFiles dnsFiles w) {id : Str} (hown : c.own = some id)
    (hd : WritableData (c.data srv))
    (hr : iniTokenUpdate env "network" c.file.name id (c.data srv) w = (.ok,v)) : Put srv c w v := by
  refine put_of_written srv ?_
  rw [hown]
  exact h.update_written env (file_mem c.file) hd hr

theorem setNumber_ok {env : Env} {fil id : Str} {obj : OrdMap ℕ Str} {data : Option Params} {w v : World}
    (h : setNumber env fil obj id data w = (.ok,v)) : ∃ d, data = some d ∧
      iniTokenUpdate env "network" fil id d w = (.ok,v) := by
  unfold setNumber setEntry at h
  split at h
  · simp at h
  · cases data with
    | none => simp at h
    | some d => exact ⟨d,rfl,h⟩

theorem line_one {k v : Str} (hk : KeyName k ∧ skipped k = false) (hv : '\n' ∉ v) : WritableData (dataOf [(k,v)]) :=
  (Definitions.Lines.cons hk hv .nil).newData.writable

theorem staticData_line {param value : Str} {d : Params} (hv : '\n' ∉ value)
    (h : staticData srv.v6 param value = some d) : WritableData d := by
  unfold staticData at h
  split_ifs at h
  · obtain rfl := Option.some.inj h
    exact line_one (by decide) hv
  · obtain rfl := Option.some.inj h
    exact line_one (by decide) hv
  · obtain rfl := Option.some.inj h
    exact line_one (by decide) (strOnoff_line hv)
  · obtain rfl := Option.some.inj h
    exact line_one (by decide) hv

theorem routingData_line {list param value : Str} {d : Params} (hl : '\n' ∉ list) (hv : '\n' ∉ value)
    (h : routingData list param value = some d) : WritableData d := by
  unfold routingData at h
  split_ifs at h
  · obtain rfl := Option.some.inj h
    exact line_one (by decide) hv
  · obtain rfl := Option.some.inj h
    exact line_one (by decide) hl
  · obtain rfl := Option.some.inj h
    exact line_one (by decide) (strOnoff_line hv)
  · obtain rfl := Option.some.inj h
    exact line_one (by decide) hv

theorem run_put {env : Env} {c : Command} {w v : World} (h : KeptFiles dnsFiles w) (ht : c.Typed)
    (hr : c.run srv env w = some (.ok,v)) : Put srv c w v := by
  cases c with
  | addStatic args =>
    have hl : Definitions.Lines [("HOSTNAME",arg args 0),("ADDR",arg args 1),("STAT",strOnoff (arg args 2)),
        ("NOTE",arg args 3)] :=
      .cons (by decide) (Definitions.line_arg ht 0) (.cons (by decide) (Definitions.line_arg ht 1)
        (.cons (by decide) (strOnoff_line (Definitions.line_arg ht 2)) (.cons (by decide) (Definitions.line_arg ht 3) .nil)))
    change dnsStaticAdd srv.v6 env args w = _ at hr
    unfold dnsStaticAdd at hr
    dsimp only at hr
    split at hr
    · simp at hr
    · split at hr
      · simp at hr
      · exact save_put srv (c:=.addStatic args) (h.check _ _ _) (iniTokenCheck_reg _ _ _ _ _ _) rfl rfl hl hr
  | addRouting list args =>
    have hl : Definitions.Lines [("DOMAIN",arg args 0),("FORWARDER",list),("STAT",strOnoff (arg args 2)),
        ("NOTE",arg args 3)] :=
      .cons (by decide) (Definitions.line_arg ht.2 0) (.cons (by decide) ht.1
        (.cons (by decide) (strOnoff_line (Definitions.line_arg ht.2 2))
          (.cons (by decide) (Definitions.line_arg ht.2 3) .nil)))
    change dnsRoutingAdd env list args w = _ at hr
    unfold dnsRoutingAdd at hr
    dsimp only at hr
    split at hr
    · simp at hr
    · split at hr
      · simp at hr
      · exact save_put srv (c:=.addRouting list args) (h.check _ _ _) (iniTokenCheck_reg _ _ _ _ _ _) rfl rfl hl hr
  | setStatic obj param id value =>
    obtain ⟨d,hd,hu⟩ := setNumber_ok (Option.some.inj hr)
    have he : (Command.setStatic obj param id value).data srv = d := by rw [Command.data,hd]; rfl
    exact update_put srv (c:=.setStatic obj param id value) h rfl (by rw [he]; exact staticData_line srv ht hd)
      (by rw [he]; exact hu)
  | setRouting obj list param id value =>
    obtain ⟨d,hd,hu⟩ := setNumber_ok (Option.some.inj hr)
    have he : (Command.setRouting obj list param id value).data srv = d := by rw [Command.data,hd]; rfl
    exact update_put srv (c:=.setRouting obj list param id value) h rfl (by rw [he]; exact routingData_line ht.1 ht.2 hd)
      (by rw [he]; exact hu)

theorem zone_congr (f : File) {p q : Params} (h : ∀ k, skipped k = false → p.val k = q.val k) :
    f.zone srv p = f.zone srv q := by
  cases f with
  | routing =>
    have h₁ := h "DOMAIN" (by decide)
    have h₂ := h "FORWARDER" (by decide)
    have h₃ := h "STAT" (by decide)
    change routingZone srv p = routingZone srv q
    unfold routingZone off
    rw [h₁,h₂,h₃]
  | static =>
    have h₁ := h "HOSTNAME" (by decide)
    have h₂ := h "ADDR" (by decide)
    have h₃ := h "STAT" (by decide)
    change staticZone srv p = staticZone srv q
    unfold staticZone off
    rw [h₁,h₂,h₃]

theorem zonesOf_set (f : File) (t : Token) (id : Str) (p : Params) :
    (zonesOf srv f (t.set id p)).Perm ((f.zone srv p).toList ++ zonesOf srv f (t.erase id)) := by
  refine ((OrdMap.perm_set t id p).filterMap _).trans ?_
  rw [List.filterMap_cons]
  cases f.zone srv p <;> exact List.Perm.refl _

theorem zonesOf_erase_sublist (f : File) (t : Token) (id : Str) :
    (zonesOf srv f (t.erase id)).Sublist (zonesOf srv f t) := List.filter_sublist.filterMap _

theorem nameConfig_perm (f : File) (w : World) : (nameConfig srv w).Perm (builtinZones ++ if serving w then
    zonesOf srv f (entries "network" f.name w) ++ zonesOf srv f.other (entries "network" f.other.name w) else []) := by
  unfold nameConfig
  cases f with
  | routing => exact List.Perm.refl _
  | static =>
    refine List.Perm.append_left _ ?_
    split
    · exact List.perm_append_comm
    · exact List.Perm.refl _

theorem otherZones_sublist (c : Command) (w : World) : (otherZones srv c w).Sublist (builtinZones ++ if serving w then
    zonesOf srv c.file (entries "network" c.file.name w) ++
      zonesOf srv c.file.other (entries "network" c.file.other.name w) else []) := by
  unfold otherZones
  refine List.Sublist.append_left ?_ _
  split
  · refine List.Sublist.append_right ?_ _
    cases c.own with
    | none => exact List.Sublist.refl _
    | some id => exact zonesOf_erase_sublist srv c.file _ id
  · exact List.Sublist.refl _

/-- The zones after a command are those of the other entries and the one of the entry it leaves. -/
theorem Put.zones {c : Command} {w v : World} (h : Put srv c w v) : (nameConfig srv v).Perm
    ((if serving w then (c.file.zone srv (c.leaves srv w)).toList else []) ++ otherZones srv c w) := by
  obtain ⟨id,p,hid,he,hp⟩ := h.put
  have hserve : serving v = serving w := by
    have hne : c.file.name ≠ "named.cfg" := by cases c.file <;> decide
    rw [serving,serving,h.others _ hne]
  have hother : c.file.name ≠ c.file.other.name := by cases c.file <;> decide
  have htoken : zonesOf srv c.file ((entries "network" c.file.name w).erase id) =
      zonesOf srv c.file (match c.own with
        | some id => (entries "network" c.file.name w).erase id
        | none => entries "network" c.file.name w) := by
    rcases hid with ho | ⟨ho,hn⟩
    · rw [ho]
    · rw [ho,OrdMap.erase_of_none hn]
  refine (nameConfig_perm srv c.file v).trans ?_
  rw [hserve,he,h.others _ hother,← zone_congr srv c.file hp]
  unfold otherZones
  split
  · have hset := zonesOf_set srv c.file (entries "network" c.file.name w) id p
    rw [htoken] at hset
    have hcat := hset.append_right (zonesOf srv c.file.other (entries "network" c.file.other.name w))
    rw [List.append_assoc] at hcat
    refine (hcat.append_left builtinZones).trans ?_
    dsimp only
    simp only [← List.append_assoc]
    exact (List.perm_append_comm.append_right _).append_right _
  · exact List.Perm.refl _

/-- A command keeps the zones apart when the one it leaves is apart from the others. -/
theorem Put.once_iff {c : Command} {w v : World} (h : Put srv c w v) (hw : DeclaredOnce srv same w) :
    DeclaredOnce srv same v ↔ c.Apart srv same w := by
  have ho : (names same (otherZones srv c w)).Nodup :=
    ((((nameConfig_perm srv c.file w).map _).nodup_iff.mp hw).sublist ((otherZones_sublist srv c w).map _))
  rw [DeclaredOnce,names,((h.zones srv).map _).nodup_iff,List.map_append,Command.Apart]
  change (_ ++ names same (otherZones srv c w)).Nodup ↔ _
  by_cases hs : serving w = true
  · rw [if_pos hs]
    cases c.file.zone srv (c.leaves srv w) with
    | none => simp [ho]
    | some z => simp [ho,hs]
  · rw [if_neg hs]
    simp [ho,hs]

/-- A run declares every zone once in all its states exactly when each command leaves a zone that is none of the
others, or none. -/
theorem declaredOnce_iff {w v : World} {ts : List Turn} (hi : (zoneSystem srv same).init w)
    (hr : System.Run (zoneSystem srv same) w ts v) :
    (∀ t ∈ ts, DeclaredOnce srv same t.after) ↔ ∀ t ∈ ts, t.command.Apart srv same t.before := by
  refine (hr.forall_iff (J:=fun w => KeptFiles dnsFiles w ∧ DeclaredOnce srv same w) ?_ ?_ hi).1
  · rintro w t v ⟨hk,ho⟩ ⟨rfl,rfl,ht,hrun⟩
    exact (run_put srv hk ht hrun).once_iff srv same ho
  · rintro w t v ⟨hk,ho⟩ ⟨rfl,rfl,ht,hrun⟩ ha
    have hput := run_put srv hk ht hrun
    exact ⟨hput.kept,(hput.once_iff srv same ho).mpr ha⟩

instance (c : Command) (w : World) : Decidable (c.Apart srv same w) := inferInstanceAs (Decidable (_ → ∀ z ∈ _, _))

instance (w : World) : Decidable (DeclaredOnce srv same w) := inferInstanceAs (Decidable (List.Nodup _))

def turnOf (c : Command) (w : World) : Turn := ⟨noonEnv,c,w,((c.run srv noonEnv w).getD (.fail,w)).2⟩

theorem turnOf_step {c : Command} {w : World} (ht : c.Typed) (h : (c.run srv noonEnv w).map Prod.fst = some .ok) :
    (zoneSystem srv same).step w (turnOf srv c w) (turnOf srv c w).after := by
  obtain ⟨r,hr,he⟩ := Option.map_eq_some_iff.mp h
  have ha : (turnOf srv c w).after = r.2 := by
    change ((c.run srv noonEnv w).getD (.fail,w)).2 = r.2
    rw [hr]
    rfl
  refine ⟨rfl,rfl,ht,?_⟩
  rw [ha,← he]
  exact hr

/-- A name server that is switched on, and hosts without definitions. -/
def namedWorld : World := World.ofFiles [("network","named.cfg",("ID=named\nSTAT=1\n" : Str))]

def plainServer : Server := ⟨Interfaces.ipv4Only,fun _ => [],fun _ => true⟩

theorem namedWorld_kept : KeptFiles dnsFiles namedWorld := ⟨by decide,by decide,fun _ _ _ => Or.inl rfl⟩

/-- A host with a name of its own. -/
theorem declaredOnce_host :
    DeclaredOnce plainServer lower (turnOf plainServer (.addStatic ["www.office","192.168.1.5","on","web"]) namedWorld).after := by
  have hd : (DeclaredOnce plainServer lower namedWorld ∧
      ((Command.addStatic ["www.office","192.168.1.5","on","web"]).run plainServer noonEnv namedWorld).map Prod.fst = some .ok) ∧
      (Command.addStatic ["www.office","192.168.1.5","on","web"]).Apart plainServer lower namedWorld := by decide
  have ht : (Command.addStatic ["www.office","192.168.1.5","on","web"]).Typed := by
    change ∀ a ∈ _, _
    decide
  have hrun := System.Run.nil.snoc (turnOf_step plainServer lower ht hd.1.2)
  exact (declaredOnce_iff plainServer lower ⟨namedWorld_kept,hd.1.1⟩ hrun).mpr
    (fun t ht => by rw [List.mem_singleton.mp ht]; exact hd.2) _ (List.mem_singleton_self _)

/-- A static host may be called like a zone that is always there. -/
theorem localhost_twice : ¬∀ (srv : Server) (same : Str → Str) (w v : World) (ts : List Turn), (zoneSystem srv same).init w →
    System.Run (zoneSystem srv same) w ts v → DeclaredOnce srv same v := by
  intro h
  have hd : (DeclaredOnce plainServer lower namedWorld ∧
      ((Command.addStatic ["localhost","192.168.1.5","on","web"]).run plainServer noonEnv namedWorld).map Prod.fst = some .ok) ∧
      ¬DeclaredOnce plainServer lower
        (turnOf plainServer (.addStatic ["localhost","192.168.1.5","on","web"]) namedWorld).after := by decide
  have ht : (Command.addStatic ["localhost","192.168.1.5","on","web"]).Typed := by
    change ∀ a ∈ _, _
    decide
  exact hd.2 (h plainServer lower _ _ _ ⟨namedWorld_kept,hd.1.1⟩
    (System.Run.nil.snoc (turnOf_step plainServer lower ht hd.1.2)))

end DnsZones
end Mybox
