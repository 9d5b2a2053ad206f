import Mybox.DhcpCommands
import Mybox.KeptFiles
import Mybox.PortalNames

/-! The addresses that are kept for machines: they are in the range of the server of their interface, and no two
machines have the same. When the commands keep them so. -/
namespace Mybox
namespace Reservations

open Php RegistryFormat Registry References DhcpCommands
open Interfaces (Ipv6 checkIp dataOf Quiet byparam_quiet check_quiet get_quiet ipv4Only textOf)
open Definitions (arg Lines line_arg)
open DnsCommands (strOnoff)
open AdminAccess (checkMacaddr)
open Ipcalc (Ip2long chkHostrange chkInrange interfaceEntry value)

def dhcpFiles : List Str := [serverFile,staticFile]

/-- An address is between two others, as numbers without a sign. -/
def Between (start ip stop : Str) : Prop :=
  SshLog.isIpv4 start = true ∧ SshLog.isIpv4 ip = true ∧ SshLog.isIpv4 stop = true ∧
    value start ≤ value ip ∧ value ip ≤ value stop

def InRange (d : Params) (ip : Str) : Prop := Between (d.val "RANGE_START") ip (d.val "RANGE_END")

def servers (w : World) : Token := entries "network" serverFile w

def statics (w : World) : Token := entries "network" staticFile w

/-- The mappings, with their IDs; an entry that lacks something is none. -/
def mappings (t : Token) : List (Str × Params) := t.entries.filter fun e => mapped e.2

/-- Some server has the interface of a mapping, and each one that has it has the address in its range. -/
def Served (s : Token) (m : Params) : Prop :=
  (∃ e ∈ s.entries, e.2.val "DNAME" = m.val "DNAME") ∧
    ∀ e ∈ s.entries, e.2.val "DNAME" = m.val "DNAME" → InRange e.2 (m.val "IP")

def Fit (s t : Token) : Prop := (∀ m ∈ mappings t, Served s m.2) ∧ ((mappings t).map fun m => m.2.val "IP").Nodup

def Fits (w : World) : Prop := Fit (servers w) (statics w)

theorem mem_mappings_set {t : Token} {id : Str} {p : Params} (hp : mapped p = true) :
    (mappings (t.set id p)).Perm ((id,p)::mappings (t.erase id)) := by
  have h := (OrdMap.perm_set t id p).filter fun e => mapped e.2
  rwa [List.filter_cons_of_pos (p:=fun e : Str × Params => mapped e.2) (a:=(id,p)) hp] at h

theorem mem_mappings_erase {t : Token} {id : Str} {m : Str × Params} :
    m ∈ mappings (t.erase id) ↔ m ∈ mappings t ∧ m.1 ≠ id := by
  simp only [mappings,OrdMap.erase,OrdMap.discard,List.mem_filter,decide_eq_true_eq]
  tauto

/-- A mapping that is written fits when its server has the address and no other mapping does. -/
theorem Fit.static_iff {s t : Token} (h : Fit s t) (id : Str) {p : Params} (hp : mapped p = true) :
    Fit s (t.set id p) ↔ Served s p ∧ ∀ m ∈ mappings t, m.1 ≠ id → m.2.val "IP" ≠ p.val "IP" := by
  have hsub : (mappings (t.erase id)).Sublist (mappings t) := List.Sublist.filter _ List.filter_sublist
  have hnd : ((mappings (t.erase id)).map fun m => m.2.val "IP").Nodup := h.2.sublist (hsub.map _)
  have hs : ∀ m ∈ mappings (t.erase id), Served s m.2 := fun m hm => h.1 m (hsub.subset hm)
  have hperm := @mem_mappings_set t id _ hp
  rw [Fit,(hperm.map _).nodup_iff,List.map_cons,List.nodup_cons]
  constructor
  · rintro ⟨ha,hn,-⟩
    refine ⟨ha _ (hperm.mem_iff.mpr (List.mem_cons_self ..)),fun m hm hne he => hn ?_⟩
    exact List.mem_map.mpr ⟨m,mem_mappings_erase.mpr ⟨hm,hne⟩,he⟩
  · rintro ⟨ha,hn⟩
    refine ⟨fun m hm => ?_,fun hm => ?_,hnd⟩
    · rcases List.mem_cons.mp (hperm.mem_iff.mp hm) with rfl | hm
      · exact ha
      · exact hs m hm
    · obtain ⟨m,hm,he⟩ := List.mem_map.mp hm
      obtain ⟨hm,hne⟩ := mem_mappings_erase.mp hm
      exact hn m hm hne he

/-- A server that is written, and keeps its interface, fits when it has the addresses of its mappings. -/
theorem Fit.server_iff {s t : Token} (h : Fit s t) {id : Str} {p : Params}
    (hd : ∀ q, s.get? id = some q → p.val "DNAME" = q.val "DNAME") :
    Fit (s.set id p) t ↔ ∀ m ∈ mappings t, m.2.val "DNAME" = p.val "DNAME" → InRange p (m.2.val "IP") := by
  have hperm := OrdMap.perm_set s id p
  constructor
  · intro hf m hm he
    exact (hf.1 m hm).2 _ (hperm.mem_iff.mpr (List.mem_cons_self ..)) he.symm
  · refine fun hr => ⟨fun m hm => ⟨?_,fun e he hde => ?_⟩,h.2⟩
    · obtain ⟨⟨i,q⟩,he,hde⟩ := (h.1 m hm).1
      by_cases hi : i = id
      · subst hi
        exact ⟨(i,p),hperm.mem_iff.mpr (List.mem_cons_self ..),(hd q (OrdMap.get?_eq_some.mpr he)).trans hde⟩
      · refine ⟨(i,q),hperm.mem_iff.mpr (List.mem_cons_of_mem _ ?_),hde⟩
        exact List.mem_filter.mpr ⟨he,decide_eq_true hi⟩
    · rcases List.mem_cons.mp (hperm.mem_iff.mp he) with rfl | he
      · exact hr m hm hde.symm
      · exact (h.1 m hm).2 e (List.mem_filter.mp he).1 hde

inductive Command
  | addServer (obj : OrdMap ℕ Str) (args : List Str)
  | setServer (obj : OrdMap ℕ Str) (args : List Str)
  | addStatic (obj : OrdMap ℕ Str) (args : List Str)
  | setStatic (obj : OrdMap ℕ Str) (args : List Str)

variable (conv : Ip2long) (wide : Bool) (v6 : Ipv6) (env : Env)

def Command.run : Command → World → Option (Ret × World)
  | addServer obj args, w => serverAdd env obj args w
  | setServer obj args, w => some (serverSet conv wide v6 env obj args w)
  | addStatic obj args, w => staticAdd conv wide v6 env obj args w
  | setStatic obj args, w => some (staticSet conv wide v6 env obj args w)

def Command.args : Command → List Str
  | addServer _ args => args
  | setServer _ args => args
  | addStatic _ args => args
  | setStatic _ args => args

def Command.Typed (c : Command) : Prop := ∀ a ∈ c.args, '\n' ∉ a

/-- The comparison of an address with the ends of a range says what it should: all are addresses, and the integers
have 64 bits or the addresses are in one half. -/
def Comparable (d : Params) (ip : Str) : Prop :=
  SshLog.isIpv4 (d.val "RANGE_START") = true ∧ SshLog.isIpv4 ip = true ∧ SshLog.isIpv4 (d.val "RANGE_END") = true ∧
    (wide = true ∨ (value (d.val "RANGE_START")).msb = (value ip).msb ∧ (value ip).msb = (value (d.val "RANGE_END")).msb)

/-- What a command has to meet. A new server has all addresses that are kept on its interface, and so has a server whose
range is set; the address of a new mapping is in the range; one that is set is no other mapping's, is compared rightly
with the range of the server that is found, and is in the range of any further server of the interface. -/
def Command.Meets : Command → World → Prop
  | addServer obj args, w => ∀ name ∈ (networksAddInt env obj (arg args 0) w).1,
      ∀ m ∈ mappings (statics w), m.2.val "DNAME" = name →
        Between ((byparam env "eth.cfg" "NAME" name w).1.val "HOST_MIN") (m.2.val "IP")
          ((byparam env "eth.cfg" "NAME" name w).1.val "HOST_MAX")
  | setServer obj args, w => arg args 0 = ("range" : Str) → ∀ sid ∈ numbered obj (arg args 1),
      ∀ m ∈ mappings (statics w), m.2.val "DNAME" = ((servers w).getD sid ∅).val "DNAME" →
        Between (arg args 2) (m.2.val "IP") (arg args 3)
  | addStatic obj args, w => ∀ sid ∈ numbered obj (arg args 0),
      ∀ e ∈ (servers w).entries, e.2.val "DNAME" = (byparam env serverFile "ID" sid w).1.val "DNAME" →
        InRange e.2 (arg args 2)
  | setStatic obj args, w => arg args 0 = ("ip" : Str) → ∀ sid ∈ numbered obj (arg args 1),
      (∀ m ∈ mappings (statics w), m.1 ≠ sid → m.2.val "IP" ≠ arg args 2) ∧
      ∀ e ∈ (servers w).entries, e.2.val "DNAME" = ((statics w).getD sid ∅).val "DNAME" →
        if e.2 = (byparam env serverFile "DNAME" (((statics w).getD sid ∅).val "DNAME") w).1 then
          Comparable wide e.2 (arg args 2)
        else InRange e.2 (arg args 2)

/-- An accepted command, and the registry before and after it. -/
structure Turn where
  env : Env
  command : Command
  before : World
  after : World

def dhcpSystem : System World Turn where
  init w := KeptFiles dhcpFiles w ∧ Fits w
  step w t v := t.before = w ∧ t.after = v ∧ t.command.Typed ∧ t.command.run conv wide v6 t.env w = some (.ok,v)

theorem byparam_quiet' (fil param value : Str) (w : World) : Quiet w (byparam env fil param value w).2 :=
  byparam_quiet env fil param value ∅ w

theorem networksAddInt_quiet (obj : OrdMap ℕ Str) (num : Str) (w : World) :
    Quiet w (networksAddInt env obj num w).2 := by
  unfold networksAddInt
  split
  · exact Quiet.refl w
  · split
    · exact Quiet.refl w
    · exact get_quiet env _ w

theorem chkInrange_quiet (isIpv6 : Str → Bool) (name addr : Str) (w : World) :
    Quiet w (chkInrange conv wide env isIpv6 name addr w).2 :=
  (byparam_quiet env _ _ _ _ w).trans (byparam_quiet env _ _ _ _ _)

/-- What is found is an entry of the file. -/
theorem byparam_mem {w : World} {fil param value : Str} (hc : Coherent "network" fil w)
    (hn : (byparam env fil param value w).1.isEmpty = false) :
    ∃ e ∈ (entries "network" fil w).entries, e.2 = (byparam env fil param value w).1 := by
  revert hn
  unfold byparam iniTokenGetByparam
  dsimp only
  rw [iniTokenGet_fst env _ _ hc]
  split
  · intro hn
    dsimp only at hn ⊢
    cases hg : (entries "network" fil w).get? value with
    | none =>
      rw [OrdMap.getD,hg] at hn
      exact absurd hn (by decide)
    | some q => exact ⟨(value,q),OrdMap.get?_eq_some.mp hg,by rw [OrdMap.getD,hg]; rfl⟩
  · split
    · rename_i e he
      exact fun _ => ⟨e,List.mem_of_find?_eq_some he,rfl⟩
    · intro hn
      dsimp only at hn
      exact absurd hn (by decide)

theorem byparam_read {w : World} {fil param value k : Str} (hk : k ≠ dataId) (hc : Coherent "network" fil w) :
    ReadValue ((byparam env fil param value w).1.val k) := by
  by_cases hn : (byparam env fil param value w).1.isEmpty = false
  · obtain ⟨e,he,hp⟩ := byparam_mem env hc hn
    have hr := readText_val hk (text "network" fil w) e.1
    have hg : (entries "network" fil w).getD e.1 ∅ = e.2 := by
      rw [OrdMap.getD,OrdMap.get?_eq_some.mpr he]
      rfl
    rw [← hp,← hg]
    exact hr
  · rw [Bool.not_eq_false,OrdMap.isEmpty_iff] at hn
    rw [hn]
    exact ⟨rfl,List.not_mem_nil,List.not_mem_nil⟩

theorem byparam_congr {u w : World} {fil param value : Str} (hc : Coherent "network" fil w) (hq : Quiet w u)
    (hu : Coherent "network" fil u) : (byparam env fil param value u).1 = (byparam env fil param value w).1 :=
  congrArg Prod.snd (Interfaces.byparam_fst env param value hc hu hq.reg)

theorem byparam_id {w : World} {fil id : Str} {q : Params} (hc : Coherent "network" fil w)
    (hq : (entries "network" fil w).get? id = some q) : (byparam env fil "ID" id w).1 = q :=
  congrArg Prod.snd (Interfaces.byparam_id env hc hq ∅)

theorem read_mac {s : Str} (h : checkMacaddr s = true) : ReadValue s ∧ s ≠ [] := by
  unfold checkMacaddr at h
  split at h
  · rename_i a b c d e f hs
    simp only [Bool.and_eq_true,AdminAccess.hexGroup,List.all_eq_true] at h
    have hi : List.intercalate [':'] [a,b,c,d,e,f] = s := by
      rw [← hs]
      exact List.intercalate_splitOn ':'
    have hx : ∀ x ∈ s, hexDigit x = true ∨ x = ':' := by
      intro x hx
      rw [← hi] at hx
      simp only [List.intercalate,List.intersperse,List.flatten_cons,List.flatten_nil,List.mem_append,
        List.mem_singleton,List.append_nil] at hx
      rcases hx with hx | hx | hx | hx | hx | hx | hx | hx | hx | hx | hx
      · exact Or.inl (h.1.1.1.1.1.2 x hx)
      · exact Or.inr hx
      · exact Or.inl (h.1.1.1.1.2.2 x hx)
      · exact Or.inr hx
      · exact Or.inl (h.1.1.1.2.2 x hx)
      · exact Or.inr hx
      · exact Or.inl (h.1.1.2.2 x hx)
      · exact Or.inr hx
      · exact Or.inl (h.1.2.2 x hx)
      · exact Or.inr hx
      · exact Or.inl (h.2.2 x hx)
    refine ⟨⟨trim_of_black fun x hm => ?_,fun hm => ?_,fun hm => ?_⟩,?_⟩
    · rcases hx x hm with hd | rfl
      · exact (Portal.hexDigit_black hd).2.1
      · decide
    · exact absurd (hx _ hm) (by decide)
    · exact absurd (hx _ hm) (by decide)
    · rintro rfl
      simp [List.intercalate,List.intersperse] at hi
  · simp at h

theorem read_carried {s : Str} (h : ReadValue s) : carried s = s := carried_eq h.1 h.2.2

variable {v6}

theorem address_ne (h6 : v6.is [] = false) {ip : Str} (h : checkIp v6 ip = true) : ip ≠ [] := by
  rintro rfl
  rw [checkIp,h6] at h
  exact absurd h (by decide)

theorem mapped_iff {d : Params} : mapped d = true ↔ d.val "DNAME" ≠ [] ∧ d.val "IP" ≠ [] ∧ d.val "MAC" ≠ [] := by
  simp [mapped,and_assoc]

theorem static_written {own : Option Str} {data : Params} {w v : World}
    (hw : Written dhcpFiles staticFile own data w v) (hf : Fits w) : ∃ id q p,
    (own = some id ∧ (statics w).get? id = some q ∨ own = none ∧ (statics w).get? id = none ∧ q = ∅) ∧
    (∀ k, skipped k = false → p.val k = ((data.get? k).map carried).getD (q.val k)) ∧
    (mapped p = true → (Fits v ↔ Served (servers w) p ∧
      ∀ m ∈ mappings (statics w), m.1 ≠ id → m.2.val "IP" ≠ p.val "IP")) := by
  obtain ⟨id,q,p,hq,he,hp⟩ := hw.put
  refine ⟨id,q,p,hq,hp,fun hm => ?_⟩
  have hs : servers v = servers w := hw.others _ (by decide)
  have ht : statics v = (statics w).set id p := he
  rw [Fits,hs,ht]
  exact hf.static_iff id hm

theorem newMapping_lines {dname : Str} {args : List Str} (hd : '\n' ∉ dname) (ha : ∀ a ∈ args, '\n' ∉ a) :
    Lines (newMapping dname args) :=
  .cons (by decide) hd (.cons (by decide) (line_arg ha 2) (.cons (by decide) (line_arg ha 1)
    (.cons (by decide) (by decide) (.cons (by decide) (line_arg ha 3) .nil))))

theorem addStatic_fits (h6 : v6.is [] = false) {obj : OrdMap ℕ Str} {args : List Str} {w v : World}
    (h : KeptFiles dhcpFiles w) (hf : Fits w) (ha : ∀ a ∈ args, '\n' ∉ a)
    (hr : staticAdd conv wide v6 env obj args w = some (.ok,v)) :
    KeptFiles dhcpFiles v ∧ (Fits v ↔ (Command.addStatic obj args).Meets wide env w) := by
  unfold staticAdd at hr
  split at hr
  · simp at hr
  · rename_i sid hsid
    dsimp only at hr
    split_ifs at hr with h₁ h₂ h₃ h₄
    · simp at hr
    · simp at hr
    · simp at hr
    · simp at hr
    · simp only [Bool.or_eq_true,Bool.not_eq_true',not_or,Bool.not_eq_false] at h₁ h₂ h₄
      obtain ⟨hip,hmac⟩ := h₁
      simp only [ranged,Bool.and_eq_true,Bool.not_eq_true',null_false_iff] at h₂
      obtain ⟨⟨⟨hne,hd⟩,-⟩,-⟩ := h₂
      have hq := byparam_quiet' env serverFile "ID" sid w
      have hq' := hq.trans (check_quiet env staticFile "IP" (arg args 2) _)
      have hdr := @byparam_read env w serverFile "ID" sid "DNAME" (by decide) (h.coherent serverFile)
      have hw := (KeptFiles.save_written (h.quiet hq') (by decide) (newMapping_lines hdr.2.1 ha).newData hr).quiet hq'
      have hmem := byparam_mem env (h.coherent serverFile) hne
      have hfree : ∀ m ∈ mappings (statics w), m.2.val "IP" ≠ arg args 2 := by
        rw [iniTokenCheck_fst env _ _ ((h.quiet hq).coherent staticFile),entries_congr "network" staticFile hq.reg,
          List.all_eq_true] at h₄
        intro m hm he
        obtain ⟨hm,hmm⟩ := List.mem_filter.mp hm
        have hi := (mapped_iff.mp hmm).2.1
        have hc := h₄ m hm
        rw [he] at hc hi
        rw [null_false_iff.mpr hi,looseEq_self] at hc
        exact absurd hc (by decide)
      generalize hfound : (byparam env serverFile "ID" sid w).1 = d at *
      obtain ⟨id,q,p,hown,hval,hiff⟩ := static_written hw hf
      rcases hown with ⟨hn,-⟩ | ⟨-,hn,rfl⟩
      · simp at hn
      · have hpd : p.val "DNAME" = d.val "DNAME" := (hval "DNAME" (by decide)).trans (read_carried hdr)
        have hpi : p.val "IP" = arg args 2 :=
          (hval "IP" (by decide)).trans (read_carried (Interfaces.checkIp_read v6 hip))
        have hpm : p.val "MAC" = arg args 1 := (hval "MAC" (by decide)).trans (read_carried (read_mac hmac).1)
        have hm : mapped p = true := by
          rw [mapped_iff,hpd,hpi,hpm]
          exact ⟨hd,address_ne h6 hip,(read_mac hmac).2⟩
        refine ⟨hw.kept,?_⟩
        rw [hiff hm,Command.Meets,Served,hpd,hpi,hsid]
        simp only [Option.mem_some_iff,forall_eq',hfound]
        obtain ⟨e,he,hed⟩ := hmem
        exact ⟨fun hs => hs.1.2,fun hs => ⟨⟨⟨e,he,by rw [hed]⟩,hs⟩,fun m hm _ => hfree m hm⟩⟩

theorem setData_ok {fil sid : Str} {r : Option (List (Str × Str)) × World} {v : World}
    (h : setData env fil sid r = (.ok,v)) : ∃ es, r.1 = some es ∧
      iniTokenUpdate env "network" fil sid (dataOf es) r.2 = (.ok,v) := by
  unfold setData at h
  split at h
  · simp at h
  · rename_i es he
    exact ⟨es,he,h⟩

theorem Fit.unchanged {s t : Token} (h : Fit s t) {id : Str} {p q : Params} (hg : t.get? id = some q)
    (hq : mapped q = true) (hd : p.val "DNAME" = q.val "DNAME") (hi : p.val "IP" = q.val "IP") :
    Served s p ∧ ∀ m ∈ mappings t, m.1 ≠ id → m.2.val "IP" ≠ p.val "IP" := by
  have hf := (h.static_iff id hq).mp (by rw [OrdMap.set_get?_self hg]; exact h)
  rw [Served,hd,hi]
  exact hf

/-- An address that passes both comparisons is in the range when the comparisons say what they should. -/
theorem inRange_iff {d : Params} {ip : Str} (ha : aboveStart conv wide d ip = true) (hb : belowEnd conv wide d ip = true) :
    InRange d ip ↔ Comparable wide d ip := by
  have key : ∀ {x y : Str}, SshLog.isIpv4 x = true → SshLog.isIpv4 y = true → chkHostrange conv wide x y = true →
      (value x ≤ value y ↔ (wide = true ∨ (value x).msb = (value y).msb)) := by
    intro x y hx hy hc
    rw [Ipcalc.chkHostrange_eq,conv.valid x hx,conv.valid y hy] at hc
    exact (Ipcalc.long_le_iff wide _ _).mp (of_decide_eq_true hc)
  constructor
  · rintro ⟨h₁,h₂,h₃,hl,hr⟩
    have hl' := (key h₁ h₂ ha).mp hl
    have hr' := (key h₂ h₃ hb).mp hr
    exact ⟨h₁,h₂,h₃,by tauto⟩
  · rintro ⟨h₁,h₂,h₃,hs⟩
    exact ⟨h₁,h₂,h₃,(key h₁ h₂ ha).mpr (hs.imp_right And.left),(key h₂ h₃ hb).mpr (hs.imp_right And.right)⟩

/-- Of the servers of an interface, the one that is found is compared, and the others have to have the address. -/
theorem inRange_found {d : Params} {ip : Str} (ha : aboveStart conv wide d ip = true) (hb : belowEnd conv wide d ip = true)
    (e : Params) : InRange e ip ↔ if e = d then Comparable wide e ip else InRange e ip := by
  split
  · rename_i he
    rw [he]
    exact inRange_iff conv wide ha hb
  · rfl

theorem staticData_cases {d : Params} {param v : Str} {es : List (Str × Str)}
    (h : staticData conv wide v6 d param v = some es) :
    param = ("ip" : Str) ∧ checkIp v6 v = true ∧ aboveStart conv wide d v = true ∧ belowEnd conv wide d v = true ∧
      es = [(("IP" : Str),v)] ∨
    param ≠ ("ip" : Str) ∧ (checkMacaddr v = true ∧ es = [(("MAC" : Str),v)] ∨ es = [(("NOTE" : Str),v)]) := by
  unfold staticData at h
  simp only [fun a => @looseEq_text "ip" (by decide) a,decide_eq_true_eq] at h
  split_ifs at h with h₁ h₂ h₃ h₄
  · simp only [Bool.and_eq_true] at h₂
    exact Or.inl ⟨h₁,h₂.1.1,h₂.1.2,h₂.2,(Option.some.inj h).symm⟩
  · exact Or.inr ⟨h₁,Or.inl ⟨h₄,(Option.some.inj h).symm⟩⟩
  · exact Or.inr ⟨h₁,Or.inr (Option.some.inj h).symm⟩

theorem lines_one {k x : Str} (hk : KeyName k ∧ skipped k = false) (hx : '\n' ∉ x) : Lines [(k,x)] := .cons hk hx .nil

theorem setStatic_fits (h6 : v6.is [] = false) {obj : OrdMap ℕ Str} {args : List Str} {w v : World}
    (h : KeptFiles dhcpFiles w) (hf : Fits w) (ha : ∀ a ∈ args, '\n' ∉ a)
    (hr : staticSet conv wide v6 env obj args w = (.ok,v)) :
    KeptFiles dhcpFiles v ∧ (Fits v ↔ (Command.setStatic obj args).Meets wide env w) := by
  unfold staticSet at hr
  split at hr
  · simp at hr
  · rename_i sid hsid
    dsimp only at hr
    split_ifs at hr with h₁ h₂
    · simp at hr
    · simp at hr
    · simp only [Bool.or_eq_true,Bool.not_eq_true',not_or,Bool.not_eq_false] at h₁ h₂
      obtain ⟨es,hes,hu⟩ := setData_ok env hr
      have hq := byparam_quiet' env staticFile "ID" sid w
      have hq' := hq.trans (byparam_quiet' env serverFile "DNAME" ((byparam env staticFile "ID" sid w).1.val "DNAME") _)
      have hfound := @byparam_congr env _ w _ "DNAME" ((byparam env staticFile "ID" sid w).1.val "DNAME")
        (h.coherent serverFile) hq ((h.quiet hq).coherent serverFile)
      have hes' := staticData_cases conv wide hes
      have hl : Lines es := by
        rcases hes' with ⟨-,-,-,-,rfl⟩ | ⟨-,⟨-,rfl⟩ | rfl⟩
        all_goals exact lines_one (by decide) (line_arg ha 2)
      have hw := ((h.quiet hq').update_written env (by decide) hl.newData.writable hu).quiet hq'
      obtain ⟨id,q,p,hown,hval,hiff⟩ := static_written hw hf
      rcases hown with ⟨hid,hg⟩ | ⟨hn,-⟩
      · obtain rfl := Option.some.inj hid
        rw [byparam_id env (h.coherent staticFile) hg] at hfound hes' h₁
        have hread : ∀ k, k ≠ dataId → ReadValue (q.val k) := by
          intro k hk
          rw [← byparam_id env (h.coherent staticFile) hg]
          exact byparam_read env hk (h.coherent staticFile)
        have hmq := h₁.2
        have hgd : (statics w).getD sid ∅ = q := by rw [OrdMap.getD,hg]; rfl
        refine ⟨hw.kept,?_⟩
        rw [Command.Meets,hsid]
        simp only [Option.mem_some_iff,forall_eq',hgd]
        rw [hfound] at hes'
        have hmq' := mapped_iff.mp hmq
        rcases hes' with ⟨hip,hc,hab,hbe,rfl⟩ | ⟨hnip,hes'⟩
        · have hpi : p.val "IP" = arg args 2 :=
            (hval "IP" (by decide)).trans (read_carried (Interfaces.checkIp_read v6 hc))
          have hpd : p.val "DNAME" = q.val "DNAME" := hval "DNAME" (by decide)
          have hpm : p.val "MAC" = q.val "MAC" := hval "MAC" (by decide)
          have hm : mapped p = true := by
            rw [mapped_iff,hpd,hpi,hpm]
            exact ⟨hmq'.1,address_ne h6 hc,hmq'.2.2⟩
          rw [hiff hm,Served,hpd,hpi]
          have hserved := (hf.1 (sid,q) (List.mem_filter.mpr ⟨OrdMap.get?_eq_some.mp hg,hmq⟩)).1
          have hrange := forall₂_congr fun (e : Str × Params) (_ : e ∈ (servers w).entries) =>
            @imp_congr_right (e.2.val "DNAME" = q.val "DNAME") _ _ fun _ => inRange_found conv wide hab hbe e.2
          exact ⟨fun hs _ => ⟨hs.2,hrange.mp hs.1.2⟩,fun hs => ⟨⟨hserved,hrange.mpr (hs hip).2⟩,(hs hip).1⟩⟩
        · have hpd : p.val "DNAME" = q.val "DNAME" := by
            rcases hes' with ⟨-,rfl⟩ | rfl <;> exact hval "DNAME" (by decide)
          have hpi : p.val "IP" = q.val "IP" := by
            rcases hes' with ⟨-,rfl⟩ | rfl <;> exact hval "IP" (by decide)
          have hpm : p.val "MAC" ≠ [] := by
            rcases hes' with ⟨hc,rfl⟩ | rfl
            · rw [(hval "MAC" (by decide)).trans (read_carried (read_mac hc).1)]
              exact (read_mac hc).2
            · rw [show p.val "MAC" = q.val "MAC" from hval "MAC" (by decide)]
              exact hmq'.2.2
          have hm : mapped p = true := by
            rw [mapped_iff,hpd,hpi]
            exact ⟨hmq'.1,hmq'.2.1,hpm⟩
          rw [hiff hm]
          exact ⟨fun _ hip => absurd hip hnip,fun _ => hf.unchanged hg hmq hpd hpi⟩
      · simp at hn

theorem server_written {own : Option Str} {data : Params} {w v : World}
    (hw : Written dhcpFiles serverFile own data w v) (hf : Fits w) : ∃ id q p,
    (own = some id ∧ (servers w).get? id = some q ∨ own = none ∧ (servers w).get? id = none ∧ q = ∅) ∧
    (∀ k, skipped k = false → p.val k = ((data.get? k).map carried).getD (q.val k)) ∧
    ((∀ q, (servers w).get? id = some q → p.val "DNAME" = q.val "DNAME") → (Fits v ↔
      ∀ m ∈ mappings (statics w), m.2.val "DNAME" = p.val "DNAME" → InRange p (m.2.val "IP"))) := by
  obtain ⟨id,q,p,hq,he,hp⟩ := hw.put
  refine ⟨id,q,p,hq,hp,fun hd => ?_⟩
  have hs : servers v = (servers w).set id p := he
  have ht : statics v = statics w := hw.others _ (by decide)
  rw [Fits,hs,ht]
  exact hf.server_iff hd

theorem networksAddInt_read {w : World} {obj : OrdMap ℕ Str} {num name : Str} (hc : Coherent "network" "eth.cfg" w)
    (h : (networksAddInt env obj num w).1 = some name) : ReadValue name := by
  unfold networksAddInt at h
  split at h
  · obtain rfl := Option.some.inj h
    exact ⟨rfl,List.not_mem_nil,List.not_mem_nil⟩
  · split at h
    · simp at h
    · obtain rfl := Option.some.inj h
      rw [iniTokenGet_fst env _ _ hc]
      exact readText_val (by decide) _ _

theorem newServer_lines {name : Str} {d : Params} {args : List Str} (hn : '\n' ∉ name)
    (hd : ∀ k, k ≠ dataId → ReadValue (d.val k)) (ha : ∀ a ∈ args, '\n' ∉ a) : Lines (newServer name d args) :=
  .cons (by decide) hn (.cons (by decide) (hd _ (by decide)).2.1 (.cons (by decide) (hd _ (by decide)).2.1
    (.cons (by decide) (hd _ (by decide)).2.1 (.cons (by decide) (hd _ (by decide)).2.1 (.cons (by decide) (by decide)
    (.cons (by decide) (by decide) (.cons (by decide) (by decide)
    (.cons (by decide) (DnsCommands.strOnoff_line (line_arg ha 1)) (.cons (by decide) (line_arg ha 2) .nil)))))))))

theorem addServer_fits {obj : OrdMap ℕ Str} {args : List Str} {w v : World}
    (h : KeptFiles dhcpFiles w) (hf : Fits w) (ha : ∀ a ∈ args, '\n' ∉ a)
    (hr : serverAdd env obj args w = some (.ok,v)) :
    KeptFiles dhcpFiles v ∧ (Fits v ↔ (Command.addServer obj args).Meets wide env w) := by
  unfold serverAdd at hr
  split at hr
  · simp at hr
  · dsimp only at hr
    split at hr
    · simp at hr
    · rename_i name hname
      have hq := networksAddInt_quiet env obj (arg args 0) w
      have hq' := hq.trans (byparam_quiet' env "eth.cfg" "NAME" name _)
      have hfound := @byparam_congr env _ w _ "NAME" name (h.coherent "eth.cfg") hq
        ((h.quiet hq).coherent "eth.cfg")
      have hread := networksAddInt_read env (h.coherent "eth.cfg") hname
      have hd : ∀ k, k ≠ dataId → ReadValue ((byparam env "eth.cfg" "NAME" name w).1.val k) := fun k hk =>
        byparam_read env hk (h.coherent "eth.cfg")
      rw [hfound] at hr
      split at hr
      · simp at hr
      · have hw := (KeptFiles.save_written (h.quiet hq') (by decide) (newServer_lines hread.2.1 hd ha).newData hr).quiet hq'
        obtain ⟨id,q,p,hown,hval,hiff⟩ := server_written hw hf
        rcases hown with ⟨hn,-⟩ | ⟨-,hn,rfl⟩
        · simp at hn
        · have hpd : p.val "DNAME" = name := (hval "DNAME" (by decide)).trans (read_carried hread)
          have hps := (hval "RANGE_START" (by decide)).trans (read_carried (hd "HOST_MIN" (by decide)))
          have hpe := (hval "RANGE_END" (by decide)).trans (read_carried (hd "HOST_MAX" (by decide)))
          refine ⟨hw.kept,?_⟩
          rw [hiff fun q hg => by rw [hn] at hg; simp at hg,Command.Meets,hname]
          simp only [InRange,hpd,hps,hpe,Option.mem_some_iff,forall_eq']

theorem carried_addressOrNone {ip : Str} (h : addressOrNone v6 ip = true) : carried ip = ip := by
  rw [addressOrNone,Bool.or_eq_true,null_iff] at h
  rcases h with rfl | h
  · rfl
  · exact read_carried (Interfaces.checkIp_read v6 h)

theorem rangeData_some {sid start stop : Str} {w : World} {es : List (Str × Str)}
    (h : (rangeData conv wide v6 env sid start stop w).1 = some es) :
    Quiet w (rangeData conv wide v6 env sid start stop w).2 ∧ carried start = start ∧ carried stop = stop ∧
      es = [(("RANGE_START" : Str),start),("RANGE_END",stop)] := by
  have hc : ∀ ip : Str, ¬(!null ip && !checkIp v6 ip) = true → carried ip = ip := by
    intro ip hn
    refine @carried_addressOrNone v6 _ ?_
    rw [addressOrNone]
    revert hn
    cases null ip <;> cases checkIp v6 ip <;> decide
  have hq := byparam_quiet' env serverFile "ID" sid w
  have hq₁ := hq.trans (chkInrange_quiet conv wide env v6.is ((byparam env serverFile "ID" sid w).1.val "DNAME") start _)
  have hq₂ := hq₁.trans (chkInrange_quiet conv wide env v6.is ((byparam env serverFile "ID" sid w).1.val "DNAME") stop _)
  revert h
  unfold rangeData
  dsimp only
  split_ifs with h₁ h₂ h₃ h₄
  · simp
  · simp only [Bool.or_eq_true,not_or] at h₁
    exact fun h => ⟨hq,hc _ h₁.1.1,hc _ h₁.1.2,(Option.some.inj h).symm⟩
  · simp
  · simp
  · simp only [Bool.or_eq_true,not_or] at h₁
    dsimp only
    exact fun h => ⟨hq₂,hc _ h₁.1.1,hc _ h₁.1.2,(Option.some.inj h).symm⟩

/-- What a set command of a server may write. -/
theorem serverData_cases {sid : Str} {args : List Str} {w : World} (ha : ∀ a ∈ args, '\n' ∉ a)
    {es : List (Str × Str)} (h : (serverData conv wide v6 env sid args w).1 = some es) :
    Quiet w (serverData conv wide v6 env sid args w).2 ∧ Lines es ∧ (dataOf es).get? "DNAME" = none ∧
    (arg args 0 = ("range" : Str) ∧ carried (arg args 2) = arg args 2 ∧ carried (arg args 3) = arg args 3 ∧
        es = [(("RANGE_START" : Str),arg args 2),("RANGE_END",arg args 3)] ∨
      arg args 0 ≠ ("range" : Str) ∧ (dataOf es).get? "RANGE_START" = none ∧ (dataOf es).get? "RANGE_END" = none) := by
  have two : ∀ {k l x y : Str}, (KeyName k ∧ skipped k = false) → (KeyName l ∧ skipped l = false) → '\n' ∉ x → '\n' ∉ y →
      Lines [(k,x),(l,y)] := fun hk hl hx hy => .cons hk hx (.cons hl hy .nil)
  have h₂ := line_arg ha 2
  have h₃ := line_arg ha 3
  revert h
  unfold serverData
  simp only [fun a => @looseEq_text "dns" (by decide) a,fun a => @looseEq_text "range" (by decide) a,decide_eq_true_eq]
  by_cases hr : arg args 0 = ("range" : Str)
  · rw [hr,if_neg (by decide),if_pos rfl]
    intro h
    obtain ⟨hq,hs,he,rfl⟩ := rangeData_some conv wide env h
    exact ⟨hq,two (by decide) (by decide) h₂ h₃,rfl,Or.inl ⟨rfl,hs,he,rfl⟩⟩
  · rw [if_neg hr]
    split_ifs
    all_goals
      intro h
      first
        | (obtain rfl := Option.some.inj h; refine ⟨Quiet.refl w,?_,rfl,Or.inr ⟨hr,rfl,rfl⟩⟩)
        | simp at h
    · exact two (by decide) (by decide) h₂ h₃
    · exact lines_one (by decide) h₂
    · exact lines_one (by decide) h₂
    · exact two (by decide) (by decide) h₂ h₃
    · exact lines_one (by decide) (DnsCommands.strOnoff_line h₂)
    · exact lines_one (by decide) h₂

theorem setServer_fits {obj : OrdMap ℕ Str} {args : List Str} {w v : World}
    (h : KeptFiles dhcpFiles w) (hf : Fits w) (ha : ∀ a ∈ args, '\n' ∉ a)
    (hr : serverSet conv wide v6 env obj args w = (.ok,v)) :
    KeptFiles dhcpFiles v ∧ (Fits v ↔ (Command.setServer obj args).Meets wide env w) := by
  unfold serverSet at hr
  split at hr
  · simp at hr
  · rename_i sid hsid
    obtain ⟨es,hes,hu⟩ := setData_ok env hr
    obtain ⟨hq,hl,hnd,hes'⟩ := serverData_cases conv wide env ha hes
    have hw := ((h.quiet hq).update_written env (by decide) hl.newData.writable hu).quiet hq
    obtain ⟨id,q,p,hown,hval,hiff⟩ := server_written hw hf
    rcases hown with ⟨hid,hg⟩ | ⟨hn,-⟩
    · obtain rfl := Option.some.inj hid
      have hkeep : ∀ k, skipped k = false → (dataOf es).get? k = none → p.val k = q.val k := by
        intro k hk hn
        rw [hval k hk,hn]
        rfl
      have hpd := hkeep "DNAME" (by decide) hnd
      have hgd : (servers w).getD sid ∅ = q := by rw [OrdMap.getD,hg]; rfl
      refine ⟨hw.kept,?_⟩
      rw [hiff fun r hr => by rw [hg] at hr; rw [← Option.some.inj hr]; exact hpd,Command.Meets,hsid]
      simp only [Option.mem_some_iff,forall_eq',hgd,hpd]
      rcases hes' with ⟨hrange,hs,he,rfl⟩ | ⟨hnot,hs,he⟩
      · have hps : p.val "RANGE_START" = arg args 2 := (hval "RANGE_START" (by decide)).trans hs
        have hpe : p.val "RANGE_END" = arg args 3 := (hval "RANGE_END" (by decide)).trans he
        simp only [InRange,hps,hpe]
        exact ⟨fun hm _ => hm,fun hm => hm hrange⟩
      · have hps := hkeep "RANGE_START" (by decide) hs
        have hpe := hkeep "RANGE_END" (by decide) he
        refine ⟨fun _ hrange => absurd hrange hnot,fun _ m hm hmd => ?_⟩
        rw [InRange,hps,hpe]
        exact (hf.1 m hm).2 (sid,q) (OrdMap.get?_eq_some.mp hg) hmd.symm
    · simp at hn

theorem run_fits (h6 : v6.is [] = false) {c : Command} {w v : World} (h : KeptFiles dhcpFiles w) (hf : Fits w)
    (ht : c.Typed) (hr : c.run conv wide v6 env w = some (.ok,v)) :
    KeptFiles dhcpFiles v ∧ (Fits v ↔ c.Meets wide env w) := by
  cases c with
  | addServer obj args => exact addServer_fits wide env h hf ht hr
  | setServer obj args => exact setServer_fits conv wide env h hf ht (Option.some.inj hr)
  | addStatic obj args => exact addStatic_fits conv wide env h6 h hf ht hr
  | setStatic obj args => exact setStatic_fits conv wide env h6 h hf ht (Option.some.inj hr)

variable (v6)

/-- A run keeps the mappings fit in all its states exactly when each command meets its condition. -/
theorem fits_iff (h6 : v6.is [] = false) {w v : World} {ts : List Turn} (hi : (dhcpSystem conv wide v6).init w)
    (hr : System.Run (dhcpSystem conv wide v6) w ts v) :
    (∀ t ∈ ts, Fits t.after) ↔ ∀ t ∈ ts, t.command.Meets wide t.env t.before := by
  refine (hr.forall_iff (J:=fun w => KeptFiles dhcpFiles w ∧ Fits w) ?_ ?_ hi).1
  · rintro w t v ⟨hk,ho⟩ ⟨rfl,rfl,ht,hrun⟩
    exact (run_fits conv wide t.env h6 hk ho ht hrun).2
  · rintro w t v ⟨hk,ho⟩ ⟨rfl,rfl,ht,hrun⟩ hm
    obtain ⟨hk',hf⟩ := run_fits conv wide t.env h6 hk ho ht hrun
    exact ⟨hk',hf.mpr hm⟩

instance (start ip stop : Str) : Decidable (Between start ip stop) := inferInstanceAs (Decidable (_ ∧ _ ∧ _ ∧ _ ∧ _))

instance (d : Params) (ip : Str) : Decidable (InRange d ip) := inferInstanceAs (Decidable (Between _ _ _))

instance (d : Params) (ip : Str) : Decidable (Comparable wide d ip) := inferInstanceAs (Decidable (_ ∧ _ ∧ _ ∧ _))

instance (s : Token) (m : Params) : Decidable (Served s m) :=
  inferInstanceAs (Decidable ((∃ e ∈ _, _) ∧ ∀ e ∈ _, _ → InRange _ _))

instance (s t : Token) : Decidable (Fit s t) := inferInstanceAs (Decidable ((∀ m ∈ _, Served _ _) ∧ List.Nodup _))

instance (w : World) : Decidable (Fits w) := inferInstanceAs (Decidable (Fit _ _))

instance (c : Command) (w : World) : Decidable (c.Meets wide env w) :=
  match c with
  | .addServer obj args => inferInstanceAs (Decidable (∀ name ∈ (networksAddInt env obj (arg args 0) w).1,
      ∀ m ∈ mappings (statics w), _ → Between _ _ _))
  | .setServer obj args => inferInstanceAs (Decidable (_ → ∀ sid ∈ numbered obj (arg args 1),
      ∀ m ∈ mappings (statics w), _ → Between _ _ _))
  | .addStatic obj args => inferInstanceAs (Decidable (∀ sid ∈ numbered obj (arg args 0),
      ∀ e ∈ (servers w).entries, _ → InRange _ _))
  | .setStatic obj args => inferInstanceAs (Decidable (_ → ∀ sid ∈ numbered obj (arg args 1),
      (∀ m ∈ mappings (statics w), _ → _) ∧ ∀ e ∈ (servers w).entries, _ →
        if e.2 = (byparam env serverFile "DNAME" (((statics w).getD sid ∅).val "DNAME") w).1 then Comparable _ _ _
        else InRange _ _))

instance (c : Command) : Decidable c.Typed := inferInstanceAs (Decidable (∀ a ∈ c.args, _))

def turnOf (c : Command) (w : World) : Turn := ⟨noonEnv,c,w,((c.run conv wide v6 noonEnv w).getD (.fail,w)).2⟩

theorem turnOf_step {c : Command} {w : World} (ht : c.Typed)
    (h : (c.run conv wide v6 noonEnv w).map Prod.fst = some .ok) :
    (dhcpSystem conv wide v6).step w (turnOf conv wide v6 c w) (turnOf conv wide v6 c w).after := by
  obtain ⟨r,hr,he⟩ := Option.map_eq_some_iff.mp h
  have ha : (turnOf conv wide v6 c w).after = r.2 := by
    change ((c.run conv wide v6 noonEnv w).getD (.fail,w)).2 = r.2
    rw [hr]
    rfl
  refine ⟨rfl,rfl,ht,?_⟩
  rw [ha,← he]
  exact hr

/-- The server of an office with ten addresses, and a printer that has one of them. -/
def printerWorld : World := World.ofFiles [
  ("network",serverFile,textOf ["ID=s1","DNAME=lan","RANGE_START=192.168.1.10","RANGE_END=192.168.1.19","STAT=1"]),
  ("network",staticFile,textOf ["ID=m1","DNAME=lan","IP=192.168.1.12","MAC=00:11:22:33:44:55","STAT=1"])]

theorem printerWorld_kept : KeptFiles dhcpFiles printerWorld :=
  ⟨by decide,by decide,fun _ _ _ => Or.inl rfl⟩

/-- A mapping of a machine to an address, on the server that is shown first. -/
def mapTo (ip : Str) : Command := .addStatic (OrdMap.empty.set 1 "s1") ["1","00:11:22:33:44:66",ip,"scanner"]

/-- An address in the range that nobody has. -/
theorem fits_scanner : Fits (turnOf .dotted true ipv4Only (mapTo "192.168.1.13") printerWorld).after := by
  have hd : (Fits printerWorld ∧
      ((mapTo "192.168.1.13").run .dotted true ipv4Only noonEnv printerWorld).map Prod.fst = some .ok) ∧
      (mapTo "192.168.1.13").Meets true noonEnv printerWorld := by decide
  have hrun := System.Run.nil.snoc (turnOf_step .dotted true ipv4Only (by decide) hd.1.2)
  exact (fits_iff .dotted true ipv4Only rfl ⟨printerWorld_kept,hd.1.1⟩ hrun).mpr
    (fun t ht => by rw [List.mem_singleton.mp ht]; exact hd.2) _ (List.mem_singleton_self _)

/-- An address above the range is mapped as well. -/
theorem address_outside : ¬∀ (conv : Ip2long) (wide : Bool) (v6 : Ipv6) (w v : World) (ts : List Turn), v6.is [] = false →
    (dhcpSystem conv wide v6).init w → System.Run (dhcpSystem conv wide v6) w ts v → Fits v := by
  intro h
  have hd : (Fits printerWorld ∧
      ((mapTo "192.168.1.200").run .dotted true ipv4Only noonEnv printerWorld).map Prod.fst = some .ok) ∧
      ¬Fits (turnOf .dotted true ipv4Only (mapTo "192.168.1.200") printerWorld).after := by decide +kernel
  exact hd.2 (h .dotted true ipv4Only _ _ _ rfl ⟨printerWorld_kept,hd.1.1⟩
    (System.Run.nil.snoc (turnOf_step .dotted true ipv4Only (by decide) hd.1.2)))

end Reservations
end Mybox
