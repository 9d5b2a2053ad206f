import Mathlib.Data.List.Infix
import Mybox.AclList
import Mybox.DnsCommands
import Mybox.InterfaceIdentity
import Mybox.KeptFiles

/-! The default gateway: the static and the VLAN interfaces each have their own command for it, and the check they share
passes over the entries without a name or a type. -/
namespace Mybox
namespace DefaultGateway

open Php RegistryFormat Registry References Interfaces Definitions
open DnsCommands (strOnoff strOnoff_line)

variable (pcre : Pcre) (v6 : Ipv6) (env : Env)

/-- `!_NULL($_default) && $_default==1` -/
def isOne (s : Str) : Bool := !null s && looseOne s

def isDefault (d : Params) : Bool := isOne (d.val "DEFAULT")

def looked (d : Params) : Bool := !(null (d.val "NAME") || null (d.val "TYPE"))

def chckDefaultgw (w : World) : Bool × World :=
  let g := iniTokenGet env "network" "eth.cfg" ∅ w
  (if g.1.isEmpty then false else g.1.entries.any fun e => looked e.2 && isDefault e.2,g.2)

def interfacesSetGateway (type id enab gw : Str) (w : World) : Bool × World :=
  match interfaceOf env type id w with
  | (none,v) => (false,v)
  | (some _,v) =>
    if !null gw && !checkIp v6 gw then (false,v)
    else
      let c := if looseOne (strOnoff enab) then chckDefaultgw env v else (false,v)
      if c.1 then (false,c.2)
      else write env "eth.cfg" id (dataOf (("DEFAULT",strOnoff enab)::
        (if null gw then [] else [(("GATEWAY" : Str),gw)]))) c.2

def interfacesSetStaticGateway := interfacesSetGateway v6 env "static"

def interfacesSetVlanGateway := interfacesSetGateway v6 env "vlan"

/-- The commands that set up an interface, say which one has the default gateway, and delete one; `goOn` is the answer
to a ping, and `info` and `hwaddr` are the tables of the devices. -/
inductive Command
  | addStatic (id name ip nmask note : Str) (goOn : Bool)
  | addVlan (id name tag ip nmask note : Str) (goOn : Bool)
  | addDhcp (id name note : Str)
  | addPppoe (id name note : Str)
  | setStaticGateway (id enab gw : Str)
  | setVlanGateway (id enab gw : Str)
  | delete (id info hwaddr : Str)

/-- What the command returns, and the state after it. -/
def Command.run : Command → World → Option (Bool × World)
  | .addStatic id name ip nmask note goOn, w =>
    some (interfacesAddStatic env id name ip note ⟨checkIp v6 ip,goOn⟩ (Ipcalc.ip v6.is ip nmask) w)
  | .addVlan id name tag ip nmask note goOn, w =>
    some (interfacesAddVlan env id name tag ip note ⟨checkIp v6 ip,goOn⟩ (Ipcalc.ip v6.is ip nmask) w)
  | .addDhcp id name note, w => some (interfacesAddDhcp env id name note w)
  | .addPppoe id name note, w => some (interfacesAddPppoe env id name note w)
  | .setStaticGateway id enab gw, w => some (interfacesSetStaticGateway v6 env id enab gw w)
  | .setVlanGateway id enab gw, w => some (interfacesSetVlanGateway v6 env id enab gw w)
  | .delete id info hwaddr, w => interfacesDelete pcre env id info hwaddr w

def HasDefault (w : World) (id : Str) : Prop := isDefault ((ethEntries w).getD id ∅) = true

def OneDefault (w : World) : Prop := ∀ i j, HasDefault w i → HasDefault w j → i = j

theorem hasDefault_congr {w v : World} (h : v.reg = w.reg) (id : Str) : HasDefault v id ↔ HasDefault w id := by
  rw [HasDefault,HasDefault,ethEntries,ethEntries,entries_congr _ _ h]

theorem isDefault_empty : isDefault ∅ = false := rfl

theorem HasDefault.entry {w : World} {id : Str} (h : HasDefault w id) :
    ∃ d, (ethEntries w).get? id = some d ∧ isDefault d = true := by
  unfold HasDefault OrdMap.getD at h
  cases hg : (ethEntries w).get? id with
  | none =>
    rw [hg] at h
    simp [isDefault_empty] at h
  | some d =>
    rw [hg] at h
    exact ⟨d,rfl,h⟩

/-- The file is in order, and no entry has the default gateway that did not have it. -/
structure Fewer (w v : World) : Prop where
  kept : KeptFiles ["eth.cfg"] v
  fewer : ∀ id, HasDefault v id → HasDefault w id

theorem Fewer.trans {u v w : World} (h : Fewer u v) (h' : Fewer v w) : Fewer u w :=
  ⟨h'.kept,fun id hd => h.fewer id (h'.fewer id hd)⟩

theorem Fewer.one {w v : World} (h : Fewer w v) (ho : OneDefault w) : OneDefault v := fun i j hi hj =>
  ho i j (h.fewer i hi) (h.fewer j hj)

theorem fewer_quiet {w v : World} (h : KeptFiles ["eth.cfg"] w) (hq : Quiet w v) : Fewer w v :=
  ⟨h.quiet hq,fun id => (hasDefault_congr hq.reg id).mp⟩

theorem eth_kept : ("eth.cfg" : Str) ∈ [("eth.cfg" : Str)] := List.mem_singleton_self _

theorem default_shown : skipped "DEFAULT" = false := by decide

/-- The entry that is written has what it is given, or what it had. -/
theorem written_default {own : Option Str} {data : Params} {w v : World}
    (h : Registry.Written ["eth.cfg"] "eth.cfg" own data w v) (id : Str) (hd : HasDefault v id) :
    HasDefault w id ∨ (∀ i ∈ own, id = i) ∧ ∃ s, data.get? "DEFAULT" = some s ∧ isOne (carried s) = true := by
  obtain ⟨n,q,p,hown,he,hp⟩ := h.put
  unfold HasDefault at hd
  rw [ethEntries,he,OrdMap.getD] at hd
  by_cases hi : n = id
  · subst hi
    rw [OrdMap.get?_set_self,Option.getD_some,isDefault,hp "DEFAULT" default_shown] at hd
    cases hg : data.get? "DEFAULT" with
    | some s =>
      rw [hg] at hd
      refine Or.inr ⟨fun i hi => ?_,s,rfl,hd⟩
      rcases hown with ⟨ho,-⟩ | ⟨ho,-⟩
      · simpa [ho] using hi
      · simp [ho] at hi
    | none =>
      rw [hg] at hd
      rcases hown with ⟨-,hq⟩ | ⟨-,-,rfl⟩
      · refine Or.inl ?_
        rw [HasDefault,ethEntries,OrdMap.getD,hq]
        exact hd
      · exact absurd hd (by simp [show isOne (Params.val ∅ "DEFAULT") = false from rfl])
  · rw [OrdMap.get?_set_ne _ _ hi] at hd
    exact Or.inl hd

theorem update_default {w : World} (h : KeptFiles ["eth.cfg"] w) (id : Str) {data : Params} (hd : WritableData data) :
    KeptFiles ["eth.cfg"] (iniTokenUpdate env "network" "eth.cfg" id data w).2 ∧
    ∀ j, HasDefault (iniTokenUpdate env "network" "eth.cfg" id data w).2 j → HasDefault w j ∨
      j = id ∧ (iniTokenUpdate env "network" "eth.cfg" id data w).1 = .ok ∧
        ∃ s, data.get? "DEFAULT" = some s ∧ isOne (carried s) = true := by
  obtain ⟨hk,-,hr,-⟩ := h.update env eth_kept id hd
  refine ⟨hk,fun j hj => ?_⟩
  by_cases ho : (iniTokenUpdate env "network" "eth.cfg" id data w).1 = .ok
  · have hw := h.update_written env eth_kept hd (Prod.ext ho rfl)
    exact (written_default hw j hj).imp_right fun ⟨hi,hs⟩ => ⟨hi id rfl,ho,hs⟩
  · exact Or.inl ((hasDefault_congr (hr ho) j).mp hj)

theorem save_default {w : World} (h : KeptFiles ["eth.cfg"] w) {data : Params} (hd : NewData data)
    (hn : data.get? "DEFAULT" = none) {r : Ret × World} (hr : iniTokenSave env "network" "eth.cfg" data w = some r) :
    Fewer w r.2 := by
  obtain ⟨hk,-,hreg,-⟩ := h.save eth_kept hd hr
  refine ⟨hk,fun j hj => ?_⟩
  by_cases ho : r.1 = .ok
  · have hw := h.save_written eth_kept hd (v:=r.2) (by rw [hr,← ho])
    rcases written_default hw j hj with hj | ⟨-,s,hs,-⟩
    · exact hj
    · rw [hn] at hs
      simp at hs
  · exact (hasDefault_congr (hreg ho) j).mp hj

theorem write_default {w : World} (h : KeptFiles ["eth.cfg"] w) (id : Str) {data : Params} (hd : WritableData data) :
    KeptFiles ["eth.cfg"] (write env "eth.cfg" id data w).2 ∧
    ∀ j, HasDefault (write env "eth.cfg" id data w).2 j → HasDefault w j ∨
      j = id ∧ (iniTokenUpdate env "network" "eth.cfg" id data w).1 = .ok ∧
        ∃ s, data.get? "DEFAULT" = some s ∧ isOne (carried s) = true := by
  unfold write
  split
  · exact ⟨h,fun _ => Or.inl⟩
  · exact update_default env h id hd

theorem write_fewer {w : World} (h : KeptFiles ["eth.cfg"] w) (id : Str) {data : Params} (hd : WritableData data)
    (hn : data.get? "DEFAULT" = some ("0" : Str)) : Fewer w (write env "eth.cfg" id data w).2 := by
  obtain ⟨hk,hf⟩ := write_default env h id hd
  refine ⟨hk,fun j hj => (hf j hj).resolve_right ?_⟩
  rintro ⟨-,-,s,hs,ho⟩
  rw [hn,Option.some.injEq] at hs
  subst hs
  exact absurd ho (by decide)

theorem add_fewer {w : World} (h : KeptFiles ["eth.cfg"] w) (id name : Str) (ip : Option (Str × Probe)) {data : Params}
    (hd : (∀ x ∈ ip, x.2.valid = true) → WritableData data) (hn : data.get? "DEFAULT" = some ("0" : Str)) :
    Fewer w (interfacesAdd env id name ip data w).2 := by
  rcases interfacesAdd_cases env id name ip data w with ⟨-,hq⟩ | ⟨v,hq,he,-,hip⟩
  · exact fewer_quiet h hq
  · rw [he]
    exact (fewer_quiet h hq).trans (write_fewer env (h.quiet hq) id (hd fun x hx => (hip x hx).1.1) hn)

theorem addStatic_fewer {w : World} (h : KeptFiles ["eth.cfg"] w) (id : Str) {name : Str} (ip nmask : Str) {note : Str}
    (goOn : Bool) (hn : '\n' ∉ name) (ht : '\n' ∉ note) :
    Fewer w (interfacesAddStatic env id name ip note ⟨checkIp v6 ip,goOn⟩ (Ipcalc.ip v6.is ip nmask) w).2 := by
  have hr := fun k => (Ipcalc.ip_read v6.is ip nmask k).2.1
  refine add_fewer env h id name _ (fun hx => ?_) (Ipcalc.get?_dataOf staticKeys_nodup rfl _)
  exact writableData_of staticKeys_keyName rfl (staticEntries_lines hn (checkIp_read v6 (hx _ rfl)).2.1 hr ht)

theorem addVlan_fewer {w : World} (h : KeptFiles ["eth.cfg"] w) (id : Str) {name tag : Str} (ip nmask : Str)
    {note : Str} (goOn : Bool) (hn : '\n' ∉ name) (hg : '\n' ∉ tag) (ht : '\n' ∉ note) :
    Fewer w (interfacesAddVlan env id name tag ip note ⟨checkIp v6 ip,goOn⟩ (Ipcalc.ip v6.is ip nmask) w).2 := by
  have hr := fun k => (Ipcalc.ip_read v6.is ip nmask k).2.1
  refine add_fewer env h id name _ (fun hx => ?_) (Ipcalc.get?_dataOf vlanKeys_nodup rfl _)
  exact writableData_of vlanKeys_keyName rfl (vlanEntries_lines hn hg (checkIp_read v6 (hx _ rfl)).2.1 hr ht)

theorem addDhcp_fewer {w : World} (h : KeptFiles ["eth.cfg"] w) (id : Str) {name note : Str} (hn : '\n' ∉ name)
    (ht : '\n' ∉ note) : Fewer w (interfacesAddDhcp env id name note w).2 :=
  add_fewer env h id name none (fun _ => writableData_of dhcpKeys_keyName rfl (dhcpEntries_lines hn ht))
    (Ipcalc.get?_dataOf dhcpKeys_nodup rfl _)

theorem addPppoe_fewer {w : World} (h : KeptFiles ["eth.cfg"] w) (id : Str) {name note : Str} (hn : '\n' ∉ name)
    (ht : '\n' ∉ note) : Fewer w (interfacesAddPppoe env id name note w).2 := by
  rw [interfacesAddPppoe_eq]
  exact add_fewer env h id name none (fun _ => writableData_of pppoeKeys_keyName rfl (pppoeEntries_lines hn ht))
    (Ipcalc.get?_dataOf pppoeKeys_nodup rfl _)

/-- What a line gives the default gateway of its entry. -/
def setting (l : Str) : Option Str := (parameter l).bind fun x => if x.1 = "DEFAULT" then some x.2 else none

/-- The line stays, or one that starts no entry and says nothing of the default gateway becomes one that starts none
and does not switch it on. -/
def Tame (l l' : Str) : Prop :=
  l' = l ∨ (sectionName l = none ∧ setting l = none) ∧ '\n' ∉ l' ∧
    (trim l' = [] ∨ PlainLine (trim l') ∧ sectionName (trim l') = none ∧ ∀ s ∈ setting (trim l'), isOne s = false)

def defaultIn (st : Reading) (id : Str) : Bool := isDefault (st.token.getD id ∅)

theorem defaultIn_assign (st : Reading) (n a b id : Str) : defaultIn (st.assign n a b) id =
    if id = n ∧ a = ("DEFAULT" : Str) then isOne b else defaultIn st id := by
  unfold defaultIn Reading.assign OrdMap.getD
  by_cases hi : n = id
  · subst hi
    rw [OrdMap.get?_set_self,Option.getD_some,isDefault,val_set]
    by_cases ha : a = ("DEFAULT" : Str)
    · rw [if_pos ha,if_pos ⟨rfl,ha⟩]
    · rw [if_neg ha,if_neg fun h => ha h.2]
      rfl
  · rw [OrdMap.get?_set_ne _ _ hi,if_neg fun h => hi h.1.symm]

/-- A line that starts no entry belongs to the one that is open. -/
theorem readLine_inside {l : Str} (h : sectionName l = none) (st : Reading) :
    (readLine st l).tname = st.tname ∧ ∀ id, defaultIn (readLine st l) id =
      if id = st.tname ∧ st.tname ≠ [] then (setting l).elim (defaultIn st id) isOne else defaultIn st id := by
  unfold readLine
  rw [h]
  by_cases hc : l.head? = some '#'
  · have hs : setting l = none := by rw [setting,parameter,if_pos (Or.inl hc)]; rfl
    rw [if_pos hc,hs]
    exact ⟨rfl,fun id => (ite_self _).symm⟩
  · rw [if_neg hc]
    dsimp only
    split
    · rename_i hn
      exact ⟨rfl,fun id => (if_neg fun hh => hh.2 (null_iff.mp hn)).symm⟩
    · rename_i hn
      split
      · rename_i hk
        have hs : setting l = none := by rw [setting,parameter,if_pos (Or.inr (Or.inr (null_iff.mp hk)))]; rfl
        rw [hs]
        exact ⟨rfl,fun id => (ite_self _).symm⟩
      · rename_i hk
        have hs : setting l = if (splitParam l).1 = ("DEFAULT" : Str) then some (splitParam l).2 else none := by
          rw [setting,parameter,if_neg (by simp only [not_or]; exact ⟨hc,by simp [h],by simpa using hk⟩)]
          rfl
        refine ⟨rfl,fun id => ?_⟩
        have hne : st.tname ≠ [] := by simpa using hn
        rw [defaultIn_assign,hs]
        by_cases hi : id = st.tname
        · by_cases hd : (splitParam l).1 = ("DEFAULT" : Str) <;> simp [hi,hd,hne]
        · simp [hi]

/-- Two readings at the same entry, the second with no default gateway that the first has not. -/
structure FewerRead (st st' : Reading) : Prop where
  tname : st'.tname = st.tname
  fewer : ∀ id, defaultIn st' id = true → defaultIn st id = true

theorem FewerRead.line {st st' : Reading} (h : FewerRead st st') (l : Str) :
    FewerRead (readLine st l) (readLine st' l) := by
  cases hs : sectionName l with
  | none =>
    obtain ⟨ht,hd⟩ := readLine_inside hs st
    obtain ⟨ht',hd'⟩ := readLine_inside hs st'
    refine ⟨by rw [ht,ht',h.tname],fun id hi => ?_⟩
    rw [hd',h.tname] at hi
    rw [hd]
    split at hi
    · rename_i hc
      rw [if_pos hc]
      cases hset : setting l with
      | none =>
        rw [hset] at hi
        exact h.fewer id hi
      | some s =>
        rw [hset] at hi
        exact hi
    · rename_i hc
      rw [if_neg hc]
      exact h.fewer id hi
  | some n =>
    unfold readLine
    rw [hs]
    split
    · exact h
    · have hk : ∀ id, ¬ (id = n ∧ dataId = ("DEFAULT" : Str)) := fun id hh => absurd hh.2 (by decide)
      refine ⟨rfl,fun id hi => ?_⟩
      dsimp only at hi ⊢
      rw [defaultIn_assign,if_neg (hk id)] at hi ⊢
      exact h.fewer id hi

theorem FewerRead.replaced {st st' : Reading} (h : FewerRead st st') {l l' : Str} (hl : sectionName l = none)
    (hs : setting l = none) (hl' : sectionName l' = none) (hs' : ∀ s ∈ setting l', isOne s = false) :
    FewerRead (readLine st l) (readLine st' l') := by
  obtain ⟨ht,hd⟩ := readLine_inside hl st
  obtain ⟨ht',hd'⟩ := readLine_inside hl' st'
  refine ⟨by rw [ht,ht',h.tname],fun id hi => ?_⟩
  rw [hd,hs,Option.elim_none,ite_self]
  rw [hd'] at hi
  split at hi
  · cases hset : setting l' with
    | none =>
      rw [hset] at hi
      exact h.fewer id hi
    | some s =>
      rw [hset,Option.elim_some,hs' s hset] at hi
      simp at hi
  · exact h.fewer id hi

theorem FewerRead.dropped {st st' : Reading} (h : FewerRead st st') {l : Str} (hl : sectionName l = none)
    (hs : setting l = none) : FewerRead (readLine st l) st' := by
  obtain ⟨ht,hd⟩ := readLine_inside hl st
  refine ⟨h.tname.trans ht.symm,fun id hi => ?_⟩
  rw [hd,hs,Option.elim_none,ite_self]
  exact h.fewer id hi

def lineOf (l : Str) : List Str := if trim l = [] then [] else [trim l]

theorem FewerRead.tame {st st' : Reading} (h : FewerRead st st') {l l' : Str} (hl : IsLine l) (ht : Tame l l') :
    FewerRead (readLine st l) ((lineOf l').foldl readLine st') := by
  unfold lineOf
  rcases ht with rfl | ⟨⟨hn,hs⟩,-,hb | ⟨-,hn',hs'⟩⟩
  · rw [hl.trimmed,if_neg hl.ne]
    exact h.line l'
  · rw [if_pos hb]
    exact h.dropped hn hs
  · split
    · exact h.dropped hn hs
    · exact h.replaced hn hs hn' hs'

theorem file_rewritten (n new : Str) {ls : List Str} (h : ∀ l ∈ ls, '\n' ∉ removeLine pcre n new l) :
    file (ls.flatMap fun l => removeLine pcre n new l ++ ['\n']) =
      ls.flatMap fun l => lineOf (removeLine pcre n new l) := by
  induction ls with
  | nil => rfl
  | cons l ls ih =>
    rw [List.flatMap_cons,List.flatMap_cons,List.append_assoc,List.singleton_append,file_line (h l (by simp)),
      ih fun x hx => h x (List.mem_cons_of_mem _ hx)]
    rfl

/-- A text after a rewriting, or any other: it is read, and gives no entry a default gateway it did not have. -/
structure FewerText (s s' : Str) : Prop where
  plain : Plain s → Plain s'
  fewer : ∀ id, isDefault ((readText s' ∅).getD id ∅) = true → isDefault ((readText s ∅).getD id ∅) = true

theorem FewerText.refl (s : Str) : FewerText s s := ⟨id,fun _ => id⟩

theorem Tame.line {l l' : Str} (hl : IsLine l) (h : Tame l l') : '\n' ∉ l' := by
  rcases h with rfl | ⟨-,hn,-⟩
  · exact hl.newline
  · exact hn

theorem removeText_fewer {n new s : Str} (h : ∀ l ∈ file s, Tame l (removeLine pcre n new l)) :
    FewerText s (removeText pcre n new s) := by
  have hf := file_rewritten pcre n new fun l hl => (h l hl).line (isLine_of_mem hl)
  constructor
  · intro hp l hl
    rw [removeText,hf] at hl
    obtain ⟨x,hx,hm⟩ := List.mem_flatMap.mp hl
    unfold lineOf at hm
    split at hm
    · simp at hm
    · rename_i hne
      obtain rfl := List.mem_singleton.mp hm
      rcases h x hx with he | ⟨-,-,hb | ⟨hpl,-⟩⟩
      · rw [he,(isLine_of_mem hx).trimmed]
        exact hp x hx
      · exact absurd hb hne
      · exact hpl
  · have fold : ∀ ls : List Str, (∀ l ∈ ls, IsLine l ∧ Tame l (removeLine pcre n new l)) → ∀ st st', FewerRead st st' →
        FewerRead (ls.foldl readLine st) ((ls.flatMap fun l => lineOf (removeLine pcre n new l)).foldl readLine st') := by
      intro ls
      induction ls with
      | nil => exact fun _ _ _ h => h
      | cons l ls ih =>
        intro hm st st' hst
        rw [List.flatMap_cons,List.foldl_append]
        have hl := hm l (by simp)
        exact ih (fun x hx => hm x (List.mem_cons_of_mem _ hx)) _ _ (hst.tame hl.1 hl.2)
    intro id hd
    unfold readText removeText at *
    rw [hf] at hd
    exact (fold (file s) (fun l hl => ⟨isLine_of_mem hl,h l hl⟩) ⟨[],∅⟩ ⟨[],∅⟩ ⟨rfl,fun _ hi => hi⟩).fewer id hd

theorem remove_fewer {n new : Str} {w : World}
    (h : ∀ l ∈ linesOf ("network","eth.cfg") w, Tame l (removeLine pcre n new l)) :
    FewerText (text "network" "eth.cfg" w) (text "network" "eth.cfg" (iniTokenRemove pcre env n new w)) := by
  have ht := text_iniTokenRemove pcre env n new ("network","eth.cfg") w
  dsimp only at ht
  rw [ht,removeFile]
  split
  · exact removeText_fewer pcre h
  · exact .refl _

def cutKeys : List Str := referenceKeys.flatMap fun k => k::k.tails.flatMap fun t => t.inits.map fun n =>
  if n = [] then k else LineText.replaceAll n [] k

instance (l : Str) : Decidable (PlainLine l) := inferInstanceAs (Decidable (_ ∨ _ ∨ _ ∧ _))

theorem cutKeys_hidden : ∀ k ∈ cutKeys, hidden k = false := by
  decide +kernel

/-- A key without a value, whatever is left of the key. -/
theorem line_tame {k : Str} (hb : ∀ c ∈ k, trimChar c = false) (he : '=' ∉ k) (hh : hidden k = false) :
    '\n' ∉ k ++ ['='] ∧ PlainLine (trim (k ++ ['='])) ∧ sectionName (trim (k ++ ['='])) = none ∧
      ∀ s ∈ setting (trim (k ++ ['='])), isOne s = false := by
  have hc : ∀ c ∈ k ++ ['='], trimChar c = false := by
    intro c hc
    rcases List.mem_append.mp hc with hc | hc
    · exact hb c hc
    · rw [List.mem_singleton.mp hc]
      rfl
  have hn : '\n' ∉ k ++ ['='] := fun hm => absurd (hc _ hm) (by decide)
  have hs : sectionName (k ++ ['=']) = none := by
    unfold sectionName
    split
    · next r hr =>
      -- a name behind the first equals sign would have the last one in the key
      rw [if_neg]
      rintro ⟨hne,-⟩
      obtain ⟨a,x,rfl⟩ := (List.eq_nil_or_concat' r).resolve_left hne
      have hk : k = 'I':: 'D':: '='::a := (List.append_inj' (hr.trans (by simp : 'I':: 'D':: '='::(a ++ [x]) = ('I':: 'D':: '='::a) ++ [x])) rfl).1
      exact he (by simp [hk])
    · rfl
  have hp : splitParam (k ++ ['=']) = (k,[]) :=
    Prod.ext ((carried_append k []).trans (carried_eq (trim_of_black hb) he)) (splitParam_snd_append he [])
  rw [trim_of_black hc]
  refine ⟨hn,Or.inr (Or.inr ?_),hs,fun s hm => ?_⟩
  · rw [hp]
    exact ⟨hh,hs⟩
  · rw [setting,parameter,hp] at hm
    split at hm
    · cases hm
    · rw [Option.bind_some] at hm
      split at hm
      · cases hm
        rfl
      · cases hm

theorem mem_cutKeys {n k : Str} (hn : n ≠ []) (hk : k ∈ referenceKeys) : LineText.replaceAll n [] k ∈ cutKeys := by
  refine List.mem_flatMap.mpr ⟨k,hk,?_⟩
  by_cases hi : n <:+: k
  · obtain ⟨t,hp,hs⟩ := List.infix_iff_prefix_suffix.mp hi
    refine List.mem_cons_of_mem _ (List.mem_flatMap.mpr ⟨t,(List.mem_tails _ _).mpr hs,?_⟩)
    exact List.mem_map.mpr ⟨n,(List.mem_inits _ _).mpr hp,if_neg hn⟩
  · rw [LineText.replaceAll_of_not_infix [] hi]
    exact List.mem_cons_self

/-- A name without special characters is taken out of such lines only, even when it is a part of a key. -/
theorem tame_plain {n l : Str} (hn : PlainName n) (hl : IsLine l) : Tame l (removeLine pcre n [] l) := by
  by_cases hr : Reached n l
  · obtain ⟨k,hk,rfl⟩ := hr
    have hkn := referenceKeys_keyName k hk
    have hs : setting (k ++ '=' :: n) = none := by
      have hne : ∀ k ∈ referenceKeys, k ≠ ("DEFAULT" : Str) := by decide
      rw [setting,show parameter (k ++ '=' :: n) = some (k,n) from parameter_paramLine (hn.paramOk hkn),
        Option.bind_some,if_neg (hne k hk)]
    have hm : ∀ c ∈ LineText.replaceAll n [] k, c ∈ k := fun c hc => (LineText.replaceAll_mem _ hc).resolve_left (by simp)
    obtain ⟨h₁,h₂,h₃,h₄⟩ := line_tame (fun c hc => hkn.black c (hm c hc)) (fun hc => hkn.eq (hm _ hc))
      (cutKeys_hidden _ (mem_cutKeys hn.ne hk))
    rw [removeLine_nil pcre hn hk]
    exact Or.inr ⟨⟨sectionName_paramLine hkn n,hs⟩,h₁,Or.inr ⟨h₂,h₃,h₄⟩⟩
  · exact Or.inl (removeLine_of_not_reached pcre hn.literal hl.newline hr)

/-- Entries that are written back have the default gateway they had. -/
theorem updateNicEntries_fewer {key : Str} (hk : KeyName key) (hne : key ≠ ("DEFAULT" : Str)) {t : Token}
    (ht : Canonical t) {w : World} (hn : ∀ e ∈ t.entries, isDefault e.2 = true → HasDefault w e.1) {r : Params × World}
    (h : Fewer w r.2) (hr : ReadTable r.1) :
    Fewer w (updateNicEntries env key t r).2 ∧ ReadTable (updateNicEntries env key t r).1 := by
  unfold updateNicEntries
  have hsub : ∀ e ∈ t.entries, EntryOk e.1 e.2 := ht
  generalize t.entries = es at hn hsub
  induction es generalizing r with
  | nil => exact ⟨h,hr⟩
  | cons e es ih =>
    rw [List.foldl_cons]
    dsimp only
    have hn' := fun x hx => hn x (List.mem_cons_of_mem _ hx)
    have hs' := fun x hx => hsub x (List.mem_cons_of_mem _ hx)
    have hok := hsub e (by simp)
    split
    · exact ih h hr hn' hs'
    · rename_i hc
      simp only [Bool.or_eq_true,not_or,null_iff] at hc
      have hv : ReadValue (r.1.val (e.2.val "DEVICE")) := hr.val hc.2
      have hd : WritableData (e.2.set key (r.1.val (e.2.val "DEVICE"))) := by
        intro x hx
        rcases OrdMap.mem_set hx with rfl | hx
        · exact Or.inr (Or.inl ⟨hv.2.1,hk⟩)
        · exact hok.writable x hx
      obtain ⟨hkept,hf⟩ := update_default env h.kept e.1 hd
      refine ih (r := (r.1.erase (e.2.val "DEVICE"),(iniTokenUpdate env "network" "eth.cfg" e.1
        (e.2.set key (r.1.val (e.2.val "DEVICE"))) r.2).2)) ⟨hkept,fun j hj => ?_⟩ (hr.erase _) hn' hs'
      rcases hf j hj with hj | ⟨rfl,-,s,hs,ho⟩
      · exact h.fewer j hj
      · rw [OrdMap.get?_set_ne _ _ hne] at hs
        have hcs : carried s = s := by
          have hp := congrArg (fun p : Params => p.get? "DEFAULT") (carriedParams_entry hok)
          simp only [carriedParams,OrdMap.get?_mapEntries,hs,Option.map_some,Option.some.injEq] at hp
          rwa [carriedValue,default_shown] at hp
        refine hn e (by simp) ?_
        rw [isDefault,Params.val,OrdMap.getD,hs,Option.getD_some,← hcs]
        exact ho

theorem nicEntries_default {w : World} : ∀ e ∈ (ethEntries w).entries, isDefault e.2 = true → HasDefault w e.1 := by
  intro e he hd
  rw [HasDefault,OrdMap.getD,OrdMap.get?_eq_some.mpr (show (e.1,e.2) ∈ (ethEntries w).entries from he)]
  exact hd

def deviceKeys : List Str := ["DEVICE","VENDOR","STAT"]

theorem deviceKeys_new : ∀ k ∈ deviceKeys, KeyName k ∧ skipped k = false := by decide

theorem deviceKeys_nodup : deviceKeys.Nodup := by decide

theorem saveDevices_fewer {es : List (Str × Str)} (he : ∀ x ∈ es, ReadValue x.1 ∧ ReadValue x.2) {w u v : World}
    (h : Fewer w u) (hv : es.foldlM (fun w e => (iniTokenSave env "network" "eth.cfg"
      (dataOf [("DEVICE",e.1),("VENDOR",e.2),("STAT","0")]) w).map Prod.snd) u = some v) : Fewer w v := by
  induction es generalizing u with
  | nil =>
    simp only [List.foldlM_nil,Option.pure_def,Option.some.injEq] at hv
    subst hv
    exact h
  | cons e es ih =>
    rw [List.foldlM_cons] at hv
    obtain ⟨u',hu',hv⟩ := Option.bind_eq_some_iff.mp hv
    obtain ⟨r,hr,rfl⟩ := Option.map_eq_some_iff.mp hu'
    obtain ⟨h₁,h₂⟩ := he e (by simp)
    have hd : NewData (dataOf [("DEVICE",e.1),("VENDOR",e.2),("STAT","0")]) := by
      refine newData_of deviceKeys_new rfl ?_
      simp only [List.forall_mem_cons]
      exact ⟨h₁.2.1,h₂.2.1,by decide,by simp⟩
    have hn : (dataOf [("DEVICE",e.1),("VENDOR",e.2),("STAT","0")]).get? "DEFAULT" = none := by
      rw [Ipcalc.get?_dataOf deviceKeys_nodup rfl]
      rfl
    exact ih (fun x hx => he x (List.mem_cons_of_mem _ hx)) (h.trans (save_default env h.kept hd hn hr)) hv

theorem updateNicDevice_fewer {w : World} (h : KeptFiles ["eth.cfg"] w) (info : Str) {v : World}
    (hv : updateNicDevice env info w = some v) : Fewer w v := by
  have hg := iniTokenGet_fst env "network" "eth.cfg" (h.coherent "eth.cfg")
  have hq := get_quiet env "eth.cfg" w
  unfold updateNicDevice at hv
  split at hv
  · obtain rfl := Option.some.inj hv
    exact fewer_quiet h (Quiet.refl w)
  · dsimp only at hv
    split at hv
    · obtain rfl := Option.some.inj hv
      exact fewer_quiet h hq
    · rw [hg] at hv
      obtain ⟨hf,hr⟩ := updateNicEntries_fewer env (by decide : KeyName "VENDOR") (by decide) (h.canonical eth_kept)
        nicEntries_default (r := (nicTable info,(iniTokenGet env "network" "eth.cfg" ∅ w).2)) (fewer_quiet h hq)
        (nicTable_read info)
      exact saveDevices_fewer env hr hf hv

theorem updateNicHwaddr_fewer {w : World} (h : KeptFiles ["eth.cfg"] w) (hwaddr : Str) :
    Fewer w (updateNicHwaddr env hwaddr w) := by
  have hg := iniTokenGet_fst env "network" "eth.cfg" (h.coherent "eth.cfg")
  have hq := get_quiet env "eth.cfg" w
  unfold updateNicHwaddr
  split
  · exact fewer_quiet h (Quiet.refl w)
  · dsimp only
    split
    · exact fewer_quiet h hq
    · rw [hg]
      exact (updateNicEntries_fewer env (by decide : KeyName "HWADDR") (by decide) (h.canonical eth_kept)
        nicEntries_default (r := (nicTable hwaddr,(iniTokenGet env "network" "eth.cfg" ∅ w).2)) (fewer_quiet h hq)
        (nicTable_read hwaddr)).1

/-- The name of the interface is taken out of lines that have nothing to do with the default gateway. -/
def Undisturbed (id : Str) (w : World) : Prop := env.strg = true → nameOf "network" "eth.cfg" id w ≠ [] →
  ∀ l ∈ linesOf ("network","eth.cfg") (without env "network" "eth.cfg" id w),
    Tame l (removeLine pcre (nameOf "network" "eth.cfg" id w) [] l)

theorem undisturbed_literal {id : Str} {w : World} (h : Literal (nameOf "network" "eth.cfg" id w)) :
    Undisturbed pcre env id w := fun _ hn _ hl => tame_plain pcre (nameOf_plain hn h) (isLine_of_mem hl)

theorem iniTokenDelete_fewer {w : World} (h : KeptFiles ["eth.cfg"] w) {id : Str} (hu : Undisturbed pcre env id w) :
    Fewer w (iniTokenDelete pcre env "network" "eth.cfg" id w).2 := by
  have hreg := iniTokenDelete_deleted pcre env id (h.coherent "eth.cfg")
  have hfresh : Fresh (iniTokenDelete pcre env "network" "eth.cfg" id w).2 :=
    iniTokenDelete_fresh pcre env id looked_network h.fresh
  generalize (iniTokenDelete pcre env "network" "eth.cfg" id w).2 = v at *
  obtain ⟨he,hp,hl⟩ := entries_without env id (h.plain "eth.cfg" eth_kept)
  have erased : ∀ j, isDefault ((readText (text "network" "eth.cfg" (without env "network" "eth.cfg" id w)) ∅).getD j
      ∅) = true → HasDefault w j := by
    intro j hj
    rw [show readText (text "network" "eth.cfg" (without env "network" "eth.cfg" id w)) ∅ = _ from he,OrdMap.getD,
      OrdMap.get?_erase] at hj
    split at hj
    · simp [isDefault_empty] at hj
    · exact hj
  unfold deleted at hreg
  split at hreg
  · rename_i hc
    rw [Bool.and_eq_true] at hc
    split at hreg
    · have ht : text "network" "eth.cfg" v = text "network" "eth.cfg" (without env "network" "eth.cfg" id w) := by
        rw [text,hreg]
        rfl
      refine ⟨⟨by simpa [ht] using hp,by simpa [ht] using hl,hfresh⟩,fun j hj => erased j ?_⟩
      rw [← ht]
      exact hj
    · rename_i hn
      have ht : text "network" "eth.cfg" v = text "network" "eth.cfg" (iniTokenRemove pcre env
          (nameOf "network" "eth.cfg" id w) [] (without env "network" "eth.cfg" id w)) := by
        rw [text,hreg]
        rfl
      have hf := remove_fewer pcre env (hu hc.1 (by simpa using hn))
      have hl' := iniTokenRemove_ended pcre env (nameOf "network" "eth.cfg" id w) [] "network" "eth.cfg" hl
      rw [← ht] at hf hl'
      exact ⟨⟨by simpa using hf.plain hp,by simpa using hl',hfresh⟩,fun j hj => erased j (hf.fewer j hj)⟩
  · exact ⟨h.congr hreg hfresh,fun j => (hasDefault_congr hreg j).mp⟩

theorem delete_fewer {w : World} (h : KeptFiles ["eth.cfg"] w) {id : Str} (info hwaddr : Str)
    (hu : Undisturbed pcre env id w) {r : Bool × World} (hr : interfacesDelete pcre env id info hwaddr w = some r) :
    Fewer w r.2 := by
  have hd := iniTokenDelete_fewer pcre env h hu
  unfold interfacesDelete at hr
  dsimp only at hr
  split at hr
  · obtain ⟨v,hv,rfl⟩ := Option.map_eq_some_iff.mp hr
    have hdev := hd.trans (updateNicDevice_fewer env hd.kept info hv)
    exact hdev.trans (updateNicHwaddr_fewer env hdev.kept hwaddr)
  · obtain rfl := Option.some.inj hr
    exact hd

theorem chckDefaultgw_fst {w : World} (h : KeptFiles ["eth.cfg"] w) : (chckDefaultgw env w).1 = true ↔
    ∃ e ∈ (ethEntries w).entries, looked e.2 = true ∧ isDefault e.2 = true := by
  unfold chckDefaultgw
  dsimp only
  rw [iniTokenGet_fst env "network" "eth.cfg" (h.coherent "eth.cfg")]
  split
  · rename_i he
    rw [show ethEntries w = ∅ from OrdMap.isEmpty_iff.mp he]
    simp
  · simp [List.any_eq_true]

def gatewayData (enab gw : Str) : Params :=
  dataOf (("DEFAULT",strOnoff enab)::(if null gw then [] else [(("GATEWAY" : Str),gw)]))

theorem gatewayData_default (enab gw : Str) : (gatewayData enab gw).get? "DEFAULT" = some (strOnoff enab) := by
  unfold gatewayData
  split
  · rw [@Ipcalc.get?_dataOf _ ["DEFAULT"] (by decide) rfl]
    exact OrdMap.lookup_cons_self _ _ _
  · rw [@Ipcalc.get?_dataOf _ ["DEFAULT","GATEWAY"] (by decide) rfl]
    exact OrdMap.lookup_cons_self _ _ _

theorem gatewayData_writable {enab gw : Str} (he : '\n' ∉ enab) (hg : null gw = false → checkIp v6 gw = true) :
    WritableData (gatewayData enab gw) := by
  unfold gatewayData
  split
  · exact @writableData_of _ ["DEFAULT"] (by decide) rfl (by simpa using strOnoff_line he)
  · rename_i hn
    refine @writableData_of _ ["DEFAULT","GATEWAY"] (by decide) rfl ?_
    simp only [List.forall_mem_cons]
    exact ⟨strOnoff_line he,(checkIp_read v6 (hg (by simpa using hn))).2.1,by simp⟩

theorem gatewayData_name (enab gw : Str) : (gatewayData enab gw).val "NAME" = [] := by
  have hn : (gatewayData enab gw).get? "NAME" = none := by
    unfold gatewayData
    split
    · rw [@Ipcalc.get?_dataOf _ ["DEFAULT"] (by decide) rfl]
      rfl
    · rw [@Ipcalc.get?_dataOf _ ["DEFAULT","GATEWAY"] (by decide) rfl]
      rfl
  rw [Params.val,OrdMap.getD,hn]
  rfl

/-- The command gets to its write, and switches the default gateway on. -/
def switchesOn (type id enab gw : Str) (w : World) : Bool := env.strg && ((ethEntries w).get? id).any (ofType type) &&
  (null gw || checkIp v6 gw) && isOne (carried (strOnoff enab))

/-- The other interfaces that have the default gateway are then seen by the check. -/
def Seen (type id enab gw : Str) (w : World) : Prop := switchesOn v6 env type id enab gw w = true →
  ∀ e ∈ (ethEntries w).entries, e.1 ≠ id → isDefault e.2 = true → looseOne (strOnoff enab) = true ∧ looked e.2 = true

/-- The write keeps to one entry if, where it is done, the entry is the only one to have had the default gateway. -/
theorem writeGateway_one {w v : World} (h : KeptFiles ["eth.cfg"] w) (ho : OneDefault w) (hq : Quiet w v) (id : Str)
    {enab gw : Str} (he : '\n' ∉ enab) (hg : null gw = false → checkIp v6 gw = true)
    (hon : env.strg = true → (∃ q, (ethEntries w).get? id = some q) → isOne (carried (strOnoff enab)) = true →
      ∀ i, HasDefault w i → i = id) :
    KeptFiles ["eth.cfg"] (write env "eth.cfg" id (gatewayData enab gw) v).2 ∧
      OneDefault (write env "eth.cfg" id (gatewayData enab gw) v).2 := by
  have hd := gatewayData_writable v6 he hg
  have hv := h.quiet hq
  obtain ⟨hk,hf⟩ := write_default env hv id hd
  refine ⟨hk,fun i j hi hj => ?_⟩
  -- an entry that has the default gateway now had it before, or has been given it
  have own : ∀ i, HasDefault (write env "eth.cfg" id (gatewayData enab gw) v).2 i →
      HasDefault w i ∨ i = id ∧ ∀ j, HasDefault w j → j = id := by
    intro i hi
    refine (hf i hi).imp (hasDefault_congr hq.reg i).mp ?_
    rintro ⟨hid,hok,s,hs,h₁⟩
    rw [gatewayData_default,Option.some.injEq] at hs
    subst hs
    obtain ⟨q,hget,-⟩ := (hv.update env eth_kept id hd).2.2.2 hok
    rw [entries_congr _ _ hq.reg] at hget
    exact ⟨hid,hon (AccessList.update_ok_of env (gatewayData_name enab gw) (by rw [hok]; simp)).2 ⟨q,hget⟩ h₁⟩
  rcases own i hi with hi' | ⟨hid,h₁⟩ <;> rcases own j hj with hj' | ⟨hjd,h₂⟩
  · exact ho i j hi' hj'
  · exact (h₂ i hi').trans hjd.symm
  · exact hid.trans (h₁ j hj').symm
  · exact hid.trans hjd.symm

theorem setGateway_one {w : World} (h : KeptFiles ["eth.cfg"] w) (ho : OneDefault w) {type id enab gw : Str}
    (he : '\n' ∉ enab) (hs : Seen v6 env type id enab gw w) :
    KeptFiles ["eth.cfg"] (interfacesSetGateway v6 env type id enab gw w).2 ∧
      OneDefault (interfacesSetGateway v6 env type id enab gw w).2 := by
  have quiet : ∀ v, Quiet w v → KeptFiles ["eth.cfg"] v ∧ OneDefault v := fun v hq =>
    ⟨h.quiet hq,(fewer_quiet h hq).one ho⟩
  unfold interfacesSetGateway
  have hq := interfaceOf_quiet env type id w
  generalize hi : interfaceOf env type id w = r at hq
  rcases r with ⟨_ | p,v⟩
  · exact quiet v hq
  · dsimp only at hq ⊢
    split
    · exact quiet v hq
    · rename_i hg
      have hg' : null gw = false → checkIp v6 gw = true := fun hn => by simpa [hn] using hg
      -- the condition, for a write that is done
      have seen : env.strg = true → (∃ q, (ethEntries w).get? id = some q) → isOne (carried (strOnoff enab)) = true →
          ∀ e ∈ (ethEntries w).entries, e.1 ≠ id → isDefault e.2 = true →
            looseOne (strOnoff enab) = true ∧ looked e.2 = true := by
        rintro hstrg ⟨q,hget⟩ h₁
        have ht := (interfaceOf_entry env h.fresh hi hget).1 ▸ (interfaceOf_entry env h.fresh hi hget).2
        refine hs ?_
        cases hn : null gw with
        | true => simp [switchesOn,hstrg,hget,ht,hn,h₁]
        | false => simp [switchesOn,hstrg,hget,ht,hg' hn,h₁]
      by_cases hone : looseOne (strOnoff enab) = true
      · rw [if_pos hone]
        have hq' : Quiet w (chckDefaultgw env v).2 := hq.trans (get_quiet env "eth.cfg" v)
        split
        · exact quiet _ hq'
        · rename_i hc
          refine writeGateway_one v6 env h ho hq' id he hg' fun hstrg hget hon i hi => ?_
          by_contra hne
          obtain ⟨d,hd,h₁⟩ := hi.entry
          have hm := OrdMap.get?_eq_some.mp hd
          refine hc ((chckDefaultgw_fst env (h.quiet hq)).mpr ⟨(i,d),?_,(seen hstrg hget hon (i,d) hm hne h₁).2,h₁⟩)
          rwa [ethEntries,entries_congr _ _ hq.reg]
      · rw [if_neg hone]
        refine writeGateway_one v6 env h ho hq id he hg' fun hstrg hget hon i hi => ?_
        by_contra hne
        obtain ⟨d,hd,h₁⟩ := hi.entry
        exact hone (seen hstrg hget hon (i,d) (OrdMap.get?_eq_some.mp hd) hne h₁).1

/-- What is typed is one line; the interfaces with the default gateway have a name and a type when it is switched on
for another one; and a name that is taken out is not one that turns lines into others that switch it on. -/
def Command.Safe : Command → World → Prop
  | .addStatic _ name _ _ note _, _ => '\n' ∉ name ∧ '\n' ∉ note
  | .addVlan _ name tag _ _ note _, _ => '\n' ∉ name ∧ '\n' ∉ tag ∧ '\n' ∉ note
  | .addDhcp _ name note, _ => '\n' ∉ name ∧ '\n' ∉ note
  | .addPppoe _ name note, _ => '\n' ∉ name ∧ '\n' ∉ note
  | .setStaticGateway id enab gw, w => '\n' ∉ enab ∧ Seen v6 env "static" id enab gw w
  | .setVlanGateway id enab gw, w => '\n' ∉ enab ∧ Seen v6 env "vlan" id enab gw w
  | .delete id _ _, w => Undisturbed pcre env id w

/-- The file is in order, and at most one entry has the default gateway. -/
structure Gated (w : World) : Prop where
  kept : KeptFiles ["eth.cfg"] w
  one : OneDefault w

theorem Fewer.gated {w v : World} (h : Fewer w v) (hw : Gated w) : Gated v := ⟨h.kept,h.one hw.one⟩

theorem step_gated {c : Command} {w : World} (h : Gated w) (hs : c.Safe pcre v6 env w) {r : Bool × World}
    (hr : c.run pcre v6 env w = some r) : Gated r.2 := by
  cases c with
  | addStatic id name ip nmask note goOn =>
    obtain rfl := Option.some.inj hr
    exact (addStatic_fewer v6 env h.kept id ip nmask goOn hs.1 hs.2).gated h
  | addVlan id name tag ip nmask note goOn =>
    obtain rfl := Option.some.inj hr
    exact (addVlan_fewer v6 env h.kept id ip nmask goOn hs.1 hs.2.1 hs.2.2).gated h
  | addDhcp id name note =>
    obtain rfl := Option.some.inj hr
    exact (addDhcp_fewer env h.kept id hs.1 hs.2).gated h
  | addPppoe id name note =>
    obtain rfl := Option.some.inj hr
    exact (addPppoe_fewer env h.kept id hs.1 hs.2).gated h
  | setStaticGateway id enab gw =>
    obtain rfl := Option.some.inj hr
    obtain ⟨hk,ho⟩ := setGateway_one v6 env h.kept h.one hs.1 hs.2
    exact ⟨hk,ho⟩
  | setVlanGateway id enab gw =>
    obtain rfl := Option.some.inj hr
    obtain ⟨hk,ho⟩ := setGateway_one v6 env h.kept h.one hs.1 hs.2
    exact ⟨hk,ho⟩
  | delete id info hwaddr => exact (delete_fewer pcre env h.kept info hwaddr hs hr).gated h

/-- The commands in any order; those that are refused are among them. -/
def commandSystem : System World (Env × Command) where
  init := Gated
  step w t w' := ∃ b, t.2.run pcre v6 t.1 w = some (b,w')

def guardedSystem : System World (Env × Command) where
  init := Gated
  step w t w' := (commandSystem pcre v6).step w t w' ∧ t.2.Safe pcre v6 t.1 w

theorem default_unique {w w' : World} {ts : List (Env × Command)} (hi : (guardedSystem pcre v6).init w)
    (hr : System.Run (guardedSystem pcre v6) w ts w') : OneDefault w' := by
  have step : ∀ u t v, Gated u → (guardedSystem pcre v6).step u t v → Gated v := by
    rintro u t v hu ⟨⟨b,hrun⟩,hs⟩
    exact step_gated pcre v6 t.1 hu hs hrun
  have h : Gated w' := hr.invariant step hi
  exact h.one

instance (l l' : Str) : Decidable (Tame l l') :=
  inferInstanceAs (Decidable (_ ∨ (_ ∧ _) ∧ _ ∧ (_ ∨ _ ∧ _ ∧ ∀ s ∈ setting (trim l'), _)))

instance (id : Str) (w : World) : Decidable (Undisturbed pcre env id w) :=
  inferInstanceAs (Decidable (_ → _ → ∀ l ∈ linesOf _ _, _))

instance (type id enab gw : Str) (w : World) : Decidable (Seen v6 env type id enab gw w) :=
  inferInstanceAs (Decidable (_ → ∀ e ∈ (ethEntries w).entries, _))

instance (c : Command) (w : World) : Decidable (c.Safe pcre v6 env w) :=
  match c with
  | .addStatic _ _ _ _ _ _ => inferInstanceAs (Decidable (_ ∧ _))
  | .addVlan _ _ _ _ _ _ _ => inferInstanceAs (Decidable (_ ∧ _ ∧ _))
  | .addDhcp _ _ _ => inferInstanceAs (Decidable (_ ∧ _))
  | .addPppoe _ _ _ => inferInstanceAs (Decidable (_ ∧ _))
  | .setStaticGateway _ _ _ => inferInstanceAs (Decidable (_ ∧ _))
  | .setVlanGateway _ _ _ => inferInstanceAs (Decidable (_ ∧ _))
  | .delete _ _ _ => inferInstanceAs (Decidable (Undisturbed _ _ _ _))

/-- What a command answers, and the state after it. -/
def answer (c : Command) (w : World) : Bool × World := (c.run Pcre.plain ipv4Only noonEnv w).getD (false,w)

/-- What a list of commands answers, and the state after them. -/
def answers : List Command → World → List Bool × World
  | [], w => ([],w)
  | c::cs, w =>
    let a := answer c w
    let r := answers cs a.2
    (a.1::r.1,r.2)

def Ends : List Command → World → Prop
  | [], _ => True
  | c::cs, w => (c.run Pcre.plain ipv4Only noonEnv w).isSome ∧ Ends cs (answer c w).2

def SafeTurns : List Command → World → Prop
  | [], _ => True
  | c::cs, w => (c.run Pcre.plain ipv4Only noonEnv w).isSome ∧ c.Safe Pcre.plain ipv4Only noonEnv w ∧
    SafeTurns cs (answer c w).2

instance : ∀ (cs : List Command) (w : World), Decidable (Ends cs w)
  | [], _ => inferInstanceAs (Decidable True)
  | _::cs, _ =>
    have := instDecidableEnds cs
    inferInstanceAs (Decidable (_ ∧ Ends cs _))

instance : ∀ (cs : List Command) (w : World), Decidable (SafeTurns cs w)
  | [], _ => inferInstanceAs (Decidable True)
  | _::cs, _ =>
    have := instDecidableSafeTurns cs
    inferInstanceAs (Decidable (_ ∧ _ ∧ SafeTurns cs _))

theorem answer_step {c : Command} {w : World} (h : (c.run Pcre.plain ipv4Only noonEnv w).isSome) :
    (commandSystem Pcre.plain ipv4Only).step w (noonEnv,c) (answer c w).2 := by
  obtain ⟨r,hr⟩ := Option.isSome_iff_exists.mp h
  exact ⟨r.1,by rw [answer,hr]; rfl⟩

theorem Ends.run {cs : List Command} {w : World} (h : Ends cs w) :
    System.Run (commandSystem Pcre.plain ipv4Only) w (cs.map (noonEnv,·)) (answers cs w).2 := by
  induction cs generalizing w with
  | nil => exact .nil
  | cons c cs ih => exact (System.Run.nil.snoc (answer_step h.1)).append (ih h.2)

theorem SafeTurns.run {cs : List Command} {w : World} (h : SafeTurns cs w) :
    System.Run (guardedSystem Pcre.plain ipv4Only) w (cs.map (noonEnv,·)) (answers cs w).2 := by
  induction cs generalizing w with
  | nil => exact .nil
  | cons c cs ih =>
    have hstep : (guardedSystem Pcre.plain ipv4Only).step w (noonEnv,c) (answer c w).2 := ⟨answer_step h.1,h.2.1⟩
    exact (System.Run.nil.snoc hstep).append (ih h.2.2)

def threeDevices : World := World.ofFiles [("network","eth.cfg",textOf ["ID=eth0","DEVICE=eth0","STAT=0",[],
  "ID=eth1","DEVICE=eth1","STAT=0",[],"ID=eth2","DEVICE=eth2","STAT=0"])]

theorem threeDevices_gated : Gated threeDevices := by
  refine ⟨⟨?_,?_,fun _ _ _ => Or.inl rfl⟩,fun i j hi _ => ?_⟩
  · decide
  · decide
  · have hn : ∀ e ∈ (ethEntries threeDevices).entries, isDefault e.2 = false := by decide
    obtain ⟨d,hd,h₁⟩ := hi.entry
    rw [hn (i,d) (OrdMap.get?_eq_some.mp hd)] at h₁
    simp at h₁

/-- The second interface is refused the default gateway until the first one has given it up, and is deleted. -/
def movedGateway : List Command := [.addStatic "eth0" "lan" "192.168.1.1" "24" [] true,
  .setStaticGateway "eth0" "on" "192.168.1.254",.addVlan "eth1" "wan" "7" "10.0.0.1" "8" [] true,
  .setVlanGateway "eth1" "on" [],.setStaticGateway "eth0" "off" [],.setVlanGateway "eth1" "on" "10.0.0.254",
  .delete "eth0" [] []]

/-- Two interfaces have one name. The first has the default gateway, the second is deleted, and its name is taken out of
the first too. -/
def sharedName : List Command := [.addStatic "eth0" "lan" "192.168.1.1" "24" [] true,.addDhcp "eth1" "lan" [],
  .setStaticGateway "eth0" "on" "192.168.1.254",.delete "eth1" [] [],
  .addStatic "eth2" "wan" "10.0.0.1" "8" [] true,.setStaticGateway "eth2" "on" "10.0.0.254"]

theorem threeDevices_answers :
    ((answers movedGateway threeDevices).1 = [true,true,true,false,true,true,true] ∧ SafeTurns movedGateway threeDevices) ∧
    ((answers sharedName threeDevices).1 = [true,true,true,true,true,true] ∧ Ends sharedName threeDevices) ∧
      HasDefault (answers sharedName threeDevices).2 "eth0" ∧ HasDefault (answers sharedName threeDevices).2 "eth2" := by
  unfold HasDefault
  decide +kernel

theorem default_unique_moved : (answers movedGateway threeDevices).1 = [true,true,true,false,true,true,true] ∧
    OneDefault (answers movedGateway threeDevices).2 := by
  have h := threeDevices_answers.1
  exact ⟨h.1,default_unique Pcre.plain ipv4Only threeDevices_gated h.2.run⟩

/-- All of them go through, and two interfaces have the default gateway. -/
theorem default_twice : (answers sharedName threeDevices).1 = [true,true,true,true,true,true] ∧
    ¬ ∀ (w w' : World) (ts : List (Env × Command)), (commandSystem Pcre.plain ipv4Only).init w →
      System.Run (commandSystem Pcre.plain ipv4Only) w ts w' → OneDefault w' := by
  obtain ⟨-,⟨ha,he⟩,hd⟩ := threeDevices_answers
  exact ⟨ha,fun h => absurd (h _ _ _ threeDevices_gated he.run _ _ hd.1 hd.2) (by decide)⟩

end DefaultGateway
end Mybox
