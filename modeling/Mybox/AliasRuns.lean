import Mybox.AliasParents
import Mybox.Runs

/-! Runs of interface, alias and definition commands and of lookups: when an alias disappears. -/
namespace Mybox
namespace Interfaces

open Php RegistryFormat Registry References Definitions

variable (pcre : Pcre) (env : Env)

/-- The commands, and the lookups and prints that read the definitions or one of the files. The
add commands come with the parameters they put together. -/
inductive Op
  | lookup (k : Kind)
  | read (fil : Str)
  | definitionsSave (k : Kind) (type : Str) (data : Params)
  | definitionsUpdate (k : Kind) (type id : Str) (data : Params)
  | definitionsDelete (k : Kind) (type id : Str)
  | setName (type id name : Str)
  | setAddress (type id ip : Str) (a : Probe)
  | set (type id : Str) (data : Params)
  | add (id name : Str) (ip : Option (Str × Probe)) (data : Params)
  | delete (id info hwaddr : Str)
  | addVip (id name ip note : Str) (a : Probe) (ipcalc : Params)
  | setVipName (id name : Str)
  | setVipAddress (id ip : Str) (a : Probe)
  | setVipPname (id parent : Str)
  | setVip (id : Str) (data : Params)
  | deleteVip (id : Str)

/-- The state after a command; none where a key loop has not ended, or where the parameters are
not those of the command. -/
def Op.run : Op → World → Option World
  | .lookup k, w => some (definitionsGet pcre env k w).2
  | .read fil, w => some (iniTokenGet env "network" fil ∅ w).2
  | .definitionsSave k type data, w => (Definitions.definitionsSave env k type data w).map Prod.snd
  | .definitionsUpdate k type id data, w => some (Definitions.definitionsUpdate env k type id data w).2
  | .definitionsDelete k type id, w => some (Definitions.definitionsDelete pcre env k type id w).2
  | .setName type id name, w => some (interfacesSetName env type id name w).2
  | .setAddress type id ip a, w => some (interfacesSetAddress env type id ip a w).2
  | .set type id data, w =>
    if data.keys.all (interfaceKeys.contains ·) then some (interfacesSet env type id data w).2 else none
  | .add id name ip data, w => some (interfacesAdd env id name ip data w).2
  | .delete id info hwaddr, w => (interfacesDelete pcre env id info hwaddr w).map Prod.snd
  | .addVip id name ip note a ipcalc, w =>
    (Interfaces.addVip env id name ip note a ipcalc w).map Prod.snd
  | .setVipName id name, w => some (Interfaces.setVipName pcre env id name w).2
  | .setVipAddress id ip a, w => some (Interfaces.setVipAddress env id ip a w).2
  | .setVipPname id parent, w => some (Interfaces.setVipPname env id parent w).2
  | .setVip id data, w =>
    if data.keys.all (vipKeys.contains ·) then some (Interfaces.setVip env id data w).2 else none
  | .deleteVip id, w => some (Interfaces.deleteVip pcre env id w).2

/-- Aliases on the interface that is named anew have that name already, or another interface has
the name they use. -/
def NameKept (id : Str) (data : Params) (w : World) : Prop :=
  ∀ n, data.get? "NAME" = some n → ∀ p ∈ parentNames w, p = n ∨
    ∃ j q, j ≠ id ∧ (ethEntries w).get? j = some q ∧ q.val "NAME" = p

/-- The registry with the name given to the alias, and nothing else done. -/
def renamed (id name : Str) (w : World) : World :=
  { w with reg := w.reg.set ("network","additional.cfg") (updateText env ((aliasEntries w).set id
    (((aliasEntries w).getD id ∅).setAll (dataOf [("NAME",name)]).entries))) }

theorem update_renamed {id name : Str} {w v : World} (hc : Coherent "network" "additional.cfg" v) (hv : v.reg = w.reg)
    (ho : (iniTokenUpdate env "network" "additional.cfg" id (dataOf [("NAME",name)]) v).1 = .ok) :
    (iniTokenUpdate env "network" "additional.cfg" id (dataOf [("NAME",name)]) v).2.reg = (renamed env id name w).reg := by
  rcases iniTokenUpdate_spec env "network" "additional.cfg" id (dataOf [("NAME",name)]) hc with ⟨q,hg,hr⟩ | ⟨hf,-,-⟩
  · rw [entries_congr _ _ hv] at hg hr
    rw [hr.done ho,merge_eq_setAll,hv,renamed,OrdMap.getD,hg]
    rfl
  · simp [hf] at ho

/-- What is written is what a line can carry; no name is taken from the interface of an alias; and
the names that are taken out or replaced are not those of interfaces that aliases stand on. -/
def Op.Safe : Op → World → Prop
  | .lookup k, w =>
    k = .networks → OrphansSpare pcre env (orphans (ethEntries w) (aliasEntries w)) w
  | .read _, _ => True
  | .definitionsSave _ _ _, _ => True
  | .definitionsUpdate _ _ _ _, _ => True
  | .definitionsDelete k type id, w => DeleteSpares pcre env "definitions" (definitionsFile k type) id w
  | .setName _ id name, w => ReadValue name ∧ NameKept id (dataOf [("NAME",name)]) w
  | .setAddress _ _ ip _, _ => ReadValue ip
  | .set _ _ data, _ => Carried data
  | .add id _ _ data, w => Carried data ∧ NameKept id data w
  | .delete id _ _, w => DeleteSpares pcre env "network" "eth.cfg" id w
  | .addVip _ name ip note _ ipcalc, _ => ReadValue name ∧ ReadValue ip ∧ ReadValue note ∧
    ReadValue (ipcalc.val "netmask") ∧ ReadValue (ipcalc.val "prefix") ∧ ReadValue (ipcalc.val "inet")
  | .setVipName id name, w => ReadValue name ∧
    (nameOf "network" "additional.cfg" id w ≠ [] →
      Spares pcre (nameOf "network" "additional.cfg" id w) name w ∧
      Spares pcre (nameOf "network" "additional.cfg" id w) name (renamed env id name w))
  | .setVipAddress _ ip _, _ => ReadValue ip
  | .setVipPname _ _, _ => True
  | .setVip _ data, _ => Carried data
  | .deleteVip id, w => DeleteSpares pcre env "network" "additional.cfg" id w

def Op.Gone (w : World) : Op → Str → Prop
  | .deleteVip id, i => i = id
  | .lookup k, i => k = .networks ∧ ¬ HasParent w i
  | _, _ => False

def Op.Orphans (w : World) : Op → Str → Prop
  | .delete id _ _, i => ∃ d, (aliasEntries w).get? i = some d ∧
      d.val "PNAME" = nameOf "network" "eth.cfg" id w
  | _, _ => False

theorem dataOf_single (k v j : Str) : (dataOf [(k,v)]).get? j = if k = j then some v else none := by
  simp only [dataOf,OrdMap.setAll_cons,OrdMap.setAll_nil,OrdMap.get?_set]
  rfl

theorem carried_of {k : Str} {v : Str} (hk : KeyName k) (hv : ReadValue v) :
    Carried (dataOf [(k,v)]) := by
  intro x hx
  have hx' : x = (k,v) := by simpa [dataOf,OrdMap.setAll,OrdMap.set,OrdMap.assign,OrdMap.empty] using hx
  subst hx'
  exact Or.inr (hk.paramOk hv.1 hv.2.1 hv.2.2)

theorem Keeps.trans {w w' w'' : World} (h : Keeps w w') (h' : Keeps w' w'') : Keeps w w'' :=
  Carries.keep h h'

def Kept (w w' : World) : Prop := Sound w' ∧ Keeps w w'

theorem Quiet.kept {w w' : World} (hq : Quiet w w') (h : Sound w) : Kept w w' :=
  ⟨h.quiet hq,keeps_reg hq.reg⟩

theorem Kept.trans {w w' w'' : World} (h : Kept w w') (h' : Kept w' w'') : Kept w w'' :=
  ⟨h'.1,h.2.trans h'.2⟩

theorem NameKept.congr {id : Str} {data : Params} {w w' : World} (h : w'.reg = w.reg)
    (hn : NameKept id data w) : NameKept id data w' := by
  unfold NameKept at *
  rw [parentNames_congr h,ethEntries,entries_congr _ _ h]
  exact hn

theorem write_eth {w : World} (h : Sound w) (id : Str) {data : Params} (hd : Carried data)
    (hn : NameKept id data w) : Kept w (write env "eth.cfg" id data w).2 := by
  unfold write
  split
  · exact (Quiet.refl w).kept h
  · exact ethUpdate_keeps env h id hd hn

theorem write_vip {w : World} (h : Sound w) (id : Str) {data : Params} (hd : Carried data)
    (hn : ∀ p, data.get? "PNAME" = some p → p ∈ interfaceNames (ethEntries w)) :
    Kept w (write env "additional.cfg" id data w).2 := by
  unfold write
  split
  · exact (Quiet.refl w).kept h
  · exact vipUpdate_keeps env h id hd hn

theorem interfaceOf_cases (type id : Str) (w : World) {P : World → Prop}
    (f : Params → World → Bool × World) (hq : ∀ v, Quiet w v → P v)
    (hf : ∀ p v, Quiet w v → P (f p v).2) :
    P (match interfaceOf env type id w with
      | (none,v) => ((false,v) : Bool × World)
      | (some p,v) => f p v).2 := by
  have h := interfaceOf_quiet env type id w
  generalize interfaceOf env type id w = r at h
  rcases r with ⟨p | p,v⟩
  · exact hq v h
  · exact hf p v h

theorem setName_kept {w : World} (h : Sound w) (type id name : Str) (hv : ReadValue name)
    (hn : NameKept id (dataOf [("NAME",name)]) w) : Kept w (interfacesSetName env type id name w).2 := by
  refine interfaceOf_cases env type id w _ (fun v hq => hq.kept h) fun p v hq => ?_
  have hq' := hq.trans (changeTaken_quiet env "NAME" (p.val "NAME") name v)
  dsimp only
  split
  · exact hq'.kept h
  · exact (hq'.kept h).trans (write_eth env (h.quiet hq') id (carried_of (by decide) hv) (hn.congr hq'.reg))

theorem nameKept_of_none {id : Str} {data : Params} {w : World} (h : data.get? "NAME" = none) :
    NameKept id data w := fun n hn => by rw [h] at hn; simp at hn

theorem setAddress_kept {w : World} (h : Sound w) (type id ip : Str) (a : Probe) (hv : ReadValue ip) :
    Kept w (interfacesSetAddress env type id ip a w).2 := by
  refine interfaceOf_cases env type id w _ (fun v hq => hq.kept h) fun p v hq => ?_
  have hq' := hq.trans (changeTaken_quiet env "ADDR" (p.val "ADDR") ip v)
  split
  · exact hq.kept h
  · dsimp only
    split
    · exact hq'.kept h
    · exact (hq'.kept h).trans (write_eth env (h.quiet hq') id (carried_of (by decide) hv)
        (nameKept_of_none (by rw [dataOf_single,if_neg (by decide)])))

theorem get?_none_of_keys {data : Params} {ks : List Str} {k : Str}
    (h : data.keys.all (ks.contains ·) = true) (hk : k ∉ ks) : data.get? k = none := by
  rw [OrdMap.get?_eq_none]
  intro hm
  have := List.all_eq_true.mp h k hm
  exact hk (by simpa using this)

theorem set_kept {w : World} (h : Sound w) (type id : Str) {data : Params} (hd : Carried data)
    (hk : data.keys.all (interfaceKeys.contains ·) = true) :
    Kept w (interfacesSet env type id data w).2 := by
  refine interfaceOf_cases env type id w _ (fun v hq => hq.kept h) fun p v hq => ?_
  exact (hq.kept h).trans (write_eth env (h.quiet hq) id hd
    (nameKept_of_none (get?_none_of_keys hk (by decide))))

/-- An add command is refused, or it has got past its checks and writes. -/
theorem interfacesAdd_cases (id name : Str) (ip : Option (Str × Probe)) (data : Params) (w : World) :
    ((interfacesAdd env id name ip data w).1 = false ∧ Quiet w (interfacesAdd env id name ip data w).2) ∨
    ∃ v, Quiet w v ∧ interfacesAdd env id name ip data w = write env "eth.cfg" id data v ∧
      (takenInBoth env "NAME" name w).1 = false ∧ ∀ x ∈ ip, (x.2.valid = true ∧ x.2.goOn = true) ∧
        ∃ u, Quiet w u ∧ (takenInBoth env "ADDR" x.1 u).1 = false := by
  have hq := takenInBoth_quiet env "NAME" name w
  unfold interfacesAdd
  split
  · dsimp only
    split
    · exact Or.inl ⟨rfl,hq⟩
    · rename_i hn
      exact Or.inr ⟨_,hq,rfl,by simpa using hn,by simp⟩
  · rename_i addr a
    have hq' := hq.trans (takenInBoth_quiet env "ADDR" addr _)
    split
    · exact Or.inl ⟨rfl,Quiet.refl w⟩
    · rename_i hv
      dsimp only
      split
      · exact Or.inl ⟨rfl,hq⟩
      · rename_i hn
        split
        · exact Or.inl ⟨rfl,hq'⟩
        · rename_i hc
          rw [Bool.not_eq_true,Bool.or_eq_false_iff,Bool.not_eq_false'] at hc
          refine Or.inr ⟨_,hq',rfl,by simpa using hn,?_⟩
          simpa using ⟨⟨by simpa using hv,hc.2⟩,_,hq,hc.1⟩

theorem add_kept {w : World} (h : Sound w) (id name : Str) (ip : Option (Str × Probe)) {data : Params}
    (hd : Carried data) (hn : NameKept id data w) :
    Kept w (interfacesAdd env id name ip data w).2 := by
  rcases interfacesAdd_cases env id name ip data w with ⟨-,hq⟩ | ⟨v,hq,he,-⟩
  · exact hq.kept h
  · rw [he]
    exact (hq.kept h).trans (write_eth env (h.quiet hq) id hd (hn.congr hq.reg))

/-- What is found by a parameter is an entry. -/
theorem byparam_entry (param value : Str) {w : World} (h : Fresh w)
    (hn : (iniTokenGetByparam env "network" "eth.cfg" param value ∅ w).1.2 ≠ ∅) :
    ∃ i, (ethEntries w).get? i = some (iniTokenGetByparam env "network" "eth.cfg" param value ∅ w).1.2 := by
  have hg := iniTokenGet_fst env "network" "eth.cfg" (h _ _ looked_network)
  unfold iniTokenGetByparam at hn ⊢
  dsimp only at hn ⊢
  rw [hg] at hn ⊢
  split at hn
  · rename_i hc
    rw [if_pos hc]
    cases hv : (ethEntries w).get? value with
    | none =>
      rw [OrdMap.getD,hv] at hn
      exact absurd rfl hn
    | some q =>
      rw [OrdMap.getD,hv]
      exact ⟨value,hv⟩
  · rename_i hc
    rw [if_neg hc]
    split at hn
    · rename_i e he
      exact ⟨e.1,OrdMap.get?_eq_some.mpr (List.mem_of_find?_eq_some he)⟩
    · exact absurd rfl hn

theorem byparam_name (param value : Str) {w : World} (h : Fresh w)
    (hn : (iniTokenGetByparam env "network" "eth.cfg" param value ∅ w).1.2.val "NAME" ≠ []) :
    (iniTokenGetByparam env "network" "eth.cfg" param value ∅ w).1.2.val "NAME" ∈
      interfaceNames (ethEntries w) ∧
    ReadValue ((iniTokenGetByparam env "network" "eth.cfg" param value ∅ w).1.2.val "NAME") := by
  have hne : (iniTokenGetByparam env "network" "eth.cfg" param value ∅ w).1.2 ≠ ∅ := fun he => by
    rw [he] at hn
    exact hn rfl
  obtain ⟨i,hi⟩ := byparam_entry env param value h hne
  have hr := @readText_val "NAME" (by decide) (text "network" "eth.cfg" w) i
  rw [OrdMap.getD,show (readText (text "network" "eth.cfg" w) ∅).get? i = some _ from hi] at hr
  exact ⟨mem_interfaceNames.mpr ⟨hn,i,_,hi,rfl⟩,hr⟩

theorem vipOf_cases (id : Str) (w : World) {P : World → Prop}
    (f : Params → World → Bool × World) (hq : ∀ v, Quiet w v → P v)
    (hf : ∀ p v, Quiet w v → vipOf env id w = (some p,v) → P (f p v).2) :
    P (match vipOf env id w with
      | (none,v) => ((false,v) : Bool × World)
      | (some p,v) => f p v).2 := by
  have h := vipOf_quiet env id w
  generalize hv : vipOf env id w = r at h
  rcases r with ⟨p | p,v⟩
  · exact hq v h
  · exact hf p v h hv

theorem setVipAddress_kept {w : World} (h : Sound w) (id ip : Str) (a : Probe) (hv : ReadValue ip) :
    Kept w (Interfaces.setVipAddress env id ip a w).2 := by
  refine vipOf_cases env id w _ (fun v hq => hq.kept h) fun p v hq _ => ?_
  have hq' := hq.trans (changeTaken_quiet env "ADDR" (p.val "ADDR") ip v)
  split
  · exact hq.kept h
  · dsimp only
    split
    · exact hq'.kept h
    · exact (hq'.kept h).trans (write_vip env (h.quiet hq') id (carried_of (by decide) hv)
        fun p hp => by rw [dataOf_single,if_neg (by decide)] at hp; simp at hp)

theorem setVip_kept {w : World} (h : Sound w) (id : Str) {data : Params} (hd : Carried data)
    (hk : data.keys.all (vipKeys.contains ·) = true) : Kept w (Interfaces.setVip env id data w).2 := by
  refine vipOf_cases env id w _ (fun v hq => hq.kept h) fun p v hq _ => ?_
  refine (hq.kept h).trans (write_vip env (h.quiet hq) id hd fun p hp => ?_)
  rw [get?_none_of_keys hk (by decide)] at hp
  simp at hp

theorem setVipPname_kept {w : World} (h : Sound w) (id parent : Str) :
    Kept w (Interfaces.setVipPname env id parent w).2 := by
  refine vipOf_cases env id w _ (fun v hq => hq.kept h) fun p v hq _ => ?_
  have hq' := hq.trans (byparam_quiet env "eth.cfg" "ID" parent ∅ v)
  dsimp only
  split
  · exact hq'.kept h
  · rename_i hn
    obtain ⟨hm,hv⟩ := byparam_name env "ID" parent (hq.fresh h.fresh) (by simpa using hn)
    refine (hq'.kept h).trans (write_vip env (h.quiet hq') id (carried_of (by decide) hv) fun p hp => ?_)
    have hpe : (iniTokenGetByparam env "network" "eth.cfg" "ID" parent ∅ v).1.2.val "NAME" = p := by
      simpa [dataOf_single] using hp
    rw [← hpe,ethEntries,entries_congr _ _ (hq'.reg.trans hq.reg.symm)]
    exact hm

theorem byparam_fst {sec fil : Str} (param value : Str) {w w' : World} (hc : Coherent sec fil w)
    (hc' : Coherent sec fil w') (hr : w'.reg = w.reg) :
    (iniTokenGetByparam env sec fil param value ∅ w').1 = (iniTokenGetByparam env sec fil param value ∅ w).1 := by
  unfold iniTokenGetByparam
  dsimp only
  rw [iniTokenGet_fst env _ _ hc,iniTokenGet_fst env _ _ hc',entries_congr sec fil hr]
  split
  · rfl
  · split <;> rfl

theorem byparam_id {sec fil id : Str} {w : World} {q : Params} (hc : Coherent sec fil w)
    (hq : (entries sec fil w).get? id = some q) (p : Params) :
    (iniTokenGetByparam env sec fil "ID" id p w).1 = (true,q) := by
  have hd : (entries sec fil w).getD id ∅ = q := by rw [OrdMap.getD,hq]; rfl
  have hne : q.isEmpty = false :=
    Bool.eq_false_iff.mpr fun he => readText_ne_empty hq (OrdMap.isEmpty_iff.mp he)
  have hc' : (looseEq "ID" "ID" && !((entries sec fil w).getD id ∅).isEmpty) = true := by
    rw [looseEq_self,hd,hne]
    rfl
  unfold iniTokenGetByparam
  dsimp only
  rw [iniTokenGet_fst env sec fil hc,if_pos hc',hd]

theorem vipOf_some {id : Str} {w v : World} {p q : Params} (h : Fresh w)
    (hv : vipOf env id w = (some p,v)) (hq : (aliasEntries w).get? id = some q) : p = q := by
  have hb := byparam_id env (h _ _ looked_network) hq ∅
  unfold vipOf at hv
  dsimp only at hv
  rw [hb] at hv
  simp only [Prod.mk.injEq] at hv
  have hp := hv.1
  split at hp
  · simp at hp
  · simpa using hp.symm

theorem setVipName_kept {w : World} (h : Sound w) (id name : Str) (hv : ReadValue name)
    (hs : nameOf "network" "additional.cfg" id w ≠ [] →
      Spares pcre (nameOf "network" "additional.cfg" id w) name w ∧
      Spares pcre (nameOf "network" "additional.cfg" id w) name (renamed env id name w)) :
    Kept w (Interfaces.setVipName pcre env id name w).2 := by
  refine vipOf_cases env id w _ (fun v hq => hq.kept h) fun p v hq hp => ?_
  have hq' := hq.trans (changeTaken_quiet env "NAME" (p.val "NAME") name v)
  dsimp only
  generalize (changeTaken env "NAME" (p.val "NAME") name v) = t at hq'
  split
  · exact hq'.kept h
  · have hk : Kept w (write env "additional.cfg" id (dataOf [("NAME",name)]) t.2).2 :=
      (hq'.kept h).trans (write_vip env (h.quiet hq') id (carried_of (by decide) hv)
        fun x hx => by rw [dataOf_single,if_neg (by decide)] at hx; simp at hx)
    split
    · rename_i hc
      simp only [Bool.and_eq_true,Bool.not_eq_true',null_false_iff] at hc
      by_cases hstrg : env.strg = true
      · -- the update has gone through, or the name was taken and it has changed nothing
        have hw : write env "additional.cfg" id (dataOf [("NAME",name)]) t.2 =
            (decide ((iniTokenUpdate env "network" "additional.cfg" id (dataOf [("NAME",name)]) t.2).1
              ≠ .fail),(iniTokenUpdate env "network" "additional.cfg" id (dataOf [("NAME",name)]) t.2).2) := by
          rw [write,if_neg (by simp [dataOf,OrdMap.setAll,OrdMap.isEmpty_iff,OrdMap.set_ne_empty])]
        rw [hw] at hc hk ⊢
        have he : aliasEntries t.2 = aliasEntries w := entries_congr _ _ hq'.reg
        rcases iniTokenUpdate_spec env "network" "additional.cfg" id (dataOf [("NAME",name)])
          ((h.quiet hq').fresh _ _ looked_network) with ⟨q,hg,hr⟩ | ⟨hf,-,-⟩
        · rw [show entries "network" "additional.cfg" t.2 = aliasEntries w from he] at hg hr
          have hpq := vipOf_some env h.fresh hp hg
          subst hpq
          have hn : nameOf "network" "additional.cfg" id w = p.val "NAME" := by
            rw [nameOf,OrdMap.getD,hg]; rfl
          rw [hn] at hs
          obtain ⟨hs₁,hs₂⟩ := hs hc.2
          have hsp : Spares pcre (p.val "NAME") name
              (iniTokenUpdate env "network" "additional.cfg" id (dataOf [("NAME",name)]) t.2).2 := by
            by_cases ho : (iniTokenUpdate env "network" "additional.cfg" id (dataOf [("NAME",name)])
                t.2).1 = .ok
            · exact hs₂.congr pcre (update_renamed env ((h.quiet hq').fresh _ _ looked_network) hq'.reg ho)
            · exact hs₁.congr pcre ((hr.refused ho).trans hq'.reg)
          obtain ⟨h₁,h₂⟩ := remove_keeps pcre env hk.1.toWritten hstrg hsp
          exact hk.trans ⟨⟨h₁,iniTokenRemove_fresh pcre env _ _ hk.1.fresh⟩,h₂⟩
        · simp [hf] at hc
      · have ht : ∀ n new fil (u : World), text "network" fil (iniTokenRemove pcre env n new u) =
            text "network" fil u := fun n new fil u => by
          have hr := text_iniTokenRemove pcre env n new ("network",fil) u
          simp only [removeFile,hstrg,Bool.and_false,Bool.false_and,Bool.false_eq_true,if_false] at hr
          exact hr
        exact hk.trans ⟨⟨hk.1.toWritten.congr fun fil => ht _ _ fil _,
          iniTokenRemove_fresh pcre env _ _ hk.1.fresh⟩,keeps_text fun fil => ht _ _ fil _⟩
    · exact hk

theorem dataOf_entries {es : List (Str × Str)} (h : (es.map Prod.fst).Nodup) :
    (dataOf es).entries = es := by
  rw [dataOf,OrdMap.setAll_entries_fresh _ _ h]
  · rfl
  · intro x _ hx
    exact absurd hx (by simp [OrdMap.keys,OrdMap.empty])

/-- New entries with the keys of a command and values a line can carry. -/
theorem saveCarried_of {es : List (Str × Str)} (h : (es.map Prod.fst).Nodup)
    (hk : ∀ k ∈ es.map Prod.fst, KeyName k) (hv : ∀ v ∈ es.map Prod.snd, ReadValue v) :
    SaveCarried (dataOf es) := by
  constructor
  · left
    unfold Params.val OrdMap.getD
    have hn : (dataOf es).get? "ID" = none := by
      rw [OrdMap.get?_eq_none,OrdMap.keys,dataOf_entries h]
      exact fun hm => (hk _ hm).id rfl
    rw [hn]
    rfl
  · intro x hx
    rw [dataOf_entries h] at hx
    have hkx := hk x.1 (List.mem_map_of_mem hx)
    have hvx := hv x.2 (List.mem_map_of_mem hx)
    exact Or.inr ⟨trim_of_black hkx.black,hvx.1,Or.inr (hkx.paramOk hvx.1 hvx.2.1 hvx.2.2)⟩

theorem vipFields_carried {name pname ip mask pref inet note : Str} (h₁ : ReadValue name)
    (h₂ : ReadValue pname) (h₃ : ReadValue ip) (h₄ : ReadValue mask) (h₅ : ReadValue pref)
    (h₆ : ReadValue inet) (h₇ : ReadValue note) :
    SaveCarried (dataOf [("NAME",name),("PNAME",pname),("STAT","1"),("ADDR",ip),("MASK",mask),
      ("PREF",pref),("INET",inet),("NOTE",note)]) ∧
    (dataOf [("NAME",name),("PNAME",pname),("STAT","1"),("ADDR",ip),("MASK",mask),
      ("PREF",pref),("INET",inet),("NOTE",note)]).get? "PNAME" = some pname := by
  have hks : ([("NAME",name),("PNAME",pname),("STAT","1"),("ADDR",ip),("MASK",mask),("PREF",pref),
      ("INET",inet),("NOTE",note)] : List (Str × Str)).map Prod.fst =
      ["NAME","PNAME","STAT","ADDR","MASK","PREF","INET","NOTE"] := rfl
  have hn : ([("NAME",name),("PNAME",pname),("STAT","1"),("ADDR",ip),("MASK",mask),("PREF",pref),
      ("INET",inet),("NOTE",note)] : List (Str × Str)).map Prod.fst |>.Nodup := by
    rw [hks]
    decide
  constructor
  · refine saveCarried_of hn (by rw [hks]; decide) ?_
    have hs : ReadValue "1" := ⟨rfl,by decide,by decide⟩
    simp only [List.map_cons,List.map_nil,List.forall_mem_cons]
    exact ⟨h₁,h₂,hs,h₃,h₄,h₅,h₆,h₇,by simp⟩
  · rw [OrdMap.get?_eq_some,dataOf_entries hn]
    simp

theorem addVip_kept {w : World} (h : Sound w) (id name ip note : Str) (a : Probe) (ipcalc : Params)
    (h₁ : ReadValue name) (h₂ : ReadValue ip) (h₃ : ReadValue note)
    (h₄ : ReadValue (ipcalc.val "netmask")) (h₅ : ReadValue (ipcalc.val "prefix"))
    (h₆ : ReadValue (ipcalc.val "inet")) {r : Bool × World}
    (hr : Interfaces.addVip env id name ip note a ipcalc w = some r) : Kept w r.2 := by
  have hq := takenInEither_quiet env "NAME" name w
  have hq' := hq.trans (takenInEither_quiet env "ADDR" ip _)
  have hq'' := hq'.trans (byparam_quiet env "eth.cfg" "ID" id ∅ _)
  unfold Interfaces.addVip at hr
  dsimp only at hr
  split at hr
  · simp only [Option.some.injEq] at hr
    subst hr
    exact (Quiet.refl w).kept h
  · split at hr
    · simp only [Option.some.injEq] at hr
      subst hr
      exact hq.kept h
    · split at hr
      · simp only [Option.some.injEq] at hr
        subst hr
        exact hq'.kept h
      · split at hr
        · simp only [Option.some.injEq] at hr
          subst hr
          exact hq''.kept h
        · rename_i hn
          obtain ⟨hm,hv⟩ := byparam_name env "ID" id (hq'.fresh h.fresh) (by simpa using hn)
          rw [ethEntries,entries_congr _ _ (hq'.reg.trans hq''.reg.symm)] at hm
          obtain ⟨s,hs,rfl⟩ := Option.map_eq_some_iff.mp hr
          obtain ⟨hc,hp⟩ := vipFields_carried h₁ hv h₂ h₄ h₅ h₆ h₃
          exact (hq''.kept h).trans (vipSave_keeps env (h.quiet hq'') hc hp hm hs)

theorem nameOf_set {w w' : World} {id : Str} {p : Params} (hp : (ethEntries w).get? id = some p)
    {data : Params} (he : ethEntries w' = (ethEntries w).set id (readBack id (p.setAll data.entries)))
    (hn : ∀ n, data.get? "NAME" = some n → n = nameOf "network" "eth.cfg" id w) (j : Str) :
    nameOf "network" "eth.cfg" j w' = nameOf "network" "eth.cfg" j w := by
  have hid : nameOf "network" "eth.cfg" id w = p.val "NAME" := by
    rw [nameOf,OrdMap.getD,hp]; rfl
  rw [nameOf,show entries "network" "eth.cfg" w' = _ from he]
  by_cases hj : id = j
  · subst hj
    rw [OrdMap.getD,OrdMap.get?_set_self,Option.getD_some,readBack_val _ (by decide),setAll_val,hid]
    cases hg : data.get? "NAME" with
    | none => rfl
    | some n => rw [Option.getD_some,hn n hg,hid]
  · rw [nameOf,OrdMap.getD,OrdMap.getD,OrdMap.get?_set_ne _ _ hj]

theorem ethUpdate_sameName {w : World} (h : Sound w) (id : Str) {data : Params} (hd : Carried data)
    (hn : ∀ n, data.get? "NAME" = some n → n = nameOf "network" "eth.cfg" id w) :
    Kept w (iniTokenUpdate env "network" "eth.cfg" id data w).2 ∧
    ∀ j, nameOf "network" "eth.cfg" j (iniTokenUpdate env "network" "eth.cfg" id data w).2 =
      nameOf "network" "eth.cfg" j w := by
  constructor
  · refine ethUpdate_keeps env h id hd fun n hg p hp => ?_
    obtain ⟨-,j,q,hq,hv⟩ := mem_interfaceNames.mp (mem_parentNames hp)
    by_cases hj : j = id
    · left
      rw [hn n hg,← hv,nameOf,OrdMap.getD,← hj,show entries "network" "eth.cfg" w = ethEntries w from rfl,hq]
      rfl
    · exact Or.inr ⟨j,q,hj,hq,hv⟩
  · obtain ⟨-,-,hr⟩ := update_cases env h (by decide : ("eth.cfg" : Str) ∈ netFiles) id hd
    rcases hr with hr | ⟨p,hp,he⟩
    · exact fun j => nameOf_congr _ _ j hr
    · exact nameOf_set hp he hn

def ReadTable (t : Params) : Prop := ∀ x ∈ t.entries, ReadValue x.1 ∧ ReadValue x.2

theorem nicTable_read (info : Str) : ReadTable (nicTable info) := by
  have fold : ∀ (ls : List Str) (t : Params), (∀ l ∈ ls, '\n' ∉ l) → ReadTable t →
      ReadTable (ls.foldl (fun m l =>
        let p := splitParam l
        if null p.1 || null p.2 then m else m.set p.1 p.2) t) := by
    intro ls
    induction ls with
    | nil => exact fun _ _ h => h
    | cons l ls ih =>
      intro t hl ht
      refine ih _ (fun x hx => hl x (List.mem_cons_of_mem _ hx)) ?_
      dsimp only
      split
      · exact ht
      · intro x hx
        rcases OrdMap.mem_set hx with rfl | hx
        · exact splitParam_read (hl l (by simp))
        · exact ht x hx
  exact fold _ ∅ (fun l hm => (mem_file hm).2.2) (fun x hx => absurd hx (by simp))

theorem ReadTable.val {t : Params} (h : ReadTable t) {k : Str} (hv : t.val k ≠ []) : ReadValue (t.val k) := by
  unfold Params.val OrdMap.getD at *
  cases hg : t.get? k with
  | none => rw [hg] at hv; exact absurd rfl hv
  | some v => exact (h (k,v) (OrdMap.get?_eq_some.mp hg)).2

theorem ReadTable.erase {t : Params} (h : ReadTable t) (k : Str) : ReadTable (t.erase k) :=
  fun x hx => h x (List.mem_of_mem_filter hx)

theorem updateNicEntries_kept {key : Str} (hk : KeyName key) (hne : key ≠ ("NAME" : Str)) {t : Token}
    (ht : Canonical t) {r : Params × World} (h : Sound r.2) (hr : ReadTable r.1)
    (hn : ∀ e ∈ t.entries, nameOf "network" "eth.cfg" e.1 r.2 = e.2.val "NAME") :
    Kept r.2 (updateNicEntries env key t r).2 ∧ ReadTable (updateNicEntries env key t r).1 := by
  unfold updateNicEntries
  have hsub : ∀ e ∈ t.entries, EntryOk e.1 e.2 := ht
  generalize t.entries = es at hn hsub
  induction es generalizing r with
  | nil => exact ⟨(Quiet.refl _).kept h,hr⟩
  | cons e es ih =>
    rw [List.foldl_cons]
    dsimp only
    have hn' : ∀ x ∈ es, nameOf "network" "eth.cfg" x.1 r.2 = x.2.val "NAME" := fun x hx =>
      hn x (List.mem_cons_of_mem _ hx)
    have hs' : ∀ x ∈ es, EntryOk x.1 x.2 := fun x hx => hsub x (List.mem_cons_of_mem _ hx)
    split
    · exact ih h hr hn' hs'
    · rename_i hc
      simp only [Bool.or_eq_true,not_or,null_iff] at hc
      have hv : ReadValue (r.1.val (e.2.val "DEVICE")) := hr.val hc.2
      have hd : Carried (e.2.set key (r.1.val (e.2.val "DEVICE"))) := by
        intro x hx
        rcases OrdMap.mem_set hx with rfl | hx
        · exact Or.inr (hk.paramOk hv.1 hv.2.1 hv.2.2)
        · obtain ⟨fs,hf,ho⟩ := (hsub e (by simp)).shape
          rw [hf] at hx
          rcases List.mem_cons.mp hx with rfl | hx
          · exact Or.inl rfl
          · exact Or.inr (ho x hx).2
      have hname : ∀ n, (e.2.set key (r.1.val (e.2.val "DEVICE"))).get? "NAME" = some n →
          n = nameOf "network" "eth.cfg" e.1 r.2 := by
        intro n hg
        rw [OrdMap.get?_set_ne _ _ hne] at hg
        rw [hn e (by simp),Params.val,OrdMap.getD,hg]
        rfl
      obtain ⟨hkept,hsame⟩ := ethUpdate_sameName env h e.1 hd hname
      have hi := ih (r := (r.1.erase (e.2.val "DEVICE"),
        (iniTokenUpdate env "network" "eth.cfg" e.1 (e.2.set key (r.1.val (e.2.val "DEVICE"))) r.2).2))
        hkept.1 (hr.erase _) (fun x hx => (hsame x.1).trans (hn' x hx)) hs'
      exact ⟨hkept.trans hi.1,hi.2⟩

theorem ethEntries_canonical {w : World} (h : Sound w) : Canonical (ethEntries w) :=
  readText_canonical (h.plain "eth.cfg" (by decide))

theorem nicEntries_start {w v : World} (hq : Quiet w v) :
    ∀ e ∈ (ethEntries w).entries, nameOf "network" "eth.cfg" e.1 v = e.2.val "NAME" := by
  intro e he
  have hg : (ethEntries w).get? e.1 = some e.2 := OrdMap.get?_eq_some.mpr he
  rw [nameOf_congr _ _ _ hq.reg,nameOf,OrdMap.getD,show entries "network" "eth.cfg" w = ethEntries w from rfl,hg]
  rfl

theorem updateNicDevice_kept {w v : World} (h : Sound w) (info : Str)
    (hv : updateNicDevice env info w = some v) : Kept w v := by
  have hg := iniTokenGet_fst env "network" "eth.cfg" (h.fresh _ _ looked_network)
  have hq := get_quiet env "eth.cfg" w
  unfold updateNicDevice at hv
  split at hv
  · simp only [Option.some.injEq] at hv
    subst hv
    exact (Quiet.refl w).kept h
  · dsimp only at hv
    split at hv
    · simp only [Option.some.injEq] at hv
      subst hv
      exact hq.kept h
    · rw [hg] at hv
      obtain ⟨hk,hr⟩ := updateNicEntries_kept env (by decide : KeyName "VENDOR") (by decide)
        (ethEntries_canonical h) (r := (nicTable info,(iniTokenGet env "network" "eth.cfg" ∅ w).2))
        (h.quiet hq) (nicTable_read info) (nicEntries_start hq)
      refine (hq.kept h).trans (hk.trans ?_)
      generalize updateNicEntries env "VENDOR" (entries "network" "eth.cfg" w)
        (nicTable info,(iniTokenGet env "network" "eth.cfg" ∅ w).2) = r at hv hk hr
      have fold : ∀ (es : List (Str × Str)) (u : World), (∀ x ∈ es, ReadValue x.1 ∧ ReadValue x.2) →
          Sound u → es.foldlM (fun w e => (iniTokenSave env "network" "eth.cfg"
            (dataOf [("DEVICE",e.1),("VENDOR",e.2),("STAT","0")]) w).map Prod.snd) u = some v →
          Kept u v := by
        intro es
        induction es with
        | nil =>
          intro u _ hu he
          simp only [List.foldlM_nil,Option.pure_def,Option.some.injEq] at he
          subst he
          exact (Quiet.refl u).kept hu
        | cons e es ih =>
          intro u he hu hf
          rw [List.foldlM_cons] at hf
          obtain ⟨u',hu',hf⟩ := Option.bind_eq_some_iff.mp hf
          obtain ⟨s,hs,rfl⟩ := Option.map_eq_some_iff.mp hu'
          have hks : ([("DEVICE",e.1),("VENDOR",e.2),("STAT","0")] : List (Str × Str)).map Prod.fst =
            ["DEVICE","VENDOR","STAT"] := rfl
          have hd : SaveCarried (dataOf [("DEVICE",e.1),("VENDOR",e.2),("STAT","0")]) := by
            have hz : ReadValue "0" := ⟨rfl,by decide,by decide⟩
            refine saveCarried_of (by rw [hks]; decide) (by rw [hks]; decide) ?_
            simp only [List.map_cons,List.map_nil,List.forall_mem_cons]
            exact ⟨(he e (by simp)).1,(he e (by simp)).2,hz,by simp⟩
          have hk₁ : Kept u s.2 := ethSave_keeps env hu hd hs
          exact hk₁.trans (ih s.2 (fun x hx => he x (List.mem_cons_of_mem _ hx)) hk₁.1 hf)
      exact fold _ _ hr hk.1 hv

theorem updateNicHwaddr_kept {w : World} (h : Sound w) (hwaddr : Str) :
    Kept w (updateNicHwaddr env hwaddr w) := by
  have hg := iniTokenGet_fst env "network" "eth.cfg" (h.fresh _ _ looked_network)
  have hq := get_quiet env "eth.cfg" w
  unfold updateNicHwaddr
  split
  · exact (Quiet.refl w).kept h
  · dsimp only
    split
    · exact hq.kept h
    · rw [hg]
      exact (hq.kept h).trans (updateNicEntries_kept env (by decide : KeyName "HWADDR") (by decide)
        (ethEntries_canonical h) (r := (nicTable hwaddr,(iniTokenGet env "network" "eth.cfg" ∅ w).2))
        (h.quiet hq) (nicTable_read hwaddr) (nicEntries_start hq)).1

theorem delete_carries {w : World} (h : Sound w) (id info hwaddr : Str)
    (hs : DeleteSpares pcre env "network" "eth.cfg" id w) {r : Bool × World}
    (hr : interfacesDelete pcre env id info hwaddr w = some r) :
    Sound r.2 ∧ Carries (fun _ => False) (fun i => ∃ d, (aliasEntries w).get? i = some d ∧
      d.val "PNAME" = nameOf "network" "eth.cfg" id w) w r.2 := by
  have hw := without_written env h "network" "eth.cfg" id (fun _ => by decide)
  obtain ⟨hs',hk⟩ := delete_keeps pcre env h looked_network hw hs
  have hc : Carries (fun _ => False) (fun i => ∃ d, (aliasEntries w).get? i = some d ∧
      d.val "PNAME" = nameOf "network" "eth.cfg" id w) w
      (iniTokenDelete pcre env "network" "eth.cfg" id w).2 := by
    rcases hk with hk | hk
    · exact (keeps_reg hk).mono (fun _ hf => hf) fun _ hf => hf.elim
    · exact (without_eth env h id).keep hk
  unfold interfacesDelete at hr
  dsimp only at hr
  split at hr
  · obtain ⟨v,hv,rfl⟩ := Option.map_eq_some_iff.mp hr
    have hd := updateNicDevice_kept env hs' info hv
    have hh := updateNicHwaddr_kept env hd.1 hwaddr
    exact ⟨hh.1,hc.keep (hd.trans hh).2⟩
  · simp only [Option.some.injEq] at hr
    subst hr
    exact ⟨hs',hc⟩

theorem definitions_kept {w : World} (h : Sound w) {fil x : Str} {r : Ret × World}
    (hr : Rewrites "definitions" fil w r x) (hf : Frame "definitions" fil w r.2) : Kept w r.2 := by
  have ht : ∀ fil', text "network" fil' r.2 = text "network" fil' w := fun fil' =>
    text_rewrite_ne hr fun he => absurd (congrArg Prod.fst he) (show ("definitions" : Str) ≠ "network" by decide)
  exact ⟨⟨h.toWritten.congr ht,hr.fresh hf looked_definitions h.fresh⟩,keeps_text ht⟩

theorem unlinkPrint_quiet (k : Kind) (w : World) : Quiet w (unlinkPrint k w) := by
  refine ⟨rfl,fun h sec fil hs => ?_⟩
  refine @coherent_congr sec fil w _ rfl ?_ (h sec fil hs)
  have hne : ("iosh_definitions_" : Str) ++ k.name ++ ("_print.obj" : Str) ≠ objName sec fil := by
    intro he
    have hh := congrArg List.head? he
    rcases hs with rfl | rfl <;> exact absurd hh (by simp [objName,Str.of_ascii])
  simp only [fileArrayGet,unlinkPrint,OrdMap.get?_erase,if_neg hne]

theorem definitionsSave_kept {w : World} (h : Sound w) (k : Kind) (type : Str) (data : Params)
    {r : Bool × World} (hr : Definitions.definitionsSave env k type data w = some r) : Kept w r.2 := by
  unfold Definitions.definitionsSave at hr
  split at hr
  · simp only [Option.some.injEq] at hr
    subst hr
    exact (Quiet.refl w).kept h
  · obtain ⟨s,hs,rfl⟩ := Option.map_eq_some_iff.mp hr
    have hk : Kept w s.2 := by
      rcases iniTokenSave_spec env _ _ (h.fresh _ _ looked_definitions) hs with ⟨_,_,-,-,hw,-⟩ | ⟨-,hw⟩
      · exact definitions_kept h hw (iniTokenSave_frame env hs)
      · exact definitions_kept h (hw []) (iniTokenSave_frame env hs)
    split
    · exact hk.trans ((unlinkPrint_quiet k _).kept hk.1)
    · exact hk

theorem definitionsUpdate_kept {w : World} (h : Sound w) (k : Kind) (type id : Str) (data : Params) :
    Kept w (Definitions.definitionsUpdate env k type id data w).2 := by
  unfold Definitions.definitionsUpdate
  split
  · exact (Quiet.refl w).kept h
  · have hf := @iniTokenUpdate_frame env "definitions" (definitionsFile k type) id data w
    have hk : Kept w (iniTokenUpdate env "definitions" (definitionsFile k type) id data w).2 := by
      rcases iniTokenUpdate_spec env "definitions" (definitionsFile k type) id data
        (h.fresh _ _ looked_definitions) with ⟨_,-,hw⟩ | ⟨-,-,hw⟩
      · exact definitions_kept h hw hf
      · exact definitions_kept h (hw []) hf
    dsimp only
    split
    · exact hk.trans ((unlinkPrint_quiet k _).kept hk.1)
    · exact hk

theorem definitionsDelete_kept {w : World} (h : Sound w) (k : Kind) (type id : Str)
    (hs : DeleteSpares pcre env "definitions" (definitionsFile k type) id w) :
    Kept w (Definitions.definitionsDelete pcre env k type id w).2 := by
  have hw := without_written env h "definitions" (definitionsFile k type) id
    (fun he => absurd he (by decide))
  obtain ⟨h₁,h₂⟩ := delete_keeps pcre env h looked_definitions hw hs
  refine ⟨h₁,?_⟩
  rcases h₂ with h₂ | h₂
  · exact keeps_reg h₂
  · have ht : ∀ fil, text "network" fil (without env "definitions" (definitionsFile k type) id w) =
        text "network" fil w := fun fil => text_without_ne env (by simp only [ne_eq,Prod.mk.injEq,not_and]; exact fun he => absurd he (by decide))
    exact (keeps_text ht).trans h₂

/-- What every command that meets its condition leaves of the aliases. -/
theorem step_carries {op : Op} {w w' : World} (h : Sound w) (hs : op.Safe pcre env w)
    (hr : op.run pcre env w = some w') : Sound w' ∧ Carries (op.Gone w) (op.Orphans w) w w' := by
  have kept : ∀ {v : World}, v = w' → Kept w v → op.Gone w = (fun _ => False) →
      op.Orphans w = (fun _ => False) → Sound w' ∧ Carries (op.Gone w) (op.Orphans w) w w' := by
    rintro v rfl hk hg ho
    rw [hg,ho]
    exact hk
  cases op with
  | lookup k =>
    simp only [Op.run,Option.some.injEq] at hr
    subst hr
    exact lookup_carries pcre env h k hs
  | read fil => exact kept (Option.some.inj hr) ((get_quiet env fil w).kept h) rfl rfl
  | definitionsSave k type data =>
    obtain ⟨r,hx,rfl⟩ := Option.map_eq_some_iff.mp hr
    exact kept rfl (definitionsSave_kept env h k type data hx) rfl rfl
  | definitionsUpdate k type id data =>
    exact kept (Option.some.inj hr) (definitionsUpdate_kept env h k type id data) rfl rfl
  | definitionsDelete k type id =>
    exact kept (Option.some.inj hr) (definitionsDelete_kept pcre env h k type id hs) rfl rfl
  | setName type id name =>
    exact kept (Option.some.inj hr) (setName_kept env h type id name hs.1 hs.2) rfl rfl
  | setAddress type id ip a =>
    exact kept (Option.some.inj hr) (setAddress_kept env h type id ip a hs) rfl rfl
  | set type id data =>
    simp only [Op.run] at hr
    split at hr
    · rename_i hk
      exact kept (Option.some.inj hr) (set_kept env h type id hs hk) rfl rfl
    · simp at hr
  | add id name ip data =>
    exact kept (Option.some.inj hr) (add_kept env h id name ip hs.1 hs.2) rfl rfl
  | delete id info hwaddr =>
    obtain ⟨r,hx,rfl⟩ := Option.map_eq_some_iff.mp hr
    exact delete_carries pcre env h id info hwaddr hs hx
  | addVip id name ip note a ipcalc =>
    obtain ⟨r,hx,rfl⟩ := Option.map_eq_some_iff.mp hr
    obtain ⟨h₁,h₂,h₃,h₄,h₅,h₆⟩ := hs
    exact kept rfl (addVip_kept env h id name ip note a ipcalc h₁ h₂ h₃ h₄ h₅ h₆ hx) rfl rfl
  | setVipName id name =>
    exact kept (Option.some.inj hr) (setVipName_kept pcre env h id name hs.1 hs.2) rfl rfl
  | setVipAddress id ip a =>
    exact kept (Option.some.inj hr) (setVipAddress_kept env h id ip a hs) rfl rfl
  | setVipPname id parent =>
    exact kept (Option.some.inj hr) (setVipPname_kept env h id parent) rfl rfl
  | setVip id data =>
    simp only [Op.run] at hr
    split at hr
    · rename_i hk
      exact kept (Option.some.inj hr) (setVip_kept env h id hs hk) rfl rfl
    · simp at hr
  | deleteVip id =>
    have hd := without_written env h "network" "additional.cfg" id (fun _ => by decide)
    obtain ⟨h₁,h₂⟩ := delete_keeps pcre env h looked_network hd hs
    simp only [Op.run,Option.some.injEq] at hr
    subst hr
    refine ⟨h₁,?_⟩
    rcases h₂ with h₂ | h₂
    · exact (keeps_reg h₂).mono (fun _ hf => hf.elim) fun _ hf => hf
    · exact (without_vip env h id).keep h₂

/-- A name that no interface with aliases has, and that is no part of a key, leaves them alone. -/
theorem spares_plain {n new : Str} {w : World} (hn : PlainName n) (hw : NewName new)
    (hk : ∀ k ∈ referenceKeys, ¬ n <:+: k) (hp : n ∉ parentNames w) : Spares pcre n new w :=
  ⟨id,fun _ hm => (mem_interfaceNames.mp (mem_parentNames hm)).1,fun _ _ _ hl => removeLine_rel pcre hn hw hk (isLine_of_mem hl)
    (fun _ _ _ _ hm => absurd hm hp) fun _ _ _ _ _ _ => rfl⟩

theorem deleteSpares_plain {sec fil id n : Str} {w : World} (hi : nameOf sec fil id w = n)
    (hn : PlainName n) (hk : ∀ k ∈ referenceKeys, ¬ n <:+: k)
    (hp : n ∉ parentNames (without env sec fil id w)) : DeleteSpares pcre env sec fil id w := by
  intro _
  rw [hi]
  exact spares_plain pcre hn newName_nil hk hp

/-- A step of a run: the call's surroundings, the command and the state it finds. -/
structure Turn where
  env : Env
  op : Op
  before : World

def commandSystem : System World Turn where
  init w := Sound w ∧ ∀ id ∈ (aliasEntries w).keys, HasParent w id
  step w t w' := t.before = w ∧ t.op.run pcre t.env w = some w'

def safeSystem : System World Turn where
  init w := Sound w ∧ ∀ id ∈ (aliasEntries w).keys, HasParent w id
  step w t w' := t.before = w ∧ t.op.run pcre t.env w = some w' ∧ t.op.Safe pcre t.env w

/-- The interface of the alias has been deleted, and it has not stood on another since. -/
def ParentDeleted (ts : List Turn) (id : Str) : Prop :=
  ∃ l t m, ts = l ++ t::m ∧ t.op.Orphans t.before id ∧ ∀ u ∈ m, ¬ HasParent u.before id

/-- In every state of a run an alias stands on an interface, unless its interface was deleted. -/
theorem safe_run {w w' : World} {ts : List Turn} (hi : (safeSystem pcre).init w)
    (hr : System.Run (safeSystem pcre) w ts w') :
    Sound w' ∧ ∀ id ∈ (aliasEntries w').keys, HasParent w' id ∨ ParentDeleted ts id := by
  induction hr with
  | nil => exact ⟨hi.1,fun id hm => Or.inl (hi.2 id hm)⟩
  | snoc _ hs ih =>
    rename_i u v t _
    obtain ⟨hb,hrun,hsafe⟩ := hs
    obtain ⟨hsound,hc⟩ := step_carries pcre t.env ih.1 hsafe hrun
    refine ⟨hsound,fun id hm => ?_⟩
    by_cases hk : id ∈ (aliasEntries u).keys
    · by_cases hp : HasParent u id
      · rcases hc.stands id hp hm with hp' | ho
        · exact Or.inl hp'
        · exact Or.inr ⟨_,t,[],rfl,by rw [hb]; exact ho,by simp⟩
      · obtain ⟨l,x,m,rfl,ho,hm'⟩ := (ih.2 id hk).resolve_left hp
        refine Or.inr ⟨l,x,m ++ [t],by simp,ho,fun y hy => ?_⟩
        rcases List.mem_append.mp hy with hy | hy
        · exact hm' y hy
        · rw [List.mem_singleton.mp hy,hb]
          exact hp
    · exact Or.inl (hc.added id hm hk)

/-- An alias disappears only when it is deleted, or when its interface was. -/
theorem vips_deleted {w w' : World} {ts : List Turn} {t : Turn}
    (hi : (safeSystem pcre).init w) (hr : System.Run (safeSystem pcre) w (ts ++ [t]) w') :
    ∀ id ∈ (aliasEntries t.before).keys, id ∉ (aliasEntries w').keys →
      t.op = .deleteVip id ∨ ParentDeleted ts id := by
  intro id hm hn
  generalize hx : ts ++ [t] = xs at hr
  cases hr with
  | nil => simp at hx
  | snoc hr hs =>
    obtain ⟨rfl,ht⟩ := List.append_inj' hx rfl
    simp only [List.cons.injEq,and_true] at ht
    subst ht
    obtain ⟨hb,hrun,hsafe⟩ := hs
    obtain ⟨hsound,hinv⟩ := safe_run pcre hi hr
    obtain ⟨-,hc⟩ := step_carries pcre t.env hsound hsafe hrun
    rw [hb] at hm
    have hg := (hc.stays id hm).resolve_left hn
    cases hop : t.op with
    | deleteVip i =>
      rw [hop] at hg
      left
      rw [show id = i from hg]
    | lookup k =>
      rw [hop] at hg
      exact Or.inr ((hinv id hm).resolve_left hg.2)
    | _ => rw [hop] at hg; exact hg.elim

def vipWorld : World := World.ofFiles [
  ("network","additional.cfg","ID=a1\nNAME=web\nPNAME=lan\nSTAT=1\nADDR=10.0.0.9\n"),
  ("network","eth.cfg","ID=eth0\nNAME=lan\nTYPE=static\nSTAT=1\nDEVICE=eth0\nADDR=10.0.0.1\n")]

theorem vipWorld_read : (∀ e ∈ (aliasEntries vipWorld).entries, parented (ethEntries vipWorld) e.2 = true) ∧
    (∀ fil ∈ netFiles, Plain (text "network" fil vipWorld)) ∧
    (∀ fil ∈ netFiles, LineEnded (text "network" fil vipWorld)) ∧
    nameOf "network" "eth.cfg" "eth0" vipWorld = ("lan" : Str) ∧
    ("lan" : Str) ∉ parentNames (without noonEnv "network" "eth.cfg" "eth0" vipWorld) := by
  decide +kernel

theorem vipWorld_init : (safeSystem Pcre.plain).init vipWorld := by
  obtain ⟨hall,hplain,hended,-⟩ := vipWorld_read
  refine ⟨⟨⟨hplain,hended⟩,fun _ _ _ => Or.inl rfl⟩,fun id hm => ?_⟩
  obtain ⟨e,he,rfl⟩ := List.mem_map.mp hm
  exact ⟨e.2,OrdMap.get?_eq_some.mpr he,hall e he⟩

/-- The interface is deleted, and the networks are looked up. -/
def orphanedWorld : World := ((Op.delete "eth0" [] []).run Pcre.plain noonEnv vipWorld).getD vipWorld

def orphanedTurn : Turn := ⟨noonEnv,.delete "eth0" [] [],vipWorld⟩

def sweptWorld : World := ((Op.lookup .networks).run Pcre.plain noonEnv orphanedWorld).getD vipWorld

theorem vips_deleted_lan :
    Str.of "a1" ∈ (aliasEntries orphanedWorld).keys ∧ Str.of "a1" ∉ (aliasEntries sweptWorld).keys ∧
    (Op.lookup .networks = .deleteVip "a1" ∨ ParentDeleted [orphanedTurn] "a1") := by
  have hrun : ((Op.delete "eth0" [] []).run Pcre.plain noonEnv vipWorld = some orphanedWorld ∧
      (Op.lookup .networks).run Pcre.plain noonEnv orphanedWorld = some sweptWorld) ∧
      Str.of "a1" ∈ (aliasEntries orphanedWorld).keys ∧ Str.of "a1" ∉ (aliasEntries sweptWorld).keys ∧
      orphans (ethEntries orphanedWorld) (aliasEntries orphanedWorld) = [Str.of "a1"] ∧
      nameOf "network" "additional.cfg" "a1" orphanedWorld = ("web" : Str) ∧
      ("web" : Str) ∉ parentNames (without noonEnv "network" "additional.cfg" "a1" orphanedWorld) := by
    decide +kernel
  obtain ⟨-,-,-,hlan⟩ := vipWorld_read
  obtain ⟨⟨hr₁,hr₂⟩,hm,hn,ho,hweb⟩ := hrun
  have h₁ : (Op.delete "eth0" [] []).Safe Pcre.plain noonEnv vipWorld :=
    deleteSpares_plain _ _ hlan.1 ⟨by decide,by decide,by decide,by decide,by decide⟩ (by decide) hlan.2
  have h₂ : (Op.lookup .networks).Safe Pcre.plain noonEnv orphanedWorld := fun _ => by
    rw [ho]
    exact ⟨deleteSpares_plain _ _ hweb.1 ⟨by decide,by decide,by decide,by decide,by decide⟩ (by decide)
      hweb.2,trivial⟩
  have hr : System.Run (safeSystem Pcre.plain) vipWorld
      ([orphanedTurn] ++ [⟨noonEnv,.lookup .networks,orphanedWorld⟩]) sweptWorld :=
    .snoc (.snoc .nil ⟨rfl,hr₁,h₁⟩) ⟨rfl,hr₂,h₂⟩
  exact ⟨hm,hn,vips_deleted Pcre.plain vipWorld_init hr "a1" hm hn⟩

def renamedWorld : World :=
  ((Op.setName "static" "eth0" "lan2").run Pcre.plain noonEnv vipWorld).getD vipWorld

theorem vips_lost : ¬ ∀ (w w' : World) (ts : List Turn) (t : Turn),
    (commandSystem Pcre.plain).init w → System.Run (commandSystem Pcre.plain) w (ts ++ [t]) w' →
    ∀ id ∈ (aliasEntries t.before).keys, id ∉ (aliasEntries w').keys →
      t.op = .deleteVip id ∨ ParentDeleted ts id := by
  intro h
  have hset : ∀ u v, (Op.setName "static" "eth0" "lan2").run Pcre.plain noonEnv u =
      some (((Op.setName "static" "eth0" "lan2").run Pcre.plain noonEnv u).getD v) := fun _ _ => rfl
  have hr₁ : (Op.setName "static" "eth0" "lan2").run Pcre.plain noonEnv vipWorld = some renamedWorld := hset _ _
  have ha : Str.of "a1" ∈ (aliasEntries renamedWorld).keys ∧
      Str.of "a1" ∉ (aliasEntries (definitionsGet Pcre.plain noonEnv .networks renamedWorld).2).keys := by
    decide +kernel
  have hr : System.Run (commandSystem Pcre.plain) vipWorld
      ([⟨noonEnv,.setName "static" "eth0" "lan2",vipWorld⟩] ++ [⟨noonEnv,.lookup .networks,renamedWorld⟩])
      (definitionsGet Pcre.plain noonEnv .networks renamedWorld).2 :=
    .snoc (.snoc .nil ⟨rfl,hr₁⟩) ⟨rfl,rfl⟩
  rcases h _ _ _ _ vipWorld_init hr "a1" ha.1 ha.2 with ho | ⟨l,t,m,ht,ho,-⟩
  · cases ho
  · have hm : t ∈ [(⟨noonEnv,.setName "static" "eth0" "lan2",vipWorld⟩ : Turn)] := by rw [ht]; simp
    rw [List.mem_singleton] at hm
    subst hm
    exact ho

end Interfaces
end Mybox
