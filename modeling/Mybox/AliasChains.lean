import Mybox.Chains
import Mybox.InterfaceIdentity

/-! The device of an interface name. An alias has the device of the interface it stands on, and the lookup asks for that
one by its name: it comes to an end when no alias stands, through other aliases, on itself. -/
namespace Mybox
namespace Interfaces

open Php RegistryFormat Registry References Definitions Relation

variable (pcre : Pcre) (env : Env)

/-- What is found as an alias by the name `a` stands on the name `b`. -/
def StandsOn (t : Token) (b a : Str) : Prop :=
  ∃ e ∈ t.entries, e.2.val "NAME" ≠ [] ∧ looseEq (e.2.val "NAME") a = true ∧ e.2.val "PNAME" = b ∧ b ≠ []

/-- The name `a` comes to the name `b` through one alias or more. -/
def Above (t : Token) (a b : Str) : Prop := TransGen (StandsOn t) b a

def Grounded (t : Token) : Prop := WellFounded (StandsOn t)

theorem standsOn_empty (b a : Str) : ¬ StandsOn ∅ b a := by
  rintro ⟨e,he,-⟩
  exact absurd he (List.not_mem_nil)

theorem grounded_empty : Grounded ∅ := ⟨fun _ => .intro _ fun b hb => absurd hb (standsOn_empty b _)⟩

theorem Grounded.fewer {t t' : Token} (h : Grounded t) (hs : ∀ b a, StandsOn t' b a → StandsOn t b a) : Grounded t' :=
  Subrelation.wf (hs _ _) h

/-- What is found by a parameter has the value that was asked for. -/
theorem byparam_found {sec fil param value : Str} (hp : looseEq param "ID" = false) {w : World}
    (hc : Coherent sec fil w) : (iniTokenGetByparam env sec fil param value ∅ w).1.2 = ∅ ∨
      ∃ e ∈ (entries sec fil w).entries, (iniTokenGetByparam env sec fil param value ∅ w).1.2 = e.2 ∧
        e.2.val param ≠ [] ∧ looseEq (e.2.val param) value = true := by
  have hg := iniTokenGet_fst env sec fil hc
  unfold iniTokenGetByparam
  dsimp only
  rw [hg,hp,Bool.false_and,if_neg (by simp)]
  split
  · rename_i e he
    have hm := List.find?_some he
    rw [Bool.and_eq_true,Bool.not_eq_true',null_false_iff] at hm
    exact Or.inr ⟨e,List.mem_of_find?_eq_some he,rfl,hm.1,hm.2⟩
  · exact Or.inl rfl

/-- A lookup ends with the name it is given, or goes on with the name below. -/
theorem device_step {w : World} (h : Fresh w) (name : Str) :
    (∃ r, ∀ n, definitionsGetInterfaceDevice env (n+1) name w = some r) ∨
    ∃ p v, Quiet w v ∧ StandsOn (aliasEntries w) p name ∧ ∀ n,
      (definitionsGetInterfaceDevice env (n+1) name w).isSome = (definitionsGetInterfaceDevice env n p v).isSome := by
  have hq := byparam_quiet env "eth.cfg" "NAME" name ∅ w
  have hq' := hq.trans (byparam_quiet env "additional.cfg" "NAME" name ∅ _)
  have hf := @byparam_found env "network" "additional.cfg" "NAME" name (by decide) _
    ((hq.fresh h) _ _ looked_network)
  rw [entries_congr _ _ hq.reg] at hf
  simp only [definitionsGetInterfaceDevice]
  split
  · exact Or.inl ⟨_,fun _ => rfl⟩
  · split
    · rename_i hc
      rw [Bool.and_eq_true,Bool.not_eq_true',null_false_iff] at hc
      refine Or.inr ⟨_,_,hq',?_,fun _ => Option.isSome_map⟩
      rcases hf with he | ⟨e,he,hv,hn,hl⟩
      · rw [he] at hc
        exact absurd rfl hc.1
      · rw [hv] at hc ⊢
        exact ⟨e,he,hn,hl,rfl,hc.1⟩
    · exact Or.inl ⟨_,fun _ => rfl⟩

theorem device_ends {w : World} (h : Grounded (aliasEntries w)) (hw : Fresh w) (name : Str) :
    ∃ n, (definitionsGetInterfaceDevice env n name w).isSome := by
  have key : ∀ name v, v.reg = w.reg → Fresh v → ∃ n, (definitionsGetInterfaceDevice env n name v).isSome := by
    intro name
    induction name using h.induction with
    | _ name ih =>
      intro v hv hfv
      rcases device_step env hfv name with ⟨r,hr⟩ | ⟨p,u,hq,hs,hn⟩
      · exact ⟨1,by rw [hr 0]; rfl⟩
      · rw [aliasEntries,entries_congr _ _ hv] at hs
        obtain ⟨n,hi⟩ := ih p hs u (hq.reg.trans hv) (hq.fresh hfv)
        exact ⟨n+1,(hn n).trans hi⟩
  exact key name w rfl hw

/-- A name that is no interface with a device, and is found as an alias on the same name, is looked up for ever. -/
theorem device_loops {w : World} (h : Fresh w) {name : Str}
    (he : (iniTokenGetByparam env "network" "eth.cfg" "NAME" name ∅ w).1.2.val "DEVICE" = [])
    (ha : (iniTokenGetByparam env "network" "additional.cfg" "NAME" name ∅ w).1.2.val "PNAME" = name)
    (hd : (iniTokenGetByparam env "network" "additional.cfg" "NAME" name ∅ w).1.2.val "__DATA_ID" ≠ [])
    (hn : name ≠ []) (n : ℕ) : definitionsGetInterfaceDevice env n name w = none := by
  have key : ∀ n v, Quiet w v → definitionsGetInterfaceDevice env n name v = none := by
    intro n
    induction n with
    | zero => exact fun _ _ => rfl
    | succ n ih =>
      intro v hq
      have hqe := hq.trans (byparam_quiet env "eth.cfg" "NAME" name ∅ v)
      have hqa := hqe.trans (byparam_quiet env "additional.cfg" "NAME" name ∅ _)
      have coherent : ∀ {u}, Quiet w u → ∀ fil, Coherent "network" fil u := fun hu fil =>
        hu.fresh h _ _ looked_network
      simp only [definitionsGetInterfaceDevice]
      rw [byparam_fst env "NAME" name (h _ _ looked_network) (coherent hq "eth.cfg") hq.reg,
        byparam_fst env "NAME" name (h _ _ looked_network) (coherent hqe "additional.cfg") hqe.reg,he,ha,
        null_iff.mpr rfl,null_false_iff.mpr hn,null_false_iff.mpr hd]
      simp [ih _ hqa]
  exact key n w (Quiet.refl w)

/-- The file is in order, and the cache agrees with all files. -/
abbrev Tidy (w : World) : Prop := KeptFiles ["additional.cfg"] w

theorem alias_kept : ("additional.cfg" : Str) ∈ [("additional.cfg" : Str)] := List.mem_singleton_self _

/-- The file is in order, and no name stands on another that did not. -/
structure Thins (w w' : World) : Prop where
  tidy : Tidy w'
  stands : ∀ b a, StandsOn (aliasEntries w') b a → StandsOn (aliasEntries w) b a

theorem Thins.trans {w w' w'' : World} (h : Thins w w') (h' : Thins w' w'') : Thins w w'' :=
  ⟨h'.tidy,fun b a hs => h.stands b a (h'.stands b a hs)⟩

theorem thins_quiet {w w' : World} (h : Tidy w) (hq : Quiet w w') : Thins w w' :=
  ⟨h.quiet hq,fun b a hs => by rwa [aliasEntries,entries_congr _ _ hq.reg] at hs⟩

theorem thins_text {w w' : World} (h : Tidy w) (hf : Fresh w')
    (ht : text "network" "additional.cfg" w' = text "network" "additional.cfg" w) : Thins w w' := by
  refine ⟨⟨fun fil hm => ?_,fun fil hm => ?_,hf⟩,fun b a hs => by rwa [aliasEntries,entries,ht] at hs⟩
  · obtain rfl := List.mem_singleton.mp hm
    rw [ht]
    exact h.plain _ alias_kept
  · obtain rfl := List.mem_singleton.mp hm
    rw [ht]
    exact h.ended _ alias_kept

theorem thins_elsewhere {w : World} (h : Tidy w) {sec fil x : Str} (hs : Looked sec) {r : Ret × World}
    (hr : Rewrites sec fil w r x) (hf : Frame sec fil w r.2) (hne : (sec,fil) ≠ (("network" : Str),("additional.cfg" : Str))) :
    Thins w r.2 :=
  thins_text h (hr.fresh hf hs h.fresh) (text_rewrite_ne hr hne)

theorem update_elsewhere {w : World} (h : Tidy w) {sec fil : Str} (hs : Looked sec)
    (hne : (sec,fil) ≠ (("network" : Str),("additional.cfg" : Str))) (id : Str) (data : Params) :
    Thins w (iniTokenUpdate env sec fil id data w).2 := by
  have hf := @iniTokenUpdate_frame env sec fil id data w
  rcases iniTokenUpdate_spec env sec fil id data (h.fresh _ _ hs) with ⟨_,-,hr⟩ | ⟨-,-,hr⟩
  · exact thins_elsewhere h hs hr hf hne
  · exact thins_elsewhere h hs (hr []) hf hne

theorem save_elsewhere {w : World} (h : Tidy w) {sec fil : Str} (hs : Looked sec)
    (hne : (sec,fil) ≠ (("network" : Str),("additional.cfg" : Str))) {data : Params} {r : Ret × World}
    (hr : iniTokenSave env sec fil data w = some r) : Thins w r.2 := by
  have hf := iniTokenSave_frame env hr
  rcases iniTokenSave_spec env sec fil (h.fresh _ _ hs) hr with ⟨_,_,-,-,hw,-⟩ | ⟨-,hw⟩
  · exact thins_elsewhere h hs hw hf hne
  · exact thins_elsewhere h hs (hw []) hf hne

theorem eth_elsewhere : (("network" : Str),("eth.cfg" : Str)) ≠ (("network" : Str),("additional.cfg" : Str)) := by decide

theorem write_elsewhere {w : World} (h : Tidy w) (id : Str) (data : Params) :
    Thins w (write env "eth.cfg" id data w).2 := by
  unfold write
  split
  · exact thins_quiet h (Quiet.refl w)
  · exact update_elsewhere env h looked_network eth_elsewhere id data

theorem standsOn_set {t : Token} {n a b : Str} {p : Params} (h : StandsOn (t.set n p) b a) :
    StandsOn t b a ∨ p.val "NAME" ≠ [] ∧ looseEq (p.val "NAME") a = true ∧ p.val "PNAME" = b ∧ b ≠ [] := by
  obtain ⟨e,he,hs⟩ := h
  rcases OrdMap.mem_set he with rfl | he
  · exact Or.inr hs
  · exact Or.inl ⟨e,he,hs⟩

/-- The entry that is written stands on what it is given, or on what it stood on, under its old or its new name. -/
theorem standsOn_written {own : Option Str} {data : Params} {w v : World}
    (h : Registry.Written ["additional.cfg"] "additional.cfg" own data w v) {b a : Str}
    (hs : StandsOn (aliasEntries v) b a) : StandsOn (aliasEntries w) b a ∨
      ∃ q, (∀ id ∈ own, (aliasEntries w).get? id = some q) ∧ (own = none → q = ∅) ∧
        ((data.get? "NAME").map carried).getD (q.val "NAME") ≠ [] ∧
        looseEq (((data.get? "NAME").map carried).getD (q.val "NAME")) a = true ∧
        ((data.get? "PNAME").map carried).getD (q.val "PNAME") = b ∧ b ≠ [] := by
  obtain ⟨n,q,p,hown,he,hp⟩ := h.put
  rw [aliasEntries,he] at hs
  refine (standsOn_set hs).imp_right fun hv => ⟨q,fun id hi => ?_,fun hn => ?_,?_⟩
  · rcases hown with ⟨ho,hq⟩ | ⟨ho,-⟩
    · rw [ho,Option.mem_some_iff] at hi
      exact hi ▸ hq
    · simp [ho] at hi
  · rcases hown with ⟨ho,-⟩ | ⟨-,-,hq⟩
    · simp [ho] at hn
    · exact hq
  · rwa [hp "NAME" (by decide),hp "PNAME" (by decide)] at hv

theorem update_alias {w : World} (h : Tidy w) (id : Str) {data : Params} (hd : WritableData data) :
    Tidy (iniTokenUpdate env "network" "additional.cfg" id data w).2 ∧
    ∀ b a, StandsOn (aliasEntries (iniTokenUpdate env "network" "additional.cfg" id data w).2) b a →
      StandsOn (aliasEntries w) b a ∨ ∃ q, (aliasEntries w).get? id = some q ∧
        ((data.get? "NAME").map carried).getD (q.val "NAME") ≠ [] ∧
        looseEq (((data.get? "NAME").map carried).getD (q.val "NAME")) a = true ∧
        ((data.get? "PNAME").map carried).getD (q.val "PNAME") = b ∧ b ≠ [] := by
  obtain ⟨hk,-,hr,-⟩ := h.update env alias_kept id hd
  refine ⟨hk,fun b a hs => ?_⟩
  by_cases ho : (iniTokenUpdate env "network" "additional.cfg" id data w).1 = .ok
  · have hw := h.update_written env alias_kept hd (Prod.ext ho rfl)
    exact (standsOn_written hw hs).imp_right fun ⟨q,hq,_,hv⟩ => ⟨q,hq id rfl,hv⟩
  · rw [aliasEntries,entries_congr _ _ (hr ho)] at hs
    exact Or.inl hs

theorem write_alias {w : World} (h : Tidy w) (id : Str) {data : Params} (hd : WritableData data) :
    Tidy (write env "additional.cfg" id data w).2 ∧
    ∀ b a, StandsOn (aliasEntries (write env "additional.cfg" id data w).2) b a →
      StandsOn (aliasEntries w) b a ∨ ∃ q, (aliasEntries w).get? id = some q ∧
        ((data.get? "NAME").map carried).getD (q.val "NAME") ≠ [] ∧
        looseEq (((data.get? "NAME").map carried).getD (q.val "NAME")) a = true ∧
        ((data.get? "PNAME").map carried).getD (q.val "PNAME") = b ∧ b ≠ [] := by
  unfold write
  split
  · exact ⟨h,fun _ _ => Or.inl⟩
  · exact update_alias env h id hd

theorem standsOn_entry {t : Token} {id a b : Str} {q : Params} (hq : t.get? id = some q) (hn : q.val "NAME" ≠ [])
    (hl : looseEq (q.val "NAME") a = true) (hp : q.val "PNAME" = b) (hb : b ≠ []) : StandsOn t b a :=
  ⟨(id,q),OrdMap.get?_eq_some.mp hq,hn,hl,hp,hb⟩

theorem write_thins {w : World} (h : Tidy w) (id : Str) {data : Params} (hd : WritableData data)
    (hn : data.get? "NAME" = none) (hp : data.get? "PNAME" = none) :
    Thins w (write env "additional.cfg" id data w).2 := by
  obtain ⟨hk,hs⟩ := write_alias env h id hd
  refine ⟨hk,fun b a hb => (hs b a hb).elim (fun hb => hb) fun ⟨q,hq,h₁,h₂,h₃,h₄⟩ => ?_⟩
  rw [hn] at h₁ h₂
  rw [hp] at h₃
  exact standsOn_entry hq h₁ h₂ h₃ h₄

/-- An alias of the name on `p` would come to stand on itself. -/
def Closes (t : Token) (name p : Str) : Prop :=
  name ≠ [] ∧ p ≠ [] ∧ ∃ y, looseEq name y = true ∧ (p = y ∨ Above t p y)

theorem grounded_put {t t' : Token} {name p : Str} (h : Grounded t) (hc : ¬ Closes t name p)
    (hs : ∀ b a, StandsOn t' b a → StandsOn t b a ∨ name ≠ [] ∧ looseEq name a = true ∧ p = b ∧ b ≠ []) :
    Grounded t' := by
  by_cases hn : name ≠ [] ∧ p ≠ []
  · refine Chains.wellFounded_of_edges h (M := fun a => looseEq name a = true) (p := p) (fun b a hb => ?_) fun y hy hr => ?_
    · exact (hs b a hb).imp_right fun ⟨_,hl,he,_⟩ => ⟨hl,he.symm⟩
    · exact hc ⟨hn.1,hn.2,y,hy,(reflTransGen_iff_eq_or_transGen.mp hr)⟩
  · refine h.fewer fun b a hb => (hs b a hb).resolve_right ?_
    rintro ⟨h₁,-,rfl,h₂⟩
    exact hn ⟨h₁,h₂⟩

/-- A rewriting leaves a text that is read, in which what a name stood on it still stands on, but for the old name: the
new one may be in its place. -/
structure Moved (old new s s' : Str) : Prop where
  plain : Plain s → Plain s'
  stands : ∀ b a, StandsOn (readText s' ∅) b a → ∃ b₀ a₀, StandsOn (readText s ∅) b₀ a₀ ∧
    (b = b₀ ∨ b₀ = old ∧ b = new) ∧ (a = a₀ ∨ a₀ = old ∧ new ≠ [] ∧ looseEq new a = true)

theorem Moved.refl (old new s : Str) : Moved old new s s :=
  ⟨id,fun b a h => ⟨b,a,h,Or.inl rfl,Or.inl rfl⟩⟩

theorem Moved.fewer {old s s' : Str} (h : Moved old [] s s') {b a : Str} (hs : StandsOn (readText s' ∅) b a) :
    StandsOn (readText s ∅) b a := by
  have hb : b ≠ [] := by
    obtain ⟨e,-,-,-,-,hb⟩ := hs
    exact hb
  obtain ⟨b₀,a₀,h₀,rfl | ⟨-,rfl⟩,rfl | ⟨-,hn,-⟩⟩ := h.stands b a hs
  · exact h₀
  · exact absurd rfl hn
  · exact absurd rfl hb
  · exact absurd rfl hn

def Renames (old new k v v' : Str) : Prop :=
  k = ("NAME" : Str) ∨ k = ("PNAME" : Str) → v' = v ∨ v = old ∧ v' = new

theorem renames_value {old new k : Str} {p p' : Params} (h : OrdMap.Rel (Renames old new) p p')
    (hk : k = ("NAME" : Str) ∨ k = ("PNAME" : Str)) : p'.val k = p.val k ∨ p.val k = old ∧ p'.val k = new := by
  unfold Params.val OrdMap.getD
  rcases h.get? k with ⟨h₁,h₂⟩ | ⟨v,v',h₁,h₂,hr⟩
  · rw [h₁,h₂]
    exact Or.inl rfl
  · rw [h₁,h₂]
    exact hr hk

/-- Names without special characters that are no part of a key are replaced whole. -/
theorem moved_plain {old new s : Str} (ho : PlainName old) (hn : NewName new) (hk : ∀ k ∈ referenceKeys, ¬ old <:+: k) :
    Moved old new s (removeText pcre old new s) := by
  have hl : ∀ l ∈ file s, LineRel (Renames old new) l (removeLine pcre old new l) := fun l hm =>
    removeLine_rel pcre ho hn hk (isLine_of_mem hm) (fun _ _ _ _ => Or.inr ⟨rfl,rfl⟩) fun _ _ _ _ _ => Or.inl rfl
  have hf := file_removeText pcre fun l hm => (hl l hm).isLine (isLine_of_mem hm)
  have hrel : TokenRel (Renames old new) (readText s ∅) (readText (removeText pcre old new s) ∅) := by
    refine readText_rel (fun n hd => Or.inl rfl) ?_
    rw [hf,List.forall₂_map_right_iff]
    exact List.forall₂_same.mpr hl
  refine ⟨fun hp l hm => ?_,fun b a hs => ?_⟩
  · rw [hf] at hm
    obtain ⟨x,hx,rfl⟩ := List.mem_map.mp hm
    exact (hl x hx).plain (hp x hx)
  · obtain ⟨e,he,hne,hl,rfl,hb⟩ := hs
    rcases hrel.get? e.1 with ⟨-,h₂⟩ | ⟨p,p',h₁,h₂,hr⟩
    · rw [OrdMap.get?_eq_some.mpr he] at h₂
      simp at h₂
    · obtain rfl : p' = e.2 := by
        rw [OrdMap.get?_eq_some.mpr he] at h₂
        simpa using h₂.symm
      have hname := renames_value hr (Or.inl rfl)
      have hpname := renames_value hr (Or.inr rfl)
      have hold : p.val "NAME" ≠ [] := by
        rcases hname with h | ⟨h,-⟩
        · rwa [h] at hne
        · exact h ▸ ho.ne
      have hpold : p.val "PNAME" ≠ [] := by
        rcases hpname with h | ⟨h,-⟩
        · rwa [h] at hb
        · exact h ▸ ho.ne
      refine ⟨p.val "PNAME",if e.2.val "NAME" = p.val "NAME" then a else old,?_,hpname,?_⟩
      · split
        · rename_i h
          exact standsOn_entry h₁ hold (h ▸ hl) rfl hpold
        · rename_i h
          exact standsOn_entry h₁ hold (by rw [(hname.resolve_left h).1,looseEq_self]) rfl hpold
      · split
        · exact Or.inl rfl
        · rename_i h
          have hx := hname.resolve_left h
          rw [hx.2] at hne hl
          exact Or.inr ⟨rfl,hne,hl⟩

theorem remove_text {w : World} {old new read : Str}
    (hm : Moved old read (text "network" "additional.cfg" w) (removeText pcre old new (text "network" "additional.cfg" w))) :
    Moved old read (text "network" "additional.cfg" w)
      (text "network" "additional.cfg" (iniTokenRemove pcre env old new w)) := by
  have ht := text_iniTokenRemove pcre env old new ("network","additional.cfg") w
  dsimp only at ht
  rw [ht,removeFile]
  split
  · exact hm
  · exact .refl _ _ _

/-- The name of an entry that is deleted is taken out of the aliases, and nothing else is. -/
def TakesOut (sec fil id : Str) (w : World) : Prop :=
  env.strg = true → nameOf sec fil id w ≠ [] →
    Moved (nameOf sec fil id w) [] (text "network" "additional.cfg" (without env sec fil id w))
      (removeText pcre (nameOf sec fil id w) [] (text "network" "additional.cfg" (without env sec fil id w)))

theorem takesOut_plain {sec fil id : Str} {w : World} (hl : Literal (nameOf sec fil id w))
    (hk : ∀ k ∈ referenceKeys, ¬ nameOf sec fil id w <:+: k) : TakesOut pcre env sec fil id w := fun _ hn =>
  moved_plain pcre (nameOf_plain hn hl) newName_nil hk

theorem TakesOut.congr {sec fil id : Str} {w w' : World} (h : w'.reg = w.reg) (hs : TakesOut pcre env sec fil id w) :
    TakesOut pcre env sec fil id w' := by
  unfold TakesOut at *
  rw [nameOf_congr sec fil id h,text,without_reg env sec fil id h]
  exact hs

theorem without_thins {w : World} (h : Tidy w) (sec fil id : Str) :
    Plain (text "network" "additional.cfg" (without env sec fil id w)) ∧
    LineEnded (text "network" "additional.cfg" (without env sec fil id w)) ∧
    ∀ b a, StandsOn (aliasEntries (without env sec fil id w)) b a → StandsOn (aliasEntries w) b a := by
  by_cases he : (sec,fil) = (("network" : Str),("additional.cfg" : Str))
  · obtain ⟨rfl,rfl⟩ := Prod.mk.inj he
    obtain ⟨hent,hp,hl⟩ := entries_without env id (h.plain _ alias_kept)
    refine ⟨hp,hl,?_⟩
    rintro b a ⟨e,hm,hs⟩
    rw [aliasEntries,hent] at hm
    exact ⟨e,List.mem_of_mem_filter hm,hs⟩
  · have ht := @text_without_ne env sec fil id _ _ w he
    exact ⟨ht ▸ h.plain _ alias_kept,ht ▸ h.ended _ alias_kept,fun b a hs => by rwa [aliasEntries,entries,ht] at hs⟩

theorem delete_thins {w : World} (h : Tidy w) {sec fil id : Str} (hs : Looked sec) (ht : TakesOut pcre env sec fil id w) :
    Thins w (iniTokenDelete pcre env sec fil id w).2 := by
  have hreg := iniTokenDelete_deleted pcre env id (h.fresh sec fil hs)
  have hfresh : Fresh (iniTokenDelete pcre env sec fil id w).2 := iniTokenDelete_fresh pcre env id hs h.fresh
  generalize (iniTokenDelete pcre env sec fil id w).2 = v at *
  obtain ⟨hp,hl,hw⟩ := without_thins env h sec fil id
  have finish : ∀ {u : World}, v.reg = u.reg → Plain (text "network" "additional.cfg" u) →
      LineEnded (text "network" "additional.cfg" u) →
      (∀ b a, StandsOn (aliasEntries u) b a → StandsOn (aliasEntries w) b a) → Thins w v := by
    intro u hu h₁ h₂ h₃
    have hv : text "network" "additional.cfg" v = text "network" "additional.cfg" u := by rw [text,hu]; rfl
    refine ⟨⟨fun fil hm => ?_,fun fil hm => ?_,hfresh⟩,fun b a hs => h₃ b a ?_⟩
    · obtain rfl := List.mem_singleton.mp hm
      exact hv ▸ h₁
    · obtain rfl := List.mem_singleton.mp hm
      exact hv ▸ h₂
    · rwa [aliasEntries,entries_congr _ _ hu] at hs
  unfold deleted at hreg
  split at hreg
  · rename_i hc
    rw [Bool.and_eq_true] at hc
    split at hreg
    · exact finish hreg hp hl hw
    · rename_i hn
      have hm := ht hc.1 (by simpa using hn)
      have he := iniTokenRemove_ended pcre env (nameOf sec fil id w) [] "network" "additional.cfg" hl
      have hx := remove_text pcre env hm
      exact finish hreg (hx.plain hp) he fun b a hs => hw b a (hx.fewer hs)
  · exact finish hreg (h.plain _ alias_kept) (h.ended _ alias_kept) fun _ _ hs => hs

/-- Every name is looked up in the end. -/
structure Resolvable (w : World) : Prop where
  tidy : Tidy w
  grounded : Grounded (aliasEntries w)

theorem Thins.resolvable {w w' : World} (h : Thins w w') (hw : Resolvable w) : Resolvable w' :=
  ⟨h.tidy,hw.grounded.fewer h.stands⟩

theorem Resolvable.quiet {w w' : World} (h : Resolvable w) (hq : Quiet w w') : Resolvable w' :=
  (thins_quiet h.tidy hq).resolvable h

theorem setName_thins {w : World} (h : Tidy w) (type id name : Str) :
    Thins w (interfacesSetName env type id name w).2 := by
  refine interfaceOf_cases env type id w _ (fun v hq => thins_quiet h hq) fun p v hq => ?_
  have hq' := hq.trans (changeTaken_quiet env "NAME" (p.val "NAME") name v)
  dsimp only
  split
  · exact thins_quiet h hq'
  · exact (thins_quiet h hq').trans (write_elsewhere env (h.quiet hq') id _)

theorem setAddress_thins {w : World} (h : Tidy w) (type id ip : Str) (a : Probe) :
    Thins w (interfacesSetAddress env type id ip a w).2 := by
  refine interfaceOf_cases env type id w _ (fun v hq => thins_quiet h hq) fun p v hq => ?_
  have hq' := hq.trans (changeTaken_quiet env "ADDR" (p.val "ADDR") ip v)
  split
  · exact thins_quiet h hq
  · dsimp only
    split
    · exact thins_quiet h hq'
    · exact (thins_quiet h hq').trans (write_elsewhere env (h.quiet hq') id _)

theorem set_thins {w : World} (h : Tidy w) (type id : Str) (data : Params) :
    Thins w (interfacesSet env type id data w).2 :=
  interfaceOf_cases env type id w _ (fun _ hq => thins_quiet h hq) fun _ _ hq =>
    (thins_quiet h hq).trans (write_elsewhere env (h.quiet hq) id data)

theorem add_thins {w : World} (h : Tidy w) (id name : Str) (ip : Option (Str × Probe)) (data : Params) :
    Thins w (interfacesAdd env id name ip data w).2 := by
  rcases interfacesAdd_cases env id name ip data w with ⟨-,hq⟩ | ⟨v,hq,he,-⟩
  · exact thins_quiet h hq
  · rw [he]
    exact (thins_quiet h hq).trans (write_elsewhere env (h.quiet hq) id data)

theorem updateNicEntries_thins (key : Str) (t : Token) {w : World} {r : Params × World} (h : Thins w r.2) :
    Thins w (updateNicEntries env key t r).2 := by
  unfold updateNicEntries
  generalize t.entries = es
  induction es generalizing r with
  | nil => exact h
  | cons e es ih =>
    rw [List.foldl_cons]
    dsimp only
    split
    · exact ih h
    · exact ih (h.trans (update_elsewhere env h.tidy looked_network eth_elsewhere _ _))

theorem saveDevices_thins {es : List (Str × Str)} {w u v : World} (h : Thins w u)
    (hv : es.foldlM (fun w e => (iniTokenSave env "network" "eth.cfg"
      (dataOf [("DEVICE",e.1),("VENDOR",e.2),("STAT","0")]) w).map Prod.snd) u = some v) : Thins w v := by
  induction es generalizing u with
  | nil =>
    obtain rfl : u = v := by simpa using hv
    exact h
  | cons e es ih =>
    rw [List.foldlM_cons] at hv
    obtain ⟨u',hu',hv⟩ := Option.bind_eq_some_iff.mp hv
    obtain ⟨r,hr,rfl⟩ := Option.map_eq_some_iff.mp hu'
    exact ih (h.trans (save_elsewhere env h.tidy looked_network eth_elsewhere hr)) hv

theorem updateNicDevice_thins {w v : World} (h : Tidy w) (info : Str) (hv : updateNicDevice env info w = some v) :
    Thins w v := by
  have hq := get_quiet env "eth.cfg" w
  unfold updateNicDevice at hv
  dsimp only at hv
  split at hv
  · obtain rfl := Option.some.inj hv
    exact thins_quiet h (Quiet.refl w)
  · split at hv
    · obtain rfl := Option.some.inj hv
      exact thins_quiet h hq
    · exact saveDevices_thins env (updateNicEntries_thins env _ _ (r := (_,_)) (thins_quiet h hq)) hv

theorem updateNicHwaddr_thins {w : World} (h : Tidy w) (hwaddr : Str) : Thins w (updateNicHwaddr env hwaddr w) := by
  have hq := get_quiet env "eth.cfg" w
  unfold updateNicHwaddr
  dsimp only
  split
  · exact thins_quiet h (Quiet.refl w)
  · split
    · exact thins_quiet h hq
    · exact updateNicEntries_thins env _ _ (r := (_,_)) (thins_quiet h hq)

theorem interfacesDelete_thins {w : World} (h : Tidy w) (id info hwaddr : Str)
    (ht : TakesOut pcre env "network" "eth.cfg" id w) {r : Bool × World}
    (hr : interfacesDelete pcre env id info hwaddr w = some r) : Thins w r.2 := by
  have hd := delete_thins pcre env h looked_network ht
  unfold interfacesDelete at hr
  dsimp only at hr
  split at hr
  · obtain ⟨v,hv,rfl⟩ := Option.map_eq_some_iff.mp hr
    have hdev := hd.trans (updateNicDevice_thins env hd.tidy info hv)
    exact hdev.trans (updateNicHwaddr_thins env hdev.tidy hwaddr)
  · obtain rfl := Option.some.inj hr
    exact hd

theorem definitionsSave_thins {w : World} (h : Tidy w) (k : Kind) (type : Str) (data : Params) {r : Bool × World}
    (hr : Definitions.definitionsSave env k type data w = some r) : Thins w r.2 := by
  have hne : ∀ fil, (("definitions" : Str),fil) ≠ (("network" : Str),("additional.cfg" : Str)) := fun fil he =>
    absurd (congrArg Prod.fst he) (show ("definitions" : Str) ≠ "network" by decide)
  unfold Definitions.definitionsSave at hr
  split at hr
  · obtain rfl := Option.some.inj hr
    exact thins_quiet h (Quiet.refl w)
  · obtain ⟨s,hs,rfl⟩ := Option.map_eq_some_iff.mp hr
    have ht := save_elsewhere env h looked_definitions (hne _) hs
    split
    · exact ht.trans (thins_quiet ht.tidy (unlinkPrint_quiet k _))
    · exact ht

theorem definitionsUpdate_thins {w : World} (h : Tidy w) (k : Kind) (type id : Str) (data : Params) :
    Thins w (Definitions.definitionsUpdate env k type id data w).2 := by
  have hne : ∀ fil, (("definitions" : Str),fil) ≠ (("network" : Str),("additional.cfg" : Str)) := fun fil he =>
    absurd (congrArg Prod.fst he) (show ("definitions" : Str) ≠ "network" by decide)
  unfold Definitions.definitionsUpdate
  split
  · exact thins_quiet h (Quiet.refl w)
  · have ht := update_elsewhere env h looked_definitions (hne (definitionsFile k type)) id data
    dsimp only
    split
    · exact ht.trans (thins_quiet ht.tidy (unlinkPrint_quiet k _))
    · exact ht

theorem setVipAddress_thins {w : World} (h : Tidy w) (id : Str) {ip : Str} (a : Probe) (hn : '\n' ∉ ip) :
    Thins w (Interfaces.setVipAddress env id ip a w).2 := by
  refine vipOf_cases env id w _ (fun v hq => thins_quiet h hq) fun p v hq _ => ?_
  have hq' := hq.trans (changeTaken_quiet env "ADDR" (p.val "ADDR") ip v)
  split
  · exact thins_quiet h hq
  · dsimp only
    split
    · exact thins_quiet h hq'
    · refine (thins_quiet h hq').trans (write_thins env (h.quiet hq') id (gives_one (k := "ADDR") (by decide) hn).writable ?_ ?_)
      · rw [dataOf_single,if_neg (by decide)]
      · rw [dataOf_single,if_neg (by decide)]

theorem vipKeys_names : ∀ k ∈ vipKeys, KeyName k := by decide

theorem setVip_thins {w : World} (h : Tidy w) (id : Str) {data : Params} (hk : data.keys.all (vipKeys.contains ·) = true)
    (hn : ∀ x ∈ data.entries, '\n' ∉ x.2) : Thins w (Interfaces.setVip env id data w).2 := by
  have hd : WritableData data := fun x hx => by
    have hm := List.all_eq_true.mp hk x.1 (List.mem_map_of_mem hx)
    exact Or.inr (Or.inl ⟨hn x hx,vipKeys_names x.1 (by simpa using hm)⟩)
  exact vipOf_cases env id w _ (fun v hq => thins_quiet h hq) fun p v hq _ => (thins_quiet h hq).trans
    (write_thins env (h.quiet hq) id hd (get?_none_of_keys hk (by decide)) (get?_none_of_keys hk (by decide)))

theorem ethName_quiet {w v : World} (h : Fresh w) (hq : Quiet w v) (id : Str) : ethName env id v = ethName env id w := by
  rw [ethName,ethName,byparam_fst env "ID" id (h _ _ looked_network) (hq.fresh h _ _ looked_network) hq.reg]

theorem ethName_read {w : World} (h : Fresh w) {i : Str} (hn : ethName env i w ≠ []) : ReadValue (ethName env i w) :=
  (byparam_name env "ID" i h hn).2

def aliasName (id : Str) (w : World) : Str := nameOf "network" "additional.cfg" id w

def aliasParent (id : Str) (w : World) : Str := ((aliasEntries w).getD id ∅).val "PNAME"

/-- The state in which the references to an alias are rewritten: a name that another alias has is not given. -/
def givenName (id name : Str) (w : World) : World :=
  if nameRefused ("additional.cfg",id) name w then w else renamed env id name w

/-- The new name of an alias and its old one do not come to each other. An alias without a name may be given one its
interface does not come to. -/
structure RenameClear (id name : Str) (w : World) : Prop where
  first : aliasName id w = [] → ¬ Closes (aliasEntries w) (carried name) (aliasParent id w)
  apart : aliasName id w ≠ [] → ∀ y, looseEq (carried name) y = true →
    ¬ Above (aliasEntries w) (aliasName id w) y ∧ ¬ Above (aliasEntries w) y (aliasName id w)
  whole : aliasName id w ≠ [] → Moved (aliasName id w) (carried name)
    (text "network" "additional.cfg" (givenName env id name w))
    (removeText pcre (aliasName id w) name (text "network" "additional.cfg" (givenName env id name w)))

theorem aliasName_entry {w : World} {id : Str} {q : Params} (hq : (aliasEntries w).get? id = some q) :
    aliasName id w = q.val "NAME" ∧ aliasParent id w = q.val "PNAME" := by
  rw [aliasName,nameOf,aliasParent,OrdMap.getD,hq]
  exact ⟨rfl,rfl⟩

theorem save_resolvable {w : World} (h : Resolvable w) {name p ip mask pref inet note : Str} (hp : ReadValue p)
    (hl : '\n' ∉ name ∧ '\n' ∉ ip ∧ '\n' ∉ mask ∧ '\n' ∉ pref ∧ '\n' ∉ inet ∧ '\n' ∉ note)
    (hc : ¬ Closes (aliasEntries w) (carried name) p) {r : Ret × World}
    (hr : iniTokenSave env "network" "additional.cfg" (dataOf [("NAME",name),("PNAME",p),("STAT","1"),("ADDR",ip),
      ("MASK",mask),("PREF",pref),("INET",inet),("NOTE",note)]) w = some r) : Resolvable r.2 := by
  have hd := @newData_of [("NAME",name),("PNAME",p),("STAT","1"),("ADDR",ip),("MASK",mask),("PREF",pref),("INET",inet),
    ("NOTE",note)] _ vipAddKeys_new rfl (by
      simp only [List.forall_mem_cons]
      exact ⟨hl.1,hp.2.1,by decide,hl.2.1,hl.2.2.1,hl.2.2.2.1,hl.2.2.2.2.1,hl.2.2.2.2.2,by simp⟩)
  obtain ⟨hk,-,hreg,-⟩ := h.tidy.save alias_kept hd hr
  refine ⟨hk,?_⟩
  by_cases ho : r.1 = .ok
  · have hw := h.tidy.save_written alias_kept hd (v := r.2) (by rw [hr,← ho])
    refine grounded_put h.grounded hc fun b a hb => (standsOn_written hw hb).imp_right fun ⟨q,_,_,hv⟩ => ?_
    rw [Ipcalc.get?_dataOf vipAddKeys_nodup rfl,Ipcalc.get?_dataOf vipAddKeys_nodup rfl,OrdMap.lookup,if_pos rfl,
      OrdMap.lookup,if_neg (by decide),OrdMap.lookup,if_pos rfl] at hv
    simpa [carried_eq hp.1 hp.2.2] using hv
  · rw [aliasEntries,entries_congr _ _ (hreg ho)]
    exact h.grounded

theorem addVip_resolvable {w : World} (h : Resolvable w) (id : Str) {name ip note : Str} (a : Probe) {ipcalc : Params}
    (hl : '\n' ∉ name ∧ '\n' ∉ ip ∧ '\n' ∉ note) (hi : ∀ k, '\n' ∉ ipcalc.val k)
    (hc : heldInEither "NAME" name w = false → ¬ Closes (aliasEntries w) (carried name) (ethName env id w))
    {r : Bool × World} (hr : Interfaces.addVip env id name ip note a ipcalc w = some r) : Resolvable r.2 := by
  have hq := takenInEither_quiet env "NAME" name w
  have hq' := hq.trans (takenInEither_quiet env "ADDR" ip _)
  have hq'' := hq'.trans (byparam_quiet env "eth.cfg" "ID" id ∅ _)
  have hheld := takenInEither_held env h.tidy.fresh "NAME" name
  unfold Interfaces.addVip at hr
  dsimp only at hr
  split at hr
  · obtain rfl := Option.some.inj hr
    exact h
  · split at hr
    · obtain rfl := Option.some.inj hr
      exact h.quiet hq
    · rename_i ht
      rw [hheld,Bool.not_eq_true] at ht
      split at hr
      · obtain rfl := Option.some.inj hr
        exact h.quiet hq'
      · split at hr
        · obtain rfl := Option.some.inj hr
          exact h.quiet hq''
        · rename_i hp
          have hname := ethName_quiet env h.tidy.fresh hq' id
          have hread := ethName_read env (hq'.fresh h.tidy.fresh) (i := id) (by simpa [ethName] using hp)
          rw [hname] at hread
          obtain ⟨s,hs,rfl⟩ := Option.map_eq_some_iff.mp hr
          have hv := h.quiet hq''
          rw [ethName] at hname
          rw [hname] at hs
          refine save_resolvable env hv hread ⟨hl.1,hl.2.1,hi _,hi _,hi _,hl.2.2⟩ ?_ hs
          rw [aliasEntries,entries_congr _ _ hq''.reg]
          exact hc ht

theorem writePname_resolvable {w : World} (h : Resolvable w) (id : Str) {p : Str} (hp : ReadValue p)
    (hc : ¬ Closes (aliasEntries w) (aliasName id w) p) :
    Resolvable (write env "additional.cfg" id (dataOf [("PNAME",p)]) w).2 := by
  have hd : WritableData (dataOf [("PNAME",p)]) := fun x hx => by
    rw [dataOf_entries (by simp)] at hx
    obtain rfl := List.mem_singleton.mp hx
    exact Or.inr (Or.inl ⟨hp.2.1,show KeyName "PNAME" by decide⟩)
  obtain ⟨hk,hs⟩ := write_alias env h.tidy id hd
  refine ⟨hk,grounded_put h.grounded hc fun b a hb => (hs b a hb).imp_right fun ⟨q,hg,hv⟩ => ?_⟩
  rw [dataOf_single,dataOf_single,if_neg (by decide),if_pos rfl] at hv
  rw [(aliasName_entry hg).1]
  simpa [carried_eq hp.1 hp.2.2] using hv

theorem setVipPname_resolvable {w : World} (h : Resolvable w) (id parent : Str)
    (hc : ¬ Closes (aliasEntries w) (aliasName id w) (ethName env parent w)) :
    Resolvable (Interfaces.setVipPname env id parent w).2 := by
  refine vipOf_cases env id w _ (fun v hq => h.quiet hq) fun p v hq _ => ?_
  have hq' := hq.trans (byparam_quiet env "eth.cfg" "ID" parent ∅ v)
  have hname := ethName_quiet env h.tidy.fresh hq parent
  dsimp only
  split
  · exact h.quiet hq'
  · rename_i hn
    have hread := ethName_read env (hq.fresh h.tidy.fresh) (i := parent) (by simpa [ethName] using hn)
    rw [ethName] at hread hname
    refine writePname_resolvable env (h.quiet hq') id hread ?_
    rw [hname,aliasName,nameOf_congr _ _ _ hq'.reg,aliasEntries,entries_congr _ _ hq'.reg]
    exact hc

theorem write_name (id name : Str) (w : World) : write env "additional.cfg" id (dataOf [("NAME",name)]) w =
    (decide ((iniTokenUpdate env "network" "additional.cfg" id (dataOf [("NAME",name)]) w).1 ≠ .fail),
      (iniTokenUpdate env "network" "additional.cfg" id (dataOf [("NAME",name)]) w).2) := by
  rw [write,if_neg (by simp [dataOf,OrdMap.setAll,OrdMap.isEmpty_iff,OrdMap.set_ne_empty])]

/-- A write that counts as done leaves the name given, or refused. -/
theorem write_given {w v : World} (h : Tidy w) (hq : Quiet w v) (id : Str) {name : Str} (hn : '\n' ∉ name)
    (hd : (write env "additional.cfg" id (dataOf [("NAME",name)]) v).1 = true) :
    (write env "additional.cfg" id (dataOf [("NAME",name)]) v).2.reg = (givenName env id name w).reg := by
  have hc := (h.quiet hq).coherent "additional.cfg"
  have hg : Gives (dataOf [("NAME",name)]) [("NAME",name)] := gives_one (by decide) hn
  have hx := @update_nameExists env v (hq.fresh h.fresh) "additional.cfg" id (dataOf [("NAME",name)])
  rw [hg.name,nameRefused_congr hq.reg,show nameGiven [("NAME",name)] = name from rfl] at hx
  rw [write_name] at hd ⊢
  unfold givenName
  cases hr : (iniTokenUpdate env "network" "additional.cfg" id (dataOf [("NAME",name)]) v).1 with
  | ok =>
    rw [if_neg fun hh => by simp [hr] at hx; simp [hx] at hh]
    exact update_renamed env hc hq.reg hr
  | nameExists =>
    rw [if_pos (hx.mp hr)]
    exact (((h.quiet hq).update env alias_kept id hg.writable).2.2.1 (by simp [hr])).trans hq.reg
  | fail => simp [hr] at hd

theorem write_unheld {w v : World} (h : Tidy w) (hq : Quiet w v) {id : Str} (name : Str) (hg : (aliasEntries w).get? id = none) :
    (write env "additional.cfg" id (dataOf [("NAME",name)]) v).1 = false := by
  rw [write_name]
  rcases iniTokenUpdate_spec env "network" "additional.cfg" id (dataOf [("NAME",name)])
    ((h.quiet hq).coherent "additional.cfg") with ⟨q,hs,-⟩ | ⟨hf,-,-⟩
  · rw [entries_congr _ _ hq.reg,show entries "network" "additional.cfg" w = aliasEntries w from rfl,hg] at hs
    simp at hs
  · simp [hf]

/-- The references to an alias are rewritten once its name is given, or refused. -/
theorem rename_resolvable {w v : World} (h : Resolvable w) {id name : Str} (hc : RenameClear pcre env id name w)
    (hold : aliasName id w ≠ []) (hv : Tidy v) (hreg : v.reg = (givenName env id name w).reg)
    (hs : ∀ b a, StandsOn (aliasEntries v) b a → StandsOn (aliasEntries w) b a ∨
      looseEq (carried name) a = true ∧ aliasParent id w = b ∧ b ≠ []) {q : Params} (hq : (aliasEntries w).get? id = some q) :
    Resolvable (iniTokenRemove pcre env (aliasName id w) name v) := by
  have ht : text "network" "additional.cfg" v = text "network" "additional.cfg" (givenName env id name w) := by
    rw [text,hreg]
    rfl
  have hm := hc.whole hold
  rw [← ht] at hm
  have hr := remove_text pcre env hm
  refine ⟨⟨fun fil hf => ?_,fun fil hf => ?_,iniTokenRemove_fresh pcre env _ _ hv.fresh⟩,?_⟩
  · obtain rfl := List.mem_singleton.mp hf
    exact hr.plain (hv.plain _ alias_kept)
  · exact iniTokenRemove_ended pcre env _ name "network" fil (hv.ended fil hf)
  · refine Chains.wellFounded_of_moved h.grounded (u := aliasName id w) (M := fun a => looseEq (carried name) a = true)
      (looseEq_self (carried name)) (fun b a hb => ?_) (fun y hy => (hc.apart hold y hy).1) fun y hy =>
        (hc.apart hold y hy).2
    obtain ⟨b₀,a₀,h₀,hbb,haa⟩ := hr.stands b a hb
    rcases hs b₀ a₀ h₀ with h₀ | ⟨hl,hp,hb₀⟩
    · exact ⟨b₀,a₀,h₀,hbb,haa.imp_right fun h => ⟨h.1,h.2.2⟩⟩
    · obtain ⟨hn,hpar⟩ := aliasName_entry hq
      refine ⟨b₀,aliasName id w,standsOn_entry hq (hn ▸ hold) (by rw [hn,looseEq_self]) (hpar ▸ hp) hb₀,hbb,Or.inr ⟨rfl,?_⟩⟩
      rcases haa with rfl | ⟨-,-,hl⟩
      · exact hl
      · exact hl

theorem setVipName_fresh {w : World} (h : Tidy w) (id : Str) {name : Str} (hn : '\n' ∉ name) :
    Fresh (Interfaces.setVipName pcre env id name w).2 := by
  refine vipOf_cases env id w _ (fun v hq => hq.fresh h.fresh) fun p v hq _ => ?_
  have hq' := hq.trans (changeTaken_quiet env "NAME" (p.val "NAME") name v)
  dsimp only
  split
  · exact hq'.fresh h.fresh
  · have hw := (write_alias env (h.quiet hq') id (gives_one (k := "NAME") (by decide) hn).writable).1.fresh
    split
    · exact iniTokenRemove_fresh pcre env _ _ hw
    · exact hw

theorem setVipName_resolvable {w : World} (h : Resolvable w) (id : Str) {name : Str} (hn : '\n' ∉ name)
    (hc : changeHeld "NAME" name ("additional.cfg",id) w = false → RenameClear pcre env id name w) :
    Resolvable (Interfaces.setVipName pcre env id name w).2 := by
  refine vipOf_cases env id w _ (fun v hq => h.quiet hq) fun p v hq hpe => ?_
  have hq' := hq.trans (changeTaken_quiet env "NAME" (p.val "NAME") name v)
  have hd : WritableData (dataOf [("NAME",name)]) := (gives_one (k := "NAME") (by decide) hn).writable
  dsimp only
  split
  · exact h.quiet hq'
  · rename_i ht
    rw [Bool.not_eq_true] at ht
    generalize hu : (changeTaken env "NAME" (p.val "NAME") name v).2 = u at *
    have hsame : aliasEntries u = aliasEntries w := entries_congr _ _ hq'.reg
    obtain ⟨hk,hs⟩ := write_alias env (h.quiet hq').tidy id hd
    rw [hsame,dataOf_single,dataOf_single,if_pos rfl,if_neg (by decide)] at hs
    cases hget : (aliasEntries w).get? id with
    | none =>
      have hf := write_unheld env h.tidy hq' name hget
      rw [hf,Bool.false_and,if_neg (by simp)]
      refine ⟨hk,h.grounded.fewer fun b a hb => (hs b a hb).resolve_right ?_⟩
      rintro ⟨q,hq,-⟩
      rw [hget] at hq
      simp at hq
    | some q =>
      obtain rfl := vipOf_some env h.tidy.fresh hpe hget
      obtain ⟨hname,hpar⟩ := aliasName_entry hget
      rw [changeTaken_changeHeld env h.tidy.fresh hq name (@valueAt_of "NAME" w ("additional.cfg",id) p hget)] at ht
      have hclear := hc ht
      have hs' : ∀ b a, StandsOn (aliasEntries (write env "additional.cfg" id (dataOf [("NAME",name)]) u).2) b a →
          StandsOn (aliasEntries w) b a ∨ carried name ≠ [] ∧ looseEq (carried name) a = true ∧
            aliasParent id w = b ∧ b ≠ [] := fun b a hb => (hs b a hb).imp_right fun ⟨q,hq,hv⟩ => by
        obtain rfl : p = q := by simpa [hget] using hq
        rw [hpar]
        exact hv
      split
      · rename_i hcond
        rw [Bool.and_eq_true,Bool.not_eq_true',null_false_iff,← hname] at hcond
        rw [← hname]
        exact rename_resolvable pcre env h hclear hcond.2 hk (write_given env h.tidy hq' id hn hcond.1)
          (fun b a hb => (hs' b a hb).imp_right fun hv => hv.2) hget
      · rename_i hcond
        rw [Bool.and_eq_true,Bool.not_eq_true',null_false_iff,← hname,not_and,not_not] at hcond
        by_cases hdone : (write env "additional.cfg" id (dataOf [("NAME",name)]) u).1 = true
        · exact ⟨hk,grounded_put h.grounded (hclear.first (hcond hdone)) hs'⟩
        · have hfail : (iniTokenUpdate env "network" "additional.cfg" id (dataOf [("NAME",name)]) u).1 ≠ .ok := fun ho => by
            rw [write_name,ho] at hdone
            simp at hdone
          have hreg := ((h.quiet hq').tidy.update env alias_kept id hd).2.2.1 hfail
          refine ⟨hk,?_⟩
          rw [write_name,aliasEntries,entries_congr _ _ (hreg.trans hq'.reg)]
          exact h.grounded

/-- The loop over the orphans takes out their names, and nothing else. -/
def OrphansTaken : List Str → World → Prop
  | [], _ => True
  | id::ids, w => TakesOut pcre env "network" "additional.cfg" id w ∧
      OrphansTaken ids (deleted pcre env "network" "additional.cfg" id w)

theorem OrphansTaken.congr {ids : List Str} {w w' : World} (h : w'.reg = w.reg) (hs : OrphansTaken pcre env ids w) :
    OrphansTaken pcre env ids w' := by
  induction ids generalizing w w' with
  | nil => trivial
  | cons id ids ih => exact ⟨hs.1.congr pcre env h,ih (deleted_reg pcre env _ _ id h) hs.2⟩

theorem orphans_thins {ids : List Str} {w : World} (h : Tidy w) (hs : OrphansTaken pcre env ids w) :
    Thins w (ids.foldl (fun w id => (iniTokenDelete pcre env "network" "additional.cfg" id w).2) w) := by
  induction ids generalizing w with
  | nil => exact thins_quiet h (Quiet.refl w)
  | cons id ids ih =>
    have hd := delete_thins pcre env h looked_network hs.1
    have hr := iniTokenDelete_deleted pcre env id (h.coherent "additional.cfg")
    exact hd.trans (ih hd.tidy (hs.2.congr pcre env hr))

theorem lookup_thins {w : World} (h : Tidy w) (k : Kind)
    (hs : k = .networks → OrphansTaken pcre env (orphans (ethEntries w) (aliasEntries w)) w) :
    Thins w (definitionsGet pcre env k w).2 := by
  obtain ⟨-,v,hr,hf,he⟩ := definitionsGet_spec pcre env k h.fresh
  have hv : Thins w v := thins_quiet h ⟨hr,fun _ => hf⟩
  rw [he]
  split
  · rename_i hk
    exact hv.trans (orphans_thins pcre env hv.tidy ((hs hk).congr pcre env hr))
  · exact hv

/-- What is typed, and what is answered, is one line. -/
def Op.Typed : Op → Prop
  | .addVip _ name ip note _ ipcalc => ('\n' ∉ name ∧ '\n' ∉ ip ∧ '\n' ∉ note) ∧ ∀ k, '\n' ∉ ipcalc.val k
  | .setVipName _ name => '\n' ∉ name
  | .setVipAddress _ ip _ => '\n' ∉ ip
  | .setVip _ data => ∀ x ∈ data.entries, '\n' ∉ x.2
  | _ => True

/-- The condition on a step: no alias is put on a name that comes to its own, and a name that is taken out or replaced
is so as a whole. -/
def Op.Straight : Op → World → Prop
  | .lookup k, w => k = .networks → OrphansTaken pcre env (orphans (ethEntries w) (aliasEntries w)) w
  | .definitionsDelete k type id, w => TakesOut pcre env "definitions" (definitionsFile k type) id w
  | .delete id _ _, w => TakesOut pcre env "network" "eth.cfg" id w
  | .addVip id name _ _ _ _, w =>
    heldInEither "NAME" name w = false → ¬ Closes (aliasEntries w) (carried name) (ethName env id w)
  | .setVipName id name, w =>
    changeHeld "NAME" name ("additional.cfg",id) w = false → RenameClear pcre env id name w
  | .setVipPname id parent, w => ¬ Closes (aliasEntries w) (aliasName id w) (ethName env parent w)
  | .deleteVip id, w => TakesOut pcre env "network" "additional.cfg" id w
  | _, _ => True

theorem step_resolvable {op : Op} {w w' : World} (h : Resolvable w) (ht : op.Typed) (hs : op.Straight pcre env w)
    (hr : op.run pcre env w = some w') : Resolvable w' := by
  have thins : ∀ {v : World}, Thins w v → v = w' → Resolvable w' := fun hv he => he ▸ hv.resolvable h
  cases op with
  | lookup k => exact thins (lookup_thins pcre env h.tidy k hs) (Option.some.inj hr)
  | read fil => exact thins (thins_quiet h.tidy (get_quiet env fil w)) (Option.some.inj hr)
  | definitionsSave k type data =>
    obtain ⟨r,hx,rfl⟩ := Option.map_eq_some_iff.mp hr
    exact thins (definitionsSave_thins env h.tidy k type data hx) rfl
  | definitionsUpdate k type id data =>
    exact thins (definitionsUpdate_thins env h.tidy k type id data) (Option.some.inj hr)
  | definitionsDelete k type id => exact thins (delete_thins pcre env h.tidy looked_definitions hs) (Option.some.inj hr)
  | setName type id name => exact thins (setName_thins env h.tidy type id name) (Option.some.inj hr)
  | setAddress type id ip a => exact thins (setAddress_thins env h.tidy type id ip a) (Option.some.inj hr)
  | set type id data =>
    simp only [Op.run] at hr
    split at hr
    · exact thins (set_thins env h.tidy type id data) (Option.some.inj hr)
    · simp at hr
  | add id name ip data => exact thins (add_thins env h.tidy id name ip data) (Option.some.inj hr)
  | delete id info hwaddr =>
    obtain ⟨r,hx,rfl⟩ := Option.map_eq_some_iff.mp hr
    exact thins (interfacesDelete_thins pcre env h.tidy id info hwaddr hs hx) rfl
  | addVip id name ip note a ipcalc =>
    obtain ⟨r,hx,rfl⟩ := Option.map_eq_some_iff.mp hr
    exact addVip_resolvable env h id a ht.1 ht.2 hs hx
  | setVipName id name =>
    obtain rfl := Option.some.inj hr
    exact setVipName_resolvable pcre env h id ht hs
  | setVipAddress id ip a => exact thins (setVipAddress_thins env h.tidy id a ht) (Option.some.inj hr)
  | setVipPname id parent =>
    obtain rfl := Option.some.inj hr
    exact setVipPname_resolvable env h id parent hs
  | setVip id data =>
    simp only [Op.run] at hr
    split at hr
    · rename_i hk
      exact thins (setVip_thins env h.tidy id hk ht) (Option.some.inj hr)
    · simp at hr
  | deleteVip id => exact thins (delete_thins pcre env h.tidy looked_network hs) (Option.some.inj hr)

/-- Commands in any order, on files in which no name comes to itself. -/
def chainSystem : System World (Env × Op) where
  init := Resolvable
  step w t w' := t.2.Typed ∧ t.2.run pcre t.1 w = some w'

def straightSystem : System World (Env × Op) where
  init := Resolvable
  step w t w' := t.2.Typed ∧ t.2.Straight pcre t.1 w ∧ t.2.run pcre t.1 w = some w'

theorem resolution_ends {w w' : World} {ts : List (Env × Op)} (hi : (straightSystem pcre).init w)
    (hr : System.Run (straightSystem pcre) w ts w') (name : Str) :
    ∃ n, (definitionsGetInterfaceDevice env n name w').isSome := by
  have h : Resolvable w' := hr.invariant (fun u t v hu ⟨ht,hs,hrun⟩ => step_resolvable pcre t.1 hu ht hs hrun) hi
  exact device_ends env h.grounded h.tidy.fresh name

def lanWorld : World := World.ofFiles [
  ("network","eth.cfg","ID=eth0\nNAME=lan\nTYPE=static\nSTAT=1\nDEVICE=eth0\nADDR=10.0.0.1\n")]

theorem lanWorld_resolvable : Resolvable lanWorld where
  tidy := ⟨by decide,by decide,fun _ _ _ => Or.inl rfl⟩
  grounded := by
    have he : aliasEntries lanWorld = ∅ := rfl
    rw [he]
    exact grounded_empty

def afterOp (op : Op) (w : World) : World := (op.run Pcre.plain noonEnv w).getD w

theorem afterOp_run {op : Op} {w : World} (h : (op.run Pcre.plain noonEnv w).isSome) :
    op.run Pcre.plain noonEnv w = some (afterOp op w) := by
  obtain ⟨v,hv⟩ := Option.isSome_iff_exists.mp h
  rw [afterOp,hv]
  rfl

theorem afterOp_setVipName (id name : Str) (w : World) :
    afterOp (.setVipName id name) w = (setVipName Pcre.plain noonEnv id name w).2 := rfl

theorem afterOp_setName (type id name : Str) (w : World) :
    afterOp (.setName type id name) w = (interfacesSetName noonEnv type id name w).2 := rfl

def webKey : Str := "0123456789abcdef0123"

def addWeb : Op := .addVip "eth0" "web" "10.0.0.9" [] ⟨true,true⟩ ∅

theorem addWeb_typed : addWeb.Typed := ⟨⟨by decide,by decide,by decide⟩,fun k => by simp [Params.val,OrdMap.getD]⟩

/-- The alias is given another name, and the interface is deleted. -/
def webWorld : World := afterOp addWeb lanWorld

def dmzWorld : World := afterOp (.setVipName webKey "dmz") webWorld

def bareWorld : World := afterOp (.delete "eth0" [] []) dmzWorld

def circleWorld : World := afterOp (.setVipName webKey "lan") webWorld

def loopWorld : World := afterOp (.setName "static" "eth0" "lan2") circleWorld

/-- Each of the commands goes through; the names that stand in the files before them; and the files with the circle. -/
theorem turns_read :
    ((addWeb.run Pcre.plain noonEnv lanWorld).isSome ∧
      ((Op.setVipName webKey "dmz").run Pcre.plain noonEnv webWorld).isSome ∧
      ((Op.delete "eth0" [] []).run Pcre.plain noonEnv dmzWorld).isSome ∧
      ((Op.setVipName webKey "lan").run Pcre.plain noonEnv webWorld).isSome ∧
      ((Op.setName "static" "eth0" "lan2").run Pcre.plain noonEnv circleWorld).isSome) ∧
    (ethName noonEnv "eth0" lanWorld = ("lan" : Str) ∧ aliasName webKey webWorld = ("web" : Str) ∧
      nameOf "network" "eth.cfg" "eth0" dmzWorld = ("lan" : Str) ∧
      (∀ e ∈ (aliasEntries webWorld).entries, e.2.val "NAME" = ("web" : Str) ∧ e.2.val "PNAME" = ("lan" : Str)) ∧
      ∀ k ∈ referenceKeys, ¬ ("web" : Str) <:+: k ∧ ¬ ("lan" : Str) <:+: k) ∧
    ((∀ fil ∈ [("additional.cfg" : Str)], Plain (text "network" fil circleWorld)) ∧
      (∀ fil ∈ [("additional.cfg" : Str)], LineEnded (text "network" fil circleWorld)) ∧
      (iniTokenGetByparam noonEnv "network" "eth.cfg" "NAME" "lan" ∅ loopWorld).1.2.val "DEVICE" = [] ∧
      (iniTokenGetByparam noonEnv "network" "additional.cfg" "NAME" "lan" ∅ loopWorld).1.2.val "PNAME" = ("lan" : Str) ∧
      (iniTokenGetByparam noonEnv "network" "additional.cfg" "NAME" "lan" ∅ loopWorld).1.2.val "__DATA_ID" ≠ []) := by
  decide +kernel

theorem webWorld_stands {b a : Str} (h : StandsOn (aliasEntries webWorld) b a) :
    looseEq "web" a = true ∧ b = ("lan" : Str) := by
  have hall := turns_read.2.1.2.2.2.1
  obtain ⟨e,he,-,hl,hp,-⟩ := h
  exact ⟨(hall e he).1 ▸ hl,hp.symm.trans (hall e he).2⟩

theorem webWorld_above {b a : Str} (h : Above (aliasEntries webWorld) a b) :
    looseEq "web" a = true ∧ b = ("lan" : Str) := by
  induction h with
  | single h => exact webWorld_stands h
  | tail _ hs ih =>
    obtain ⟨hl,rfl⟩ := webWorld_stands hs
    exact absurd ih.1 (by decide)

theorem lanWorld_open (name p : Str) (h : looseEq name p = false) : ¬ Closes (aliasEntries lanWorld) name p := by
  have hab : ∀ a b, ¬ Above (aliasEntries lanWorld) a b := by
    intro a b h
    obtain ⟨c,-,hs⟩ := TransGen.tail'_iff.mp h
    exact standsOn_empty _ _ (show StandsOn ∅ c a from hs)
  rintro ⟨-,-,y,hy,rfl | hy'⟩
  · rw [h] at hy
    exact absurd hy (by decide)
  · exact hab _ _ hy'

theorem web_straight : addWeb.Straight Pcre.plain noonEnv lanWorld := fun _ => by
  rw [turns_read.2.1.1]
  exact lanWorld_open _ _ (by decide)

theorem dmz_straight : (Op.setVipName webKey "dmz").Straight Pcre.plain noonEnv webWorld := fun _ => by
  have hn := turns_read.2.1.2.1
  have hc : carried "dmz" = ("dmz" : Str) := by decide
  refine ⟨fun h => ?_,fun _ y hy => ⟨fun h => ?_,fun h => ?_⟩,fun _ => ?_⟩
  · rw [hn] at h
    exact absurd h (by decide)
  · obtain ⟨-,rfl⟩ := webWorld_above h
    exact absurd hy (by decide)
  · rw [hn] at h
    exact absurd (webWorld_above h).2 (by decide)
  · rw [hn,hc]
    exact moved_plain _ ⟨by decide,by decide,by decide,by decide,by decide⟩
      ⟨by decide,by decide,by decide,by decide,by decide⟩ fun k hk => (turns_read.2.1.2.2.2.2 k hk).1

theorem delete_straight : (Op.delete "eth0" [] []).Straight Pcre.plain noonEnv dmzWorld := by
  have hn := turns_read.2.1.2.2.1
  refine takesOut_plain _ _ ?_ ?_
  · rw [hn]
    decide
  · rw [hn]
    exact fun k hk => (turns_read.2.1.2.2.2.2 k hk).2

theorem resolution_ends_dmz : ∃ n, (definitionsGetInterfaceDevice noonEnv n "dmz" bareWorld).isSome := by
  obtain ⟨⟨hweb,hdmz,hbare,-⟩,-⟩ := turns_read
  have hr : System.Run (straightSystem Pcre.plain) lanWorld
      ([(noonEnv,addWeb)] ++ [(noonEnv,.setVipName webKey "dmz")] ++ [(noonEnv,.delete "eth0" [] [])]) bareWorld :=
    .snoc (.snoc (.snoc .nil ⟨addWeb_typed,web_straight,afterOp_run hweb⟩)
      ⟨show '\n' ∉ ("dmz" : Str) by decide,dmz_straight,afterOp_run hdmz⟩)
      ⟨trivial,delete_straight,afterOp_run hbare⟩
  exact resolution_ends Pcre.plain noonEnv lanWorld_resolvable hr "dmz"

theorem resolution_loops : ¬ ∀ (pcre : Pcre) (env : Env) (w w' : World) (ts : List (Env × Op)),
    (chainSystem pcre).init w → System.Run (chainSystem pcre) w ts w' →
    ∀ name, ∃ n, (definitionsGetInterfaceDevice env n name w').isSome := by
  intro h
  obtain ⟨⟨hrun,-,-,hrun',hrun''⟩,-,hplain,hended,hl⟩ := turns_read
  have hr : System.Run (chainSystem Pcre.plain) lanWorld
      ([(noonEnv,addWeb)] ++ [(noonEnv,.setVipName webKey "lan")] ++ [(noonEnv,.setName "static" "eth0" "lan2")])
      loopWorld :=
    .snoc (.snoc (.snoc .nil ⟨addWeb_typed,afterOp_run hrun⟩)
      ⟨show '\n' ∉ ("lan" : Str) by decide,afterOp_run hrun'⟩) ⟨trivial,afterOp_run hrun''⟩
  obtain ⟨n,hn⟩ := h Pcre.plain noonEnv _ _ _ lanWorld_resolvable hr "lan"
  have hweb : Resolvable webWorld :=
    step_resolvable Pcre.plain noonEnv lanWorld_resolvable addWeb_typed web_straight (afterOp_run hrun)
  have hcircle : Tidy circleWorld := by
    refine ⟨hplain,hended,?_⟩
    rw [circleWorld,afterOp_setVipName]
    exact setVipName_fresh Pcre.plain noonEnv hweb.tidy webKey (show '\n' ∉ ("lan" : Str) by decide)
  have hf : Fresh loopWorld := by
    rw [loopWorld,afterOp_setName]
    exact (setName_thins noonEnv hcircle "static" "eth0" "lan2").tidy.fresh
  rw [device_loops noonEnv hf hl.1 hl.2.1 hl.2.2 (by decide) n] at hn
  simp at hn

end Interfaces
end Mybox
