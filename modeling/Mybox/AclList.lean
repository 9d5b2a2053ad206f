import Mybox.ReadValues

/-! The access list of the web page: each host that is submitted is updated or added, and the entries of the others
are deleted at the end. -/
namespace Mybox
namespace AccessList
open Php RegistryFormat Registry References

/-- What is submitted for a host. -/
structure Posted where
  stat : Str
  type : Str
  deriving DecidableEq

/-- `$_SAVE` -/
def postedData (host : Str) (d : Posted) : Params :=
  ((OrdMap.empty.set ("HOST" : Str) host).set "STAT" (if d.stat = [] ∨ d.stat = ("0" : Str) then "0" else d.stat)).set
    "TYPE" (trimWith "," d.type)

/-- `$_p=='HOST'`, which the number 0 is as well. -/
def isHostKey (p : Str) : Bool := p = ("HOST" : Str) || p = ("0" : Str)

def knownHosts (t : Token) : OrdMap Str Str :=
  t.entries.foldl (fun m e => e.2.entries.foldl (fun m x => if isHostKey x.1 then m.set x.2 e.1 else m) m) ∅

structure ListState where
  world : World
  known : OrdMap Str Str
  failed : ℕ
  deriving DecidableEq

variable (pcre : Pcre) (env : Env)

def aclTurn (s : ListState) (e : Str × Posted) : Option ListState :=
  let host := trim e.1
  let c := iniTokenCheck env "system" "acl.cfg" "HOST" host s.world
  if !c.1 then
    let g := iniTokenGetByparam env "system" "acl.cfg" "HOST" host ∅ c.2
    if null (g.1.2.val dataId) then some { s with world := g.2 }
    else
      let u := iniTokenUpdate env "system" "acl.cfg" (g.1.2.val dataId) (postedData host e.2) g.2
      some (if u.1 = .fail then { s with world := u.2, failed := s.failed + 1 }
        else { s with world := u.2, known := s.known.erase host })
  else (iniTokenSave env "system" "acl.cfg" (postedData host e.2) c.2).map fun r =>
    if r.1 = .ok then { s with world := r.2, known := s.known.erase host }
    else { s with world := r.2, failed := s.failed + 1 }

def deleteHosts (es : List (Str × Str)) (w : World) : World :=
  es.foldl (fun w e => (iniTokenDelete pcre env "system" "acl.cfg" e.2 w).2) w

/-- `_CGI_PAGE_SYSTEM_ACL_SET_LIST`: whether it reports OK, and what it leaves. -/
def cgiPageSystemAclSetList (data : OrdMap Str Posted) (w : World) : Option (Bool × World) :=
  if data.isEmpty then some (false,w)
  else
    let g := iniTokenGet env "system" "acl.cfg" ∅ w
    (data.entries.foldlM (aclTurn env) ⟨g.2,knownHosts g.1,0⟩).map fun s =>
      if s.failed = 0 then (true,deleteHosts pcre env s.known.entries s.world) else (false,s.world)

def hostOf (p : Params) : Str := p.val "HOST"

def OneHost (t : Token) : Prop :=
  ∀ id p id' p', t.get? id = some p → t.get? id' = some p' → hostOf p = hostOf p' → id = id'

theorem oneHost_iff {t : Token} : OneHost t ↔ (t.entries.map fun e => hostOf e.2).Nodup := by
  constructor
  · intro h
    refine List.Nodup.map_on (fun e he f hf heq => ?_) (List.Nodup.of_map _ t.nodup)
    have h₁ : t.get? e.1 = some e.2 := OrdMap.get?_eq_some.mpr he
    have h₂ : t.get? f.1 = some f.2 := OrdMap.get?_eq_some.mpr hf
    have hk := h _ _ _ _ h₁ h₂ heq
    rw [hk,h₂] at h₁
    exact Prod.ext hk (Option.some.inj h₁).symm
  · intro h id p id' p' hp hp' heq
    have hj := List.inj_on_of_nodup_map h (OrdMap.get?_eq_some.mp hp) (OrdMap.get?_eq_some.mp hp') heq
    exact congrArg Prod.fst hj

instance (t : Token) : Decidable (OneHost t) := decidable_of_iff _ oneHost_iff.symm

/-- An entry is what was submitted for a host, as it is read. -/
def Holds (e : Str × Posted) (p : Params) : Prop :=
  hostOf p = e.1 ∧ p.val "STAT" = carried (if e.2.stat = [] then "0" else e.2.stat) ∧
    p.val "TYPE" = carried (trimWith "," e.2.type)

def Placed (t t' : Token) (e : Str × Posted) : Prop :=
  ∃ id p, t' = t.set id p ∧ Holds e p ∧ ∀ j q, t.get? j = some q → (hostOf q = e.1 ↔ j = id)

/-- Where the loop is after some hosts: what was there has its host still, the hosts are written, everything else
was there before, and the hosts that are left are known by their IDs. -/
structure Progress (t₀ : Token) (hs : List (Str × Posted)) (t : Token) (known : OrdMap Str Str) : Prop where
  one : OneHost t
  old : ∀ id p, t₀.get? id = some p → ∃ q, t.get? id = some q ∧ hostOf q = hostOf p
  own : ∀ e ∈ hs, ∃ id q, t.get? id = some q ∧ Holds e q
  only : ∀ id q, t.get? id = some q →
    hostOf q ∈ hs.map Prod.fst ∨ ∃ p, t₀.get? id = some p ∧ hostOf p = hostOf q
  left : ∀ h id, known.get? h = some id ↔
    h ∉ hs.map Prod.fst ∧ ∃ p, t₀.get? id = some p ∧ hostOf p = h

theorem Progress.step {t₀ t t' : Token} {hs : List (Str × Posted)} {known : OrdMap Str Str} {e : Str × Posted}
    (h : Progress t₀ hs t known) (he : e.1 ∉ hs.map Prod.fst) (hp : Placed t t' e) :
    Progress t₀ (hs ++ [e]) t' (known.erase e.1) := by
  obtain ⟨id,p,rfl,hh,hid⟩ := hp
  have hmem : ∀ k, k ∈ (hs ++ [e]).map Prod.fst ↔ k ∈ hs.map Prod.fst ∨ k = e.1 := fun k => by simp
  constructor
  · intro i q i' q' hi hi' heq
    rw [OrdMap.get?_set] at hi hi'
    split at hi <;> split at hi'
    · rename_i h₁ h₂
      exact h₁.symm.trans h₂
    · rename_i h₁ _
      obtain rfl := Option.some.inj hi
      rw [← h₁]
      exact ((hid i' q' hi').mp (heq.symm.trans hh.1)).symm
    · rename_i _ h₂
      obtain rfl := Option.some.inj hi'
      rw [← h₂]
      exact (hid i q hi).mp (heq.trans hh.1)
    · exact h.one i q i' q' hi hi' heq
  · intro i q hi
    obtain ⟨r,hr,hhr⟩ := h.old i q hi
    by_cases hii : id = i
    · subst hii
      refine ⟨p,OrdMap.get?_set_self _ _ _,?_⟩
      rw [hh.1,← hhr,(hid id r hr).mpr rfl]
    · exact ⟨r,by rw [OrdMap.get?_set_ne _ _ hii,hr],hhr⟩
  · intro f hf
    rcases List.mem_append.mp hf with hf | hf
    · obtain ⟨i,q,hi,hq⟩ := h.own f hf
      have hii : id ≠ i := by
        rintro rfl
        have hfe : f.1 = e.1 := hq.1.symm.trans ((hid id q hi).mpr rfl)
        exact he (hfe ▸ List.mem_map_of_mem hf)
      exact ⟨i,q,by rw [OrdMap.get?_set_ne _ _ hii,hi],hq⟩
    · rw [List.mem_singleton.mp hf]
      exact ⟨id,p,OrdMap.get?_set_self _ _ _,hh⟩
  · intro i q hi
    rw [hmem]
    rw [OrdMap.get?_set] at hi
    split at hi
    · obtain rfl := Option.some.inj hi
      exact Or.inl (Or.inr hh.1)
    · exact (h.only i q hi).imp_left Or.inl
  · intro k i
    rw [OrdMap.get?_erase,hmem,not_or]
    by_cases hk : e.1 = k
    · simp [hk]
    · rw [if_neg hk,h.left k i]
      simp [Ne.symm hk]

/-- No entry has a name, or a parameter that is taken for its host. -/
def Bare (t : Token) : Prop := ∀ id p, t.get? id = some p → p.get? "NAME" = none ∧ p.get? "0" = none

def Hosted (t : Token) : Prop := ∀ id p, t.get? id = some p → hostOf p ≠ []

instance (t : Token) : Decidable (Bare t) := decidable_of_iff _ OrdMap.forall_get?.symm

instance (t : Token) : Decidable (Hosted t) := decidable_of_iff _ OrdMap.forall_get?.symm

theorem hostKeys_filter {p : Params} (h : hostOf p ≠ []) (h₀ : p.get? "0" = none) :
    p.entries.filter (fun x => isHostKey x.1) = [(("HOST" : Str),hostOf p)] := by
  obtain ⟨v,hv⟩ : ∃ v, p.get? "HOST" = some v := by
    cases hg : p.get? "HOST" with
    | none => exact absurd (by rw [hostOf,Params.val,OrdMap.getD,hg]; rfl) h
    | some v => exact ⟨v,rfl⟩
  have hp : hostOf p = v := by
    rw [hostOf,Params.val,OrdMap.getD,hv]
    rfl
  rw [hp]
  refine OrdMap.filter_key hv fun j hj => ?_
  have hz : j ≠ ("0" : Str) := fun hz => OrdMap.get?_eq_none.mp h₀ (hz ▸ hj)
  simp [isHostKey,hz]

theorem knownHosts_eq {t : Token} (hb : Bare t) (hh : Hosted t) :
    knownHosts t = (∅ : OrdMap Str Str).setAll (t.entries.map fun e => (hostOf e.2,e.1)) := by
  unfold knownHosts OrdMap.setAll
  rw [List.foldl_map]
  refine List.foldl_ext _ _ _ fun m e he => ?_
  have hg : t.get? e.1 = some e.2 := OrdMap.get?_eq_some.mpr he
  have hf := hostKeys_filter (hh _ _ hg) (hb _ _ hg).2
  calc
    e.2.entries.foldl (fun m x => if isHostKey x.1 then m.set x.2 e.1 else m) m =
        (e.2.entries.filter fun x => isHostKey x.1).foldl (fun m x => m.set x.2 e.1) m := by
      rw [List.foldl_filter]
    _ = m.set (hostOf e.2) e.1 := by rw [hf]; rfl

theorem knownHosts_get? {t : Token} (hb : Bare t) (hh : Hosted t) (ho : OneHost t) (h id : Str) :
    (knownHosts t).get? h = some id ↔ ∃ p, t.get? id = some p ∧ hostOf p = h := by
  have hn : ((t.entries.map fun e => (hostOf e.2,e.1)).map Prod.fst).Nodup := by
    rw [List.map_map]
    exact oneHost_iff.mp ho
  rw [knownHosts_eq hb hh,OrdMap.get?_eq_some,OrdMap.setAll_entries_fresh _ _ hn fun _ _ => List.not_mem_nil]
  simp only [List.mem_append,List.mem_map,Prod.mk.injEq,Prod.exists]
  constructor
  · rintro (hm | ⟨i,p,hm,rfl,rfl⟩)
    · exact absurd hm List.not_mem_nil
    · exact ⟨p,OrdMap.get?_eq_some.mpr hm,rfl⟩
  · rintro ⟨p,hp,rfl⟩
    exact Or.inr ⟨id,p,OrdMap.get?_eq_some.mp hp,rfl,rfl⟩

theorem progress_start {t : Token} (hb : Bare t) (hh : Hosted t) (ho : OneHost t) :
    Progress t [] t (knownHosts t) where
  one := ho
  old id p hp := ⟨p,hp,rfl⟩
  own e he := absurd he List.not_mem_nil
  only id p hp := Or.inr ⟨p,hp,rfl⟩
  left h id := by simpa using knownHosts_get? hb hh ho h id

/-- The file as the calls leave it. -/
structure Filed (w : World) : Prop where
  coherent : Coherent "system" "acl.cfg" w
  ended : LineEnded (text "system" "acl.cfg" w)
  canonical : Canonical (entries "system" "acl.cfg" w)
  bare : Bare (entries "system" "acl.cfg" w)

/-- A host name a line can carry, and no number; and what is submitted is of one line. -/
structure PostedOk (e : Str × Posted) : Prop where
  trimmed : trim e.1 = e.1
  numeric : numeric e.1 = none
  eq : '=' ∉ e.1
  line : '\n' ∉ e.1
  stat : '\n' ∉ e.2.stat
  type : '\n' ∉ e.2.type

theorem postedData_new {e : Str × Posted} (h : PostedOk e) : NewData (postedData e.1 e.2) := by
  have hk : ∀ k ∈ (["HOST","STAT","TYPE"] : List Str), KeyName k ∧ skipped k = false := by decide
  have hs : '\n' ∉ (if e.2.stat = [] ∨ e.2.stat = ("0" : Str) then ("0" : Str) else e.2.stat) := by
    split
    · decide
    · exact h.stat
  have ht : '\n' ∉ trimWith "," e.2.type := fun hm => h.type (LineText.strip_mem _ hm)
  intro x hx
  rcases OrdMap.mem_set hx with rfl | hx
  · exact ⟨hk _ (by simp),ht⟩
  · rcases OrdMap.mem_set hx with rfl | hx
    · exact ⟨hk _ (by simp),hs⟩
    · rcases OrdMap.mem_set hx with rfl | hx
      · exact ⟨hk _ (by simp),h.line⟩
      · exact absurd hx List.not_mem_nil

theorem carried_entries {e : Str × Posted} (h : PostedOk e) : (carriedParams (postedData e.1 e.2)).entries =
    [(("HOST" : Str),e.1),("STAT",carried (if e.2.stat = [] then "0" else e.2.stat)),
      ("TYPE",carried (trimWith "," e.2.type))] := by
  have hh : carriedValue "HOST" e.1 = e.1 := carried_eq h.trimmed h.eq
  have hs : (if e.2.stat = [] ∨ e.2.stat = ("0" : Str) then ("0" : Str) else e.2.stat) =
      if e.2.stat = [] then ("0" : Str) else e.2.stat := by
    by_cases h₁ : e.2.stat = []
    · simp [h₁]
    · by_cases h₂ : e.2.stat = ("0" : Str) <;> simp [h₁,h₂]
  change [(("HOST" : Str),carriedValue "HOST" e.1),("STAT",carriedValue "STAT" _),("TYPE",carriedValue "TYPE" _)] = _
  rw [hh,hs]
  rfl

theorem get?_posted {e : Str × Posted} (h : PostedOk e) (p : Params) {k : Str}
    (hk : k ∉ (["HOST","STAT","TYPE"] : List Str)) :
    (p.setAll (carriedParams (postedData e.1 e.2)).entries).get? k = p.get? k := by
  refine OrdMap.get?_setAll_of_not_mem _ ?_
  rwa [carried_entries h]

theorem holds_setAll {e : Str × Posted} (h : PostedOk e) (p : Params) :
    Holds e (p.setAll (carriedParams (postedData e.1 e.2)).entries) := by
  have hv : ∀ k v, (k,v) ∈ (carriedParams (postedData e.1 e.2)).entries →
      Params.val (p.setAll (carriedParams (postedData e.1 e.2)).entries) k = v := fun k v hm => by
    rw [Params.val,OrdMap.getD,OrdMap.get?_setAll_of_mem _ (carriedParams _).nodup hm]
    rfl
  rw [carried_entries h] at hv ⊢
  exact ⟨hv "HOST" _ (by simp),hv "STAT" _ (by simp),hv "TYPE" _ (by simp)⟩

theorem entryOk_setAll {data : Params} (h : NewData data) {n : Str} {p : Params} (hp : EntryOk n p) :
    EntryOk n (p.setAll (carriedParams data).entries) := by
  have hd : ∀ x ∈ (carriedParams data).entries, hidden x.1 = false ∧ ParamOk x.1 x.2 := by
    intro y hy
    obtain ⟨x,hx,rfl⟩ := List.mem_map.mp hy
    obtain ⟨⟨hk,hs⟩,hl⟩ := h x hx
    have hv := carried_read hl
    simp only [skipped,Bool.or_eq_false_iff] at hs
    dsimp only
    rw [h.value hx]
    exact ⟨hs.2,hk.paramOk hv.1 hv.2.1 hv.2.2⟩
  revert hd
  generalize (carriedParams data).entries = es
  intro hd
  induction es generalizing p with
  | nil => exact hp
  | cons x es ih =>
    rw [OrdMap.setAll_cons]
    exact ih (hp.assign (hd x (by simp)).1 (hd x (by simp)).2) fun y hy => hd y (List.mem_cons_of_mem x hy)

theorem readBack_new {data : Params} (h : NewData data) (n : Str) :
    readBack n (carriedParams data) = ((∅ : Params).set dataId n).setAll (carriedParams data).entries := by
  have hs : shown (carriedParams data) = (carriedParams data).entries := List.filter_eq_self.mpr fun y hy => by
    obtain ⟨x,hx,rfl⟩ := List.mem_map.mp hy
    simp [(h x hx).1.2]
  rw [readBack,hs]
  rfl

theorem bare_set {e : Str × Posted} (h : PostedOk e) {t : Token} (hb : Bare t) {id : Str} {p : Params}
    (hp : p.get? "NAME" = none ∧ p.get? "0" = none) :
    Bare (t.set id (p.setAll (carriedParams (postedData e.1 e.2)).entries)) := by
  intro i q hi
  rw [OrdMap.get?_set] at hi
  split at hi
  · obtain rfl := Option.some.inj hi
    rwa [get?_posted h p (by decide),get?_posted h p (by decide)]
  · exact hb i q hi

theorem filed_set {w w' : World} (h : Filed w) {e : Str × Posted} (he : PostedOk e) {id : Str} {p : Params}
    (hp : EntryOk id p) (hb : p.get? "NAME" = none ∧ p.get? "0" = none) (hc : Coherent "system" "acl.cfg" w')
    (hl : LineEnded (text "system" "acl.cfg" w')) (ht : entries "system" "acl.cfg" w' =
      (entries "system" "acl.cfg" w).set id (p.setAll (carriedParams (postedData e.1 e.2)).entries)) : Filed w' where
  coherent := hc
  ended := hl
  canonical := by
    rw [ht]
    exact h.canonical.set (entryOk_setAll (postedData_new he) hp)
  bare := by
    rw [ht]
    exact bare_set he h.bare hb

theorem update_ok_of {sec fil id : Str} {data : Params} {w : World} (hn : data.val "NAME" = [])
    (h : (iniTokenUpdate env sec fil id data w).1 ≠ .fail) :
    (iniTokenUpdate env sec fil id data w).1 = .ok ∧ env.strg = true := by
  have hz : null (data.val "NAME") = true := null_iff.mpr hn
  unfold iniTokenUpdate at h ⊢
  dsimp only at h ⊢
  simp only [hz,Bool.not_true,Bool.and_false,Bool.false_and,Bool.false_eq_true,if_false] at h ⊢
  split at h
  · exact absurd rfl h
  · split at h
    · exact absurd rfl h
    · rename_i hp ht
      rw [if_neg ht]
      have hs : env.strg = true := by
        by_contra hs
        exact h (by rw [fileSave,if_neg hs])
      exact ⟨(fileSave_ok env sec fil).mpr hs,hs⟩

theorem saveEntry_strg {sec fil id : Str} {data : Params} {w : World}
    (h : (saveEntry env sec fil id data w).1 = .ok) : env.strg = true := by
  by_contra hs
  unfold saveEntry fileSave at h
  dsimp only at h
  rw [if_neg hs] at h
  split at h
  · simp at h
  · split at h <;> simp at h

theorem save_strg {sec fil : Str} {data : Params} {w : World} {r : Ret × World}
    (hr : iniTokenSave env sec fil data w = some r) (h : r.1 = .ok) : env.strg = true := by
  unfold iniTokenSave at hr
  dsimp only at hr
  split at hr
  · obtain rfl := Option.some.inj hr
    simp at h
  · split at hr
    · obtain ⟨k,-,rfl⟩ := Option.map_eq_some_iff.mp hr
      exact saveEntry_strg env h
    · split at hr
      · obtain rfl := Option.some.inj hr
        simp at h
      · obtain rfl := Option.some.inj hr
        exact saveEntry_strg env h

theorem posted_name (e : Str × Posted) : (postedData e.1 e.2).val "NAME" = [] := by
  have hk : ("NAME" : Str) ∉ (postedData e.1 e.2).entries.map Prod.fst := by
    change ("NAME" : Str) ∉ (["HOST","STAT","TYPE"] : List Str)
    decide
  rw [Params.val,OrdMap.getD,OrdMap.get?_eq_none.mpr hk]
  rfl

theorem update_placed {w : World} (h : Filed w) {e : Str × Posted} (he : PostedOk e) {id : Str}
    (ho : (iniTokenUpdate env "system" "acl.cfg" id (postedData e.1 e.2) w).1 ≠ .fail)
    (hid : ∀ j q, (entries "system" "acl.cfg" w).get? j = some q → (hostOf q = e.1 ↔ j = id)) :
    env.strg = true ∧ Filed (iniTokenUpdate env "system" "acl.cfg" id (postedData e.1 e.2) w).2 ∧
    Placed (entries "system" "acl.cfg" w)
      (entries "system" "acl.cfg" (iniTokenUpdate env "system" "acl.cfg" id (postedData e.1 e.2) w).2) e := by
  obtain ⟨hok,hs⟩ := update_ok_of env (posted_name e) ho
  have hd := postedData_new he
  have hw : WritableData (postedData e.1 e.2) := fun x hx => Or.inr (Or.inl ⟨(hd x hx).2,(hd x hx).1.1⟩)
  obtain ⟨p,hp,ht,hr⟩ := iniTokenUpdate_read env h.coherent h.canonical id hw hok
  have hep := h.canonical.get? hp
  rw [(entryOk_setAll hd hep).readBack] at hr
  have hc : Coherent "system" "acl.cfg" (iniTokenUpdate env "system" "acl.cfg" id (postedData e.1 e.2) w).2 := by
    rcases iniTokenUpdate_spec env "system" "acl.cfg" id (postedData e.1 e.2) h.coherent with ⟨_,-,hx⟩ | ⟨-,-,hx⟩
    · exact hx.coherent
    · exact (hx []).coherent
  refine ⟨hs,filed_set h he hep (h.bare id p hp) hc ?_ hr,id,_,hr,holds_setAll he p,hid⟩
  rw [ht]
  exact lineEnded_updateText env _

theorem save_placed {w : World} (h : Filed w) {e : Str × Posted} (he : PostedOk e) {r : Ret × World}
    (hr : iniTokenSave env "system" "acl.cfg" (postedData e.1 e.2) w = some r) (ho : r.1 = .ok)
    (hn : ∀ j q, (entries "system" "acl.cfg" w).get? j = some q → hostOf q ≠ e.1) :
    env.strg = true ∧ Filed r.2 ∧ Placed (entries "system" "acl.cfg" w) (entries "system" "acl.cfg" r.2) e := by
  have hd := postedData_new he
  obtain ⟨n,hi,hf,hreg,ht⟩ := iniTokenSave_read env h.coherent h.ended hd hr ho
  rw [readBack_new hd] at ht
  have hc : Coherent "system" "acl.cfg" r.2 := by
    rcases iniTokenSave_spec env "system" "acl.cfg" h.coherent hr with ⟨_,_,-,-,hx,-⟩ | ⟨-,hx⟩
    · exact hx.coherent
    · exact (hx []).coherent
  have hb : ((∅ : Params).set dataId n).get? "NAME" = none ∧ ((∅ : Params).set dataId n).get? "0" = none :=
    ⟨OrdMap.get?_set_ne _ _ (by decide),OrdMap.get?_set_ne _ _ (by decide)⟩
  have hl : LineEnded (text "system" "acl.cfg" r.2) := by
    rw [text,hreg,OrdMap.getD,OrdMap.get?_set_self]
    exact lineEnded_saveText env _ _ _
  refine ⟨save_strg env hr ho,filed_set h he (entryOk_new hi) hb hc hl ht,n,_,ht,holds_setAll he _,fun j q hj => ?_⟩
  refine iff_of_false (hn j q hj) ?_
  rintro rfl
  rw [hf] at hj
  simp at hj

theorem Filed.of_reg {w w' : World} (h : Filed w) (hr : w'.reg = w.reg) (hc : Coherent "system" "acl.cfg" w') :
    Filed w' := by
  have he : entries "system" "acl.cfg" w' = entries "system" "acl.cfg" w := entries_congr _ _ hr
  refine ⟨hc,?_,he ▸ h.canonical,he ▸ h.bare⟩
  rw [text,hr]
  exact h.ended

/-- The look-up of a host that is there. -/
theorem byHost_spec {w : World} (h : Filed w) {host : Str} (hn : numeric host = none) {i : Str} {p : Params}
    (hi : (entries "system" "acl.cfg" w).get? i = some p) (hh : hostOf p = host) (hz : host ≠ []) :
    ∃ q, (entries "system" "acl.cfg" w).get?
        ((iniTokenGetByparam env "system" "acl.cfg" "HOST" host ∅ w).1.2.val dataId) = some q ∧ hostOf q = host ∧
      (iniTokenGetByparam env "system" "acl.cfg" "HOST" host ∅ w).1.2.val dataId ≠ [] := by
  have hid : looseEq ("HOST" : Str) ("ID" : Str) = false := by decide
  unfold iniTokenGetByparam
  dsimp only
  rw [hid,Bool.false_and,if_neg (by decide),iniTokenGet_fst env _ _ h.coherent]
  split
  · rename_i e he
    have hm : (entries "system" "acl.cfg" w).get? e.1 = some e.2 :=
      OrdMap.get?_eq_some.mpr (List.mem_of_find?_eq_some he)
    have hp := List.find?_some he
    simp only [looseEq_text hn,Bool.and_eq_true,decide_eq_true_eq] at hp
    have hok := h.canonical.get? hm
    have hv : e.2.val dataId = e.1 := by
      rw [Params.val,OrdMap.getD,hok.get?_dataId]
      rfl
    dsimp only
    rw [hv]
    exact ⟨e.2,hm,hp.2,hok.ident.ne⟩
  · rename_i he
    rw [List.find?_eq_none] at he
    refine absurd ?_ (he (i,p) (OrdMap.get?_eq_some.mp hi))
    have heq : p.val "HOST" = host := hh
    simpa [looseEq_text hn,heq] using hz

theorem check_host {w : World} (h : Filed w) {host : Str} (hn : numeric host = none) :
    (iniTokenCheck env "system" "acl.cfg" "HOST" host w).1 = false ↔
      host ≠ [] ∧ ∃ i p, (entries "system" "acl.cfg" w).get? i = some p ∧ hostOf p = host := by
  rw [iniTokenCheck_fst env _ _ h.coherent,Bool.eq_false_iff,ne_eq,List.all_eq_true]
  simp only [looseEq_text hn,not_forall,Bool.or_eq_true,Bool.not_eq_true',decide_eq_false_iff_not,not_or,not_not,
    exists_prop]
  constructor
  · rintro ⟨e,he,hne,heq⟩
    have hx : e.2.val "HOST" ≠ [] := fun hx => hne (null_iff.mpr hx)
    exact ⟨heq ▸ hx,e.1,e.2,OrdMap.get?_eq_some.mpr he,heq⟩
  · rintro ⟨hz,i,p,hi,rfl⟩
    exact ⟨(i,p),OrdMap.get?_eq_some.mp hi,fun hx => hz (null_iff.mp hx),rfl⟩

theorem aclTurn_spec {s s' : ListState} {e : Str × Posted} (h : Filed s.world) (he : PostedOk e)
    (ho : OneHost (entries "system" "acl.cfg" s.world))
    (hz : e.1 = [] → ∀ i p, (entries "system" "acl.cfg" s.world).get? i = some p → hostOf p ≠ [])
    (hs : aclTurn env s e = some s') (hf : s'.failed = 0) :
    env.strg = true ∧ Filed s'.world ∧ s'.known = s.known.erase e.1 ∧
    Placed (entries "system" "acl.cfg" s.world) (entries "system" "acl.cfg" s'.world) e := by
  have hreg := iniTokenCheck_reg env "system" "acl.cfg" "HOST" e.1 s.world
  have hcheck := h.of_reg hreg (Or.inl (iniTokenCheck_cache env _ _ _ _ _))
  have hsame := entries_congr "system" "acl.cfg" hreg
  have hiff := check_host env h he.numeric
  unfold aclTurn at hs
  dsimp only at hs
  rw [he.trimmed] at hs
  split at hs
  · rename_i hc
    obtain ⟨hne,i,p,hi,hh⟩ := hiff.mp (by simpa using hc)
    have hi' := hsame.symm ▸ hi
    obtain ⟨q,hq,hqh,hd⟩ := byHost_spec env hcheck he.numeric hi' hh hne
    have hg : Filed (iniTokenGetByparam env "system" "acl.cfg" "HOST" e.1 ∅
        (iniTokenCheck env "system" "acl.cfg" "HOST" e.1 s.world).2).2 := by
      rw [Interfaces.byparam_world]
      exact hcheck.of_reg (iniTokenGet_reg _ _ _ _ _) (iniTokenGet_coherent _ _ _ hcheck.coherent)
    have hsame' : entries "system" "acl.cfg" (iniTokenGetByparam env "system" "acl.cfg" "HOST" e.1 ∅
        (iniTokenCheck env "system" "acl.cfg" "HOST" e.1 s.world).2).2 = entries "system" "acl.cfg" s.world := by
      rw [Interfaces.byparam_world,entries_congr _ _ (iniTokenGet_reg _ _ _ _ _),hsame]
    rw [hsame] at hq
    rw [if_neg (by simpa using hd)] at hs
    obtain rfl := Option.some.inj hs
    split at hf
    · exact absurd hf (Nat.succ_ne_zero _)
    · rename_i hu
      rw [if_neg hu]
      have hid : ∀ j r, (entries "system" "acl.cfg" s.world).get? j = some r → (hostOf r = e.1 ↔ j =
          (iniTokenGetByparam env "system" "acl.cfg" "HOST" e.1 ∅
            (iniTokenCheck env "system" "acl.cfg" "HOST" e.1 s.world).2).1.2.val dataId) := by
        refine fun j r hj => ⟨fun hr => ho _ _ _ _ hj hq (hr.trans hqh.symm),?_⟩
        rintro rfl
        rw [hq] at hj
        rw [← Option.some.inj hj,hqh]
      have hp := update_placed env hg he hu (hsame'.symm ▸ hid)
      rw [hsame'] at hp
      exact ⟨hp.1,hp.2.1,rfl,hp.2.2⟩
  · rename_i hc
    have hn : ∀ j q, (entries "system" "acl.cfg" s.world).get? j = some q → hostOf q ≠ e.1 := fun j q hj hq => by
      by_cases hne : e.1 = []
      · exact hz hne j q hj (hq.trans hne)
      · exact hc (by simpa using hiff.mpr ⟨hne,j,q,hj,hq⟩)
    obtain ⟨r,hr,rfl⟩ := Option.map_eq_some_iff.mp hs
    split at hf
    · rename_i hok
      rw [if_pos hok]
      have hp := save_placed env hcheck he hr hok (hsame ▸ hn)
      rw [hsame] at hp
      exact ⟨hp.1,hp.2.1,rfl,hp.2.2⟩
    · exact absurd hf (Nat.succ_ne_zero _)

theorem aclTurn_failed {s s' : ListState} {e : Str × Posted} (hs : aclTurn env s e = some s') :
    s.failed ≤ s'.failed := by
  unfold aclTurn at hs
  dsimp only at hs
  split at hs
  · split at hs
    · obtain rfl := Option.some.inj hs
      exact Nat.le_refl _
    · obtain rfl := Option.some.inj hs
      split
      · exact Nat.le_succ _
      · exact Nat.le_refl _
  · obtain ⟨r,-,rfl⟩ := Option.map_eq_some_iff.mp hs
    split
    · exact Nat.le_refl _
    · exact Nat.le_succ _

theorem hosts_failed {es : List (Str × Posted)} {s s' : ListState} (hr : es.foldlM (aclTurn env) s = some s') :
    s.failed ≤ s'.failed := by
  induction es generalizing s with
  | nil =>
    obtain rfl := Option.some.inj hr
    exact Nat.le_refl _
  | cons e es ih =>
    rw [List.foldlM_cons] at hr
    obtain ⟨v,hv,hr⟩ := Option.bind_eq_some_iff.mp hr
    exact (aclTurn_failed env hv).trans (ih hr)

theorem hosts_run {t₀ : Token} (hh : Hosted t₀) {es hs : List (Str × Posted)} {s s' : ListState}
    (hn : ((hs ++ es).map Prod.fst).Nodup) (he : ∀ e ∈ es, PostedOk e) (h : Filed s.world)
    (hp : Progress t₀ hs (entries "system" "acl.cfg" s.world) s.known) (hr : es.foldlM (aclTurn env) s = some s')
    (hf : s'.failed = 0) : (es ≠ [] → env.strg = true) ∧ Filed s'.world ∧
    Progress t₀ (hs ++ es) (entries "system" "acl.cfg" s'.world) s'.known := by
  induction es generalizing hs s with
  | nil =>
    obtain rfl := Option.some.inj hr
    rw [List.append_nil]
    exact ⟨fun hne => absurd rfl hne,h,hp⟩
  | cons e es ih =>
    rw [List.foldlM_cons] at hr
    obtain ⟨v,hv,hr⟩ := Option.bind_eq_some_iff.mp hr
    have hvf : v.failed = 0 := Nat.le_zero.mp (hf ▸ hosts_failed env hr)
    rw [List.append_cons] at hn ⊢
    have hne : e.1 ∉ hs.map Prod.fst := by
      rw [List.map_append,List.map_append,List.append_assoc] at hn
      exact fun hm => (List.nodup_append.mp hn).2.2 _ hm _ (by simp) rfl
    -- an empty host is never found, and nothing that is there could be taken for it
    have hz : e.1 = [] → ∀ i p, (entries "system" "acl.cfg" s.world).get? i = some p → hostOf p ≠ [] := by
      intro hz i p hi hpn
      rcases hp.only i p hi with hm | ⟨q,hq,hqh⟩
      · exact hne (by rwa [hz,← hpn])
      · exact hh i q hq (hqh.trans hpn)
    obtain ⟨hs,hvw,hk,hpl⟩ := aclTurn_spec env h (he e (by simp)) hp.one hz hv hvf
    have hpv := hp.step hne hpl
    rw [← hk] at hpv
    obtain ⟨-,hw,hps⟩ := ih hn (fun x hx => he x (List.mem_cons_of_mem e hx)) hvw hpv hr
    exact ⟨fun _ => hs,hw,hps⟩

theorem delete_refused (pcre : Pcre) (hs : env.strg = true) {sec fil id : Str} {w : World} (hc : Coherent sec fil w)
    (hn : ((entries sec fil w).getD id ∅).val "NAME" = [])
    (h : (iniTokenDelete pcre env sec fil id w).1 ≠ .ok) : (entries sec fil w).get? id = none := by
  unfold iniTokenDelete at h
  dsimp only at h
  rw [iniTokenGet_fst env sec fil hc,hn] at h
  split at h
  · rename_i he
    cases hp : (entries sec fil w).get? id with
    | none => rfl
    | some p =>
      rw [OrdMap.getD,hp,Option.getD_some,OrdMap.isEmpty_iff] at he
      exact absurd he (readText_ne_empty hp)
  · simp [fileSave,hs] at h

theorem delete_spec (pcre : Pcre) (hs : env.strg = true) (id : Str) {w : World} (h : Filed w) :
    Filed (iniTokenDelete pcre env "system" "acl.cfg" id w).2 ∧
    entries "system" "acl.cfg" (iniTokenDelete pcre env "system" "acl.cfg" id w).2 =
      (entries "system" "acl.cfg" w).erase id := by
  have hn : ((entries "system" "acl.cfg" w).getD id ∅).val "NAME" = [] := by
    cases hp : (entries "system" "acl.cfg" w).get? id with
    | none =>
      rw [OrdMap.getD,hp]
      rfl
    | some p =>
      rw [OrdMap.getD,hp,Option.getD_some,Params.val,OrdMap.getD,(h.bare id p hp).1]
      rfl
  have hr := (iniTokenDelete_spec pcre env "system" "acl.cfg" id h.coherent hn).1
  by_cases hd : (iniTokenDelete pcre env "system" "acl.cfg" id w).1 = .ok
  · have ht : text "system" "acl.cfg" (iniTokenDelete pcre env "system" "acl.cfg" id w).2 =
        deleteText env ((entries "system" "acl.cfg" w).erase id) := by
      rw [text,hr.done hd,OrdMap.getD,OrdMap.get?_set_self,Option.getD_some]
    have hc := h.canonical.erase id
    have he : entries "system" "acl.cfg" (iniTokenDelete pcre env "system" "acl.cfg" id w).2 =
        (entries "system" "acl.cfg" w).erase id := by
      rw [entries,ht,readText_deleteText env hc.tokenOk,hc.readBackAll]
    refine ⟨⟨hr.coherent,ht ▸ lineEnded_deleteText env _,he ▸ hc,he ▸ fun j q hj => ?_⟩,he⟩
    rw [OrdMap.get?_erase] at hj
    split at hj
    · simp at hj
    · exact h.bare j q hj
  · have hreg := hr.refused hd
    refine ⟨h.of_reg hreg hr.coherent,?_⟩
    rw [entries_congr _ _ hreg,OrdMap.erase_of_none (delete_refused env pcre hs h.coherent hn hd)]

theorem deletes_run (pcre : Pcre) (hs : env.strg = true) (es : List (Str × Str)) {w : World} (h : Filed w) :
    Filed (deleteHosts pcre env es w) ∧ ∀ j, (entries "system" "acl.cfg" (deleteHosts pcre env es w)).get? j =
      if j ∈ es.map Prod.snd then none else (entries "system" "acl.cfg" w).get? j := by
  induction es generalizing w with
  | nil => exact ⟨h,fun j => by simp [deleteHosts]⟩
  | cons e es ih =>
    obtain ⟨hw,he⟩ := delete_spec env pcre hs e.2 h
    obtain ⟨hw',hes⟩ := ih hw
    refine ⟨hw',fun j => ?_⟩
    rw [deleteHosts,List.foldl_cons,← deleteHosts,hes,he,OrdMap.get?_erase,List.map_cons]
    by_cases hj : e.2 = j
    · simp [hj]
    · simp only [List.mem_cons,Ne.symm hj,false_or,if_neg hj]

/-- The save that reports OK leaves one entry for each host, as it was submitted, and none for any other; an entry
of a host that was there before keeps its ID. -/
theorem list_replaced (pcre : Pcre) {data : OrdMap Str Posted} {w w' : World} (h : Filed w)
    (hh : Hosted (entries "system" "acl.cfg" w)) (ho : OneHost (entries "system" "acl.cfg" w))
    (hd : ∀ e ∈ data.entries, PostedOk e) (hr : cgiPageSystemAclSetList pcre env data w = some (true,w')) :
    (∀ e ∈ data.entries, ∃ id q, (entries "system" "acl.cfg" w').get? id = some q ∧ Holds e q ∧
      ∀ j r, (entries "system" "acl.cfg" w').get? j = some r → hostOf r = e.1 → j = id) ∧
    (∀ id q, (entries "system" "acl.cfg" w').get? id = some q → hostOf q ∈ data.keys) ∧
    ∀ id p, (entries "system" "acl.cfg" w).get? id = some p → hostOf p ∈ data.keys →
      ∃ q, (entries "system" "acl.cfg" w').get? id = some q ∧ hostOf q = hostOf p := by
  unfold cgiPageSystemAclSetList at hr
  split at hr
  · simp at hr
  · rename_i hne
    have hg := h.of_reg (iniTokenGet_reg env "system" "acl.cfg" ∅ w) (iniTokenGet_coherent env _ _ h.coherent)
    have hge := entries_congr "system" "acl.cfg" (iniTokenGet_reg env "system" "acl.cfg" ∅ w)
    dsimp only at hr
    rw [iniTokenGet_fst env _ _ h.coherent] at hr
    obtain ⟨s,hs,hr⟩ := Option.map_eq_some_iff.mp hr
    split at hr
    · rename_i hf
      have hp := progress_start (fun id p hp => (h.bare id p hp)) hh ho
      obtain ⟨hst,hsw,hps⟩ := @hosts_run env _ hh data.entries [] _ _ data.nodup hd hg (by rw [hge]; exact hp) hs hf
      have hstrg := hst fun hn => hne (OrdMap.isEmpty_iff.mpr (OrdMap.ext hn))
      obtain ⟨-,hdel⟩ := deletes_run env pcre hstrg s.known.entries hsw
      rw [(Prod.mk.inj hr).2] at hdel
      rw [List.nil_append] at hps
      -- what is deleted are the entries of the hosts that were not submitted
      have hgone : ∀ id q, (entries "system" "acl.cfg" s.world).get? id = some q →
          (id ∈ s.known.entries.map Prod.snd ↔ hostOf q ∉ data.keys) := by
        intro id q hq
        constructor
        · intro hm
          obtain ⟨e,he,rfl⟩ := List.mem_map.mp hm
          obtain ⟨hnot,p,hp,hph⟩ := (hps.left e.1 e.2).mp (OrdMap.get?_eq_some.mpr he)
          obtain ⟨q',hq',hqh⟩ := hps.old _ p hp
          rw [hq] at hq'
          rwa [Option.some.inj hq',hqh,hph]
        · intro hnot
          obtain ⟨p,hp,hph⟩ := (hps.only id q hq).resolve_left hnot
          exact List.mem_map.mpr ⟨_,OrdMap.get?_eq_some.mp ((hps.left _ _).mpr ⟨hnot,p,hp,hph⟩),rfl⟩
      have hkept : ∀ {id q}, (entries "system" "acl.cfg" s.world).get? id = some q → hostOf q ∈ data.keys →
          (entries "system" "acl.cfg" w').get? id = some q := fun hq hk => by
        rw [hdel,if_neg fun hm => (hgone _ _ hq).mp hm hk,hq]
      have hfrom : ∀ {id q}, (entries "system" "acl.cfg" w').get? id = some q →
          (entries "system" "acl.cfg" s.world).get? id = some q ∧ hostOf q ∈ data.keys := fun {id q} hq => by
        rw [hdel] at hq
        split at hq
        · simp at hq
        · rename_i hm
          exact ⟨hq,by_contra fun hk => hm ((hgone _ _ hq).mpr hk)⟩
      refine ⟨fun e he => ?_,fun id q hq => (hfrom hq).2,fun id p hp hk => ?_⟩
      · obtain ⟨id,q,hq,hholds⟩ := hps.own e he
        have hk : hostOf q ∈ data.keys := hholds.1 ▸ List.mem_map_of_mem he
        refine ⟨id,q,hkept hq hk,hholds,fun j r hr hre => ?_⟩
        exact hps.one j r id q (hfrom hr).1 hq (hre.trans hholds.1.symm)
      · obtain ⟨q,hq,hqh⟩ := hps.old id p hp
        exact ⟨q,hkept hq (hqh ▸ hk),hqh⟩
    · simp at hr

def aclText (s : Str) : World := ⟨OrdMap.empty.set ("system","acl.cfg") s,∅⟩

def aclWorld : World := aclText "ID=a1\nHOST=lan\nSTAT=1\nTYPE=ssh\n\nID=b2\nHOST=dmz\nSTAT=0\nTYPE=cli\n"

def officeHosts : OrdMap Str Posted :=
  OrdMap.empty.setAll [("lan",⟨"","ssh,cli,"⟩),("office net",⟨"1","ssh"⟩)]

/-- What is listed of a host. -/
structure Row where
  id : Str
  host : Str
  stat : Str
  type : Str
  deriving DecidableEq

def rows (w : World) : List Row :=
  (entries "system" "acl.cfg" w).entries.map fun e => ⟨e.1,hostOf e.2,e.2.val "STAT",e.2.val "TYPE"⟩

def submitted (es : List (Str × Posted)) (w : World) : Option (Bool × List Row) :=
  (cgiPageSystemAclSetList Pcre.plain noonEnv (OrdMap.empty.setAll es) w).map fun r => (r.1,rows r.2)

theorem list_replaced_office : ∃ w',
    cgiPageSystemAclSetList Pcre.plain noonEnv officeHosts aclWorld = some (true,w') ∧
    ∀ e ∈ officeHosts.entries, ∃ id q, (entries "system" "acl.cfg" w').get? id = some q ∧ Holds e q ∧
      ∀ j r, (entries "system" "acl.cfg" w').get? j = some r → hostOf r = e.1 → j = id := by
  have ho : (cgiPageSystemAclSetList Pcre.plain noonEnv officeHosts aclWorld).map Prod.fst = some true := by
    decide +kernel
  have ha : LineEnded (text "system" "acl.cfg" aclWorld) ∧ Plain (text "system" "acl.cfg" aclWorld) ∧
      Bare (entries "system" "acl.cfg" aclWorld) ∧ Hosted (entries "system" "acl.cfg" aclWorld) ∧
      OneHost (entries "system" "acl.cfg" aclWorld) := by
    decide +kernel
  obtain ⟨⟨ok,w'⟩,hw,rfl⟩ := Option.map_eq_some_iff.mp ho
  have hf : Filed aclWorld :=
    ⟨Or.inl (by decide),ha.1,readText_canonical ha.2.1,ha.2.2.1⟩
  have hd : ∀ e ∈ officeHosts.entries, PostedOk e := by
    have hall : ∀ e ∈ officeHosts.entries, trim e.1 = e.1 ∧ numeric e.1 = none ∧ '=' ∉ e.1 ∧ '\n' ∉ e.1 ∧
        '\n' ∉ e.2.stat ∧ '\n' ∉ e.2.type := by decide
    exact fun e he => ⟨(hall e he).1,(hall e he).2.1,(hall e he).2.2.1,(hall e he).2.2.2.1,(hall e he).2.2.2.2.1,
      (hall e he).2.2.2.2.2⟩
  exact ⟨w',hw,(list_replaced noonEnv Pcre.plain hf ha.2.2.2.1 ha.2.2.2.2 hd hw).1⟩

/-- A type with an equals sign in it is cut there, and one with a line of its own goes on as the host of the entry.
With a parameter `0`, which is taken for the host, or with the name of an entry that is deleted, a host that was
submitted is gone. -/
theorem list_not_replaced :
    (OneHost (entries "system" "acl.cfg" aclWorld) ∧ Hosted (entries "system" "acl.cfg" aclWorld)) ∧
    submitted [("lan",⟨"1","ssh=1"⟩)] aclWorld = some (true,[⟨"a1","lan","1","ssh"⟩]) ∧
    submitted [("lan",⟨"1","ssh\nHOST=x"⟩)] aclWorld = some (true,[⟨"a1","x","1","ssh"⟩]) ∧
    submitted [("lan",⟨"1","ssh"⟩)] (aclText "ID=a1\nHOST=lan\n0=dmz\n") = some (true,[]) ∧
    submitted [("lan",⟨"1","ssh"⟩)] (aclText "ID=a1\nHOST=lan\n\nID=b2\nNAME=lan\nHOST=dmz\n") =
      some (true,[⟨"a1",[],"1","ssh"⟩]) := by
  decide +kernel

end AccessList
end Mybox
