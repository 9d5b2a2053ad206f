import Mybox.RegistryFaithful

/-! Parameters that name objects, and what `_INI_TOKEN_REMOVE` does to their lines when the
object is deleted. -/
namespace Mybox
namespace References

open Php RegistryFormat Registry

/-- A single name, or names with commas between them. -/
inductive Shape
  | one
  | list
  deriving DecidableEq

/-- The names looked up in network objects, in service objects and in interfaces. -/
inductive Realm
  | networks
  | services
  | interfaces
  deriving DecidableEq

structure RefKey where
  section_ : Str
  file : Str
  key : Str
  realm : Realm
  shape : Shape
  deriving DecidableEq

def refKeys (sec : String) (fils keys : List String) (realm : Realm) (shape : Shape) : List RefKey :=
  fils.flatMap fun fil => keys.map fun key => ⟨sec,fil,key,realm,shape⟩

/-- The parameters whose values the lookups of the services are given. -/
def references : List RefKey :=
  refKeys "definitions" ["network.cfg","network_host.cfg","network_dnshost.cfg",
    "network_hostrange.cfg","network_hostmac.cfg"] ["DNAME"] .interfaces .one
  ++ refKeys "definitions" ["network_group.cfg"] ["ADDR"] .networks .list
  ++ refKeys "definitions" ["service_group.cfg"] ["SERVICE"] .services .list
  ++ refKeys "network" ["additional.cfg"] ["PNAME"] .interfaces .one
  ++ refKeys "network" ["static_arp.cfg","dhcp_server.cfg","dhcp_static.cfg"] ["DNAME"] .interfaces .one
  ++ refKeys "network" ["dhcp_relay.cfg"] ["DNAME"] .interfaces .list
  ++ refKeys "network" ["dhcp_relay.cfg","named_acl.cfg","ntp_acl.cfg"] ["ADDR"] .networks .one
  ++ refKeys "network" ["named.cfg","named_routing.cfg"] ["FORWARDER"] .networks .list
  ++ refKeys "network" ["ntp.cfg"] ["SERVER"] .networks .one
  ++ refKeys "network" ["route_static.cfg"] ["ROUTE_NETWORK","ROUTE_GATEWAY"] .networks .one
  ++ refKeys "network" ["route_static.cfg"] ["DNAME"] .interfaces .one
  ++ refKeys "network" ["route_policy.cfg"] ["SRC","DST","ROUTE_GATEWAY"] .networks .one
  ++ refKeys "network" ["route_policy.cfg"] ["SERVICE"] .services .one
  ++ refKeys "network" ["route_policy.cfg"] ["DNAME","TNAME"] .interfaces .one
  ++ refKeys "reporting" ["syslog.cfg"] ["SERVER"] .networks .one
  ++ refKeys "reporting" ["syslog.cfg"] ["SERVICE"] .services .one
  ++ refKeys "system" ["acl.cfg","attempt_exclude.cfg"] ["HOST"] .networks .one
  ++ refKeys "system" ["update.cfg"] ["PROXY_HOST"] .networks .one

def refKey (f : Str × Str) (key : Str) : Option RefKey :=
  references.find? fun r => r.section_ = f.1 && r.file = f.2 && r.key = key

def parameter (l : Str) : Option (Str × Str) :=
  if l.head? = some '#' ∨ sectionName l ≠ none ∨ (splitParam l).1 = [] then none
  else some (splitParam l)

def Shape.names : Shape → Str → List Str
  | one, v => [v]
  | list, v => (split ',' v).map trim

/-- The parameter of a line that names objects, its kind and its value. -/
def reference (f : Str × Str) (l : Str) : Option (RefKey × Str) :=
  (parameter l).bind fun p => (refKey f p.1).map fun r => (r,p.2)

def namesIn (f : Str × Str) (l : Str) : List Str :=
  match reference f l with
  | some (r,v) => r.shape.names v
  | none => []

/-- The line with a name taken out of the names it gives. -/
def scrubLine (n : Str) (f : Str × Str) (l : Str) : Str :=
  match reference f l with
  | some (r,v) =>
    if n ∈ r.shape.names v then
      paramLine (r.key,[','].intercalate ((r.shape.names v).filter fun m => m ≠ n))
    else l
  | none => l

/-- The line is one `_INI_TOKEN_REMOVE` looks for. -/
def Reached (n l : Str) : Prop := ∃ k ∈ referenceKeys, l = k ++ '=' :: n

structure IsLine (l : Str) : Prop where
  ne : l ≠ []
  trimmed : trim l = l
  newline : '\n' ∉ l

theorem isLine_of_mem {s l : Str} (h : l ∈ file s) : IsLine l :=
  ⟨(mem_file h).1,(mem_file h).2.1,(mem_file h).2.2⟩

/-- The key of a parameter that `_INI_TOKEN_REMOVE` or a lookup knows. -/
structure KeyName (k : Str) : Prop where
  ne : k ≠ []
  black : ∀ c ∈ k, trimChar c = false
  eq : '=' ∉ k
  comma : ',' ∉ k
  comment : k.head? ≠ some '#'
  id : k ≠ ("ID" : Str)

instance (k : Str) : Decidable (KeyName k) :=
  decidable_of_iff (k ≠ [] ∧ (∀ c ∈ k, trimChar c = false) ∧ '=' ∉ k ∧ ',' ∉ k ∧
    k.head? ≠ some '#' ∧ k ≠ ("ID" : Str)) ⟨fun ⟨h₁,h₂,h₃,h₄,h₅,h₆⟩ => ⟨h₁,h₂,h₃,h₄,h₅,h₆⟩,
      fun ⟨h₁,h₂,h₃,h₄,h₅,h₆⟩ => ⟨h₁,h₂,h₃,h₄,h₅,h₆⟩⟩

theorem trim_of_black {s : Str} (h : ∀ c ∈ s, trimChar c = false) : trim s = s := by
  rw [trimmed_iff]
  exact ⟨fun c hc => by simp [h c (List.mem_of_mem_head? hc)],
    fun c hc => by simp [h c (List.mem_of_mem_getLast? hc)]⟩

theorem KeyName.newline {k : Str} (h : KeyName k) : '\n' ∉ k := fun hm => absurd (h.black _ hm) (by decide)

theorem referenceKeys_keyName : ∀ k ∈ referenceKeys, KeyName k := by decide

theorem references_keyName : ∀ r ∈ references, KeyName r.key := by decide

theorem sectionName_paramLine {k : Str} (h : KeyName k) (v : Str) : sectionName (paramLine (k,v)) = none := by
  rw [Option.eq_none_iff_forall_ne_some]
  intro x hx
  obtain ⟨he,-,-⟩ := sectionName_some hx
  have hs := congrArg (List.splitOn '=') he
  rw [paramLine,List.splitOn_append_cons_self_of_not_mem h.eq] at hs
  have hx' : List.splitOn '=' (sectionLine x) = ("ID" : Str) :: x.splitOn '=' :=
    List.splitOn_append_cons_self_of_not_mem (by decide : '=' ∉ ("ID" : Str)) x
  rw [hx',List.cons.injEq] at hs
  exact h.id hs.1

theorem KeyName.paramOk {k v : Str} (h : KeyName k) (ht : trim v = v) (hn : '\n' ∉ v) (he : '=' ∉ v) :
    ParamOk k v :=
  ⟨h.ne,trim_of_black h.black,ht,h.newline,hn,h.eq,he,h.comment,sectionName_paramLine h v⟩

theorem parameter_paramLine {k v : Str} (h : ParamOk k v) : parameter (paramLine (k,v)) = some (k,v) := by
  have hc : (paramLine (k,v)).head? ≠ some '#' := by
    rw [paramLine,List.head?_append_of_ne_nil _ h.ne]; exact h.comment
  have hs : sectionName (paramLine (k,v)) = none := h.plain
  rw [parameter,splitParam_paramLine h,if_neg]
  simp [hc,hs,h.ne]

/-- A line that refers to objects, taken apart. -/
theorem reference_some {f : Str × Str} {l : Str} (hl : IsLine l) {r : RefKey} {v : Str}
    (h : reference f l = some (r,v)) : refKey f r.key = some r ∧ ParamOk r.key v ∧ KeyName r.key := by
  obtain ⟨p,hp,h⟩ := Option.bind_eq_some_iff.mp h
  obtain ⟨r',hr,he⟩ := Option.map_eq_some_iff.mp h
  simp only [Prod.mk.injEq] at he
  obtain ⟨rfl,rfl⟩ := he
  have hf := List.find?_some hr
  simp only [Bool.and_eq_true,decide_eq_true_eq] at hf
  have hk : r'.key = p.1 := hf.2
  have hn := references_keyName r' (List.mem_of_find?_eq_some hr)
  unfold parameter at hp
  split at hp
  · simp at hp
  · rename_i hc
    simp only [not_or] at hc
    simp only [Option.some.injEq] at hp
    subst hp
    have hs : sectionName (paramLine (splitParam l)) = none := by
      have := sectionName_paramLine hn (splitParam l).2
      rwa [hk] at this
    have ho := splitParam_ok hl.ne hl.trimmed hl.newline hc.1 hc.2.2 hs
    rw [hk]
    exact ⟨hr,ho,hk ▸ hn⟩

theorem reference_paramLine {f : Str × Str} {r : RefKey} {v : Str} (hr : refKey f r.key = some r)
    (h : ParamOk r.key v) : reference f (paramLine (r.key,v)) = some (r,v) := by
  simp [reference,parameter_paramLine h,hr]

theorem Shape.names_ok {sh : Shape} {v n : Str} (ht : trim v = v) (h : n ∈ sh.names v) :
    trim n = n ∧ (∀ c ∈ n, c ∈ v) ∧ (sh = .list → ',' ∉ n) := by
  cases sh with
  | one =>
    simp only [Shape.names,List.mem_singleton] at h
    subst h
    exact ⟨ht,fun c hc => hc,by simp⟩
  | list =>
    obtain ⟨p,hp,rfl⟩ := List.mem_map.mp h
    have hc : ∀ c ∈ trim p, c ∈ v ∧ c ≠ ',' := fun c hc =>
      LineText.mem_splitOn ',' hp (LineText.strip_mem trimChar hc)
    exact ⟨trim_trim p,fun c hm => (hc c hm).1,fun _ hm => (hc ',' hm).2 rfl⟩

/-- The names that are left are those of the list put together again. -/
theorem names_intercalate (sh : Shape) {ps : List Str} (h : ∀ p ∈ ps, trim p = p)
    (hs : sh = .list → ∀ p ∈ ps, ',' ∉ p) (ho : sh = .one → ps.length ≤ 1) :
    sh.names ([','].intercalate ps) = if ps = [] then [[]] else ps := by
  cases sh with
  | one =>
    match ps, ho rfl with
    | [], _ => rfl
    | [p], _ => simp [Shape.names]
  | list =>
    by_cases hp : ps = []
    · subst hp; decide
    · rw [if_neg hp,Shape.names,split,List.splitOn_intercalate ',' (hs rfl) hp]
      conv_rhs => rw [← List.map_id ps]
      exact List.map_congr_left fun p hm => h p hm

theorem intercalate_chars {ps : List Str} {c : Char} (h : c ∈ [','].intercalate ps) :
    c = ',' ∨ ∃ p ∈ ps, c ∈ p := by
  induction ps with
  | nil => simp [List.intercalate] at h
  | cons p ps ih =>
    cases ps with
    | nil => exact Or.inr ⟨p,by simp,by simpa using h⟩
    | cons q ps =>
      rw [List.intercalate_cons_cons] at h
      simp only [List.append_assoc,List.mem_append,List.mem_singleton] at h
      rcases h with h | h | h
      · exact Or.inr ⟨p,by simp,h⟩
      · exact Or.inl h
      · rcases ih h with h | ⟨x,hx,hc⟩
        · exact Or.inl h
        · exact Or.inr ⟨x,List.mem_cons_of_mem _ hx,hc⟩

theorem trim_append_comma {p q : Str} (hp : trim p = p) (hq : trim q = q) :
    trim (p ++ ',' :: q) = p ++ ',' :: q := by
  rw [trimmed_iff] at hp hq ⊢
  constructor
  · intro c hc
    cases p with
    | nil =>
      simp only [List.nil_append,List.head?_cons,Option.mem_some_iff] at hc
      subst hc
      decide
    | cons d p => exact hp.1 c hc
  · intro c hc
    rw [List.getLast?_append_of_ne_nil _ (by simp)] at hc
    cases q with
    | nil =>
      simp only [List.getLast?_singleton,Option.mem_some_iff] at hc
      subst hc
      decide
    | cons d q =>
      rw [List.getLast?_cons_cons] at hc
      exact hq.2 c hc

theorem trim_intercalate {ps : List Str} (h : ∀ p ∈ ps, trim p = p) :
    trim ([','].intercalate ps) = [','].intercalate ps := by
  induction ps with
  | nil => rfl
  | cons p ps ih =>
    cases ps with
    | nil => simpa using h p (by simp)
    | cons q ps =>
      rw [List.intercalate_cons_cons,List.append_assoc]
      exact trim_append_comma (h p (by simp)) (ih fun x hx => h x (List.mem_cons_of_mem _ hx))

theorem scrub_paramOk {k v : Str} (n : Str) (sh : Shape) (hk : KeyName k) (h : ParamOk k v) :
    ParamOk k ([','].intercalate ((sh.names v).filter fun m => m ≠ n)) := by
  have hm : ∀ p ∈ (sh.names v).filter fun m => m ≠ n, trim p = p ∧ ∀ c ∈ p, c ∈ v := by
    intro p hp
    have hs := Shape.names_ok h.val (List.mem_of_mem_filter hp)
    exact ⟨hs.1,hs.2.1⟩
  have hc : ∀ c ∈ [','].intercalate ((sh.names v).filter fun m => m ≠ n), c = ',' ∨ c ∈ v := by
    intro c hc
    rcases intercalate_chars hc with hc | ⟨p,hp,hc⟩
    · exact Or.inl hc
    · exact Or.inr ((hm p hp).2 c hc)
  refine hk.paramOk (trim_intercalate fun p hp => (hm p hp).1) (fun hx => ?_) fun hx => ?_
  · rcases hc _ hx with hx | hx
    · exact absurd hx (by decide)
    · exact h.valLine hx
  · rcases hc _ hx with hx | hx
    · exact absurd hx (by decide)
    · exact h.valEq hx

theorem scrubLine_of_not_mem {n l : Str} {f : Str × Str} (h : n ∉ namesIn f l) : scrubLine n f l = l := by
  unfold scrubLine namesIn at *
  cases hr : reference f l with
  | none => rfl
  | some r =>
    rw [hr] at h
    exact if_neg h

theorem isLine_paramLine {k v : Str} (h : ParamOk k v) : IsLine (paramLine (k,v)) :=
  ⟨by simp [paramLine],trim_paramLine h,newline_paramLine h⟩

/-- The name is gone, and the other names of the line are as they were. -/
theorem namesIn_scrubLine {n l : Str} {f : Str × Str} (hl : IsLine l) (hn : n ≠ []) :
    IsLine (scrubLine n f l) ∧ n ∉ namesIn f (scrubLine n f l) ∧
    ∀ m, m ≠ n → m ≠ [] → (m ∈ namesIn f (scrubLine n f l) ↔ m ∈ namesIn f l) := by
  by_cases hm : n ∈ namesIn f l
  · unfold scrubLine
    unfold namesIn at hm ⊢
    cases hr : reference f l with
    | none => rw [hr] at hm; simp at hm
    | some x =>
      obtain ⟨r,v⟩ := x
      rw [hr] at hm
      dsimp only at hm ⊢
      rw [if_pos hm]
      obtain ⟨hk,hp,hkn⟩ := reference_some hl hr
      have ho := scrub_paramOk n r.shape hkn hp
      have hs := @names_intercalate r.shape ((r.shape.names v).filter fun m => m ≠ n)
        (fun p hp' => (Shape.names_ok hp.val (List.mem_of_mem_filter hp')).1)
        (fun he p hp' => (Shape.names_ok hp.val (List.mem_of_mem_filter hp')).2.2 he)
        (fun he => (List.length_filter_le _ _).trans (by rw [he]; simp [Shape.names]))
      rw [reference_paramLine hk ho]
      dsimp only
      rw [hs]
      refine ⟨isLine_paramLine ho,?_,fun m hmn hme => ?_⟩
      · split
        · simpa using hn
        · simp
      · split
        · rename_i he
          have hnone : m ∉ (r.shape.names v).filter fun m => m ≠ n := by rw [he]; simp
          simp only [List.mem_filter,decide_eq_true_eq,not_and,not_not] at hnone
          simp only [List.mem_singleton,hme,false_iff]
          exact fun hh => hmn (hnone hh)
        · simp [hmn]
  · rw [scrubLine_of_not_mem hm]
    exact ⟨hl,hm,fun _ _ _ => Iff.rfl⟩

end References
end Mybox
