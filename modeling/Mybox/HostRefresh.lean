import Mybox.DefinitionHandlers
import Mybox.EntryPasses
import Mybox.NetworkStart

/-! The refresh of the DNS hosts: every host name is looked up again, and the addresses in the definition are replaced
when the answer has one that is not among them. -/
namespace Mybox
namespace HostRefresh

open Php RegistryFormat Registry References Definitions

variable (env : Env) (o : ℕ → Outside)

def hostFile : Str × Str := ("definitions","network_dnshost.cfg")

-- What is outside at each lookup is given by the number of lookups made before.
/-- The end of a turn: the answer to the lookup is compared with the addresses of the definition. -/
def compareHost (n : ℕ) (r : Bool × World) (e : Str × Params) : ℕ × Bool × World :=
  let h := definitionsDnshostResolve (o n) (e.2.val "HOSTNAME")
  if !null h && !looseEq h unresolved then
    let dn := split ',' h
    let carray := dn.filter fun a => !(split ',' (e.2.val "ADDR")).contains a
    let narray := if carray.isEmpty then [] else dn
    let hval := trimWith "," ((narray.filter fun a => !null a).flatMap (· ++ [',']))
    if null hval then (n+1,r)
    else (n+1,true,(iniTokenUpdate env "definitions" "network_dnshost.cfg" e.1 (e.2.set "ADDR" hval) r.2).2)
  else (n+1,r)

/-- One turn of the loop: the lookups made, whether the policy has to start anew, and the state. -/
def refreshHost (r : ℕ × Bool × World) (e : Str × Params) : ℕ × Bool × World :=
  let host := e.2.val "HOSTNAME"
  let empty := null (e.2.val "ADDR") || looseEq (e.2.val "ADDR") unresolved
  let first := definitionsDnshostResolve (o r.1) host
  if null host then r
  else if empty && (!null first && !looseEq first unresolved) then
    (r.1+1,true,(iniTokenUpdate env "definitions" "network_dnshost.cfg" e.1 (e.2.set "ADDR" first) r.2.2).2)
  else compareHost env o (if empty then r.1+1 else r.1) r.2 e

def updateDnshost (w : World) : Bool × Bool × World :=
  let g := iniTokenGet env "definitions" "network_dnshost.cfg" ∅ w
  if g.1.isEmpty then (false,false,g.2) else (true,(g.1.entries.foldl (refreshHost env o) (0,false,g.2)).2)

def Address (a : Str) : Prop := a ≠ [] ∧ ∀ c ∈ a, digit c = true ∨ c = '.'

def Answers : Prop := ∀ n host, ∀ a ∈ (o n).gethostbynamel host, Address a

def addrs (v : Str) : List Str := (split ',' v).filter (· ≠ [])

def listed (as : List Str) : Str := [','].intercalate as

theorem Address.comma {a : Str} (h : Address a) : ',' ∉ a := by
  intro hm
  rcases h.2 _ hm with hd | hd
  · exact absurd hd (by decide)
  · exact absurd hd (by decide)

section Lists

variable {as : List Str}

theorem split_listed (h : ∀ a ∈ as, Address a) (hne : as ≠ []) : split ',' (listed as) = as :=
  List.splitOn_intercalate ',' (fun a ha => (h a ha).comma) hne

theorem listed_mem {c : Char} (h : c ∈ listed as) : c = ',' ∨ ∃ a ∈ as, c ∈ a := by
  unfold listed at h
  induction as with
  | nil => exact absurd h (by simp)
  | cons a as ih =>
    cases as with
    | nil => exact Or.inr ⟨a,by simp,by simpa using h⟩
    | cons b as =>
      rw [List.intercalate_cons_cons,List.append_assoc,List.mem_append,List.mem_append,List.mem_singleton] at h
      rcases h with h | h | h
      · exact Or.inr ⟨a,by simp,h⟩
      · exact Or.inl h
      · exact (ih h).imp_right fun ⟨x,hx,hc⟩ => ⟨x,List.mem_cons_of_mem _ hx,hc⟩

theorem listed_char (h : ∀ a ∈ as, Address a) {c : Char} (hc : c ∈ listed as) : c = ',' ∨ digit c = true ∨ c = '.' :=
  (listed_mem hc).imp_right fun ⟨a,ha,hm⟩ => (h a ha).2 c hm

/-- A list begins and ends with an address. -/
theorem listed_ends (h : ∀ a ∈ as, Address a) (hne : as ≠ []) : listed as ≠ [] ∧ (∀ c ∈ (listed as).head?, c ≠ ',') ∧
    ∀ c ∈ (listed as).getLast?, c ≠ ',' := by
  unfold listed
  induction as with
  | nil => exact absurd rfl hne
  | cons a as ih =>
    have ha := h a (by simp)
    have hhead : ∀ s : Str, ∀ c ∈ (a ++ s).head?, c ≠ ',' := by
      intro s c hc
      rw [List.head?_append_of_ne_nil _ ha.1] at hc
      rintro rfl
      exact ha.comma (List.mem_of_head? hc)
    cases as with
    | nil =>
      rw [List.intercalate_singleton]
      refine ⟨ha.1,by simpa using hhead [],fun c hc => ?_⟩
      rintro rfl
      exact ha.comma (List.mem_of_getLast? hc)
    | cons b as =>
      obtain ⟨hb,-,hl⟩ := ih (fun x hx => h x (List.mem_cons_of_mem _ hx)) (by simp)
      rw [List.intercalate_cons_cons,List.append_assoc]
      refine ⟨by simp [ha.1],hhead _,?_⟩
      rw [List.getLast?_append_of_ne_nil _ (by simp),List.getLast?_append_of_ne_nil _ hb]
      exact hl

theorem listed_concat (hne : as ≠ []) : as.flatMap (· ++ [',']) = listed as ++ [','] :=
  (LineText.intercalate_concat ',' hne).symm

theorem address_black {c : Char} (h : c = ',' ∨ digit c = true ∨ c = '.') : trimChar c = false := by
  rw [Bool.eq_false_iff]
  intro ht
  simp only [trimChar,Bool.or_eq_true,decide_eq_true_eq] at ht
  rcases ht with ((((rfl | rfl) | rfl) | rfl) | rfl) | rfl <;> exact absurd h (by decide)

theorem listed_read (h : ∀ a ∈ as, Address a) : ReadValue (listed as) := by
  refine ⟨trim_of_black fun c hc => address_black (listed_char h hc),fun hm => ?_,fun hm => ?_⟩
  · rcases listed_char h hm with hc | hc | hc <;> exact absurd hc (by decide)
  · rcases listed_char h hm with hc | hc | hc <;> exact absurd hc (by decide)

theorem listed_resolved (h : ∀ a ∈ as, Address a) : looseEq (listed as) unresolved = false := by
  rw [looseEq_text (by decide)]
  refine decide_eq_false fun he => ?_
  rcases listed_char h (c:= 'u') (by rw [he]; decide) with hc | hc | hc <;> exact absurd hc (by decide)

theorem trim_pieces (h : ∀ a ∈ as, Address a) (hne : as ≠ []) :
    trimWith "," ((as.filter fun a => !null a).flatMap (· ++ [','])) = listed as := by
  have hf : as.filter (fun a => !null a) = as := List.filter_eq_self.mpr fun a ha => by simpa using (h a ha).1
  obtain ⟨-,hh,hl⟩ := listed_ends h hne
  rw [hf,listed_concat hne,trimWith,LineText.strip_concat_blank _ (by decide)]
  exact (LineText.stripped_iff _).mpr ⟨fun c hc => by simpa [Str.of_ascii] using hh c hc,fun c hc => by simpa [Str.of_ascii] using hl c hc⟩

end Lists

variable {o}

theorem resolve_eq (ho : Answers o) (n : ℕ) (host : Str) : definitionsDnshostResolve (o n) host =
    if (o n).gethostbynamel host = [] then unresolved else listed ((o n).gethostbynamel host) := by
  have ha := ho n host
  unfold definitionsDnshostResolve
  by_cases h : (o n).gethostbynamel host = []
  · rw [if_pos h,h]
    rfl
  · obtain ⟨hne,-,hl⟩ := listed_ends ha h
    have hr : (((o n).gethostbynamel host).flatMap fun j => j ++ [',']).rdropWhile (· = ',') =
        listed ((o n).gethostbynamel host) := by
      rw [listed_concat h,List.rdropWhile_concat_pos _ _ _ (by simp),List.rdropWhile_eq_self_iff]
      exact fun hn hc => hl _ (List.getLast?_eq_getLast_of_ne_nil hn) (by simpa using hc)
    dsimp only
    rw [hr,if_neg h,if_neg (by simpa using hne)]

variable (o)

/-- The answer to the last lookup for a definition, none where there is none to make, and the lookups made then. -/
def asked (n : ℕ) (e : Str × Params) : List Str × ℕ :=
  let host := e.2.val "HOSTNAME"
  let addr := e.2.val "ADDR"
  if null host then ([],n)
  else if (null addr || looseEq addr unresolved) && ((o n).gethostbynamel host).isEmpty then
    ((o (n+1)).gethostbynamel host,n+2)
  else ((o n).gethostbynamel host,n+1)

def answers : ℕ → List (Str × Params) → List (List Str)
  | _, [] => []
  | n, e::es => (asked o n e).1::answers (asked o n e).2 es

def refreshed (as : List Str) (e : Str × Params) : Str × Params :=
  if ∃ a ∈ as, a ∉ split ',' (e.2.val "ADDR") then (e.1,e.2.set "ADDR" (listed as)) else e

variable {env o}

theorem asked_address (ho : Answers o) (n : ℕ) (e : Str × Params) : ∀ a ∈ (asked o n e).1, Address a := by
  unfold asked
  dsimp only
  split
  · exact fun a ha => absurd ha List.not_mem_nil
  · split
    · exact ho _ _
    · exact ho _ _

theorem empty_new {addr : Str} (h : (null addr || looseEq addr unresolved) = true) {as : List Str}
    (ha : ∀ a ∈ as, Address a) (hne : as ≠ []) : ∃ a ∈ as, a ∉ split ',' addr := by
  obtain ⟨a,hm⟩ := List.exists_mem_of_ne_nil as hne
  refine ⟨a,hm,fun hs => ?_⟩
  rw [Bool.or_eq_true,null_iff,looseEq_text (by decide),decide_eq_true_iff] at h
  rcases h with rfl | rfl
  · have he : a = [] := by simpa [split] using hs
    exact (ha a hm).1 he
  · have he : a = unresolved := by
      rw [show split ',' unresolved = [unresolved] from List.splitOn_eq_singleton (by decide)] at hs
      exact List.mem_singleton.mp hs
    rcases (ha a hm).2 'u' (by rw [he]; decide) with hc | hc
    · exact absurd hc (by decide)
    · exact absurd hc (by decide)

theorem resolved_eq (ho : Answers o) (n : ℕ) (host : Str) :
    (!null (definitionsDnshostResolve (o n) host) && !looseEq (definitionsDnshostResolve (o n) host) unresolved) =
      !((o n).gethostbynamel host).isEmpty := by
  rw [resolve_eq ho]
  by_cases h : (o n).gethostbynamel host = []
  · rw [if_pos h,h]
    decide
  · rw [if_neg h,listed_resolved (ho n host),null_false_iff.mpr (listed_ends (ho n host) h).1,
      List.isEmpty_eq_false_iff.mpr h]
    rfl

theorem compared_eq {as : List Str} (ha : ∀ a ∈ as, Address a) (hne : as ≠ []) (addr : Str) :
    trimWith "," (((if ((split ',' (listed as)).filter fun a => !(split ',' addr).contains a).isEmpty then []
      else split ',' (listed as)).filter fun a => !null a).flatMap (· ++ [','])) =
    if ∃ a ∈ as, a ∉ split ',' addr then listed as else [] := by
  rw [split_listed ha hne]
  by_cases h : ∃ a ∈ as, a ∉ split ',' addr
  · have hf : (as.filter fun a => !(split ',' addr).contains a).isEmpty = false := by
      obtain ⟨a,hm,hn⟩ := h
      rw [List.isEmpty_eq_false_iff]
      exact List.ne_nil_of_mem (List.mem_filter.mpr ⟨hm,by simpa using hn⟩)
    rw [if_pos h,hf,if_neg Bool.false_ne_true,trim_pieces ha hne]
  · have hf : (as.filter fun a => !(split ',' addr).contains a).isEmpty = true := by
      rw [List.isEmpty_iff,List.filter_eq_nil_iff]
      intro a hm hn
      exact h ⟨a,hm,by simpa using hn⟩
    rw [if_neg h,hf,if_pos rfl]
    rfl

variable (env)

def putAnswer (as : List Str) (e : Str × Params) (w : World) : World :=
  if ∃ a ∈ as, a ∉ split ',' (e.2.val "ADDR") then
    (iniTokenUpdate env "definitions" "network_dnshost.cfg" e.1 (e.2.set "ADDR" (listed as)) w).2
  else w

theorem putAnswer_nil (e : Str × Params) (w : World) : putAnswer env [] e w = w :=
  if_neg fun ⟨_,ha,_⟩ => absurd ha List.not_mem_nil

variable {env}

theorem compareHost_eq (ho : Answers o) (n : ℕ) (r : Bool × World) (e : Str × Params) :
    (compareHost env o n r e).1 = n+1 ∧
      (compareHost env o n r e).2.2 = putAnswer env ((o n).gethostbynamel (e.2.val "HOSTNAME")) e r.2 := by
  have ha := ho n (e.2.val "HOSTNAME")
  unfold compareHost
  dsimp only
  rw [resolved_eq ho,resolve_eq ho]
  generalize (o n).gethostbynamel (e.2.val "HOSTNAME") = as at ha
  by_cases hn : as = []
  · subst hn
    exact ⟨rfl,(putAnswer_nil env e r.2).symm⟩
  · rw [if_neg hn,compared_eq ha hn,List.isEmpty_eq_false_iff.mpr hn,putAnswer]
    by_cases hx : ∃ a ∈ as, a ∉ split ',' (e.2.val "ADDR")
    · rw [if_pos hx,if_pos hx,null_false_iff.mpr (listed_ends ha hn).1]
      exact ⟨rfl,rfl⟩
    · rw [if_neg hx,if_neg hx]
      exact ⟨rfl,rfl⟩

/-- One turn: the lookups it makes, and the one definition it writes. -/
theorem refreshHost_eq (ho : Answers o) (r : ℕ × Bool × World) (e : Str × Params) :
    (refreshHost env o r e).1 = (asked o r.1 e).2 ∧
      (refreshHost env o r e).2.2 = putAnswer env (asked o r.1 e).1 e r.2.2 := by
  unfold refreshHost asked
  dsimp only
  rw [resolved_eq ho,resolve_eq ho]
  by_cases hh : null (e.2.val "HOSTNAME") = true
  · rw [if_pos hh,if_pos hh]
    exact ⟨rfl,(putAnswer_nil env e r.2.2).symm⟩
  · rw [if_neg hh,if_neg hh]
    have ha := ho r.1 (e.2.val "HOSTNAME")
    cases hempty : null (e.2.val "ADDR") || looseEq (e.2.val "ADDR") unresolved with
    | false => exact compareHost_eq ho r.1 r.2 e
    | true =>
      by_cases hn : (o r.1).gethostbynamel (e.2.val "HOSTNAME") = []
      · rw [hn]
        exact compareHost_eq ho (r.1+1) r.2 e
      · rw [List.isEmpty_eq_false_iff.mpr hn,if_neg hn]
        exact ⟨rfl,(if_pos (empty_new hempty ha hn)).symm⟩

theorem fields_addr : KeyName "ADDR" ∧ hidden "ADDR" = false ∧ ("ADDR" : Str) ≠ "NAME" := by decide

theorem putAnswer_filed (hs : env.strg = true) {as : List Str} (ha : ∀ a ∈ as, Address a) {es fs : List (Str × Params)}
    {e : Str × Params} {w : World} (h : Filed "definitions" "network_dnshost.cfg" (es ++ e::fs) w) :
    Filed "definitions" "network_dnshost.cfg" (es ++ refreshed as e::fs) (putAnswer env as e w) := by
  unfold putAnswer refreshed
  split
  · exact (h.set hs fields_addr.1 fields_addr.2.1 fields_addr.2.2 (listed_read ha)).1
  · exact h

theorem putAnswer_others (as : List Str) (e : Str × Params) (w : World) {f : Str × Str}
    (hf : f ≠ hostFile) : (putAnswer env as e w).reg.get? f = w.reg.get? f := by
  unfold putAnswer
  split
  · exact Network.update_reg_ne env e.1 _ w hf.symm
  · rfl

theorem foldl_refresh (hs : env.strg = true) (ho : Answers o) {es fs : List (Str × Params)} {r : ℕ × Bool × World}
    (h : Filed "definitions" "network_dnshost.cfg" (es ++ fs) r.2.2) :
    Filed "definitions" "network_dnshost.cfg" (es ++ List.zipWith refreshed (answers o r.1 fs) fs)
      (fs.foldl (refreshHost env o) r).2.2 ∧
    ∀ f, f ≠ hostFile →
      (fs.foldl (refreshHost env o) r).2.2.reg.get? f = r.2.2.reg.get? f := by
  induction fs generalizing es r with
  | nil => exact ⟨h,fun _ _ => rfl⟩
  | cons e fs ih =>
    obtain ⟨hn,hw⟩ := @refreshHost_eq env o ho r e
    have hstep : Filed "definitions" "network_dnshost.cfg" ((es ++ [refreshed (asked o r.1 e).1 e]) ++ fs)
        (refreshHost env o r e).2.2 := by
      rw [hw,List.append_assoc]
      exact putAnswer_filed hs (asked_address ho r.1 e) h
    obtain ⟨hfiled,hothers⟩ := ih hstep
    rw [hn,List.append_assoc] at hfiled
    refine ⟨hfiled,fun f hf => ?_⟩
    rw [List.foldl_cons,hothers f hf,hw,putAnswer_others _ _ _ hf]

/-- The addresses of a host that resolves are those of the answer, and nothing else is different. -/
structure Follows (as : List Str) (e e' : Str × Params) : Prop where
  ident : e'.1 = e.1
  addrs : as ≠ [] → ∀ a, a ∈ addrs (e'.2.val "ADDR") ↔ a ∈ as
  unresolved : as = [] → e' = e
  others : ∀ k : Str, k ≠ "ADDR" → e'.2.get? k = e.2.get? k

/-- The answer does not leave out addresses without bringing in others. -/
def NotFewer (as : List Str) (e : Str × Params) : Prop :=
  as ≠ [] → as ⊆ addrs (e.2.val "ADDR") → addrs (e.2.val "ADDR") ⊆ as

theorem mem_addrs {a v : Str} : a ∈ addrs v ↔ a ∈ split ',' v ∧ a ≠ [] := by
  rw [addrs,List.mem_filter,decide_eq_true_iff]

theorem follows_iff {as : List Str} (ha : ∀ a ∈ as, Address a) (e : Str × Params) :
    Follows as e (refreshed as e) ↔ NotFewer as e := by
  unfold refreshed
  split
  · rename_i hx
    obtain ⟨a,hm,hn⟩ := hx
    refine iff_of_true ⟨rfl,fun hne b => ?_,fun he => absurd (he ▸ hm) List.not_mem_nil,fun k hk => ?_⟩ fun _ hsub =>
      absurd (mem_addrs.mp (hsub hm)).1 hn
    · rw [val_set_self,mem_addrs,split_listed ha hne]
      exact ⟨And.left,fun hb => ⟨hb,(ha b hb).1⟩⟩
    · exact OrdMap.get?_set_ne _ _ hk.symm
  · rename_i hx
    have hsub : as ⊆ addrs (e.2.val "ADDR") := fun a hm => mem_addrs.mpr
      ⟨by_contra fun hn => hx ⟨a,hm,hn⟩,(ha a hm).1⟩
    constructor
    · exact fun h hne _ b hb => (h.addrs hne b).mp hb
    · exact fun h => ⟨rfl,fun hne b => ⟨fun hb => h hne hsub hb,fun hb => hsub hb⟩,fun _ => rfl,fun _ _ => rfl⟩

/-- The definitions of the file, each with the answer to its last lookup. -/
def lookedUp (o : ℕ → Outside) (w : World) : List (List Str × (Str × Params)) :=
  (answers o 0 (entries "definitions" "network_dnshost.cfg" w).entries).zip
    (entries "definitions" "network_dnshost.cfg" w).entries

theorem answers_address (ho : Answers o) {n : ℕ} {es : List (Str × Params)} :
    ∀ as ∈ answers o n es, ∀ a ∈ as, Address a := by
  induction es generalizing n with
  | nil => exact fun _ h => absurd h List.not_mem_nil
  | cons e es ih => exact List.forall_mem_cons.mpr ⟨asked_address ho n e,ih⟩

theorem updateDnshost_spec (hs : env.strg = true) (ho : Answers o) {w : World}
    (hc : Coherent "definitions" "network_dnshost.cfg" w)
    (hcan : Canonical (entries "definitions" "network_dnshost.cfg" w)) :
    (entries "definitions" "network_dnshost.cfg" (updateDnshost env o w).2.2).entries =
      List.zipWith refreshed (answers o 0 (entries "definitions" "network_dnshost.cfg" w).entries)
        (entries "definitions" "network_dnshost.cfg" w).entries ∧
    ∀ f, f ≠ hostFile →
      (updateDnshost env o w).2.2.reg.get? f = w.reg.get? f := by
  have hg := iniTokenGet_fst env "definitions" "network_dnshost.cfg" hc
  have hreg := iniTokenGet_reg env "definitions" "network_dnshost.cfg" ∅ w
  have hold : Filed "definitions" "network_dnshost.cfg" ([] ++ (entries "definitions" "network_dnshost.cfg" w).entries)
      (iniTokenGet env "definitions" "network_dnshost.cfg" ∅ w).2 :=
    (Filed.mk hc hcan rfl).quiet hreg (iniTokenGet_coherent env _ _ hc)
  unfold updateDnshost
  dsimp only
  rw [hg]
  split
  · rename_i he
    rw [OrdMap.isEmpty_iff] at he
    rw [entries_congr _ _ hreg,he,hreg]
    exact ⟨rfl,fun _ _ => rfl⟩
  · obtain ⟨hfiled,hothers⟩ := @foldl_refresh env o hs ho [] _
      (0,false,(iniTokenGet env "definitions" "network_dnshost.cfg" ∅ w).2) hold
    refine ⟨hfiled.read,fun f hf => ?_⟩
    rw [hothers f hf,hreg]

theorem follows_all_iff (hs : env.strg = true) (ho : Answers o) {w : World}
    (hc : Coherent "definitions" "network_dnshost.cfg" w)
    (hcan : Canonical (entries "definitions" "network_dnshost.cfg" w)) :
    List.Forall₂ (fun x e' => Follows x.1 x.2 e') (lookedUp o w)
        (entries "definitions" "network_dnshost.cfg" (updateDnshost env o w).2.2).entries ↔
    ∀ x ∈ lookedUp o w, NotFewer x.1 x.2 := by
  rw [(updateDnshost_spec hs ho hc hcan).1,← List.map_uncurry_zip_eq_zipWith,List.forall₂_map_right_iff,lookedUp,
    List.forall₂_same]
  exact forall₂_congr fun x hx => follows_iff (answers_address ho _ (List.of_mem_zip hx).1) x.2

/-- After a refresh the definitions follow the answers, and the other files are as before, exactly when no answer leaves
out addresses without bringing in others. -/
theorem refresh_iff (hs : env.strg = true) (ho : Answers o) {w : World}
    (hc : Coherent "definitions" "network_dnshost.cfg" w)
    (hcan : Canonical (entries "definitions" "network_dnshost.cfg" w)) :
    (List.Forall₂ (fun x e' => Follows x.1 x.2 e') (lookedUp o w)
        (entries "definitions" "network_dnshost.cfg" (updateDnshost env o w).2.2).entries ∧
      ∀ f, f ≠ hostFile → (updateDnshost env o w).2.2.reg.get? f = w.reg.get? f) ↔
    ∀ x ∈ lookedUp o w, NotFewer x.1 x.2 := by
  rw [follows_all_iff hs ho hc hcan]
  exact and_iff_left (updateDnshost_spec hs ho hc hcan).2

instance (as : List Str) (e : Str × Params) : Decidable (NotFewer as e) := by
  unfold NotFewer
  infer_instance

theorem none_line (_ s : Str) (h : (none : Option Str) = some s) : '\n' ∉ s := by cases h

theorem none_names_line (_ : Kind) (f : Str → Str) (n : Str) (h : (none : Option (Str → Str)) = some f) : '\n' ∉ f n := by
  cases h

/-- The resolver always gives the same answer for one host, and knows no other. -/
def mailHost (as : List Str) (h : ∀ a ∈ as, '\n' ∉ a) (_ : ℕ) : Outside where
  gethostbynamel n := if n = ("mail.example.com" : Str) then as else []
  interfaceName _ := none
  icmptype _ := none
  objGetName _ := none
  ip2long _ := none
  host_line n a ha := by
    split at ha
    · exact h a ha
    · exact absurd ha List.not_mem_nil
  interface_line := none_line
  icmp_line := none_line
  names_line := none_names_line

theorem mailHost_answers {as : List Str} {h : ∀ a ∈ as, '\n' ∉ a} (ha : ∀ a ∈ as, Address a) : Answers (mailHost as h) := by
  intro _ host a hm
  change a ∈ (if host = ("mail.example.com" : Str) then as else []) at hm
  split at hm
  · exact ha a hm
  · exact absurd hm List.not_mem_nil

instance (a : Str) : Decidable (Address a) := by
  unfold Address
  infer_instance

def hostText : Str := "ID=a\nNAME=mail\nHOSTNAME=mail.example.com\nADDR=192.0.2.1,192.0.2.2\n"

def hostWorld : World := World.ofFiles [("definitions","network_dnshost.cfg",hostText)]

def movedMail : ℕ → Outside := mailHost [Str.of "192.0.2.1",Str.of "192.0.2.3"] (by decide)

theorem refresh_iff_moved : List.Forall₂ (fun x e' => Follows x.1 x.2 e') (lookedUp movedMail hostWorld)
      (entries "definitions" "network_dnshost.cfg" (updateDnshost noonEnv movedMail hostWorld).2.2).entries ∧
    ∀ f, f ≠ hostFile →
      (updateDnshost noonEnv movedMail hostWorld).2.2.reg.get? f = hostWorld.reg.get? f :=
  (@refresh_iff noonEnv movedMail rfl (mailHost_answers (by decide)) hostWorld (Or.inl rfl)
    (readText_canonical (by decide))).mpr (by decide)

def fewerMail : ℕ → Outside := mailHost [Str.of "192.0.2.1"] (by decide)

theorem gone_kept : ¬ ∀ (env : Env) (o : ℕ → Outside) (w : World), env.strg = true → Answers o →
    Coherent "definitions" "network_dnshost.cfg" w → Canonical (entries "definitions" "network_dnshost.cfg" w) →
    List.Forall₂ (fun x e' => Follows x.1 x.2 e') (lookedUp o w)
      (entries "definitions" "network_dnshost.cfg" (updateDnshost env o w).2.2).entries := by
  intro h
  have ho := @mailHost_answers [Str.of "192.0.2.1"] (by decide) (by decide)
  have hcan : Canonical (entries "definitions" "network_dnshost.cfg" hostWorld) := readText_canonical (by decide)
  have hf := (follows_all_iff rfl ho (Or.inl rfl) hcan).mp (h noonEnv fewerMail hostWorld rfl ho (Or.inl rfl) hcan)
  exact absurd hf (by decide)

end HostRefresh
end Mybox
