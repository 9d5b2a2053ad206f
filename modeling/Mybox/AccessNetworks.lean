import Mybox.DefinitionArrays
import Mybox.ProxyConfig

/-! Version 3.0: the networks that may use the web proxy. `cf_networks` turns the names that are configured into a list
of addresses and networks. -/
namespace Mybox
namespace AccessNetworks

open Php PolicyTables
open ProxyConfig (Net)

/-- The names of a list; empty ones are passed over. -/
def names (name : Str) : List Str := (split ',' (if ',' ∈ name then name else name ++ [','])).filter (· ≠ [])

/-- What a definition that is named itself adds to the list. -/
def ownTexts (e : Str → Str) : List Str := if toNumber (e "type") = 2 then [e "ip"] else []

def memberTexts (b : Str → Str) : List Str :=
  if toNumber (b "type") = 1 then [b "ip"]
  else if toNumber (b "type") = 2 then [b "ip" ++ ("/32" : Str)]
  else []

def nameTexts (defnet : Table) (namedev : OrdMap Str Str) (a : Str) : List Str :=
  if namedev.getD a [] ≠ [] then
    [if '/' ∈ namedev.getD a [] then namedev.getD a [] else namedev.getD a [] ++ ("/32" : Str)]
  else if given (defnet.getD a ∅) "name" then ownTexts (field (defnet.getD a ∅))
  else if given (defnet.getD a ∅) "group" then (members (defnet.getD a ∅)).flatMap fun b => memberTexts fun k => b.getD k []
  else []

def cfNetworks (defnet : Table) (namedev : OrdMap Str Str) (name : Str) : Str :=
  trim ((names name).flatMap fun a => (nameTexts defnet namedev a).flatMap (· ++ [' ']))

/-- The text is an address or a network with this address in it. -/
def Reads (w : Str) (a : BitVec 32) : Prop := ∃ n : Net, w = n.text ∧ n.Has a

/-- The address is in one of the entries of a list. -/
def Returned (out : Str) (a : BitVec 32) : Prop := ∃ w ∈ out.splitOnP regexSpace, Reads w a

def Black (w : Str) : Prop := ∀ c ∈ w, regexSpace c = false ∧ trimChar c = false

/-- The tables, where no member of a group is named as a column is, no field has a blank in it, and hosts are written
without a mask. -/
structure Tables where
  networks : List Network
  netGroups : List Group
  interfaces : List Interface
  net_members : ∀ g ∈ netGroups, ∀ a ∈ split ',' g.members, a ∉ reserved ["type","ip"]
  networks_black : ∀ d ∈ networks, Black d.ip
  interfaces_black : ∀ r ∈ interfaces, Black r.ip ∧ Black r.pref
  hosts : ∀ d ∈ networks, toNumber d.type = 2 → '/' ∉ d.ip

/-- The addresses of a network or of a host; other definitions have none. -/
def Holds (d : Network) (a : BitVec 32) : Prop := (toNumber d.type = 1 ∨ toNumber d.type = 2) ∧ Reads d.ip a

namespace Tables

variable (t : Tables)

def defnet : Table := defnetworkArray t.networks t.netGroups

def namedev : OrdMap Str Str := name2devArray t.interfaces

def cfNetworks (name : Str) : Str := AccessNetworks.cfNetworks t.defnet t.namedev name

def device (n : Str) : Option Str := deviceOf t.interfaces n

def network (n : Str) : Option Network := networkOf t.networks n

def Member (n m : Str) : Prop := ∃ g ∈ t.netGroups, g.name = n ∧ m ∈ split ',' g.members

/-- The addresses a name stands for; a group stands for what its members stand for. -/
inductive Denotes : Str → BitVec 32 → Prop
  | device {n v : Str} {a : BitVec 32} : t.device n = some v → Reads v a → Denotes n a
  | network {n : Str} {d : Network} {a : BitVec 32} : t.device n = none → t.network n = some d → Holds d a → Denotes n a
  | member {n m : Str} {a : BitVec 32} : t.device n = none → t.network n = none → t.Member n m → Denotes m a → Denotes n a

/-- A group with one object as its only member. -/
structure Alone (g n : Str) : Prop where
  named : g ≠ [] ∧ ',' ∉ g
  device : t.device g = none
  network : t.network g = none
  only : ∀ m, t.Member g m ↔ m = n

/-- The list has just the addresses of the objects that are named, and each of them gives what a group of it gives. -/
structure Exact (name : Str) : Prop where
  union : ∀ a, Returned (t.cfNetworks name) a ↔ ∃ n ∈ names name, t.Denotes n a
  alone : ∀ n ∈ names name, ∀ g, t.Alone g n → ∀ a, Returned (t.cfNetworks g) a ↔ Returned (t.cfNetworks n) a

/-- What is listed of a name: an interface address, a host, or the hosts and networks among the members of a group. -/
def Listed (n : Str) (a : BitVec 32) : Prop :=
  match t.device n with
  | some v => Reads v a
  | none =>
    match t.network n with
    | some d => toNumber d.type = 2 ∧ Reads d.ip a
    | none => ∃ m, t.Member n m ∧ ∃ d, t.network m = some d ∧ Holds d a

/-- What is not listed: a network that is named itself, and members of a group that are no definitions. -/
inductive Lost (n : Str) (a : BitVec 32) : Prop
  | network {d : Network} : t.device n = none → t.network n = some d → toNumber d.type = 1 → Reads d.ip a → Lost n a
  | member {m : Str} : t.device n = none → t.network n = none → t.Member n m →
      t.device m ≠ none ∨ t.network m = none → t.Denotes m a → Lost n a

/-- What is listed of a member that has the name of an interface address as well. -/
inductive Mistaken (n : Str) (a : BitVec 32) : Prop
  | member {m : Str} {d : Network} : t.device n = none → t.network n = none → t.Member n m → t.device m ≠ none →
      t.network m = some d → Holds d a → Mistaken n a

/-- What is lost is listed with another object of the list, what is mistaken is meant by another one, and an object that
is all a group has is listed as the group lists it. -/
structure Sound (name : Str) : Prop where
  lost : ∀ n ∈ names name, ∀ a, t.Lost n a → ∃ k ∈ names name, t.Listed k a
  mistaken : ∀ n ∈ names name, ∀ a, t.Mistaken n a → ∃ k ∈ names name, t.Denotes k a
  alone : ∀ n ∈ names name, ∀ g, t.Alone g n → ∀ a, (∃ d, t.network n = some d ∧ Holds d a) ↔ t.Listed n a

end Tables

theorem reads_nil (a : BitVec 32) : ¬ Reads [] a := by
  rintro ⟨n,hn,-⟩
  have hne : ∀ x : BitVec 32, Ipcalc.dotted x ≠ [] := fun x => null_false_iff.mp (Ipcalc.null_dotted x)
  rw [Net.text] at hn
  split at hn
  · exact hne _ hn.symm
  · exact absurd hn.symm (by simp)

/-- A mask of all bits is the same as none. -/
theorem reads_host {v : Str} (h : '/' ∉ v) (a : BitVec 32) : Reads (v ++ ("/32" : Str)) a ↔ Reads v a := by
  have h32 : ("/32" : Str) = '/'::Php.decimal 32 := by decide
  constructor
  · rintro ⟨n,hn,ha⟩
    rw [Net.text] at hn
    cases hl : n.len with
    | none =>
      rw [hl] at hn
      have hm : '/' ∈ v ++ ("/32" : Str) := List.mem_append_right v (by decide)
      rw [hn] at hm
      exact absurd hm (ProxyConfig.slash_dotted n.ip)
    | some p =>
      rw [hl,h32] at hn
      have ht : ∀ {x y : Str}, '/' ∉ x → (x ++ '/'::y).takeWhile (· ≠ '/') = x := fun hx => by
        rw [List.takeWhile_append_of_pos fun c hc => by simp; rintro rfl; exact hx hc]
        simp
      have hv : v = Ipcalc.dotted n.ip := by
        rw [← ht h,hn,ht (ProxyConfig.slash_dotted n.ip)]
      rw [hv] at hn
      have hp : 32 = p := Php.decimal_injective (List.cons.inj (List.append_cancel_left hn)).2
      subst hp
      refine ⟨⟨n.ip,none,by simp⟩,hv,?_⟩
      rw [Net.Has,hl] at ha
      exact ha
  · rintro ⟨n,hn,ha⟩
    have hl : n.len = none := by
      cases hl : n.len with
      | none => rfl
      | some p =>
        rw [hn,Net.text,hl] at h
        exact absurd (by simp) h
    refine ⟨⟨n.ip,some 32,by simp⟩,?_,?_⟩
    · rw [hn,h32,Net.text,Net.text,hl]
    · rw [Net.Has,hl] at ha
      exact ha

theorem returned_nil (a : BitVec 32) : ¬ Returned [] a := by
  rintro ⟨w,hw,hr⟩
  rw [List.splitOnP_nil,List.mem_singleton] at hw
  exact reads_nil a (hw ▸ hr)

theorem returned_append (x y : Str) (a : BitVec 32) : Returned (x ++ ' '::y) a ↔ Returned x a ∨ Returned y a := by
  rw [Returned,List.splitOnP_append_cons _ _ (by decide)]
  simp only [List.mem_append,or_and_right,exists_or]
  rfl

theorem returned_black {w : Str} (h : Black w) (a : BitVec 32) : Returned w a ↔ Reads w a := by
  rw [Returned,List.splitOnP_eq_singleton fun c hc => (h c hc).1]
  simp

theorem returned_blanks {l : Str} (h : ∀ c ∈ l, c = ' ') (s : Str) (a : BitVec 32) :
    Returned (l ++ s) a ↔ Returned s a := by
  induction l with
  | nil => rfl
  | cons c l ih =>
    rw [h c (by simp),← ih fun d hd => h d (by simp [hd])]
    have hr := returned_append [] (l ++ s) a
    rw [List.nil_append] at hr
    exact hr.trans (or_iff_right (returned_nil a))

theorem returned_trailing {r : Str} (h : ∀ c ∈ r, c = ' ') (s : Str) (a : BitVec 32) :
    Returned (s ++ r) a ↔ Returned s a := by
  cases r with
  | nil => rw [List.append_nil]
  | cons c r =>
    have hn : ¬ Returned r a := by
      have hb := returned_blanks (l := r) (fun d hd => h d (by simp [hd])) [] a
      rw [List.append_nil] at hb
      exact fun hr => returned_nil a (hb.mp hr)
    rw [h c (by simp),returned_append]
    exact or_iff_left hn

theorem returned_texts {ws : List Str} (h : ∀ w ∈ ws, Black w) (a : BitVec 32) :
    Returned (ws.flatMap (· ++ [' '])) a ↔ ∃ w ∈ ws, Reads w a := by
  induction ws with
  | nil => simpa using returned_nil a
  | cons w ws ih =>
    rw [List.flatMap_cons,List.append_assoc,List.singleton_append,returned_append,returned_black (h w (by simp)),
      ih fun x hx => h x (by simp [hx])]
    simp

theorem returned_trim {s : Str} (h : ∀ c ∈ s, trimChar c = true → c = ' ') (a : BitVec 32) :
    Returned (trim s) a ↔ Returned s a := by
  have hd : s.takeWhile trimChar ++ s.dropWhile trimChar = s := List.takeWhile_append_dropWhile
  have hr : (s.dropWhile trimChar).rdropWhile trimChar ++ (s.dropWhile trimChar).rtakeWhile trimChar =
      s.dropWhile trimChar := List.rdropWhile_append_rtakeWhile
  have hl : ∀ c ∈ s.takeWhile trimChar, c = ' ' := fun c hc =>
    h c ((List.takeWhile_prefix _).subset hc) (List.mem_takeWhile_imp hc)
  have ht : ∀ c ∈ (s.dropWhile trimChar).rtakeWhile trimChar, c = ' ' := fun c hc =>
    h c ((List.dropWhile_suffix _).subset ((List.rtakeWhile_suffix _ _).subset hc)) (List.mem_rtakeWhile_imp hc)
  calc
    Returned (trim s) a ↔ Returned ((s.dropWhile trimChar).rdropWhile trimChar) a := Iff.rfl
    _ ↔ Returned (s.dropWhile trimChar) a := by
      conv_rhs => rw [← hr]
      exact (returned_trailing ht _ a).symm
    _ ↔ Returned s a := by
      conv_rhs => rw [← hd]
      exact (returned_blanks hl _ a).symm

theorem black_append {v w : Str} (hv : Black v) (hw : Black w) : Black (v ++ w) :=
  fun c hc => (List.mem_append.mp hc).elim (hv c) (hw c)

theorem black_mask : Black "/32" := by
  unfold Black
  decide

namespace Tables

variable (t : Tables)

theorem built : Built networkColumns ["type","ip"] t.network (t.netGroups.map Group.name).reverse
    (fun n => takenOver (fun a => (t.network a).isSome) n [] t.netGroups) t.defnet :=
  networkLayout.built Network.name (by simp) t.networks t.netGroups t.net_members

theorem device_black {n v : Str} (h : t.device n = some v) : Black v := by
  refine name2dev_all (fun r hr => ?_) (Option.filter_eq_some_iff.mp h).1
  obtain ⟨hi,hp⟩ := t.interfaces_black r hr
  obtain ⟨hn,hb⟩ := NetCalc.calc_chars r.ip r.pref
  refine ⟨hi,black_append (fun c hc => ProxyConfig.plainChar_black (Or.inl (hn c hc))) ?_,
    fun c hc => ProxyConfig.plainChar_black (hb c hc)⟩
  intro c hc
  rcases List.mem_cons.mp hc with rfl | hc
  · decide
  · exact hp c hc

theorem column_some {n : Str} {d : Network} (h : t.network n = some d) :
    columnOf networkColumns t.network n "type" = d.type ∧ columnOf networkColumns t.network n "ip" = d.ip := by
  rw [columnOf,columnOf,h]
  exact ⟨rfl,rfl⟩

theorem column_none {n : Str} (h : t.network n = none) : columnOf networkColumns t.network n "type" = [] := by
  rw [columnOf,h]
  rfl

theorem own_iff {n w : Str} {d : Network} (h : t.network n = some d) :
    w ∈ ownTexts (columnOf networkColumns t.network n) ↔ toNumber d.type = 2 ∧ w = d.ip := by
  obtain ⟨ht,hi⟩ := t.column_some h
  rw [ownTexts,ht,hi]
  by_cases h2 : toNumber d.type = 2 <;> simp [h2]

theorem member_none {n w : Str} (h : t.network n = none) : w ∉ memberTexts (columnOf networkColumns t.network n) := by
  rw [memberTexts,t.column_none h,if_neg (by decide),if_neg (by decide)]
  exact List.not_mem_nil

theorem member_black {n w : Str} {d : Network} (h : t.network n = some d)
    (hw : w ∈ memberTexts (columnOf networkColumns t.network n)) : Black w := by
  obtain ⟨ht,hi⟩ := t.column_some h
  have hb := t.networks_black d (collect_mem h).1
  rw [memberTexts,ht,hi] at hw
  split at hw
  · rwa [List.mem_singleton.mp hw]
  · split at hw
    · rw [List.mem_singleton.mp hw]
      exact black_append hb black_mask
    · exact absurd hw List.not_mem_nil

theorem member_reads {n : Str} {d : Network} (h : t.network n = some d) (a : BitVec 32) :
    (∃ w ∈ memberTexts (columnOf networkColumns t.network n), Reads w a) ↔ Holds d a := by
  obtain ⟨ht,hi⟩ := t.column_some h
  rw [memberTexts,ht,hi,Holds]
  by_cases h1 : toNumber d.type = 1
  · simp [h1]
  · by_cases h2 : toNumber d.type = 2
    · rw [if_neg h1,if_pos h2]
      simp [h2,reads_host (t.hosts d (collect_mem h).1 h2)]
    · simp [h1,h2]

theorem device_eq (n : Str) : t.device n = if t.namedev.getD n [] = [] then none else some (t.namedev.getD n []) :=
  deviceOf_eq t.interfaces n

/-- The texts of a name, by what it is the name of. -/
theorem nameTexts_iff {n : Str} (hn : n ≠ []) (w : Str) : w ∈ nameTexts t.defnet t.namedev n ↔
    match t.device n with
    | some v => w = if '/' ∈ v then v else v ++ ("/32" : Str)
    | none =>
      match t.network n with
      | some d => toNumber d.type = 2 ∧ w = d.ip
      | none => ∃ m, t.Member n m ∧ ∃ d, t.network m = some d ∧ w ∈ memberTexts (columnOf networkColumns t.network m) := by
  rw [nameTexts,device_eq]
  by_cases hv : t.namedev.getD n [] = []
  · have hb := t.built.mem_matches networkLayout hn ownTexts memberTexts
      (fun u v h => by rw [ownTexts,ownTexts,h _ (by simp),h _ (by simp)])
      (fun u v h => by rw [memberTexts,memberTexts,h _ (by simp),h _ (by simp)]) w
      (fun a ha => takenOver_unreserved t.net_members ha)
    rw [if_neg (not_not.mpr hv),if_pos hv]
    refine hb.trans ?_
    cases ho : t.network n with
    | some d => exact t.own_iff ho
    | none =>
      rw [Option.isSome_none,if_neg (by decide)]
      constructor
      · rintro ⟨-,m,hm,hw⟩
        obtain ⟨d,hd⟩ : ∃ d, t.network m = some d :=
          Option.ne_none_iff_exists'.mp fun h => t.member_none h hw
        exact ⟨m,mem_takenOver hm,d,hd,hw⟩
      · rintro ⟨m,⟨g,hg,rfl,hm⟩,d,hd,hw⟩
        exact ⟨List.mem_reverse.mpr (List.mem_map_of_mem hg),m,takenOver_of_mem [] hg rfl hm (by simp [hd]),hw⟩
  · rw [if_pos hv,if_neg hv,List.mem_singleton]

theorem nameTexts_black {n w : Str} (hn : n ≠ []) (h : w ∈ nameTexts t.defnet t.namedev n) : Black w := by
  have hw := (t.nameTexts_iff hn w).mp h
  cases hd : t.device n with
  | some v =>
    rw [hd] at hw
    dsimp only at hw
    rw [hw]
    split
    · exact t.device_black hd
    · exact black_append (t.device_black hd) black_mask
  | none =>
    rw [hd] at hw
    cases ho : t.network n with
    | some d =>
      rw [ho] at hw
      exact hw.2 ▸ t.networks_black d (collect_mem ho).1
    | none =>
      rw [ho] at hw
      obtain ⟨m,-,d,hd,hm⟩ := hw
      exact t.member_black hd hm

theorem listed_iff {n : Str} (hn : n ≠ []) (a : BitVec 32) :
    (∃ w ∈ nameTexts t.defnet t.namedev n, Reads w a) ↔ t.Listed n a := by
  simp only [t.nameTexts_iff hn,Listed]
  cases hd : t.device n with
  | some v =>
    dsimp only
    rw [exists_eq_left]
    split
    · rfl
    · exact reads_host ‹_› a
  | none =>
    cases t.network n with
    | some d =>
      dsimp only
      constructor
      · rintro ⟨w,⟨h2,rfl⟩,hr⟩
        exact ⟨h2,hr⟩
      · rintro ⟨h2,hr⟩
        exact ⟨d.ip,⟨h2,rfl⟩,hr⟩
    | none =>
      dsimp only
      constructor
      · rintro ⟨w,⟨m,hm,d,ho,hw⟩,hr⟩
        exact ⟨m,hm,d,ho,(t.member_reads ho a).mp ⟨w,hw,hr⟩⟩
      · rintro ⟨m,hm,d,ho,hh⟩
        obtain ⟨w,hw,hr⟩ := (t.member_reads ho a).mpr hh
        exact ⟨w,⟨m,hm,d,ho,hw⟩,hr⟩

/-- The list has what is listed of its names. -/
theorem returned_iff (name : Str) (a : BitVec 32) :
    Returned (t.cfNetworks name) a ↔ ∃ n ∈ names name, t.Listed n a := by
  have hne : ∀ n ∈ names name, n ≠ [] := fun n hn => by simpa using (List.mem_filter.mp hn).2
  have hw : ∀ w ∈ (names name).flatMap (nameTexts t.defnet t.namedev), Black w := by
    intro w hw
    obtain ⟨n,hn,hw⟩ := List.mem_flatMap.mp hw
    exact t.nameTexts_black (hne n hn) hw
  have he : (names name).flatMap (fun n => (nameTexts t.defnet t.namedev n).flatMap (· ++ [' '])) =
      ((names name).flatMap (nameTexts t.defnet t.namedev)).flatMap (· ++ [' ']) := by rw [List.flatMap_assoc]
  have hb : ∀ c ∈ ((names name).flatMap (nameTexts t.defnet t.namedev)).flatMap (· ++ [' ']),
      trimChar c = true → c = ' ' := by
    intro c hc ht
    obtain ⟨w,hm,hc⟩ := List.mem_flatMap.mp hc
    rcases List.mem_append.mp hc with hc | hc
    · exact absurd ht (by rw [(hw w hm c hc).2]; decide)
    · exact List.mem_singleton.mp hc
  rw [cfNetworks,AccessNetworks.cfNetworks,he,returned_trim hb,returned_texts hw]
  constructor
  · rintro ⟨w,hw,hr⟩
    obtain ⟨n,hn,hw⟩ := List.mem_flatMap.mp hw
    exact ⟨n,hn,(t.listed_iff (hne n hn) a).mp ⟨w,hw,hr⟩⟩
  · rintro ⟨n,hn,hl⟩
    obtain ⟨w,hw,hr⟩ := (t.listed_iff (hne n hn) a).mpr hl
    exact ⟨w,List.mem_flatMap.mpr ⟨n,hn,hw⟩,hr⟩

/-- What a name stands for, by what it is the name of. -/
theorem denotes_iff (n : Str) (a : BitVec 32) : t.Denotes n a ↔
    match t.device n with
    | some v => Reads v a
    | none =>
      match t.network n with
      | some d => Holds d a
      | none => ∃ m, t.Member n m ∧ t.Denotes m a := by
  constructor
  · intro h
    cases h with
    | device hv hr => rwa [hv]
    | network hd ho hh => rwa [hd,ho]
    | member hd ho hm hh => rw [hd,ho]; exact ⟨_,hm,hh⟩
  · intro h
    cases hd : t.device n with
    | some v =>
      rw [hd] at h
      exact .device hd h
    | none =>
      cases ho : t.network n with
      | some d =>
        rw [hd,ho] at h
        exact .network hd ho h
      | none =>
        rw [hd,ho] at h
        obtain ⟨m,hm,hh⟩ := h
        exact .member hd ho hm hh

/-- What is meant is listed or lost. -/
theorem listed_or_lost {n : Str} {a : BitVec 32} (h : t.Denotes n a) : t.Listed n a ∨ t.Lost n a := by
  rw [denotes_iff] at h
  rw [Listed]
  cases hd : t.device n with
  | some v =>
    rw [hd] at h
    exact Or.inl h
  | none =>
    cases ho : t.network n with
    | some d =>
      rw [hd,ho] at h
      obtain ⟨h1 | h2,hr⟩ := h
      · exact Or.inr (.network hd ho h1 hr)
      · exact Or.inl ⟨h2,hr⟩
    | none =>
      rw [hd,ho] at h
      obtain ⟨m,hm,hh⟩ := h
      by_cases hx : t.device m ≠ none ∨ t.network m = none
      · exact Or.inr (.member hd ho hm hx hh)
      · obtain ⟨hdm,hom⟩ := not_or.mp hx
        obtain ⟨d,hod⟩ := Option.ne_none_iff_exists'.mp hom
        have hh' := (t.denotes_iff m a).mp hh
        rw [not_not.mp hdm,hod] at hh'
        exact Or.inl ⟨m,hm,d,hod,hh'⟩

theorem lost_denotes {n : Str} {a : BitVec 32} (h : t.Lost n a) : t.Denotes n a := by
  cases h with
  | network hd ho h1 hr => exact .network hd ho ⟨Or.inl h1,hr⟩
  | member hd ho hm _ hh => exact .member hd ho hm hh

theorem denotes_or_mistaken {n : Str} {a : BitVec 32} (h : t.Listed n a) : t.Denotes n a ∨ t.Mistaken n a := by
  rw [Listed] at h
  rw [denotes_iff]
  cases hd : t.device n with
  | some v =>
    rw [hd] at h
    exact Or.inl h
  | none =>
    cases ho : t.network n with
    | some d =>
      rw [hd,ho] at h
      exact Or.inl ⟨Or.inr h.1,h.2⟩
    | none =>
      rw [hd,ho] at h
      obtain ⟨m,hm,d,hod,hh⟩ := h
      by_cases hdm : t.device m = none
      · exact Or.inl ⟨m,hm,.network hdm hod hh⟩
      · exact Or.inr (.member hd ho hm hdm hod hh)

theorem mistaken_listed {n : Str} {a : BitVec 32} (h : t.Mistaken n a) : t.Listed n a := by
  cases h with
  | member hd ho hm _ hod hh =>
    rw [Listed,hd,ho]
    exact ⟨_,hm,_,hod,hh⟩

theorem names_single {n : Str} (hne : n ≠ []) (hc : ',' ∉ n) : names n = [n] := by
  have hs : split ',' (n ++ [',']) = [n,[]] := by
    have hi : n ++ [','] = List.intercalate [','] [n,[]] := by simp
    rw [split,hi]
    exact List.splitOn_intercalate ',' (by simpa using hc) (by simp)
  rw [names,if_neg hc,hs]
  simp [hne]

theorem names_mem {name n : Str} (h : n ∈ names name) : n ≠ [] ∧ ',' ∉ n := by
  obtain ⟨hm,hn⟩ := List.mem_filter.mp h
  exact ⟨by simpa using hn,fun hc => (LineText.mem_splitOn ',' hm hc).2 rfl⟩

theorem Alone.listed {g n : Str} (h : t.Alone g n) (a : BitVec 32) :
    t.Listed g a ↔ ∃ d, t.network n = some d ∧ Holds d a := by
  rw [Listed,h.device,h.network]
  simp only [h.only]
  constructor
  · rintro ⟨m,rfl,hm⟩
    exact hm
  · exact fun hm => ⟨n,rfl,hm⟩

/-- The networks are exact just for the lists that are sound. -/
theorem exact_iff_sound (name : Str) : t.Exact name ↔ t.Sound name := by
  have hone : ∀ n, n ≠ [] → ',' ∉ n → ∀ a, Returned (t.cfNetworks n) a ↔ t.Listed n a := by
    intro n hne hc a
    rw [returned_iff,names_single hne hc]
    simp
  constructor
  · rintro ⟨hu,ha⟩
    refine ⟨?_,?_,?_⟩
    · intro n hn a hl
      exact (t.returned_iff name a).mp ((hu a).mpr ⟨n,hn,t.lost_denotes hl⟩)
    · intro n hn a hm
      exact (hu a).mp ((t.returned_iff name a).mpr ⟨n,hn,t.mistaken_listed hm⟩)
    · intro n hn g hg a
      obtain ⟨hne,hc⟩ := names_mem hn
      rw [← hg.listed,← hone g hg.named.1 hg.named.2,ha n hn g hg a,hone n hne hc]
  · rintro ⟨hl,hm,ha⟩
    refine ⟨fun a => ?_,?_⟩
    · rw [returned_iff]
      constructor
      · rintro ⟨n,hn,h⟩
        rcases t.denotes_or_mistaken h with h | h
        · exact ⟨n,hn,h⟩
        · exact hm n hn a h
      · rintro ⟨n,hn,h⟩
        rcases t.listed_or_lost h with h | h
        · exact ⟨n,hn,h⟩
        · exact hl n hn a h
    · intro n hn g hg a
      obtain ⟨hne,hc⟩ := names_mem hn
      rw [hone g hg.named.1 hg.named.2,hg.listed,ha n hn g hg a,hone n hne hc]

end Tables

def lanTables : Tables where
  networks := [⟨"Lan","1","10.0.0.0/24"⟩]
  netGroups := []
  interfaces := []
  net_members := by simp
  networks_black := by
    unfold Black
    decide
  interfaces_black := by simp
  hosts := by decide +kernel

/-- A network that is named itself is not in the list. -/
theorem network_lost : ¬ lanTables.Exact "Lan," := by
  intro h
  have hr : Reads "10.0.0.0/24" 0x0A000000#32 := ⟨⟨0x0A000000#32,some 24,by simp⟩,by decide,rfl⟩
  have hd : lanTables.Denotes "Lan" 0x0A000000#32 :=
    .network (d := ⟨"Lan","1","10.0.0.0/24"⟩) rfl rfl ⟨Or.inl (by decide +kernel),hr⟩
  have hn : ("Lan" : Str) ∈ names "Lan," := by decide
  have he : lanTables.cfNetworks "Lan," = [] := by decide +kernel
  have hx := (h.union _).mpr ⟨_,hn,hd⟩
  rw [he] at hx
  exact returned_nil _ hx

end AccessNetworks
end Mybox
