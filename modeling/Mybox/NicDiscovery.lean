import Mathlib.Data.List.Dedup
import Mybox.DefaultGateway
import Mybox.EntryPasses
import Mybox.PolicyAdd

/-! Hardware discovery. `_UPDATE_NIC_INFO` goes through a copy of the interfaces twice, and gives the first entry of each
listed device its vendor and its hardware address; devices without an entry get one in between. A second run finds
everything in place. -/
namespace Mybox
namespace NicDiscovery

open Php RegistryFormat Registry References Interfaces

variable (env : Env)

def updateNicInfo (info hwaddr : Str) (w : World) : Option World :=
  (updateNicDevice env info w).map (updateNicHwaddr env hwaddr)

def deviceOf (p : Params) : Str := p.val "DEVICE"

section Pass

variable (key : Str) (tab : Params)

def pass : List Str → List (Str × Params) → List (Str × Params)
  | _, [] => []
  | seen, e::es =>
    (e.1,if tab.val (deviceOf e.2) = [] ∨ deviceOf e.2 ∈ seen then e.2 else e.2.set key (tab.val (deviceOf e.2))) ::
      pass (deviceOf e.2::seen) es

/-- The device of each entry and its value under the key. -/
def shownAs (es : List (Str × Params)) : List (Str × Str) := es.map fun e => (deviceOf e.2,e.2.val key)

/-- The entries of the listed devices have the listed values. -/
def Told (es : List (Str × Params)) : Prop := ∀ x ∈ shownAs key es, tab.val x.1 ≠ [] → x.2 = tab.val x.1

/-- An entry whose listed device one before it has already has the listed value. -/
def SharedTold (es : List (Str × Params)) : Prop :=
  (shownAs key es).Pairwise fun x y => x.1 = y.1 → tab.val y.1 ≠ [] → y.2 = tab.val y.1

instance (es : List (Str × Params)) : Decidable (SharedTold key tab es) := by
  unfold SharedTold
  infer_instance

variable {key tab}

theorem pass_forall₂ (seen : List Str) (es : List (Str × Params)) : List.Forall₂ (fun e x => x.1 = e.1 ∧
    (x.2 = e.2 ∨ tab.val (deviceOf e.2) ≠ [] ∧ x.2 = e.2.set key (tab.val (deviceOf e.2))))
    es (pass key tab seen es) := by
  induction es generalizing seen with
  | nil => exact .nil
  | cons e es ih =>
    refine .cons ⟨rfl,?_⟩ (ih _)
    dsimp only
    split
    · exact Or.inl rfl
    · rename_i h
      exact Or.inr ⟨fun hn => h (Or.inl hn),rfl⟩

theorem pass_keys (seen : List Str) (es : List (Str × Params)) : (pass key tab seen es).map Prod.fst = es.map Prod.fst := by
  induction es generalizing seen with
  | nil => rfl
  | cons e es ih => rw [pass,List.map_cons,List.map_cons,ih]

theorem shownAs_pass {k : Str} (hd : key ≠ "DEVICE") (hk : key ≠ k) (seen : List Str) (es : List (Str × Params)) :
    shownAs k (pass key tab seen es) = shownAs k es := by
  induction es generalizing seen with
  | nil => rfl
  | cons e es ih =>
    have hi := ih (deviceOf e.2::seen)
    unfold shownAs at hi ⊢
    rw [pass,List.map_cons,List.map_cons,hi]
    dsimp only
    split
    · rfl
    · rw [deviceOf,val_set_ne _ _ hd,val_set_ne _ _ hk]
      rfl

theorem devices_shownAs (k : Str) (es : List (Str × Params)) :
    (shownAs k es).map Prod.fst = es.map fun e => deviceOf e.2 := by
  rw [shownAs,List.map_map]
  rfl

theorem shownAs_cons (k : Str) (e : Str × Params) (es : List (Str × Params)) :
    shownAs k (e::es) = (deviceOf e.2,e.2.val k)::shownAs k es := rfl

theorem told_cons (e : Str × Params) (es : List (Str × Params)) : Told key tab (e::es) ↔
    (tab.val (deviceOf e.2) ≠ [] → e.2.val key = tab.val (deviceOf e.2)) ∧ Told key tab es := by
  rw [Told,shownAs_cons,List.forall_mem_cons]
  rfl

theorem told_append (es fs : List (Str × Params)) : Told key tab (es ++ fs) ↔ Told key tab es ∧ Told key tab fs := by
  rw [Told,shownAs,List.map_append,List.forall_mem_append]
  rfl

/-- When a pass leaves every entry of a listed device with its value. -/
theorem told_pass_iff (hd : key ≠ "DEVICE") (seen : List Str) (es : List (Str × Params)) :
    Told key tab (pass key tab seen es) ↔
    (∀ x ∈ shownAs key es, x.1 ∈ seen → tab.val x.1 ≠ [] → x.2 = tab.val x.1) ∧ SharedTold key tab es := by
  induction es generalizing seen with
  | nil => simp [pass,Told,SharedTold,shownAs]
  | cons e es ih =>
    have hdev : deviceOf (e.2.set key (tab.val (deviceOf e.2))) = deviceOf e.2 := val_set_ne _ _ hd
    rw [pass,told_cons,ih]
    unfold SharedTold
    rw [shownAs_cons,List.forall_mem_cons,List.pairwise_cons]
    dsimp only
    by_cases hl : tab.val (deviceOf e.2) = []
    · rw [if_pos (Or.inl hl)]
      constructor
      · rintro ⟨-,h,hp⟩
        exact ⟨⟨fun _ hn => absurd hl hn,fun x hx hs => h x hx (List.mem_cons_of_mem _ hs)⟩,
          fun x hx he hn => absurd (he ▸ hl) hn,hp⟩
      · rintro ⟨⟨-,h⟩,-,hp⟩
        refine ⟨fun hn => absurd hl hn,fun x hx hs hn => ?_,hp⟩
        rcases List.mem_cons.mp hs with he | hs
        · exact absurd (he ▸ hl) hn
        · exact h x hx hs hn
    · by_cases hs : deviceOf e.2 ∈ seen
      · rw [if_pos (Or.inr hs)]
        constructor
        · rintro ⟨h₁,h,hp⟩
          exact ⟨⟨fun _ => h₁,fun x hx hs => h x hx (List.mem_cons_of_mem _ hs)⟩,
            fun x hx he => h x hx (by rw [← he]; exact List.mem_cons_self),hp⟩
        · rintro ⟨⟨h₁,h⟩,-,hp⟩
          refine ⟨h₁ hs,fun x hx hm => ?_,hp⟩
          rcases List.mem_cons.mp hm with he | hm
          · exact h x hx (he ▸ hs)
          · exact h x hx hm
      · rw [if_neg (not_or.mpr ⟨hl,hs⟩),hdev,val_set_self]
        constructor
        · rintro ⟨-,h,hp⟩
          exact ⟨⟨fun hm => absurd hm hs,fun x hx hm => h x hx (List.mem_cons_of_mem _ hm)⟩,
            fun x hx he => h x hx (by rw [← he]; exact List.mem_cons_self),hp⟩
        · rintro ⟨⟨-,h⟩,hq,hp⟩
          refine ⟨fun _ => rfl,fun x hx hm => ?_,hp⟩
          rcases List.mem_cons.mp hm with he | hm
          · exact hq x hx he.symm
          · exact h x hx hm

theorem pass_told (seen : List Str) {es : List (Str × Params)} (h : Told key tab es) : pass key tab seen es = es := by
  induction es generalizing seen with
  | nil => rfl
  | cons e es ih =>
    obtain ⟨he,hes⟩ := (told_cons e es).mp h
    rw [pass,ih _ hes]
    split
    · rfl
    · rename_i hn
      have hv := he fun hl => hn (Or.inl hl)
      have hg : e.2.get? key = some (tab.val (deviceOf e.2)) := by
        rw [Params.val,OrdMap.getD] at hv
        cases hg : e.2.get? key with
        | none =>
          rw [hg] at hv
          exact absurd (Or.inl hv.symm) hn
        | some v =>
          rw [hg] at hv
          exact congrArg some hv
      rw [OrdMap.set_get?_self hg]

end Pass

def Listing (tab : Params) : Prop := ReadTable tab ∧ ∀ x ∈ tab.entries, x.1 ≠ [] ∧ x.2 ≠ []

theorem nicTable_listing (info : Str) : Listing (nicTable info) := by
  refine ⟨nicTable_read info,?_⟩
  have fold : ∀ (ls : List Str) (t : Params), (∀ x ∈ t.entries, x.1 ≠ [] ∧ x.2 ≠ []) →
      ∀ x ∈ (ls.foldl (fun m l =>
        let p := splitParam l
        if null p.1 || null p.2 then m else m.set p.1 p.2) t).entries, x.1 ≠ [] ∧ x.2 ≠ [] := by
    intro ls
    induction ls with
    | nil => exact fun _ h => h
    | cons l ls ih =>
      intro t ht
      refine ih _ ?_
      dsimp only
      split
      · exact ht
      · rename_i h
        simp only [Bool.or_eq_true,not_or,null_iff] at h
        intro x hx
        rcases OrdMap.mem_set hx with rfl | hx
        · exact h
        · exact ht x hx
  exact fold _ ∅ fun x hx => absurd hx (by simp)

theorem Listing.val {tab : Params} {d v : Str} (hm : (d,v) ∈ tab.entries) : tab.val d = v := by
  rw [Params.val,OrdMap.getD,OrdMap.get?_eq_some.mpr hm]
  rfl

theorem Listing.mem {tab : Params} {d : Str} (h : tab.val d ≠ []) : (d,tab.val d) ∈ tab.entries := by
  rw [Params.val,OrdMap.getD] at h ⊢
  cases hg : tab.get? d with
  | none =>
    rw [hg] at h
    exact absurd rfl h
  | some v => exact OrdMap.get?_eq_some.mp hg

theorem Listing.nil {tab : Params} (h : Listing tab) : tab.val [] = [] := by
  by_contra hn
  exact (h.2 _ (Listing.mem hn)).1 rfl

def left (tab : Params) (seen : List Str) : Params := tab.select fun d _ => decide (d ∉ seen)

theorem left_nil (tab : Params) : left tab [] = tab := by
  apply OrdMap.ext
  exact List.filter_eq_self.mpr fun x _ => by simp

theorem left_val (tab : Params) (seen : List Str) (d : Str) :
    (left tab seen).val d = if d ∈ seen then [] else tab.val d := by
  have hl : (left tab seen).get? d = if d ∈ seen then none else tab.get? d :=
    OrdMap.get?_select (fun d => decide (d ∉ seen)) tab d |>.trans (by simp)
  rw [Params.val,OrdMap.getD,hl]
  split <;> rfl

theorem left_erase (tab : Params) (seen : List Str) (d : Str) : (left tab seen).erase d = left tab (d::seen) := by
  apply OrdMap.ext
  change (tab.entries.filter _).filter _ = tab.entries.filter _
  rw [List.filter_filter]
  refine List.filter_congr fun x _ => ?_
  simp only [List.mem_cons,not_or,Bool.decide_and]

theorem left_cons {tab : Params} (h : Listing tab) {seen : List Str} {d : Str} (hd : tab.val d = [] ∨ d ∈ seen) :
    left tab (d::seen) = left tab seen := by
  apply OrdMap.ext
  refine List.filter_congr fun x hx => ?_
  have hne : x.1 = d → d ∈ seen := by
    rintro rfl
    exact hd.resolve_left fun hn => (h.2 x hx).2 ((Listing.val hx).symm.trans hn)
  simp only [List.mem_cons,not_or]
  exact decide_eq_decide.mpr ⟨And.right,fun hn => ⟨fun he => hn (he ▸ hne he),hn⟩⟩

abbrev Holds (es : List (Str × Params)) (w : World) : Prop := Filed "network" "eth.cfg" es w

variable {env}

/-- One entry after the other, a pass sets what it should, and takes the devices it meets off the list. -/
theorem Holds.pass (hs : env.strg = true) {key : Str} (hk : KeyName key) (hh : hidden key = false) (hn : key ≠ "NAME")
    {tab : Params} (ht : Listing tab) {a es : List (Str × Params)} {s : List Str} {r : Params × World}
    (hr : r.1 = left tab s) (h : Holds (a ++ es) r.2) : ∃ q,
    es.foldl (fun r e =>
      let dev := e.2.val "DEVICE"
      if null e.1 || null dev || null (r.1.val dev) then r
      else (r.1.erase dev,
        (iniTokenUpdate env "network" "eth.cfg" e.1 (e.2.set key (r.1.val dev)) r.2).2)) r = q ∧
      Holds (a ++ NicDiscovery.pass key tab s es) q.2 ∧
      q.1 = left tab ((es.map fun e => deviceOf e.2).reverse ++ s) ∧
      ((∀ e ∈ es, tab.val (deviceOf e.2) = [] ∨ deviceOf e.2 ∈ s) →
        text "network" "eth.cfg" q.2 = text "network" "eth.cfg" r.2) ∧
      (LineEnded (text "network" "eth.cfg" r.2) ∨
          (∃ e ∈ es, ¬(tab.val (deviceOf e.2) = [] ∨ deviceOf e.2 ∈ s)) →
        LineEnded (text "network" "eth.cfg" q.2)) := by
  induction es generalizing a s r with
  | nil =>
    refine ⟨r,rfl,h,hr,fun _ => rfl,?_⟩
    rintro (hl | ⟨e,he,-⟩)
    · exact hl
    · exact absurd he List.not_mem_nil
  | cons e es ih =>
    have he : EntryOk e.1 e.2 := h.entry e (by simp)
    rw [List.foldl_cons,List.map_cons,List.reverse_cons,List.append_assoc]
    have hval : r.1.val (deviceOf e.2) = if deviceOf e.2 ∈ s then [] else tab.val (deviceOf e.2) := by
      rw [hr,left_val]
    have hcond : (null e.1 || null (deviceOf e.2) || null (r.1.val (deviceOf e.2))) = true ↔
        tab.val (deviceOf e.2) = [] ∨ deviceOf e.2 ∈ s := by
      rw [Bool.or_eq_true,Bool.or_eq_true,null_iff,null_iff,null_iff,hval]
      constructor
      · rintro ((hnil | hnil) | hnil)
        · exact absurd hnil he.ident.ne
        · exact Or.inl (hnil ▸ ht.nil)
        · split at hnil
          · exact Or.inr ‹_›
          · exact Or.inl hnil
      · rintro (hnil | hm)
        · exact Or.inr (by rw [hnil,ite_self])
        · exact Or.inr (if_pos hm)
    by_cases hc : tab.val (deviceOf e.2) = [] ∨ deviceOf e.2 ∈ s
    · have hstep : Holds ((a ++ [e]) ++ es) r.2 := by
        rw [List.append_assoc]
        exact h
      obtain ⟨q,hq,hh',hl,hsame,hended⟩ := ih (s:=deviceOf e.2::s) (hr.trans (left_cons ht hc).symm) hstep
      have hiff : ∀ x : Str × Params, (tab.val (deviceOf x.2) = [] ∨ deviceOf x.2 ∈ deviceOf e.2::s) ↔
          (tab.val (deviceOf x.2) = [] ∨ deviceOf x.2 ∈ s) := by
        intro x
        rw [List.mem_cons]
        constructor
        · rintro (hx | hx | hx)
          · exact Or.inl hx
          · exact hx ▸ hc
          · exact Or.inr hx
        · exact Or.imp_right Or.inr
      refine ⟨q,?_,?_,hl,?_,?_⟩
      · exact (congrArg (fun r => List.foldl _ r es) (if_pos (hcond.mpr hc))).trans hq
      · rw [NicDiscovery.pass,if_pos hc]
        rwa [List.append_assoc] at hh'
      · exact fun hall => hsame fun x hx => (hiff x).mpr (hall x (List.mem_cons_of_mem _ hx))
      · refine fun hany => hended (hany.imp_right ?_)
        rintro ⟨x,hx,hn⟩
        rcases List.mem_cons.mp hx with rfl | hx
        · exact absurd hc hn
        · exact ⟨x,hx,fun hh => hn ((hiff x).mp hh)⟩
    · obtain ⟨hl,hm⟩ := not_or.mp hc
      rw [if_neg hm] at hval
      obtain ⟨hset,hline⟩ := h.set hs hk hh hn (ht.1.val hl)
      have hstep : Holds ((a ++ [(e.1,e.2.set key (tab.val (deviceOf e.2)))]) ++ es)
          (iniTokenUpdate env "network" "eth.cfg" e.1 (e.2.set key (tab.val (deviceOf e.2))) r.2).2 := by
        rw [List.append_assoc]
        exact hset
      obtain ⟨q,hq,hh',hleft,-,hended⟩ := ih (s:=deviceOf e.2::s) (r:=(r.1.erase (deviceOf e.2),
        (iniTokenUpdate env "network" "eth.cfg" e.1 (e.2.set key (tab.val (deviceOf e.2))) r.2).2))
        (by rw [hr,left_erase]) hstep
      refine ⟨q,?_,?_,hleft,fun hall => absurd (hall e (by simp)) hc,fun _ => hended (Or.inl hline)⟩
      · rw [← hval] at hq
        exact (congrArg (fun r => List.foldl _ r es) (if_neg fun hn => hc (hcond.mp hn))).trans hq
      · rw [NicDiscovery.pass,if_neg hc]
        rwa [List.append_assoc] at hh'

def nicLines (x : Str × Str) : List (Str × Str) := [("DEVICE",x.1),("VENDOR",x.2),("STAT","0")]

def nicData (x : Str × Str) : Params := dataOf (nicLines x)

def newNic (n : Str) (x : Str × Str) : Params := readBack n (nicData x)

theorem nicData_entries (x : Str × Str) : (nicData x).entries = nicLines x :=
  @dataOf_entries (nicLines x) DefaultGateway.deviceKeys_nodup

theorem newNic_entries (n : Str) (x : Str × Str) : (newNic n x).entries = (dataId,n)::nicLines x := by
  rw [newNic,readBack_entries,shown,nicData_entries]
  rfl

theorem newNic_val (n : Str) (x : Str × Str) (k : Str) : (newNic n x).val k =
    (OrdMap.lookup k ((dataId,n)::nicLines x)).getD [] := by
  rw [Params.val,OrdMap.getD,OrdMap.get?,newNic_entries]

theorem newNic_device (n : Str) (x : Str × Str) : deviceOf (newNic n x) = x.1 := newNic_val n x "DEVICE"

theorem readValue_zero : ReadValue "0" := ⟨rfl,by decide,by decide⟩

theorem nicData_read {x : Str × Str} (hx : ReadValue x.1 ∧ ReadValue x.2) : ∀ e ∈ (nicData x).entries,
    e.1 ∈ DefaultGateway.deviceKeys ∧ ReadValue e.2 := by
  rw [nicData_entries,nicLines]
  simp only [List.forall_mem_cons]
  exact ⟨⟨by decide,hx.1⟩,⟨by decide,hx.2⟩,⟨by decide,readValue_zero⟩,by simp⟩

theorem nicData_new {x : Str × Str} (hx : ReadValue x.1 ∧ ReadValue x.2) : NewData (nicData x) := fun e he =>
  ⟨DefaultGateway.deviceKeys_new _ (nicData_read hx e he).1,(nicData_read hx e he).2.2.1⟩

theorem nicData_carried {x : Str × Str} (hx : ReadValue x.1 ∧ ReadValue x.2) : carriedParams (nicData x) = nicData x := by
  apply OrdMap.ext
  have hm : (nicData x).entries.map (fun e => (e.1,carriedValue e.1 e.2)) = (nicData x).entries.map id := by
    refine List.map_congr_left fun e he => ?_
    have hv := (nicData_read hx e he).2
    rw [carriedValue,carried_eq hv.1 hv.2.2,ite_self]
    rfl
  exact hm.trans (List.map_id _)

theorem newNic_ok {n : Str} (hn : IdentOk n) {x : Str × Str} (hx : ReadValue x.1 ∧ ReadValue x.2) :
    EntryOk n (newNic n x) := by
  refine ⟨hn,_,readBack_entries n (nicData x),fun e he => ?_⟩
  have hm := List.mem_filter.mp he
  obtain ⟨hk,hv⟩ := nicData_read hx e hm.1
  have hd := DefaultGateway.deviceKeys_new _ hk
  exact ⟨hd.2,hd.1.paramOk hv.1 hv.2.1 hv.2.2⟩

theorem freshKey_isSome {t : Token} {ks : List Str} {k : Str} (hk : k ∈ ks) (ht : t.get? k = none) :
    ∃ n, freshKey t ks = some n := by
  induction ks with
  | nil => exact absurd hk List.not_mem_nil
  | cons j ks ih =>
    unfold freshKey
    split
    · exact ⟨j,rfl⟩
    · rename_i hj
      rcases List.mem_cons.mp hk with rfl | hk
      · exact absurd ht hj
      · exact ih hk

theorem exists_fresh {t : Token} {ks : List Str} (h : t.entries.length < ks.dedup.length) :
    ∃ n, freshKey t ks = some n := by
  by_contra hn
  have hsub : ks.dedup ⊆ t.keys := by
    intro k hk
    by_contra hm
    exact hn (freshKey_isSome (List.mem_dedup.mp hk) (OrdMap.get?_eq_none.mpr hm))
  have hle := (List.subperm_of_subset (List.nodup_dedup ks) hsub).length_le
  rw [OrdMap.keys,List.length_map] at hle
  exact absurd h (Nat.not_lt.mpr hle)

/-- Saving one device: its entry comes behind what is read with the comment of the save behind the text. -/
theorem Holds.save (hs : env.strg = true) {x : Str × Str} (hx : ReadValue x.1 ∧ ReadValue x.2) {es : List (Str × Params)}
    {w : World} (h : Holds es w) {b : List (Str × Params)}
    (hb : (readText (text "network" "eth.cfg" w ++ saveComment env) ∅).entries = b)
    (hok : ∀ e ∈ b, EntryOk e.1 e.2) (hk : es.length < env.keys.dedup.length) :
    ∃ n r, iniTokenSave env "network" "eth.cfg" (nicData x) w = some r ∧ Holds (b ++ [(n,newNic n x)]) r.2 ∧
      LineEnded (text "network" "eth.cfg" r.2) := by
  obtain ⟨n,hn⟩ := exists_fresh (t:=entries "network" "eth.cfg" w) (by rw [h.read]; exact hk)
  obtain ⟨hmem,hfresh⟩ := freshKey_some hn
  have hi : IdentOk n := hex_identOk (env.keys_hex n hmem)
  have hd := nicData_new hx
  have hid : (nicData x).val "ID" = [] := by
    rw [Params.val,OrdMap.getD,hd.ident]
    rfl
  have hname : (nicData x).val "NAME" = [] := by
    rw [Params.val,OrdMap.getD,nicData,Ipcalc.get?_dataOf DefaultGateway.deviceKeys_nodup rfl]
    rfl
  have hne : (nicData x).isEmpty = false := by
    rw [OrdMap.isEmpty,nicData_entries]
    rfl
  have hclean := iniObjectClean_cache "network" "eth.cfg" (iniTokenGet env "network" "eth.cfg" ∅ w).2
  have hreg : (iniObjectClean "network" "eth.cfg" (iniTokenGet env "network" "eth.cfg" ∅ w).2).reg = w.reg := by simp
  have hsave : iniTokenSave env "network" "eth.cfg" (nicData x) w = some (saveEntry env "network" "eth.cfg" n (nicData x)
      (iniObjectClean "network" "eth.cfg" (iniTokenGet env "network" "eth.cfg" ∅ w).2)) := by
    unfold iniTokenSave
    dsimp only
    rw [hne,if_neg Bool.false_ne_true,if_pos (null_iff.mpr hid),iniTokenGet_fst env _ _ h.coherent,hn]
    rfl
  generalize iniObjectClean "network" "eth.cfg" (iniTokenGet env "network" "eth.cfg" ∅ w).2 = u at hclean hreg hsave
  have hline : saveLine (nicData x) ≠ [] := by
    intro hn
    have hm : 'D' ∈ (nicData x).entries.flatMap fun e => saveParam e.1 e.2 := by
      rw [nicData_entries]
      refine List.mem_flatMap.mpr ⟨("DEVICE",x.1),by simp [nicLines],?_⟩
      change 'D' ∈ "DEVICE" ++ '=' :: (trim x.1 ++ ['\n'])
      exact List.mem_append_left _ (by decide)
    exact absurd (trim_eq_nil.mp hn _ hm) (by decide)
  have hret : (saveEntry env "network" "eth.cfg" n (nicData x) u).1 = .ok := by
    unfold saveEntry
    dsimp only
    rw [hname,if_neg (by simp),if_neg (by simpa using hline)]
    exact (fileSave_ok env _ _).mpr hs
  obtain ⟨hw,-⟩ := saveEntry_spec env "network" "eth.cfg" n (nicData x) hclean
  have ht : text "network" "eth.cfg" (saveEntry env "network" "eth.cfg" n (nicData x) u).2 =
      text "network" "eth.cfg" w ++ saveText env n (nicData x) := by
    rw [text,hw.done hret,OrdMap.getD,OrdMap.get?_set_self,text,text,hreg]
    rfl
  refine ⟨n,_,hsave,⟨hw.coherent,?_,?_⟩,by rw [ht]; exact lineEnded_saveText env _ n (nicData x)⟩
  · intro e he
    rcases List.mem_append.mp he with he | he
    · exact hok e he
    · rw [List.mem_singleton.mp he]
      exact newNic_ok hi hx
  · rw [entries,ht,entries_behind env hi hd hfresh,hb,nicData_carried hx]
    rfl

/-- Saving the devices of a list, into a text that ends its lines. -/
theorem Holds.saves (hs : env.strg = true) {xs : List (Str × Str)} (hx : ∀ x ∈ xs, ReadValue x.1 ∧ ReadValue x.2)
    {es : List (Str × Params)} {w : World} (h : Holds es w) (hl : LineEnded (text "network" "eth.cfg" w))
    (hk : es.length + xs.length ≤ env.keys.dedup.length) : ∃ w' news,
    xs.foldlM (fun w x => (iniTokenSave env "network" "eth.cfg" (nicData x) w).map Prod.snd) w = some w' ∧
    Holds (es ++ news) w' ∧ List.Forall₂ (fun e x => e.2 = newNic e.1 x) news xs := by
  induction xs generalizing es w with
  | nil => exact ⟨w,[],rfl,by rwa [List.append_nil],.nil⟩
  | cons x xs ih =>
    rw [List.length_cons] at hk
    obtain ⟨n,r,hr,hh,hended⟩ := h.save hs (hx x (by simp)) (b:=es) (by rw [readText_comment env hl]; exact h.read)
      h.entry (by omega)
    obtain ⟨w',news,hw',hnews,hall⟩ := ih (fun y hy => hx y (List.mem_cons_of_mem _ hy)) hh hended
      (by rw [List.length_append,List.length_singleton]; omega)
    refine ⟨w',(n,newNic n x)::news,?_,?_,.cons rfl hall⟩
    · rw [List.foldlM_cons]
      rw [hr]
      exact hw'
    · rwa [List.append_assoc] at hnews

def missing (tab : Params) (es : List (Str × Params)) : List (Str × Str) :=
  tab.entries.filter fun x => decide (x.1 ∉ es.map fun e => deviceOf e.2)

theorem nicTable_nil {info : Str} (h : (file info).isEmpty = true) : nicTable info = ∅ := by
  rw [nicTable,List.isEmpty_iff.mp h]
  rfl

theorem told_empty (key : Str) (es : List (Str × Params)) : Told key ∅ es := fun _ _ hn => absurd rfl hn

theorem Holds.copy (hs : env.strg = true) {key : Str} (hk : KeyName key) (hh : hidden key = false) (hn : key ≠ "NAME")
    {es : List (Str × Params)} {w : World} (h : Holds es w) (info : Str) : ∃ q,
    updateNicEntries env key (iniTokenGet env "network" "eth.cfg" ∅ w).1
      (nicTable info,(iniTokenGet env "network" "eth.cfg" ∅ w).2) = q ∧
    Holds (NicDiscovery.pass key (nicTable info) [] es) q.2 ∧ q.1.entries = missing (nicTable info) es ∧
    ((∀ e ∈ es, (nicTable info).val (deviceOf e.2) = []) → text "network" "eth.cfg" q.2 = text "network" "eth.cfg" w) ∧
    ((∃ e ∈ es, (nicTable info).val (deviceOf e.2) ≠ []) → LineEnded (text "network" "eth.cfg" q.2)) := by
  have hq := h.quiet (iniTokenGet_reg env "network" "eth.cfg" ∅ w)
    (iniTokenGet_coherent env "network" "eth.cfg" h.coherent)
  obtain ⟨q,he,hp,hl,hsame,hended⟩ := Holds.pass (a:=[]) (s:=[]) hs hk hh hn (nicTable_listing info)
    (r:=(nicTable info,(iniTokenGet env "network" "eth.cfg" ∅ w).2)) (left_nil _).symm hq
  refine ⟨q,?_,hp,?_,fun hall => (hsame fun e he => Or.inl (hall e he)).trans ?_,
    fun ⟨e,he,hn⟩ => hended (Or.inr ⟨e,he,by simpa using hn⟩)⟩
  · rw [updateNicEntries,iniTokenGet_fst env "network" "eth.cfg" h.coherent,h.read]
    exact he
  · rw [hl]
    refine List.filter_congr fun x _ => ?_
    simp
  · simp [text]

theorem Holds.filled {es : List (Str × Params)} {w : World} (h : Holds es w) (hne : es ≠ []) :
    (iniTokenGet env "network" "eth.cfg" ∅ w).1.isEmpty = false := by
  rw [iniTokenGet_fst env "network" "eth.cfg" h.coherent,OrdMap.isEmpty,h.read]
  exact List.isEmpty_eq_false_iff.mpr hne

theorem Holds.device (hs : env.strg = true) {es : List (Str × Params)} {w : World} (h : Holds es w) (hne : es ≠ [])
    (info : Str) : ∃ q,
    updateNicDevice env info w = (missing (nicTable info) es).foldlM
      (fun w x => (iniTokenSave env "network" "eth.cfg" (nicData x) w).map Prod.snd) q ∧
    Holds (NicDiscovery.pass "VENDOR" (nicTable info) [] es) q ∧
    ((∀ e ∈ es, (nicTable info).val (deviceOf e.2) = []) → text "network" "eth.cfg" q = text "network" "eth.cfg" w) ∧
    ((∃ e ∈ es, (nicTable info).val (deviceOf e.2) ≠ []) → LineEnded (text "network" "eth.cfg" q)) := by
  unfold updateNicDevice
  split
  · rename_i hf
    rw [nicTable_nil hf,pass_told [] (told_empty _ _)]
    exact ⟨w,rfl,h,fun _ => rfl,fun ⟨_,_,hn⟩ => absurd rfl hn⟩
  · obtain ⟨q,he,hp,hl,htext⟩ := h.copy hs (by decide : KeyName "VENDOR") rfl (by decide) info
    dsimp only
    rw [h.filled hne,if_neg Bool.false_ne_true,he,hl]
    exact ⟨q.2,rfl,hp,htext⟩

theorem Holds.hwaddr (hs : env.strg = true) {es : List (Str × Params)} {w : World} (h : Holds es w) (hne : es ≠ [])
    (hwaddr : Str) : Holds (NicDiscovery.pass "HWADDR" (nicTable hwaddr) [] es) (updateNicHwaddr env hwaddr w) := by
  unfold updateNicHwaddr
  split
  · rename_i hf
    rw [nicTable_nil hf,pass_told [] (told_empty _ _)]
    exact h
  · obtain ⟨q,he,hp,-⟩ := h.copy hs (by decide : KeyName "HWADDR") rfl (by decide) hwaddr
    dsimp only
    rw [h.filled hne,if_neg Bool.false_ne_true,he]
    exact hp

variable (env)

/-- What the file holds with the comment of a save behind its last line. -/
def commented (w : World) : Token := readText (text "network" "eth.cfg" w ++ saveComment env) ∅

/-- The file has entries, and what it is read into can be written back, also with the comment of a save behind it. -/
structure Start (w : World) : Prop where
  coherent : Coherent "network" "eth.cfg" w
  canonical : Canonical (entries "network" "eth.cfg" w)
  commented : Canonical (NicDiscovery.commented env w)
  filled : entries "network" "eth.cfg" w ≠ ∅

/-- The first new entry comes behind the text as it stands: devices are listed, and none of them has an entry. -/
def Unwritten (vendors : Params) (t : Token) : Prop :=
  vendors ≠ ∅ ∧ ∀ e ∈ t.entries, vendors.val (deviceOf e.2) = []

instance (vendors : Params) (t : Token) : Decidable (Unwritten vendors t) := by
  unfold Unwritten
  infer_instance

def oldEntries (vendors : Params) (w : World) : List (Str × Params) :=
  if Unwritten vendors (entries "network" "eth.cfg" w) then (commented env w).entries
  else pass "VENDOR" vendors [] (entries "network" "eth.cfg" w).entries

variable {env}

theorem commented_length (w : World) :
    (commented env w).entries.length ≤ (entries "network" "eth.cfg" w).entries.length := by
  have hsub : (commented env w).keys ⊆ (entries "network" "eth.cfg" w).keys := fun _ hn => keys_commented env hn
  have hle := (List.subperm_of_subset (commented env w).nodup hsub).length_le
  rwa [OrdMap.keys,List.length_map,List.length_map] at hle

theorem missing_of_unlisted {vendors : Params} (hv : Listing vendors) {es : List (Str × Params)}
    (h : ∀ e ∈ es, vendors.val (deviceOf e.2) = []) : missing vendors es = vendors.entries := by
  refine List.filter_eq_self.mpr fun x hx => decide_eq_true fun hm => ?_
  obtain ⟨e,he,hd⟩ := List.mem_map.mp hm
  refine (hv.2 x hx).2 ?_
  rw [← Listing.val hx,← hd]
  exact h e he

theorem pass_length {key : Str} {tab : Params} (seen : List Str) (es : List (Str × Params)) :
    (pass key tab seen es).length = es.length := by
  have h := congrArg List.length (@pass_keys key tab seen es)
  rwa [List.length_map,List.length_map] at h

/-- What a run does to the file. -/
theorem run_spec (hs : env.strg = true) {w : World} (h : Start env w) (info hwaddr : Str)
    (hk : (entries "network" "eth.cfg" w).entries.length + (nicTable info).entries.length ≤ env.keys.dedup.length) :
    ∃ w' news, updateNicInfo env info hwaddr w = some w' ∧
      Holds (pass "HWADDR" (nicTable hwaddr) [] (oldEntries env (nicTable info) w ++ news)) w' ∧
      List.Forall₂ (fun e x => e.2 = newNic e.1 x) news
        (missing (nicTable info) (entries "network" "eth.cfg" w).entries) := by
  have hv := nicTable_listing info
  have hne : (entries "network" "eth.cfg" w).entries ≠ [] := fun hn => h.filled (OrdMap.ext hn)
  have hold : Holds (entries "network" "eth.cfg" w).entries w := ⟨h.coherent,h.canonical,rfl⟩
  obtain ⟨q,hrun,hq,hsame,hended⟩ := hold.device hs hne info
  have hread : ∀ x ∈ missing (nicTable info) (entries "network" "eth.cfg" w).entries, ReadValue x.1 ∧ ReadValue x.2 :=
    fun x hx => hv.1 x (List.mem_filter.mp hx).1
  have hlen : (missing (nicTable info) (entries "network" "eth.cfg" w).entries).length ≤ (nicTable info).entries.length :=
    List.length_filter_le _ _
  have hpass : pass "VENDOR" (nicTable info) [] (entries "network" "eth.cfg" w).entries ≠ [] := fun hn => hne (by
    rw [← List.length_eq_zero_iff,← pass_length [],hn]
    rfl)
  have key : ∃ v news, updateNicDevice env info w = some v ∧ Holds (oldEntries env (nicTable info) w ++ news) v ∧
      List.Forall₂ (fun e x => e.2 = newNic e.1 x) news
        (missing (nicTable info) (entries "network" "eth.cfg" w).entries) ∧
      oldEntries env (nicTable info) w ++ news ≠ [] := by
    rw [hrun]
    by_cases hu : Unwritten (nicTable info) (entries "network" "eth.cfg" w)
    · rw [oldEntries,if_pos hu]
      have hm := missing_of_unlisted hv hu.2
      rw [hm] at hread hlen ⊢
      cases hx : (nicTable info).entries with
      | nil => exact absurd (OrdMap.ext hx) hu.1
      | cons x xs =>
        rw [hx] at hread hlen hk
        rw [List.length_cons] at hk
        have htext := hsame hu.2
        obtain ⟨n,r,hr,hh,hl⟩ := hq.save hs (hread x (by simp)) (b:=(commented env w).entries)
          (by rw [htext]; rfl) h.commented (by rw [pass_length]; omega)
        obtain ⟨v,news,hsaves,hnews,hall⟩ := hh.saves hs (fun y hy => hread y (List.mem_cons_of_mem _ hy)) hl (by
          have hc := @commented_length env w
          rw [List.length_append,List.length_singleton]
          omega)
        refine ⟨v,(n,newNic n x)::news,?_,?_,.cons rfl hall,by simp⟩
        · rw [List.foldlM_cons,hr]
          exact hsaves
        · rwa [List.append_assoc] at hnews
    · rw [oldEntries,if_neg hu]
      by_cases ha : ∃ e ∈ (entries "network" "eth.cfg" w).entries, (nicTable info).val (deviceOf e.2) ≠ []
      · obtain ⟨v,news,hsaves,hnews,hall⟩ := hq.saves hs hread (hended ha) (by rw [pass_length]; omega)
        exact ⟨v,news,hsaves,hnews,hall,List.append_ne_nil_of_left_ne_nil hpass news⟩
      · have hall : ∀ e ∈ (entries "network" "eth.cfg" w).entries, (nicTable info).val (deviceOf e.2) = [] := by
          simpa using ha
        have hnil : nicTable info = ∅ := by
          by_contra hn
          exact hu ⟨hn,hall⟩
        have hmiss : missing (nicTable info) (entries "network" "eth.cfg" w).entries = [] := by
          rw [hnil]
          rfl
        rw [hmiss]
        exact ⟨q,[],rfl,by rwa [List.append_nil],.nil,List.append_ne_nil_of_left_ne_nil hpass []⟩
  obtain ⟨v,news,hv',hnews,hall,hfilled⟩ := key
  exact ⟨_,news,by rw [updateNicInfo,hv']; rfl,hnews.hwaddr hs hfilled hwaddr,hall⟩

/-- Only the vendor and the hardware address of a listed device are different. -/
def Changed (vendors hwaddrs p q : Params) : Prop := ∀ k, q.get? k ≠ p.get? k →
  k = "VENDOR" ∧ vendors.val (deviceOf p) ≠ [] ∨ k = "HWADDR" ∧ hwaddrs.val (deviceOf p) ≠ []

def Kept (vendors hwaddrs : Params) (t t' : Token) : Prop :=
  ∀ e ∈ t.entries, ∃ p, t'.get? e.1 = some p ∧ Changed vendors hwaddrs e.2 p

/-- The interfaces before and after: every device of the first list has an entry, the entries of listed devices have the
listed values, nothing else has changed in an entry, and an entry that is new is the only one of a device that had none,
and is disabled. -/
structure Discovered (vendors hwaddrs : Params) (t t' : Token) : Prop where
  listed : ∀ d, vendors.val d ≠ [] → ∃ e ∈ t'.entries, deviceOf e.2 = d
  vendor : Told "VENDOR" vendors t'.entries
  hwaddr : Told "HWADDR" hwaddrs t'.entries
  kept : Kept vendors hwaddrs t t'
  added : ∀ e ∈ t'.entries, e.1 ∉ t.keys → vendors.val (deviceOf e.2) ≠ [] ∧ e.2.val "STAT" = "0" ∧
    (∀ x ∈ t.entries, deviceOf x.2 ≠ deviceOf e.2) ∧ ∀ x ∈ t'.entries, deviceOf x.2 = deviceOf e.2 → x = e

variable (env)

/-- The comment of a save does no harm to the file, and entries that share a listed device have the listed values. -/
structure Discoverable (vendors hwaddrs : Params) (w : World) : Prop where
  commented : Unwritten vendors (entries "network" "eth.cfg" w) →
    Kept vendors hwaddrs (entries "network" "eth.cfg" w) (NicDiscovery.commented env w)
  vendor : SharedTold "VENDOR" vendors (entries "network" "eth.cfg" w).entries
  hwaddr : SharedTold "HWADDR" hwaddrs (if Unwritten vendors (entries "network" "eth.cfg" w)
    then (NicDiscovery.commented env w).entries else (entries "network" "eth.cfg" w).entries)

variable {env}

theorem Changed.refl (vendors hwaddrs p : Params) : Changed vendors hwaddrs p p := fun _ hk => absurd rfl hk

theorem Changed.device {vendors hwaddrs p q : Params} (h : Changed vendors hwaddrs p q) : deviceOf q = deviceOf p := by
  have hg : q.get? "DEVICE" = p.get? "DEVICE" := by
    by_contra hn
    rcases h "DEVICE" hn with ⟨hk,-⟩ | ⟨hk,-⟩
    · exact absurd hk (by decide)
    · exact absurd hk (by decide)
  rw [deviceOf,deviceOf,Params.val,Params.val,OrdMap.getD,OrdMap.getD,hg]

theorem Changed.vendor {vendors hwaddrs p : Params} {v : Str} (h : vendors.val (deviceOf p) ≠ []) :
    Changed vendors hwaddrs p (p.set "VENDOR" v) := by
  intro k hk
  by_cases hv : ("VENDOR" : Str) = k
  · exact Or.inl ⟨hv.symm,h⟩
  · exact absurd (OrdMap.get?_set_ne _ _ hv) hk

theorem Changed.hwaddr {vendors hwaddrs p q : Params} (h : Changed vendors hwaddrs p q) {v : Str}
    (hl : hwaddrs.val (deviceOf p) ≠ []) : Changed vendors hwaddrs p (q.set "HWADDR" v) := by
  intro k hk
  by_cases hv : ("HWADDR" : Str) = k
  · exact Or.inr ⟨hv.symm,hl⟩
  · rw [OrdMap.get?_set_ne _ _ hv] at hk
    exact h k hk

theorem exists_right {α β : Type} {R : α → β → Prop} {as : List α} {bs : List β} (h : List.Forall₂ R as bs) :
    ∀ a ∈ as, ∃ b ∈ bs, R a b := by
  induction h with
  | nil => exact fun _ ha => absurd ha List.not_mem_nil
  | cons hab _ ih =>
    refine List.forall_mem_cons.mpr ⟨⟨_,by simp,hab⟩,fun a ha => ?_⟩
    obtain ⟨b,hb,hr⟩ := ih a ha
    exact ⟨b,List.mem_cons_of_mem _ hb,hr⟩

theorem exists_left {α β : Type} {R : α → β → Prop} {as : List α} {bs : List β} (h : List.Forall₂ R as bs) :
    ∀ b ∈ bs, ∃ a ∈ as, R a b := exists_right h.flip

theorem mem_devices {es : List (Str × Params)} {d : Str} :
    d ∈ (es.map fun e => deviceOf e.2) ↔ ∃ e ∈ es, deviceOf e.2 = d := List.mem_map

/-- The entries the new ones come behind are those of the file. -/
theorem oldEntries_spec {vendors hwaddrs : Params} {w : World}
    (h : Unwritten vendors (entries "network" "eth.cfg" w) →
      Kept vendors hwaddrs (entries "network" "eth.cfg" w) (commented env w)) :
    (∀ e ∈ (entries "network" "eth.cfg" w).entries, ∃ x ∈ oldEntries env vendors w, x.1 = e.1 ∧
      Changed vendors hwaddrs e.2 x.2) ∧
    ∀ x ∈ oldEntries env vendors w, ∃ e ∈ (entries "network" "eth.cfg" w).entries, x.1 = e.1 ∧
      Changed vendors hwaddrs e.2 x.2 := by
  unfold oldEntries
  split
  · rename_i hu
    have hk := h hu
    constructor
    · intro e he
      obtain ⟨p,hp,hc⟩ := hk e he
      exact ⟨(e.1,p),OrdMap.get?_eq_some.mp hp,rfl,hc⟩
    · intro x hx
      have hm : x.1 ∈ (entries "network" "eth.cfg" w).keys := keys_commented env (List.mem_map_of_mem hx)
      obtain ⟨e,he,hex⟩ := List.mem_map.mp hm
      obtain ⟨p,hp,hc⟩ := hk e he
      have hx' : (commented env w).get? e.1 = some x.2 := OrdMap.get?_eq_some.mpr (by rw [hex]; exact hx)
      obtain rfl : p = x.2 := Option.some.inj (hp.symm.trans hx')
      exact ⟨e,he,hex.symm,hc⟩
  · have hpass := @pass_forall₂ "VENDOR" vendors [] (entries "network" "eth.cfg" w).entries
    have hchanged : ∀ e x : Str × Params, (x.1 = e.1 ∧ (x.2 = e.2 ∨ vendors.val (deviceOf e.2) ≠ [] ∧
        x.2 = e.2.set "VENDOR" (vendors.val (deviceOf e.2)))) → x.1 = e.1 ∧ Changed vendors hwaddrs e.2 x.2 := by
      rintro e x ⟨hid,he | ⟨hl,he⟩⟩
      · exact ⟨hid,he ▸ Changed.refl vendors hwaddrs _⟩
      · exact ⟨hid,he ▸ Changed.vendor hl⟩
    constructor
    · intro e he
      obtain ⟨x,hx,hr⟩ := exists_right hpass e he
      exact ⟨x,hx,hchanged e x hr⟩
    · intro x hx
      obtain ⟨e,he,hr⟩ := exists_left hpass x hx
      exact ⟨e,he,hchanged e x hr⟩

/-- `fin` are the entries after a run that found these. -/
structure Outcome (vendors hwaddrs : Params) (t : Token) (old news fin : List (Str × Params)) : Prop where
  eq : fin = pass "HWADDR" hwaddrs [] (old ++ news)
  new : List.Forall₂ (fun e x => e.2 = newNic e.1 x) news (missing vendors t.entries)

variable {vendors hwaddrs : Params} {t : Token} {old news fin : List (Str × Params)}

theorem Outcome.new_devices (h : Outcome vendors hwaddrs t old news fin) :
    (news.map fun e => deviceOf e.2) = (missing vendors t.entries).map Prod.fst := by
  have hn := h.new
  clear h
  generalize missing vendors t.entries = xs at hn ⊢
  induction hn with
  | nil => rfl
  | @cons e x es xs hex _ ih => rw [List.map_cons,List.map_cons,ih,hex,newNic_device]

theorem Outcome.new_nodup (h : Outcome vendors hwaddrs t old news fin) : (news.map fun e => deviceOf e.2).Nodup := by
  rw [h.new_devices]
  exact vendors.nodup.sublist (List.filter_sublist.map _)

theorem Outcome.new_entry (h : Outcome vendors hwaddrs t old news fin) {e : Str × Params} (he : e ∈ news) :
    ∃ x ∈ vendors.entries, e.2 = newNic e.1 x ∧ ∀ y ∈ t.entries, deviceOf y.2 ≠ x.1 := by
  obtain ⟨x,hx,hex⟩ := exists_right h.new e he
  obtain ⟨hm,hn⟩ := List.mem_filter.mp hx
  exact ⟨x,hm,hex,fun y hy hd => of_decide_eq_true hn (List.mem_map.mpr ⟨y,hy,hd⟩)⟩

theorem Outcome.entry (h : Outcome vendors hwaddrs t old news fin) : List.Forall₂ (fun e x => x.1 = e.1 ∧
    (x.2 = e.2 ∨ hwaddrs.val (deviceOf e.2) ≠ [] ∧ x.2 = e.2.set "HWADDR" (hwaddrs.val (deviceOf e.2)))) (old ++ news) fin :=
  h.eq ▸ pass_forall₂ [] (old ++ news)

theorem Outcome.vendor_kept (h : Outcome vendors hwaddrs t old news fin) :
    shownAs "VENDOR" fin = shownAs "VENDOR" (old ++ news) := by
  rw [h.eq]
  exact shownAs_pass (by decide) (by decide) [] _

theorem Outcome.devices (h : Outcome vendors hwaddrs t old news fin) :
    (fin.map fun e => deviceOf e.2) = (old ++ news).map fun e => deviceOf e.2 := by
  rw [← devices_shownAs "VENDOR",← devices_shownAs "VENDOR",h.vendor_kept]

theorem Outcome.told_hwaddr_iff (h : Outcome vendors hwaddrs t old news fin) :
    Told "HWADDR" hwaddrs fin ↔ SharedTold "HWADDR" hwaddrs (old ++ news) := by
  rw [h.eq,told_pass_iff (by decide)]
  exact and_iff_right fun x _ hx => absurd hx List.not_mem_nil

theorem Outcome.shared_iff (h : Outcome vendors hwaddrs t old news fin)
    (ho : ∀ x ∈ old, ∃ e ∈ t.entries, x.1 = e.1 ∧ Changed vendors hwaddrs e.2 x.2) :
    SharedTold "HWADDR" hwaddrs (old ++ news) ↔ SharedTold "HWADDR" hwaddrs old := by
  unfold SharedTold
  rw [shownAs,List.map_append,List.pairwise_append]
  constructor
  · exact And.left
  · refine fun hold => ⟨hold,?_,?_⟩
    · have hn := h.new_nodup
      rw [List.pairwise_map]
      rw [List.Nodup,List.pairwise_map] at hn
      exact hn.imp fun hne he => absurd he hne
    · intro x hx y hy he
      obtain ⟨a,ha,rfl⟩ := List.mem_map.mp hx
      obtain ⟨b,hb,rfl⟩ := List.mem_map.mp hy
      obtain ⟨e,hm,-,hc⟩ := ho a ha
      obtain ⟨z,-,hz,hfresh⟩ := h.new_entry hb
      refine absurd ?_ (hfresh e hm)
      rw [← hc.device]
      exact he.trans (by rw [hz,newNic_device])

theorem Outcome.told_new (h : Outcome vendors hwaddrs t old news fin) : Told "VENDOR" vendors news := by
  intro x hx _
  obtain ⟨e,he,rfl⟩ := List.mem_map.mp hx
  obtain ⟨z,hz,hez,-⟩ := h.new_entry he
  dsimp only
  rw [hez,newNic_device,Listing.val hz]
  exact newNic_val e.1 z "VENDOR"

/-- What the entries after a run are, when nothing is lost on the way. -/
theorem Outcome.discovered {t' : Token} (h : Outcome vendors hwaddrs t old news t'.entries) (hv : Listing vendors)
    (ho : ∀ e ∈ t.entries, ∃ x ∈ old, x.1 = e.1 ∧ Changed vendors hwaddrs e.2 x.2)
    (ho' : ∀ x ∈ old, ∃ e ∈ t.entries, x.1 = e.1 ∧ Changed vendors hwaddrs e.2 x.2)
    (htold : Told "VENDOR" vendors old) (hshared : SharedTold "HWADDR" hwaddrs old) : Discovered vendors hwaddrs t t' := by
  have hnew : ∀ y ∈ t'.entries, y.1 ∉ t.keys → ∃ e ∈ news, y.1 = e.1 ∧
      (y.2 = e.2 ∨ hwaddrs.val (deviceOf e.2) ≠ [] ∧ y.2 = e.2.set "HWADDR" (hwaddrs.val (deviceOf e.2))) := by
    intro y hy hk
    obtain ⟨e,he,hr⟩ := exists_left h.entry y hy
    rcases List.mem_append.mp he with he | he
    · obtain ⟨a,ha,hae,-⟩ := ho' e he
      exact absurd (List.mem_map.mpr ⟨a,ha,hae.symm.trans hr.1.symm⟩) hk
    · exact ⟨e,he,hr⟩
  have hdev : ∀ {e y : Str × Params}, (y.2 = e.2 ∨ hwaddrs.val (deviceOf e.2) ≠ [] ∧
      y.2 = e.2.set "HWADDR" (hwaddrs.val (deviceOf e.2))) → deviceOf y.2 = deviceOf e.2 := by
    rintro e y (he | ⟨-,he⟩)
    · rw [he]
    · rw [he]
      exact val_set_ne _ _ (by decide)
  refine ⟨?_,?_,?_,?_,?_⟩
  · intro d hd
    rw [← mem_devices,h.devices,List.map_append,List.mem_append]
    by_cases hm : d ∈ t.entries.map fun e => deviceOf e.2
    · obtain ⟨e,he,rfl⟩ := mem_devices.mp hm
      obtain ⟨x,hx,-,hc⟩ := ho e he
      exact Or.inl (mem_devices.mpr ⟨x,hx,hc.device⟩)
    · rw [h.new_devices]
      exact Or.inr (List.mem_map.mpr ⟨_,List.mem_filter.mpr ⟨Listing.mem hd,decide_eq_true hm⟩,rfl⟩)
  · rw [Told,h.vendor_kept]
    exact (told_append old news).mpr ⟨htold,h.told_new⟩
  · exact h.told_hwaddr_iff.mpr ((h.shared_iff ho').mpr hshared)
  · intro e he
    obtain ⟨x,hx,hid,hc⟩ := ho e he
    obtain ⟨y,hy,hyx,hr⟩ := exists_right h.entry x (List.mem_append_left _ hx)
    refine ⟨y.2,OrdMap.get?_eq_some.mpr (by rw [← hid,← hyx]; exact hy),?_⟩
    rcases hr with hr | ⟨hl,hr⟩
    · rw [hr]
      exact hc
    · rw [hr]
      exact hc.hwaddr (by rwa [hc.device] at hl)
  · intro y hy hk
    obtain ⟨e,he,hid,hr⟩ := hnew y hy hk
    obtain ⟨x,hx,hex,hfresh⟩ := h.new_entry he
    have hd : deviceOf y.2 = x.1 := by rw [hdev hr,hex,newNic_device]
    refine ⟨?_,?_,?_,?_⟩
    · rw [hd,Listing.val hx]
      exact (hv.2 x hx).2
    · have hstat : e.2.val "STAT" = "0" := by
        rw [hex]
        exact newNic_val e.1 x "STAT"
      rcases hr with hr | ⟨-,hr⟩
      · rw [hr,hstat]
      · rw [hr,val_set_ne _ _ (by decide),hstat]
    · rw [hd]
      exact hfresh
    · intro z hz hzd
      obtain ⟨b,hb,hr'⟩ := exists_left h.entry z hz
      have hbd : deviceOf b.2 = deviceOf e.2 := by rw [← hdev hr'.2,hzd,hdev hr]
      rcases List.mem_append.mp hb with hb | hb
      · obtain ⟨a,ha,-,hc⟩ := ho' b hb
        exact absurd (hc.device.symm.trans (hbd.trans (by rw [hex,newNic_device]))) (hfresh a ha)
      · have hbe : b = e := List.inj_on_of_nodup_map h.new_nodup hb he hbd
        have hkey : z.1 = y.1 := by rw [hr'.1,hbe,hid]
        exact List.inj_on_of_nodup_map t'.nodup hz hy hkey

/-- When nothing is lost in a run, the comment of the save has done no harm. -/
theorem Outcome.kept_old {w : World} {t' : Token} (h : Outcome vendors hwaddrs (entries "network" "eth.cfg" w)
    (oldEntries env vendors w) news t'.entries) (hu : Unwritten vendors (entries "network" "eth.cfg" w))
    (hk : Kept vendors hwaddrs (entries "network" "eth.cfg" w) t') :
    Kept vendors hwaddrs (entries "network" "eth.cfg" w) (commented env w) := by
  intro e he
  obtain ⟨p,hp,hc⟩ := hk e he
  obtain ⟨x,hx,hid,hr⟩ := exists_left h.entry (e.1,p) (OrdMap.get?_eq_some.mp hp)
  dsimp only at hid hr
  have hd : deviceOf p = deviceOf x.2 := by
    rcases hr with hr | ⟨-,hr⟩
    · rw [hr]
    · rw [hr]
      exact val_set_ne _ _ (by decide)
  rcases List.mem_append.mp hx with hx | hx
  · rw [oldEntries,if_pos hu] at hx
    refine ⟨x.2,OrdMap.get?_eq_some.mpr (by rw [hid]; exact hx),fun k hne => ?_⟩
    rcases hr with hr | ⟨hl,hr⟩
    · exact hc k (by rwa [hr])
    · by_cases hv : ("HWADDR" : Str) = k
      · refine Or.inr ⟨hv.symm,?_⟩
        rwa [← hd,hc.device] at hl
      · exact hc k (by rwa [hr,OrdMap.get?_set_ne _ _ hv])
  · obtain ⟨z,-,hz,hfresh⟩ := h.new_entry hx
    refine absurd ?_ (hfresh e he)
    rw [← hc.device,hd,hz,newNic_device]

theorem again (hs : env.strg = true) {es : List (Str × Params)} {w : World} (h : Holds es w) (hne : es ≠ [])
    {info hwaddr : Str} (hl : ∀ d, (nicTable info).val d ≠ [] → ∃ e ∈ es, deviceOf e.2 = d)
    (hv : Told "VENDOR" (nicTable info) es) (hh : Told "HWADDR" (nicTable hwaddr) es) :
    ∃ w', updateNicInfo env info hwaddr w = some w' ∧ Holds es w' := by
  obtain ⟨q,hq,hp,-⟩ := h.device hs hne info
  rw [pass_told [] hv] at hp
  have hm : missing (nicTable info) es = [] := by
    refine List.filter_eq_nil_iff.mpr fun x hx => ?_
    obtain ⟨e,he,hd⟩ := hl x.1 (by rw [Listing.val hx]; exact ((nicTable_listing info).2 x hx).2)
    exact fun hn => of_decide_eq_true hn (mem_devices.mpr ⟨e,he,hd⟩)
  rw [hm] at hq
  have hw := hp.hwaddr hs hne hwaddr
  rw [pass_told [] hh] at hw
  refine ⟨_,?_,hw⟩
  rw [updateNicInfo,hq]
  rfl

/-- Hardware discovery is complete and idempotent exactly when the comment of a save does no harm to the file and
entries that share a listed device have the listed values. -/
theorem discovery_iff (hs : env.strg = true) {w : World} (h : Start env w) (info hwaddr : Str)
    (hk : (entries "network" "eth.cfg" w).entries.length + (nicTable info).entries.length ≤ env.keys.dedup.length) :
    (∃ w', updateNicInfo env info hwaddr w = some w' ∧
      Discovered (nicTable info) (nicTable hwaddr) (entries "network" "eth.cfg" w) (entries "network" "eth.cfg" w') ∧
      ∀ env' : Env, env'.strg = true → ∃ w'', updateNicInfo env' info hwaddr w' = some w'' ∧
        entries "network" "eth.cfg" w'' = entries "network" "eth.cfg" w') ↔
    Discoverable env (nicTable info) (nicTable hwaddr) w := by
  have hlist := nicTable_listing info
  obtain ⟨w',news,hrun,hholds,hnew⟩ := run_spec hs h info hwaddr hk
  have hout : Outcome (nicTable info) (nicTable hwaddr) (entries "network" "eth.cfg" w) (oldEntries env (nicTable info) w)
      news (entries "network" "eth.cfg" w').entries := ⟨hholds.read,hnew⟩
  constructor
  · rintro ⟨v,hv,hd,-⟩
    obtain rfl : v = w' := Option.some.inj (hv.symm.trans hrun)
    refine ⟨fun hu => hout.kept_old hu hd.kept,?_,?_⟩
    · have hold : Told "VENDOR" (nicTable info) (oldEntries env (nicTable info) w) := by
        have hv' := hd.vendor
        rw [Told,hout.vendor_kept] at hv'
        exact ((told_append _ _).mp hv').1
      unfold oldEntries at hold
      split at hold
      · rename_i hu
        refine List.pairwise_of_forall_mem_list fun x _ y hy _ hn => ?_
        obtain ⟨e,he,rfl⟩ := List.mem_map.mp hy
        exact absurd (hu.2 e he) hn
      · exact ((told_pass_iff (by decide) [] _).mp hold).2
    · have hold := hout.told_hwaddr_iff.mp hd.hwaddr
      unfold SharedTold at hold
      rw [shownAs,List.map_append,List.pairwise_append] at hold
      have hold' : SharedTold "HWADDR" (nicTable hwaddr) (oldEntries env (nicTable info) w) := hold.1
      unfold oldEntries at hold'
      split
      · rename_i hu
        rwa [if_pos hu] at hold'
      · rename_i hu
        rw [if_neg hu,SharedTold,shownAs_pass (by decide) (by decide)] at hold'
        exact hold'
  · intro hc
    obtain ⟨ho,ho'⟩ := oldEntries_spec hc.commented
    have htold : Told "VENDOR" (nicTable info) (oldEntries env (nicTable info) w) := by
      unfold oldEntries
      split
      · rename_i hu
        intro x hx hn
        obtain ⟨e,he,rfl⟩ := List.mem_map.mp hx
        obtain ⟨a,ha,-,hch⟩ := ho' e (by rwa [oldEntries,if_pos hu])
        dsimp only at hn
        rw [hch.device] at hn
        exact absurd (hu.2 a ha) hn
      · exact (told_pass_iff (by decide) [] _).mpr ⟨fun x _ hx => absurd hx List.not_mem_nil,hc.vendor⟩
    have hshared : SharedTold "HWADDR" (nicTable hwaddr) (oldEntries env (nicTable info) w) := by
      have hh := hc.hwaddr
      unfold oldEntries
      split
      · rename_i hu
        rwa [if_pos hu] at hh
      · rename_i hu
        rw [if_neg hu] at hh
        rw [SharedTold,shownAs_pass (by decide) (by decide)]
        exact hh
    have hd := hout.discovered hlist ho ho' htold hshared
    refine ⟨w',hrun,hd,fun env' hs' => ?_⟩
    have hne : (entries "network" "eth.cfg" w').entries ≠ [] := by
      intro hn
      obtain ⟨e,he⟩ := List.exists_mem_of_ne_nil _ fun hn => h.filled (OrdMap.ext hn)
      obtain ⟨p,hp,-⟩ := hd.kept e he
      have hm := OrdMap.get?_eq_some.mp hp
      rw [hn] at hm
      exact absurd hm List.not_mem_nil
    have hholds' : Holds (entries "network" "eth.cfg" w').entries w' := by
      rw [hholds.read]
      exact hholds
    obtain ⟨w'',hrun',hh⟩ := again hs' hholds' hne hd.listed hd.vendor hd.hwaddr
    exact ⟨w'',hrun',OrdMap.ext hh.read⟩

/-- It is so for a file that ends its last line and has no device twice. -/
theorem discoverable_of {vendors hwaddrs : Params} {w : World} (hl : LineEnded (text "network" "eth.cfg" w))
    (hd : ((entries "network" "eth.cfg" w).entries.map fun e => deviceOf e.2).Nodup) :
    Discoverable env vendors hwaddrs w := by
  have hc : commented env w = entries "network" "eth.cfg" w := readText_comment env hl
  have hs : ∀ key tab, SharedTold key tab (entries "network" "eth.cfg" w).entries := by
    intro key tab
    rw [SharedTold,shownAs,List.pairwise_map]
    rw [List.Nodup,List.pairwise_map] at hd
    exact hd.imp fun hne he => absurd he hne
  refine ⟨fun _ e he => ?_,hs _ _,?_⟩
  · rw [hc]
    exact ⟨e.2,OrdMap.get?_eq_some.mpr he,Changed.refl _ _ _⟩
  · rw [hc,ite_self]
    exact hs _ _

/-- The start of a box: some keys to draw, and everything writable. -/
def bootEnv : Env := { noonEnv with
  keys := ["0123456789abcdef0123","123456789abcdef01234","23456789abcdef012345"]
  keys_hex := by decide }

def lanWorld (s : Str) : World := World.ofFiles [("network","eth.cfg",s)]

theorem lanWorld_start {s : Str} (hp : Plain s) (hc : Plain (s ++ saveComment bootEnv)) (hn : readText s ∅ ≠ ∅) :
    Start bootEnv (lanWorld s) := by
  have ht : text "network" "eth.cfg" (lanWorld s) = s := rfl
  refine ⟨Or.inl rfl,?_,?_,?_⟩
  · rw [entries,ht]
    exact readText_canonical hp
  · rw [commented,ht]
    exact readText_canonical hc
  · rw [entries,ht]
    exact hn

def lanText : Str := "ID=lan\nDEVICE=eth0\nMTU=1500\n"

theorem discovery_iff_lan : ∃ w', updateNicInfo bootEnv "eth0=Intel\neth1=Realtek" "eth1=00:16:76:3a:5b:01" (lanWorld lanText) =
      some w' ∧
    Discovered (nicTable "eth0=Intel\neth1=Realtek") (nicTable "eth1=00:16:76:3a:5b:01")
      (entries "network" "eth.cfg" (lanWorld lanText)) (entries "network" "eth.cfg" w') ∧
    ∀ env' : Env, env'.strg = true → ∃ w'',
      updateNicInfo env' "eth0=Intel\neth1=Realtek" "eth1=00:16:76:3a:5b:01" w' = some w'' ∧
      entries "network" "eth.cfg" w'' = entries "network" "eth.cfg" w' :=
  (@discovery_iff bootEnv rfl _ (lanWorld_start (by decide) (by decide) (by decide)) _ _
    (by decide)).mpr (discoverable_of (by decide) (by decide))

def openText : Str := "ID=lan\nDEVICE=eth0\nMTU=1500"

theorem mtu_lost : ¬ ∀ (env : Env) (w : World) (info hwaddr : Str), env.strg = true → Start env w →
    ((entries "network" "eth.cfg" w).entries.map fun e => deviceOf e.2).Nodup →
    (entries "network" "eth.cfg" w).entries.length + (nicTable info).entries.length ≤ env.keys.dedup.length →
    ∃ w', updateNicInfo env info hwaddr w = some w' ∧
      Discovered (nicTable info) (nicTable hwaddr) (entries "network" "eth.cfg" w) (entries "network" "eth.cfg" w') := by
  intro h
  obtain ⟨w',hw,hd⟩ := h bootEnv (lanWorld openText) "eth1=Realtek" [] rfl
    (lanWorld_start (by decide) (by decide) (by decide)) (by decide) (by decide)
  have hrun : (updateNicInfo bootEnv "eth1=Realtek" [] (lanWorld openText)).map
      (fun w' => ((entries "network" "eth.cfg" w').getD "lan" ∅).get? "MTU") =
      some (some (Str.of "1500# _INI_TOKEN_SAVE: Mon Jan 05 12:00:00 2009")) := by decide +kernel
  rw [hw,Option.map_some] at hrun
  have hmem : ((entries "network" "eth.cfg" (lanWorld openText)).get? "lan").isSome = true := by decide
  obtain ⟨q,hq⟩ := Option.isSome_iff_exists.mp hmem
  obtain ⟨p,hp,hc⟩ := hd.kept ("lan",q) (OrdMap.get?_eq_some.mp hq)
  rw [OrdMap.getD,hp,Option.getD_some] at hrun
  have hmtu : ((entries "network" "eth.cfg" (lanWorld openText)).getD "lan" ∅).get? "MTU" = some "1500" := by decide
  rw [OrdMap.getD,hq,Option.getD_some] at hmtu
  rcases hc "MTU" (by rw [Option.some.inj hrun,hmtu]; decide) with ⟨hk,-⟩ | ⟨hk,-⟩
  · exact absurd hk (by decide)
  · exact absurd hk (by decide)

end NicDiscovery
end Mybox
