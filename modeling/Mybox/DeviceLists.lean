import Mybox.OrderedMap
import Mybox.Php
import Mybox.Runs

/-! Version 3.0: the lists the policy is made from. `policy_get_data` puts the default device first and the
others behind it, and keeps the addresses to masquerade with under the priorities of the uplinks. -/
namespace Mybox
namespace DeviceLists
open Php

/-- A row of `ipaddr`. The priority may be null. -/
structure IpRow where
  dev : Str
  ip : Str
  pref : Str
  onboot : Bool
  isdefault : Bool
  uplink : Bool
  upprio : Option ℕ
  deriving DecidableEq

/-- `$_dev` has the keys from zero on, so that `ksort` leaves it as it is. -/
structure Data where
  dev : List Str
  masqip : OrdMap (Option ℕ) Str
  ips : OrdMap Str Str
  ping : List Str
  account : OrdMap Str Str

def Data.empty : Data := ⟨[],∅,∅,[],∅⟩

/-- `$_dev[0]=` -/
def setFirst (d : Str) : List Str → List Str
  | [] => [d]
  | _::ds => d::ds

/-- `if($_upprio > 1) $_upprio--;` -/
def lowered (p : Option ℕ) : Option ℕ := p.map fun n => if n > 1 then n - 1 else n

/-- `$_upprio++`, which makes one of null. -/
def raised (p : Option ℕ) : Option ℕ := some (p.getD 0 + 1)

def masqEntry (r : IpRow) : Str := r.dev ++ '|' :: r.ip

def masqKey (m : OrdMap (Option ℕ) Str) (r : IpRow) : Option ℕ :=
  if (m.get? (lowered r.upprio)).any fun v => v ≠ [] then raised (lowered r.upprio) else lowered r.upprio

/-- One row; the network of an address and its prefix come from `mybox_ipcalc`. -/
def step (network : Str → Str → Str) (s : Data) (r : IpRow) : Data where
  dev := if r.isdefault then setFirst r.dev s.dev else s.dev ++ [r.dev]
  masqip :=
    if r.isdefault then s.masqip.set (some 0) (masqEntry r)
    else if r.uplink then s.masqip.set (masqKey s.masqip r) (masqEntry r) else s.masqip
  ips := s.ips.set r.ip r.ip
  ping := s.ping ++ [r.ip ++ '|' :: (network r.ip r.pref ++ '/' :: r.pref)]
  account := s.account.set r.dev (r.ip ++ '/' :: r.pref)

/-- The rows that are started at boot, in the order of the table. -/
def started (rows : List IpRow) : List IpRow := rows.filter IpRow.onboot

/-- The addresses of the aliases or of the virtual interfaces that are started. -/
def addLocal (ips : OrdMap Str Str) (more : List (Bool × Str)) : OrdMap Str Str :=
  (more.filter Prod.fst).foldl (fun m e => if e.2 = [] ∨ m.getD e.2 [] ≠ [] then m else m.set e.2 e.2) ips

def policyGetData (network : Str → Str → Str) (rows : List IpRow) (ipalias vlan : List (Bool × Str)) : Data :=
  let s := (started rows).foldl (step network) Data.empty
  { s with ips := addLocal (addLocal s.ips ipalias) vlan }

def masqueraded (rows : List IpRow) : List IpRow := (started rows).filter fun r => r.isdefault || r.uplink

/-- Every started device once with the default one first, and every uplink and the default device once in the
list to masquerade with. -/
structure Complete (rows : List IpRow) (s : Data) : Prop where
  devices : s.dev.Perm ((started rows).map IpRow.dev)
  first : ∀ r ∈ started rows, r.isdefault = true → s.dev.head? = some r.dev
  masquerade : (s.masqip.entries.map Prod.snd).Perm ((masqueraded rows).map masqEntry)

/-- The default row finds nothing before it, and a row to masquerade behind finds its key free. -/
def Room (s : Data) (r : IpRow) : Prop :=
  (r.isdefault = true → s.dev = [] ∧ s.masqip.get? (some 0) = none) ∧
  (r.isdefault = false → r.uplink = true → s.masqip.get? (masqKey s.masqip r) = none)

instance (s : Data) (r : IpRow) : Decidable (Room s r) := inferInstanceAs (Decidable (_ ∧ _))

variable (network : Str → Str → Str)

def size (s : Data) : ℕ := s.dev.length + s.masqip.entries.length

def gain (r : IpRow) : ℕ := 1 + if r.isdefault || r.uplink then 1 else 0

theorem step_dev_length (s : Data) (r : IpRow) : (step network s r).dev.length =
    if r.isdefault = true ∧ s.dev ≠ [] then s.dev.length else s.dev.length + 1 := by
  rw [step]
  dsimp only
  cases r.isdefault with
  | false => simp
  | true => cases s.dev <;> simp [setFirst]

theorem step_masqip_length (s : Data) (r : IpRow) : (step network s r).masqip.entries.length =
    if r.isdefault then s.masqip.entries.length + if s.masqip.get? (some 0) = none then 1 else 0
    else if r.uplink then s.masqip.entries.length + if s.masqip.get? (masqKey s.masqip r) = none then 1 else 0
    else s.masqip.entries.length := by
  rw [step]
  dsimp only
  split
  · exact OrdMap.length_set _ _ _
  · split
    · exact OrdMap.length_set _ _ _
    · rfl

theorem size_step (s : Data) (r : IpRow) : size (step network s r) ≤ size s + gain r ∧
    (size (step network s r) = size s + gain r ↔ Room s r) := by
  rw [size,size,gain,Room,step_dev_length,step_masqip_length]
  cases r.isdefault with
  | true =>
    by_cases hd : s.dev = [] <;> by_cases hm : s.masqip.get? (some 0) = none <;> simp [hd,hm] <;> omega
  | false =>
    cases r.uplink with
    | true => by_cases hm : s.masqip.get? (masqKey s.masqip r) = none <;> simp [hm] <;> omega
    | false => simp; omega

def Roomy (rs : List IpRow) : Prop :=
  ∀ ms r ns, rs = ms ++ r::ns → Room (ms.foldl (step network) Data.empty) r

theorem sum_gain (rs : List IpRow) :
    (rs.map gain).sum = rs.length + (rs.filter fun r => r.isdefault || r.uplink).length := by
  induction rs with
  | nil => rfl
  | cons r rs ih =>
    rw [List.map_cons,List.sum_cons,ih,List.length_cons,List.filter_cons,gain]
    split <;> simp <;> omega

/-- With room for every row both lists are in the order of the table. -/
theorem lists_of_roomy {rs : List IpRow} (h : Roomy network rs) :
    (rs.foldl (step network) Data.empty).dev = rs.map IpRow.dev ∧
    (rs.foldl (step network) Data.empty).masqip.entries.map Prod.snd =
      (rs.filter fun r => r.isdefault || r.uplink).map masqEntry := by
  induction rs using List.reverseRecOn with
  | nil => exact ⟨rfl,rfl⟩
  | append_singleton rs r ih =>
    obtain ⟨hdev,hmasq⟩ := ih fun ms x ns hm => h ms x (ns ++ [r]) (by rw [hm]; simp)
    have hr := h rs r [] rfl
    rw [List.foldl_append,List.foldl_cons,List.foldl_nil,step]
    dsimp only
    have hnew : ∀ k, (rs.foldl (step network) Data.empty).masqip.get? k = none →
        ((rs.foldl (step network) Data.empty).masqip.set k (masqEntry r)).entries.map Prod.snd =
          (rs.filter fun r => r.isdefault || r.uplink).map masqEntry ++ [masqEntry r] := by
      intro k hk
      rw [OrdMap.set_entries_fresh _ _ (OrdMap.get?_eq_none.mp hk),List.map_append,hmasq]
      rfl
    rw [List.filter_append,List.map_append,List.map_append]
    cases hd : r.isdefault with
    | true =>
      obtain ⟨h₀,hk⟩ := hr.1 hd
      rw [if_pos rfl,if_pos rfl,hnew _ hk,h₀]
      rw [hdev] at h₀
      rw [h₀]
      simp [setFirst,hd]
    | false =>
      rw [if_neg Bool.false_ne_true,if_neg Bool.false_ne_true,hdev]
      cases hu : r.uplink with
      | true =>
        rw [if_pos rfl,hnew _ (hr.2 hd hu)]
        simp [hu]
      | false =>
        rw [if_neg Bool.false_ne_true,hmasq]
        simp [hd,hu]

/-- Both lists are complete exactly when each row finds room. -/
theorem complete_iff (rows : List IpRow) (ipalias vlan : List (Bool × Str)) :
    Complete rows (policyGetData network rows ipalias vlan) ↔ Roomy network (started rows) := by
  have hgain := foldl_gain (fun s r => (size_step network s r).1) (fun s r => (size_step network s r).2)
    (started rows) Data.empty
  constructor
  · intro h
    refine hgain.2.mp ?_
    have hdev := h.devices.length_eq
    have hmasq := h.masquerade.length_eq
    rw [List.length_map] at hdev
    rw [List.length_map,List.length_map] at hmasq
    have h₀ : size Data.empty = 0 := rfl
    rw [h₀,Nat.zero_add,sum_gain,size]
    exact congrArg₂ (· + ·) hdev hmasq
  · intro h
    obtain ⟨hdev,hmasq⟩ := lists_of_roomy network h
    refine ⟨List.Perm.of_eq hdev,fun r hr hd => ?_,List.Perm.of_eq hmasq⟩
    obtain ⟨ms,ns,hs⟩ := List.append_of_mem hr
    have h₀ := ((h ms r ns hs).1 hd).1
    have hroom : Roomy network ms := fun ms' x ns' hm => h ms' x (ns' ++ r::ns) (by rw [hs,hm]; simp)
    have hms := (lists_of_roomy network hroom).1
    rw [h₀,eq_comm,List.map_eq_nil_iff] at hms
    subst hms
    change ((started rows).foldl (step network) Data.empty).dev.head? = _
    rw [hdev,hs]
    rfl

/-- The device before the default one gives its place away. -/
theorem not_complete : ¬∀ (network : Str → Str → Str) (rows : List IpRow) (ipalias vlan : List (Bool × Str)),
    (rows.map IpRow.dev).Nodup → (rows.filter IpRow.isdefault).length ≤ 1 →
    Complete rows (policyGetData network rows ipalias vlan) := by
  intro h
  have hc := h (fun _ _ => []) [⟨"eth1","10.0.1.1","24",true,false,false,none⟩,
    ⟨"eth0","10.0.0.1","24",true,true,true,some 1⟩] [] [] (by decide) (by decide)
  exact absurd hc.devices.length_eq (by decide)

end DeviceLists
end Mybox
