import Mybox.FilterChain
import Mybox.Php
import Mathlib.Data.List.Nodup

/-! Version 3.0: which chain a forwarded packet is sent to. The two passes of `policy_create_fwd` run over
the devices in opposite directions and write a rule for each pair whose second device has not been passed
yet; a device is skipped as the second one when `==` takes it for the first. -/
namespace Mybox
namespace PolicyDirection
open Php PacketFilter

/-- A rule of the forward chain: the devices it names, and the chain it jumps to. -/
structure Forward where
  incoming : Option Str
  outgoing : Option Str
  target : Str
  deriving DecidableEq

/-- The text handed to `do_iptable`. -/
def Forward.line (fpol : Str) (r : Forward) : Str :=
  "-A ".toList ++ (fpol ++ ((r.incoming.elim [] (" -i ".toList ++ ·)) ++
    ((r.outgoing.elim [] (" -o ".toList ++ ·)) ++ (" -j ".toList ++ r.target))))

def Forward.matches (r : Forward) (i o : Str) : Bool :=
  r.incoming.all (deviceHas · i) && r.outgoing.all (deviceHas · o)

/-- The second devices of one round: not the device itself, and not marked in `$a2`. -/
def others (dev a2 : List Str) (a : Str) : List Str :=
  dev.filter fun b => !(looseEq b a || a2.contains b)

/-- The rounds over devices with their positions; `rule0` is the rule of position zero. -/
def rounds (dev : List Str) (rule0 : Str → Forward) (pol : Str) : List (Str × Nat) → List Str → List Forward
  | [], _ => []
  | (a,x)::xs, a2 =>
    (if x = 0 then [rule0 a] else []) ++ (others dev a2 a).map (fun b => ⟨some a,some b,pol⟩) ++
      rounds dev rule0 pol xs (a::a2)

/-- `_PPTP_STAT` is the first argument. -/
def policyCreateFwd (pptp : Bool) (opt : Nat) (dev : List Str) (pol : Str) : List Forward :=
  let dev := if pptp then dev ++ [("ppp+" : Str)] else dev
  (if opt = 1 then rounds dev (fun a => ⟨some a,none,pol⟩) pol dev.zipIdx [] else []) ++
  (if opt = 2 then rounds dev (fun a => ⟨none,some a,pol⟩) pol dev.zipIdx.reverse [] else [])

def inbound : Str := "ACL1000-07"

def outbound : Str := "ACL1000-08"

theorem chains_ne : inbound ≠ outbound := by decide

/-- What `policy_init` puts in the chain `ACL1000-09`. -/
def forwardChain (pptp : Bool) (dev : List Str) : List Forward :=
  policyCreateFwd pptp 1 dev inbound ++ policyCreateFwd pptp 2 dev outbound

/-- A packet in by `i` and out by `o` reaches a jump to the chain. -/
def SentTo (rs : List Forward) (chain i o : Str) : Prop := ∃ r ∈ rs, r.matches i o = true ∧ r.target = chain

instance (rs : List Forward) (chain i o : Str) : Decidable (SentTo rs chain i o) :=
  inferInstanceAs (Decidable (∃ r ∈ rs, _))

theorem mem_others {dev a2 : List Str} {a b : Str} :
    b ∈ others dev a2 a ↔ b ∈ dev ∧ looseEq b a = false ∧ b ∉ a2 := by
  simp [others,List.mem_filter]

/-- The marks are the devices of the rounds before, so a round pairs its device with the later ones only. -/
theorem mem_rounds {dev : List Str} (rule0 : Str → Forward) (pol : Str) (r : Forward) (xs : List (Str × Nat))
    (a2 : List Str) (hd : (a2 ++ xs.map Prod.fst).Nodup) (hm : ∀ b, b ∈ dev ↔ b ∈ a2 ++ xs.map Prod.fst) :
    r ∈ rounds dev rule0 pol xs a2 ↔ (∃ a, (a,0) ∈ xs ∧ r = rule0 a) ∨
      ∃ a b, [a,b].Sublist (xs.map Prod.fst) ∧ looseEq b a = false ∧ r = ⟨some a,some b,pol⟩ := by
  induction xs generalizing a2 with
  | nil => simp [rounds]
  | cons p xs ih =>
    obtain ⟨a,x⟩ := p
    have hperm : (a2 ++ ((a,x)::xs).map Prod.fst).Perm ((a::a2) ++ xs.map Prod.fst) := by
      simp
    have hi := ih (a::a2) (hperm.nodup_iff.mp hd) (fun b => (hm b).trans hperm.mem_iff)
    have hlater : ∀ b, b ∈ others dev a2 a ↔ b ∈ xs.map Prod.fst ∧ looseEq b a = false := by
      intro b
      rw [mem_others,hm,List.map_cons,List.mem_append,List.mem_cons]
      constructor
      · rintro ⟨hb,hl,hn⟩
        rcases hb with hb | rfl | hb
        · exact absurd hb hn
        · exact absurd hl (by simp)
        · exact ⟨hb,hl⟩
      · rintro ⟨hb,hl⟩
        refine ⟨Or.inr (Or.inr hb),hl,fun hn => ?_⟩
        exact List.disjoint_of_nodup_append hd hn (List.mem_cons_of_mem _ hb)
    rw [rounds,List.mem_append,List.mem_append,hi]
    constructor
    · rintro ((h | h) | ⟨c,hc,rfl⟩ | ⟨c,b,hs,hl,rfl⟩)
      · split at h
        · rename_i hx
          exact Or.inl ⟨a,by simp [hx],by simpa using h⟩
        · simp at h
      · obtain ⟨b,hb,rfl⟩ := List.mem_map.mp h
        obtain ⟨hb,hl⟩ := (hlater b).mp hb
        exact Or.inr ⟨a,b,(List.singleton_sublist.mpr hb).cons_cons a,hl,rfl⟩
      · exact Or.inl ⟨c,List.mem_cons_of_mem _ hc,rfl⟩
      · exact Or.inr ⟨c,b,hs.cons a,hl,rfl⟩
    · rintro (⟨c,hc,rfl⟩ | ⟨c,b,hs,hl,rfl⟩)
      · rcases List.mem_cons.mp hc with he | hc
        · obtain ⟨rfl,rfl⟩ := Prod.mk.inj he
          exact Or.inl (Or.inl (by simp))
        · exact Or.inr (Or.inl ⟨c,hc,rfl⟩)
      · rw [List.map_cons,List.sublist_cons_iff] at hs
        rcases hs with hs | ⟨l,he,hs⟩
        · exact Or.inr (Or.inr ⟨c,b,hs,hl,rfl⟩)
        · obtain ⟨rfl,rfl⟩ := List.cons.inj he
          have hb := (hlater b).mpr ⟨List.singleton_sublist.mp hs,hl⟩
          exact Or.inl (Or.inr (List.mem_map.mpr ⟨b,hb,rfl⟩))

theorem zipIdx_zero {dev : List Str} {a : Str} : (a,0) ∈ dev.zipIdx ↔ dev[0]? = some a := by
  rw [List.mk_mem_zipIdx_iff_getElem?]

theorem mem_inbound {dev : List Str} (hd : dev.Nodup) (pol : Str) (r : Forward) :
    r ∈ policyCreateFwd false 1 dev pol ↔ (∃ a, dev[0]? = some a ∧ r = ⟨some a,none,pol⟩) ∨
      ∃ a b, [a,b].Sublist dev ∧ looseEq b a = false ∧ r = ⟨some a,some b,pol⟩ := by
  have h := @mem_rounds dev (fun a => ⟨some a,none,pol⟩) pol r dev.zipIdx [] (by simpa using hd)
    (by simp)
  simpa [policyCreateFwd,zipIdx_zero] using h

/-- The rules of the second pass: the first device out, and each device with every earlier one. -/
theorem mem_outbound {dev : List Str} (hd : dev.Nodup) (pol : Str) (r : Forward) :
    r ∈ policyCreateFwd false 2 dev pol ↔ (∃ a, dev[0]? = some a ∧ r = ⟨none,some a,pol⟩) ∨
      ∃ a b, [b,a].Sublist dev ∧ looseEq b a = false ∧ r = ⟨some a,some b,pol⟩ := by
  have h := @mem_rounds dev (fun a => ⟨none,some a,pol⟩) pol r dev.zipIdx.reverse []
    (by simpa [List.map_reverse] using hd) (by simp [List.map_reverse])
  have hs : ∀ a b : Str, [a,b].Sublist dev.reverse ↔ [b,a].Sublist dev := by
    intro a b
    rw [← List.reverse_sublist,List.reverse_reverse]
    rfl
  simpa [policyCreateFwd,zipIdx_zero,List.map_reverse,hs] using h

theorem pair_sublist {α : Type} {l : List α} {i j : Nat} (hij : i < j) (hj : j < l.length) :
    [l[i],l[j]].Sublist l :=
  List.pairwise_iff_getElem.mp (List.pairwise_iff_forall_sublist.mpr fun h => h) i j (hij.trans hj) hj hij

theorem not_both_sublist {α : Type} {l : List α} (hd : l.Nodup) {a b : α} (h : [a,b].Sublist l)
    (hh : [b,a].Sublist l) : False := by
  induction l with
  | nil => simp at h
  | cons c l ih =>
    obtain ⟨hc,hl⟩ := List.nodup_cons.mp hd
    rw [List.sublist_cons_iff] at h hh
    rcases h with h | ⟨t,he,ht⟩
    · rcases hh with hh | ⟨u,he,-⟩
      · exact ih hl h hh
      · obtain ⟨rfl,rfl⟩ := List.cons.inj he
        exact hc (h.subset (by simp))
    · obtain ⟨rfl,rfl⟩ := List.cons.inj he
      have hb : b ∈ l := List.singleton_sublist.mp ht
      rcases hh with hh | ⟨u,he,-⟩
      · exact hc (hh.subset (by simp))
      · obtain ⟨rfl,rfl⟩ := List.cons.inj he
        exact hc hb

theorem pair_sublist_iff {α : Type} {l : List α} (hd : l.Nodup) {i j : Nat} (hi : i < l.length)
    (hj : j < l.length) (hne : i ≠ j) : [l[i],l[j]].Sublist l ↔ i < j := by
  refine ⟨fun h => ?_,fun h => pair_sublist h hj⟩
  rcases Nat.lt_or_ge i j with hl | hl
  · exact hl
  · exact (not_both_sublist hd h (pair_sublist (by omega) hi)).elim

/-- A name that ends in a plus sign stands for more than one device. -/
def Wildcard (d : Str) : Prop := d.getLast? = some '+'

instance (d : Str) : Decidable (Wildcard d) := inferInstanceAs (Decidable (_ = _))

@[simp] theorem deviceHas_plain {d : Str} (h : ¬Wildcard d) (x : Str) : deviceHas d x = true ↔ d = x := by
  rw [deviceHas,if_neg (show d.getLast? ≠ some '+' from h),decide_eq_true_eq]

section
variable {dev : List Str} (hd : dev.Nodup) (hw : ∀ d ∈ dev, ¬Wildcard d)

theorem sentTo_append {rs us : List Forward} {chain i o : Str} :
    SentTo (rs ++ us) chain i o ↔ SentTo rs chain i o ∨ SentTo us chain i o := by
  simp only [SentTo,List.mem_append,or_and_right,exists_or]

include hw in
/-- What one pass sends to its chain: its first rule looks at one side of the packet, the others at both. -/
theorem sentTo_pass {rs : List Forward} {rule0 : Str → Forward} {P : Str → Str → Prop} {chain i o side : Str}
    (hr : ∀ r, r ∈ rs ↔ (∃ a, dev[0]? = some a ∧ r = rule0 a) ∨
      ∃ a b, P a b ∧ looseEq b a = false ∧ r = ⟨some a,some b,chain⟩)
    (h₀ : ∀ a, ¬Wildcard a → ((rule0 a).matches i o = true ↔ a = side)) (ht : ∀ a, (rule0 a).target = chain)
    (hp : ∀ a b, P a b → a ∈ dev ∧ b ∈ dev) :
    SentTo rs chain i o ↔ dev[0]? = some side ∨ P i o ∧ looseEq o i = false := by
  have hpair : ∀ {a b}, P a b → ((⟨some a,some b,chain⟩ : Forward).matches i o = true ↔ a = i ∧ b = o) := by
    intro a b hab
    simp [Forward.matches,hw a (hp a b hab).1,hw b (hp a b hab).2]
  constructor
  · rintro ⟨r,hm,hi,-⟩
    rcases (hr r).mp hm with ⟨a,ha,rfl⟩ | ⟨a,b,hs,hl,rfl⟩
    · rw [← (h₀ a (hw a (List.mem_of_getElem? ha))).mp hi]
      exact Or.inl ha
    · obtain ⟨rfl,rfl⟩ := (hpair hs).mp hi
      exact Or.inr ⟨hs,hl⟩
  · rintro (ha | ⟨hs,hl⟩)
    · exact ⟨rule0 side,(hr _).mpr (Or.inl ⟨side,ha,rfl⟩),(h₀ side (hw side (List.mem_of_getElem? ha))).mpr rfl,ht side⟩
    · exact ⟨⟨some i,some o,chain⟩,(hr _).mpr (Or.inr ⟨i,o,hs,hl,rfl⟩),(hpair hs).mpr ⟨rfl,rfl⟩,rfl⟩

theorem not_sentTo {rs : List Forward} {chain other : Str} (hne : other ≠ chain) (ht : ∀ r ∈ rs, r.target = other) (i o : Str) :
    ¬SentTo rs chain i o := fun ⟨r,hr,_,h⟩ => hne ((ht r hr).symm.trans h)

include hd in
theorem target_inbound (r : Forward) (hr : r ∈ policyCreateFwd false 1 dev inbound) : r.target = inbound := by
  rcases (mem_inbound hd _ r).mp hr with ⟨a,-,rfl⟩ | ⟨a,b,-,-,rfl⟩ <;> rfl

include hd in
theorem target_outbound (r : Forward) (hr : r ∈ policyCreateFwd false 2 dev outbound) : r.target = outbound := by
  rcases (mem_outbound hd _ r).mp hr with ⟨a,-,rfl⟩ | ⟨a,b,-,-,rfl⟩ <;> rfl

include hd hw

theorem sentTo_inbound (i o : Str) : SentTo (forwardChain false dev) inbound i o ↔
    dev[0]? = some i ∨ [i,o].Sublist dev ∧ looseEq o i = false := by
  rw [forwardChain,sentTo_append,or_iff_left (not_sentTo chains_ne.symm (target_outbound hd) i o)]
  refine sentTo_pass hw (mem_inbound hd inbound) (fun a ha => ?_) (fun _ => rfl) fun a b hs =>
    ⟨hs.subset (by simp),hs.subset (by simp)⟩
  simp [Forward.matches,ha]

theorem sentTo_outbound (i o : Str) : SentTo (forwardChain false dev) outbound i o ↔
    dev[0]? = some o ∨ [o,i].Sublist dev ∧ looseEq o i = false := by
  rw [forwardChain,sentTo_append,or_iff_right (not_sentTo chains_ne (target_inbound hd) i o)]
  refine sentTo_pass hw (mem_outbound hd outbound) (fun a ha => ?_) (fun _ => rfl) fun a b hs =>
    ⟨hs.subset (by simp),hs.subset (by simp)⟩
  simp [Forward.matches,ha]

end

/-- The direction of a packet forwarded between two of the devices is decided by their order, and the
first device is inbound in and outbound out, whatever the other device is. -/
structure Decides (dev : List Str) : Prop where
  between : ∀ i j (hi : i < dev.length) (hj : j < dev.length), i ≠ j →
    (SentTo (forwardChain false dev) inbound dev[i] dev[j] ↔ i < j) ∧
    (SentTo (forwardChain false dev) outbound dev[i] dev[j] ↔ j < i)
  first_in : ∀ d o, dev[0]? = some d → SentTo (forwardChain false dev) inbound d o
  first_out : ∀ d i, dev[0]? = some d → SentTo (forwardChain false dev) outbound i d

/-- Behind the first device no two are equal by `==`. -/
def ToldApart (dev : List Str) : Prop := dev.tail.Pairwise fun a b => looseEq a b = false

instance (dev : List Str) : Decidable (ToldApart dev) := inferInstanceAs (Decidable (List.Pairwise _ _))

theorem toldApart_iff {dev : List Str} : ToldApart dev ↔
    ∀ i j (hi : i < dev.length) (hj : j < dev.length), 0 < i → 0 < j → i ≠ j → looseEq dev[i] dev[j] = false := by
  rw [ToldApart,List.pairwise_iff_getElem]
  constructor
  · intro h
    have key : ∀ i j (hi : i < dev.length) (hj : j < dev.length), 0 < i → i < j → looseEq dev[i] dev[j] = false := by
      intro i j hi hj h₀ hij
      have hh := h (i - 1) (j - 1) (by simp; omega) (by simp; omega) (by omega)
      simpa [List.getElem_tail,Nat.sub_add_cancel h₀,Nat.sub_add_cancel (show 1 ≤ j by omega)] using hh
    intro i j hi hj h₀ h₁ hne
    rcases Nat.lt_or_gt_of_ne hne with hl | hl
    · exact key i j hi hj h₀ hl
    · rw [looseEq_comm]
      exact key j i hj hi h₁ hl
  · intro h i j hi hj hij
    simp only [List.length_tail] at hi hj
    simpa [List.getElem_tail] using h (i + 1) (j + 1) (by omega) (by omega) (by omega) (by omega) (by omega)

/-- The direction is decided exactly when `==` tells the devices behind the first one apart. -/
theorem decides_iff {dev : List Str} (hd : dev.Nodup) (hw : ∀ d ∈ dev, d ≠ [] ∧ ¬Wildcard d) :
    Decides dev ↔ ToldApart dev := by
  have hw' : ∀ d ∈ dev, ¬Wildcard d := fun d h => (hw d h).2
  have hzero : ∀ i (hi : i < dev.length), dev[0]? = some dev[i] ↔ i = 0 := by
    intro i hi
    rw [List.getElem?_eq_some_iff]
    exact ⟨fun ⟨h₀,he⟩ => ((hd.getElem_inj_iff).mp he).symm,fun he => ⟨by omega,by simp [he]⟩⟩
  rw [toldApart_iff]
  constructor
  · intro h i j hi hj h₀ h₁ hne
    obtain ⟨hin,hout⟩ := h.between i j hi hj hne
    rw [looseEq_comm]
    rcases Nat.lt_or_gt_of_ne hne with hl | hl
    · rcases (sentTo_inbound hd hw' _ _).mp (hin.mpr hl) with hh | hh
      · exact absurd ((hzero i hi).mp hh) (by omega)
      · exact hh.2
    · rcases (sentTo_outbound hd hw' _ _).mp (hout.mpr hl) with hh | hh
      · exact absurd ((hzero j hj).mp hh) (by omega)
      · exact hh.2
  · intro h
    refine ⟨fun i j hi hj hne => ⟨?_,?_⟩,fun d o h₀ => ?_,fun d i h₀ => ?_⟩
    · rw [sentTo_inbound hd hw',hzero i hi,pair_sublist_iff hd hi hj hne]
      constructor
      · rintro (rfl | ⟨hl,-⟩) <;> omega
      · intro hl
        rcases Nat.eq_zero_or_pos i with h₀ | h₀
        · exact Or.inl h₀
        · exact Or.inr ⟨hl,h j i hj hi (by omega) h₀ hne.symm⟩
    · rw [sentTo_outbound hd hw',hzero j hj,pair_sublist_iff hd hj hi hne.symm]
      constructor
      · rintro (rfl | ⟨hl,-⟩) <;> omega
      · intro hl
        rcases Nat.eq_zero_or_pos j with h₀ | h₀
        · exact Or.inl h₀
        · exact Or.inr ⟨hl,h j i hj hi h₀ (by omega) hne.symm⟩
    · exact (sentTo_inbound hd hw' _ _).mpr (Or.inl h₀)
    · exact (sentTo_outbound hd hw' _ _).mpr (Or.inl h₀)

theorem decides_three : Decides [("eth0" : Str),"eth1","eth2"] :=
  (decides_iff (by decide) (by decide)).mpr (by decide)

/-- Two devices whose names are one number: nothing forwarded between them is sent anywhere. -/
theorem not_decides_numbers : ¬∀ dev : List Str, dev.Nodup → (∀ d ∈ dev, d ≠ [] ∧ ¬Wildcard d) → Decides dev := by
  intro h
  have hd := (h [("eth0" : Str),"1","01"] (by decide) (by decide)).between 1 2 (by decide) (by decide) (by decide)
  exact absurd (hd.1.mpr (by decide)) (by decide)

end PolicyDirection
end Mybox
