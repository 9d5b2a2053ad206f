import Mybox.AdminPolicy

/-! What the table of administrative access decides, and when it is what the access list says. -/
namespace Mybox
namespace AdminPolicy
open Php PacketFilter

variable (g : Setting)

theorem joined_word (ps : List Port) : joined ps = [] ∨ PlainWord (joined ps) := by
  by_cases h : joined ps = []
  · exact Or.inl h
  · refine Or.inr ⟨h,?_⟩
    have hc : ∀ c ∈ joined ps, c = ',' ∨ '0' ≤ c ∧ c ≤ '9' := by
      induction ps using List.reverseRecOn with
      | nil => exact fun c hc => by cases hc
      | append_singleton ps p ih =>
        intro c hc
        rw [joined_concat] at hc
        split at hc
        · exact Or.inr (digit_portText p c hc)
        · rcases List.mem_append.mp hc with hc | hc
          · exact ih (List.ne_nil_of_mem hc) c hc
          · rcases List.mem_cons.mp hc with rfl | hc
            · exact Or.inl rfl
            · exact Or.inr (digit_portText p c hc)
    intro c hm
    rcases hc c hm with rfl | hd
    · decide
    · refine ⟨?_,?_,?_⟩ <;> rintro rfl <;> revert hd <;> decide

def Words (ws : List Word) : Prop := ∀ w ∈ ws, w = [] ∨ PlainWord w

theorem words_constants {ws : List Word} (h : ∀ w ∈ ws, PlainWord w) : Words ws := fun w hw => Or.inr (h w hw)

theorem words_cons {w : Word} {ws : List Word} (h : w = [] ∨ PlainWord w) (hs : Words ws) : Words (w::ws) :=
  List.forall_mem_cons.mpr ⟨h,hs⟩

theorem udpRules_words (acl : List Text) {port : Str} (h : PlainWord port) : ∀ ws ∈ udpRules g acl port, Words ws := by
  intro ws hws
  unfold udpRules at hws
  split at hws
  · cases hws
  · rcases List.mem_append.mp hws with hws | hws
    · obtain ⟨s,-,hws⟩ := List.mem_flatMap.mp hws
      obtain ⟨ip,-,rfl⟩ := List.mem_map.mp hws
      exact words_cons (Or.inr (by decide)) (words_cons s.2 (words_cons (Or.inr (by decide)) (words_cons ip.2
        (words_constants (by simp [h]; decide)))))
    · obtain ⟨ip,-,rfl⟩ := List.mem_map.mp hws
      exact words_cons (Or.inr (by decide)) (words_cons ip.2 (words_constants (by simp [h]; decide)))

theorem dns_words : ∀ ws ∈ doPolicyDns g, Words ws := by
  intro ws hws
  unfold doPolicyDns at hws
  split at hws
  · cases hws
  · rcases List.mem_append.mp hws with hws | hws
    · obtain ⟨s,-,hws⟩ := List.mem_flatMap.mp hws
      obtain ⟨ip,-,hws⟩ := List.mem_flatMap.mp hws
      simp only [List.mem_cons,List.not_mem_nil,or_false] at hws
      rcases hws with rfl | rfl
      all_goals exact words_cons (Or.inr (by decide)) (words_cons s.2 (words_cons (Or.inr (by decide)) (words_cons ip.2
        (words_constants (by decide)))))
    · obtain ⟨ip,-,hws⟩ := List.mem_flatMap.mp hws
      simp only [List.mem_cons,List.not_mem_nil,or_false] at hws
      rcases hws with rfl | rfl
      all_goals exact words_cons (Or.inr (by decide)) (words_cons ip.2 (words_constants (by decide)))

theorem rules_words : ∀ ws ∈ rules g, Words ws := by
  intro ws hws
  simp only [rules,List.mem_append] at hws
  rcases hws with (((hws | hws) | hws) | hws) | hws
  · obtain ⟨r,-,hws⟩ := List.mem_flatMap.mp hws
    unfold rowRules at hws
    split at hws
    · cases hws
    · obtain ⟨ip,-,rfl⟩ := List.mem_map.mp hws
      rw [aport_joined]
      exact words_cons (Or.inr (by decide)) (words_cons r.ip.2 (words_cons (Or.inr (by decide)) (words_cons ip.2
        fun w hw => by
          simp only [List.mem_cons,List.not_mem_nil,or_false] at hw
          rcases hw with rfl | rfl | rfl | rfl | rfl | rfl | rfl | rfl | rfl | rfl
          case inr.inr.inr.inr.inr.inr.inr.inl => exact joined_word _
          all_goals exact Or.inr (by decide))))
  · exact udpRules_words g _ (portText_plain _) ws hws
  · exact udpRules_words g _ (by decide) ws hws
  · exact dns_words g ws hws
  · obtain ⟨ip,-,rfl⟩ := List.mem_map.mp hws
    rw [aclPort_joined]
    exact words_cons (Or.inr (by decide)) (words_cons ip.2 fun w hw => by
      simp only [List.mem_cons,List.not_mem_nil,or_false] at hw
      rcases hw with rfl | rfl | rfl | rfl | rfl | rfl | rfl | rfl | rfl | rfl
      case inr.inr.inr.inr.inr.inr.inr.inl => exact joined_word _
      all_goals exact Or.inr (by decide))

theorem load_eq (hi : policyGetData g ≠ []) : load (doPolicyAdmin g) =
    if ∀ ws ∈ rules g, ruleOf ws ≠ none then some ((rules g).filterMap ruleOf) else none := by
  have hf := @foldlM_appends _ ruleLine ruleOf (rules g) (fun ws hws => ruleLine_appends (rules_words g ws hws)) []
  rw [doPolicyAdmin,if_neg hi,load,if_pos ⟨rfl,rfl,List.getLast?_concat⟩,List.dropLast_concat,hf]
  rfl

theorem verdict_append (types : Types) (c : Word) (rs qs : List ChainRule) (f : Frame) :
    verdict types c (rs ++ qs) f = (verdict types c rs f).or (verdict types c qs f) := by
  unfold verdict
  rw [List.find?_append]
  cases rs.find? fun r => r.chain = c && r.matches types f <;> rfl

theorem verdict_target {types : Types} {c target : Word} {rs : List ChainRule} (h : ∀ r ∈ rs, r.chain = c ∧ r.target = target)
    (f : Frame) [Decidable (∃ r ∈ rs, r.matches types f = true)] :
    verdict types c rs f = if ∃ r ∈ rs, r.matches types f = true then some target else none := by
  unfold verdict
  cases hf : rs.find? fun r => r.chain = c && r.matches types f with
  | none =>
    rw [if_neg]
    · rfl
    · rintro ⟨r,hr,hm⟩
      have := List.find?_eq_none.mp hf r hr
      rw [(h r hr).1,hm] at this
      simp at this
  | some r =>
    have hr := List.mem_of_find?_eq_some hf
    have hm := List.find?_some hf
    rw [Bool.and_eq_true] at hm
    rw [if_pos ⟨r,hr,hm.2⟩,Option.map_some,(h r hr).2]

section

variable {types : Types} {src dst sport : ℕ} {p : Port} {device : Str} {mac : List ℕ}

theorem tcpTests_match (ps : List Port) :
    ((tcpTests (ps.map one)).all fun t => t.matches types (packet src dst sport p device mac)) = true ↔ p ∈ ps := by
  have hp : ((ps.map one).any fun r => r.has p.val) = true ↔ p ∈ ps := by
    rw [List.any_map,List.any_eq_true]
    constructor
    · rintro ⟨q,hq,h⟩
      simp only [Function.comp,one,Range.has,Bool.and_eq_true] at h
      exact Fin.ext (Nat.le_antisymm (of_decide_eq_true h.1) (of_decide_eq_true h.2)) ▸ hq
    · intro hq
      exact ⟨p,hq,by simp [one,Range.has]⟩
  simp only [tcpTests,List.all_cons,List.all_nil,Bool.and_true,Test.matches,packet,Payload.dport,Option.any_some]
  rw [← hp]
  simp [Opt.matches,Payload.proto,Module.sees]

theorem udpTests_match (os : List Opt) :
    ((protoTests false os).all fun t => t.matches types (packet src dst sport p device mac)) = false := by
  simp [protoTests,Test.matches,Opt.matches,packet,Payload.proto]

theorem dnsTests_match (os : List Opt) :
    ((protoTests true os).all fun t => t.matches types (packet src dst sport p device mac)) = true ↔
      ∀ o ∈ os, o.matches types ⟨src,dst,.tcp sport p⟩ = true := by
  simp [protoTests,Test.matches,Opt.matches,packet,Payload.proto,Module.sees]

theorem srcRule_kind {s ip : Word} {ts : List Test} {r : ChainRule} (h : srcRule s ip ts = some r) :
    r.chain = chain ∧ r.target = ("ACCEPT" : Str) := by
  obtain ⟨n,-,h⟩ := Option.bind_eq_some_iff.mp h
  obtain ⟨m,-,rfl⟩ := Option.map_eq_some_iff.mp h
  exact ⟨rfl,rfl⟩

theorem intRule_kind {ip : Word} {ts : List Test} {r : ChainRule} (h : intRule ip ts = some r) :
    r.chain = chain ∧ r.target = ("DROP" : Str) := by
  obtain ⟨m,-,rfl⟩ := Option.map_eq_some_iff.mp h
  exact ⟨rfl,rfl⟩

def Hits (types : Types) (f : Frame) (o : Option ChainRule) : Prop := ∃ r, o = some r ∧ r.matches types f = true

theorem srcRule_hits {s ip : Text} {ts : List Test} :
    Hits types (packet src dst sport p device mac) (srcRule s.1 ip.1 ts) ↔ Within s src ∧ Within ip dst ∧
      (ts.all fun t => t.matches types (packet src dst sport p device mac)) = true := by
  unfold Hits Within srcRule
  cases PacketFilter.net s.1 with
  | none => simp
  | some n =>
    cases PacketFilter.net ip.1 with
    | none => simp
    | some m => simp [ChainRule.matches,Test.matches,Opt.matches,packet]

theorem intRule_hits {ip : Text} {ts : List Test} :
    Hits types (packet src dst sport p device mac) (intRule ip.1 ts) ↔ Within ip dst ∧
      (ts.all fun t => t.matches types (packet src dst sport p device mac)) = true := by
  unfold Hits Within intRule
  cases PacketFilter.net ip.1 with
  | none => simp
  | some m => simp [ChainRule.matches,Test.matches,Opt.matches,packet]

/-- A group of rules with one target decides on what one of them matches. -/
theorem verdict_group {wss : List (List Str)} {target : Str} {f : Frame} {P : Prop} [Decidable P]
    (h : ∀ ws ∈ wss, ∀ r, ruleOf ws = some r → r.chain = chain ∧ r.target = target)
    (hp : (∃ ws ∈ wss, Hits types f (ruleOf ws)) ↔ P) :
    verdict types chain (wss.filterMap ruleOf) f = if P then some target else none := by
  classical
  have ht : ∀ r ∈ wss.filterMap ruleOf, r.chain = chain ∧ r.target = target := by
    intro r hr
    obtain ⟨ws,hws,hr⟩ := List.mem_filterMap.mp hr
    exact h ws hws r hr
  rw [verdict_target ht]
  refine if_congr (Iff.trans ?_ hp) rfl rfl
  constructor
  · rintro ⟨r,hr,hm⟩
    obtain ⟨ws,hws,hr⟩ := List.mem_filterMap.mp hr
    exact ⟨ws,hws,r,hr,hm⟩
  · rintro ⟨ws,hws,r,hr,hm⟩
    exact ⟨r,List.mem_filterMap.mpr ⟨ws,hws,hr⟩,hm⟩

def RowHit (src dst : ℕ) (p : Port) : Prop :=
  ∃ r ∈ g.accesslist, r.stat = true ∧ p ∈ rowPorts g r ∧ Within r.ip src ∧ ∃ ip ∈ policyGetData g, Within ip dst

theorem within_ne {ip : Text} {a : ℕ} (h : Within ip a) : ip.1 ≠ [] := by
  obtain ⟨n,hn,-⟩ := h
  intro he
  rw [he] at hn
  cases hn

theorem access_verdict [Decidable (RowHit g src dst p)] :
    verdict types chain ((accessRules g).filterMap ruleOf) (packet src dst sport p device mac) =
      if RowHit g src dst p then some ("ACCEPT" : Str) else none := by
  have hmem : ∀ ws ∈ accessRules g, ∃ r ∈ g.accesslist, r.stat = true ∧ rowPorts g r ≠ [] ∧ ∃ ip ∈ policyGetData g,
      ruleOf ws = srcRule r.ip.1 ip.1 (tcpTests ((rowPorts g r).map one)) := by
    intro ws hws
    obtain ⟨r,hr,hws⟩ := List.mem_flatMap.mp hws
    obtain ⟨hr,hs⟩ := List.mem_filter.mp hr
    rw [rowRules,aport_joined] at hws
    split at hws
    · cases hws
    · rename_i hp
      obtain ⟨ip,hip,rfl⟩ := List.mem_map.mp hws
      have hp : rowPorts g r ≠ [] := fun h => hp (joined_eq_nil.mpr h)
      exact ⟨r,hr,hs,hp,ip,List.mem_of_mem_filter hip,ruleOf_accept _ _ hp⟩
  refine verdict_group (fun ws hws r hr => ?_) ⟨?_,?_⟩
  · obtain ⟨_,_,_,_,ip,_,he⟩ := hmem ws hws
    exact srcRule_kind (he.symm.trans hr)
  · rintro ⟨ws,hws,hh⟩
    obtain ⟨r,hr,hs,-,ip,hip,he⟩ := hmem ws hws
    rw [he,srcRule_hits,tcpTests_match] at hh
    exact ⟨r,hr,hs,hh.2.2,hh.1,ip,hip,hh.2.1⟩
  · rintro ⟨r,hr,hs,hp,hsrc,ip,hip,hdst⟩
    have hne : rowPorts g r ≠ [] := List.ne_nil_of_mem hp
    refine ⟨acceptWords r.ip.1 ip.1 (aport g r),List.mem_flatMap.mpr ⟨r,List.mem_filter.mpr ⟨hr,hs⟩,?_⟩,?_⟩
    · rw [rowRules,if_neg (by rw [aport_joined,joined_eq_nil]; exact hne)]
      exact List.mem_map_of_mem (List.mem_filter.mpr ⟨hip,by simpa using within_ne hdst⟩)
    · rw [aport_joined,ruleOf_accept _ _ hne,srcRule_hits,tcpTests_match]
      exact ⟨hsrc,hdst,hp⟩

/-- No rule for UDP has a connection. -/
theorem udp_verdict (acl : List Text) {port : Str} {r : Range} (hp : port ≠ []) (h : range port = some r) :
    verdict types chain ((udpRules g acl port).filterMap ruleOf) (packet src dst sport p device mac) = none := by
  have hnone : ∀ q ∈ (udpRules g acl port).filterMap ruleOf, q.matches types (packet src dst sport p device mac) = false := by
    intro q hq
    obtain ⟨ws,hws,hq⟩ := List.mem_filterMap.mp hq
    unfold udpRules at hws
    by_contra hm
    rw [Bool.not_eq_false] at hm
    split at hws
    · cases hws
    · rcases List.mem_append.mp hws with hws | hws
      · obtain ⟨s,-,hws⟩ := List.mem_flatMap.mp hws
        obtain ⟨ip,-,rfl⟩ := List.mem_map.mp hws
        rw [ruleOf_udpAccept _ _ hp h] at hq
        have hh := srcRule_hits.mp ⟨q,hq,hm⟩
        rw [udpTests_match] at hh
        cases hh.2.2
      · obtain ⟨ip,-,rfl⟩ := List.mem_map.mp hws
        rw [ruleOf_udpDrop _ hp h] at hq
        have hh := intRule_hits.mp ⟨q,hq,hm⟩
        rw [udpTests_match] at hh
        cases hh.2
  unfold verdict
  rw [List.find?_eq_none.mpr fun q hq => by rw [hnone q hq]; simp]
  rfl

end

section

variable {types : Types} {src dst sport : ℕ} {p : Port} {device : Str} {mac : List ℕ}

def DnsHit (src dst sport : ℕ) (p : Port) : Prop :=
  p = 53 ∧ (53 ≤ sport ∧ sport ≤ 65535) ∧ (∃ s ∈ g.dns, Within s src) ∧ ∃ ip ∈ policyGetData g, Within ip dst

theorem port_dns : (∀ o ∈ ([.dport ⟨53,53⟩] : List Opt), o.matches types ⟨src,dst,.tcp sport p⟩ = true) ↔ p = 53 := by
  have hp : (53 ≤ p.val ∧ p.val ≤ 53) ↔ p = 53 := by
    rw [Fin.ext_iff]
    change _ ↔ p.val = 53
    omega
  rw [← hp]
  simp [Opt.matches,Range.has]

theorem ports_dns : (∀ o ∈ ([.sport ⟨53,65535⟩,.dport ⟨53,53⟩] : List Opt), o.matches types ⟨src,dst,.tcp sport p⟩ = true) ↔
    (53 ≤ sport ∧ sport ≤ 65535) ∧ p = 53 := by
  rw [List.forall_mem_cons,port_dns]
  simp [Opt.matches,Range.has]

/-- The rules for the sources of DNS. -/
theorem dnsAccept_verdict [Decidable (DnsHit g src dst sport p)] :
    verdict types chain ((g.dns.flatMap fun s => (policyGetData g).flatMap fun ip =>
        [dnsAcceptWords "udp" s.1 ip.1,dnsAcceptWords "tcp" s.1 ip.1]).filterMap ruleOf) (packet src dst sport p device mac) =
      if DnsHit g src dst sport p then some ("ACCEPT" : Str) else none := by
  have hudp : ∀ s ip : Text, ruleOf (dnsAcceptWords "udp" s.1 ip.1) =
      srcRule s.1 ip.1 (protoTests false [.sport ⟨53,65535⟩,.dport ⟨53,53⟩]) := fun s ip => ruleOf_dnsAccept s.1 ip.1 false
  have htcp : ∀ s ip : Text, ruleOf (dnsAcceptWords "tcp" s.1 ip.1) =
      srcRule s.1 ip.1 (protoTests true [.sport ⟨53,65535⟩,.dport ⟨53,53⟩]) := fun s ip => ruleOf_dnsAccept s.1 ip.1 true
  refine verdict_group ?_ ⟨?_,?_⟩
  · intro ws hws r hr
    obtain ⟨s,-,hws⟩ := List.mem_flatMap.mp hws
    obtain ⟨ip,-,hws⟩ := List.mem_flatMap.mp hws
    simp only [List.mem_cons,List.not_mem_nil,or_false] at hws
    rcases hws with rfl | rfl
    · exact srcRule_kind ((hudp s ip).symm.trans hr)
    · exact srcRule_kind ((htcp s ip).symm.trans hr)
  · rintro ⟨ws,hws,hh⟩
    obtain ⟨s,hs,hws⟩ := List.mem_flatMap.mp hws
    obtain ⟨ip,hip,hws⟩ := List.mem_flatMap.mp hws
    simp only [List.mem_cons,List.not_mem_nil,or_false] at hws
    rcases hws with rfl | rfl
    · rw [hudp,srcRule_hits,udpTests_match] at hh
      cases hh.2.2
    · rw [htcp,srcRule_hits,dnsTests_match,ports_dns] at hh
      exact ⟨hh.2.2.2,hh.2.2.1,⟨s,hs,hh.1⟩,ip,hip,hh.2.1⟩
  · rintro ⟨hp,hsp,⟨s,hs,hsw⟩,ip,hip,hw⟩
    refine ⟨dnsAcceptWords "tcp" s.1 ip.1,List.mem_flatMap.mpr ⟨s,hs,List.mem_flatMap.mpr ⟨ip,hip,by simp⟩⟩,?_⟩
    rw [htcp,srcRule_hits,dnsTests_match,ports_dns]
    exact ⟨hsw,hw,hsp,hp⟩

/-- The rules that drop what else comes to port 53. -/
theorem dnsDrop_verdict (hdst : ∃ ip ∈ policyGetData g, Within ip dst) :
    verdict types chain (((policyGetData g).flatMap fun ip =>
        [portDropWords "udp" ip.1 "53",portDropWords "tcp" ip.1 "53"]).filterMap ruleOf) (packet src dst sport p device mac) =
      if p = 53 then some ("DROP" : Str) else none := by
  have hudp : ∀ ip : Text, ruleOf (portDropWords "udp" ip.1 "53") = intRule ip.1 (protoTests false [.dport ⟨53,53⟩]) :=
    fun ip => ruleOf_dnsDrop ip.1 false
  have htcp : ∀ ip : Text, ruleOf (portDropWords "tcp" ip.1 "53") = intRule ip.1 (protoTests true [.dport ⟨53,53⟩]) :=
    fun ip => ruleOf_dnsDrop ip.1 true
  refine verdict_group ?_ ⟨?_,?_⟩
  · intro ws hws r hr
    obtain ⟨ip,-,hws⟩ := List.mem_flatMap.mp hws
    simp only [List.mem_cons,List.not_mem_nil,or_false] at hws
    rcases hws with rfl | rfl
    · exact intRule_kind ((hudp ip).symm.trans hr)
    · exact intRule_kind ((htcp ip).symm.trans hr)
  · rintro ⟨ws,hws,hh⟩
    obtain ⟨ip,-,hws⟩ := List.mem_flatMap.mp hws
    simp only [List.mem_cons,List.not_mem_nil,or_false] at hws
    rcases hws with rfl | rfl
    · rw [hudp,intRule_hits,udpTests_match] at hh
      cases hh.2
    · rw [htcp,intRule_hits,dnsTests_match,port_dns] at hh
      exact hh.2
  · intro hp
    obtain ⟨ip,hip,hw⟩ := hdst
    refine ⟨portDropWords "tcp" ip.1 "53",List.mem_flatMap.mpr ⟨ip,hip,by simp⟩,?_⟩
    rw [htcp,intRule_hits,dnsTests_match,port_dns]
    exact ⟨hw,hp⟩

/-- The rules of DNS let their sources in to port 53, and drop what else comes to it. -/
theorem dns_verdict [Decidable (DnsHit g src dst sport p)] (hdst : ∃ ip ∈ policyGetData g, Within ip dst) :
    verdict types chain ((doPolicyDns g).filterMap ruleOf) (packet src dst sport p device mac) =
      if DnsHit g src dst sport p then some ("ACCEPT" : Str)
      else if g.dns ≠ [] ∧ p = 53 then some ("DROP" : Str) else none := by
  unfold doPolicyDns
  by_cases hd : g.dns = []
  · have hn : ¬DnsHit g src dst sport p := by
      rintro ⟨-,-,⟨s,hs,-⟩,-⟩
      rw [hd] at hs
      cases hs
    rw [if_pos hd,if_neg hn,if_neg (fun h => h.1 hd)]
    rfl
  · rw [if_neg hd,List.filterMap_append,verdict_append,dnsAccept_verdict,dnsDrop_verdict g hdst]
    simp only [ne_eq,hd,not_false_eq_true,true_and]
    split <;> rfl

/-- What comes to a port that has been collected is dropped at the end. -/
theorem drop_verdict (hp : p ∈ onPorts g) (hdst : ∃ ip ∈ policyGetData g, Within ip dst) :
    verdict types chain ((dropRules g).filterMap ruleOf) (packet src dst sport p device mac) = some ("DROP" : Str) := by
  have hne : onPorts g ++ proxyPorts g ≠ [] := List.ne_nil_of_mem (List.mem_append_left _ hp)
  have hr : ∀ ip : Text, ruleOf (dropWords ip.1 (aclPort g)) = intRule ip.1 (tcpTests ((onPorts g ++ proxyPorts g).map one)) := by
    intro ip
    rw [aclPort_joined,ruleOf_drop,if_neg hne]
  refine (verdict_group (P := True) (fun ws hws r hrr => ?_) (iff_of_true ?_ trivial)).trans (if_pos trivial)
  · obtain ⟨ip,-,rfl⟩ := List.mem_map.mp hws
    exact intRule_kind ((hr ip).symm.trans hrr)
  · obtain ⟨ip,hip,hw⟩ := hdst
    refine ⟨dropWords ip.1 (aclPort g),List.mem_map_of_mem hip,?_⟩
    rw [hr,intRule_hits,tcpTests_match]
    exact ⟨hw,List.mem_append_left _ hp⟩

/-- The verdict on a connection to the port of a service that is on. -/
theorem rules_verdict {t : Admin} (ht : On g t p) (hdst : ∃ ip ∈ policyGetData g, Within ip dst)
    [Decidable (RowHit g src dst p ∨ DnsHit g src dst sport p)] :
    verdict types chain ((rules g).filterMap ruleOf) (packet src dst sport p device mac) =
      some (if RowHit g src dst p ∨ DnsHit g src dst sport p then ("ACCEPT" : Str) else "DROP") := by
  classical
  have hsnmp : verdict types chain ((doPolicySnmp g).filterMap ruleOf) (packet src dst sport p device mac) = none :=
    udp_verdict g g.snmp (portText_ne g.snmpPort) (range_portText g.snmpPort)
  have hntp : verdict types chain ((doPolicyNtp g).filterMap ruleOf) (packet src dst sport p device mac) = none :=
    udp_verdict g g.ntp (show ("123" : Str) ≠ [] by decide) (show range ("123" : Str) = some ⟨123,123⟩ by decide)
  have hp : p ∈ onPorts g := (mem_onPorts g).mpr ⟨t,ht⟩
  simp only [rules,List.filterMap_append,verdict_append]
  rw [access_verdict,hsnmp,hntp,dns_verdict g hdst,drop_verdict g hp hdst]
  by_cases h₁ : RowHit g src dst p
  · simp [h₁]
  · by_cases h₂ : DnsHit g src dst sport p
    · simp [h₁,h₂]
    · simp only [h₁,h₂,if_false,or_self]
      split <;> rfl

end

theorem rowHit_iff {src dst : ℕ} {p : Port} (hdst : ∃ ip ∈ policyGetData g, Within ip dst) :
    RowHit g src dst p ↔ ∃ t, On g t p ∧ Granted g t src := by
  constructor
  · rintro ⟨r,hr,hs,hp,hw,-⟩
    obtain ⟨t,ht,hg⟩ := (mem_rowPorts g).mp hp
    exact ⟨t,ht,r,hr,hs,hg,hw⟩
  · rintro ⟨t,ht,r,hr,hs,hg,hw⟩
    exact ⟨r,hr,hs,(mem_rowPorts g).mpr ⟨t,ht,hg⟩,hw,hdst⟩

theorem rowPorts_ne {r : AccessRow} : rowPorts g r ≠ [] ↔ ∃ t p, On g t p ∧ r.grants t = true := by
  constructor
  · intro h
    obtain ⟨p,hp⟩ := List.exists_mem_of_ne_nil _ h
    obtain ⟨t,ht⟩ := (mem_rowPorts g).mp hp
    exact ⟨t,p,ht⟩
  · rintro ⟨t,p,ht⟩
    exact List.ne_nil_of_mem ((mem_rowPorts g).mpr ⟨t,ht⟩)

theorem net_has_addr (n : Net) : n.has n.addr = true := by simp [Net.has]

/-- The access list is enforced exactly if there is no address to be reached, or every text stands for an address, some
port is collected, and no other rule lets anybody in to the port of a service. -/
theorem enforced_iff : Enforced g ↔ policyGetData g = [] ∨ Clear g := by
  classical
  unfold Enforced
  by_cases hi : policyGetData g = []
  · exact iff_of_true (Or.inl hi) (Or.inl hi)
  · rw [or_iff_right hi,or_iff_right hi,load_eq g hi]
    have hreadable := readable_iff g hi
    simp only [rowPorts_ne,ports_ne_nil] at hreadable
    constructor
    · rintro ⟨rs,hl,hv⟩
      split at hl
      · rename_i hall
        cases hl
        obtain ⟨ha,hrow,hsource,hport⟩ := hreadable.mp hall
        refine ⟨ha,hrow,hsource,hport,fun t p ht src hsrc hlets => ?_⟩
        obtain ⟨ip,hip⟩ := List.exists_mem_of_ne_nil _ hi
        obtain ⟨n,hn⟩ := Option.ne_none_iff_exists'.mp (ha ip hip)
        have hdst : ∃ ip ∈ policyGetData g, Within ip n.addr := ⟨ip,hip,n,hn,net_has_addr n⟩
        have hhit : RowHit g src n.addr p ∨ DnsHit g src n.addr 53 p := by
          rcases hlets with h | ⟨hp,hs⟩
          · exact Or.inl ((rowHit_iff g hdst).mpr h)
          · exact Or.inr ⟨hp,by decide,hs,hdst⟩
        refine (hv t p ht (fun _ _ _ => true) src n.addr 53 [] [] hsrc (by decide) hdst).1.mp ?_
        rw [rules_verdict g ht hdst,if_pos hhit]
      · cases hl
    · rintro ⟨ha,hrow,hsource,hport,honly⟩
      refine ⟨_,if_pos (hreadable.mpr ⟨ha,hrow,hsource,hport⟩),fun t p ht types src dst sport device mac hsrc hsp hdst => ?_⟩
      have hhit : RowHit g src dst p ∨ DnsHit g src dst sport p ↔ Granted g t src := by
        constructor
        · rintro (h | ⟨hp,-,hs,-⟩)
          · exact honly t p ht src hsrc (Or.inl ((rowHit_iff g hdst).mp h))
          · exact honly t p ht src hsrc (Or.inr ⟨hp,hs⟩)
        · exact fun h => Or.inl ((rowHit_iff g hdst).mpr ⟨t,ht,h⟩)
      rw [rules_verdict g ht hdst,← hhit]
      by_cases h : RowHit g src dst p ∨ DnsHit g src dst sport p
      · simp only [h,if_true,not_true,iff_false,true_and]
        decide
      · simp only [h,if_false,not_false_iff,and_true,iff_false]
        decide

def closed : Setting where
  ipaddr := [⟨"10.0.0.1",Or.inr (by decide)⟩]
  ipalias := []
  vlan := []
  https := some ⟨5051,false⟩
  ssh := some ⟨5052,false⟩
  ftp := some ⟨5053,false⟩
  accesslist := []
  snmpPort := 161
  snmp := []
  ntp := []
  dns := []
  httpProxyPort := none
  ftpProxyPort := none
  mailProxyPort := none

example : doPolicyAdmin closed = ["*filter",":ACL1000-01 - [0:0]",
    "-A ACL1000-01 -d 10.0.0.1 -p tcp -m tcp -m multiport --dports  -j DROP","COMMIT"] := by decide

/-- With every service off the list of ports is empty, and the rule that drops cannot be read. -/
theorem closed_rejected : ¬∀ g, Enforced g := by
  intro h
  rcases h closed with hi | ⟨rs,hl,-⟩
  · exact absurd hi (by decide)
  · have hn : load (doPolicyAdmin closed) = none := by decide
    rw [hn] at hl
    cases hl

end AdminPolicy
end Mybox
