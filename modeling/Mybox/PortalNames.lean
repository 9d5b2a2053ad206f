import Mybox.Portal

/-! Names of the session files of the captive portal: the loops over the files read the addresses back out of the
names that the logins give them. -/
namespace Mybox
namespace Portal
open Php

def Address (ip : Str) : Prop := (split '.' ip).length = 4 ∧ ∀ p ∈ split '.' ip, p ≠ [] ∧ ∀ c ∈ p, digit c = true

/-- Six pairs of hexadecimal digits with colons between them. -/
def Hardware (mac : Str) : Prop :=
  (split ':' mac).length = 6 ∧ ∀ p ∈ split ':' mac, p.length = 2 ∧ ∀ c ∈ p, hexDigit c = true

instance (ip : Str) : Decidable (Address ip) := inferInstanceAs (Decidable (_ ∧ _))

instance (mac : Str) : Decidable (Hardware mac) := inferInstanceAs (Decidable (_ ∧ _))

theorem dottedRuns_flatMap {ps : List Str} (h : ∀ p ∈ ps, p ≠ [] ∧ ∀ c ∈ p, digit c = true) (r : Str) :
    dottedRuns ps.length (ps.flatMap (· ++ ['.']) ++ r) = some (ps.flatMap (· ++ ['.']),r) := by
  induction ps with
  | nil => rfl
  | cons p ps ih =>
    obtain ⟨hne,hd⟩ := h p (by simp)
    have hs : (p::ps).flatMap (· ++ ['.']) ++ r = p ++ '.'::(ps.flatMap (· ++ ['.']) ++ r) := by simp
    have hdot : digit '.' = false := by decide
    rw [hs,List.length_cons,dottedRuns,List.takeWhile_append_of_pos hd,List.dropWhile_append_of_pos hd,
      List.takeWhile_cons_of_neg (by simp [hdot]),List.dropWhile_cons_of_neg (by simp [hdot])]
    simp only [List.append_nil]
    rw [if_neg hne,ih fun q hq => h q (List.mem_cons_of_mem p hq)]
    simp

/-- An address with a dot behind it is the runs of digits in front of a name. -/
theorem dottedRuns_address {ip : Str} (h : Address ip) (r : Str) :
    dottedRuns 4 (fileName ip r) = some (ip ++ ['.'],r) := by
  have hne : split '.' ip ≠ [] := fun he => by
    have := h.1
    rw [he] at this
    cases this
  have hi : ['.'].intercalate (split '.' ip) = ip := List.intercalate_splitOn '.'
  have hc := LineText.intercalate_concat '.' hne
  rw [hi] at hc
  have hf : fileName ip r = (split '.' ip).flatMap (· ++ ['.']) ++ r := by
    rw [← hc]
    simp [fileName]
  have hd := dottedRuns_flatMap h.2 r
  rw [h.1,← hf,← hc] at hd
  exact hd

theorem hexDigit_black {c : Char} (h : hexDigit c = true) : regexSpace c = false ∧ trimChar c = false ∧ c ≠ ':' := by
  refine ⟨?_,?_,?_⟩
  · by_contra hs
    simp only [regexSpace,Bool.not_eq_false,Bool.or_eq_true,decide_eq_true_eq] at hs
    rcases hs with (((rfl | rfl) | rfl) | rfl) | rfl <;> revert h <;> decide
  · by_contra hs
    simp only [trimChar,Bool.not_eq_false,Bool.or_eq_true,decide_eq_true_eq] at hs
    rcases hs with ((((rfl | rfl) | rfl) | rfl) | rfl) | rfl <;> revert h <;> decide
  · rintro rfl
    revert h
    decide

theorem coloned_pairs {ps : List Str} (h : ∀ p ∈ ps, p.length = 2 ∧ ∀ c ∈ p, hexDigit c = true) (hne : ps ≠ []) :
    coloned (ps.length - 1) ([':'].intercalate ps) = true := by
  induction ps with
  | nil => exact absurd rfl hne
  | cons p ps ih =>
    obtain ⟨hl,hx⟩ := h p (by simp)
    obtain ⟨a,b,rfl⟩ := List.length_eq_two.mp hl
    cases ps with
    | nil => simp [coloned]
    | cons q ps =>
      have hb := (hexDigit_black (hx b (by simp))).2.2
      rw [List.intercalate_cons_cons]
      simp only [List.length_cons,Nat.add_sub_cancel,List.cons_append,List.nil_append,coloned,List.tail_cons]
      rw [List.dropWhile_cons_of_pos (by simpa using hb),List.dropWhile_cons_of_neg (by simp)]
      exact ih (fun p hp => h p (List.mem_cons_of_mem _ hp)) (by simp)

theorem hardware_black {mac : Str} (h : Hardware mac) : ∀ c ∈ mac, c = ':' ∨ hexDigit c = true := by
  have hi : [':'].intercalate (split ':' mac) = mac := List.intercalate_splitOn ':'
  have hne : split ':' mac ≠ [] := fun he => by
    have := h.1
    rw [he] at this
    cases this
  have hc := LineText.intercalate_concat ':' hne
  rw [hi] at hc
  intro c hm
  have hf : c ∈ (split ':' mac).flatMap (· ++ [':']) := hc ▸ List.mem_append_left _ hm
  obtain ⟨p,hp,hcp⟩ := List.mem_flatMap.mp hf
  rcases List.mem_append.mp hcp with hcp | hcp
  · exact Or.inr ((h.2 p hp).2 c hcp)
  · exact Or.inl (List.mem_singleton.mp hcp)

/-- The parts of a file name are the addresses it is made of. -/
theorem nameParts_fileName {ip mac : Str} (hi : Address ip) (hm : Hardware mac) :
    nameParts (fileName ip mac) = some (ip,mac) := by
  have hc : ∀ c ∈ mac, (!regexSpace c) = true := by
    intro c hc
    rcases hardware_black hm c hc with rfl | h
    · rfl
    · rw [(hexDigit_black h).1]
      rfl
  have ht : mac.takeWhile (fun c => !regexSpace c) = mac := List.takeWhile_eq_self_iff.mpr hc
  have hcol : coloned 5 mac = true := by
    have hne : split ':' mac ≠ [] := fun he => by
      have := hm.1
      rw [he] at this
      cases this
    have h := coloned_pairs hm.2 hne
    rw [hm.1] at h
    rwa [show [':'].intercalate (split ':' mac) = mac from List.intercalate_splitOn ':'] at h
  have hp : partsAt (fileName ip mac) = some (ip,mac) := by
    rw [partsAt,dottedRuns_address hi]
    dsimp only
    rw [ht,if_pos hcol,List.dropLast_concat]
  cases hf : fileName ip mac with
  | nil => simp [fileName] at hf
  | cons c s =>
    rw [nameParts,← hf,hp]
    rfl

theorem replicate_sublist {α : Type} (c : α) (ps : List (List α)) :
    List.Sublist (List.replicate ps.length c) (ps.flatMap (· ++ [c])) := by
  induction ps with
  | nil => exact .slnil
  | cons p ps ih =>
    rw [List.flatMap_cons,List.length_cons,List.replicate_succ,← List.singleton_append]
    exact (List.sublist_append_right p [c]).append ih

theorem listed_fileName {ip mac : Str} (hi : Address ip) (hm : Hardware mac) : listed (fileName ip mac) = true := by
  have hie : split '.' ip ≠ [] := fun he => by
    have := hi.1
    rw [he] at this
    cases this
  have hme : split ':' mac ≠ [] := fun he => by
    have := hm.1
    rw [he] at this
    cases this
  have hdots : List.Sublist ("....".toList) (ip ++ ['.']) := by
    have h := replicate_sublist '.' (split '.' ip)
    rw [← LineText.intercalate_concat '.' hie,hi.1] at h
    rwa [show ['.'].intercalate (split '.' ip) = ip from List.intercalate_splitOn '.'] at h
  have hcolons : List.Sublist (":::::".toList) mac := by
    have h := replicate_sublist ':' (split ':' mac)
    rw [← LineText.intercalate_concat ':' hme,hm.1] at h
    rw [show [':'].intercalate (split ':' mac) = mac from List.intercalate_splitOn ':'] at h
    have h' : List.Sublist (":::::".toList ++ [':']) (mac ++ [':']) := h
    exact (List.append_sublist_append_right [':']).mp h'
  have hhead : (fileName ip mac).head? ≠ some '.' := by
    intro hd
    have hr := dottedRuns_address hi mac
    cases hf : fileName ip mac with
    | nil => simp [fileName] at hf
    | cons c s =>
      rw [hf,List.head?_cons,Option.some.injEq] at hd
      rw [hf,hd] at hr
      have hdot : digit '.' = false := by decide
      rw [dottedRuns,List.takeWhile_cons_of_neg (by simp [hdot]),List.dropWhile_cons_of_neg (by simp [hdot])] at hr
      simp at hr
  have hsub : List.Sublist ("....:::::" : Str) (fileName ip mac) := by
    have hn : fileName ip mac = (ip ++ ['.']) ++ mac := by simp [fileName]
    rw [hn]
    exact hdots.append hcolons
  simp [listed,hhead,hsub]

theorem pathTrim_fileName {ip mac : Str} (hm : Hardware mac) : pathTrim (fileName ip mac) = fileName ip mac := by
  refine List.rdropWhile_eq_self_iff.mpr fun hne => ?_
  have hmac : mac ≠ [] := by
    rintro rfl
    exact absurd hm.1 (by decide)
  have hl : (fileName ip mac).getLast hne = mac.getLast hmac := by
    simp only [fileName]
    rw [List.getLast_append_of_ne_nil _ (List.cons_ne_nil _ _),List.getLast_cons hmac]
  rw [hl]
  rcases hardware_black hm _ (List.getLast_mem hmac) with h | h
  · rw [h]
    decide
  · rw [(hexDigit_black h).2.1]
    exact Bool.false_ne_true

/-- `iptables` as far as it reads addresses, and one account. -/
def office : Setting (Str × Str) where
  rule ip mac := if Address ip ∧ Hardware mac then some (ip,lower mac) else none
  rows s := if s = accountQuery "bob" (strEncrypt "secret") then ["bob"] else []
  wifiRows _ := []
  strtotime t _ := t
  htimeout := []
  intouch := false
  active := true

/-- The form of the portal, filled in by the account's user. -/
def form (just ip mac : Str) (force : Option Str) : Request where
  doSave := some "1"
  serial := some "0"
  justLogin := some just
  mymac := some mac
  myip := some ip
  username := some "bob"
  wifikey := none
  pass := some "secret"
  forceLogout := force
  xForwardedFor := none
  clientIp := none
  remoteAddr := ip

def closed : World (Str × Str) := ⟨∅,[],[]⟩

end Portal
end Mybox
