import Mybox.Ipcalc

/-! Version 3.0: the addresses of a network, `mybox_check_ipv4` and `mybox_ipcalc`. -/
namespace Mybox
namespace NetCalc
open Php Ipcalc

/-- Octets are not checked when the first one begins with a zero. -/
def checkIpv4 (ip : Str) : Bool :=
  isDotted ip && (ip.head? = some '0' || (split '.' ip).all fun w => digitsVal 10 w ≤ 255)

/-- What is used of the result. -/
structure Calc where
  network : Str
  broadcast : Str
  deriving DecidableEq

def ipcalc (ip pref : Str) : Option Calc :=
  if checkIpv4 ip then
    (readMask pref).map fun k =>
      let net := strPad ((dqtobin ip).take k.cdr) 32 false
      let bcast := strPad ((dqtobin ip).take k.cdr) 32 true
      let single := bindec (List.replicate (32 - k.cdr) true) ≤ 1 ∧ net = bcast
      ⟨bintodq net,if single then "N/A" else bintodq bcast⟩
  else none

theorem plain_network {ip pref : Str} {c : Calc} (h : ipcalc ip pref = some c) :
    ∀ x ∈ c.network, plainChar x = true := by
  unfold ipcalc at h
  split at h
  · obtain ⟨k,-,rfl⟩ := Option.map_eq_some_iff.mp h
    exact plain_bintodq _
  · cases h

theorem calc_chars (ip pref : Str) : (∀ x ∈ ((ipcalc ip pref).map Calc.network).getD [], plainChar x = true) ∧
    ∀ x ∈ ((ipcalc ip pref).map Calc.broadcast).getD [], plainChar x = true ∨ x = '/' := by
  cases h : ipcalc ip pref with
  | none => simp
  | some c =>
    refine ⟨plain_network h,?_⟩
    unfold ipcalc at h
    split at h
    · obtain ⟨k,-,rfl⟩ := Option.map_eq_some_iff.mp h
      dsimp only [Option.map_some,Option.getD_some]
      split
      · decide
      · exact fun x hx => Or.inl (plain_bintodq _ x hx)
    · exact absurd h (by simp)

end NetCalc
end Mybox
