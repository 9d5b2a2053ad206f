import Mathlib.Data.BitVec
import Mathlib.Tactic.Common

/-! Base64: three bytes as four symbols, the rest padded with equals signs, and a decoder that passes over
whatever is no symbol. -/
namespace Mybox
namespace Base64

abbrev Byte := BitVec 8

def alphabet : List Char := "ABCDEFGHIJKLMNOPQRSTUVWXYZabcdefghijklmnopqrstuvwxyz0123456789+/".toList

def symbol (n : Nat) : Char := alphabet.getD n '='

def place (c : Char) : Option Nat := if c ∈ alphabet then some (alphabet.idxOf c) else none

def sextets : List Byte → List Nat
  | a::b::c::s => a.toNat/4 :: (a.toNat%4*16 + b.toNat/16) :: (b.toNat%16*4 + c.toNat/64) :: c.toNat%64 :: sextets s
  | [a,b] => [a.toNat/4,a.toNat%4*16 + b.toNat/16,b.toNat%16*4]
  | [a] => [a.toNat/4,a.toNat%4*16]
  | [] => []

/-- Eight bits at a time; what is left over is dropped. -/
def bytes : List Nat → List Byte
  | u::v::w::x::s =>
    BitVec.ofNat 8 (u*4 + v/16) :: BitVec.ofNat 8 (v%16*16 + w/4) :: BitVec.ofNat 8 (w%4*64 + x) :: bytes s
  | [u,v,w] => [BitVec.ofNat 8 (u*4 + v/16),BitVec.ofNat 8 (v%16*16 + w/4)]
  | [u,v] => [BitVec.ofNat 8 (u*4 + v/16)]
  | _ => []

def padding (n : Nat) : List Char := List.replicate ((3 - n%3)%3) '='

def encode (s : List Byte) : List Char := (sextets s).map symbol ++ padding s.length

def decode (s : List Char) : List Byte := bytes (s.filterMap place)

theorem sextets_lt (s : List Byte) : ∀ n ∈ sextets s, n < 64 := by
  fun_induction sextets s with
  | case1 a b c s ih =>
    have ha := a.isLt
    have hb := b.isLt
    have hc := c.isLt
    simp only [List.forall_mem_cons]
    exact ⟨by omega,by omega,by omega,by omega,ih⟩
  | case2 a b =>
    have ha := a.isLt
    have hb := b.isLt
    simp only [List.forall_mem_cons]
    exact ⟨by omega,by omega,by omega,by simp⟩
  | case3 a =>
    have ha := a.isLt
    simp only [List.forall_mem_cons]
    exact ⟨by omega,by omega,by simp⟩
  | case4 => simp

theorem ofNat_toNat {n : Nat} {a : Byte} (h : n = a.toNat) : BitVec.ofNat 8 n = a := by
  rw [h,BitVec.ofNat_toNat,BitVec.setWidth_eq]

theorem bytes_sextets (s : List Byte) : bytes (sextets s) = s := by
  fun_induction sextets s with
  | case1 a b c s ih =>
    have hb := b.isLt
    have hc := c.isLt
    rw [bytes,ih,ofNat_toNat (a:=a) (by omega),ofNat_toNat (a:=b) (by omega),ofNat_toNat (a:=c) (by omega)]
  | case2 a b =>
    have hb := b.isLt
    rw [bytes,ofNat_toNat (a:=a) (by omega),ofNat_toNat (a:=b) (by omega)]
  | case3 a => rw [bytes,ofNat_toNat (a:=a) (by omega)]
  | case4 => rfl

theorem alphabet_eq : alphabet = [
    'A','B','C','D','E','F','G','H','I','J','K','L','M','N','O','P','Q','R','S','T','U','V','W','X','Y','Z',
    'a','b','c','d','e','f','g','h','i','j','k','l','m','n','o','p','q','r','s','t','u','v','w','x','y','z',
    '0','1','2','3','4','5','6','7','8','9','+','/'] :=
  String.toList_ofList

theorem alphabet_toNat : alphabet.map Char.toNat =
    List.range' 65 26 ++ List.range' 97 26 ++ List.range' 48 10 ++ [43,47] := by
  rw [alphabet_eq]
  rfl

theorem alphabet_length : alphabet.length = 64 := by
  have h := congrArg List.length alphabet_toNat
  rwa [List.length_map] at h

theorem alphabet_nodup : alphabet.Nodup := by
  have h : (alphabet.map Char.toNat).Nodup := by
    rw [alphabet_toNat]
    refine List.nodup_append'.mpr ⟨List.nodup_append'.mpr ⟨List.nodup_append'.mpr
      ⟨List.nodup_range',List.nodup_range',?_⟩,List.nodup_range',?_⟩,by decide,?_⟩
    all_goals
      intro a ha hb
      simp only [List.mem_append,List.mem_range'_1,List.mem_cons,List.not_mem_nil,or_false] at ha hb
      omega
  exact h.of_map

theorem symbol_eq {n : Nat} (h : n < alphabet.length) : symbol n = alphabet[n] := by
  rw [symbol,List.getD_eq_getElem?_getD,List.getElem?_eq_getElem h,Option.getD_some]

theorem place_symbol {n : Nat} (h : n < 64) : place (symbol n) = some n := by
  have hn : n < alphabet.length := by rwa [alphabet_length]
  rw [place,symbol_eq hn,if_pos (List.getElem_mem hn),alphabet_nodup.idxOf_getElem]

theorem symbol_mem {n : Nat} (h : n < 64) : symbol n ∈ alphabet := by
  have hn : n < alphabet.length := by rwa [alphabet_length]
  rw [symbol_eq hn]
  exact List.getElem_mem hn

theorem place_symbols {ns : List Nat} (h : ∀ n ∈ ns, n < 64) : (ns.map symbol).filterMap place = ns := by
  induction ns with
  | nil => rfl
  | cons n ns ih =>
    rw [List.forall_mem_cons] at h
    rw [List.map_cons,List.filterMap_cons,place_symbol h.1,ih h.2]

def unpadded (s : List Byte) : List Char := (sextets s).map symbol

theorem unpadded_mem {s : List Byte} {c : Char} (h : c ∈ unpadded s) : c ∈ alphabet := by
  obtain ⟨n,hn,rfl⟩ := List.mem_map.mp h
  exact symbol_mem (sextets_lt s n hn)

theorem unpadded_ne {s : List Byte} (h : s ≠ []) : unpadded s ≠ [] := by
  unfold unpadded
  fun_cases sextets s with
  | case4 => exact absurd rfl h
  | _ => simp

theorem decode_unpadded (s : List Byte) : decode (unpadded s) = s := by
  rw [decode,unpadded,place_symbols (sextets_lt s),bytes_sextets]

theorem encode_eq (s : List Byte) : encode s = unpadded s ∨ ∃ r, encode s = unpadded s ++ '=' :: r := by
  rw [encode,← unpadded,padding]
  cases (3 - s.length%3)%3 with
  | zero => exact Or.inl (List.append_nil _)
  | succ n => exact Or.inr ⟨List.replicate n '=',rfl⟩

end Base64
end Mybox
