import Mybox.Ipcalc
import Mybox.OrderedMap
import Mybox.Patterns

/-! The format of `serialize` and `unserialize`, of values that are no objects: what is written reads back, and the
strings that are read stand in the text. -/
namespace Mybox
namespace Serialize

open Php Patterns

def intText : ℤ → Str
  | .ofNat n => decimal n
  | .negSucc n => '-'::decimal (n+1)

def floatChar (c : Char) : Bool := digit c || c ∈ (".+-eEINFA" : Str)

/-- A double, by its digits. -/
structure Double where
  text : Str
  chars : text.all floatChar = true

inductive Key
  | int (n : ℤ)
  | str (s : Str)
  deriving DecidableEq

/-- A string as a key: one that is written like an integer is an integer. -/
def Key.of (s : Str) : Key :=
  let ds := if s.head? = some '-' then s.tail else s
  let n : ℤ := Nat.ofDigitChars 10 ds 0
  let k := if s.head? = some '-' then -n else n
  if !ds.isEmpty && ds.all digit && intText k = s then .int k else .str s

inductive Value
  | null
  | bool (b : Bool)
  | int (n : ℤ)
  | float (d : Double)
  | str (s : Str)
  | arr (es : List (Key × Value))

def strText (s : Str) : Str := ("s:" : Str) ++ decimal s.length ++ (":\"" : Str) ++ s ++ ("\";" : Str)

def numText (n : ℤ) : Str := ("i:" : Str) ++ intText n ++ [';']

def Key.text : Key → Str
  | int n => numText n
  | str s => strText s

mutual

def serialize : Value → Str
  | .null => "N;"
  | .bool b => ("b:" : Str) ++ (if b then ['1'] else ['0']) ++ [';']
  | .int n => numText n
  | .float d => ("d:" : Str) ++ d.text ++ [';']
  | .str s => strText s
  | .arr es => ("a:" : Str) ++ decimal es.length ++ (":\x7b" : Str) ++ serializeAll es ++ ("\x7d" : Str)

def serializeAll : List (Key × Value) → Str
  | [] => []
  | (k,v)::es => k.text ++ serialize v ++ serializeAll es

end

/-- An integer up to a character, and what follows that. -/
def scanInt (stop : Char) (s : Str) : Option (ℤ × Str) :=
  let t := if s.head? = some '-' ∨ s.head? = some '+' then s.tail else s
  let n : ℤ := Nat.ofDigitChars 10 (t.takeWhile digit) 0
  match t.dropWhile digit with
  | c::r => if c = stop ∧ t.takeWhile digit ≠ [] then some (if s.head? = some '-' then -n else n,r) else none
  | [] => none

def scanStr (s : Str) : Option (Str × Str) :=
  match scanInt ':' s with
  | some (n,'"'::r) =>
    if 0 ≤ n ∧ n.toNat ≤ r.length ∧ ("\";" : Str) <+: r.drop n.toNat then some (r.take n.toNat,r.drop (n.toNat + 2))
    else none
  | _ => none

def scanKey : Str → Option (Key × Str)
  | 'i':: ':'::r => (scanInt ';' r).map fun p => (.int p.1,p.2)
  | 's':: ':'::r => (scanStr r).map fun p => (Key.of p.1,p.2)
  | _ => none

/-- So many entries, put into an array one after another. -/
def scanEntries (value : Str → Option (Value × Str)) : ℕ → List (Key × Value) → Str → Option (List (Key × Value) × Str)
  | 0, es, r => some (es,r)
  | n+1, es, r =>
    match scanKey r with
    | some (k,r) =>
      match value r with
      | some (v,r) => scanEntries value n (OrdMap.assign k v es) r
      | none => none
    | none => none

/-- A value and what follows it, with arrays nested up to a depth. -/
def scanValue : ℕ → Str → Option (Value × Str)
  | 0, _ => none
  | n+1, s =>
    match s with
    | 'N':: ';'::r => some (.null,r)
    | 'b':: ':'::r => (scanInt ';' r).map fun p => (.bool (p.1 ≠ 0),p.2)
    | 'i':: ':'::r => (scanInt ';' r).map fun p => (.int p.1,p.2)
    | 'd':: ':'::r =>
      if h : (r.takeWhile (· ≠ ';')).all floatChar = true then
        match r.dropWhile (· ≠ ';') with
        | _::t => some (.float ⟨_,h⟩,t)
        | [] => none
      else none
    | 's':: ':'::r => (scanStr r).map fun p => (.str p.1,p.2)
    | 'a':: ':'::r =>
      match scanInt ':' r with
      | some (k,'\x7b'::r) =>
        if k < 0 then none else
        match scanEntries (scanValue n) k.toNat [] r with
        | some (es,'\x7d'::r) => some (.arr es,r)
        | _ => none
      | _ => none
    | _ => none

/-- What follows a value is not looked at; `none` is `FALSE`. -/
def unserialize (s : Str) : Option Value := (scanValue s.length s).map Prod.fst

def Value.Holds (x : Str) : Value → Prop
  | .str y => x = y
  | .arr es => ∃ k, (k,Value.str x) ∈ es
  | _ => False

theorem scanInt_suffix {stop : Char} {s r : Str} {n : ℤ} (h : scanInt stop s = some (n,r)) : r <:+ s := by
  unfold scanInt at h
  dsimp only at h
  have ht : (if s.head? = some '-' ∨ s.head? = some '+' then s.tail else s) <:+ s := by
    split
    · exact List.tail_suffix s
    · exact List.suffix_refl s
  generalize (if s.head? = some '-' ∨ s.head? = some '+' then s.tail else s) = t at h ht
  split at h
  · rename_i c w hw
    obtain ⟨-,he⟩ := Option.ite_none_right_eq_some.mp h
    rw [← (Prod.mk.inj (Option.some.inj he)).2]
    have hd := List.dropWhile_suffix digit (l:=t)
    rw [hw] at hd
    exact ((List.suffix_cons c w).trans hd).trans ht
  · simp at h

theorem scanStr_spec {s x r : Str} (h : scanStr s = some (x,r)) : r <:+ s ∧ x <:+: s := by
  unfold scanStr at h
  split at h
  · rename_i n t hi
    obtain ⟨⟨-,-,-⟩,he⟩ := Option.ite_none_right_eq_some.mp h
    obtain ⟨rfl,rfl⟩ := Prod.mk.inj (Option.some.inj he)
    have hs := (List.suffix_cons '"' t).trans (scanInt_suffix hi)
    exact ⟨(List.drop_suffix _ _).trans hs,(List.take_prefix _ _).isInfix.trans hs.isInfix⟩
  · simp at h

theorem scanKey_suffix {s r : Str} {k : Key} (h : scanKey s = some (k,r)) : r <:+ s := by
  unfold scanKey at h
  split at h
  · obtain ⟨p,hp,he⟩ := Option.map_eq_some_iff.mp h
    obtain ⟨-,rfl⟩ := Prod.mk.inj he
    exact (scanInt_suffix hp).trans ((List.suffix_cons _ _).trans (List.suffix_cons _ _))
  · obtain ⟨p,hp,he⟩ := Option.map_eq_some_iff.mp h
    obtain ⟨-,rfl⟩ := Prod.mk.inj he
    exact (scanStr_spec hp).1.trans ((List.suffix_cons _ _).trans (List.suffix_cons _ _))
  · simp at h

theorem mem_assign {κ α : Type} [DecidableEq κ] {k j : κ} {a b : α} {es : List (κ × α)}
    (h : (j,b) ∈ OrdMap.assign k a es) : (j,b) ∈ es ∨ b = a := by
  induction es with
  | nil =>
    obtain ⟨-,rfl⟩ := Prod.mk.inj (List.mem_singleton.mp h)
    exact Or.inr rfl
  | cons e es ih =>
    unfold OrdMap.assign at h
    split at h
    · rcases List.mem_cons.mp h with h | h
      · exact Or.inr (Prod.mk.inj h).2
      · exact Or.inl (List.mem_cons_of_mem _ h)
    · rcases List.mem_cons.mp h with h | h
      · exact Or.inl (List.mem_cons.mpr (Or.inl h))
      · exact (ih h).imp (List.mem_cons_of_mem _) id

theorem scanEntries_spec {value : Str → Option (Value × Str)}
    (hv : ∀ s v r, value s = some (v,r) → r <:+ s ∧ ∀ x, v.Holds x → x <:+: s) {n : ℕ}
    {es fs : List (Key × Value)} {s r : Str} (h : scanEntries value n es s = some (fs,r)) :
    r <:+ s ∧ ∀ k x, (k,Value.str x) ∈ fs → (k,Value.str x) ∈ es ∨ x <:+: s := by
  induction n generalizing es s with
  | zero =>
    obtain ⟨rfl,rfl⟩ := Prod.mk.inj (Option.some.inj h)
    exact ⟨List.suffix_refl _,fun k x hx => Or.inl hx⟩
  | succ n ih =>
    unfold scanEntries at h
    split at h
    · rename_i k t hk
      split at h
      · rename_i v u hu
        have hkt := scanKey_suffix hk
        obtain ⟨hut,hx⟩ := hv _ _ _ hu
        obtain ⟨hr,hin⟩ := ih h
        refine ⟨hr.trans (hut.trans hkt),fun j x hj => ?_⟩
        rcases hin j x hj with hm | hm
        · rcases mem_assign hm with hm | hm
          · exact Or.inl hm
          · exact Or.inr ((hx x (hm ▸ rfl)).trans hkt.isInfix)
        · exact Or.inr (hm.trans (hut.trans hkt).isInfix)
      · simp at h
    · simp at h

theorem scanValue_spec {n : ℕ} {s r : Str} {v : Value} (h : scanValue n s = some (v,r)) :
    r <:+ s ∧ ∀ x, v.Holds x → x <:+: s := by
  induction n generalizing s r v with
  | zero => simp [scanValue] at h
  | succ n ih =>
    have htwo : ∀ (a b : Char) (t : Str), t <:+ a::b::t := fun a b t =>
      (List.suffix_cons b t).trans (List.suffix_cons a _)
    unfold scanValue at h
    split at h
    · obtain ⟨rfl,rfl⟩ := Prod.mk.inj (Option.some.inj h)
      exact ⟨htwo _ _ _,fun x hx => hx.elim⟩
    · obtain ⟨p,hp,he⟩ := Option.map_eq_some_iff.mp h
      obtain ⟨rfl,rfl⟩ := Prod.mk.inj he
      exact ⟨(scanInt_suffix hp).trans (htwo _ _ _),fun x hx => hx.elim⟩
    · obtain ⟨p,hp,he⟩ := Option.map_eq_some_iff.mp h
      obtain ⟨rfl,rfl⟩ := Prod.mk.inj he
      exact ⟨(scanInt_suffix hp).trans (htwo _ _ _),fun x hx => hx.elim⟩
    · rename_i t
      split at h
      · split at h
        · rename_i c u hu
          obtain ⟨rfl,rfl⟩ := Prod.mk.inj (Option.some.inj h)
          have hd := List.dropWhile_suffix (· ≠ ';') (l:=t)
          rw [hu] at hd
          exact ⟨((List.suffix_cons c u).trans hd).trans (htwo _ _ _),fun x hx => hx.elim⟩
        · simp at h
      · simp at h
    · obtain ⟨p,hp,he⟩ := Option.map_eq_some_iff.mp h
      obtain ⟨rfl,rfl⟩ := Prod.mk.inj he
      obtain ⟨hr,hx⟩ := scanStr_spec hp
      refine ⟨hr.trans (htwo _ _ _),fun x hxe => ?_⟩
      rw [show x = p.1 from hxe]
      exact hx.trans (htwo _ _ _).isInfix
    · split at h
      · rename_i k t hk
        have ht : ∀ a b, t <:+ a::b::_ := fun a b =>
          ((List.suffix_cons '\x7b' t).trans (scanInt_suffix hk)).trans (htwo a b _)
        obtain ⟨-,h⟩ := Option.ite_none_left_eq_some.mp h
        split at h
        · rename_i es u hes
          obtain ⟨rfl,rfl⟩ := Prod.mk.inj (Option.some.inj h)
          obtain ⟨hu,hx⟩ := scanEntries_spec (fun s v r => ih) hes
          refine ⟨((List.suffix_cons '\x7d' u).trans hu).trans (ht _ _),fun x hxe => ?_⟩
          obtain ⟨j,hj⟩ := hxe
          rcases hx j x hj with hn | hi
          · simp at hn
          · exact hi.trans (ht _ _).isInfix
        · simp at h
      · simp at h
    · simp at h

theorem scanValue_arr {n : ℕ} {s r : Str} {es : List (Key × Value)} (h : scanValue n s = some (.arr es,r)) :
    ':' ∈ s := by
  cases n with
  | zero => simp [scanValue] at h
  | succ n =>
    unfold scanValue at h
    split at h
    all_goals first
      | simp at h; done
      | simp

theorem decimal_head (n : ℕ) (t : Str) : ∃ c u, decimal n ++ t = c::u ∧ digit c = true := by
  obtain ⟨c,u,hc⟩ := List.exists_cons_of_ne_nil (decimal_ne n)
  exact ⟨c,u ++ t,by rw [hc]; rfl,digit_decimal n c (by rw [hc]; simp)⟩

theorem scan_decimal {stop : Char} (hs : digit stop = false) (n : ℕ) (r : Str) :
    (decimal n ++ stop::r).takeWhile digit = decimal n ∧ (decimal n ++ stop::r).dropWhile digit = stop::r :=
  class_append (digit_decimal n) (by simpa using hs)

theorem digit_sign {c : Char} (h : digit c = true) : c ≠ '-' ∧ c ≠ '+' := by
  constructor <;> rintro rfl <;> exact absurd h (by decide)

theorem scanInt_decimal {stop : Char} (hs : digit stop = false) (n : ℕ) (r : Str) :
    scanInt stop (decimal n ++ stop::r) = some ((n : ℤ),r) := by
  obtain ⟨c,u,hc,hd⟩ := decimal_head n (stop::r)
  obtain ⟨hm,hp⟩ := digit_sign hd
  obtain ⟨ht,hr⟩ := scan_decimal hs n r
  have hh : (decimal n ++ stop::r).head? = some c := by rw [hc]; rfl
  have hne := decimal_ne n
  unfold scanInt
  rw [hh,if_neg (by simp [hm,hp])]
  dsimp only
  rw [hr,ht,Php.decimal,Nat.ofDigitChars_ten_toDigits]
  exact (if_pos ⟨rfl,hne⟩).trans (by rw [if_neg (by simp [hm])])

theorem scanInt_text {stop : Char} (hs : digit stop = false) (n : ℤ) (r : Str) :
    scanInt stop (intText n ++ stop::r) = some (n,r) := by
  cases n with
  | ofNat n => exact scanInt_decimal hs n r
  | negSucc n =>
    obtain ⟨ht,hr⟩ := scan_decimal hs (n+1) r
    have hne := decimal_ne (n+1)
    unfold scanInt
    simp only [intText,List.cons_append,List.head?_cons,true_or,if_true,List.tail_cons]
    rw [hr,ht,Php.decimal,Nat.ofDigitChars_ten_toDigits]
    exact if_pos ⟨rfl,hne⟩

theorem scanStr_text (s r : Str) :
    scanStr (decimal s.length ++ ((":\"" : Str) ++ (s ++ (("\";" : Str) ++ r)))) = some (s,r) := by
  have hi := @scanInt_decimal ':' (by decide) s.length ('"'::(s ++ (("\";" : Str) ++ r)))
  have ht : decimal s.length ++ ((":\"" : Str) ++ (s ++ (("\";" : Str) ++ r))) =
      decimal s.length ++ ':':: '"'::(s ++ (("\";" : Str) ++ r)) := rfl
  have hd : (s ++ (("\";" : Str) ++ r)).drop s.length = ("\";" : Str) ++ r := List.drop_left' rfl
  have hd' : (s ++ (("\";" : Str) ++ r)).drop (s.length + 2) = r := by
    rw [← List.drop_drop,hd]
    rfl
  unfold scanStr
  rw [ht,hi]
  simp only [Int.toNat_natCast]
  rw [hd,hd',List.take_left' rfl]
  exact if_pos ⟨Int.natCast_nonneg _,by simp,List.prefix_append _ _⟩

def Key.Kept : Key → Prop
  | .int _ => True
  | .str s => Key.of s = .str s

theorem scanKey_text {k : Key} (h : k.Kept) (r : Str) : scanKey (k.text ++ r) = some (k,r) := by
  cases k with
  | int n =>
    have hi := @scanInt_text ';' (by decide) n r
    have ht : (Key.int n).text ++ r = 'i':: ':'::(intText n ++ ';'::r) := by
      simp only [Key.text,numText,List.append_assoc]
      rfl
    rw [ht,scanKey,hi]
    rfl
  | str s =>
    have ht : (Key.str s).text ++ r =
        's':: ':'::(decimal s.length ++ ((":\"" : Str) ++ (s ++ (("\";" : Str) ++ r)))) := by
      simp only [Key.text,strText,List.append_assoc]
      rfl
    rw [ht,scanKey,scanStr_text,Option.map_some,show Key.of s = .str s from h]

mutual

def Value.Kept : Value → Prop
  | .arr es => (es.map Prod.fst).Nodup ∧ AllKept es
  | _ => True

def AllKept : List (Key × Value) → Prop
  | [] => True
  | (k,v)::es => k.Kept ∧ v.Kept ∧ AllKept es

end

theorem scanEntries_text {value : Str → Option (Value × Str)} {fs : List (Key × Value)}
    (hk : ∀ e ∈ fs, e.1.Kept) (hv : ∀ e ∈ fs, ∀ r, value (serialize e.2 ++ r) = some (e.2,r)) {es : List (Key × Value)}
    (hd : ((es ++ fs).map Prod.fst).Nodup) (r : Str) :
    scanEntries value fs.length es (serializeAll fs ++ r) = some (es ++ fs,r) := by
  induction fs generalizing es with
  | nil => rw [List.append_nil]; rfl
  | cons e fs ih =>
    obtain ⟨k,v⟩ := e
    have ht : serializeAll ((k,v)::fs) ++ r = k.text ++ (serialize v ++ (serializeAll fs ++ r)) := by
      simp only [serializeAll,List.append_assoc]
    have hfresh : k ∉ es.map Prod.fst := by
      rw [List.map_append,List.nodup_append] at hd
      exact fun hm => hd.2.2 k hm k (by simp) rfl
    have hd' : (((es ++ [(k,v)]) ++ fs).map Prod.fst).Nodup := by simpa using hd
    have hi := ih (fun e he => hk e (List.mem_cons_of_mem _ he)) (fun e he => hv e (List.mem_cons_of_mem _ he)) hd'
    rw [ht,List.length_cons,scanEntries,scanKey_text (hk _ List.mem_cons_self)]
    dsimp only
    rw [hv _ List.mem_cons_self]
    dsimp only
    rw [OrdMap.assign_fresh v hfresh,hi,List.append_assoc]
    rfl

mutual

theorem scanValue_text : ∀ {v : Value}, v.Kept → ∀ {n : ℕ}, (serialize v).length ≤ n → ∀ r,
    scanValue n (serialize v ++ r) = some (v,r)
  | .null, _, n+1, _, r => rfl
  | .bool b, _, n+1, _, r => by
    cases b <;> rfl
  | .int k, _, n+1, _, r => by
    have hi := @scanInt_text ';' (by decide) k r
    have ht : serialize (.int k) ++ r = 'i':: ':'::(intText k ++ ';'::r) := by
      simp only [serialize,numText,List.append_assoc]
      rfl
    rw [ht,scanValue,hi]
    rfl
  | .float d, _, n+1, _, r => by
    have hd : ∀ c ∈ d.text, decide (c ≠ ';') = true := by
      intro c hc
      have h := List.all_eq_true.mp d.chars c hc
      rw [decide_eq_true_eq]
      rintro rfl
      exact absurd h (by decide)
    obtain ⟨hw,hr⟩ := class_append (y:= ';'::r) hd (by simp)
    have ht : serialize (.float d) ++ r = 'd':: ':'::(d.text ++ ';'::r) := by
      simp only [serialize,List.append_assoc]
      rfl
    rw [ht,scanValue]
    simp only [hw,hr,d.chars,dif_pos]
  | .str s, _, n+1, _, r => by
    have ht : serialize (.str s) ++ r =
        's':: ':'::(decimal s.length ++ ((":\"" : Str) ++ (s ++ (("\";" : Str) ++ r)))) := by
      simp only [serialize,strText,List.append_assoc]
      rfl
    rw [ht,scanValue,scanStr_text]
    rfl
  | .arr es, ⟨hd,hk⟩, n+1, hn, r => by
    have hlen : (serializeAll es).length ≤ n := by
      have h2 : ("a:" : Str).length = 2 := rfl
      simp only [serialize,List.length_append,h2] at hn
      omega
    have hi := @scanInt_decimal ':' (by decide) es.length ('\x7b'::(serializeAll es ++ '\x7d'::r))
    have ht : serialize (.arr es) ++ r =
        'a':: ':'::(decimal es.length ++ ':'::('\x7b'::(serializeAll es ++ '\x7d'::r))) := by
      simp only [serialize,List.append_assoc]
      rfl
    have he := @scanEntries_text (scanValue n) es (fun e he => (allKept_text hk hlen e he).1)
      (fun e he => (allKept_text hk hlen e he).2) [] hd ('\x7d'::r)
    rw [ht,scanValue,hi]
    simp only [Int.toNat_natCast,he]
    exact if_neg (by omega)
  | .null, _, 0, h, _ => by simp [serialize,Str.of_ascii] at h
  | .bool b, _, 0, h, _ => by simp [serialize,Str.of_ascii] at h
  | .int k, _, 0, h, _ => by simp [serialize,numText,Str.of_ascii] at h
  | .float d, _, 0, h, _ => by simp [serialize,Str.of_ascii] at h
  | .str s, _, 0, h, _ => by simp [serialize,strText,Str.of_ascii] at h
  | .arr es, _, 0, h, _ => by simp [serialize,Str.of_ascii] at h

theorem allKept_text : ∀ {es : List (Key × Value)}, AllKept es → ∀ {n : ℕ}, (serializeAll es).length ≤ n →
    ∀ e ∈ es, e.1.Kept ∧ ∀ r, scanValue n (serialize e.2 ++ r) = some (e.2,r)
  | [], _, _, _ => by simp
  | (k,v)::es, ⟨hk,hv,ha⟩, n, hn => by
    simp only [serializeAll,List.length_append] at hn
    intro e he
    rcases List.mem_cons.mp he with rfl | he
    · exact ⟨hk,scanValue_text hv (by omega)⟩
    · exact allKept_text ha (by omega) e he

end

theorem unserialize_serialize {v : Value} (h : v.Kept) : unserialize (serialize v) = some v := by
  have ht := scanValue_text h le_rfl []
  rw [List.append_nil] at ht
  rw [unserialize,ht]
  rfl

end Serialize
end Mybox
