import Mybox.Serialize

/-! The sessions of the web interface: what is kept about a login, the session file, and how
`_SESSION_HTTP_UNSERIALIZE` takes the file apart. -/
namespace Mybox
namespace HttpSessions

open Php Patterns Serialize

/-- The headers of a request, null when they are not there. -/
structure Headers where
  xForwardedFor : Str
  clientIp : Str
  remoteAddr : Str

def sessionGetUserip (h : Headers) : Str :=
  let ip := if !null h.xForwardedFor then h.xForwardedFor else if !null h.clientIp then h.clientIp else h.remoteAddr
  if ip.contains ',' then trim ((split ',' ip).headD []) else ip

/-- A time or a timeout: a number, or a string from the registry. -/
inductive Scalar
  | int (n : ℤ)
  | float (d : Serialize.Double)
  | str (s : Str)

def Scalar.value : Scalar → Value
  | int n => .int n
  | float d => .float d
  | str s => .str s

def Scalar.on : Scalar → Bool
  | int n => n ≠ 0
  | float d => !looseZero d.text
  | str s => !null s && !looseZero s

/-- A sum. -/
inductive Number
  | int (n : ℤ)
  | float (d : Serialize.Double)

def Number.scalar : Number → Scalar
  | int n => .int n
  | float d => .float d

/-- `$_SESSION['traceos_login']` -/
structure Login where
  id : Str
  ip : Str
  timeLogin : ℤ
  timeoutData : Scalar
  timeout : Scalar

/-- `_CGI_SESSION_SET_SESSION` at a time, with the sum of the time and of `60 * $_timeout`. -/
def sessionSetSession (sum : Number) (timeout access : Str) (h : Headers) (time : ℤ) : Login :=
  let data : Scalar := if null timeout then .int 300 else .str timeout
  ⟨access,sessionGetUserip h,time,data,if data.on then sum.scalar else data⟩

/-- `_CGI_SESSION_UPDATE_SESSION`, with the sum of the time and of the timeout. -/
def sessionUpdateSession (l : Login) (sum : Number) : Login := if l.timeout.on then { l with timeout := sum.scalar } else l

/-- The login that is stored after so many updates. -/
def stored (sum : Number) (timeout access : Str) (h : Headers) (time : ℤ) (updates : List Number) : Login :=
  updates.foldl sessionUpdateSession (sessionSetSession sum timeout access h time)

def Login.array (l : Login) : Value :=
  .arr [(.str "id",.str l.id),(.str "ip",.str l.ip),(.str "time_login",.int l.timeLogin),
    (.str "timeout_data",l.timeoutData.value),(.str "timeout",l.timeout.value)]

def sessionText (l : Login) : Str := ("traceos_login|" : Str) ++ serialize l.array

/-- `[a-zA-Z_\x7f-\xff]` -/
def nameStart (c : Char) : Bool :=
  ('a' ≤ c && c ≤ 'z') || ('A' ≤ c && c ≤ 'Z') || c = '_' || (0x7f ≤ c.toNat && c.toNat ≤ 0xff)

/-- `[a-zA-Z0-9_\x7f-\xff^|]` -/
def nameChar (c : Char) : Bool := nameStart c || digit c || c = '^' || c = '|'

/-- `([a-zA-Z_\x7f-\xff][a-zA-Z0-9_\x7f-\xff^|]*)\|` at the beginning of a text: what is captured and what follows,
with as many characters captured as can be. -/
def nameAt : Str → Option (Str × Str)
  | [] => none
  | c::s =>
    if nameStart c then
      longest (fun n => match s.drop (n-1) with
        | '|'::t => some (c::s.take (n-1),t)
        | _ => none) ((s.takeWhile nameChar).length + 1)
    else none

def piece (a : Str) : List Str := if a = [] then [] else [a]

/-- `preg_split` with the captures kept and empty pieces left out; `a` is what stands before, without a match. -/
def splitNames : ℕ → Str → Str → List Str
  | 0, a, s => piece (a ++ s)
  | _, a, [] => piece a
  | n+1, a, c::s =>
    match nameAt (c::s) with
    | some (name,t) => piece a ++ name::splitNames n [] t
    | none => splitNames n (a ++ [c]) s

/-- The loop stops at a null text and at `0`. -/
def truthy (s : Str) : Bool := s ≠ [] && s ≠ ['0']

/-- `unserialize`, with its `FALSE`. -/
def unserialized (s : Str) : Value := (unserialize s).getD (.bool false)

def collect (m : List (Key × Value)) : List Str → List (Key × Value)
  | k::v::vars => if truthy k then collect (OrdMap.assign (Key.of k) (unserialized v) m) vars else m
  | [k] => if truthy k then OrdMap.assign (Key.of k) (unserialized []) m else m
  | [] => m

def sessionHttpUnserialize (data : Str) : List (Key × Value) := collect [] (splitNames data.length [] data)

def Named (s : Str) : Prop := ∃ a t, s = a ++ t ∧ (nameAt t).isSome = true

def Login.strings (l : Login) : List Str :=
  [l.id,l.ip] ++ [l.timeoutData,l.timeout].filterMap fun t => match t with
    | .str s => some s
    | _ => none

theorem longest_isSome {β : Type} {g : ℕ → Option β} {n : ℕ} :
    (longest g n).isSome = true ↔ ∃ k, 0 < k ∧ k ≤ n ∧ (g k).isSome = true := by
  induction n with
  | zero => simp [longest]
  | succ n ih =>
    rw [longest,Option.isSome_or,Bool.or_eq_true,ih]
    constructor
    · rintro (h | ⟨k,h₀,h₁,h₂⟩)
      · exact ⟨n+1,by omega,le_rfl,h⟩
      · exact ⟨k,h₀,by omega,h₂⟩
    · rintro ⟨k,h₀,h₁,h₂⟩
      rcases Nat.lt_or_ge k (n+1) with hk | hk
      · exact Or.inr ⟨k,h₀,by omega,h₂⟩
      · obtain rfl : k = n + 1 := by omega
        exact Or.inl h₂

theorem longest_some {β : Type} {g : ℕ → Option β} {n : ℕ} {b : β} (h : longest g n = some b) :
    ∃ k, 0 < k ∧ k ≤ n ∧ g k = some b := by
  induction n with
  | zero => simp [longest] at h
  | succ n ih =>
    rw [longest] at h
    cases hg : g (n+1) with
    | some x =>
      rw [hg,Option.some_or] at h
      exact ⟨n+1,by omega,le_rfl,hg.trans h⟩
    | none =>
      rw [hg,Option.none_or] at h
      obtain ⟨k,h₀,h₁,h₂⟩ := ih h
      exact ⟨k,h₀,by omega,h₂⟩

/-- There is a match when a bar stands behind the first character with nothing but characters of names between. -/
theorem nameAt_isSome {c : Char} {s : Str} : (nameAt (c::s)).isSome = true ↔
    nameStart c = true ∧ '|' ∈ s.takeWhile nameChar := by
  rw [nameAt]
  cases hc : nameStart c with
  | false => simp
  | true =>
    rw [if_pos rfl,longest_isSome]
    simp only [true_and]
    constructor
    · rintro ⟨k,h₀,h₁,h₂⟩
      obtain ⟨w,r,hs,hw,-,-,hr⟩ := split_class nameChar s
      rw [hw] at h₁ ⊢
      cases hd : s.drop (k-1) with
      | nil => rw [hd] at h₂; simp at h₂
      | cons d t =>
        rw [hd] at h₂
        have hbar : d = '|' := by
          by_contra hne
          split at h₂
          · rename_i he
            exact hne (List.cons.inj he).1
          · simp at h₂
        subst hbar
        rcases Nat.lt_or_ge (k-1) w.length with hk | hk
        · rw [hs,List.drop_append_of_le_length (by omega)] at hd
          cases hwd : w.drop (k-1) with
          | nil => rw [List.drop_eq_nil_iff] at hwd; omega
          | cons x y =>
            rw [hwd] at hd
            obtain rfl := (List.cons.inj hd).1
            exact List.mem_of_mem_drop (by rw [hwd]; simp)
        · -- right behind the run there is no bar
          have hk' : k - 1 = w.length := by omega
          rw [hs,hk',List.drop_left' rfl] at hd
          exact absurd (hr '|' (by rw [hd]; rfl)) (by decide)
    · intro hm
      obtain ⟨a,b,hab⟩ := List.append_of_mem hm
      have hs : s = a ++ '|'::(b ++ s.dropWhile nameChar) := by
        have := (List.takeWhile_append_dropWhile (p:=nameChar) (l:=s)).symm
        rw [hab] at this
        simpa using this
      refine ⟨a.length + 1,by omega,by rw [hab]; simp,?_⟩
      rw [Nat.add_sub_cancel,hs,List.drop_left' rfl]
      rfl

theorem nameAt_some {s name t : Str} (h : nameAt s = some (name,t)) :
    s = name ++ '|'::t ∧ ∀ c ∈ name, nameChar c = true := by
  cases s with
  | nil => simp [nameAt] at h
  | cons c s =>
    rw [nameAt] at h
    obtain ⟨hc,h⟩ := Option.ite_none_right_eq_some.mp h
    obtain ⟨k,h₀,h₁,h₂⟩ := longest_some h
    split at h₂
    · rename_i u hu
      obtain ⟨rfl,rfl⟩ := Prod.mk.inj (Option.some.inj h₂)
      refine ⟨by rw [List.cons_append,← hu,List.take_append_drop],?_⟩
      intro d hd
      rcases List.mem_cons.mp hd with rfl | hd
      · simp [nameChar,hc]
      · have hp : s.take (k-1) <+: s.takeWhile nameChar := by
          refine List.prefix_of_prefix_length_le (List.take_prefix _ _) (List.takeWhile_prefix _) ?_
          rw [List.length_take]
          omega
        exact List.mem_takeWhile_imp (hp.subset hd)
    · simp at h₂

theorem nameAt_mono {s t : Str} (h : (nameAt s).isSome = true) : (nameAt (s ++ t)).isSome = true := by
  cases s with
  | nil => simp [nameAt] at h
  | cons c s =>
    rw [nameAt_isSome] at h
    rw [List.cons_append,nameAt_isSome]
    refine ⟨h.1,List.IsPrefix.subset ?_ h.2⟩
    by_cases ha : ∀ d ∈ s, nameChar d = true
    · rw [List.takeWhile_append_of_pos ha,List.takeWhile_eq_self_iff.mpr ha]
      exact List.prefix_append _ _
    · have hl : (s.takeWhile nameChar).length ≠ s.length := by
        intro hl
        exact ha (List.takeWhile_eq_self_iff.mp ((List.takeWhile_prefix nameChar).eq_of_length hl))
      have he : (s ++ t).takeWhile nameChar = s.takeWhile nameChar := by rw [List.takeWhile_append,if_neg hl]
      exact he ▸ List.prefix_rfl

theorem Named.mono {x s : Str} (h : Named x) (hs : x <:+: s) : Named s := by
  obtain ⟨a,t,rfl,ht⟩ := h
  obtain ⟨u,v,rfl⟩ := hs
  exact ⟨u ++ a,t ++ v,by simp,nameAt_mono ht⟩

theorem Named.bar {s : Str} (h : Named s) : '|' ∈ s := by
  obtain ⟨a,t,rfl,ht⟩ := h
  cases t with
  | nil => simp [nameAt] at ht
  | cons c t =>
    have hm := (List.takeWhile_prefix nameChar).subset (nameAt_isSome.mp ht).2
    simp [hm]

/-- A match does not go over a character that no name has. -/
theorem Named.split {a b : Str} {q : Char} (hq : nameChar q = false) (h : Named (a ++ q::b)) : Named a ∨ Named b := by
  obtain ⟨u,t,hs,ht⟩ := h
  rcases List.append_eq_append_iff.mp hs with ⟨w,rfl,hw⟩ | ⟨w,rfl,hw⟩
  · cases w with
    | nil =>
      have ht' : t = q::b := by simpa using hw.symm
      rw [ht',nameAt_isSome] at ht
      simp [nameChar] at hq
      simp [hq] at ht
    | cons c w =>
      obtain ⟨-,rfl⟩ := List.cons.inj hw
      exact Or.inr ⟨w,t,rfl,ht⟩
  · cases w with
    | nil =>
      have ht' : t = q::b := by simpa using hw
      rw [ht',nameAt_isSome] at ht
      simp [nameChar] at hq
      simp [hq] at ht
    | cons c w =>
      refine Or.inl ⟨u,c::w,rfl,?_⟩
      rw [hw,List.cons_append,nameAt_isSome] at ht
      refine nameAt_isSome.mpr ⟨ht.1,?_⟩
      have h₂ := ht.2
      rw [List.takeWhile_append] at h₂
      split at h₂
      · rw [List.takeWhile_cons_of_neg (by simp [hq]),List.append_nil] at h₂
        rename_i hl
        rwa [(List.takeWhile_prefix nameChar).eq_of_length hl]
      · exact h₂

theorem notNamed_cons {p : Str} {q : Char} {b : Str} (hq : nameChar q = false) (hp : '|' ∉ p)
    (h : Named (p ++ q::b)) : Named b := (h.split hq).resolve_left fun h => hp h.bar

theorem bar_decimal (n : ℕ) : '|' ∉ Php.decimal n := fun h => absurd (Php.digit_decimal n _ h) (by decide)

theorem bar_intText (n : ℤ) : '|' ∉ intText n := by
  cases n with
  | ofNat n => exact bar_decimal n
  | negSucc n =>
    intro h
    rcases List.mem_cons.mp h with h | h
    · exact absurd h (by decide)
    · exact bar_decimal _ h

theorem bar_append {a b : Str} (ha : '|' ∉ a) (hb : '|' ∉ b) : '|' ∉ a ++ b := fun h =>
  (List.mem_append.mp h).elim ha hb

theorem named_strText {s r : Str} (h : Named (strText s ++ r)) : Named s ∨ Named r := by
  have ht : strText s ++ r =
      (("s:" : Str) ++ Php.decimal s.length ++ [':']) ++ '"'::(s ++ '"'::([] ++ ';'::r)) := by
    simp only [strText,List.append_assoc]
    rfl
  rw [ht] at h
  have h₁ := notNamed_cons (by decide) (bar_append (bar_append (by decide) (bar_decimal _)) (by decide)) h
  exact (h₁.split (by decide)).imp id (notNamed_cons (by decide) (by decide))

theorem named_scalar {t : Scalar} {r : Str} (h : Named (serialize t.value ++ r)) :
    (∃ x, t = .str x ∧ Named x) ∨ Named r := by
  cases t with
  | int n =>
    have ht : serialize (Scalar.int n).value ++ r = (("i:" : Str) ++ intText n) ++ ';'::r := by
      simp only [Scalar.value,serialize,numText,List.append_assoc]
      rfl
    rw [ht] at h
    exact Or.inr (notNamed_cons (by decide) (bar_append (by decide) (bar_intText n)) h)
  | float d =>
    have ht : serialize (Scalar.float d).value ++ r = (("d:" : Str) ++ d.text) ++ ';'::r := by
      simp only [Scalar.value,serialize,List.append_assoc]
      rfl
    rw [ht] at h
    have hd : '|' ∉ d.text := fun hm => absurd (List.all_eq_true.mp d.chars _ hm) (by decide)
    exact Or.inr (notNamed_cons (by decide) (bar_append (by decide) hd) h)
  | str s => exact (named_strText h).imp (fun hs => ⟨s,rfl,hs⟩) id

theorem named_entries {es : List (Str × Scalar)} {r : Str}
    (h : Named (serializeAll (es.map fun e => (Key.str e.1,e.2.value)) ++ r)) :
    (∃ e ∈ es, Named e.1 ∨ ∃ x, e.2 = .str x ∧ Named x) ∨ Named r := by
  induction es with
  | nil => exact Or.inr h
  | cons e es ih =>
    simp only [List.map_cons,serializeAll,List.append_assoc] at h
    rcases named_strText h with h | h
    · exact Or.inl ⟨e,List.mem_cons_self,Or.inl h⟩
    rcases named_scalar h with h | h
    · exact Or.inl ⟨e,List.mem_cons_self,Or.inr h⟩
    · exact (ih h).imp (fun ⟨f,hf,hn⟩ => ⟨f,List.mem_cons_of_mem _ hf,hn⟩) id

def Login.entries (l : Login) : List (Str × Scalar) :=
  [("id",.str l.id),("ip",.str l.ip),("time_login",.int l.timeLogin),("timeout_data",l.timeoutData),
    ("timeout",l.timeout)]

theorem array_entries (l : Login) : l.array = .arr (l.entries.map fun e => (Key.str e.1,e.2.value)) := rfl

theorem mem_strings {l : Login} {x : Str} : x ∈ l.strings ↔ ∃ e ∈ l.entries, e.2 = .str x := by
  simp only [Login.strings,Login.entries,List.mem_append,List.mem_cons,List.not_mem_nil,or_false,
    List.mem_filterMap,exists_eq_or_imp,exists_eq_left,Scalar.str.injEq,reduceCtorEq,false_or,or_assoc]
  cases l.timeoutData <;> cases l.timeout <;> simp [eq_comm]

theorem array_named {l : Login} (h : Named (serialize l.array)) : ∃ x ∈ l.strings, Named x := by
  have ht : serialize l.array = (("a:" : Str) ++ Php.decimal 5 ++ [':']) ++
      '\x7b'::(serializeAll (l.entries.map fun e => (Key.str e.1,e.2.value)) ++ '\x7d'::[]) := by
    rw [array_entries]
    simp only [serialize,List.append_assoc]
    rfl
  rw [ht] at h
  rcases named_entries (notNamed_cons (by decide) (by decide) h) with ⟨e,he,hk | ⟨x,hx,hn⟩⟩ | h
  · have hkeys : ∀ e ∈ l.entries, '|' ∉ e.1 := by
      simp only [Login.entries,List.forall_mem_cons]
      exact ⟨by decide,by decide,by decide,by decide,by decide,by simp⟩
    exact absurd hk.bar (hkeys e he)
  · exact ⟨x,mem_strings.mpr ⟨e,he,hx⟩,hn⟩
  · exact absurd h.bar (by decide)

theorem array_kept (l : Login) : l.array.Kept := by
  have hv : ∀ t : Scalar, t.value.Kept := fun t => by cases t <;> simp [Scalar.value,Value.Kept]
  rw [Login.array,Value.Kept]
  simp only [AllKept]
  exact ⟨by simp only [List.map_cons,List.map_nil]; decide,by unfold Key.Kept; decide,by simp [Value.Kept],by unfold Key.Kept; decide,by simp [Value.Kept],
    by unfold Key.Kept; decide,by simp [Value.Kept],by unfold Key.Kept; decide,hv _,by unfold Key.Kept; decide,hv _,
    trivial⟩

theorem array_holds {l : Login} {x : Str} (h : x ∈ l.strings) : l.array.Holds x := by
  obtain ⟨e,he,hx⟩ := mem_strings.mp h
  rw [array_entries]
  refine ⟨.str e.1,List.mem_map.mpr ⟨e,he,?_⟩⟩
  rw [hx]
  rfl

/-- What is between the matches has none; what is captured has only characters of names. -/
theorem splitNames_spec {n : ℕ} {a s : Str} (hn : s.length ≤ n)
    (ha : ∀ u t, a = u ++ t → t ≠ [] → nameAt (t ++ s) = none) :
    ∀ p ∈ splitNames n a s, (∀ c ∈ p, nameChar c = true) ∨ ¬Named p := by
  have hclean : ∀ {b r : Str}, (∀ u t, b = u ++ t → t ≠ [] → nameAt (t ++ r) = none) → ¬Named b := by
    rintro b r hb ⟨u,t,hs,ht⟩
    have htne : t ≠ [] := by rintro rfl; simp [nameAt] at ht
    have hm := nameAt_mono (t:=r) ht
    rw [hb u t hs htne] at hm
    simp at hm
  have hpiece : ∀ {b r p : Str}, (∀ u t, b = u ++ t → t ≠ [] → nameAt (t ++ r) = none) → p ∈ piece b → ¬Named p := by
    intro b r p hb hp
    unfold piece at hp
    split at hp
    · simp at hp
    · rw [List.mem_singleton.mp hp]
      exact hclean hb
  induction n generalizing a s with
  | zero =>
    obtain rfl : s = [] := List.length_eq_zero_iff.mp (by omega)
    intro p hp
    rw [splitNames,List.append_nil] at hp
    exact Or.inr (hpiece ha hp)
  | succ n ih =>
    cases s with
    | nil => exact fun p hp => Or.inr (hpiece ha hp)
    | cons c s =>
      rw [splitNames]
      rw [List.length_cons] at hn
      cases hm : nameAt (c::s) with
      | none =>
        refine ih (by omega) fun u t hut htne => ?_
        rcases List.append_eq_append_iff.mp hut with ⟨w,rfl,hw⟩ | ⟨w,rfl,rfl⟩
        · cases w with
          | nil =>
            obtain rfl : t = [c] := by simpa using hw.symm
            exact hm
          | cons d w =>
            have : t = [] := by
              have := (List.cons.inj hw).2
              simp at this
              exact this.2
            exact absurd this htne
        · rw [List.append_assoc]
          by_cases hw : w = []
          · rw [hw]; exact hm
          · exact ha _ _ rfl hw
      | some nt =>
        obtain ⟨name,t⟩ := nt
        obtain ⟨hs,hname⟩ := nameAt_some hm
        have hlen : t.length ≤ n := by
          have := congrArg List.length hs
          simp at this
          omega
        intro p hp
        rcases List.mem_append.mp hp with hp | hp
        · exact Or.inr (hpiece ha hp)
        rcases List.mem_cons.mp hp with rfl | hp
        · exact Or.inl hname
        · refine ih hlen (fun u w huw hwne => ?_) p hp
          rw [(List.append_eq_nil_iff.mp huw.symm).2] at hwne
          exact absurd rfl hwne

theorem splitNames_plain {n : ℕ} {a s : Str} (hn : s.length ≤ n) (h : ¬Named s) : splitNames n a s = piece (a ++ s) := by
  induction n generalizing a s with
  | zero => rfl
  | succ n ih =>
    cases s with
    | nil => rw [List.append_nil]; rfl
    | cons c s =>
      have hnone : nameAt (c::s) = none := by
        cases hm : nameAt (c::s) with
        | none => rfl
        | some nt => exact absurd ⟨[],_,rfl,by rw [hm]; rfl⟩ h
      rw [splitNames,hnone]
      rw [List.length_cons] at hn
      refine (ih (by omega) fun hs => h (hs.mono (List.suffix_cons c s).isInfix)).trans ?_
      rw [List.append_assoc]
      rfl

/-- A value that is collected is `FALSE` or was read from one of the pieces. -/
theorem collect_value {m : List (Key × Value)} {vars : List Str} {k : Key} {v : Value} (h : (k,v) ∈ collect m vars) :
    (k,v) ∈ m ∨ v = .bool false ∨ ∃ p ∈ vars, unserialize p = some v := by
  have hread : ∀ {p : Str}, v = unserialized p → v = .bool false ∨ unserialize p = some v := by
    rintro p rfl
    unfold unserialized
    cases unserialize p with
    | none => exact Or.inl rfl
    | some v => exact Or.inr rfl
  have hnull : unserialized [] = .bool false := rfl
  fun_induction collect m vars with
  | case1 m a b vars ht ih =>
    rcases ih h with h | h | ⟨p,hp,he⟩
    · rcases mem_assign h with h | h
      · exact Or.inl h
      · exact Or.inr ((hread h).imp id fun h => ⟨b,by simp,h⟩)
    · exact Or.inr (Or.inl h)
    · exact Or.inr (Or.inr ⟨p,by simp [hp],he⟩)
  | case2 m a b vars ht => exact Or.inl h
  | case3 m a ht =>
    rcases mem_assign h with h | h
    · exact Or.inl h
    · exact Or.inr (Or.inl (h.trans hnull))
  | case4 m a ht => exact Or.inl h
  | case5 m => exact Or.inl h

theorem sessionText_names (l : Login) : splitNames (sessionText l).length [] (sessionText l) =
    ("traceos_login" : Str)::splitNames ((serialize l.array).length + 13) [] (serialize l.array) := by
  have hc : ∃ r, serialize l.array = 'a':: ':'::r := ⟨_,rfl⟩
  obtain ⟨r,hr⟩ := hc
  have hname : nameAt (sessionText l) = some (("traceos_login" : Str),serialize l.array) := by
    rw [sessionText,hr]
    rfl
  have hlen : (sessionText l).length = ((serialize l.array).length + 13) + 1 := by
    rw [sessionText,List.length_append]
    have h14 : ("traceos_login|" : Str).length = 14 := rfl
    omega
  obtain ⟨c,s,hcs⟩ := List.exists_cons_of_ne_nil (show sessionText l ≠ [] by
    intro h
    rw [h] at hlen
    simp at hlen)
  rw [hlen]
  rw [hcs] at hname ⊢
  rw [splitNames,hname]
  rfl

/-- What is read back is what was stored exactly when no string of it has a name and a bar. -/
theorem unserialize_sessionText (l : Login) :
    sessionHttpUnserialize (sessionText l) = [(.str "traceos_login",l.array)] ↔ ∀ x ∈ l.strings, ¬Named x := by
  rw [sessionHttpUnserialize,sessionText_names]
  constructor
  · intro h x hx hn
    have hm : (Key.str "traceos_login",l.array) ∈ collect [] (("traceos_login" : Str)::
        splitNames ((serialize l.array).length + 13) [] (serialize l.array)) := by rw [h]; simp
    rcases collect_value hm with hm | hm | ⟨p,hp,he⟩
    · simp at hm
    · simp [Login.array] at hm
    obtain ⟨⟨v,r⟩,hs,hv⟩ := Option.map_eq_some_iff.mp he
    obtain rfl : v = l.array := hv
    have hcolon : ':' ∈ p := scanValue_arr hs
    have hin : x <:+: p := (scanValue_spec hs).2 x (array_holds hx)
    rcases List.mem_cons.mp hp with rfl | hp
    · exact absurd hcolon (by decide)
    have hclean : ∀ u t, ([] : Str) = u ++ t → t ≠ [] → nameAt (t ++ serialize l.array) = none := by
      intro u t ht hne
      exact absurd (List.append_eq_nil_iff.mp ht.symm).2 hne
    rcases splitNames_spec (Nat.le_add_right _ 13) hclean p hp with hchars | hnot
    · exact absurd (hchars ':' hcolon) (by decide)
    · exact hnot (hn.mono hin)
  · intro h
    have hn : ¬Named (serialize l.array) := fun hs =>
      let ⟨x,hx,hxn⟩ := array_named hs
      h x hx hxn
    rw [splitNames_plain (Nat.le_add_right _ 13) hn]
    have hne : serialize l.array ≠ [] := fun h => by simp [Login.array,serialize,Str.of_ascii] at h
    have hk : Key.of "traceos_login" = .str "traceos_login" := by decide
    rw [piece,List.nil_append,if_neg hne,collect,if_pos (by decide),collect,hk,unserialized,
      unserialize_serialize (array_kept l)]
    rfl

structure Login.Of (timeout access ip : Str) (l : Login) : Prop where
  id_eq : l.id = access
  ip_eq : l.ip = ip
  data_eq : l.timeoutData = if null timeout then .int 300 else .str timeout
  timeout_eq : ∀ x, l.timeout = .str x → x = timeout

theorem scalar_ne_str (n : Number) (x : Str) : n.scalar ≠ .str x := by
  cases n <;> simp [Number.scalar]

theorem sessionSetSession_of (sum : Number) (timeout access : Str) (h : Headers) (time : ℤ) :
    (sessionSetSession sum timeout access h time).Of timeout access (sessionGetUserip h) := by
  refine ⟨rfl,rfl,rfl,fun x hx => ?_⟩
  change (if _ then _ else if null timeout then Scalar.int 300 else Scalar.str timeout) = Scalar.str x at hx
  by_cases hnull : null timeout = true
  · rw [if_pos hnull] at hx
    split at hx
    · exact absurd hx (scalar_ne_str sum x)
    · exact absurd hx (by simp)
  · rw [if_neg hnull] at hx
    split at hx
    · exact absurd hx (scalar_ne_str sum x)
    · exact (Scalar.str.inj hx).symm

theorem Login.Of.update {timeout access ip : Str} {l : Login} (h : l.Of timeout access ip) (sum : Number) :
    (sessionUpdateSession l sum).Of timeout access ip := by
  unfold sessionUpdateSession
  split
  · exact ⟨h.id_eq,h.ip_eq,h.data_eq,fun x hx => absurd hx (scalar_ne_str sum x)⟩
  · exact h

theorem stored_of (sum : Number) (timeout access : Str) (h : Headers) (time : ℤ) (updates : List Number) :
    (stored sum timeout access h time updates).Of timeout access (sessionGetUserip h) := by
  unfold stored
  have hs := sessionSetSession_of sum timeout access h time
  generalize sessionSetSession sum timeout access h time = l at hs
  induction updates generalizing l with
  | nil => exact hs
  | cons u us ih => exact ih _ (hs.update u)

theorem stored_strings (sum : Number) (timeout access : Str) (h : Headers) (time : ℤ) (updates : List Number) :
    (∀ x ∈ (stored sum timeout access h time updates).strings, ¬Named x) ↔
      ¬Named access ∧ ¬Named (sessionGetUserip h) ∧ ¬Named timeout := by
  obtain ⟨hid,hip,hdata,htime⟩ := stored_of sum timeout access h time updates
  generalize stored sum timeout access h time updates = l at *
  have hmem : ∀ x, x ∈ l.strings ↔ x = access ∨ x = sessionGetUserip h ∨ l.timeoutData = .str x ∨ l.timeout = .str x := by
    intro x
    rw [mem_strings,← hid,← hip]
    simp [Login.entries,eq_comm]
  simp only [hmem]
  constructor
  · intro hall
    refine ⟨hall _ (Or.inl rfl),hall _ (Or.inr (Or.inl rfl)),fun hn => ?_⟩
    have hne : timeout ≠ [] := by
      rintro rfl
      exact absurd hn.bar (by simp)
    rw [if_neg (by simpa using hne)] at hdata
    exact hall _ (Or.inr (Or.inr (Or.inl hdata))) hn
  · rintro ⟨ha,hi,ht⟩ x (rfl | rfl | hx | hx)
    · exact ha
    · exact hi
    · rw [hdata] at hx
      split at hx
      · simp at hx
      · exact (Scalar.str.inj hx) ▸ ht
    · exact htime x hx ▸ ht

/-- The login that was stored is read back exactly when neither the address that the headers gave nor the timeout of
the registry has a name and a bar. -/
theorem sessionHttpUnserialize_iff (sum : Number) (timeout access : Str) (h : Headers) (time : ℤ)
    (updates : List Number) :
    sessionHttpUnserialize (sessionText (stored sum timeout access h time updates)) =
        [(.str "traceos_login",(stored sum timeout access h time updates).array)] ↔
      ¬Named access ∧ ¬Named (sessionGetUserip h) ∧ ¬Named timeout :=
  (unserialize_sessionText _).trans (stored_strings sum timeout access h time updates)

/-- An address with a letter and a bar is lost. -/
theorem forwarded_lost : ¬∀ (sum : Number) (timeout access : Str) (h : Headers) (time : ℤ) (updates : List Number),
    sessionHttpUnserialize (sessionText (stored sum timeout access h time updates)) =
      [(.str "traceos_login",(stored sum timeout access h time updates).array)] := by
  intro hall
  have hl := hall (.int 1318018000) [] "admin" ⟨"a|b",[],"192.168.1.7"⟩ 1318000000 []
  rw [unserialize_sessionText,stored_strings] at hl
  exact hl.2.1 ⟨[],"a|b",by decide,by decide⟩

end HttpSessions
end Mybox
