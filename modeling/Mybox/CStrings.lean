import Mathlib.Order.Bounds.Basic
import Mybox.Buffers
import Mybox.ListedWords
import Mybox.Php

/-! The string functions of the programs in C: `str_replace` puts a text together in a block that grows, and
`split_array` counts the tokens of a text and points at each of them. -/
namespace Mybox
namespace CStrings

open Php Buffers LineText

abbrev nul : Char := '\x00'

/-- What stands before the first place where a text is found. -/
def before (search string : Str) : Str := string.take ((strstr search string).getD 0)

def behind (search string : Str) : Str := string.drop ((strstr search string).getD 0 + search.length)

/-- `str_replace_add`: the block of `*start`, and what is returned. The program ends where `xmalloc` gets no memory. -/
def strReplaceAdd (m : Allocator Char) (start : Option (List Char)) (stringAdd : Str) (s : ℕ) :
    Option (Option (List Char) × ℤ) :=
  let ss := if s = 0 then stringAdd.length + 1 else s
  match start with
  | none => do
    let b ← m.malloc ss
    let b ← strncpy nul b 0 stringAdd ss
    let b ← if s ≠ 0 then store b ss nul else some b
    return (some b,0)
  | some b => do
    let addSize ← strlen nul b
    match m.realloc b (addSize + ss + 1) with
    | some b =>
      let b ← strncpy nul b addSize stringAdd ss
      let b ← store b (addSize + ss) nul
      return (some b,0)
    | none => return (some b,-1)

/-- `str_replace`; its calls of the allocator are numbered. -/
def strReplace (m : ℕ → Allocator Char) (string search replace : Str) : Option (Option (List Char)) :=
  match strstr search string with
  | none => some none
  | some spos => do
    let (str,res) ←
      if spos = 0 then do
        let (str,r₀) ← strReplaceAdd (m 0) none replace 0
        let (str,r₁) ← strReplaceAdd (m 1) str (string.drop search.length) 0
        pure (str,r₀ + r₁)
      else do
        let (str,r₀) ← strReplaceAdd (m 0) none string spos
        let (str,r₁) ← strReplaceAdd (m 1) str replace 0
        let (str,r₂) ← strReplaceAdd (m 2) str (string.drop (search.length + spos)) 0
        pure (str,r₀ + r₁ + r₂)
    return if res = 0 then str else none

/-- The allocator hands out what `str_replace` asks for, and the block for the `u` characters before the place has a
cell more, into which the terminator goes. -/
def Granted (m : ℕ → Allocator Char) (u r v : ℕ) : Prop :=
  if u = 0 then ((m 0).malloc (r + 1)).isSome ∧ ((m 1).malloc (r + (v + 1) + 1)).isSome
  else ((m 0).malloc u).any (fun b => u < b.length) ∧ ((m 1).malloc (u + (r + 1) + 1)).isSome ∧
    ((m 2).malloc (u + r + (v + 1) + 1)).isSome

instance (m : ℕ → Allocator Char) (u r v : ℕ) : Decidable (Granted m u r v) :=
  inferInstanceAs (Decidable (ite _ _ _))

/-- The text is found in another place, too, which does not overlap the first. -/
def Twice (search string : Str) : Prop := ∃ u v w, string = u ++ search ++ v ++ search ++ w

variable {m : Allocator Char}

theorem add_first {t : Str} {b : List Char} (h : m.malloc (t.length + 1) = some b) :
    ∃ j, strReplaceAdd m none t 0 = some (some (t ++ nul::j),0) := by
  have hc := strncpy_text nul (List.nil_prefix (l := b)) (t := t) (by simpa using m.le h)
  refine ⟨b.drop (t.length + 1),?_⟩
  simp only [List.length_nil,Nat.zero_add,List.nil_append] at hc
  simp [strReplaceAdd,h,hc]

theorem add_start {t : Str} {n : ℕ} (hn : n ≠ 0) (ht : n ≤ t.length) {b : List Char} (h : m.malloc n = some b) :
    (n < b.length → ∃ j, strReplaceAdd m none t n = some (some (t.take n ++ nul::j),0)) ∧
      (¬n < b.length → strReplaceAdd m none t n = none) := by
  have hl := m.le h
  have hc := strncpy_take nul hl ht
  constructor
  · intro hlt
    obtain ⟨x,r,hr⟩ := List.exists_cons_of_ne_nil (l := b.drop n) (by simpa using hlt)
    have hs := store_append (t.take n) r nul x
    rw [List.length_take,Nat.min_eq_left ht] at hs
    exact ⟨r,by simp [strReplaceAdd,h,hc,hn,hr,hs]⟩
  · intro hlt
    have hs : store (t.take n ++ b.drop n) n nul = none := by
      rw [store,if_neg]
      simp only [List.length_append,List.length_take,List.length_drop]
      omega
    simp [strReplaceAdd,h,hc,hn,hs]

theorem add_next {s t : Str} (hs : nul ∉ s) (j : List Char) :
    ((m.malloc (s.length + (t.length + 1) + 1)).isSome = true →
      ∃ j', strReplaceAdd m (some (s ++ nul::j)) t 0 = some (some (s ++ t ++ nul::j'),0)) ∧
    ((m.malloc (s.length + (t.length + 1) + 1)).isSome = false →
      strReplaceAdd m (some (s ++ nul::j)) t 0 = some (some (s ++ nul::j),-1)) := by
  constructor
  · intro h
    obtain ⟨c,hc⟩ : ∃ c, m.realloc (s ++ nul::j) (s.length + (t.length + 1) + 1) = some c := by
      rw [← Option.isSome_iff_exists,Allocator.realloc,Option.isSome_map]
      exact h
    obtain ⟨hl,hp⟩ := Allocator.realloc_some hc (by omega)
    have hn := strncpy_text nul hp (t := t) (by omega)
    obtain ⟨x,r,hr⟩ := List.exists_cons_of_ne_nil (l := c.drop (s.length + (t.length + 1)))
      (by rw [ne_eq,List.drop_eq_nil_iff]; omega)
    have hst := store_append (s ++ (t ++ [nul])) r nul x
    have hlen : (s ++ (t ++ [nul])).length = s.length + (t.length + 1) := by simp
    rw [hlen] at hst
    simp only [List.append_assoc,List.cons_append,List.nil_append] at hst
    refine ⟨nul::r,?_⟩
    simp only [strReplaceAdd,strlen_append hs,if_pos,hn,hr,hc,Option.bind_eq_bind,Option.bind_some,hst,List.append_assoc]
    rfl
  · intro h
    have hc : m.realloc (s ++ nul::j) (s.length + (t.length + 1) + 1) = none := by
      rw [Allocator.realloc,Option.map_eq_none_iff]
      simpa using h
    simp [strReplaceAdd,strlen_append hs,hc]

section StrReplace

variable {m : ℕ → Allocator Char} {string search replace : Str}

theorem split_first (h : search <:+: string) :
    ∃ i, strstr search string = some i ∧ before search string = string.take i ∧
      behind search string = string.drop (search.length + i) ∧
      string = before search string ++ search ++ behind search string ∧ i ≤ string.length := by
  obtain ⟨i,hi⟩ := Option.isSome_iff_exists.mp (strstr_isSome.mpr h)
  obtain ⟨hs,hl,-⟩ := strstr_some hi
  have hb : before search string = string.take i := by rw [before,hi]; rfl
  have hv : behind search string = string.drop (i + search.length) := by rw [behind,hi]; rfl
  exact ⟨i,hi,hb,hv.trans (by rw [Nat.add_comm]),by rw [hb,hv]; exact hs,by omega⟩

/-- A block comes out exactly when the allocator hands out what is asked for, and then the first place is replaced. -/
theorem strReplace_spec (h : search <:+: string) (h0 : nul ∉ string) (hr : nul ∉ replace) {u v : Str}
    (hu : before search string = u) (hv : behind search string = v) :
    (Granted m u.length replace.length v.length →
      ∃ j, strReplace m string search replace = some (some (u ++ replace ++ v ++ nul::j))) ∧
    (¬Granted m u.length replace.length v.length → ∀ b, strReplace m string search replace ≠ some (some b)) := by
  obtain ⟨i,hi,hui,hvi,hs,hl⟩ := split_first h
  rw [hu] at hui hs
  rw [hv] at hvi
  have hul : u.length = i := by rw [hui,List.length_take,Nat.min_eq_left hl]
  have hun : nul ∉ u := fun hm => h0 (by rw [hs]; simp [hm])
  by_cases hz : i = 0
  · subst hz
    have hu0 : u = [] := List.eq_nil_of_length_eq_zero hul
    have he : strReplace m string search replace = do
        let a ← strReplaceAdd (m 0) none replace 0
        let b ← strReplaceAdd (m 1) a.1 v 0
        return if a.2 + b.2 = 0 then b.1 else none := by
      simp [strReplace,hi,hvi]
    rw [he,Granted,if_pos hul,hu0,List.nil_append]
    cases h₀ : (m 0).malloc (replace.length + 1) with
    | none => simp [strReplaceAdd,h₀]
    | some b =>
      obtain ⟨j,hj⟩ := add_first h₀
      obtain ⟨hok,hno⟩ := add_next (m := m 1) (t := v) hr j
      rw [hj]
      cases h₁ : ((m 1).malloc (replace.length + (v.length + 1) + 1)).isSome with
      | true =>
        obtain ⟨k,hk⟩ := hok h₁
        simp [hk]
      | false => simp [hno h₁]
  · have he : strReplace m string search replace = do
        let a ← strReplaceAdd (m 0) none string i
        let b ← strReplaceAdd (m 1) a.1 replace 0
        let c ← strReplaceAdd (m 2) b.1 v 0
        return if a.2 + b.2 + c.2 = 0 then c.1 else none := by
      simp [strReplace,hi,hz,hvi]
    rw [he,Granted,if_neg (by omega),hul]
    cases h₀ : (m 0).malloc i with
    | none => simp [strReplaceAdd,hz,h₀]
    | some b =>
      obtain ⟨hok₀,hno₀⟩ := add_start hz hl h₀
      by_cases hb : i < b.length
      · obtain ⟨j,hj⟩ := hok₀ hb
        rw [← hui] at hj
        obtain ⟨hok₁,hno₁⟩ := add_next (m := m 1) (t := replace) hun j
        rw [hj]
        rw [hul] at hok₁ hno₁
        cases h₁ : ((m 1).malloc (i + (replace.length + 1) + 1)).isSome with
        | true =>
          obtain ⟨k,hk⟩ := hok₁ h₁
          have hur : nul ∉ u ++ replace := by simp [hun,hr]
          obtain ⟨hok₂,hno₂⟩ := add_next (m := m 2) (t := v) hur k
          rw [List.length_append,hul] at hok₂ hno₂
          cases h₂ : ((m 2).malloc (i + replace.length + (v.length + 1) + 1)).isSome with
          | true =>
            obtain ⟨l,hl⟩ := hok₂ h₂
            simp only [List.append_assoc] at hk hl
            simp [hk,hl,hb]
          | false =>
            simp only [List.append_assoc] at hk hno₂
            simp [hk,hno₂ h₂]
        -- The answer stays below zero, whatever becomes of the last piece.
        | false =>
          obtain ⟨hok₂,hno₂⟩ := add_next (m := m 2) (t := v) hun j
          cases h₂ : ((m 2).malloc (u.length + (v.length + 1) + 1)).isSome with
          | true =>
            obtain ⟨k,hk⟩ := hok₂ h₂
            simp only [List.append_assoc] at hk
            simp [hno₁ h₁,hk]
          | false => simp [hno₁ h₁,hno₂ h₂]
      · simp [hno₀ hb,hb]

theorem twice_iff (h : search <:+: string) : Twice search string ↔ search <:+: behind search string := by
  obtain ⟨i,hi,-,hv,hs,-⟩ := split_first h
  constructor
  · rintro ⟨u,v,w,hw⟩
    have hle : i ≤ u.length := (strstr_some hi).2.2 u (v ++ search ++ w) (by rw [hw]; simp)
    have hd : string.drop (search.length + i) = (u ++ search ++ v).drop (search.length + i) ++ (search ++ w) := by
      rw [hw,List.append_assoc _ search w,List.drop_append_of_le_length]
      simp only [List.length_append]
      omega
    rw [hv,hd]
    exact ⟨_,w,List.append_assoc _ _ _⟩
  · rintro ⟨v,w,hw⟩
    exact ⟨before search string,v,w,by rw [List.append_assoc,List.append_assoc,← List.append_assoc v,hw]; exact hs⟩

/-- The first place is the first one that is replaced. -/
theorem replaceAll_first (hne : search ≠ []) (h : search <:+: string) :
    replaceAll search replace string =
      before search string ++ replace ++ replaceAll search replace (behind search string) := by
  obtain ⟨i,hi,hu,hv,-,-⟩ := split_first h
  rw [hu,hv]
  clear hu hv h
  induction string generalizing i with
  | nil =>
    rw [strstr,if_neg hne] at hi
    cases hi
  | cons a s ih =>
    rw [strstr] at hi
    split at hi
    next hp =>
      cases hi
      obtain ⟨t,ht⟩ := hp
      rw [← ht,replaceAll_prefix_append replace hne rfl]
      simp
    next hp =>
      obtain ⟨j,hj,rfl⟩ := Option.map_eq_some_iff.mp hi
      rw [replaceAll_cons replace hp,ih j hj,List.take_succ_cons,← Nat.add_assoc,List.drop_succ_cons]
      rfl

/-- All places are replaced exactly when there is but one, or each is replaced by what stands there. -/
theorem strReplace_iff (m : ℕ → Allocator Char) (string search replace : CText nul) (hne : search.1 ≠ [])
    (h : search.1 <:+: string.1) :
    (∃ b, strReplace m string search replace = some (some b) ∧ nul ∈ b ∧
      cstr nul b = replaceAll search.1 replace.1 string.1) ↔
    Granted m (before search string).length replace.1.length (behind search string).length ∧
      (replace.1 = search.1 ∨ ¬Twice search.1 string.1) := by
  obtain ⟨hok,hno⟩ := strReplace_spec (m := m) h string.2 replace.2 rfl rfl
  obtain ⟨-,-,-,-,hs,-⟩ := split_first h
  have hn : nul ∉ before search.1 string ++ replace ++ behind search.1 string := by
    have h0 := string.2
    rw [hs] at h0
    simp only [List.mem_append,not_or] at h0 ⊢
    exact ⟨⟨h0.1.1,replace.2⟩,h0.2⟩
  have heq : before search.1 string ++ replace ++ behind search.1 string = replaceAll search.1 replace.1 string.1 ↔
      (replace.1 = search.1 ∨ ¬Twice search.1 string.1) := by
    rw [replaceAll_first hne h,List.append_cancel_left_eq,twice_iff h]
    constructor
    · intro he
      by_contra hc
      rw [not_or,not_not] at hc
      exact replaceAll_ne hne hc.1 hc.2 he.symm
    · rintro (he | he)
      · rw [he,replaceAll_same hne]
      · rw [ replaceAll_of_not_infix replace.1 he]
  rw [← heq]
  constructor
  · rintro ⟨b,hb,-,hc⟩
    by_cases hg : Granted m (before search string).length replace.1.length (behind search string).length
    · obtain ⟨j,hj⟩ := hok hg
      obtain rfl := Option.some.inj (Option.some.inj (hb.symm.trans hj))
      rw [cstr_append hn] at hc
      exact ⟨hg,hc⟩
    · exact absurd hb (hno hg b)
  · rintro ⟨hg,he⟩
    obtain ⟨j,hj⟩ := hok hg
    exact ⟨_,hj,by simp,by rw [cstr_append hn,he]⟩

def roomy (α : Type) [Inhabited α] : Allocator α where
  malloc n := some (List.replicate (n + 8) default)
  le h := by
    obtain rfl := Option.some.inj h
    simp

theorem strReplace_iff_pts : ∃ b, strReplace (fun _ => roomy Char) "pts/0" "pts/" "pts" = some (some b) ∧ nul ∈ b ∧
    cstr nul b = "pts0" :=
  (strReplace_iff (fun _ => roomy Char) ⟨"pts/0",by decide⟩ ⟨"pts/",by decide⟩ ⟨"pts",by decide⟩ (by decide)
    (by decide)).mpr ⟨by decide,Or.inr fun h => absurd ((twice_iff (by decide)).mp h) (by decide)⟩

/-- Of two places the second stays as it is. -/
theorem second_place_left :
    (strReplace (fun _ => roomy Char) "a,b,c" "," ";").map (Option.map (cstr nul)) = some (some (Str.of "a;b,c")) ∧
    ¬∃ b, strReplace (fun _ => roomy Char) "a,b,c" "," ";" = some (some b) ∧ nul ∈ b ∧
      cstr nul b = replaceAll (Str.of ",") ";" "a,b,c" := by
  have h : (strReplace (fun _ => roomy Char) "a,b,c" "," ";").map (Option.map (cstr nul)) = some (some (Str.of "a;b,c")) := by
    decide
  refine ⟨h,?_⟩
  rintro ⟨b,hb,-,hc⟩
  rw [hb,Option.map_some,Option.map_some,hc] at h
  exact absurd h (by decide)

end StrReplace

/-- An `int`, that begins again at the smallest one. -/
def intWrap (z : ℤ) : ℤ := z.bmod (2^32)

/-- How many pointers a size of so many pointers stands for, sizes being counted in bytes modulo 2^64. -/
def sizeCells (z : ℤ) : ℕ := (z % 2^61).toNat

def storeAt {α : Type} (b : List α) (z : ℤ) (a : α) : Option (List α) := if 0 ≤ z then store b z.toNat a else none

/-- `for (numtokens=1; strtok(NULL, delimiters) != NULL; numtokens++)`, from a place in the block on. -/
def countRest (ds : Str) : ℕ → List Char → ℕ → ℤ → ℤ × List Char
  | 0, t, _, n => (n,t)
  | fuel + 1, t, i, n =>
    match strtok nul ds t i with
    | (none,t,_) => (n,t)
    | (some _,t,i) => countRest ds fuel t i (intWrap (n + 1))

/-- `for (i=1; i < numtokens; i++) *((*argvp) + i)=strtok(NULL, delimiters)`. -/
def fillRest (ds : Str) : ℕ → List Char → ℕ → ℕ → List (Option ℕ) → Option (List (Option ℕ) × List Char)
  | 0, t, _, _, argv => some (argv,t)
  | k + 1, t, pos, i, argv => do
    let (p,t,pos) := strtok nul ds t pos
    let argv ← store argv i p
    fillRest ds k t pos (i + 1) argv

/-- What the caller gets: the number that is returned, the text with the ends of the tokens marked and the places in it
that the array points at. -/
structure Split where
  ret : ℕ
  text : List Char
  argv : List (Option ℕ)

/-- The tokens of the text in `t` are counted, which puts an end behind each of them. -/
def countTokens (ds : Str) (fuel : ℕ) (t : List Char) : ℤ × List Char :=
  match strtok nul ds t 0 with
  | (none,t,_) => (0,t)
  | (some _,t,i) => countRest ds fuel t i 1

/-- The text is copied once more, and the array filled. -/
def fillTokens (ds snew : Str) (numtokens : ℤ) (t : List Char) (argv : List (Option ℕ)) :
    Option (List (Option ℕ) × List Char) :=
  if numtokens = 0 then some (argv,t)
  else do
    let t ← strncpy nul t 0 snew (snew.length + 1)
    let (p,t,pos) := strtok nul ds t 0
    let argv ← store argv 0 p
    fillRest ds (numtokens - 1).toNat t pos 1 argv

/-- `split_array`; the `char` that is returned has no sign. -/
def splitArray (m : Allocator Char) (cells : Allocator (Option ℕ)) (s ds : Str) : Option Split := do
  let snew := s.dropWhile (· ∈ ds)
  let t ← m.malloc (snew.length + 1)
  let t ← strncpy nul t 0 snew (snew.length + 1)
  let c := countTokens ds snew.length t
  let argv ← cells.malloc (sizeCells (intWrap (c.1 + 1)))
  let (argv,t) ← fillTokens ds snew c.1 c.2 argv
  let argv ← storeAt argv c.1 none
  return ⟨(c.1 % 2^8).toNat,t,argv⟩

/-- The array points at each of the tokens and then nowhere. -/
def Split.Lists (r : Split) (toks : List Str) : Prop :=
  (r.argv.take (toks.length + 1)).map (Option.map fun p => cstr nul (r.text.drop p)) = toks.map some ++ [none]

theorem intWrap_small {z : ℤ} (h₀ : 0 ≤ z) (h : z < 2^31) : intWrap z = z :=
  Int.bmod_eq_of_le (by omega) (by omega)

variable {ds s : Str}

/-- One call of `strtok` behind `pre`. The text it goes on with is `s'`, behind `pre'`; that the token `w` ends where it
does can be seen as long as `pre'` stays, or the whole block if no token is left. -/
theorem strtok_step (hds : nul ∉ ds) (hs : nul ∉ s) (pre junk : List Char) :
    (tokens ds s = [] ∧ ∃ i, strtok nul ds (pre ++ (s ++ nul::junk)) pre.length = (none,pre ++ (s ++ nul::junk),i)) ∨
    ∃ d w pre' s', nul ∉ s' ∧ nul ∉ w ∧ tokens ds s = w::tokens ds s' ∧
      strtok nul ds (pre ++ (s ++ nul::junk)) pre.length =
        (some (pre ++ d).length,pre' ++ (s' ++ nul::junk),pre'.length) ∧
      pre <+: pre' ∧ ∀ t, pre' <+: t → (tokens ds s' = [] → t = pre' ++ (s' ++ nul::junk)) →
        pre ++ d ++ (w ++ [nul]) <+: t := by
  rcases split_token ds s with h | ⟨d,w,r,rfl,hd,hw,hwd,hr⟩
  · left
    have ht := tokens_delims h []
    rw [List.append_nil,tokens_nil] at ht
    have hk : strtok nul ds _ _ = _ := strtok_eq pre (w := []) junk h (by simp) (Or.inr rfl) fun _ => hds
    rw [List.nil_append,if_pos rfl] at hk
    exact ⟨ht,_,hk⟩
  · right
    simp only [List.mem_append,not_or] at hs
    have hwn : ∀ a ∈ w, a ∉ ds ∧ a ≠ nul := fun a ha => ⟨hwd a ha,fun he => hs.2.1 (he ▸ ha)⟩
    have ht : tokens ds (d ++ (w ++ r)) = w::tokens ds r := by rw [tokens_delims hd,tokens_token hw hwd hr]
    cases r with
    | nil =>
      have hk : strtok nul ds _ _ = _ := strtok_eq pre junk hd hwn (Or.inr rfl) fun h => absurd h hw
      rw [if_neg hw,if_pos rfl] at hk
      refine ⟨d,w,pre ++ d ++ w,[],by simp,hs.2.1,ht,by simpa using hk,by simp,?_⟩
      intro t _ htok
      rw [htok tokens_nil]
      exact ⟨junk,by simp⟩
    | cons c r =>
      have hc : c ∈ ds := hr c rfl
      have hcn : c ≠ nul := fun he => hds (he ▸ hc)
      have hk : strtok nul ds _ _ = _ := strtok_eq pre (r ++ nul::junk) hd hwn (Or.inl hc) fun h => absurd h hw
      rw [if_neg hw,if_neg hcn] at hk
      refine ⟨d,w,pre ++ d ++ w ++ [nul],r,fun h => hs.2.2 (List.mem_cons_of_mem c h),hs.2.1,
        by rw [ht,tokens_delim hc],by simpa [Nat.add_assoc] using hk,by simp,?_⟩
      intro t hp _
      simpa using hp

theorem countRest_spec (hds : nul ∉ ds) (hs : nul ∉ s) (pre junk : List Char) {fuel : ℕ}
    (hf : (tokens ds s).length < fuel) {n : ℤ} (hn : intWrap n = n) :
    ∃ t, countRest ds fuel (pre ++ (s ++ nul::junk)) pre.length n = (intWrap (n + (tokens ds s).length),t) ∧
      t.length = (pre ++ (s ++ nul::junk)).length := by
  induction fuel generalizing s pre n with
  | zero => omega
  | succ fuel ih =>
    rcases strtok_step hds hs pre junk with ⟨ht,i,hk⟩ | ⟨d,w,pre',s',hs',-,ht,hk,-,-⟩
    · exact ⟨_,by rw [countRest,hk,ht]; simp [hn],rfl⟩
    · rw [ht,List.length_cons] at hf
      have hb : (strtok nul ds (pre ++ (s ++ nul::junk)) pre.length).2.1.length = _ := length_strtok _ _
      rw [hk] at hb
      obtain ⟨t,he,hl⟩ := ih hs' pre' (n := intWrap (n + 1)) (by omega) Int.bmod_bmod
      refine ⟨t,?_,hl.trans hb⟩
      have hw : intWrap (intWrap (n + 1) + (tokens ds s').length) = intWrap (n + (tokens ds s').length.succ) := by
        rw [intWrap,intWrap,Int.bmod_add_bmod,intWrap]
        congr 1
        push_cast
        omega
      rw [countRest,hk,ht,List.length_cons]
      exact he.trans (by rw [hw])

theorem fillRest_spec (hds : nul ∉ ds) (hs : nul ∉ s) (pre junk : List Char) {k i : ℕ} (hk : (tokens ds s).length = k)
    {argv : List (Option ℕ)} (hi : i + k ≤ argv.length) :
    ∃ (ps : List ℕ) (t : List Char), fillRest ds k (pre ++ (s ++ nul::junk)) pre.length i argv =
        some (argv.take i ++ ps.map some ++ argv.drop (i + k),t) ∧
      pre <+: t ∧ (tokens ds s = [] → t = pre ++ (s ++ nul::junk)) ∧
      ps.map (fun p => cstr nul (t.drop p)) = tokens ds s := by
  induction k generalizing s pre i argv with
  | zero =>
    have h0 := List.eq_nil_of_length_eq_zero hk
    exact ⟨[],_,by simp [fillRest],List.prefix_append _ _,fun _ => rfl,by simp [h0]⟩
  | succ k ih =>
    rcases strtok_step hds hs pre junk with ⟨ht,-⟩ | ⟨d,w,pre',s',hs',hw,ht,hstep,hpre,hmark⟩
    · rw [ht] at hk
      cases hk
    · rw [ht,List.length_cons,Nat.add_right_cancel_iff] at hk
      have hi' : i + 1 + k ≤ (argv.set i (some (pre ++ d).length)).length := by
        rw [List.length_set]
        omega
      obtain ⟨ps,t,he,hp,hnone,hps⟩ := ih hs' pre' hk hi'
      obtain ⟨z,hz⟩ := hmark t hp hnone
      refine ⟨(pre ++ d).length::ps,t,?_,hpre.trans hp,by simp [ht],?_⟩
      · rw [fillRest,hstep]
        simp only [store,if_pos (show i < argv.length by omega),Option.bind_eq_bind,Option.bind_some]
        rw [he,List.set_eq_take_append_cons_drop,if_pos (by omega)]
        have hl : (argv.take i).length = i := by rw [List.length_take]; omega
        have hd : i + 1 + k - i = k + 1 := by omega
        have hk' : i + (k + 1) = i + 1 + k := by omega
        have h0 : (argv.take i).drop (i + 1 + k) = [] := List.drop_eq_nil_of_le (by omega)
        simp [List.take_append,List.drop_append,hl,hd,hk',h0]
      · rw [List.map_cons,hps,ht,← hz,List.append_assoc (pre ++ d),List.append_assoc w,List.drop_left,
          List.singleton_append,cstr_append hw]

theorem countTokens_eq (fuel : ℕ) (t : List Char) : countTokens ds fuel t = countRest ds (fuel + 1) t 0 0 := by
  have h1 : intWrap (0 + 1) = 1 := by decide
  rw [countTokens,countRest,h1]

theorem countTokens_spec (hds : nul ∉ ds) (hs : nul ∉ s) (junk : List Char) :
    ∃ t, countTokens ds s.length (s ++ nul::junk) = (intWrap (tokens ds s).length,t) ∧
      t.length = (s ++ nul::junk).length := by
  obtain ⟨t,ht,hl⟩ := countRest_spec hds hs [] junk (Nat.lt_succ_of_le (length_tokens_le s)) (n := 0) (by decide)
  rw [Int.zero_add] at ht
  exact ⟨t,by rw [countTokens_eq]; exact ht,hl⟩

theorem fillTokens_spec (hds : nul ∉ ds) (hs : nul ∉ s) {t : List Char} (ht : s.length + 1 ≤ t.length)
    {argv : List (Option ℕ)} (hn : (tokens ds s).length ≤ argv.length) :
    ∃ (ps : List ℕ) (t' : List Char),
      fillTokens ds s (tokens ds s).length t argv = some (ps.map some ++ argv.drop (tokens ds s).length,t') ∧
      ps.map (fun p => cstr nul (t'.drop p)) = tokens ds s := by
  cases hk : (tokens ds s).length with
  | zero =>
    rw [List.length_eq_zero_iff] at hk
    exact ⟨[],t,by simp [fillTokens],by simp [hk]⟩
  | succ k =>
    obtain ⟨ps,t',he,-,-,hps⟩ := fillRest_spec hds hs [] (t.drop (s.length + 1)) hk (show 0 + _ ≤ argv.length by omega)
    have hc := strncpy_text nul (List.nil_prefix (l := t)) (t := s) (by simpa using ht)
    simp only [List.length_nil,Nat.zero_add,List.nil_append] at hc
    refine ⟨ps,t',?_,hps⟩
    have hk' : ((k + 1 : ℕ) : ℤ) - 1 = k := by omega
    simp only [List.take_zero,List.nil_append,Nat.zero_add,List.length_nil] at he
    rw [fillTokens,if_neg (by omega),hc,hk',← he]
    rfl

theorem ret_lt {m : Allocator Char} {cells : Allocator (Option ℕ)} {r : Split}
    (h : splitArray m cells s ds = some r) : r.ret < 256 := by
  simp only [splitArray,Option.bind_eq_bind,Option.bind_eq_some_iff] at h
  obtain ⟨t,-,t',-,argv,-,a,-,b,-,hr⟩ := h
  obtain rfl := Option.some.inj hr
  dsimp only
  omega

theorem tokens_dropWhile (ds s : Str) : tokens ds (s.dropWhile (· ∈ ds)) = tokens ds s := by
  have hd : ∀ c ∈ s.takeWhile (· ∈ ds), c ∈ ds := fun c hc => by simpa using List.mem_takeWhile_imp hc
  rw [← tokens_delims hd (s.dropWhile (· ∈ ds)),List.takeWhile_append_dropWhile]

/-- As long as an `int` holds the number of the tokens, they are counted. -/
theorem countTokens_copy (hds : nul ∉ ds) (hs : nul ∉ s) {b t : List Char} (hb : s.length + 1 ≤ b.length)
    (hn : (tokens ds s).length < 2^31) (ht : strncpy nul b 0 s (s.length + 1) = some t) :
    ∃ t', countTokens ds s.length t = (((tokens ds s).length : ℤ),t') ∧ s.length + 1 ≤ t'.length := by
  have hc := strncpy_text nul (List.nil_prefix (l := b)) (t := s) (by simpa using hb)
  simp only [List.length_nil,Nat.zero_add,List.nil_append] at hc
  obtain rfl := Option.some.inj (ht.symm.trans hc)
  obtain ⟨t',he,hl⟩ := countTokens_spec hds hs (b.drop (s.length + 1))
  rw [intWrap_small (by omega) (by omega)] at he
  exact ⟨t',he,by rw [hl]; simp⟩

theorem strncpy_isSome {b : List Char} (hb : s.length + 1 ≤ b.length) :
    ∃ t, strncpy nul b 0 s (s.length + 1) = some t := by
  rw [strncpy,if_pos (by omega)]
  exact ⟨_,rfl⟩

theorem sizeCells_small {n : ℕ} (hn : n < 2^31 - 1) : sizeCells (intWrap (n + 1)) = n + 1 := by
  rw [intWrap_small (by omega) (by omega),sizeCells,Int.emod_eq_of_lt (by omega) (by omega)]
  omega

/-- The array is right as long as an `int` holds the number; what is returned is the number modulo 256. -/
theorem splitArray_spec {m : Allocator Char} {cells : Allocator (Option ℕ)} {s ds : CText nul}
    (hm : (m.malloc ((s.1.dropWhile (· ∈ ds.1)).length + 1)).isSome)
    (hc : (cells.malloc ((tokens ds.1 s.1).length + 1)).isSome) (hn : (tokens ds.1 s.1).length < 2^31 - 1) :
    ∃ r, splitArray m cells s ds = some r ∧ r.ret = (tokens ds.1 s.1).length % 256 ∧ r.Lists (tokens ds.1 s) := by
  have hnew : nul ∉ s.1.dropWhile (· ∈ ds.1) := fun h => s.2 ((List.dropWhile_sublist _).subset h)
  rw [← tokens_dropWhile] at hc hn ⊢
  set snew := s.1.dropWhile (· ∈ ds.1) with hsnew
  obtain ⟨b,hb⟩ := Option.isSome_iff_exists.mp hm
  obtain ⟨argv,hargv⟩ := Option.isSome_iff_exists.mp hc
  have hbl := m.le hb
  have hal := cells.le hargv
  obtain ⟨t₀,hcopy⟩ := strncpy_isSome hbl
  obtain ⟨t,ht,htl⟩ := countTokens_copy ds.2 hnew hbl (by omega) hcopy
  obtain ⟨ps,t',hf,hps⟩ := fillTokens_spec ds.2 hnew htl (show _ ≤ argv.length by omega)
  have hz := sizeCells_small hn
  have hpl : ps.length = (tokens ds.1 snew).length := by rw [← hps,List.length_map]
  set n := (tokens ds.1 snew).length
  obtain ⟨x,r,hr⟩ := List.exists_cons_of_ne_nil (l := argv.drop n) (by rw [ne_eq,List.drop_eq_nil_iff]; omega)
  have hst := store_append (ps.map some) r none x
  rw [List.length_map,hpl] at hst
  rw [hr] at hf
  refine ⟨⟨((n : ℤ) % 2^8).toNat,t',ps.map some ++ none::r⟩,?_,?_,?_⟩
  · simp [splitArray,← hsnew,hb,hcopy,ht,hz,hargv,hf,storeAt,hst]
  · dsimp only
    omega
  · have hl : (tokens ds.1 snew).length = (ps.map some).length := by rw [List.length_map,hpl]
    rw [Split.Lists,hl,List.take_append,List.take_of_length_le (by simp),← hps]
    simp

/-- `split_array` returns the number of the tokens and hands out each of them exactly when there are fewer than a `char`
has values. -/
theorem splitArray_iff (m : Allocator Char) (cells : Allocator (Option ℕ)) (s ds : CText nul) :
    (∃ r, splitArray m cells s ds = some r ∧ r.ret = (tokens ds.1 s.1).length ∧ r.Lists (tokens ds.1 s)) ↔
    (m.malloc ((s.1.dropWhile (· ∈ ds.1)).length + 1)).isSome ∧
      (cells.malloc ((tokens ds.1 s.1).length + 1)).isSome ∧ (tokens ds.1 s.1).length < 256 := by
  constructor
  · rintro ⟨r,hr,hret,-⟩
    have hlt := ret_lt hr
    rw [hret] at hlt
    simp only [splitArray,Option.bind_eq_bind,Option.bind_eq_some_iff] at hr
    obtain ⟨b,hb,t₀,hcopy,argv,hargv,-⟩ := hr
    have hnew : nul ∉ s.1.dropWhile (· ∈ ds.1) := fun h => s.2 ((List.dropWhile_sublist _).subset h)
    rw [← tokens_dropWhile] at hlt ⊢
    obtain ⟨t,ht,-⟩ := countTokens_copy ds.2 hnew (m.le hb) (by omega) hcopy
    rw [ht,sizeCells_small (by omega)] at hargv
    exact ⟨Option.isSome_of_eq_some hb,Option.isSome_of_eq_some hargv,hlt⟩
  · rintro ⟨hm,hc,hn⟩
    obtain ⟨r,hr,hret,hl⟩ := splitArray_spec hm hc (by omega)
    exact ⟨r,hr,hret.trans (Nat.mod_eq_of_lt hn),hl⟩

def manyTokens : CText nul := ⟨(List.replicate 256 ['a',' ']).flatten,by decide +kernel⟩

/-- 256 tokens are counted as none. -/
theorem tokens_wrapped : (∃ r, splitArray (roomy Char) (roomy (Option ℕ)) manyTokens " " = some r ∧ r.ret = 0) ∧
    ¬∃ r, splitArray (roomy Char) (roomy (Option ℕ)) manyTokens " " = some r ∧
      r.ret = (tokens " " manyTokens.1).length ∧ r.Lists (tokens " " manyTokens) := by
  have hn : (tokens " " manyTokens.1).length = 256 := by decide +kernel
  constructor
  · obtain ⟨r,hr,hret,-⟩ := @splitArray_spec (roomy Char) (roomy (Option ℕ)) manyTokens ⟨" ",by decide⟩ rfl rfl
      (hn.trans_lt (by decide))
    exact ⟨r,hr,hret.trans (by rw [hn])⟩
  · rintro ⟨r,hr,hret,-⟩
    have hlt := ret_lt hr
    rw [hret,hn] at hlt
    exact absurd hlt (by decide)

section Stristr

def toupper (c : Char) : Char := c.toUpper

/-- `while(toupper(*sptr) == toupper(*pptr))`: whether the pattern ends in it. -/
def agrees : Str → Str → Bool
  | a::s, b::p => toupper a = toupper b && (p.isEmpty || agrees s p)
  | _, _ => false

/-- The `for` inside: on to the next character that the pattern may begin with. -/
def skip (pattern start : Str) : Str :=
  match pattern with
  | [] => []
  | c::_ => start.dropWhile fun a => toupper a ≠ toupper c

theorem length_skip (pattern start : Str) : (skip pattern start).length ≤ start.length := by
  cases pattern with
  | nil => exact Nat.zero_le _
  | cons c p => exact (List.dropWhile_sublist _).length_le

/-- The `for` outside, to the place where the pattern is found. -/
def searchFrom (pattern : Str) : Str → Option Str
  | [] => none
  | a::s =>
    match _h : skip pattern (a::s) with
    | [] => none
    | b::t => if agrees (b::t) pattern then some (b::t) else searchFrom pattern t
termination_by start => start.length
decreasing_by
  have := length_skip pattern (a::s)
  rw [_h,List.length_cons] at this
  omega

/-- `stristr`; the difference of the pointers is returned as an `int`. -/
def stristr (string pattern : Str) : ℤ :=
  match searchFrom pattern string with
  | none => -1
  | some start => intWrap (string.length - start.length)

/-- The pattern is there from the place on, but for the case of letters. -/
def OccursAt (pattern string : Str) (i : ℕ) : Prop := pattern.map toupper <+: (string.drop i).map toupper

/-- The first place where the pattern is, and -1 just if it is nowhere. -/
def FindsFirst (pattern string : Str) (r : ℤ) : Prop :=
  (∀ i, IsLeast {i | OccursAt pattern string i} i → r = i) ∧ (r = -1 ↔ ∀ i, ¬OccursAt pattern string i)

variable {string pattern : Str}

theorem agrees_iff (hp : pattern ≠ []) : agrees string pattern = true ↔ pattern.map toupper <+: string.map toupper := by
  induction pattern generalizing string with
  | nil => exact absurd rfl hp
  | cons b p ih =>
    cases string with
    | nil => simp [agrees]
    | cons a s =>
      rw [agrees,Bool.and_eq_true,decide_eq_true_eq,List.map_cons,List.map_cons,List.cons_prefix_cons,Bool.or_eq_true,
        List.isEmpty_iff]
      refine and_congr eq_comm ?_
      by_cases he : p = []
      · simp [he]
      · rw [or_iff_right he,ih he]

/-- The pattern is not found where its first character is not. -/
theorem searchFrom_cons (hp : pattern ≠ []) (a : Char) (s : Str) :
    searchFrom pattern (a::s) = if agrees (a::s) pattern then some (a::s) else searchFrom pattern s := by
  obtain ⟨c,p,rfl⟩ := List.exists_cons_of_ne_nil hp
  by_cases ha : toupper a = toupper c
  · have hs : skip (c::p) (a::s) = a::s := by rw [skip,List.dropWhile_cons_of_neg (by simp [ha])]
    rw [searchFrom]
    split
    next h => rw [hs] at h; cases h
    next b t h =>
      rw [hs] at h
      obtain ⟨rfl,rfl⟩ := List.cons.inj h
      rfl
  · have hs : skip (c::p) (a::s) = skip (c::p) s := by
      rw [skip,List.dropWhile_cons_of_pos (by simpa using ha),skip]
    have hn : agrees (a::s) (c::p) = false := by simp [agrees,ha]
    rw [hn,searchFrom,hs]
    cases s with
    | nil =>
      rw [searchFrom]
      rfl
    | cons b t =>
      rw [searchFrom]
      rfl

theorem searchFrom_spec (hp : pattern ≠ []) :
    (searchFrom pattern string = none ∧ ∀ i, ¬OccursAt pattern string i) ∨
    ∃ i, IsLeast {i | OccursAt pattern string i} i ∧ i ≤ string.length ∧ searchFrom pattern string = some (string.drop i) := by
  induction string with
  | nil => exact .inl ⟨by rw [searchFrom],fun i h => by simp [OccursAt,hp] at h⟩
  | cons a s ih =>
    rw [searchFrom_cons hp]
    by_cases ha : agrees (a::s) pattern = true
    · exact .inr ⟨0,⟨(agrees_iff hp).mp ha,fun _ _ => Nat.zero_le _⟩,Nat.zero_le _,if_pos ha⟩
    · rw [if_neg ha]
      have h₀ : ¬OccursAt pattern (a::s) 0 := fun h => ha ((agrees_iff hp).mpr h)
      rcases ih with ⟨hn,hall⟩ | ⟨i,⟨hi,hl⟩,hlen,hs⟩
      · refine .inl ⟨hn,fun i => ?_⟩
        cases i with
        | zero => exact h₀
        | succ i => exact hall i
      · refine .inr ⟨i + 1,⟨hi,fun j hj => ?_⟩,Nat.succ_le_succ hlen,hs⟩
        cases j with
        | zero => exact absurd hj h₀
        | succ j => exact Nat.succ_le_succ (hl hj)

theorem stristr_none (hp : pattern ≠ []) (h : ∀ i, ¬OccursAt pattern string i) : stristr string pattern = -1 := by
  rcases @searchFrom_spec string pattern hp with ⟨hn,-⟩ | ⟨i,hi,-⟩
  · rw [stristr,hn]
  · exact absurd hi.1 (h i)

theorem stristr_least (hp : pattern ≠ []) {i : ℕ} (h : IsLeast {i | OccursAt pattern string i} i) :
    stristr string pattern = intWrap i := by
  rcases @searchFrom_spec string pattern hp with ⟨-,hn⟩ | ⟨j,hj,hl,hs⟩
  · exact absurd h.1 (hn i)
  · obtain rfl := h.unique hj
    have he : (string.length - (string.drop i).length : ℤ) = i := by
      rw [List.length_drop]
      omega
    simp only [stristr,hs,he]

/-- `stristr` finds the first place exactly when an `int` holds it. -/
theorem stristr_iff (string pattern : CText nul) (hp : pattern.1 ≠ []) :
    FindsFirst pattern string (stristr string pattern) ↔ ∀ i, IsLeast {i | OccursAt pattern string i} i → i < 2^31 := by
  constructor
  · rintro ⟨hf,-⟩ i hi
    have he := hf i hi
    rw [stristr_least hp hi] at he
    have hb : intWrap i < 2^31 := by
      have := Int.bmod_lt (x := i) (m := 2^32) (by decide)
      rw [intWrap]
      omega
    omega
  · intro h
    by_cases hn : ∀ i, ¬OccursAt pattern string i
    · exact ⟨fun i hi => absurd hi.1 (hn i),iff_of_true (stristr_none hp hn) hn⟩
    · rcases @searchFrom_spec string.1 _ hp with ⟨-,hn'⟩ | ⟨i,hi,-⟩
      · exact absurd hn' hn
      · have hr : stristr string pattern = i :=
          (stristr_least hp hi).trans (intWrap_small (by omega) (by have := h i hi; omega))
        refine ⟨fun j hj => by rw [hr,hj.unique hi],iff_of_false ?_ hn⟩
        rw [hr]
        omega

theorem stristr_iff_end : (("AB" : Str) ≠ []) ∧ (FindsFirst "AB" "aaab" (stristr "aaab" "AB") ↔
    ∀ i, IsLeast {i | OccursAt "AB" "aaab" i} i → i < 2^31) :=
  ⟨by decide,stristr_iff ⟨"aaab",by decide⟩ ⟨"AB",by decide⟩ (by decide)⟩

/-- A text in which an `a` comes late. -/
def late (n : ℕ) : CText nul := ⟨List.replicate n 'b' ++ ['a'],fun h => by
  rcases List.mem_append.mp h with h | h
  · exact absurd (List.eq_of_mem_replicate h) (by decide)
  · exact absurd (List.mem_singleton.mp h) (by decide)⟩

theorem late_least (n : ℕ) : IsLeast {i | OccursAt "a" (late n).1 i} n := by
  constructor
  · change OccursAt _ _ _
    rw [OccursAt,late,List.drop_left' (List.length_replicate ..)]
    exact List.prefix_rfl
  · intro j hj
    by_contra hlt
    obtain ⟨k,hk⟩ : ∃ k, n - j = k + 1 := ⟨n - j - 1,by omega⟩
    change OccursAt _ _ _ at hj
    rw [OccursAt,late,List.drop_append_of_le_length (by rw [List.length_replicate]; omega),List.drop_replicate,hk,
      List.replicate_succ,List.cons_append,List.map_cons] at hj
    exact absurd (List.cons_prefix_cons.mp hj).1 (by decide)

/-- A place that an `int` does not hold is returned as another one. -/
theorem late_negative : stristr (late (2^31)) "a" = -2^31 ∧ ¬FindsFirst "a" (late (2^31)).1 (stristr (late (2^31)) "a") := by
  have hr : stristr (late (2^31)) "a" = -2^31 := by
    rw [stristr_least (by decide) (late_least _)]
    decide
  refine ⟨hr,fun h => ?_⟩
  have := h.1 _ (late_least _)
  rw [hr] at this
  omega

end Stristr

end CStrings
end Mybox
