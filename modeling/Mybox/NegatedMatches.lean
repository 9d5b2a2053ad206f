import Mybox.FilterChain

/-! Rules with negated matches. An exclamation mark stands before an option or before its argument, a word that
begins as an option does is no argument, and a rule that cannot be read applies to nothing. -/
namespace Mybox
namespace PacketFilter

/-- The tables of names, and the tests of what a frame does not carry, such as the state of its connection. -/
structure Setting where
  types : Types
  protocols : Word → Option Nat
  live : Word → Word → Frame → Bool

/-- What begins with a dash is an option, and an empty word has no place in a rule. -/
def isArgument (w : Word) : Bool := w ≠ [] && w ≠ "!".toList && w.head? ≠ some '-'

def protocolNumber (g : Setting) (w : Word) : Option Nat :=
  if isArgument w = false then none
  else if w = "esp".toList then some 50 else if w = "ah".toList then some 51
  else (protocolOf w).or (g.protocols w)

def condition (g : Setting) (o w : Word) : Option (Frame → Bool) :=
  if isArgument w = false then none
  else if o ∈ ["-j".toList,"--limit-burst".toList,"--nflog-prefix".toList] then some fun _ => true
  else if o = "-m".toList ∧ w ∈ ["state".toList,"limit".toList] then some fun _ => true
  else if o ∈ ["--state".toList,"--limit".toList] then some (g.live o w)
  else if o = "-p".toList then (protocolNumber g w).map fun n f => n = 0 || f.packet.payload.proto = n
  else if o = "--dst-range".toList then (addressRange w).map fun r f => r.has f.packet.dst
  else (test o w).map fun t f => t.matches g.types f

def opposite (g : Setting) (o w : Word) : Option (Frame → Bool) :=
  if o = "-m".toList ∨ o = "-j".toList then none else (condition g o w).map fun c f => !c f

def conditions (g : Setting) : List Word → Option (List (Frame → Bool))
  | [] => some []
  | [_] => none
  | [o,w] => if o = "!".toList then none else (condition g o w).map ([·])
  | o::w::x::ws =>
    if o = "!".toList then (opposite g w x).bind fun c => (conditions g ws).map (c::·)
    else if w = "!".toList then (opposite g o x).bind fun c => (conditions g ws).map (c::·)
    else (condition g o w).bind fun c => (conditions g (x::ws)).map (c::·)

/-- The words are read, and the conditions hold of the frame. -/
def Holds (g : Setting) (ws : List Word) (f : Frame) : Prop := ∃ cs, conditions g ws = some cs ∧ ∀ c ∈ cs, c f = true

/-- A rule of the form `-A chain …` applies to a frame. -/
def Applies (g : Setting) (s : Word) (f : Frame) : Prop := ∃ c ws, tokens s = "-A".toList::c::ws ∧ Holds g ws f

def Met (x : Option (Frame → Bool)) (f : Frame) : Prop := ∃ c, x = some c ∧ c f = true

variable {g : Setting} {f : Frame}

def Starts (ws : List Word) : Prop := ∃ o os, ws = o::os ∧ o.head? = some '-'

theorem condition_none {o w : Word} (h : isArgument w = false) : condition g o w = none := by
  rw [condition,if_pos h]

theorem opposite_none {o w : Word} (h : isArgument w = false) : opposite g o w = none := by
  rw [opposite,condition_none h]
  split <;> rfl

theorem isArgument_dash {w : Word} (h : w.head? = some '-') : isArgument w = false := by
  simp [isArgument,h]

theorem ne_mark {w : Word} (h : w.head? = some '-') : w ≠ "!".toList := by
  rintro rfl
  exact absurd h (by decide)

theorem holds_bind {x : Option (Frame → Bool)} {ws vs : List Word}
    (h : conditions g ws = x.bind fun c => (conditions g vs).map (c::·)) :
    Holds g ws f ↔ Met x f ∧ Holds g vs f := by
  rw [Holds,h]
  constructor
  · rintro ⟨cs,hcs,ht⟩
    obtain ⟨c,hc,hcs⟩ := Option.bind_eq_some_iff.mp hcs
    obtain ⟨ds,hd,rfl⟩ := Option.map_eq_some_iff.mp hcs
    exact ⟨⟨c,hc,ht c (by simp)⟩,ds,hd,fun d hm => ht d (List.mem_cons_of_mem _ hm)⟩
  · rintro ⟨⟨c,rfl,hc⟩,ds,hd,ht⟩
    exact ⟨c::ds,by simp [hd],List.forall_mem_cons.mpr ⟨hc,ht⟩⟩

def fieldWords (w : Word) : List Word := if w = [] then [] else [w]

/-- An option with its field, whatever the field is. -/
theorem holds_option {o : Word} (w : Word) {vs : List Word} (ho : o ≠ "!".toList) (hv : Starts vs) :
    Holds g (o::fieldWords w ++ vs) f ↔ Met (condition g o w) f ∧ Holds g vs f := by
  obtain ⟨v,vs,rfl,hd⟩ := hv
  apply holds_bind
  by_cases hw : w = []
  · subst hw
    have hn : condition g o v = none := condition_none (isArgument_dash hd)
    rw [condition_none rfl]
    cases vs with
    | nil =>
      simp only [fieldWords,if_pos,List.cons_append,List.nil_append,conditions,if_neg ho,hn,Option.map_none,
        Option.bind_none]
    | cons x xs =>
      simp only [fieldWords,if_pos,List.cons_append,List.nil_append,conditions,if_neg ho,if_neg (ne_mark hd),hn,
        Option.bind_none]
  · by_cases hm : w = "!".toList
    · subst hm
      rw [condition_none rfl]
      simp only [fieldWords,if_neg hw,List.cons_append,List.nil_append,conditions,if_neg ho,if_pos trivial,
        opposite_none (isArgument_dash hd),Option.bind_none]
    · simp only [fieldWords,if_neg hw,List.cons_append,List.nil_append,conditions,if_neg ho,if_neg hm]

theorem holds_marked {o : Word} (w : Word) {vs : List Word} (ho : o ≠ "!".toList) (hv : Starts vs) :
    Holds g (o::"!".toList::fieldWords w ++ vs) f ↔ Met (opposite g o w) f ∧ Holds g vs f := by
  obtain ⟨v,vs,rfl,hd⟩ := hv
  apply holds_bind
  by_cases hw : w = []
  · subst hw
    rw [opposite_none rfl]
    simp only [fieldWords,if_pos,List.cons_append,List.nil_append,conditions,if_neg ho,
      opposite_none (isArgument_dash hd),Option.bind_none]
  · simp only [fieldWords,if_neg hw,List.cons_append,List.nil_append,conditions,if_neg ho,if_pos]

theorem holds_unless {o : Word} (w : Word) {vs : List Word} (hv : Starts vs) :
    Holds g ("!".toList::o::fieldWords w ++ vs) f ↔ Met (opposite g o w) f ∧ Holds g vs f := by
  obtain ⟨v,vs,rfl,hd⟩ := hv
  apply holds_bind
  by_cases hw : w = []
  · subst hw
    rw [opposite_none rfl]
    simp only [fieldWords,if_pos,List.cons_append,List.nil_append,conditions,
      opposite_none (isArgument_dash hd),Option.bind_none]
  · simp only [fieldWords,if_neg hw,List.cons_append,List.nil_append,conditions,if_pos]

/-- A text without a blank or a quotation mark in it; it may be empty. -/
def Unbroken (w : Word) : Prop := ∀ c ∈ w, c ≠ ' ' ∧ c ≠ '"'

instance (w : Word) : Decidable (Unbroken w) := inferInstanceAs (Decidable (∀ c ∈ w, c ≠ ' ' ∧ c ≠ '"'))

theorem Unbroken.splits {w : Word} (h : Unbroken w) : Splits w (fieldWords w) := by
  by_cases hw : w = []
  · subst hw
    exact splits_nil
  · rw [fieldWords,if_neg hw]
    have hs := splits_unquoted (s:=w) fun hq => (h _ hq).2 rfl
    obtain ⟨c,v,rfl⟩ := List.exists_cons_of_ne_nil hw
    have ht : tokens (c::v) = [c::v] := by
      have hc := h c (by simp)
      have hv : ∀ d ∈ v, d ≠ '"' ∧ (d = ' ' → false = true) := fun d hd =>
        have hd := h d (List.mem_cons_of_mem _ hd)
        ⟨hd.2,fun he => absurd he hd.1⟩
      have hf := tokensFrom_chars hv [c] []
      rw [List.append_nil] at hf
      rw [tokens,tokensFrom,if_neg hc.2,if_neg (by simp [hc.1]),Option.getD_none,List.nil_append,hf]
      rfl
    rwa [ht] at hs

structure Tests (g : Setting) (s : Word) (t : Frame → Prop) : Prop where
  reads : ∃ ws, Splits s ws ∧ Starts ws ∧ ∀ vs, Starts vs → ∀ f, Holds g (ws ++ vs) f ↔ t f ∧ Holds g vs f

theorem Tests.congr {s : Word} {t u : Frame → Prop} (h : Tests g s t) (he : ∀ f, t f ↔ u f) : Tests g s u := by
  obtain ⟨ws,hs,hw,hh⟩ := h.reads
  exact ⟨ws,hs,hw,fun vs hv f => by rw [hh vs hv f,he f]⟩

theorem Starts.append {ws : List Word} (h : Starts ws) (vs : List Word) : Starts (ws ++ vs) := by
  obtain ⟨o,os,rfl,hd⟩ := h
  exact ⟨o,os ++ vs,rfl,hd⟩

theorem Tests.append {s t : Word} {p q : Frame → Prop} (hs : Tests g s p) (ht : Tests g t q) :
    Tests g (s ++ ' '::t) fun f => p f ∧ q f := by
  obtain ⟨ws,hs,hw,hp⟩ := hs.reads
  obtain ⟨vs,ht,hv,hq⟩ := ht.reads
  refine ⟨ws ++ vs,hs.append ht,hw.append vs,fun us hu f => ?_⟩
  rw [List.append_assoc,hp _ (hv.append us),hq us hu,and_assoc]

theorem starts_front {o : Word} (hd : o.head? = some '-') (ho : PlainWord o) (s : Word) :
    Starts (tokens (o ++ ' '::s)) := ⟨o,tokens s,ho.splits.front s,hd⟩

structure IsOption (o : Word) : Prop where
  dash : o.head? = some '-'
  plain : PlainWord o

instance (o : Word) : Decidable (IsOption o) :=
  decidable_of_iff (o.head? = some '-' ∧ PlainWord o) ⟨fun h => ⟨h.1,h.2⟩,fun h => ⟨h.1,h.2⟩⟩

theorem tests_option {o w : Word} (ho : IsOption o) (hw : Unbroken w) :
    Tests g (o ++ ' '::w) (Met (condition g o w)) :=
  ⟨o::fieldWords w,ho.plain.splits.append hw.splits,⟨o,_,rfl,ho.dash⟩,fun _ hv _ =>
    holds_option w (ne_mark ho.dash) hv⟩

theorem tests_marked {o w : Word} (ho : IsOption o) (hw : Unbroken w) :
    Tests g (o ++ ' '::"! ".toList ++ w) (Met (opposite g o w)) := by
  have hm : PlainWord ['!'] := by decide
  refine ⟨o::"!".toList::fieldWords w,?_,⟨o,_,rfl,ho.dash⟩,fun _ hv _ => holds_marked w (ne_mark ho.dash) hv⟩
  have hs := ho.plain.splits.append (hm.splits.append hw.splits)
  simpa using hs

/-- A module, and the mark before the option after it. -/
theorem tests_unless {m o w : Word} (hm : PlainWord m) (ha : Met (condition g "-m".toList m) = fun _ => True)
    (ho : IsOption o) (hw : Unbroken w) :
    Tests g ("-m".toList ++ ' '::(m ++ ' '::"! ".toList ++ o ++ ' '::w)) (Met (opposite g o w)) := by
  have hx : PlainWord ['!'] := by decide
  have hd : PlainWord "-m".toList := by decide
  refine ⟨"-m".toList::m::"!".toList::o::fieldWords w,?_,⟨_,_,rfl,rfl⟩,fun vs hv f => ?_⟩
  · have hs := hd.splits.append (hm.splits.append (hx.splits.append (ho.plain.splits.append hw.splits)))
    simpa using hs
  · have hh : conditions g ("-m".toList::m::"!".toList::o::(fieldWords w ++ vs)) =
        (condition g "-m".toList m).bind fun c => (conditions g ("!".toList::o::(fieldWords w ++ vs))).map (c::·) := by
      have hn : m ≠ "!".toList := by
        rintro rfl
        have h₀ := congrFun ha f
        rw [condition_none rfl] at h₀
        simp [Met] at h₀
      rw [conditions,if_neg (by decide),if_neg hn]
    have hu := holds_bind (f:=f) hh
    rw [ha] at hu
    have hw' := holds_unless (g:=g) (f:=f) (o:=o) w hv
    simp only [List.cons_append] at hw' ⊢
    rw [hu,hw',true_and]

theorem holds_texts {ps : List (Word × (Frame → Prop))} (h : ∀ p ∈ ps, Tests g p.1 p.2) {a : Word}
    (ha : Starts (tokens a)) : ∃ ws, tokens ([' '].intercalate (ps.map Prod.fst ++ [a])) = ws ∧ Starts ws ∧
      ∀ f, Holds g ws f ↔ (∀ p ∈ ps, p.2 f) ∧ Holds g (tokens a) f := by
  induction ps with
  | nil => exact ⟨tokens a,by simp,ha,fun f => by simp⟩
  | cons p ps ih =>
    obtain ⟨ws,hws,hst,hh⟩ := ih fun q hq => h q (List.mem_cons_of_mem _ hq)
    obtain ⟨us,hs,hu,hp⟩ := (h p (by simp)).reads
    have hne : ps.map Prod.fst ++ [a] ≠ [] := by simp
    obtain ⟨q,qs,hq⟩ := List.exists_cons_of_ne_nil hne
    refine ⟨us ++ ws,?_,hu.append ws,fun f => ?_⟩
    · have hi : [' '].intercalate ((p::ps).map Prod.fst ++ [a]) =
          p.1 ++ ' '::[' '].intercalate (ps.map Prod.fst ++ [a]) := by
        rw [List.map_cons,List.cons_append,hq,List.intercalate_cons_cons]
        simp
      rw [hi,hs.front,hws]
    · rw [hp ws hst f,hh f,List.forall_mem_cons,and_assoc]

/-- A rule made of texts that test something applies when all of them hold, and what stands after them. -/
theorem applies_texts {ps : List (Word × (Frame → Prop))} (h : ∀ p ∈ ps, Tests g p.1 p.2) {c a : Word}
    (hc : PlainWord c) (ha : Starts (tokens a)) :
    Applies g ("-A".toList ++ ' '::[' '].intercalate (c::ps.map Prod.fst ++ [a])) f ↔
      (∀ p ∈ ps, p.2 f) ∧ Holds g (tokens a) f := by
  obtain ⟨ws,hws,-,hh⟩ := holds_texts h ha
  have hA : PlainWord "-A".toList := by decide
  have hne : ps.map Prod.fst ++ [a] ≠ [] := by simp
  obtain ⟨q,qs,hq⟩ := List.exists_cons_of_ne_nil hne
  have ht : tokens ("-A".toList ++ ' '::[' '].intercalate (c::ps.map Prod.fst ++ [a])) = "-A".toList::c::ws := by
    rw [List.cons_append,hq,List.intercalate_cons_cons,← hq]
    have hs := hA.splits.front (c ++ [' '] ++ [' '].intercalate (ps.map Prod.fst ++ [a]))
    have hs' := hc.splits.front ([' '].intercalate (ps.map Prod.fst ++ [a]))
    rw [List.append_assoc,List.singleton_append] at hs ⊢
    rw [hs,hs',hws]
    rfl
  rw [← hh f]
  constructor
  · rintro ⟨c',ws',ht',hw⟩
    rw [ht,List.cons.injEq,List.cons.injEq] at ht'
    obtain ⟨-,-,rfl⟩ := ht'
    exact hw
  · exact fun hw => ⟨c,ws,ht,hw⟩

theorem isArgument_of_head {w : Word} {c : Char} (h : w.head? = some c) (hc : c ≠ '-' ∧ c ≠ '!') :
    isArgument w = true := by
  obtain ⟨v,rfl⟩ : ∃ v, w = c::v := by
    cases w with
    | nil => exact absurd h (by simp)
    | cons d v => exact ⟨v,by simpa using h⟩
  have hm : c::v ≠ ['!'] := fun he => hc.2 (List.cons.inj he).1
  simp [isArgument,hc.1,hm]

theorem head?_of_splitOn {sep : Char} {w a : Word} {as : List Word} {c : Char} (h : w.splitOn sep = a::as)
    (hc : a.head? = some c) : w.head? = some c := by
  cases w with
  | nil =>
    rw [List.splitOn_nil,List.cons.injEq] at h
    rw [← h.1] at hc
    exact absurd hc (by simp)
  | cons d w =>
    rw [List.splitOn_cons_eq_if_modifyHead] at h
    split at h
    · rw [← (List.cons.inj h).1] at hc
      exact absurd hc (by simp)
    · obtain ⟨b,bs,hb⟩ := List.exists_cons_of_ne_nil (List.splitOn_ne_nil sep w)
      rw [hb,List.modifyHead_cons,List.cons.injEq] at h
      rw [← h.1] at hc
      exact hc

theorem number_head {w : Word} {n : Nat} (h : number w = some n) : ∃ c, w.head? = some c ∧ '0' ≤ c ∧ c ≤ '9' := by
  obtain ⟨hw,hd⟩ := number_isWord h
  obtain ⟨c,v,rfl⟩ := List.exists_cons_of_ne_nil hw.ne
  exact ⟨c,rfl,hd c (by simp)⟩

theorem address_head {w : Word} {n : Nat} (h : address w = some n) : ∃ c, w.head? = some c ∧ '0' ≤ c ∧ c ≤ '9' := by
  unfold address at h
  split at h
  · rename_i a b c d hs
    obtain ⟨x,hx,-⟩ := Option.bind_eq_some_iff.mp h
    obtain ⟨e,he,hd⟩ := number_head (octet_number hx)
    exact ⟨e,head?_of_splitOn hs he,hd⟩
  · exact absurd h (by simp)

theorem digit_ne {c : Char} (h : '0' ≤ c ∧ c ≤ '9') : c ≠ '-' ∧ c ≠ '!' := by
  constructor <;> (rintro rfl; exact absurd h (by decide))

theorem isArgument_of_pieces {sep : Char} {w a : Word} {as : List Word} (hs : w.splitOn sep = a::as)
    (ha : ∃ c, a.head? = some c ∧ '0' ≤ c ∧ c ≤ '9') : isArgument w = true := by
  obtain ⟨c,hc,hd⟩ := ha
  exact isArgument_of_head (head?_of_splitOn hs hc) (digit_ne hd)

theorem net_isArgument {w : Word} {n : Net} (h : net w = some n) : isArgument w = true := by
  unfold net at h
  split at h
  · rename_i hs
    obtain ⟨m,hm,-⟩ := Option.map_eq_some_iff.mp h
    exact isArgument_of_pieces hs (address_head hm)
  · rename_i hs
    obtain ⟨m,hm,-⟩ := Option.bind_eq_some_iff.mp h
    exact isArgument_of_pieces hs (address_head hm)
  · exact absurd h (by simp)

theorem addressRange_isArgument {w : Word} {r : Range} (h : addressRange w = some r) : isArgument w = true := by
  unfold addressRange at h
  split at h
  · rename_i a b hs
    obtain ⟨m,hm,-⟩ := Option.bind_eq_some_iff.mp h
    exact isArgument_of_pieces hs (address_head hm)
  · exact absurd h (by simp)

theorem range_isArgument {w : Word} {r : Range} (h : range w = some r) : isArgument w = true := by
  unfold range at h
  split at h
  · rename_i hs
    obtain ⟨m,hm,-⟩ := Option.map_eq_some_iff.mp h
    exact isArgument_of_pieces hs (number_head hm)
  · rename_i hs
    obtain ⟨m,hm,-⟩ := Option.bind_eq_some_iff.mp h
    exact isArgument_of_pieces hs (number_head hm)
  · exact absurd h (by simp)

theorem hardware_isArgument {w : Word} {m : List Nat} (h : hardware w = some m) : isArgument w = true := by
  obtain ⟨a,as,hs⟩ := List.exists_cons_of_ne_nil (List.splitOn_ne_nil ':' w)
  unfold hardware at h
  simp only [hs] at h
  split at h
  · rw [List.mapM_cons] at h
    obtain ⟨x,hx,-⟩ := Option.bind_eq_some_iff.mp h
    unfold hexByte at hx
    split at hx
    · rename_i c d _
      refine isArgument_of_head (head?_of_splitOn hs (c:=c) rfl) ⟨?_,?_⟩ <;> rintro rfl
      · exact absurd hx (by simp [hexValue])
      · exact absurd hx (by simp [hexValue])
    · exact absurd hx (by simp)
  · exact absurd h (by simp)

theorem condition_read {α : Type} {o w : Word} {read : Word → Option α} {k : α → Frame → Bool}
    (hr : ∀ {x}, read w = some x → isArgument w = true)
    (h : isArgument w = true → condition g o w = (read w).map k) : condition g o w = (read w).map k := by
  cases hw : isArgument w with
  | true => exact h hw
  | false =>
    rw [condition_none hw]
    cases hx : read w with
    | none => rfl
    | some x => exact absurd (hr hx) (by simp [hw])

theorem condition_src (g : Setting) (w : Word) : condition g "-s".toList w = (net w).map fun n f => n.has f.packet.src := by
  refine condition_read net_isArgument fun hw => ?_
  rw [condition,if_neg (by simp [hw])]
  cases hn : net w <;> simp [test,option,hn,Test.matches,Opt.matches]

theorem condition_dst (g : Setting) (w : Word) : condition g "-d".toList w = (net w).map fun n f => n.has f.packet.dst := by
  refine condition_read net_isArgument fun hw => ?_
  rw [condition,if_neg (by simp [hw])]
  cases hn : net w <;> simp [test,option,hn,Test.matches,Opt.matches]

theorem condition_srcRange (g : Setting) (w : Word) :
    condition g "--src-range".toList w = (addressRange w).map fun r f => r.has f.packet.src := by
  refine condition_read addressRange_isArgument fun hw => ?_
  rw [condition,if_neg (by simp [hw])]
  cases hn : addressRange w <;> simp [test,hn,Test.matches]

theorem condition_dstRange (g : Setting) (w : Word) :
    condition g "--dst-range".toList w = (addressRange w).map fun r f => r.has f.packet.dst := by
  refine condition_read addressRange_isArgument fun hw => ?_
  rw [condition,if_neg (by simp [hw])]
  simp

theorem condition_mac (g : Setting) (w : Word) :
    condition g "--mac-source".toList w = (hardware w).map fun m f => decide (f.mac = m) := by
  refine condition_read hardware_isArgument fun hw => ?_
  rw [condition,if_neg (by simp [hw])]
  cases hn : hardware w <;> simp [test,hn,Test.matches]

theorem condition_proto (g : Setting) (w : Word) :
    condition g "-p".toList w = (protocolNumber g w).map fun n f => n = 0 || f.packet.payload.proto = n := by
  refine condition_read ?_ fun hw => ?_
  · intro x hx
    by_contra hw
    rw [protocolNumber,if_pos (by simpa using hw)] at hx
    exact absurd hx (by simp)
  · rw [condition,if_neg (by simp [hw])]
    simp

theorem condition_number {o : Word} {x : Range → Opt}
    (ho : o ∉ ["-j".toList,"--limit-burst".toList,"--nflog-prefix".toList,"--state".toList,"--limit".toList,
      "-p".toList,"-m".toList,"--dst-range".toList])
    (h : ∀ w, test o w = (range w).map fun r => .opt (x r)) (g : Setting) (w : Word) :
    condition g o w = (range w).map fun r f => (x r).matches g.types f.packet := by
  refine condition_read range_isArgument fun hw => ?_
  simp only [List.mem_cons,List.not_mem_nil,or_false,not_or] at ho
  obtain ⟨hj,hb,hx,hs,hm,hp,hl,hd⟩ := ho
  have h₁ : o ∉ ["-j".toList,"--limit-burst".toList,"--nflog-prefix".toList] := by
    simp only [List.mem_cons,List.not_mem_nil,or_false,not_or]
    exact ⟨hj,hb,hx⟩
  have h₂ : o ∉ ["--state".toList,"--limit".toList] := by
    simp only [List.mem_cons,List.not_mem_nil,or_false,not_or]
    exact ⟨hs,hm⟩
  rw [condition,if_neg (by simp [hw]),if_neg h₁,if_neg fun he => hl he.1,if_neg h₂,if_neg hp,if_neg hd,h w,
    Option.map_map]
  rfl

theorem condition_sport (g : Setting) (w : Word) : condition g "--sport".toList w =
    (range w).map fun r f => (Opt.sport r).matches g.types f.packet :=
  condition_number (by decide) (fun w => by simp [test,option,Function.comp_def]) g w

theorem condition_dport (g : Setting) (w : Word) : condition g "--dport".toList w =
    (range w).map fun r f => (Opt.dport r).matches g.types f.packet :=
  condition_number (by decide) (fun w => by simp [test,option,Function.comp_def]) g w

theorem condition_ahspi (g : Setting) (w : Word) : condition g "--ahspi".toList w =
    (range w).map fun r f => (Opt.ahspi r).matches g.types f.packet :=
  condition_number (by decide) (fun w => by simp [test,option,Function.comp_def]) g w

theorem condition_espspi (g : Setting) (w : Word) : condition g "--espspi".toList w =
    (range w).map fun r f => (Opt.espspi r).matches g.types f.packet :=
  condition_number (by decide) (fun w => by simp [test,option,Function.comp_def]) g w

theorem condition_icmp (g : Setting) (w : Word) : condition g "--icmp-type".toList w =
    if isArgument w then some fun f => (Opt.icmpType w).matches g.types f.packet else none := by
  cases hw : isArgument w with
  | false => exact condition_none hw
  | true =>
    rw [condition,if_neg (by simp [hw])]
    simp [test,option,Test.matches]

end PacketFilter
end Mybox
