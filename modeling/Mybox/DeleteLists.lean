import Mybox.ResourceIds

/-! The delete commands of the networks and the services: a list of numbers is gone through one by one, and the command
ends at the first number of an object that cannot be deleted. When nothing is deleted before it. -/
namespace Mybox
namespace DeleteLists

open Php RegistryFormat Registry References Definitions
open ResourceIds (Obj Slot Held cliMultinum slotOf isInterface)

inductive Section
  | networks
  | services
  deriving DecidableEq

def Section.kind : Section → Kind
  | networks => .networks
  | services => .services

variable (pcre : Pcre) (env : Env) (c : Section)

/-- The test before a deletion; a number is compared with the number a word stands for. -/
def guarded : ResourceIds.Key → Bool
  | .text s => looseEq s "builtin" || (c = .networks && looseEq s "interface")
  | .num n => n = 0

/-- `_DEFINITIONS_DELETE` of what stands under a number; an array is no key of an entry. -/
def deleteHeld (e : ResourceIds.Key × Held) (w : World) : Ret × World :=
  match e.2 with
  | .id id => definitionsDelete pcre env c.kind e.1.name id w
  | .types _ =>
    let fil := definitionsFile c.kind e.1.name
    (.fail,iniObjectClean "definitions" fil (iniTokenGet env "definitions" fil ∅ w).2)

/-- `unset($_obj[$_no])` -/
def unsetNo (obj : Obj) (no : Str) : Obj :=
  match obj.keys.find? fun n => decimal n = no with
  | some n => obj.erase n
  | none => obj

/-- `$_obj`, the registry, and whether the command has ended. -/
structure Progress where
  obj : Obj
  world : World
  stopped : Bool

def heldTurn (no : Str) (s : Progress) (e : ResourceIds.Key × Held) : Progress :=
  if s.stopped then s
  else if guarded c e.1 then { s with stopped := true }
  else
    let d := deleteHeld pcre env c e s.world
    ⟨if d.1 = .ok then unsetNo s.obj no else s.obj,d.2,false⟩

def numberTurn (s : Progress) (no : Str) : Progress := (slotOf s.obj no).entries.foldl (heldTurn pcre env c no) s

/-- One number under `*`; what cannot be deleted is left out. -/
def starTurn (s : Obj × World) (n : ℕ × Slot) : Obj × World :=
  n.2.entries.foldl (fun s e =>
    if guarded c e.1 then s
    else
      let d := deleteHeld pcre env c e s.2
      (if d.1 = .ok then s.1.erase n.1 else s.1,d.2)) s

/-- `___CLI_DEFINITIONS_NETWORKS_DELETE` and `___CLI_DEFINITIONS_SERVICES_DELETE`: whether the command is accepted,
`$_obj` at its end and the registry; `yes` is the answer to the question whether all shall go. -/
def definitionsDeleteCommand (obj : Obj) (num : Str) (yes : Bool) (w : World) : Bool × Obj × World :=
  if obj.isEmpty then (false,obj,w)
  else if num = ("*" : Str) && yes then (env.cache,obj.entries.foldl (starTurn pcre env c) (obj,w))
  else
    let s := (cliMultinum num).foldl (numberTurn pcre env c) ⟨obj,w,false⟩
    (!s.stopped && env.cache,s.obj,s.world)

/-- What stands under a number is built in, or comes from an interface. -/
def isProtected : ResourceIds.Key × Held → Bool
  | (.text s,_) => looseEq s "builtin" || (c = .networks && (looseEq s "interface" || isInterface s))
  | (.num _,.types m) => c = .networks && m.entries.any fun t => isInterface t.1
  | (.num _,.id _) => false

/-- What the numbers of a list stand for, in its order. -/
def listedHeld (obj : Obj) (num : Str) : List (ResourceIds.Key × Held) := (cliMultinum num).flatMap fun no => (slotOf obj no).entries

/-- With an object in the list that must not be deleted, the command is turned down, no number is taken out of `$_obj`,
as one is whose object has been deleted, and the registry stays. -/
def AllOrNothing (obj : Obj) (num : Str) (yes : Bool) (w : World) : Prop :=
  (∃ e ∈ listedHeld obj num, isProtected c e) →
    (definitionsDeleteCommand pcre env c obj num yes w).1 = false ∧
    (definitionsDeleteCommand pcre env c obj num yes w).2.1 = obj ∧
    (definitionsDeleteCommand pcre env c obj num yes w).2.2.reg = w.reg

def goes (w : World) (e : ResourceIds.Key × Held) : Bool :=
  match e.2 with
  | .id id => env.strg && !((entries "definitions" (definitionsFile c.kind e.1.name) w).getD id ∅).isEmpty
  | .types _ => false

/-- What stands before the first one that ends the command. -/
def before (es : List (ResourceIds.Key × Held)) : List (ResourceIds.Key × Held) := es.takeWhile fun e => !guarded c e.1

/-- With an object in the list that must not be deleted, the command comes to one that ends it, or cannot save its
numbers, and none that can be deleted stands before. -/
def GuardFirst (obj : Obj) (num : Str) (w : World) : Prop :=
  (∃ e ∈ listedHeld obj num, isProtected c e) →
    ((∃ e ∈ listedHeld obj num, guarded c e.1) ∨ env.cache = false) ∧
      ∀ e ∈ before c (listedHeld obj num), goes env c w e = false

theorem deleteHeld_fresh {w : World} (h : Fresh w) (e : ResourceIds.Key × Held) : Fresh (deleteHeld pcre env c e w).2 := by
  unfold deleteHeld
  split
  · exact iniTokenDelete_fresh pcre env _ looked_definitions h
  · exact iniObjectClean_fresh _ _ (h.iniTokenGet env looked_definitions _)

theorem deleteHeld_ok {w : World} (h : Fresh w) (e : ResourceIds.Key × Held) :
    (deleteHeld pcre env c e w).1 = .ok ↔ goes env c w e = true := by
  unfold deleteHeld goes
  cases e.2 with
  | types m => simp
  | id id =>
    dsimp only
    unfold definitionsDelete iniTokenDelete
    dsimp only
    rw [iniTokenGet_fst env _ _ (h _ _ looked_definitions)]
    by_cases he : ((entries "definitions" (definitionsFile c.kind e.1.name) w).getD id ∅).isEmpty = true
    · simp [he]
    · rw [if_neg he]
      rw [Bool.not_eq_true] at he
      simp only [he,Bool.not_false,Bool.and_true]
      split
      · rename_i hs
        simp only [Bool.and_eq_true,decide_eq_true_eq] at hs
        exact ⟨fun _ => (fileSave_ok env _ _).mp hs.1,fun _ => rfl⟩
      · exact fileSave_ok env _ _

theorem deleteHeld_refused {w : World} {e : ResourceIds.Key × Held} (h : (deleteHeld pcre env c e w).1 ≠ .ok) :
    (deleteHeld pcre env c e w).2.reg = w.reg := by
  unfold deleteHeld at h ⊢
  split
  · rename_i hid
    simp only [hid] at h
    exact iniTokenDelete_refused pcre env h
  · simp

-- The loops. Until a deletion goes through, nothing changes; then `$_obj` has a number less.
def size (obj : Obj) : ℕ := obj.entries.length

theorem size_erase_le (obj : Obj) (n : ℕ) : size (obj.erase n) ≤ size obj := List.length_filter_le ..

theorem size_unsetNo_le (obj : Obj) (no : Str) : size (unsetNo obj no) ≤ size obj := by
  unfold unsetNo
  split
  · exact size_erase_le _ _
  · exact Nat.le_refl _

/-- A number with something under it stands in `$_obj`, and is taken out. -/
theorem size_unsetNo_lt {obj : Obj} {no : Str} (h : (slotOf obj no).entries ≠ []) : size (unsetNo obj no) < size obj := by
  have hk : ∃ n ∈ obj.keys, decimal n = no := by
    by_contra hn
    push Not at hn
    refine h ?_
    have hf : (obj.entries.findSome? fun e => if decimal e.1 = no then some e.2 else none) = none :=
      List.findSome?_eq_none_iff.mpr fun e he => if_neg (hn e.1 (List.mem_map_of_mem he))
    rw [slotOf,hf]
    rfl
  unfold unsetNo
  split
  · rename_i n hn
    have hmem := List.mem_of_find?_eq_some hn
    obtain ⟨e,he,rfl⟩ := List.mem_map.mp hmem
    have hp : obj.entries.Perm (e::(obj.erase e.1).entries) := OrdMap.perm_erase (OrdMap.get?_eq_some.mpr he)
    rw [size,size,hp.length_eq]
    exact Nat.lt_succ_self _
  · rename_i hn
    obtain ⟨n,hn',he⟩ := hk
    have := List.find?_eq_none.mp hn n hn'
    simp [he] at this

theorem heldTurn_size (no : Str) (s : Progress) (e : ResourceIds.Key × Held) :
    size (heldTurn pcre env c no s e).obj ≤ size s.obj := by
  unfold heldTurn
  split_ifs
  · exact Nat.le_refl _
  · exact Nat.le_refl _
  · dsimp only
    split
    · exact size_unsetNo_le _ _
    · exact Nat.le_refl _

theorem foldl_held_size (no : Str) (es : List (ResourceIds.Key × Held)) (s : Progress) :
    size (es.foldl (heldTurn pcre env c no) s).obj ≤ size s.obj := by
  induction es generalizing s with
  | nil => exact Nat.le_refl _
  | cons e es ih => exact (ih _).trans (heldTurn_size pcre env c no s e)

theorem foldl_number_size (nos : List Str) (s : Progress) :
    size (nos.foldl (numberTurn pcre env c) s).obj ≤ size s.obj := by
  induction nos generalizing s with
  | nil => exact Nat.le_refl _
  | cons no nos ih => exact (ih _).trans (foldl_held_size pcre env c no _ s)

theorem foldl_held_stopped (no : Str) (es : List (ResourceIds.Key × Held)) {s : Progress} (h : s.stopped = true) :
    es.foldl (heldTurn pcre env c no) s = s := by
  induction es with
  | nil => rfl
  | cons e es ih => rwa [List.foldl_cons,heldTurn,if_pos h]

theorem foldl_number_stopped (nos : List Str) {s : Progress} (h : s.stopped = true) :
    nos.foldl (numberTurn pcre env c) s = s := by
  induction nos with
  | nil => rfl
  | cons no nos ih => rwa [List.foldl_cons,numberTurn,foldl_held_stopped pcre env c no _ h]

structure Untouched (obj : Obj) (w : World) (s : Progress) : Prop where
  obj : s.obj = obj
  reg : s.world.reg = w.reg
  fresh : Fresh s.world

theorem goes_congr {w v : World} (h : v.reg = w.reg) (e : ResourceIds.Key × Held) : goes env c v e = goes env c w e := by
  unfold goes
  split
  · rw [entries_congr _ _ h]
  · rfl

@[simp] theorem before_nil : before c [] = [] := rfl

theorem before_cons (e : ResourceIds.Key × Held) (es : List (ResourceIds.Key × Held)) :
    before c (e::es) = if guarded c e.1 then [] else e :: before c es := by
  rw [before,List.takeWhile_cons]
  cases guarded c e.1 <;> rfl

theorem before_append (es fs : List (ResourceIds.Key × Held)) : before c (es ++ fs) =
    if es.any (fun e => guarded c e.1) then before c es else es ++ before c fs := by
  induction es with
  | nil => rfl
  | cons e es ih =>
    rw [List.cons_append,before_cons,before_cons,List.any_cons,ih]
    cases guarded c e.1 with
    | true => rfl
    | false =>
      simp only [Bool.false_eq_true,if_false,Bool.false_or]
      split <;> rfl

theorem before_eq {es : List (ResourceIds.Key × Held)} (h : es.any (fun e => guarded c e.1) = false) :
    before c es = es := by
  refine List.takeWhile_eq_self_iff.mpr fun e he => ?_
  rw [Bool.eq_false_iff.mpr (List.any_eq_false.mp h e he)]
  rfl

/-- The inner loop: with no deletion that goes through before its end nothing changes, and otherwise a number goes. -/
theorem heldLoop {obj : Obj} {w : World} {no : Str} {es : List (ResourceIds.Key × Held)} {s : Progress}
    (h : Untouched obj w s) (hs : s.stopped = false) (hne : es ≠ [] → (slotOf obj no).entries ≠ []) :
    ((∀ e ∈ before c es, goes env c w e = false) →
      Untouched obj w (es.foldl (heldTurn pcre env c no) s) ∧
      (es.foldl (heldTurn pcre env c no) s).stopped = es.any fun e => guarded c e.1) ∧
    ((∃ e ∈ before c es, goes env c w e = true) →
      size (es.foldl (heldTurn pcre env c no) s).obj < size obj) := by
  induction es generalizing s with
  | nil => exact ⟨fun _ => ⟨h,hs⟩,by simp⟩
  | cons e es ih =>
    rw [List.foldl_cons,before_cons,List.any_cons]
    cases hg : guarded c e.1 with
    | true =>
      have ht : heldTurn pcre env c no s e = { s with stopped := true } := by
        rw [heldTurn,hs,if_neg (by decide),if_pos hg]
      rw [ht,foldl_held_stopped pcre env c no es rfl]
      exact ⟨fun _ => ⟨⟨h.obj,h.reg,h.fresh⟩,rfl⟩,by simp⟩
    | false =>
      simp only [Bool.false_eq_true,if_false,List.mem_cons,forall_eq_or_imp,exists_eq_or_imp,Bool.false_or]
      have hgo : (deleteHeld pcre env c e s.world).1 = .ok ↔ goes env c w e = true := by
        rw [deleteHeld_ok pcre env c h.fresh,goes_congr env c h.reg]
      have ht : heldTurn pcre env c no s e =
          ⟨if (deleteHeld pcre env c e s.world).1 = .ok then unsetNo s.obj no else s.obj,
            (deleteHeld pcre env c e s.world).2,false⟩ := by
        rw [heldTurn,hs,if_neg (by decide),hg,if_neg (by decide)]
      by_cases ho : goes env c w e = true
      · refine ⟨fun hn => absurd hn.1 (by simp [ho]),fun _ => ?_⟩
        refine (foldl_held_size pcre env c no es _).trans_lt ?_
        rw [ht,if_pos (hgo.mpr ho),h.obj]
        exact size_unsetNo_lt (hne (by simp))
      · have hr : (deleteHeld pcre env c e s.world).1 ≠ .ok := fun hk => ho (hgo.mp hk)
        rw [if_neg hr] at ht
        rw [Bool.not_eq_true] at ho
        rw [ht]
        have hu : Untouched obj w ⟨s.obj,(deleteHeld pcre env c e s.world).2,false⟩ :=
          ⟨h.obj,(deleteHeld_refused pcre env c hr).trans h.reg,deleteHeld_fresh pcre env c h.fresh e⟩
        have hi := ih hu rfl fun _ => hne (by simp)
        refine ⟨fun hn => hi.1 hn.2,?_⟩
        rintro (hk | hk)
        · simp [ho] at hk
        · exact hi.2 hk

theorem numberLoop {obj : Obj} {w : World} {nos : List Str} {s : Progress} (h : Untouched obj w s) (hs : s.stopped = false) :
    ((∀ e ∈ before c (nos.flatMap fun no => (slotOf obj no).entries), goes env c w e = false) →
      Untouched obj w (nos.foldl (numberTurn pcre env c) s) ∧
      (nos.foldl (numberTurn pcre env c) s).stopped =
        (nos.flatMap fun no => (slotOf obj no).entries).any fun e => guarded c e.1) ∧
    ((∃ e ∈ before c (nos.flatMap fun no => (slotOf obj no).entries), goes env c w e = true) →
      size (nos.foldl (numberTurn pcre env c) s).obj < size obj) := by
  induction nos generalizing s with
  | nil => exact ⟨fun _ => ⟨h,hs⟩,by simp⟩
  | cons no nos ih =>
    rw [List.foldl_cons,List.flatMap_cons,before_append,List.any_append]
    have hheld := @heldLoop pcre env c obj w no (slotOf obj no).entries s h hs fun h => h
    have hturn : numberTurn pcre env c s no = (slotOf obj no).entries.foldl (heldTurn pcre env c no) s := by
      rw [numberTurn,h.obj]
    rw [hturn]
    cases hany : (slotOf obj no).entries.any (fun e => guarded c e.1) with
    | true =>
      simp only [if_true,Bool.true_or]
      refine ⟨fun hn => ?_,fun hk => (foldl_number_size pcre env c nos _).trans_lt (hheld.2 hk)⟩
      obtain ⟨hu,hst⟩ := hheld.1 hn
      rw [hany] at hst
      rw [foldl_number_stopped pcre env c nos hst]
      exact ⟨hu,hst⟩
    | false =>
      simp only [Bool.false_eq_true,if_false,Bool.false_or,List.mem_append]
      rw [before_eq c hany] at hheld
      constructor
      · intro hn
        obtain ⟨hu,hst⟩ := hheld.1 fun e he => hn e (Or.inl he)
        rw [hany] at hst
        exact (ih hu hst).1 fun e he => hn e (Or.inr he)
      · rintro ⟨e,he | he,hk⟩
        · exact (foldl_number_size pcre env c nos _).trans_lt (hheld.2 ⟨e,he,hk⟩)
        · by_cases hn : ∀ e ∈ (slotOf obj no).entries, goes env c w e = false
          · obtain ⟨hu,hst⟩ := hheld.1 hn
            rw [hany] at hst
            exact (ih hu hst).2 ⟨e,he,hk⟩
          · push Not at hn
            obtain ⟨f,hf,hg⟩ := hn
            exact (foldl_number_size pcre env c nos _).trans_lt (hheld.2 ⟨f,hf,by simpa using hg⟩)

/-- The command is all or nothing exactly when a guard comes first. -/
theorem allOrNothing_iff {w : World} (h : Fresh w) (obj : Obj) (num : Str) (yes : Bool) :
    AllOrNothing pcre env c obj num yes w ↔ GuardFirst env c obj num w := by
  unfold AllOrNothing GuardFirst
  refine imp_congr_right fun hp => ?_
  have hobj : obj.isEmpty = false := by
    rw [Bool.eq_false_iff]
    intro he
    rw [OrdMap.isEmpty_iff.mp he] at hp
    obtain ⟨e,hm,-⟩ := hp
    obtain ⟨no,-,hm⟩ := List.mem_flatMap.mp hm
    exact absurd hm List.not_mem_nil
  have hstar : (num = ("*" : Str) && yes) = false := by
    rw [Bool.and_eq_false_iff]
    left
    refine decide_eq_false ?_
    rintro rfl
    obtain ⟨e,hm,-⟩ := hp
    exact absurd hm (by rw [listedHeld,show cliMultinum ("*" : Str) = [] by decide]; simp)
  have hl := @numberLoop pcre env c obj w (cliMultinum num) ⟨obj,w,false⟩ ⟨rfl,rfl,h⟩ rfl
  rw [definitionsDeleteCommand,hobj,if_neg (by decide),hstar,if_neg (by decide)]
  by_cases hall : ∀ e ∈ before c (listedHeld obj num), goes env c w e = false
  · obtain ⟨hu,hst⟩ := hl.1 hall
    dsimp only
    rw [hst]
    simp only [hu.obj,hu.reg,and_true,Bool.and_eq_false_iff,Bool.not_eq_false']
    exact ⟨fun hr => ⟨hr.imp_left List.any_eq_true.mp,hall⟩,fun hr => hr.1.imp_left List.any_eq_true.mpr⟩
  · refine ⟨fun hr => ?_,fun hr => absurd hr.2 hall⟩
    push Not at hall
    obtain ⟨e,he,hg⟩ := hall
    have hlt := hl.2 ⟨e,he,by simpa using hg⟩
    have hsame : ((cliMultinum num).foldl (numberTurn pcre env c) ⟨obj,w,false⟩).obj = obj := hr.2.1
    rw [hsame] at hlt
    exact absurd hlt (lt_irrefl _)

instance (obj : Obj) (num : Str) (w : World) : Decidable (GuardFirst env c obj num w) :=
  inferInstanceAs (Decidable ((∃ e ∈ listedHeld obj num, isProtected c e = true) →
    ((∃ e ∈ listedHeld obj num, guarded c e.1 = true) ∨ _) ∧ ∀ e ∈ before c (listedHeld obj num), _))

/-- A host of the office, and the network that is always there. -/
def definedWorld : World := World.ofFiles [
  ("definitions","network_builtin.cfg",("ID=any\nNAME=Any\nADDR=0.0.0.0/0\n" : Str)),
  ("definitions","network_host.cfg",("ID=web\nNAME=web\nADDR=192.168.1.5\n" : Str))]

def shownObj : Obj := ((ResourceIds.networksPrint .plain noonEnv [] [] definedWorld).1.map ResourceIds.Sheet.obj).getD ∅

theorem definedWorld_fresh : Fresh definedWorld := fun _ _ _ => Or.inl rfl

/-- The built-in object is typed in first. -/
theorem allOrNothing_builtin : AllOrNothing .plain noonEnv .networks shownObj "1,2" false definedWorld :=
  (allOrNothing_iff .plain noonEnv .networks definedWorld_fresh shownObj "1,2" false).mpr (by decide)

/-- The host is typed in first, and is deleted. -/
theorem host_deleted : ¬∀ (pcre : Pcre) (env : Env) (c : Section) (obj : Obj) (num : Str) (yes : Bool) (w : World),
    Fresh w → AllOrNothing pcre env c obj num yes w := by
  intro h
  have hd : (∃ e ∈ listedHeld shownObj "2,1", isProtected .networks e = true) ∧
      (definitionsDeleteCommand .plain noonEnv .networks shownObj "2,1" false definedWorld).2.1 ≠ shownObj := by
    decide
  exact hd.2 (h .plain noonEnv .networks shownObj "2,1" false definedWorld definedWorld_fresh hd.1).2.1

end DeleteLists
end Mybox
