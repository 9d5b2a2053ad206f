import Mybox.DefinitionHandlers

/-! The print of the networks and the resource IDs it leaves behind. The print numbers its rows and keeps, in an
array of its own, the type and the registry ID each number stands for; the commands that take a resource ID read
that array and look the object up again. -/
namespace Mybox
namespace ResourceIds
open Php RegistryFormat Registry References Definitions

variable (pcre : Pcre) (env : Env)

/-- A key of an entry of `$_obj`: a type, or a number. -/
inductive Key
  | num (n : ℕ)
  | text (s : Str)
  deriving DecidableEq

/-- What stands under such a key: a registry ID, or types with registry IDs. -/
inductive Held
  | id (s : Str)
  | types (m : OrdMap Str Str)
  deriving DecidableEq

abbrev Slot := OrdMap Key Held

abbrev Obj := OrdMap ℕ Slot

/-- The key `$_obj[]` puts the next entry under. -/
def nextKey (obj : Obj) : ℕ := obj.keys.foldr (fun k n => max (k + 1) n) 0

/-- `$_obj[$_cnt][$_type]=$_id` -/
def saveId (cnt : ℕ) (type id : Str) (obj : Obj) : Obj :=
  obj.set cnt ((obj.getD cnt ∅).set (.text type) (.id id))

/-- `$_obj[][$_cnt][$_type]=$_id` -/
def pushId (cnt : ℕ) (type id : Str) (obj : Obj) : Obj :=
  obj.set (nextKey obj) ((∅ : Slot).set (.num cnt) (.types (OrdMap.empty.set type id)))

inductive Cell
  | text (s : Str)
  | list (ss : List Str)
  deriving DecidableEq

/-- One row of `$_DTX`: what stands under ID, TYPE and NAME, and the columns behind them. -/
structure Row where
  cnt : ℕ
  type : Str
  name : Str
  more : List (Str × Cell)
  deriving DecidableEq

/-- What becomes of an object without a NAME. -/
inductive Nameless
  | delete
  | skip
  | keep
  deriving DecidableEq

/-- The part of the loop that is about one type. -/
structure Block where
  nameless : Nameless
  /-- `if(_NULL($_set_a['DNAME'])) $_set_a['DNAME']="any";` -/
  dname : Bool
  columns : Params → List (Str × Cell)
  save : ℕ → Str → Str → Obj → Obj

def listCell (s : Str) : Cell := if null s then .text s else .list (split ',' s)

/-- The addresses of a host name, or a note that there are none. -/
def dnsCell (s : Str) : Cell :=
  if null s then .text s else if looseEq s unresolved then .text ("[unresolved]" : Str) else .list (split ',' s)

def field (label key : Str) (a : Params) : Str × Cell := (label,.text (a.val key))

def builtin : Block := ⟨.delete,false,fun a => [field "ADDRESS" "ADDR" a,field "DESCRIPTION" "NOTE" a],saveId⟩

def interface : Block := ⟨.skip,false,fun a => [field "ADDRESS" "ADDR" a,field "DESCRIPTION" "NOTE" a],pushId⟩

def host : Block := ⟨.keep,true,fun a => [("ADDRESS",listCell (a.val "ADDR")),field "INTERFACE" "DNAME" a,
  field "DESCRIPTION" "NOTE" a],saveId⟩

def dnshost : Block := ⟨.delete,true,fun a => [field "HOSTNAME" "HOSTNAME" a,("ADDRESS",dnsCell (a.val "ADDR")),
  field "INTERFACE" "DNAME" a,field "DESCRIPTION" "NOTE" a],saveId⟩

def hostrange : Block := ⟨.delete,true,fun a => [field "ADDRESS" "ADDR" a,field "RANGE ADDRESS" "ADDR" a,
  field "INTERFACE" "DNAME" a,field "DESCRIPTION" "NOTE" a],saveId⟩

def hostmac : Block := ⟨.delete,true,fun a => [field "MAC ADDRESS" "ADDR" a,field "INTERFACE" "DNAME" a,
  field "DESCRIPTION" "NOTE" a],saveId⟩

def network : Block := ⟨.delete,true,fun a => [field "ADDRESS" "ADDR" a,
  ("NETMASK",.text (a.val "PREF" ++ (" (" : Str) ++ a.val "MASK" ++ (")" : Str))),field "INTERFACE" "DNAME" a,
  field "DESCRIPTION" "NOTE" a],saveId⟩

def group : Block := ⟨.delete,false,fun a => [("MEMBERS",listCell (a.val "ADDR")),
  field "DESCRIPTION" "NOTE" a],saveId⟩

structure Flags where
  builtin : Bool
  interface : Bool
  host : Bool
  dnshost : Bool
  hostrange : Bool
  hostmac : Bool
  network : Bool
  group : Bool

def noFlags : Flags := ⟨false,false,false,false,false,false,false,false⟩

def flagsOf (opt : Str) : Flags :=
  if looseEq opt "host" then { noFlags with host := true }
  else if looseEq opt "dnshost" then { noFlags with dnshost := true }
  else if looseEq opt "hostrange" then { noFlags with hostrange := true }
  else if looseEq opt "hostmac" then { noFlags with hostmac := true }
  else if looseEq opt "network" then { noFlags with network := true }
  else if looseEq opt "group" then { noFlags with group := true }
  else if looseEq opt "builtin" then { noFlags with builtin := true }
  else if looseEq opt "interface" then { noFlags with interface := true }
  else ⟨true,true,true,true,true,true,true,true⟩

def stripos (hay needle : Str) : Bool := decide (lower needle <:+: lower hay)

def arrayFind (find : Str) (a : Params) : Bool := a.entries.any fun e => stripos e.2 find

def isInterface (type : Str) : Bool :=
  stripos type "interface addresses" || stripos type "interface network" || stripos type "interface broadcast"

/-- The part of the loop a type is handled in; no type is handled in two. -/
def blockOf (f : Flags) (type : Str) : Option Block :=
  if looseEq type "builtin" then if f.builtin then some builtin else none
  else if isInterface type then if f.interface then some interface else none
  else if looseEq type "host" then if f.host then some host else none
  else if looseEq type "dnshost" then if f.dnshost then some dnshost else none
  else if looseEq type "hostrange" then if f.hostrange then some hostrange else none
  else if looseEq type "hostmac" then if f.hostmac then some hostmac else none
  else if looseEq type "network" then if f.network then some network else none
  else if looseEq type "group" then if f.group then some group else none
  else none

/-- The counter, the array of resource IDs and the rows. -/
structure Sheet where
  cnt : ℕ
  obj : Obj
  dtx : List Row
  deriving DecidableEq

def Sheet.blank : Sheet := ⟨1,∅,[]⟩

def Sheet.put (s : Sheet) (b : Block) (type id : Str) (a : Params) : Sheet where
  cnt := s.cnt + 1
  obj := b.save s.cnt type id s.obj
  dtx := s.dtx ++ [⟨s.cnt,type,a.val "NAME",b.columns a⟩]

/-- `$_set_a` as it is searched and shown. -/
def Block.data (b : Block) (a : Params) : Params :=
  if b.dname && null (a.val "DNAME") then a.set "DNAME" "any" else a

def printObject (b : Block) (type find : Str) (s : Sheet × World) (e : Str × Params) : Sheet × World :=
  if b.nameless ≠ .keep && null (e.2.val "NAME") then
    (s.1,if b.nameless = .delete then (definitionsDelete pcre env .networks type e.1 s.2).2 else s.2)
  else if !null find && !arrayFind find ((b.data e.2).set "TYPE" type) then s
  else (s.1.put b type e.1 (b.data e.2),s.2)

def printType (f : Flags) (find : Str) (s : Sheet × World) (t : Str × Token) : Sheet × World :=
  match blockOf f t.1 with
  | none => s
  | some b => t.2.entries.foldl (printObject pcre env b t.1 find) s

/-- `___CLI_DEFINITIONS_NETWORKS_PRINT`: the rows on the screen and the resource IDs in the file, when there are
any, and the registry after it. -/
def networksPrint (opt find : Str) (w : World) : Option Sheet × World :=
  let g := definitionsGet pcre env .networks (unlinkPrint .networks w)
  let r := g.1.entries.foldl (printType pcre env (flagsOf opt) find) (Sheet.blank,g.2)
  if r.1.obj.isEmpty || !env.cache then (none,unlinkPrint .networks r.2) else (some r.1,r.2)

/-- The object under an ID, of any type when it is null. -/
def findId (k : Kind) (m : Objects) (id type : Str) : Option Params :=
  m.entries.findSome? fun ty =>
    if !null type && !looseEq ty.1 type then none
    else if (ty.2.getD id ∅).isEmpty then none
    else some (((ty.2.getD id ∅).set "__DATA_SECTION" k.name).set "__DATA_TYPE" ty.1)

def definitionsGetByid (k : Kind) (id : Str) (itoken : Params) (type : Str) (w : World) : (Bool × Params) × World :=
  let d := definitionsGet pcre env k w
  match findId k d.1 id type with
  | some o => ((true,o),d.2)
  | none => ((false,itoken),d.2)

/-- `_CLI_MULTINUM`: `preg_split` never gives nothing. -/
def cliMultinum (num : Str) : List Str := (split ',' num).filter fun n => !null n && isNum n

/-- `$_obj[$_no]`; a key that is not written the way numbers are is none of them. -/
def slotOf (obj : Obj) (no : Str) : Slot :=
  (obj.entries.findSome? fun e => if decimal e.1 = no then some e.2 else none).getD ∅

def Key.name : Key → Str
  | num n => decimal n
  | text s => s

def addName (k : Kind) (type : Str) (r : Str × World) (ttype id : Str) : Str × World :=
  if !null type && !looseEq ttype type then r
  else
    let o := definitionsGetByid pcre env k id ∅ ttype r.2
    (if null (o.1.2.val "NAME") then r.1 else r.1 ++ (o.1.2.val "NAME" ++ [',']),o.2)

def addHeld (k : Kind) (type : Str) (r : Str × World) (e : Key × Held) : Str × World :=
  match e.2 with
  | .types m => m.entries.foldl (fun r t => addName pcre env k type r t.1 t.2) r
  | .id id => addName pcre env k type r e.1.name id

def objGetName (obj : Obj) (k : Kind) (data type : Str) (w : World) : Str × World :=
  let r := (cliMultinum data).foldl (fun r no => (slotOf obj no).entries.foldl (addHeld pcre env k type) r) ([],w)
  (trimWith (",") r.1,r.2)

/-- An object on display, with the part of the loop that shows it. -/
structure Item where
  block : Block
  type : Str
  id : Str
  data : Params

def Block.shown (b : Block) (find type : Str) (a : Params) : Bool :=
  !(b.nameless ≠ .keep && null (a.val "NAME")) && (null find || arrayFind find ((b.data a).set "TYPE" type))

def listedOf (f : Flags) (find : Str) (t : Str × Token) : List Item :=
  match blockOf f t.1 with
  | none => []
  | some b => (t.2.entries.filter fun e => b.shown find t.1 e.2).map fun e => ⟨b,t.1,e.1,b.data e.2⟩

/-- The objects the print shows, in the order of their rows. -/
def listed (opt find : Str) (m : Objects) : List Item := m.entries.flatMap (listedOf (flagsOf opt) find)

def Item.name (x : Item) : Str := x.data.val "NAME"

def Item.row (x : Item) (cnt : ℕ) : Row := ⟨cnt,x.type,x.name,x.block.columns x.data⟩

def Item.slot (x : Item) : Slot := (∅ : Slot).set (.text x.type) (.id x.id)

def fill (s : Sheet) (xs : List Item) : Sheet := xs.foldl (fun s x => s.put x.block x.type x.id x.data) s

def rowsFrom : ℕ → List Item → List Row
  | _, [] => []
  | n, x::xs => x.row n :: rowsFrom (n + 1) xs

theorem printObject_fst (b : Block) (type find : Str) (s : Sheet × World) (e : Str × Params) :
    (printObject pcre env b type find s e).1 =
      if b.shown find type e.2 then s.1.put b type e.1 (b.data e.2) else s.1 := by
  unfold printObject Block.shown
  by_cases hn : (b.nameless ≠ .keep && null (e.2.val "NAME")) = true
  · rw [if_pos hn,hn]
    rfl
  · rw [if_neg hn]
    rw [Bool.not_eq_true] at hn
    rw [hn]
    cases null find <;> cases arrayFind find ((b.data e.2).set "TYPE" type) <;> rfl

theorem foldl_printObject (b : Block) (type find : Str) (es : List (Str × Params)) (s : Sheet × World) :
    (es.foldl (printObject pcre env b type find) s).1 =
      fill s.1 ((es.filter fun e => b.shown find type e.2).map fun e => ⟨b,type,e.1,b.data e.2⟩) := by
  induction es generalizing s with
  | nil => rfl
  | cons e es ih =>
    rw [List.foldl_cons,ih,printObject_fst,List.filter_cons]
    split
    · rfl
    · rfl

theorem printType_fst (f : Flags) (find : Str) (s : Sheet × World) (t : Str × Token) :
    (printType pcre env f find s t).1 = fill s.1 (listedOf f find t) := by
  unfold printType listedOf
  cases blockOf f t.1 with
  | none => rfl
  | some b => exact foldl_printObject pcre env b t.1 find t.2.entries s

theorem foldl_printType (f : Flags) (find : Str) (ts : List (Str × Token)) (s : Sheet × World) :
    (ts.foldl (printType pcre env f find) s).1 = fill s.1 (ts.flatMap (listedOf f find)) := by
  induction ts generalizing s with
  | nil => rfl
  | cons t ts ih =>
    rw [List.foldl_cons,ih,printType_fst,List.flatMap_cons,fill,fill,fill,List.foldl_append]

theorem fill_append (s : Sheet) (xs ys : List Item) : fill s (xs ++ ys) = fill (fill s xs) ys := List.foldl_append

theorem fill_cnt (s : Sheet) (xs : List Item) : (fill s xs).cnt = s.cnt + xs.length := by
  induction xs generalizing s with
  | nil => rfl
  | cons x xs ih =>
    have h := ih (s.put x.block x.type x.id x.data)
    rw [List.length_cons]
    change (fill (s.put x.block x.type x.id x.data) xs).cnt = _
    rw [h]
    change s.cnt + 1 + xs.length = _
    omega

theorem fill_dtx (s : Sheet) (xs : List Item) : (fill s xs).dtx = s.dtx ++ rowsFrom s.cnt xs := by
  induction xs generalizing s with
  | nil => simp [fill,rowsFrom]
  | cons x xs ih =>
    have h := ih (s.put x.block x.type x.id x.data)
    change (fill (s.put x.block x.type x.id x.data) xs).dtx = _
    rw [h]
    simp [Sheet.put,rowsFrom,Item.row,Item.name]

theorem mem_rowsFrom {n : ℕ} {xs : List Item} {r : Row} :
    r ∈ rowsFrom n xs ↔ ∃ i, ∃ x : Item, xs[i]? = some x ∧ r = x.row (n + i) := by
  induction xs generalizing n with
  | nil => simp [rowsFrom]
  | cons x xs ih =>
    rw [rowsFrom,List.mem_cons,ih]
    constructor
    · rintro (rfl | ⟨i,y,hi,rfl⟩)
      · exact ⟨0,x,rfl,rfl⟩
      · refine ⟨i + 1,y,hi,?_⟩
        congr 1
        omega
    · rintro ⟨i,y,hi,rfl⟩
      cases i with
      | zero =>
        obtain rfl := Option.some.inj hi
        exact Or.inl rfl
      | succ i =>
        refine Or.inr ⟨i,y,hi,?_⟩
        congr 1
        omega

theorem foldr_max_range (n m : ℕ) : (List.range n).foldr (fun k n => max (k + 1) n) m = max n m := by
  induction n generalizing m with
  | zero => simp
  | succ n ih =>
    rw [List.range_succ,List.foldr_append,ih]
    simp only [List.foldr_cons,List.foldr_nil]
    omega

/-- Rows of the interfaces take the keys from zero on. -/
theorem fill_pushed {s : Sheet} {xs : List Item} (hx : ∀ x ∈ xs, x.block.save = pushId)
    (hk : s.obj.keys = List.range s.obj.keys.length) :
    (fill s xs).obj.keys = List.range (s.obj.keys.length + xs.length) := by
  induction xs generalizing s with
  | nil => exact hk
  | cons x xs ih =>
    have hn : nextKey s.obj = s.obj.keys.length := by
      rw [nextKey,hk,foldr_max_range,List.length_range]
      omega
    have hs : (s.put x.block x.type x.id x.data).obj.keys = List.range (s.obj.keys.length + 1) := by
      have hf : nextKey s.obj ∉ s.obj.keys := by
        rw [hn,hk,List.length_range,List.mem_range]
        omega
      rw [Sheet.put,hx x (by simp),pushId,OrdMap.keys_set,if_neg hf,hn,List.range_succ,← hk]
    have h := ih (s := s.put x.block x.type x.id x.data) (fun y hy => hx y (by simp [hy])) (by
      rw [hs,List.length_range])
    rw [hs,List.length_range] at h
    rw [List.length_cons]
    change (fill (s.put x.block x.type x.id x.data) xs).obj.keys = _
    rw [h]
    congr 1
    omega

/-- The other rows take the keys of their numbers. -/
theorem fill_saved {s : Sheet} {xs : List Item} (hx : ∀ x ∈ xs, x.block.save = saveId)
    (hk : ∀ k ∈ s.obj.keys, k < s.cnt) (j : ℕ) :
    (fill s xs).obj.get? j = if j < s.cnt then s.obj.get? j else (xs[j - s.cnt]?).map Item.slot := by
  induction xs generalizing s with
  | nil =>
    split
    · rfl
    · rename_i hj
      exact OrdMap.get?_eq_none.mpr fun h => hj (hk j h)
  | cons x xs ih =>
    have hnone : s.obj.get? s.cnt = none := OrdMap.get?_eq_none.mpr fun h => absurd (hk _ h) (lt_irrefl _)
    have hobj : (s.put x.block x.type x.id x.data).obj = s.obj.set s.cnt x.slot := by
      rw [Sheet.put,hx x (by simp),saveId,OrdMap.getD,hnone]
      rfl
    have hkeys : ∀ k ∈ (s.put x.block x.type x.id x.data).obj.keys, k < s.cnt + 1 := by
      intro k hm
      rw [hobj,OrdMap.mem_keys_set] at hm
      rcases hm with hm | rfl
      · exact (hk k hm).trans (Nat.lt_succ_self _)
      · exact Nat.lt_succ_self _
    have h := ih (s := s.put x.block x.type x.id x.data) (fun y hy => hx y (by simp [hy])) hkeys
    change (fill (s.put x.block x.type x.id x.data) xs).obj.get? j = _
    rw [h,hobj,OrdMap.get?_set]
    change (if j < s.cnt + 1 then _ else (xs[j - (s.cnt + 1)]?).map Item.slot) = _
    rcases Nat.lt_trichotomy j s.cnt with hj | rfl | hj
    · rw [if_pos (by omega),if_neg (by omega),if_pos hj]
    · rw [if_pos (by omega),if_pos rfl,if_neg (lt_irrefl _),Nat.sub_self]
      rfl
    · obtain ⟨d,rfl⟩ : ∃ d, j = s.cnt + 1 + d := ⟨j - (s.cnt + 1),by omega⟩
      rw [if_neg (by omega),if_neg (by omega),Nat.add_sub_cancel_left,
        show s.cnt + 1 + d - s.cnt = d + 1 by omega,List.getElem?_cons_succ]

def interfaceTypeNames : List Str :=
  ["Interface Addresses","Interface Broadcast Addresses","Interface Networks"].map Str.of

def fileTypes : List Str := ["builtin","host","dnshost","hostrange","hostmac","network","group"].map Str.of

theorem fileTypes_text : ∀ ty ∈ fileTypes, numeric ty = none ∧ ty ≠ [] ∧ isInterface ty = false := by decide

theorem looseEq_literal {a b : Str} (h : numeric b = none) (he : looseEq a b = true) : a = b := by
  rwa [looseEq_text h,decide_eq_true_eq] at he

theorem pick {c : Prop} [Decidable c] {p : Bool} {b b' : Block} {rest : Option Block}
    (h : (if c then if p then some b' else none else rest) = some b) : c ∧ b = b' ∨ ¬c ∧ rest = some b := by
  by_cases hc : c
  · rw [if_pos hc] at h
    cases p with
    | false => simp at h
    | true => exact Or.inl ⟨hc,(Option.some.inj h).symm⟩
  · rw [if_neg hc] at h
    exact Or.inr ⟨hc,h⟩

theorem blockOf_cases {f : Flags} {type : Str} {b : Block} (h : blockOf f type = some b) :
    isInterface type = true ∧ b = interface ∨
      isInterface type = false ∧ b.save = saveId ∧ type ∈ fileTypes := by
  have file : ∀ {ty : Str}, ty ∈ fileTypes → looseEq type ty = true → b.save = saveId →
      isInterface type = false ∧ b.save = saveId ∧ type ∈ fileTypes := by
    intro ty ht hl hb
    obtain rfl := looseEq_literal (fileTypes_text ty ht).1 hl
    exact ⟨(fileTypes_text type ht).2.2,hb,ht⟩
  rcases pick h with ⟨hl,rfl⟩ | ⟨-,h⟩
  · exact Or.inr (file (by decide) hl rfl)
  rcases pick h with ⟨hi,rfl⟩ | ⟨-,h⟩
  · exact Or.inl ⟨hi,rfl⟩
  rcases pick h with ⟨hl,rfl⟩ | ⟨-,h⟩
  · exact Or.inr (file (by decide) hl rfl)
  rcases pick h with ⟨hl,rfl⟩ | ⟨-,h⟩
  · exact Or.inr (file (by decide) hl rfl)
  rcases pick h with ⟨hl,rfl⟩ | ⟨-,h⟩
  · exact Or.inr (file (by decide) hl rfl)
  rcases pick h with ⟨hl,rfl⟩ | ⟨-,h⟩
  · exact Or.inr (file (by decide) hl rfl)
  rcases pick h with ⟨hl,rfl⟩ | ⟨-,h⟩
  · exact Or.inr (file (by decide) hl rfl)
  rcases pick h with ⟨hl,rfl⟩ | ⟨-,h⟩
  · exact Or.inr (file (by decide) hl rfl)
  · simp at h

theorem mem_listed {opt find : Str} {m : Objects} {x : Item} : x ∈ listed opt find m ↔
    ∃ ty t e, (ty,t) ∈ m.entries ∧ blockOf (flagsOf opt) ty = some x.block ∧ e ∈ t.entries ∧
      x.block.shown find ty e.2 = true ∧ x = ⟨x.block,ty,e.1,x.block.data e.2⟩ := by
  rw [listed,List.mem_flatMap]
  constructor
  · rintro ⟨⟨ty,t⟩,ht,hx⟩
    unfold listedOf at hx
    cases hb : blockOf (flagsOf opt) ty with
    | none =>
      simp only [hb] at hx
      exact absurd hx (by simp)
    | some b =>
      simp only [hb,List.mem_map,List.mem_filter] at hx
      obtain ⟨e,⟨he,hs⟩,rfl⟩ := hx
      exact ⟨ty,t,e,ht,hb,he,hs,rfl⟩
  · rintro ⟨ty,t,e,ht,hb,he,hs,hx⟩
    refine ⟨(ty,t),ht,?_⟩
    unfold listedOf
    simp only [hb,List.mem_map,List.mem_filter]
    exact ⟨e,⟨he,hs⟩,hx.symm⟩

theorem data_name (b : Block) (a : Params) : (b.data a).val "NAME" = a.val "NAME" := by
  unfold Block.data
  split
  · rw [Params.val,Params.val,OrdMap.getD,OrdMap.getD,OrdMap.get?_set_ne _ _ (by decide)]
  · rfl

theorem listed_name {opt find : Str} {m : Objects} {x : Item} (h : x ∈ listed opt find m)
    (hi : isInterface x.type = true) : x.name ≠ [] := by
  obtain ⟨ty,t,e,-,hb,-,hs,hx⟩ := mem_listed.mp h
  have hty : x.type = ty := by rw [hx]
  rcases blockOf_cases hb with ⟨-,he⟩ | ⟨hn,-⟩
  · intro hnil
    have hname : e.2.val "NAME" = [] := by
      rw [← data_name x.block,← hnil,Item.name]
      exact congrArg (fun y : Item => y.data.val "NAME") hx.symm
    rw [he,Block.shown,hname] at hs
    exact absurd hs (by simp [interface])
  · rw [hty,hn] at hi
    exact absurd hi (by simp)

theorem listed_cases {opt find : Str} {m : Objects} {x : Item} (h : x ∈ listed opt find m) :
    isInterface x.type = true ∧ x.block.save = pushId ∨
      isInterface x.type = false ∧ x.block.save = saveId ∧ x.type ∈ fileTypes := by
  obtain ⟨ty,t,e,-,hb,-,-,hx⟩ := mem_listed.mp h
  have hty : x.type = ty := by rw [hx]
  rw [hty]
  rcases blockOf_cases hb with ⟨hi,he⟩ | h
  · exact Or.inl ⟨hi,by rw [he]; rfl⟩
  · exact Or.inr h

/-- What `_DEFINITIONS_GET` gives: types of files and of interfaces, in order. -/
structure Sorted (m : Objects) : Prop where
  types : ∀ ty ∈ m.keys, (∀ c ∈ ty, regexSpace c = false) ∨ ty ∈ interfaceTypeNames
  order : m.entries.Pairwise fun a b => nameLe a.1 b.1 = true ∧ a.1 ≠ b.1

theorem mem_keys_addToken {key ty : Str} {t : Token} {m : Objects}
    (h : ty ∈ (definitionsGetAddToken key t m).keys) : ty = key ∨ ty ∈ m.keys := by
  unfold definitionsGetAddToken at h
  split at h
  · exact Or.inr h
  · exact ((OrdMap.mem_keys_set _ _).mp h).symm

theorem definitionsGet_sorted (w : World) : Sorted (definitionsGet pcre env .networks w).1 := by
  refine ⟨fun ty hm => ?_,OrdMap.sortKeys_pairwise nameLe_total nameLe_trans _⟩
  obtain ⟨e,he,rfl⟩ := List.mem_map.mp hm
  have hk := List.mem_map_of_mem (f := Prod.fst) ((OrdMap.mem_entries_sortKeys _).mp he)
  change e.1 ∈ OrdMap.keys (interfaceTypes _ _ _) at hk
  rcases mem_keys_addToken hk with he | hk
  · exact Or.inr (by rw [he]; decide)
  rcases mem_keys_addToken hk with he | hk
  · exact Or.inr (by rw [he]; decide)
  rcases mem_keys_addToken hk with he | hk
  · exact Or.inr (by rw [he]; decide)
  · refine Or.inl (List.foldlRecOn (motive := fun r : Objects × World => ∀ ty ∈ r.1.keys, ∀ c ∈ ty, regexSpace c = false)
      _ _ (by simp [OrdMap.keys]) (fun r hr fil _ ty hm => ?_) _ hk)
    cases hty : typeOfFile .networks fil with
    | none =>
      rw [hty] at hm
      exact hr ty hm
    | some ty' =>
      rw [hty] at hm
      rcases mem_keys_addToken hm with rfl | hm
      · exact typeOfFile_black hty
      · exact hr ty hm

theorem toLower_blank {c : Char} (h : c.toLower = ' ') : c = ' ' := by
  unfold Char.toLower at h
  split at h
  · rename_i hc
    have hv : (c.val + ('a'.val - 'A'.val)).toNat = 32 := congrArg Char.toNat h
    have h₁ : 65 ≤ c.val.toNat := hc.1
    have h₂ : c.val.toNat ≤ 90 := hc.2
    have hd : ('a'.val - 'A'.val).toNat = 32 := by decide
    rw [UInt32.toNat_add,hd,Nat.mod_eq_of_lt (by omega)] at hv
    omega
  · exact h

/-- Only the types of the interfaces have a blank in their names. -/
theorem isInterface_name {m : Objects} (h : Sorted m) {ty : Str} (hm : ty ∈ m.keys) (hi : isInterface ty = true) :
    ty ∈ interfaceTypeNames := by
  refine (h.types ty hm).resolve_left fun hb => ?_
  have blank : ∀ needle : Str, ' ' ∈ lower needle → stripos ty needle = false := by
    intro needle hn
    rw [stripos,decide_eq_false_iff_not]
    intro hs
    obtain ⟨c,hc,he⟩ := List.mem_map.mp (hs.subset hn)
    exact absurd (hb c hc) (by rw [toLower_blank he]; decide)
  rw [isInterface,blank _ (by decide),blank _ (by decide),blank _ (by decide)] at hi
  exact absurd hi (by decide)

theorem exists_split {α : Type} {p : α → Prop} {xs : List α} (h : xs.Pairwise fun x y => p y → p x) :
    ∃ ys zs, xs = ys ++ zs ∧ (∀ y ∈ ys, p y) ∧ ∀ z ∈ zs, ¬p z := by
  induction xs with
  | nil => exact ⟨[],[],rfl,by simp,by simp⟩
  | cons x xs ih =>
    obtain ⟨hx,ht⟩ := List.pairwise_cons.mp h
    obtain ⟨ys,zs,rfl,hy,hz⟩ := ih ht
    by_cases hp : p x
    · exact ⟨x::ys,zs,rfl,by simpa [hp] using hy,hz⟩
    · have hn : ∀ y ∈ ys ++ zs, ¬p y := fun y hm hy => hp (hx y hm hy)
      refine ⟨[],x::(ys ++ zs),rfl,by simp,?_⟩
      simpa [hp] using hn

/-- The rows of the interfaces come before all the others. -/
theorem listed_split (opt find : Str) {m : Objects} (h : Sorted m) :
    ∃ ys zs, listed opt find m = ys ++ zs ∧ (∀ y ∈ ys, isInterface y.type = true ∧ y.block.save = pushId) ∧
      ∀ z ∈ zs, isInterface z.type = false ∧ z.block.save = saveId ∧ z.type ∈ fileTypes := by
  have type : ∀ {t : Str × Token} {x : Item}, x ∈ listedOf (flagsOf opt) find t → x.type = t.1 := by
    intro t x hx
    unfold listedOf at hx
    split at hx
    · simp at hx
    · obtain ⟨e,-,rfl⟩ := List.mem_map.mp hx
      rfl
  have hp : (listed opt find m).Pairwise fun x y => isInterface y.type = true → isInterface x.type = true := by
    rw [listed,List.pairwise_flatMap]
    refine ⟨fun t _ => ?_,?_⟩
    · refine List.pairwise_of_forall_mem_list fun x hx y hy hi => ?_
      rwa [type hx,← type hy]
    · refine (List.Pairwise.and_mem.mp h.order).imp fun {s t} hst x hx y hy hi => ?_
      obtain ⟨hs,ht,hle,hne⟩ := hst
      have hxl : x ∈ listed opt find m := List.mem_flatMap.mpr ⟨s,hs,hx⟩
      rcases listed_cases hxl with hc | ⟨-,-,hf⟩
      · exact hc.1
      rw [type hy] at hi
      rw [type hx] at hf
      have hn := isInterface_name h (List.mem_map_of_mem (f := Prod.fst) ht) hi
      have hlt : ∀ a ∈ interfaceTypeNames, ∀ b ∈ fileTypes, nameLe a b = true := by decide
      exact absurd (nameLe_antisymm hle (hlt _ hn _ hf)) hne
  obtain ⟨ys,zs,he,hy,hz⟩ := exists_split hp
  have mem : ∀ x, x ∈ ys ∨ x ∈ zs → x ∈ listed opt find m := fun x hx => by rw [he]; simpa using hx
  refine ⟨ys,zs,he,fun y hm => ?_,fun z hm => ?_⟩
  · exact (listed_cases (mem y (Or.inl hm))).resolve_right fun hc => absurd (hy y hm) (by simp [hc.1])
  · exact (listed_cases (mem z (Or.inr hm))).resolve_left fun hc => hz z hm hc.1

/-- The NAME the registry has for an object when it is asked. -/
def nameNow (type id : Str) (w : World) : Str :=
  (((definitionsGet pcre env .networks w).1.getD type ∅).getD id ∅).val "NAME"

theorem findId_name (k : Kind) (m : Objects) (id : Str) {type : Str} (hn : numeric type = none) (ht : type ≠ []) :
    ((findId k m id type).getD ∅).val "NAME" = ((m.getD type ∅).getD id ∅).val "NAME" := by
  have hm : m.getD type ∅ = (m.get? type).getD ∅ := rfl
  unfold findId
  rw [OrdMap.findSome?_entries m (k := type),hm]
  · cases m.get? type with
    | none => rfl
    | some t =>
      simp only [Option.bind_some,Option.getD_some,looseEq_self,Bool.not_true,Bool.and_false,
        Bool.false_eq_true,if_false]
      split
      · rename_i he
        rw [OrdMap.isEmpty_iff.mp he]
        rfl
      · simp only [Option.getD_some,Params.val,OrdMap.getD]
        rw [OrdMap.get?_set_ne _ _ (by decide),OrdMap.get?_set_ne _ _ (by decide)]
  · intro e he
    have hl : looseEq e.1 type = false := by
      rw [looseEq_text hn]
      exact decide_eq_false he
    rw [null_false_iff.mpr ht,hl]
    rfl

theorem definitionsGetByid_object (k : Kind) (id type : Str) (w : World) :
    (definitionsGetByid pcre env k id ∅ type w).1.2 = (findId k (definitionsGet pcre env k w).1 id type).getD ∅ := by
  unfold definitionsGetByid
  dsimp only
  generalize findId k (definitionsGet pcre env k w).1 id type = r
  cases r with
  | none => rfl
  | some o => rfl

theorem addName_fst {type ttype : Str} (id : Str) (w : World) (h : type = [] ∨ looseEq ttype type = true)
    (hn : numeric ttype = none) (ht : ttype ≠ []) : (addName pcre env .networks type ([],w) ttype id).1 =
      if nameNow pcre env ttype id w = [] then [] else nameNow pcre env ttype id w ++ [','] := by
  have hs : (!null type && !looseEq ttype type) = false := by
    rcases h with rfl | h
    · rfl
    · rw [h,Bool.not_true,Bool.and_false]
  have ho : (definitionsGetByid pcre env .networks id ∅ ttype w).1.2.val "NAME" = nameNow pcre env ttype id w := by
    rw [nameNow,← findId_name .networks _ id hn ht,definitionsGetByid_object]
  unfold addName
  rw [hs]
  simp only [Bool.false_eq_true,if_false,ho,null_iff,List.nil_append]

theorem cliMultinum_decimal (n : ℕ) : cliMultinum (decimal n) = [decimal n] := by
  have hne := decimal_ne n
  have hc : ',' ∉ decimal n := fun hm => absurd (digit_decimal n _ hm) (by decide)
  rw [cliMultinum,split,List.splitOn_eq_singleton hc]
  have hd : (decimal n).all digit = true := List.all_eq_true.mpr (digit_decimal n)
  simp [isNum,hne,hd]

theorem slotOf_decimal (obj : Obj) (n : ℕ) : slotOf obj (decimal n) = obj.getD n ∅ := by
  have hf : ∀ e : ℕ × Slot, e.1 ≠ n → (if decimal e.1 = decimal n then some e.2 else none) = none :=
    fun e he => if_neg fun h => he (decimal_injective h)
  rw [slotOf,OrdMap.findSome?_entries obj hf,OrdMap.getD]
  simp

theorem objGetName_none {obj : Obj} {n : ℕ} (h : obj.get? n = none) (k : Kind) (type : Str) (w : World) :
    (objGetName pcre env obj k (decimal n) type w).1 = [] := by
  unfold objGetName
  rw [cliMultinum_decimal,List.foldl_cons,List.foldl_nil,slotOf_decimal,OrdMap.getD,h]
  rfl

/-- The name of the object kept under a number, without the commas at its ends. -/
theorem objGetName_slot {obj : Obj} {n : ℕ} {x : Item} (h : obj.get? n = some x.slot) {type : Str}
    (ht : type = [] ∨ looseEq x.type type = true) (hx : x.type ∈ fileTypes) (w : World) :
    (objGetName pcre env obj .networks (decimal n) type w).1 = trimWith (",") (nameNow pcre env x.type x.id w) := by
  obtain ⟨hn,hne,-⟩ := fileTypes_text x.type hx
  have hs : x.slot.entries = [(.text x.type,.id x.id)] := rfl
  unfold objGetName
  rw [cliMultinum_decimal,List.foldl_cons,List.foldl_nil,slotOf_decimal,OrdMap.getD,h,Option.getD_some,hs,
    List.foldl_cons,List.foldl_nil]
  change trimWith (",") (addName pcre env .networks type ([],w) x.type x.id).1 = _
  rw [addName_fst pcre env x.id w ht hn hne]
  split
  · rename_i hnil
    rw [hnil]
  · exact LineText.strip_concat_blank _ (by decide) _

/-- Every number on the screen names the object in its row, whichever of its types is asked for. -/
def Answers (s : Sheet) (w : World) : Prop := ∀ r ∈ s.dtx, ∀ type, type = [] ∨ looseEq r.type type = true →
  (objGetName pcre env s.obj .networks (decimal r.cnt) type w).1 = r.name

theorem answers_fill {ys zs : List Item} (hy : ∀ y ∈ ys, y.name ≠ [] ∧ y.block.save = pushId)
    (hz : ∀ z ∈ zs, z.block.save = saveId ∧ z.type ∈ fileTypes) (w : World) :
    Answers pcre env (fill Sheet.blank (ys ++ zs)) w ↔
      ys = [] ∧ ∀ z ∈ zs, trimWith (",") (nameNow pcre env z.type z.id w) = z.name := by
  have hk : (fill Sheet.blank ys).obj.keys = List.range ys.length := by
    have h := fill_pushed (s := Sheet.blank) (fun y hm => (hy y hm).2) rfl
    simpa [Sheet.blank,OrdMap.keys] using h
  have hc : (fill Sheet.blank ys).cnt = 1 + ys.length := fill_cnt _ _
  have hg := fill_saved (s := fill Sheet.blank ys) (fun z hm => (hz z hm).1) fun k hm => by
    rw [hk,List.mem_range] at hm
    omega
  rw [hc] at hg
  have hr : ∀ {i : ℕ} {x : Item}, (ys ++ zs)[i]? = some x →
      x.row (1 + i) ∈ (fill Sheet.blank (ys ++ zs)).dtx := fun {i} {x} hi => by
    rw [fill_dtx]
    exact List.mem_append_right _ (mem_rowsFrom.mpr ⟨i,x,hi,rfl⟩)
  constructor
  · intro h
    have hnil : ys = [] := by
      by_contra hne
      have hl : 0 < ys.length := List.length_pos_iff.mpr hne
      have hi : (ys ++ zs)[ys.length - 1]? = some (ys.getLast hne) := by
        rw [List.getElem?_append_left (by omega),← List.getLast?_eq_getElem?,List.getLast?_eq_getLast_of_ne_nil hne]
      -- The last row of an interface is kept one key below its number.
      have hn : (fill Sheet.blank (ys ++ zs)).obj.get? (1 + (ys.length - 1)) = none := by
        rw [fill_append,hg,if_pos (by omega),OrdMap.get?_eq_none,hk,List.mem_range]
        omega
      have ha := h _ (hr hi) [] (Or.inl rfl)
      rw [Item.row,objGetName_none pcre env hn] at ha
      exact (hy _ (List.getLast_mem hne)).1 ha.symm
    subst hnil
    refine ⟨rfl,fun z hm => ?_⟩
    obtain ⟨i,hi⟩ := List.mem_iff_getElem?.mp hm
    have ha := h _ (hr hi) [] (Or.inl rfl)
    have hs : (fill Sheet.blank ([] ++ zs)).obj.get? (1 + i) = some z.slot := by
      rw [fill_append,hg,if_neg (by simp),List.length_nil,Nat.add_zero,Nat.add_sub_cancel_left,hi]
      rfl
    rw [Item.row,objGetName_slot pcre env hs (Or.inl rfl) (hz z hm).2] at ha
    exact ha
  · rintro ⟨rfl,h⟩ r hm type ht
    rw [fill_dtx] at hm
    obtain ⟨i,z,hi,rfl⟩ := mem_rowsFrom.mp ((List.mem_append.mp hm).resolve_left (by simp [Sheet.blank]))
    have hzm : z ∈ zs := List.mem_of_getElem? hi
    have hs : (fill Sheet.blank ([] ++ zs)).obj.get? (1 + i) = some z.slot := by
      rw [fill_append,hg,if_neg (by simp),List.length_nil,Nat.add_zero,Nat.add_sub_cancel_left]
      rw [List.nil_append] at hi
      rw [hi]
      rfl
    exact (objGetName_slot pcre env hs ht (hz z hzm).2 w).trans (h z hzm)

def onDisplay (opt find : Str) (w : World) : List Item :=
  listed opt find (definitionsGet pcre env .networks (unlinkPrint .networks w)).1

theorem networksPrint_sheet {opt find : Str} {w : World} {s : Sheet}
    (h : (networksPrint pcre env opt find w).1 = some s) : s = fill Sheet.blank (onDisplay pcre env opt find w) := by
  unfold networksPrint at h
  dsimp only at h
  split at h
  · simp at h
  · rw [← Option.some.inj h,foldl_printType]
    rfl

theorem answers_iff {opt find : Str} {w : World} {s : Sheet} (h : (networksPrint pcre env opt find w).1 = some s)
    (w' : World) : Answers pcre env s w' ↔ ∀ x ∈ onDisplay pcre env opt find w, isInterface x.type = false ∧
      trimWith (",") (nameNow pcre env x.type x.id w') = x.name := by
  obtain ⟨ys,zs,he,hy,hz⟩ := listed_split opt find (definitionsGet_sorted pcre env (unlinkPrint .networks w))
  have hd : onDisplay pcre env opt find w = ys ++ zs := he
  have hyn : ∀ y ∈ ys, y.name ≠ [] ∧ y.block.save = pushId := fun y hm =>
    ⟨listed_name (by rw [he]; exact List.mem_append_left _ hm) (hy y hm).1,(hy y hm).2⟩
  rw [networksPrint_sheet pcre env h,hd,answers_fill pcre env hyn (fun z hm => (hz z hm).2) w']
  constructor
  · rintro ⟨rfl,hn⟩ x hx
    exact ⟨(hz x hx).1,hn x hx⟩
  · intro hx
    refine ⟨List.eq_nil_iff_forall_not_mem.mpr fun y hm => ?_,fun z hm => (hx z (List.mem_append_right _ hm)).2⟩
    have hf := (hx y (List.mem_append_left _ hm)).1
    rw [(hy y hm).1] at hf
    exact absurd hf (by simp)

/-- The definition files hold nothing that is read otherwise once it is written back, and no alias has lost its
interface. -/
structure Tidy (w : World) : Prop extends Settled w where
  plain : ∀ fil, Plain (text "definitions" fil w)
  twin : entriesOf twin w = ∅

structure Thinned (v w : World) : Prop where
  tidy : Tidy w
  eth : ethEntries w = ethEntries v
  vip : aliasEntries w = aliasEntries v
  kept : ∀ fil id, (entriesOf fil w).getD id ∅ = (entriesOf fil v).getD id ∅ ∨
    ((entriesOf fil v).getD id ∅).val "NAME" = [] ∧ (entriesOf fil w).getD id ∅ = ∅

theorem Tidy.congr {w w' : World} (h : Tidy w) (hr : w'.reg = w.reg) (hf : Fresh w') : Tidy w' where
  toSettled := h.toSettled.congr hr hf
  plain fil := by
    rw [text,hr]
    exact h.plain fil
  twin := by
    rw [entriesOf,entries_congr _ _ hr]
    exact h.twin

theorem Thinned.refl {w : World} (h : Tidy w) : Thinned w w := ⟨h,rfl,rfl,fun _ _ => Or.inl rfl⟩

theorem Thinned.name {v w : World} (h : Thinned v w) (fil id : Str) :
    nameOf "definitions" fil id w = nameOf "definitions" fil id v := by
  rcases h.kept fil id with he | ⟨hn,he⟩
  · exact congrArg (fun p : Params => p.val "NAME") he
  · exact (congrArg (fun p : Params => p.val "NAME") he).trans hn.symm

theorem Thinned.without {v w : World} (h : Thinned v w) {fil id : Str} (hf : fil ≠ twin) (hn : nameOf "definitions" fil id v = [])
    {w' : World} (hw : w'.reg = (References.without env "definitions" fil id w).reg) (hfr : Fresh w') : Thinned v w' := by
  obtain ⟨he,hp,-⟩ := entries_without env id (h.tidy.plain fil)
  have ht : ∀ sec' fil' : Str, (("definitions" : Str),fil) ≠ (sec',fil') → text sec' fil' w' = text sec' fil' w :=
    fun sec' fil' hne => by
      rw [text,hw]
      exact text_without_ne env hne
  have hsec : ("definitions" : Str) ≠ "network" := by decide
  have hs : ∀ fil', entries "network" fil' w' = entries "network" fil' w := fun fil' => by
    have hn : (("definitions" : Str),fil) ≠ (("network" : Str),fil') := fun hh => hsec (congrArg Prod.fst hh)
    rw [entries,entries,ht _ _ hn]
  have hfil : entriesOf fil w' = (entriesOf fil w).erase id := (entries_congr _ _ hw).trans he
  have hne : ∀ {fil'}, fil' ≠ fil → entriesOf fil' w' = entriesOf fil' w := fun {fil'} hne => by
    rw [entriesOf,entriesOf,entries,entries,ht _ _ (by simp [hne.symm])]
  refine ⟨⟨⟨hfr,?_⟩,fun fil' => ?_,?_⟩,(hs _).trans h.eth,(hs _).trans h.vip,fun fil' id' => ?_⟩
  · rw [ethEntries,aliasEntries,hs,hs]
    exact h.tidy.parents
  · by_cases hff : fil' = fil
    · subst hff
      rw [text,hw]
      exact hp
    · rw [ht _ _ (by simp [Ne.symm hff])]
      exact h.tidy.plain fil'
  · rw [hne (Ne.symm hf)]
    exact h.tidy.twin
  · by_cases hff : fil' = fil
    · subst hff
      rw [hfil]
      by_cases hi : id = id'
      · subst hi
        exact Or.inr ⟨hn,by rw [OrdMap.getD,OrdMap.get?_erase,if_pos rfl]; rfl⟩
      · rw [OrdMap.getD,OrdMap.get?_erase,if_neg hi]
        exact h.kept fil' id'
    · rw [hne hff]
      exact h.kept fil' id'

/-- Deleting a definition without a NAME takes nothing else away. -/
theorem Thinned.delete {v w : World} (h : Thinned v w) {type id : Str}
    (hn : nameOf "definitions" (definitionsFile .networks type) id v = []) :
    Thinned v (definitionsDelete pcre env .networks type id w).2 := by
  have hl : Looked "definitions" := Or.inr rfl
  have hfr : Fresh (definitionsDelete pcre env .networks type id w).2 :=
    iniTokenDelete_fresh pcre env id hl h.tidy.fresh
  have hd := iniTokenDelete_deleted pcre env id (h.tidy.fresh "definitions" (definitionsFile .networks type) hl)
  rw [deleted,h.name,hn] at hd
  change (definitionsDelete pcre env .networks type id w).2.reg = _ at hd
  split at hd
  · exact h.without env (definitionsFile_ne_twin .networks type) hn hd hfr
  · have hk : ∀ sec fil, entries sec fil (definitionsDelete pcre env .networks type id w).2 = entries sec fil w :=
      fun _ _ => entries_congr _ _ hd
    refine ⟨h.tidy.congr hd hfr,(hk _ _).trans h.eth,(hk _ _).trans h.vip,fun fil' id' => ?_⟩
    rw [entriesOf,hk]
    exact h.kept fil' id'

theorem fileTypes_file : ∀ ty ∈ fileTypes, typeOfFile .networks (definitionsFile .networks ty) = some ty ∧
    ∀ c ∈ ty, regexSpace c = false := by decide

theorem addToken_congr {key ty : Str} (t : Token) {m m' : Objects} (h : m.get? ty = m'.get? ty) :
    (definitionsGetAddToken key t m).get? ty = (definitionsGetAddToken key t m').get? ty := by
  unfold definitionsGetAddToken
  split
  · exact h
  · rw [OrdMap.get?_set,OrdMap.get?_set,h]

/-- The objects of a type are the entries of its file. -/
theorem objects_file {w : World} (ht : entriesOf twin w = ∅) {ty : Str} (h : ty ∈ fileTypes) :
    (objects .networks w).getD ty ∅ = entriesOf (definitionsFile .networks ty) w := by
  obtain ⟨hf,hb⟩ := fileTypes_file ty h
  have hne : ∀ key : Str, ' ' ∈ key → key ≠ ty := by
    rintro key hk rfl
    exact absurd (hb ' ' hk) (by decide)
  have ho : (objects .networks w).get? ty = (typedObjects .networks w).get? ty := by
    rw [objects,OrdMap.get?_sortKeys,interfaceTypes,addToken_ne _ _ (hne _ (by decide)),
      addToken_ne _ _ (hne _ (by decide)),addToken_ne _ _ (hne _ (by decide))]
  rw [OrdMap.getD,ho]
  by_cases he : entriesOf (definitionsFile .networks ty) w = ∅
  · rw [he]
    cases hg : (typedObjects .networks w).get? ty with
    | none => rfl
    | some t =>
      obtain ⟨f,hft,rfl⟩ := typedObjects_some hg
      have hft' : f ≠ twin := fun hh => typedObjects_ne hg (hh ▸ ht)
      rw [typeOfFile_inj hft hf hft' (definitionsFile_ne_twin .networks ty)] at hg
      exact absurd he (typedObjects_ne hg)
  · rw [typedObjects_file ht hf he]
    rfl

/-- The objects of the interfaces come from the interfaces and the aliases alone. -/
theorem objects_interface {w w' : World} (he : ethEntries w' = ethEntries w) (ha : aliasEntries w' = aliasEntries w)
    {ty : Str} (h : ty ∈ interfaceTypeNames) :
    (objects .networks w').getD ty ∅ = (objects .networks w).getD ty ∅ := by
  have hb : ∀ ty ∈ interfaceTypeNames, ' ' ∈ ty := by decide
  have hn : ∀ v, (typedObjects .networks v).get? ty = none := by
    intro v
    cases hg : (typedObjects .networks v).get? ty with
    | none => rfl
    | some t =>
      obtain ⟨f,hf,-⟩ := typedObjects_some hg
      exact absurd (typeOfFile_black hf ' ' (hb ty h)) (by decide)
  rw [OrdMap.getD,OrdMap.getD,objects,objects,OrdMap.get?_sortKeys,OrdMap.get?_sortKeys,he,ha]
  congr 1
  exact addToken_congr _ (addToken_congr _ (addToken_congr _ ((hn w').trans (hn w).symm)))

theorem Thinned.printObject {v w : World} {s : Sheet} {b : Block} {f : Flags} {type find : Str} {e : Str × Params}
    (h : Thinned v w) (hb : blockOf f type = some b)
    (he : type ∈ fileTypes → (entriesOf (definitionsFile .networks type) v).getD e.1 ∅ = e.2) :
    Thinned v (printObject pcre env b type find (s,w) e).2 := by
  unfold ResourceIds.printObject
  split
  · rename_i hc
    simp only [Bool.and_eq_true,decide_eq_true_eq] at hc
    dsimp only
    split
    · rename_i hd
      rcases blockOf_cases hb with ⟨-,rfl⟩ | ⟨-,-,hs⟩
      · simp [interface] at hd
      · refine h.delete pcre env ?_
        rw [nameOf]
        change ((entriesOf (definitionsFile .networks type) v).getD e.1 ∅).val "NAME" = []
        rw [he hs]
        exact null_iff.mp hc.2
    · exact h
  · split
    · exact h
    · exact h

theorem Thinned.printObjects {v : World} {b : Block} {f : Flags} {type find : Str} (hb : blockOf f type = some b)
    (es : List (Str × Params))
    (he : type ∈ fileTypes → ∀ e ∈ es, (entriesOf (definitionsFile .networks type) v).getD e.1 ∅ = e.2)
    {s : Sheet × World} (h : Thinned v s.2) : Thinned v (es.foldl (ResourceIds.printObject pcre env b type find) s).2 := by
  induction es generalizing s with
  | nil => exact h
  | cons e es ih =>
    rw [List.foldl_cons]
    refine ih (fun hs x hx => he hs x (List.mem_cons_of_mem _ hx)) ?_
    exact h.printObject pcre env (s := s.1) hb fun hs => he hs e (by simp)

theorem Thinned.printTypes {v : World} {f : Flags} {find : Str} (ts : List (Str × Token))
    (ht : ∀ t ∈ ts, t ∈ (objects .networks v).entries) (hv : entriesOf twin v = ∅) {s : Sheet × World}
    (h : Thinned v s.2) : Thinned v (ts.foldl (printType pcre env f find) s).2 := by
  induction ts generalizing s with
  | nil => exact h
  | cons t ts ih =>
    rw [List.foldl_cons]
    refine ih (fun x hx => ht x (List.mem_cons_of_mem _ hx)) ?_
    unfold printType
    cases hb : blockOf f t.1 with
    | none => exact h
    | some b =>
      refine Thinned.printObjects pcre env hb t.2.entries (fun hty e he => ?_) h
      have hg : (objects .networks v).getD t.1 ∅ = t.2 := by
        rw [OrdMap.getD,OrdMap.get?_eq_some.mpr (ht t (by simp))]
        rfl
      rw [← objects_file hv hty,hg,OrdMap.getD,OrdMap.get?_eq_some.mpr he]
      rfl

/-- In a tidy registry an object on display has the NAME it is displayed with. -/
theorem nameNow_onDisplay {opt find : Str} {w : World} (h : Tidy w) (hs : (networksPrint pcre env opt find w).1 ≠ none)
    {x : Item} (hx : x ∈ onDisplay pcre env opt find w) :
    nameNow pcre env x.type x.id (networksPrint pcre env opt find w).2 = x.name := by
  have hu : Settled (unlinkPrint .networks w) := h.toSettled.congr rfl (unlinkPrint_fresh _ h.fresh)
  obtain ⟨hr,hset⟩ := hu.definitionsGet pcre env .networks
  have hm := (definitionsGet_spec pcre env .networks hu.fresh).1
  rw [onDisplay,hm] at hx
  obtain ⟨v,hv⟩ : ∃ v, v = (definitionsGet pcre env .networks (unlinkPrint .networks w)).2 := ⟨_,rfl⟩
  rw [← hv] at hr hset
  have hvt : Tidy v := h.congr hr hset.fresh
  have ho : objects .networks v = objects .networks (unlinkPrint .networks w) := objects_congr .networks hr
  have hw : Thinned v (networksPrint pcre env opt find w).2 := by
    unfold networksPrint at hs ⊢
    dsimp only at hs ⊢
    rw [hm,← hv,← ho] at hs ⊢
    split at hs
    · exact absurd rfl hs
    · rename_i hc
      rw [if_neg hc]
      exact Thinned.printTypes pcre env _ (fun _ ht => ht) hvt.twin (Thinned.refl hvt)
  obtain ⟨ty,t,e,ht,hb,he,-,hxe⟩ := mem_listed.mp hx
  rw [← ho] at ht
  have hname : x.name = e.2.val "NAME" := by
    rw [← data_name x.block,Item.name]
    exact congrArg (fun y : Item => y.data.val "NAME") hxe
  have hty : x.type = ty := by rw [hxe]
  have hid : x.id = e.1 := by rw [hxe]
  have hg : (objects .networks v).getD ty ∅ = t := by
    rw [OrdMap.getD,OrdMap.get?_eq_some.mpr ht]
    rfl
  have hge : t.getD e.1 ∅ = e.2 := by
    rw [OrdMap.getD,OrdMap.get?_eq_some.mpr he]
    rfl
  rw [nameNow,(definitionsGet_spec pcre env .networks hw.tidy.fresh).1,hty,hid,hname]
  rcases blockOf_cases hb with ⟨hi,-⟩ | ⟨-,-,hf⟩
  · have hsort : Sorted (objects .networks v) := by
      rw [ho,← hm]
      exact definitionsGet_sorted pcre env _
    have hn := isInterface_name hsort (List.mem_map_of_mem (f := Prod.fst) ht) hi
    rw [objects_interface hw.eth hw.vip hn,hg,hge]
  · have hn := hw.name (definitionsFile .networks ty) e.1
    rw [objects_file hw.tidy.twin hf]
    refine hn.trans ?_
    rw [nameOf]
    change ((entriesOf (definitionsFile .networks ty) v).getD e.1 ∅).val "NAME" = _
    rw [← objects_file hvt.twin hf,hg,hge]

/-- The IDs on the screen name the objects in their rows exactly when no interface is among them and each object
still has its NAME after the deletions of the print, and no comma at an end of it. A tidy registry leaves the
objects their names. -/
theorem networksPrint_answers_iff {opt find : Str} {w : World} {s : Sheet}
    (h : (networksPrint pcre env opt find w).1 = some s) :
    (Answers pcre env s (networksPrint pcre env opt find w).2 ↔ ∀ x ∈ onDisplay pcre env opt find w,
      isInterface x.type = false ∧ trimWith (",") x.name = x.name ∧
      trimWith (",") (nameNow pcre env x.type x.id (networksPrint pcre env opt find w).2) = trimWith (",") x.name) ∧
    (Tidy w → ∀ x ∈ onDisplay pcre env opt find w,
      nameNow pcre env x.type x.id (networksPrint pcre env opt find w).2 = x.name) := by
  constructor
  · rw [answers_iff pcre env h]
    refine forall₂_congr fun x _ => and_congr_right fun _ => ?_
    constructor
    · intro hn
      have ht : trimWith (",") x.name = x.name := by
        rw [← hn]
        exact LineText.strip_strip _ _
      exact ⟨ht,hn.trans ht.symm⟩
    · rintro ⟨ht,hn⟩
      exact hn.trans ht
  · exact fun ht x hx => nameNow_onDisplay pcre env ht (by rw [h]; simp) hx

def officeWorld : World := World.ofFiles [
  ("definitions","network_host.cfg","ID=1\nNAME=web\nADDR=10.0.0.1\nID=2\nNAME=mail\nADDR=10.0.0.2\n"),
  ("network","eth.cfg","ID=eth0\nNAME=lan\nDEVICE=eth0\nADDR=10.0.0.254\n")]

def officePrint (opt : Str) : Sheet := (networksPrint Pcre.plain noonEnv opt [] officeWorld).1.getD Sheet.blank

theorem networksPrint_answers_iff_hosts :
    (networksPrint Pcre.plain noonEnv "host" [] officeWorld).1 = some (officePrint "host") ∧
    (Answers Pcre.plain noonEnv (officePrint "host") (networksPrint Pcre.plain noonEnv "host" [] officeWorld).2 ↔
      ∀ x ∈ onDisplay Pcre.plain noonEnv "host" [] officeWorld,
        isInterface x.type = false ∧ trimWith (",") x.name = x.name ∧
        trimWith (",") (nameNow Pcre.plain noonEnv x.type x.id (networksPrint Pcre.plain noonEnv "host" [] officeWorld).2)
          = trimWith (",") x.name) :=
  have h : (networksPrint Pcre.plain noonEnv "host" [] officeWorld).1 = some (officePrint "host") := by
    decide +kernel
  ⟨h,(networksPrint_answers_iff Pcre.plain noonEnv h).1⟩

/-- The first row of an interface names the second one. -/
theorem interface_ids_shifted : ¬∀ (pcre : Pcre) (env : Env) (opt find : Str) (w : World) (s : Sheet),
    (networksPrint pcre env opt find w).1 = some s → ∀ r ∈ s.dtx,
      (objGetName pcre env s.obj .networks (decimal r.cnt) [] (networksPrint pcre env opt find w).2).1 = r.name := by
  intro h
  have hs : (networksPrint Pcre.plain noonEnv "interface" [] officeWorld).1 = some (officePrint "interface") ∧
      ∃ r ∈ (officePrint "interface").dtx, (objGetName Pcre.plain noonEnv (officePrint "interface").obj .networks
        (decimal r.cnt) [] (networksPrint Pcre.plain noonEnv "interface" [] officeWorld).2).1 ≠ r.name := by
    decide +kernel
  obtain ⟨hs,r,hr,hn⟩ := hs
  exact hn (h Pcre.plain noonEnv "interface" [] officeWorld _ hs r hr)

end ResourceIds
end Mybox
