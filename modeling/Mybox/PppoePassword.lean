import Mybox.Base64
import Mybox.ReadValues

/-! The password of a PPPoE account: covered with a pad, encoded, saved in `eth.cfg` and read back by the script that
starts the connection. -/
namespace Mybox
namespace Registry
open Php RegistryFormat References

variable (env : Env) {sec fil : Str}

-- An accepted update of a file in which no parameter has the name of the section lines.
theorem sectionName_ne {k : Str} (he : '=' ∉ k) (hk : k ≠ ("ID" : Str)) (v : Str) :
    sectionName (k ++ '=' :: v) = none := by
  rw [Option.eq_none_iff_forall_ne_some]
  intro n hn
  have hl : k ++ '=' :: v = ("ID" : Str) ++ '=' :: n := (sectionName_some hn).1
  have hs := congrArg (fun l => (split '=' l).headD []) hl
  simp only [split_append_eq he,split_append_eq (show '=' ∉ ("ID" : Str) by decide)] at hs
  exact hk hs

/-- What the reader puts into an array, whatever the file is like. -/
structure AsFiled (t : Token) : Prop where
  ident : ∀ e ∈ t.entries, IdentOk e.1
  param : ∀ e ∈ t.entries, ∀ x ∈ e.2.entries, skipped x.1 = true ∨ x.1 = ("ID" : Str) ∨ ParamOk x.1 x.2

theorem AsFiled.assign {st : Reading} (h : AsFiled st.token) {n a b : Str} (hn : IdentOk n)
    (hx : skipped a = true ∨ a = ("ID" : Str) ∨ ParamOk a b) : AsFiled (st.assign n a b).token := by
  have hp : ∀ x ∈ (st.token.getD n ∅).entries, skipped x.1 = true ∨ x.1 = ("ID" : Str) ∨ ParamOk x.1 x.2 := by
    intro x hm
    cases hg : st.token.get? n with
    | none =>
      rw [OrdMap.getD,hg] at hm
      simp at hm
    | some p =>
      rw [OrdMap.getD,hg] at hm
      exact h.param (n,p) (OrdMap.get?_eq_some.mp hg) x hm
  constructor
  · intro e he
    rcases OrdMap.mem_set he with rfl | he
    · exact hn
    · exact h.ident e he
  · intro e he x hm
    rcases OrdMap.mem_set he with rfl | he
    · rcases OrdMap.mem_set hm with rfl | hm
      · exact hx
      · exact hp x hm
    · exact h.param e he x hm

theorem AsFiled.readLine {st : Reading} (h : AsFiled st.token) (ht : st.tname = [] ∨ IdentOk st.tname) {l : Str}
    (hl : l ≠ []) (htr : trim l = l) (hn : '\n' ∉ l) :
    AsFiled (readLine st l).token ∧ ((readLine st l).tname = [] ∨ IdentOk (readLine st l).tname) := by
  unfold RegistryFormat.readLine
  split
  · exact ⟨h,ht⟩
  · rename_i hc
    split
    · rename_i n hs
      obtain ⟨rfl,hne,hb⟩ := sectionName_some hs
      have hlast := (trimmed_iff.mp htr).2
      rw [sectionLine,List.getLast?_append_of_ne_nil _ hne] at hlast
      have hi : IdentOk n := ⟨hne,hb,hlast⟩
      exact ⟨h.assign hi (Or.inl rfl),Or.inr hi⟩
    · split
      · exact ⟨h,ht⟩
      · rename_i htn
        split
        · exact ⟨h,ht⟩
        · rename_i ha
          have hi : IdentOk st.tname := ht.resolve_left (by simpa using htn)
          have ha' : (splitParam l).1 ≠ [] := by simpa using ha
          refine ⟨h.assign hi (Or.inr ?_),Or.inr hi⟩
          by_cases hk : (splitParam l).1 = ("ID" : Str)
          · exact Or.inl hk
          · exact Or.inr (splitParam_ok hl htr hn hc ha' (sectionName_ne (splitParam_read hn).1.2.2 hk _))

theorem readText_asFiled (s : Str) : AsFiled (readText s ∅) := by
  have key : ∀ ls : List Str, (∀ l ∈ ls, l ∈ file s) → ∀ st : Reading, AsFiled st.token →
      (st.tname = [] ∨ IdentOk st.tname) → AsFiled (ls.foldl RegistryFormat.readLine st).token := by
    intro ls
    induction ls with
    | nil => exact fun _ _ h _ => h
    | cons l ls ih =>
      intro hm st hst ht
      have hl := mem_file (hm l (by simp))
      have hr := hst.readLine ht hl.1 hl.2.1 hl.2.2
      exact ih (fun x hx => hm x (List.mem_cons_of_mem l hx)) _ hr.1 hr.2
  exact key (file s) (fun _ h => h) ⟨[],∅⟩ ⟨by simp,by simp⟩ (Or.inl rfl)

/-- No entry of the array has a parameter called `ID`, the name a section line starts with. -/
def Unreserved (t : Token) : Prop := ∀ e ∈ t.entries, e.2.get? "ID" = none

instance (t : Token) : Decidable (Unreserved t) := inferInstanceAs (Decidable (∀ e ∈ t.entries, _))

/-- After an accepted update the entry has each value of the data as it is read. -/
theorem update_value {w : World} (hc : Coherent sec fil w) (hu : Unreserved (entries sec fil w)) {id : Str}
    {data : Params} (hd : WritableData data) (ho : (iniTokenUpdate env sec fil id data w).1 = .ok) {k v : Str}
    (hk : skipped k = false) (hv : data.get? k = some v) :
    ((entries sec fil (iniTokenUpdate env sec fil id data w).2).getD id ∅).get? k = some (carried v) := by
  rcases iniTokenUpdate_spec env sec fil id data hc with ⟨p,hp,hw⟩ | ⟨hn,-,-⟩
  · have hf := readText_asFiled (text sec fil w)
    have hwr : ∀ e ∈ (entries sec fil w).entries, ∀ x ∈ e.2.entries, Writable x := by
      intro e he x hx
      rcases hf.param e he x hx with h | h | h
      · exact Or.inl h
      · have hg := OrdMap.get?_eq_none.mp (hu e he)
        exact absurd (List.mem_map.mpr ⟨x,hx,h⟩) hg
      · exact Or.inr (Or.inr h)
    have hset : ∀ e ∈ ((entries sec fil w).set id (p.setAll data.entries)).entries,
        IdentOk e.1 ∧ ∀ x ∈ e.2.entries, Writable x := by
      intro e he
      rcases OrdMap.mem_set he with rfl | he
      · have hm : (id,p) ∈ (entries sec fil w).entries := OrdMap.get?_eq_some.mp hp
        exact ⟨hf.ident (id,p) hm,fun x hx => (mem_setAll hx).elim (hwr _ hm x) (hd x)⟩
      · exact ⟨hf.ident e he,hwr e he⟩
    have hok : TokenOk (carriedToken ((entries sec fil w).set id (p.setAll data.entries))) := by
      constructor
      · intro e he
        obtain ⟨f,hf',rfl⟩ := List.mem_map.mp he
        exact (hset f hf').1
      · intro e he x hx
        obtain ⟨f,hf',rfl⟩ := List.mem_map.mp he
        obtain ⟨hx,hs⟩ := List.mem_filter.mp hx
        obtain ⟨y,hy,rfl⟩ := List.mem_map.mp hx
        have hs' : skipped y.1 = false := by simpa using hs
        dsimp only
        rw [carriedValue,hs']
        exact (((hset f hf').2 y hy).alike hs').2.2.1
    have ht : entries sec fil (iniTokenUpdate env sec fil id data w).2 =
        readBackAll (carriedToken ((entries sec fil w).set id (p.setAll data.entries))) := by
      rw [entries,text,hw.done ho,OrdMap.getD,OrdMap.get?_set_self,Option.getD_some,merge_eq_setAll,
        readText_alike (alike_updateText env (fun e he => (hset e he).1) fun e he => (hset e he).2),
        readText_updateText env hok]
    rw [ht,OrdMap.getD,readBackAll,OrdMap.get?_mapEntries,carriedToken,OrdMap.get?_mapEntries,OrdMap.get?_set_self]
    apply readBack_get? hk
    change (carriedParams (p.setAll data.entries)).get? k = some (carried v)
    rw [carriedParams,OrdMap.get?_mapEntries,
      OrdMap.get?_setAll_of_mem _ data.nodup (OrdMap.get?_eq_some.mp hv),Option.map_some,carriedValue,hk]
    rfl
  · rw [hn] at ho
    simp at ho

end Registry

namespace Pppoe
open Php RegistryFormat Registry Base64

/-- The default of `$_epad`. -/
def epad : Str := "$aweo$!5047a88a7963275e43790ee796dcb7ec!$aweo$"

def pad : List Byte := decode (("!@#awie123" : Str) ++ epad ++ ("!@#awie123" : Str))

/-- Each byte with the one of the pad; past the end of the pad that is zero. -/
def covered (s : List Byte) : List Byte := s.mapIdx fun i c => c ^^^ pad.getD i 0

def base64Crypt (s : List Byte) : Str := encode (covered s)

def base64Decrypt (s : Str) : List Byte := covered (decode s)

theorem covered_covered (s : List Byte) : covered (covered s) = s := by
  rw [covered,covered,List.mapIdx_mapIdx]
  apply List.ext_getElem
  · simp
  · intro i _ _
    rw [List.getElem_mapIdx,Function.comp_apply,BitVec.xor_assoc,BitVec.xor_self,BitVec.xor_zero]

/-- The data of `set account`. -/
def accountData (user : Str) (passwd : List Byte) : Params :=
  (OrdMap.empty.set ("USERNAME" : Str) user).set "PASSWORD" (base64Crypt passwd)

theorem carried_encode (s : List Byte) : carried (encode s) = unpadded s := by
  have hb : ∀ c ∈ alphabet, trimChar c = false ∧ c ≠ '=' := by decide
  have hu : carried (unpadded s) = unpadded s :=
    carried_eq (References.trim_of_black fun c hc => (hb c (unpadded_mem hc)).1)
      fun hm => (hb _ (unpadded_mem hm)).2 rfl
  rcases encode_eq s with h | ⟨r,h⟩
  · rw [h,hu]
  · rw [h,carried_append,hu]

theorem decrypt_carried (s : List Byte) : base64Decrypt (carried (base64Crypt s)) = s := by
  rw [base64Crypt,carried_encode,base64Decrypt,decode_unpadded,covered_covered]

/-- A password that was saved is the one the connection is started with. -/
theorem password_survives {sec fil : Str} {w : World} (hc : Coherent sec fil w)
    (hu : Unreserved (entries sec fil w)) (passwd : List Byte) (hp : passwd ≠ []) {data : Params}
    (hd : WritableData data) (hv : data.get? "PASSWORD" = some (base64Crypt passwd)) (env env' : Env) {id : Str}
    {w' : World} (ho : iniTokenUpdate env sec fil id data w = (.ok,w')) :
    ∃ v, ((iniTokenGet env' sec fil ∅ w').1.getD id ∅).get? "PASSWORD" = some v ∧ v ≠ [] ∧
      base64Decrypt v = passwd := by
  have hco : Coherent sec fil w' := by
    rcases iniTokenUpdate_spec env sec fil id data hc with ⟨_,-,hw⟩ | ⟨-,-,hw⟩
    · rw [ho] at hw
      exact hw.coherent
    · have hw' := hw []
      rw [ho] at hw'
      exact hw'.coherent
  have hval := @update_value env sec fil w hc hu id data hd (by rw [ho]) _ _ (by decide) hv
  rw [ho] at hval
  refine ⟨carried (base64Crypt passwd),?_,?_,decrypt_carried passwd⟩
  · rw [iniTokenGet_fst env' sec fil hco]
    exact hval
  · rw [base64Crypt,carried_encode]
    apply unpadded_ne
    simpa [covered] using hp

def pppWorld : World := World.ofFiles [("network","eth.cfg","ID=lan\nDEVICE=eth0\n\nID=ppp\nDEVICE=ppp0\nTYPE=pppoe\n")]

def guestPassword : List Byte := [115,51,99,114,101,116]

theorem password_survives_guest :
    ∃ w' v, iniTokenUpdate noonEnv "network" "eth.cfg" "ppp" (accountData "guest" guestPassword) pppWorld = (.ok,w') ∧
      ((iniTokenGet noonEnv "network" "eth.cfg" ∅ w').1.getD "ppp" ∅).get? "PASSWORD" = some v ∧
      base64Decrypt v = guestPassword := by
  have hd : WritableData (accountData "guest" guestPassword) := by decide +kernel
  have ho : (iniTokenUpdate noonEnv "network" "eth.cfg" "ppp" (accountData "guest" guestPassword) pppWorld).1 = .ok := by
    decide +kernel
  have hu : Unreserved (entries "network" "eth.cfg" pppWorld) := by
    decide +kernel
  obtain ⟨v,hv,-,hp⟩ := @password_survives "network" "eth.cfg" pppWorld (Or.inl (by decide))
    hu guestPassword (by decide) _ hd (by decide +kernel) noonEnv noonEnv "ppp" _ (Prod.ext ho rfl)
  exact ⟨_,v,Prod.ext ho rfl,hv,hp⟩

end Pppoe
end Mybox
