import Mybox.DerivedFields

/-! The names and the addresses of the interfaces and the aliases: each command that gives one has its own check of
both files, and most of these checks refuse only what both files have. -/
namespace Mybox
namespace Interfaces

open Php RegistryFormat Registry References Definitions

variable (pcre : Pcre) (v6 : Ipv6) (env : Env)

abbrev Place := Str × Str

def identityKeys : List Str := ["NAME","ADDR"]

def valueAt (k : Str) (w : World) (x : Place) : Str := ((entries "network" x.1 w).getD x.2 ∅).val k

/-- Every name counts, and those addresses that were set by a command. -/
def Counts (k : Str) (S : List Place) (x : Place) : Prop := k = ("ADDR" : Str) → x ∈ S

/-- No two entries have the same value, unless it is empty. -/
def Apart (k : Str) (S : List Place) (w : World) : Prop := ∀ x y, x.1 ∈ netFiles → y.1 ∈ netFiles →
  Counts k S x → Counts k S y → valueAt k w x ≠ [] → valueAt k w x = valueAt k w y → x = y

def Elsewhere (k : Str) (S : List Place) (w : World) (x : Place) (v : Str) : Prop :=
  v ≠ [] ∧ ∃ fil ∈ netFiles, ∃ e ∈ (entries "network" fil w).entries,
    (fil,e.1) ≠ x ∧ Counts k S (fil,e.1) ∧ e.2.val k = v

theorem elsewhere_of {k v : Str} {S : List Place} {w : World} {x y : Place} (hv : v ≠ []) (hf : y.1 ∈ netFiles)
    (hn : y ≠ x) (hc : Counts k S y) (he : valueAt k w y = v) : Elsewhere k S w x v := by
  refine ⟨hv,y.1,hf,?_⟩
  cases hg : (entries "network" y.1 w).get? y.2 with
  | none =>
    rw [valueAt,OrdMap.getD,hg] at he
    exact absurd he.symm hv
  | some p =>
    rw [valueAt,OrdMap.getD,hg] at he
    exact ⟨(y.2,p),OrdMap.get?_eq_some.mp hg,hn,hc,he⟩

theorem valueAt_congr {w w' : World} (h : w'.reg = w.reg) (k : Str) (x : Place) : valueAt k w' x = valueAt k w x := by
  rw [valueAt,valueAt,entries_congr _ _ h]

structure Same (w w' : World) : Prop where
  sound : Sound w'
  value : ∀ k ∈ identityKeys, ∀ y : Place, y.1 ∈ netFiles → valueAt k w' y = valueAt k w y

structure Puts (x : Place) (es : List (Str × Str)) (w w' : World) : Prop where
  sound : Sound w'
  value : ∀ k ∈ identityKeys, ∀ y : Place, y.1 ∈ netFiles → valueAt k w' y =
    if y = x then ((OrdMap.lookup k es).map carried).getD (valueAt k w y) else valueAt k w y

theorem Quiet.same {w w' : World} (hq : Quiet w w') (h : Sound w) : Same w w' :=
  ⟨h.quiet hq,fun k _ y _ => valueAt_congr hq.reg k y⟩

theorem Same.trans {w w' w'' : World} (h : Same w w') (h' : Same w' w'') : Same w w'' :=
  ⟨h'.sound,fun k hk y hy => (h'.value k hk y hy).trans (h.value k hk y hy)⟩

theorem Same.puts {w w' w'' : World} {x : Place} {es : List (Str × Str)} (h : Same w w') (h' : Puts x es w' w'') :
    Puts x es w w'' :=
  ⟨h'.sound,fun k hk y hy => by rw [h'.value k hk y hy,h.value k hk y hy]⟩

theorem Puts.same {w w' w'' : World} {x : Place} {es : List (Str × Str)} (h : Puts x es w w') (h' : Same w' w'') :
    Puts x es w w'' :=
  ⟨h'.sound,fun k hk y hy => (h'.value k hk y hy).trans (h.value k hk y hy)⟩

theorem Same.apart {k : Str} {S : List Place} {w w' : World} (h : Same w w') (hk : k ∈ identityKeys)
    (ha : Apart k S w) : Apart k S w' := by
  intro x y hx hy hcx hcy hne he
  rw [h.value k hk x hx] at hne he
  rw [h.value k hk y hy] at he
  exact ha x y hx hy hcx hcy hne he

/-- Values that no other entry has keep the entries apart, and the entry may count from now on. -/
theorem Puts.apart {k : Str} {S S' : List Place} {x : Place} {es : List (Str × Str)} {w w' : World}
    (h : Puts x es w w') (hk : k ∈ identityKeys) (ha : Apart k S w)
    (hs : ∀ v, OrdMap.lookup k es = some v → ¬ Elsewhere k S w x (carried v))
    (hc : ∀ y, Counts k S' y → Counts k S y ∨ y = x ∧ (OrdMap.lookup k es).isSome) : Apart k S' w' := by
  -- the entry and another one do not have the same value
  have other : ∀ y, y ≠ x → y.1 ∈ netFiles → x.1 ∈ netFiles → Counts k S' x → Counts k S' y →
      valueAt k w' x ≠ [] → valueAt k w' x ≠ valueAt k w' y := by
    intro y hyx hy hx hcx hcy hne he
    have hcy' : Counts k S y := (hc y hcy).resolve_right fun hh => hyx hh.1
    have hvy := h.value k hk y hy
    have hvx := h.value k hk x hx
    rw [if_neg hyx] at hvy
    rw [if_pos rfl] at hvx
    cases hl : OrdMap.lookup k es with
    | some v =>
      rw [hl] at hvx
      refine hs v hl (elsewhere_of (?_ : carried v ≠ []) hy hyx hcy' ?_)
      · rwa [hvx] at hne
      · rw [← hvy,← he,hvx]
        rfl
    | none =>
      rw [hl] at hvx
      have hcx' : Counts k S x := (hc x hcx).resolve_right fun hh => by simp [hl] at hh
      rw [hvx] at hne he
      rw [hvy] at he
      exact hyx (ha x y hx hy hcx' hcy' hne he).symm
  intro y z hy hz hcy hcz hne he
  by_cases hyx : y = x
  · by_cases hzx : z = x
    · rw [hyx,hzx]
    · subst hyx
      exact absurd he (other z hzx hz hy hcy hcz hne)
  · by_cases hzx : z = x
    · subst hzx
      exact absurd he.symm (other y hyx hy hz hcz hcy (he ▸ hne))
    · have hcy' : Counts k S y := (hc y hcy).resolve_right fun hh => hyx hh.1
      have hcz' : Counts k S z := (hc z hcz).resolve_right fun hh => hzx hh.1
      rw [h.value k hk y hy,if_neg hyx] at hne he
      rw [h.value k hk z hz,if_neg hzx] at he
      exact ha y z hy hz hcy' hcz' hne he

/-- What `_INI_TOKEN_CHECK` finds. -/
def heldIn (fil k v : Str) (w : World) : Bool :=
  (entries "network" fil w).entries.any fun e => !null (e.2.val k) && looseEq (e.2.val k) v

def heldInBoth (k v : Str) (w : World) : Bool := heldIn "eth.cfg" k v w && heldIn "additional.cfg" k v w

def heldInEither (k v : Str) (w : World) : Bool := heldIn "eth.cfg" k v w || heldIn "additional.cfg" k v w

theorem heldIn_congr {w w' : World} (h : w'.reg = w.reg) (fil k v : Str) : heldIn fil k v w' = heldIn fil k v w := by
  rw [heldIn,heldIn,entries_congr _ _ h]

theorem check_held {w : World} (h : Fresh w) (fil k v : Str) :
    (iniTokenCheck env "network" fil k v w).1 = !heldIn fil k v w := by
  rw [iniTokenCheck_fst env _ _ (h "network" fil looked_network),heldIn,List.not_any_eq_all_not]
  simp

theorem takenInBoth_held {w : World} (h : Fresh w) (k v : Str) : (takenInBoth env k v w).1 = heldInBoth k v w := by
  have hq := check_quiet env "eth.cfg" k v w
  unfold takenInBoth heldInBoth
  dsimp only
  rw [check_held env h,check_held env (hq.fresh h),heldIn_congr hq.reg]
  cases heldIn "eth.cfg" k v w <;> simp

theorem takenInEither_held {w : World} (h : Fresh w) (k v : Str) :
    (takenInEither env k v w).1 = heldInEither k v w := by
  have hq := check_quiet env "eth.cfg" k v w
  unfold takenInEither heldInEither
  dsimp only
  rw [check_held env h,check_held env (hq.fresh h),heldIn_congr hq.reg]
  cases heldIn "eth.cfg" k v w <;> simp

theorem heldIn_of_elsewhere {k v : Str} {S : List Place} {w : World} {x : Place} (h : Elsewhere k S w x v) :
    heldInEither k v w = true := by
  obtain ⟨hv,fil,hf,e,he,-,-,rfl⟩ := h
  have hh : heldIn fil k (e.2.val k) w = true :=
    List.any_eq_true.mpr ⟨e,he,by rw [null_false_iff.mpr hv,looseEq_self]; rfl⟩
  rw [heldInEither,Bool.or_eq_true]
  rcases List.mem_cons.mp hf with rfl | hf
  · exact Or.inl hh
  · rw [List.mem_singleton.mp hf] at hh
    exact Or.inr hh

/-- A command that changes a value of an entry asks whether both files have the new one, unless there was none or
the new one is loosely equal. -/
def changeHeld (k v : Str) (x : Place) (w : World) : Bool :=
  !null (valueAt k w x) && !looseEq v (valueAt k w x) && heldInBoth k v w

theorem changeTaken_held {w : World} (h : Fresh w) {k : Str} {x : Place} {p : Params} (v : Str)
    (hp : valueAt k w x = p.val k) : (changeTaken env k (p.val k) v w).1 = changeHeld k v x w := by
  unfold changeTaken changeHeld
  rw [hp]
  split
  · rename_i hc
    rw [takenInBoth_held env h,hc,Bool.true_and]
  · rename_i hc
    rw [Bool.not_eq_true] at hc
    rw [hc,Bool.false_and]

/-- An update refuses a new name that another entry of its file has; the command that asked for it goes on. -/
def nameRefused (x : Place) (name : Str) (w : World) : Bool :=
  !null (valueAt "NAME" w x) && !null name && !looseEq (valueAt "NAME" w x) name && heldIn x.1 "NAME" name w

theorem nameRefused_congr {w w' : World} (h : w'.reg = w.reg) (x : Place) (name : Str) :
    nameRefused x name w' = nameRefused x name w := by
  rw [nameRefused,nameRefused,valueAt_congr h,heldIn_congr h]

theorem update_nameExists {w : World} (h : Fresh w) {fil id : Str} {data : Params} :
    (iniTokenUpdate env "network" fil id data w).1 = .nameExists ↔
      nameRefused (fil,id) (data.val "NAME") w = true := by
  have hq : Quiet w (iniObjectClean "network" fil (iniTokenGet env "network" fil ∅ w).2) :=
    (get_quiet env fil w).trans (clean_quiet "network" fil _)
  unfold iniTokenUpdate nameRefused
  dsimp only
  rw [iniTokenGet_fst env _ _ (h "network" fil looked_network)]
  cases hp : (entries "network" fil w).get? id with
  | none =>
    have hv : valueAt "NAME" w (fil,id) = [] := by rw [valueAt,OrdMap.getD,hp]; rfl
    simp [hv]
  | some p =>
    have hv : valueAt "NAME" w (fil,id) = p.val "NAME" := by rw [valueAt,OrdMap.getD,hp]; rfl
    dsimp only
    rw [check_held env (hq.fresh h),heldIn_congr hq.reg,Bool.not_not,hv]
    split
    · rename_i hc
      simpa using hc
    · rename_i hc
      refine ⟨fun hr => ?_,fun hr => absurd hr hc⟩
      split at hr
      · simp at hr
      · unfold fileSave at hr
        split at hr <;> simp at hr

/-- The parameters of an update with the names and the addresses it gives. -/
structure Gives (data : Params) (es : List (Str × Str)) : Prop where
  writable : WritableData data
  values : ∀ k ∈ identityKeys, data.get? k = OrdMap.lookup k es

theorem identityKeys_shown : ∀ k ∈ identityKeys, skipped k = false := by decide

theorem updated_get {p data : Params} {k : Str} (hk : skipped k = false) :
    (updated p data).val k = ((data.get? k).map carried).getD (p.val k) := by
  rw [updated,setAll_val,carriedParams,OrdMap.get?_mapEntries]
  cases data.get? k with
  | none => rfl
  | some v => rw [Option.map_some,Option.map_some,carriedValue,hk]; rfl

theorem update_puts {w : World} (h : Sound w) {fil : Str} (hf : fil ∈ netFiles) (id : Str) {data : Params}
    {es : List (Str × Str)} (hd : Gives data es) :
    ((iniTokenUpdate env "network" fil id data w).1 ≠ .ok →
      Same w (iniTokenUpdate env "network" fil id data w).2) ∧
    ((iniTokenUpdate env "network" fil id data w).1 = .ok →
      Puts (fil,id) es w (iniTokenUpdate env "network" fil id data w).2) := by
  obtain ⟨hs,ho,hr,hok⟩ := update_read env h hf id hd.writable
  refine ⟨fun hn => ⟨hs,fun k _ y _ => valueAt_congr (hr hn) k y⟩,fun he => ⟨hs,fun k hk y hy => ?_⟩⟩
  obtain ⟨p,hp,hent⟩ := hok he
  have hsk := identityKeys_shown k hk
  by_cases hfy : fil = y.1
  · subst hfy
    by_cases hyi : id = y.2
    · subst hyi
      rw [if_pos rfl,valueAt,hent,OrdMap.getD,OrdMap.get?_set_self,Option.getD_some,readBack_val _ hsk,
        ← updated,updated_get hsk,hd.values k hk,valueAt,OrdMap.getD,hp]
      rfl
    · have hne : y ≠ (y.1,id) := fun hh => hyi (congrArg Prod.snd hh).symm
      rw [if_neg hne,valueAt,hent,OrdMap.getD,OrdMap.get?_set_ne _ _ hyi]
      rfl
  · have hne : y ≠ (fil,id) := fun hh => hfy (congrArg Prod.fst hh).symm
    rw [if_neg hne,valueAt,ho y.1 hfy]
    rfl

def nameGiven (es : List (Str × Str)) : Str := (OrdMap.lookup ("NAME" : Str) es).getD []

theorem Gives.name {data : Params} {es : List (Str × Str)} (h : Gives data es) : data.val "NAME" = nameGiven es := by
  rw [Params.val,OrdMap.getD,h.values "NAME" (by decide)]
  rfl

/-- What a command's write comes to: nothing, said to be done only if the name was refused, or the values. -/
theorem write_cases {w : World} (h : Sound w) {fil : Str} (hf : fil ∈ netFiles) (id : Str) {data : Params}
    {es : List (Str × Str)} (hd : Gives data es) :
    (Same w (write env fil id data w).2 ∧
      ((write env fil id data w).1 = true → nameRefused (fil,id) (nameGiven es) w = true)) ∨
    nameRefused (fil,id) (nameGiven es) w = false ∧ Puts (fil,id) es w (write env fil id data w).2 := by
  obtain ⟨hsame,hputs⟩ := update_puts env h hf id hd
  have hx := @update_nameExists env w h.fresh fil id data
  rw [hd.name] at hx
  unfold write
  split
  · exact Or.inl ⟨(Quiet.refl w).same h,by simp⟩
  · cases hret : (iniTokenUpdate env "network" fil id data w).1 with
    | ok =>
      refine Or.inr ⟨?_,hputs hret⟩
      rw [← Bool.not_eq_true,← hx,hret]
      simp
    | fail => exact Or.inl ⟨hsame (by simp [hret]),fun hb => by simp [hret] at hb⟩
    | nameExists => exact Or.inl ⟨hsame (by simp [hret]),fun _ => hx.mp hret⟩

/-- The commands that give names and addresses; `goOn` is the answer to a ping. -/
inductive IdentityOp
  | addStatic (id name ip nmask note : Str) (goOn : Bool)
  | addVlan (id name tag ip nmask note : Str) (goOn : Bool)
  | addDhcp (id name note : Str)
  | addPppoe (id name note : Str)
  | setName (type id name : Str)
  | setAddress (type id ip : Str) (goOn : Bool)
  | addVip (id name ip nmask note : Str) (goOn : Bool)
  | setVipName (id name : Str)
  | setVipAddress (id ip : Str) (goOn : Bool)

/-- What the command returns, and the state after it. -/
def IdentityOp.run : IdentityOp → World → Option (Bool × World)
  | .addStatic id name ip nmask note goOn, w =>
    some (interfacesAddStatic env id name ip note ⟨checkIp v6 ip,goOn⟩ (Ipcalc.ip v6.is ip nmask) w)
  | .addVlan id name tag ip nmask note goOn, w =>
    some (interfacesAddVlan env id name tag ip note ⟨checkIp v6 ip,goOn⟩ (Ipcalc.ip v6.is ip nmask) w)
  | .addDhcp id name note, w => some (interfacesAddDhcp env id name note w)
  | .addPppoe id name note, w => some (interfacesAddPppoe env id name note w)
  | .setName type id name, w => some (interfacesSetName env type id name w)
  | .setAddress type id ip goOn, w => some (interfacesSetAddress env type id ip ⟨checkIp v6 ip,goOn⟩ w)
  | .addVip id name ip nmask note goOn, w =>
    Interfaces.addVip env id name ip note ⟨checkIp v6 ip,goOn⟩ (Ipcalc.ip v6.is ip nmask) w
  | .setVipName id name, w => some (Interfaces.setVipName pcre env id name w)
  | .setVipAddress id ip goOn, w => some (Interfaces.setVipAddress env id ip ⟨checkIp v6 ip,goOn⟩ w)

def IdentityOp.given : IdentityOp → List (Str × Str)
  | .addStatic _ name ip _ _ _ => [("NAME",name),("ADDR",ip)]
  | .addVlan _ name _ ip _ _ _ => [("NAME",name),("ADDR",ip)]
  | .addDhcp _ name _ => [("NAME",name),("ADDR",[])]
  | .addPppoe _ name _ => [("NAME",name),("ADDR",[])]
  | .setName _ _ name => [("NAME",name)]
  | .setAddress _ _ ip _ => [("ADDR",ip)]
  | .addVip _ name ip _ _ _ => [("NAME",name),("ADDR",ip)]
  | .setVipName _ name => [("NAME",name)]
  | .setVipAddress _ ip _ => [("ADDR",ip)]

/-- The entry it is about; a new alias has none yet. -/
def IdentityOp.place : IdentityOp → Option Place
  | .addStatic id _ _ _ _ _ => some ("eth.cfg",id)
  | .addVlan id _ _ _ _ _ _ => some ("eth.cfg",id)
  | .addDhcp id _ _ => some ("eth.cfg",id)
  | .addPppoe id _ _ => some ("eth.cfg",id)
  | .setName _ id _ => some ("eth.cfg",id)
  | .setAddress _ id _ _ => some ("eth.cfg",id)
  | .addVip _ _ _ _ _ _ => none
  | .setVipName id _ => some ("additional.cfg",id)
  | .setVipAddress id _ _ => some ("additional.cfg",id)

/-- The entry it has written, that of a new alias included. -/
def IdentityOp.wrote (op : IdentityOp) (w w' : World) : List Place :=
  match op.place with
  | some x => [x]
  | none => ((aliasEntries w').keys.filter fun i => (aliasEntries w).keys.all (· ≠ i)).map (("additional.cfg" : Str),·)

/-- The command says it has gone through, while the update has refused the name. -/
def IdentityOp.refused (op : IdentityOp) (w : World) : Bool := op.place.any fun x => nameRefused x (nameGiven op.given) w

/-- The entries whose address was set by a command, once this one has returned. -/
def IdentityOp.addressed (op : IdentityOp) (w : World) (S : List Place) (r : Bool × World) : List Place :=
  if r.1 && !op.refused w && (OrdMap.lookup ("ADDR" : Str) op.given).isSome then op.wrote w r.2 ++ S else S

def ethTyped (type id : Str) (w : World) : Bool := ofType type ((ethEntries w).getD id ∅)

def IdentityOp.passes : IdentityOp → World → Bool
  | .addStatic _ name ip _ _ goOn, w =>
    checkIp v6 ip && goOn && !heldInBoth "NAME" name w && !heldInBoth "ADDR" ip w
  | .addVlan _ name _ ip _ _ goOn, w =>
    checkIp v6 ip && goOn && !heldInBoth "NAME" name w && !heldInBoth "ADDR" ip w
  | .addDhcp _ name _, w => !heldInBoth "NAME" name w
  | .addPppoe _ name _, w => !heldInBoth "NAME" name w
  | .setName type id name, w => ethTyped type id w && !changeHeld "NAME" name ("eth.cfg",id) w
  | .setAddress type id ip goOn, w =>
    checkIp v6 ip && goOn && ethTyped type id w && !changeHeld "ADDR" ip ("eth.cfg",id) w
  | .addVip _ name ip _ _ goOn, w =>
    checkIp v6 ip && goOn && !heldInEither "NAME" name w && !heldInEither "ADDR" ip w
  | .setVipName id name, w => !changeHeld "NAME" name ("additional.cfg",id) w
  | .setVipAddress id ip goOn, w => checkIp v6 ip && goOn && !changeHeld "ADDR" ip ("additional.cfg",id) w

def IdentityOp.OneLine : IdentityOp → Prop
  | .addStatic _ name _ _ note _ => '\n' ∉ name ∧ '\n' ∉ note
  | .addVlan _ name tag _ _ note _ => '\n' ∉ name ∧ '\n' ∉ tag ∧ '\n' ∉ note
  | .addDhcp _ name note => '\n' ∉ name ∧ '\n' ∉ note
  | .addPppoe _ name note => '\n' ∉ name ∧ '\n' ∉ note
  | .setName _ _ name => '\n' ∉ name
  | .setAddress _ _ _ _ => True
  | .addVip _ name _ _ note _ => '\n' ∉ name ∧ '\n' ∉ note
  | .setVipName _ name => '\n' ∉ name
  | .setVipAddress _ _ _ => True

def Unmoved (k v v' : Str) : Prop := k ∈ identityKeys → v' = v

def Leaves (old new : Str) (w : World) : Prop :=
  ∀ fil ∈ netFiles, ∀ l ∈ linesOf ("network",fil) w, LineRel Unmoved l (removeLine pcre old new l)

/-- What a step must meet. A command that gets past its checks gives an entry no name and no address that another one
has: the checks let it do so when only one of the files has the value, or the entry had none. A new alias is checked
against both files, so that its name only has to be read as it is given. -/
def IdentityOp.Clear (S : List Place) (w : World) (op : IdentityOp) : Prop :=
  op.OneLine ∧ (op.passes v6 w = true → match op.place with
    | some x => op.refused w = false → ∀ k ∈ identityKeys, ∀ v, OrdMap.lookup k op.given = some v →
      ¬ Elsewhere k S w x (carried v)
    | none => carried (nameGiven op.given) = nameGiven op.given)

/-- The entries keep their names and addresses when the references to an alias are rewritten, and they are not
rewritten for a name the update has refused. -/
def IdentityOp.Spares (w : World) (op : IdentityOp) : Prop :=
  match op with
  | .setVipName id name => op.passes v6 w = true → valueAt "NAME" w ("additional.cfg",id) ≠ [] →
    op.refused w = false ∧ Leaves pcre (valueAt "NAME" w ("additional.cfg",id)) name (renamed env id name w)
  | _ => True

def IdentityOp.Safe (S : List Place) (w : World) (op : IdentityOp) : Prop := op.Clear v6 S w ∧ op.Spares pcre v6 env w

/-- A command leaves the names and the addresses, or puts its own into one entry. -/
inductive Outcome (op : IdentityOp) (w : World) (r : Bool × World) : Prop
  | same : Same w r.2 → (r.1 = true → op.refused w = false → op.wrote w r.2 = []) → Outcome op w r
  | puts (x : Place) : op.passes v6 w = true → op.refused w = false → Puts x op.given w r.2 →
    (∀ y ∈ op.wrote w r.2, y = x) → (∀ y, op.place = some y → y = x) → Outcome op w r

theorem Outcome.quiet {op : IdentityOp} {w v : World} (hq : Quiet w v) (h : Sound w) : Outcome v6 op w (false,v) :=
  .same (hq.same h) (by simp)

theorem wrote_placed {op : IdentityOp} {x : Place} (hp : op.place = some x) (w w' : World) : op.wrote w w' = [x] := by
  rw [IdentityOp.wrote,hp]

theorem wrote_new {op : IdentityOp} (hp : op.place = none) (w w' : World) : op.wrote w w' =
    ((aliasEntries w').keys.filter fun i => (aliasEntries w).keys.all (· ≠ i)).map (("additional.cfg" : Str),·) := by
  rw [IdentityOp.wrote,hp]

theorem refused_placed {op : IdentityOp} {x : Place} (hp : op.place = some x) (w : World) :
    op.refused w = nameRefused x (nameGiven op.given) w := by
  rw [IdentityOp.refused,hp,Option.any_some]

/-- The write at the end of a command that has got past its checks. -/
theorem write_outcome {op : IdentityOp} {w v : World} (h : Sound w) (hq : Quiet w v) {fil id : Str}
    (hf : fil ∈ netFiles) (hp : op.place = some (fil,id)) {data : Params} (hd : Gives data op.given)
    (hpass : op.passes v6 w = true) : Outcome v6 op w (write env fil id data v) := by
  have hs := hq.same h
  have hr := refused_placed hp w
  rw [← nameRefused_congr hq.reg] at hr
  rcases write_cases env (h.quiet hq) hf id hd with ⟨hsame,hb⟩ | ⟨hn,hputs⟩
  · exact .same (hs.trans hsame) fun hbt hrf => by rw [hr,hb hbt] at hrf; simp at hrf
  · refine .puts (fil,id) hpass (hr.trans hn) (hs.puts hputs) (fun y hy => ?_) fun y hy => ?_
    · rw [wrote_placed hp] at hy
      exact List.mem_singleton.mp hy
    · rw [hp,Option.some.injEq] at hy
      exact hy.symm

theorem add_outcome {op : IdentityOp} {w : World} (h : Sound w) (id name : Str) (ip : Option (Str × Probe))
    {data : Params} (hp : op.place = some (("eth.cfg" : Str),id))
    (hd : (∀ x ∈ ip, x.2.valid = true) → Gives data op.given)
    (hpass : heldInBoth "NAME" name w = false → (∀ x ∈ ip, x.2.valid = true ∧ x.2.goOn = true ∧
      heldInBoth "ADDR" x.1 w = false) → op.passes v6 w = true) :
    Outcome v6 op w (interfacesAdd env id name ip data w) := by
  rcases interfacesAdd_cases env id name ip data w with ⟨hb,hq⟩ | ⟨v,hq,he,hn,hip⟩
  · exact .same (hq.same h) fun hbt => by rw [hb] at hbt; simp at hbt
  · rw [takenInBoth_held env h.fresh] at hn
    rw [he]
    refine write_outcome v6 env h hq eth_netFile hp (hd fun x hx => (hip x hx).1.1) (hpass hn fun x hx => ?_)
    obtain ⟨⟨hv,hg⟩,u,hu,ha⟩ := hip x hx
    rw [takenInBoth_held env (hu.fresh h.fresh),heldInBoth,heldIn_congr hu.reg,heldIn_congr hu.reg] at ha
    exact ⟨hv,hg,ha⟩

theorem gives_of {es gs : List (Str × Str)} {ks : List Str} (hk : ∀ k ∈ ks, KeyName k) (hn : ks.Nodup)
    (h : es.map Prod.fst = ks) (hv : ∀ e ∈ es, '\n' ∉ e.2)
    (hg : ∀ k ∈ identityKeys, OrdMap.lookup k es = OrdMap.lookup k gs) : Gives (dataOf es) gs :=
  ⟨writableData_of hk h hv,fun k hm => by rw [Ipcalc.get?_dataOf hn h,hg k hm]⟩

theorem identityKeys_forall {P : Str → Prop} (h₁ : P "NAME") (h₂ : P "ADDR") : ∀ k ∈ identityKeys, P k := by
  simpa [identityKeys] using ⟨h₁,h₂⟩

theorem addStatic_outcome {w : World} (h : Sound w) (id name ip nmask note : Str) (goOn : Bool)
    (hl : (IdentityOp.addStatic id name ip nmask note goOn).OneLine) :
    Outcome v6 (.addStatic id name ip nmask note goOn) w
      (interfacesAddStatic env id name ip note ⟨checkIp v6 ip,goOn⟩ (Ipcalc.ip v6.is ip nmask) w) := by
  obtain ⟨hn,ht⟩ := hl
  have hr := fun k => (Ipcalc.ip_read v6.is ip nmask k).2.1
  refine add_outcome v6 env h id name _ rfl (fun hx => ?_) fun h₁ h₂ => ?_
  · have hi := checkIp_read v6 (hx _ rfl)
    refine gives_of staticKeys_keyName staticKeys_nodup rfl (staticEntries_lines hn hi.2.1 hr ht)
      (identityKeys_forall ?_ ?_)
    · rw [IdentityOp.given,OrdMap.lookup_cons_self,OrdMap.lookup_cons_self]
    · simp (disch := decide) only [IdentityOp.given,OrdMap.lookup_cons_self,OrdMap.lookup_cons_ne]
  · obtain ⟨hv,hg,ha⟩ := h₂ _ rfl
    simp only [IdentityOp.passes]
    simp_all

theorem addVlan_outcome {w : World} (h : Sound w) (id name tag ip nmask note : Str) (goOn : Bool)
    (hl : (IdentityOp.addVlan id name tag ip nmask note goOn).OneLine) :
    Outcome v6 (.addVlan id name tag ip nmask note goOn) w
      (interfacesAddVlan env id name tag ip note ⟨checkIp v6 ip,goOn⟩ (Ipcalc.ip v6.is ip nmask) w) := by
  obtain ⟨hn,hg,ht⟩ := hl
  have hr := fun k => (Ipcalc.ip_read v6.is ip nmask k).2.1
  refine add_outcome v6 env h id name _ rfl (fun hx => ?_) fun h₁ h₂ => ?_
  · have hi := checkIp_read v6 (hx _ rfl)
    refine gives_of vlanKeys_keyName vlanKeys_nodup rfl (vlanEntries_lines hn hg hi.2.1 hr ht)
      (identityKeys_forall ?_ ?_)
    · rw [IdentityOp.given,OrdMap.lookup_cons_self,OrdMap.lookup_cons_self]
    · simp (disch := decide) only [IdentityOp.given,OrdMap.lookup_cons_self,OrdMap.lookup_cons_ne]
  · obtain ⟨hv,hg,ha⟩ := h₂ _ rfl
    simp only [IdentityOp.passes]
    simp_all

theorem addDhcp_outcome {w : World} (h : Sound w) (id name note : Str) (hl : (IdentityOp.addDhcp id name note).OneLine) :
    Outcome v6 (.addDhcp id name note) w (interfacesAddDhcp env id name note w) := by
  obtain ⟨hn,ht⟩ := hl
  refine add_outcome v6 env h id name none rfl (fun _ => ?_) fun h₁ _ => by simp [IdentityOp.passes,h₁]
  refine gives_of dhcpKeys_keyName dhcpKeys_nodup rfl (dhcpEntries_lines hn ht) (identityKeys_forall ?_ ?_)
  · rw [IdentityOp.given,OrdMap.lookup_cons_self,OrdMap.lookup_cons_self]
  · simp (disch := decide) only [IdentityOp.given,OrdMap.lookup_cons_self,OrdMap.lookup_cons_ne]

theorem addPppoe_outcome {w : World} (h : Sound w) (id name note : Str)
    (hl : (IdentityOp.addPppoe id name note).OneLine) :
    Outcome v6 (.addPppoe id name note) w (interfacesAddPppoe env id name note w) := by
  obtain ⟨hn,ht⟩ := hl
  rw [interfacesAddPppoe_eq]
  refine add_outcome v6 env h id name none rfl (fun _ => ?_) fun h₁ _ => by simp [IdentityOp.passes,h₁]
  refine gives_of pppoeKeys_keyName pppoeKeys_nodup rfl (pppoeEntries_lines hn ht) (identityKeys_forall ?_ ?_)
  · rw [pppoeEntries,unaddressedEntries,List.cons_append,IdentityOp.given,OrdMap.lookup_cons_self,
      OrdMap.lookup_cons_self]
  · simp (disch := decide) only [pppoeEntries,unaddressedEntries,List.cons_append,IdentityOp.given,
      OrdMap.lookup_cons_self,OrdMap.lookup_cons_ne]

theorem write_missing {w : World} (h : Sound w) {fil : Str} (hf : fil ∈ netFiles) {id : Str} {data : Params}
    {es : List (Str × Str)} (hd : Gives data es) (hn : (entries "network" fil w).get? id = none) :
    (write env fil id data w).1 = false ∧ Same w (write env fil id data w).2 := by
  have hfail : (iniTokenUpdate env "network" fil id data w).1 = .fail := by
    rcases iniTokenUpdate_spec env "network" fil id data (h.fresh _ _ looked_network) with ⟨p,hp,-⟩ | ⟨hr,-⟩
    · rw [hn] at hp
      simp at hp
    · exact hr
  unfold write
  split
  · exact ⟨rfl,(Quiet.refl w).same h⟩
  · exact ⟨by simp [hfail],(update_puts env h hf id hd).1 (by simp [hfail])⟩

theorem gives_one {k v : Str} (hk : k ∈ identityKeys) (hn : '\n' ∉ v) : Gives (dataOf [(k,v)]) [(k,v)] := by
  have hkn : ∀ k ∈ identityKeys, KeyName k := by decide
  exact gives_of (by simpa using hkn k hk) (List.nodup_singleton k) rfl (by simpa using hn) fun _ _ => rfl

theorem changeTaken_changeHeld {w v : World} (h : Fresh w) (hq : Quiet w v) {k : Str} {x : Place} {p : Params}
    (new : Str) (hp : valueAt k w x = p.val k) : (changeTaken env k (p.val k) new v).1 = changeHeld k new x w := by
  rw [changeTaken_held env (hq.fresh h) new ((valueAt_congr hq.reg k x).trans hp),changeHeld,changeHeld,
    valueAt_congr hq.reg,heldInBoth,heldInBoth,heldIn_congr hq.reg,heldIn_congr hq.reg]

theorem valueAt_of {k : Str} {w : World} {x : Place} {p : Params} (hp : (entries "network" x.1 w).get? x.2 = some p) :
    valueAt k w x = p.val k := by
  rw [valueAt,OrdMap.getD,hp]
  rfl

/-- The end of a command that changes a value: the check, the ping, and the write. -/
theorem change_outcome {op : IdentityOp} {w v : World} (h : Sound w) (hq : Quiet w v) {fil id k new : Str}
    (hf : fil ∈ netFiles) (hk : k ∈ identityKeys) (hp : op.place = some (fil,id)) (hg : op.given = [(k,new)])
    (hn : '\n' ∉ new) {p : Params} (hpe : ∀ q, (entries "network" fil w).get? id = some q → q = p) (go : Bool)
    (hpass : ∀ q, (entries "network" fil w).get? id = some q → go = true → changeHeld k new (fil,id) w = false →
      op.passes v6 w = true) :
    Outcome v6 op w (if (changeTaken env k (p.val k) new v).1 || !go then
      (false,(changeTaken env k (p.val k) new v).2)
      else write env fil id (dataOf [(k,new)]) (changeTaken env k (p.val k) new v).2) := by
  have hq' := hq.trans (changeTaken_quiet env k (p.val k) new v)
  have hd : Gives (dataOf [(k,new)]) op.given := hg ▸ gives_one hk hn
  split
  · exact .quiet v6 hq' h
  · rename_i hc
    rw [Bool.not_eq_true,Bool.or_eq_false_iff,Bool.not_eq_false'] at hc
    cases hget : (entries "network" fil w).get? id with
    | none =>
      have hmiss := write_missing env (h.quiet hq') hf hd (by rw [entries_congr _ _ hq'.reg]; exact hget)
      exact .same ((hq'.same h).trans hmiss.2) fun hb => by rw [hmiss.1] at hb; simp at hb
    | some q =>
      obtain rfl := hpe q hget
      rw [changeTaken_changeHeld env h.fresh hq new (@valueAt_of k w (fil,id) q hget)] at hc
      exact write_outcome v6 env h hq' hf hp hd (hpass q hget hc.2 hc.1)

theorem ethTyped_of {type id : Str} {w : World} {q : Params} (hq : (ethEntries w).get? id = some q)
    (h : ofType type q = true) : ethTyped type id w = true := by
  rw [ethTyped,OrdMap.getD,hq]
  exact h

theorem interfaceOf_outcome {op : IdentityOp} {type id : Str} {w : World} (h : Sound w)
    (f : Params → World → Bool × World)
    (hf : ∀ p v, Quiet w v → (∀ q, (ethEntries w).get? id = some q → q = p ∧ ethTyped type id w = true) →
      Outcome v6 op w (f p v)) :
    Outcome v6 op w (match interfaceOf env type id w with
      | (none,v) => ((false,v) : Bool × World)
      | (some p,v) => f p v) := by
  have hq := interfaceOf_quiet env type id w
  generalize hi : interfaceOf env type id w = r at hq
  rcases r with ⟨_ | p,v⟩
  · exact .quiet v6 hq h
  · refine hf p v hq fun q hget => ?_
    obtain ⟨rfl,ht⟩ := interfaceOf_entry env h.fresh hi hget
    exact ⟨rfl,ethTyped_of hget ht⟩

theorem setName_outcome {w : World} (h : Sound w) (type id name : Str) (hn : '\n' ∉ name) :
    Outcome v6 (.setName type id name) w (interfacesSetName env type id name w) := by
  refine interfaceOf_outcome v6 env h _ fun p v hq hpe => ?_
  have ho := @change_outcome v6 env (.setName type id name) w v h hq "eth.cfg" id "NAME" name eth_netFile (by decide)
    rfl rfl hn p (fun q hget => (hpe q hget).1) true fun q hget _ hc => by
      simp [IdentityOp.passes,(hpe q hget).2,hc]
  simpa using ho

theorem setAddress_outcome {w : World} (h : Sound w) (type id ip : Str) (goOn : Bool) :
    Outcome v6 (.setAddress type id ip goOn) w (interfacesSetAddress env type id ip ⟨checkIp v6 ip,goOn⟩ w) := by
  refine interfaceOf_outcome v6 env h _ fun p v hq hpe => ?_
  dsimp only
  split
  · exact .quiet v6 hq h
  · rename_i hv
    rw [Bool.not_eq_true,Bool.not_eq_false'] at hv
    exact change_outcome v6 env h hq eth_netFile (by decide) rfl rfl (checkIp_read v6 hv).2.1
      (fun q hget => (hpe q hget).1) goOn fun q hget hg hc => by
        simp [IdentityOp.passes,(hpe q hget).2,hc,hg,hv]

theorem vipOf_outcome {op : IdentityOp} {id : Str} {w : World} (h : Sound w) (f : Params → World → Bool × World)
    (hf : ∀ p v, Quiet w v → (∀ q, (aliasEntries w).get? id = some q → q = p) → Outcome v6 op w (f p v)) :
    Outcome v6 op w (match vipOf env id w with
      | (none,v) => ((false,v) : Bool × World)
      | (some p,v) => f p v) := by
  have hq := vipOf_quiet env id w
  generalize hi : vipOf env id w = r at hq
  rcases r with ⟨_ | p,v⟩
  · exact .quiet v6 hq h
  · exact hf p v hq fun q hget => (vipOf_some env h.fresh hi hget).symm

theorem alias_netFile : ("additional.cfg" : Str) ∈ netFiles := by decide

theorem setVipAddress_outcome {w : World} (h : Sound w) (id ip : Str) (goOn : Bool) :
    Outcome v6 (.setVipAddress id ip goOn) w (Interfaces.setVipAddress env id ip ⟨checkIp v6 ip,goOn⟩ w) := by
  refine vipOf_outcome v6 env h _ fun p v hq hpe => ?_
  dsimp only
  split
  · exact .quiet v6 hq h
  · rename_i hv
    rw [Bool.not_eq_true,Bool.not_eq_false'] at hv
    exact change_outcome v6 env h hq alias_netFile (by decide) rfl rfl (checkIp_read v6 hv).2.1 hpe goOn
      fun q hget hg hc => by simp [IdentityOp.passes,hc,hg,hv]

theorem Leaves.congr {old new : Str} {w w' : World} (h : w'.reg = w.reg) (hl : Leaves pcre old new w) :
    Leaves pcre old new w' := by
  intro fil hf l hm
  refine hl fil hf l ?_
  rwa [linesOf,text,h] at hm

theorem unmoved_value {p p' : Params} {k : Str} (h : OrdMap.Rel Unmoved p p') (hk : k ∈ identityKeys) :
    p'.val k = p.val k := by
  unfold Params.val OrdMap.getD
  rcases h.get? k with ⟨h₁,h₂⟩ | ⟨v,v',h₁,h₂,hr⟩
  · rw [h₁,h₂]
  · rw [h₁,h₂,hr hk]

theorem remove_same {w : World} (h : Sound w) {old new : Str} (hl : Leaves pcre old new w) :
    Same w (iniTokenRemove pcre env old new w) := by
  have hfresh := iniTokenRemove_fresh pcre env old new h.fresh
  by_cases hs : env.strg = true
  · have hd : ∀ n, Unmoved dataId n n := fun _ _ => rfl
    have rel := fun fil hf => iniTokenRemove_rel pcre env hd hs (netFiles_cfg fil hf) (hl fil hf)
    refine ⟨⟨⟨fun fil hf => (rel fil hf).2 (h.plain fil hf),
      fun fil hf => iniTokenRemove_ended pcre env old new "network" fil (h.ended fil hf)⟩,hfresh⟩,fun k hk y hy => ?_⟩
    unfold valueAt OrdMap.getD
    rcases (rel y.1 hy).1.get? y.2 with ⟨h₁,h₂⟩ | ⟨p,p',h₁,h₂,hr⟩
    · rw [h₁,h₂]
    · rw [h₁,h₂]
      exact unmoved_value hr hk
  · have ht : ∀ fil, text "network" fil (iniTokenRemove pcre env old new w) = text "network" fil w := fun fil => by
      have hr := text_iniTokenRemove pcre env old new ("network",fil) w
      simp only [removeFile,hs,Bool.and_false,Bool.false_and,Bool.false_eq_true,if_false] at hr
      exact hr
    refine ⟨⟨h.toWritten.congr ht,hfresh⟩,fun k _ y _ => ?_⟩
    rw [valueAt,valueAt,entries,entries,ht]

theorem setVipName_outcome {w : World} (h : Sound w) (id name : Str) {S : List Place}
    (hs : (IdentityOp.setVipName id name).Safe pcre v6 env S w) :
    Outcome v6 (.setVipName id name) w (Interfaces.setVipName pcre env id name w) := by
  obtain ⟨⟨hn,-⟩,hrm⟩ := hs
  replace hn : '\n' ∉ name := hn
  refine vipOf_outcome v6 env h _ fun p v hq hpe => ?_
  have hq' := hq.trans (changeTaken_quiet env "NAME" (p.val "NAME") name v)
  have hd : Gives (dataOf [(("NAME" : Str),name)]) (IdentityOp.setVipName id name).given := gives_one (by decide) hn
  dsimp only
  split
  · exact .quiet v6 hq' h
  · rename_i hc
    rw [Bool.not_eq_true] at hc
    have hsound := h.quiet hq'
    cases hget : (aliasEntries w).get? id with
    | none =>
      have hmiss := write_missing env hsound alias_netFile hd (by rw [entries_congr _ _ hq'.reg]; exact hget)
      rw [hmiss.1]
      exact .same ((hq'.same h).trans hmiss.2) fun hb => by simp [hmiss.1] at hb
    | some q =>
      obtain rfl := hpe q hget
      have hv : valueAt "NAME" w (("additional.cfg" : Str),id) = q.val "NAME" :=
        @valueAt_of "NAME" w ("additional.cfg",id) q hget
      rw [changeTaken_changeHeld env h.fresh hq name hv] at hc
      have hpass : (IdentityOp.setVipName id name).passes v6 w = true := by simp [IdentityOp.passes,hc]
      have ho := write_outcome v6 env h hq' alias_netFile rfl hd hpass
      split
      · rename_i hcond
        rw [Bool.and_eq_true,Bool.not_eq_true',null_false_iff] at hcond
        obtain ⟨hrf,hleave⟩ := hrm hpass (by rw [hv]; exact hcond.2)
        rw [hv] at hleave
        have hw : write env "additional.cfg" id (dataOf [("NAME",name)])
            (changeTaken env "NAME" (q.val "NAME") name v).2 = (decide ((iniTokenUpdate env "network" "additional.cfg"
              id (dataOf [("NAME",name)]) (changeTaken env "NAME" (q.val "NAME") name v).2).1 ≠ .fail),
            (iniTokenUpdate env "network" "additional.cfg" id (dataOf [("NAME",name)])
              (changeTaken env "NAME" (q.val "NAME") name v).2).2) := by
          rw [write,if_neg (by simp [dataOf,OrdMap.setAll,OrdMap.isEmpty_iff,OrdMap.set_ne_empty])]
        -- the name was not refused, so that the update is done
        have hex := @update_nameExists env _ hsound.fresh "additional.cfg" id (dataOf [("NAME",name)])
        rw [hd.name,nameRefused_congr hq'.reg,← refused_placed (x := ("additional.cfg",id)) rfl w,hrf] at hex
        have hok : (iniTokenUpdate env "network" "additional.cfg" id (dataOf [("NAME",name)])
            (changeTaken env "NAME" (q.val "NAME") name v).2).1 = .ok := by
          have hb := hcond.1
          rw [hw] at hb
          cases hret : (iniTokenUpdate env "network" "additional.cfg" id (dataOf [("NAME",name)])
            (changeTaken env "NAME" (q.val "NAME") name v).2).1 with
          | ok => rfl
          | fail => simp [hret] at hb
          | nameExists => simp [hret] at hex
        have hreg : (write env "additional.cfg" id (dataOf [("NAME",name)])
            (changeTaken env "NAME" (q.val "NAME") name v).2).2.reg = (renamed env id name w).reg := by
          rw [hw]
          exact update_renamed env (hsound.fresh _ _ looked_network) hq'.reg hok
        cases ho with
        | same _ hb => exact absurd (hb hcond.1 hrf) (by simp [IdentityOp.wrote,IdentityOp.place])
        | puts x h₁ h₂ h₃ h₄ h₅ =>
          refine .puts x h₁ h₂ (h₃.same (remove_same pcre env h₃.sound ?_)) h₄ h₅
          exact hleave.congr pcre hreg
      · exact ho

theorem save_puts {w : World} (h : Sound w) (es : List (Str × Str)) {data : Params} (hd : NewData data)
    (hg : ∀ k ∈ identityKeys, data.get? k = OrdMap.lookup k es) (ha : ∀ k ∈ identityKeys, OrdMap.lookup k es ≠ none)
    {r : Ret × World} (hr : iniTokenSave env "network" "additional.cfg" data w = some r) :
    (Same w r.2 ∧ (aliasEntries r.2).keys = (aliasEntries w).keys) ∨
    ∃ n, Puts ("additional.cfg",n) es w r.2 ∧ ∀ i ∈ (aliasEntries r.2).keys, i ∈ (aliasEntries w).keys ∨ i = n := by
  obtain ⟨hs,ho,hreg | ⟨n,hn,he⟩⟩ := save_read env h alias_netFile hd hr
  · exact Or.inl ⟨⟨hs,fun k _ y _ => valueAt_congr hreg k y⟩,by rw [aliasEntries,entries_congr _ _ hreg]⟩
  · refine Or.inr ⟨n,⟨hs,fun k hk y hy => ?_⟩,fun i hi => ?_⟩
    · have hsk := identityKeys_shown k hk
      by_cases hfy : ("additional.cfg" : Str) = y.1
      · obtain ⟨f,i⟩ := y
        subst hfy
        by_cases hi : n = i
        · subst hi
          obtain ⟨v,hv⟩ := Option.ne_none_iff_exists'.mp (ha k hk)
          rw [if_pos rfl,valueAt,he,OrdMap.getD,OrdMap.get?_set_self,Option.getD_some,readBack_val _ hsk,Params.val,
            OrdMap.getD,carriedParams,OrdMap.get?_mapEntries,hg k hk,hv,Option.map_some,Option.map_some,carriedValue,hsk]
          rfl
        · rw [if_neg fun hh => hi (congrArg Prod.snd hh).symm,valueAt,he,OrdMap.getD,OrdMap.get?_set_ne _ _ hi]
          rfl
      · rw [if_neg fun hh => hfy (congrArg Prod.fst hh).symm,valueAt,ho y.1 hfy]
        rfl
    · rw [aliasEntries,he] at hi
      exact (OrdMap.mem_keys_set _ _).mp hi

def vipAddKeys : List Str := ["NAME","PNAME","STAT","ADDR","MASK","PREF","INET","NOTE"]

theorem vipAddKeys_new : ∀ k ∈ vipAddKeys, KeyName k ∧ skipped k = false := by decide

theorem vipAddKeys_nodup : vipAddKeys.Nodup := by decide

theorem vipData_get? (name pname stat ip mask pref inet note : Str) : ∀ k ∈ identityKeys,
    (dataOf [("NAME",name),("PNAME",pname),("STAT",stat),("ADDR",ip),("MASK",mask),("PREF",pref),("INET",inet),
      ("NOTE",note)]).get? k = OrdMap.lookup k [(("NAME" : Str),name),("ADDR",ip)] := by
  have hl := fun k => @Ipcalc.get?_dataOf [("NAME",name),("PNAME",pname),("STAT",stat),("ADDR",ip),("MASK",mask),
    ("PREF",pref),("INET",inet),("NOTE",note)] vipAddKeys vipAddKeys_nodup rfl k
  exact identityKeys_forall (hl _) (hl _)

theorem newData_of {es : List (Str × Str)} {ks : List Str} (hk : ∀ k ∈ ks, KeyName k ∧ skipped k = false)
    (h : es.map Prod.fst = ks) (hv : ∀ e ∈ es, '\n' ∉ e.2) : NewData (dataOf es) := by
  intro x hx
  rcases mem_setAll hx with hx | hx
  · exact absurd hx List.not_mem_nil
  · exact ⟨hk x.1 (h ▸ List.mem_map_of_mem hx),hv x hx⟩

theorem addVip_outcome {w : World} (h : Sound w) (id name ip nmask note : Str) (goOn : Bool)
    (hl : (IdentityOp.addVip id name ip nmask note goOn).OneLine) {r : Bool × World}
    (hr : Interfaces.addVip env id name ip note ⟨checkIp v6 ip,goOn⟩ (Ipcalc.ip v6.is ip nmask) w = some r) :
    Outcome v6 (.addVip id name ip nmask note goOn) w r := by
  have hq := takenInEither_quiet env "NAME" name w
  have hq' := hq.trans (takenInEither_quiet env "ADDR" ip _)
  have hq'' := hq'.trans (byparam_quiet env "eth.cfg" "ID" id ∅ _)
  have hn := takenInEither_held env h.fresh "NAME" name
  have ha := takenInEither_held env (hq.fresh h.fresh) "ADDR" ip
  unfold Interfaces.addVip at hr
  dsimp only at hr
  split at hr
  · obtain rfl := Option.some.inj hr
    exact .quiet v6 (Quiet.refl w) h
  · rename_i hv
    rw [Bool.not_eq_true,Bool.not_eq_false'] at hv
    split at hr
    · obtain rfl := Option.some.inj hr
      exact .quiet v6 hq h
    · rename_i ht
      rw [hn,Bool.not_eq_true] at ht
      split at hr
      · obtain rfl := Option.some.inj hr
        exact .quiet v6 hq' h
      · rename_i hc
        rw [ha,Bool.not_eq_true,Bool.or_eq_false_iff,Bool.not_eq_false'] at hc
        split at hr
        · obtain rfl := Option.some.inj hr
          exact .quiet v6 hq'' h
        · rename_i hp
          obtain ⟨-,hpn⟩ := byparam_name env "ID" id (hq'.fresh h.fresh) (by simpa using hp)
          obtain ⟨s,hs,rfl⟩ := Option.map_eq_some_iff.mp hr
          have hres := fun k => (Ipcalc.ip_read v6.is ip nmask k).2.1
          have hpass : (IdentityOp.addVip id name ip nmask note goOn).passes v6 w = true := by
            have hheld : heldInEither "ADDR" ip w = false := by
              rw [← hc.1,heldInEither,heldInEither,heldIn_congr hq.reg,heldIn_congr hq.reg]
            simp [IdentityOp.passes,hv,ht,hc.2,hheld]
          have hrf : (IdentityOp.addVip id name ip nmask note goOn).refused w = false := rfl
          have hsame := hq''.same h
          have hkeys : (aliasEntries w).keys = (aliasEntries (iniTokenGetByparam env "network" "eth.cfg" "ID" id ∅
              (takenInEither env "ADDR" ip (takenInEither env "NAME" name w).2).2).2).keys := by
            rw [aliasEntries,aliasEntries,entries_congr _ _ hq''.reg]
          rcases save_puts env hsame.sound [("NAME",name),("ADDR",ip)] (newData_of vipAddKeys_new rfl (by
            simp only [List.forall_mem_cons]
            exact ⟨hl.1,hpn.2.1,by decide,(checkIp_read v6 hv).2.1,hres _,hres _,hres _,hl.2,by simp⟩))
            (vipData_get? name _ _ ip _ _ _ _) (identityKeys_forall (by simp [OrdMap.lookup]) (by
              rw [OrdMap.lookup,if_neg (by decide),OrdMap.lookup,if_pos rfl]
              simp)) hs with ⟨hsm,hk⟩ | ⟨n,hputs,hk⟩
          · refine .same (hsame.trans hsm) fun _ _ => ?_
            rw [wrote_new rfl,hk,hkeys,List.filter_eq_nil_iff.mpr (by simp),List.map_nil]
          · refine .puts ("additional.cfg",n) hpass hrf (hsame.puts hputs) (fun y hy => ?_) fun y hy => by
              simp [IdentityOp.place] at hy
            rw [wrote_new rfl,hkeys] at hy
            obtain ⟨i,hi,rfl⟩ := List.mem_map.mp hy
            obtain ⟨hi,hnew⟩ := List.mem_filter.mp hi
            rcases hk i hi with hi | rfl
            · simp only [List.all_eq_true,decide_eq_true_eq] at hnew
              exact absurd rfl (hnew i hi)
            · rfl

/-- The registry, and the entries whose address a command has set. -/
structure Marked where
  world : World
  set : List Place

/-- No two entries of the two files have the same name, or the same address where commands set both. -/
structure Distinct (s : Marked) : Prop where
  sound : Sound s.world
  apart : ∀ k ∈ identityKeys, Apart k s.set s.world

theorem checkIp_carried {ip : Str} (h : checkIp v6 ip = true) : carried ip = ip := by
  have hr := checkIp_read v6 h
  exact carried_eq hr.1 hr.2.2

theorem run_outcome {op : IdentityOp} {w : World} {S : List Place} {r : Bool × World} (h : Sound w)
    (hs : op.Safe pcre v6 env S w) (hr : op.run pcre v6 env w = some r) : Outcome v6 op w r := by
  cases op with
  | addStatic id name ip nmask note goOn =>
    obtain rfl := Option.some.inj hr
    exact addStatic_outcome v6 env h id name ip nmask note goOn hs.1.1
  | addVlan id name tag ip nmask note goOn =>
    obtain rfl := Option.some.inj hr
    exact addVlan_outcome v6 env h id name tag ip nmask note goOn hs.1.1
  | addDhcp id name note =>
    obtain rfl := Option.some.inj hr
    exact addDhcp_outcome v6 env h id name note hs.1.1
  | addPppoe id name note =>
    obtain rfl := Option.some.inj hr
    exact addPppoe_outcome v6 env h id name note hs.1.1
  | setName type id name =>
    obtain rfl := Option.some.inj hr
    exact setName_outcome v6 env h type id name hs.1.1
  | setAddress type id ip goOn =>
    obtain rfl := Option.some.inj hr
    exact setAddress_outcome v6 env h type id ip goOn
  | addVip id name ip nmask note goOn => exact addVip_outcome v6 env h id name ip nmask note goOn hs.1.1 hr
  | setVipName id name =>
    obtain rfl := Option.some.inj hr
    exact setVipName_outcome pcre v6 env h id name hs
  | setVipAddress id ip goOn =>
    obtain rfl := Option.some.inj hr
    exact setVipAddress_outcome v6 env h id ip goOn

/-- What a command that meets its condition gives an entry, no other entry has. -/
theorem given_elsewhere {op : IdentityOp} {w : World} {S : List Place} (hs : op.Safe pcre v6 env S w)
    (hp : op.passes v6 w = true) (hr : op.refused w = false) {x : Place} (hx : ∀ y, op.place = some y → y = x) :
    ∀ k ∈ identityKeys, ∀ v, OrdMap.lookup k op.given = some v → ¬ Elsewhere k S w x (carried v) := by
  have hsafe := hs.1.2 hp
  cases hpl : op.place with
  | some y =>
    rw [hpl] at hsafe
    obtain rfl := hx y hpl
    exact hsafe hr
  | none =>
    -- a new alias: its name and its address are in neither file
    rw [hpl] at hsafe
    cases op with
    | addVip id name ip nmask note goOn =>
      simp only [IdentityOp.passes,Bool.and_eq_true,Bool.not_eq_true'] at hp
      refine identityKeys_forall (fun v hv he => ?_) fun v hv he => ?_
      · obtain rfl : name = v := by simpa [IdentityOp.given,OrdMap.lookup] using hv
        rw [show carried name = name from hsafe] at he
        rw [heldIn_of_elsewhere he] at hp
        simp at hp
      · obtain rfl : ip = v := by simpa [IdentityOp.given,OrdMap.lookup,Str.of_ascii] using hv
        rw [checkIp_carried v6 hp.1.1.1] at he
        rw [heldIn_of_elsewhere he] at hp
        simp at hp
    | _ => simp [IdentityOp.place] at hpl

theorem step_distinct {op : IdentityOp} {s : Marked} {r : Bool × World} (h : Distinct s)
    (hs : op.Safe pcre v6 env s.set s.world) (hr : op.run pcre v6 env s.world = some r) :
    Distinct ⟨r.2,op.addressed s.world s.set r⟩ := by
  cases run_outcome pcre v6 env h.sound hs hr with
  | same hsame hw =>
    have hS : op.addressed s.world s.set r = s.set := by
      unfold IdentityOp.addressed
      split
      · rename_i hc
        simp only [Bool.and_eq_true,Bool.not_eq_true'] at hc
        rw [hw hc.1.1 hc.1.2,List.nil_append]
      · rfl
    rw [hS]
    exact ⟨hsame.sound,fun k hk => hsame.apart hk (h.apart k hk)⟩
  | puts x hp hrf hputs hw hx =>
    refine ⟨hputs.sound,fun k hk => hputs.apart hk (h.apart k hk)
      (given_elsewhere pcre v6 env hs hp hrf hx k hk) fun y hy => ?_⟩
    by_cases ha : k = ("ADDR" : Str)
    · have hm := hy ha
      unfold IdentityOp.addressed at hm
      split at hm
      · rename_i hc
        simp only [Bool.and_eq_true] at hc
        rcases List.mem_append.mp hm with hm | hm
        · exact Or.inr ⟨hw y hm,ha ▸ hc.2⟩
        · exact Or.inl fun _ => hm
      · exact Or.inl fun _ => hm
    · exact Or.inl fun hh => absurd hh ha

/-- The commands in any order; those that are refused are among them. -/
def identitySystem : System Marked (Env × IdentityOp) where
  init := Distinct
  step s t s' := ∃ r, t.2.run pcre v6 t.1 s.world = some r ∧ s' = ⟨r.2,t.2.addressed s.world s.set r⟩

def distinctSystem : System Marked (Env × IdentityOp) where
  init := Distinct
  step s t s' := (identitySystem pcre v6).step s t s' ∧ t.2.Safe pcre v6 t.1 s.set s.world

theorem identity_unique {s s' : Marked} {ts : List (Env × IdentityOp)} (hi : (distinctSystem pcre v6).init s)
    (hr : System.Run (distinctSystem pcre v6) s ts s') :
    Apart "NAME" s'.set s'.world ∧ Apart "ADDR" s'.set s'.world := by
  have step : ∀ u t v, Distinct u → (distinctSystem pcre v6).step u t v → Distinct v := by
    rintro u t v hu ⟨⟨r,hrun,rfl⟩,hs⟩
    exact step_distinct pcre v6 t.1 hu hs hrun
  have h : Distinct s' := hr.invariant step hi
  exact ⟨h.apart _ (by decide),h.apart _ (by decide)⟩

instance (k : Str) (S : List Place) (x : Place) : Decidable (Counts k S x) := inferInstanceAs (Decidable (_ → _))

instance (k : Str) (S : List Place) (w : World) (x : Place) (v : Str) : Decidable (Elsewhere k S w x v) :=
  inferInstanceAs (Decidable (_ ∧ ∃ fil ∈ netFiles, ∃ e ∈ (entries "network" fil w).entries, _))

instance (op : IdentityOp) : Decidable op.OneLine :=
  match op with
  | .addStatic _ _ _ _ _ _ => inferInstanceAs (Decidable (_ ∧ _))
  | .addVlan _ _ _ _ _ _ _ => inferInstanceAs (Decidable (_ ∧ _ ∧ _))
  | .addDhcp _ _ _ => inferInstanceAs (Decidable (_ ∧ _))
  | .addPppoe _ _ _ => inferInstanceAs (Decidable (_ ∧ _))
  | .setName _ _ _ => inferInstanceAs (Decidable (¬ _))
  | .setAddress _ _ _ _ => inferInstanceAs (Decidable True)
  | .addVip _ _ _ _ _ _ => inferInstanceAs (Decidable (_ ∧ _))
  | .setVipName _ _ => inferInstanceAs (Decidable (¬ _))
  | .setVipAddress _ _ _ => inferInstanceAs (Decidable True)

instance (S : List Place) (w : World) (op : IdentityOp) : Decidable (op.Clear v6 S w) :=
  have : Decidable (match op.place with
    | some x => op.refused w = false → ∀ k ∈ identityKeys, ∀ v ∈ OrdMap.lookup k op.given,
      ¬ Elsewhere k S w x (carried v)
    | none => carried (nameGiven op.given) = nameGiven op.given) := by
    split <;> infer_instance
  inferInstanceAs (Decidable (_ ∧ (_ → _)))

def Untouched (w : World) : IdentityOp → Prop
  | .setVipName id name => nameRefused ("additional.cfg",id) name w = false ∧ ∀ fil ∈ netFiles,
    ∀ l ∈ linesOf ("network",fil) (renamed env id name w),
      removeLine pcre (valueAt "NAME" w ("additional.cfg",id)) name l = l
  | _ => True

instance (w : World) (op : IdentityOp) : Decidable (Untouched pcre env w op) :=
  match op with
  | .addStatic _ _ _ _ _ _ => inferInstanceAs (Decidable True)
  | .addVlan _ _ _ _ _ _ _ => inferInstanceAs (Decidable True)
  | .addDhcp _ _ _ => inferInstanceAs (Decidable True)
  | .addPppoe _ _ _ => inferInstanceAs (Decidable True)
  | .setName _ _ _ => inferInstanceAs (Decidable True)
  | .setAddress _ _ _ _ => inferInstanceAs (Decidable True)
  | .addVip _ _ _ _ _ _ => inferInstanceAs (Decidable True)
  | .setVipName _ _ => inferInstanceAs (Decidable (_ ∧ ∀ fil ∈ netFiles, ∀ l ∈ linesOf _ _, _))
  | .setVipAddress _ _ _ => inferInstanceAs (Decidable True)

theorem Untouched.spares {w : World} {op : IdentityOp} (h : Untouched pcre env w op) : op.Spares pcre v6 env w := by
  cases op with
  | setVipName id name =>
    refine fun _ _ => ⟨h.1,fun fil hf l hl => ?_⟩
    rw [h.2 fil hf l hl]
    exact .same fun _ _ _ _ => rfl
  | _ => trivial

def afterCommand (op : IdentityOp) (s : Marked) : Marked :=
  match op.run Pcre.plain ipv4Only noonEnv s.world with
  | some r => ⟨r.2,op.addressed s.world s.set r⟩
  | none => s

def afterCommands (ops : List IdentityOp) (s : Marked) : Marked := ops.foldl (fun s op => afterCommand op s) s

def ClearTurns : List IdentityOp → Marked → Prop
  | [], _ => True
  | op::ops, s => (op.run Pcre.plain ipv4Only noonEnv s.world).isSome ∧ op.Clear ipv4Only s.set s.world ∧
    Untouched Pcre.plain noonEnv s.world op ∧ ClearTurns ops (afterCommand op s)

instance : ∀ (ops : List IdentityOp) (s : Marked), Decidable (ClearTurns ops s)
  | [], _ => inferInstanceAs (Decidable True)
  | _::ops, _ =>
    have := instDecidableClearTurns ops
    inferInstanceAs (Decidable (_ ∧ _ ∧ _ ∧ ClearTurns ops _))

theorem afterCommand_step {op : IdentityOp} {s : Marked} (h : (op.run Pcre.plain ipv4Only noonEnv s.world).isSome) :
    (identitySystem Pcre.plain ipv4Only).step s (noonEnv,op) (afterCommand op s) := by
  obtain ⟨r,hr⟩ := Option.isSome_iff_exists.mp h
  exact ⟨r,hr,by rw [afterCommand,hr]⟩

theorem ClearTurns.run {ops : List IdentityOp} {s : Marked} (h : ClearTurns ops s) :
    System.Run (distinctSystem Pcre.plain ipv4Only) s (ops.map (noonEnv,·)) (afterCommands ops s) := by
  induction ops generalizing s with
  | nil => exact .nil
  | cons op ops ih =>
    obtain ⟨hr,hc,hu,ht⟩ := h
    have hstep : (distinctSystem Pcre.plain ipv4Only).step s (noonEnv,op) (afterCommand op s) :=
      ⟨afterCommand_step hr,hc,hu.spares _ ipv4Only⟩
    exact (System.Run.nil.snoc hstep).append (ih ht)

theorem devices_distinct : Distinct ⟨devicesWorld,[]⟩ := by
  refine ⟨devicesWorld_filling.toSound,identityKeys_forall ?_ fun x _ _ _ hx => absurd (hx rfl) (by simp)⟩
  have hn : ∀ fil ∈ netFiles, ∀ e ∈ (entries "network" fil devicesWorld).entries, e.2.val "NAME" = [] := by
    decide
  intro x y hx _ _ _ hne _
  cases hg : (entries "network" x.1 devicesWorld).get? x.2 with
  | none =>
    rw [valueAt,OrdMap.getD,hg] at hne
    exact absurd rfl hne
  | some p =>
    rw [valueAt_of hg] at hne
    exact absurd (hn x.1 hx (x.2,p) (OrdMap.get?_eq_some.mp hg)) hne

def shopCommands : List IdentityOp := [.addStatic "eth0" "lan" "192.168.1.1" "24" [] true,.addDhcp "eth1" "wan" [],
  .addVip "eth0" "guest" "192.168.2.1" "24" [] true,.setName "static" "eth0" "office",
  .setVipName "0123456789abcdef0123" "visitors",.setAddress "static" "eth0" "192.168.1.254" true]

theorem identity_unique_shop : Apart "NAME" (afterCommands shopCommands ⟨devicesWorld,[]⟩).set
    (afterCommands shopCommands ⟨devicesWorld,[]⟩).world ∧
    Apart "ADDR" (afterCommands shopCommands ⟨devicesWorld,[]⟩).set
    (afterCommands shopCommands ⟨devicesWorld,[]⟩).world := by
  have hs : ClearTurns shopCommands ⟨devicesWorld,[]⟩ := by decide +kernel
  exact identity_unique Pcre.plain ipv4Only devices_distinct hs.run

def twiceCommands : List IdentityOp := [.addStatic "eth0" "lan" "192.168.1.1" "24" [] true,
  .addStatic "eth1" "lan" "192.168.1.1" "24" [] true]

theorem identity_shared : ¬ ∀ (pcre : Pcre) (v6 : Ipv6) (s s' : Marked) (ts : List (Env × IdentityOp)),
    (identitySystem pcre v6).init s → System.Run (identitySystem pcre v6) s ts s' →
    Apart "NAME" s'.set s'.world ∧ Apart "ADDR" s'.set s'.world := by
  intro h
  have hr : System.Run (identitySystem Pcre.plain ipv4Only) ⟨devicesWorld,[]⟩ (twiceCommands.map (noonEnv,·))
      (afterCommands twiceCommands ⟨devicesWorld,[]⟩) :=
    (System.Run.nil.snoc (afterCommand_step rfl)).snoc (afterCommand_step rfl)
  have ha := (h Pcre.plain ipv4Only _ _ _ devices_distinct hr).1
  have hv : valueAt "NAME" (afterCommands twiceCommands ⟨devicesWorld,[]⟩).world ("eth.cfg","eth0") = "lan" ∧
      valueAt "NAME" (afterCommands twiceCommands ⟨devicesWorld,[]⟩).world ("eth.cfg","eth1") = "lan" := by
    decide +kernel
  have he := ha ("eth.cfg","eth0") ("eth.cfg","eth1") eth_netFile eth_netFile (fun hh => absurd hh (by decide))
    (fun hh => absurd hh (by decide)) (by rw [hv.1]; decide) (hv.1.trans hv.2.symm)
  exact absurd (congrArg Prod.snd he) (by decide)

end Interfaces
end Mybox
