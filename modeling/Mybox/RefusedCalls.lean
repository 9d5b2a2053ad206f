import Mybox.CacheCoherence

/-! Calls that write and do not return `TRUE`: the files are as they were, and all that can be lost is the cached
array of the file the call is about. -/
namespace Mybox
namespace Registry
open Php RegistryFormat

variable (pcre : Pcre) (env : Env) {sec fil : Str}

/-- The calls that change a file. -/
inductive Attempt
  | save (data : Params)
  | update (id : Str) (data : Params)
  | delete (id : Str)

def Attempt.run (sec fil : Str) (w : World) : Attempt → Option (Ret × World)
  | save data => iniTokenSave env sec fil data w
  | update id data => some (iniTokenUpdate env sec fil id data w)
  | delete id => some (iniTokenDelete pcre env sec fil id w)

/-- `_INI_TOKEN_SAVE` of an empty array returns before it looks at the file. -/
def Attempt.blank : Attempt → Bool
  | save data => data.isEmpty
  | _ => false

/-- What a refused call leaves: the files, and the objects but for the cached array of one file. -/
structure Dropped (sec fil : Str) (w w' : World) : Prop where
  reg : w'.reg = w.reg
  cache : fileArrayGet w' (objName sec fil) = ∅
  spares : Spares sec fil w w'

theorem Dropped.clean {w w' : World} (hr : w'.reg = w.reg) (hs : Spares sec fil w w') :
    Dropped sec fil w (iniObjectClean sec fil w') :=
  ⟨by rw [iniObjectClean_reg,hr],iniObjectClean_cache sec fil w',hs.trans (iniObjectClean_spares w')⟩

theorem Dropped.check {w w' : World} (h : Dropped sec fil w w') (name value : Str) :
    Dropped sec fil w (iniTokenCheck env sec fil name value w').2 :=
  ⟨by rw [iniTokenCheck_reg,h.reg],iniTokenCheck_cache env sec fil name value w',
    h.spares.trans (iniTokenCheck_spares env name value w')⟩

theorem dropped_get (w : World) : Dropped sec fil w (iniObjectClean sec fil (iniTokenGet env sec fil ∅ w).2) :=
  .clean (iniTokenGet_reg env sec fil ∅ w) (iniTokenGet_spares env ∅ w)

theorem update_dropped (hs : env.strg = true) (id : Str) (data : Params) {w : World}
    (hn : (iniTokenUpdate env sec fil id data w).1 ≠ .ok) :
    Dropped sec fil w (iniTokenUpdate env sec fil id data w).2 := by
  have hd := @dropped_get env sec fil w
  have ht := hd.check env "NAME" (data.val "NAME")
  unfold iniTokenUpdate at hn ⊢
  dsimp only at hn ⊢
  split at hn
  · exact hd
  · split at hn
    · rename_i hr
      rw [if_pos hr]
      exact ht
    · rename_i hr
      rw [if_neg hr]
      split at hn
      · rename_i hb
        rw [if_pos hb]
        split
        · exact ht
        · exact hd
      · exact absurd ((fileSave_ok env sec fil).mpr hs) hn

theorem saveEntry_dropped (hs : env.strg = true) (id : Str) (data : Params) {w w' : World} (h : Dropped sec fil w w')
    (hn : (saveEntry env sec fil id data w').1 ≠ .ok) : Dropped sec fil w (saveEntry env sec fil id data w').2 := by
  have ht := h.check env "NAME" (data.val "NAME")
  unfold saveEntry at hn ⊢
  dsimp only at hn ⊢
  split at hn
  · rename_i hr
    rw [if_pos hr]
    exact ht
  · rename_i hr
    rw [if_neg hr]
    split at hn
    · rename_i hb
      rw [if_pos hb]
      split
      · exact h
      · exact ht
    · exact absurd ((fileSave_ok env sec fil).mpr hs) hn

theorem save_dropped (hs : env.strg = true) {data : Params} {w : World} {r : Ret × World}
    (h : iniTokenSave env sec fil data w = some r) (hn : r.1 ≠ .ok) :
    if data.isEmpty then r.2 = w else Dropped sec fil w r.2 := by
  have hd := @dropped_get env sec fil w
  unfold iniTokenSave at h
  split at h
  · rename_i he
    simp only [Option.some.injEq] at h
    rw [if_pos he,← h]
  · rename_i he
    rw [if_neg he]
    dsimp only at h
    split at h
    · obtain ⟨k,-,rfl⟩ := Option.map_eq_some_iff.mp h
      exact saveEntry_dropped env hs k data hd hn
    · split at h <;> simp only [Option.some.injEq] at h <;> subst h
      · exact hd
      · exact saveEntry_dropped env hs _ _ hd hn

theorem delete_dropped (hs : env.strg = true) (id : Str) {w : World}
    (hn : (iniTokenDelete pcre env sec fil id w).1 ≠ .ok) :
    Dropped sec fil w (iniTokenDelete pcre env sec fil id w).2 := by
  have hd := @dropped_get env sec fil w
  unfold iniTokenDelete at hn ⊢
  dsimp only at hn ⊢
  split at hn
  · rename_i he
    rw [if_pos he]
    exact hd
  · split at hn
    · exact absurd rfl hn
    · exact absurd ((fileSave_ok env sec fil).mpr hs) hn

theorem Attempt.dropped (hs : env.strg = true) {a : Attempt} {w : World} {r : Ret × World}
    (hr : a.run pcre env sec fil w = some r) (hn : r.1 ≠ .ok) :
    if a.blank then r.2 = w else Dropped sec fil w r.2 := by
  cases a with
  | save data => exact save_dropped env hs hr hn
  | update id data =>
    obtain rfl := Option.some.inj hr
    exact update_dropped env hs id data hn
  | delete id =>
    obtain rfl := Option.some.inj hr
    exact delete_dropped pcre env hs id hn

theorem Dropped.freshOn {w w' : World} (h : Dropped sec fil w w') (hp : Plainly sec) (hw : FreshOn Plainly w) :
    FreshOn Plainly w' :=
  hw.step (fun _ h => h) hp (Or.inl h.cache) h.spares.frame fun _ _ _ => by rw [text,text,h.reg]

theorem Dropped.hit_iff {w w' : World} (h : Dropped sec fil w w') (hp : Plainly sec) {s f : Str} (hs : Plainly s) :
    Hit s f w' ↔ Hit s f w ∧ (s,f) ≠ (sec,fil) := by
  by_cases he : (s,f) = (sec,fil)
  · obtain ⟨rfl,rfl⟩ := Prod.mk.inj he
    simp [Hit,h.cache]
  · have ho : objName sec fil ≠ objName s f := by
      intro ho
      obtain ⟨rfl,rfl⟩ := objName_inj hp hs ho
      exact he rfl
    simp [Hit,h.spares.frame _ ho,he]

/-- The state after some reads, each into an array of its own. -/
def reads : List (Env × Str × Str) → World → World
  | [], w => w
  | (env,sec,fil)::rs, w => reads rs (iniTokenGet env sec fil ∅ w).2

theorem reads_freshOn {rs : List (Env × Str × Str)} (hp : ∀ r ∈ rs, Plainly r.2.1) {w : World}
    (h : FreshOn Plainly w) : FreshOn Plainly (reads rs w) ∧ (reads rs w).reg = w.reg := by
  induction rs generalizing w with
  | nil => exact ⟨h,rfl⟩
  | cons r rs ih =>
    obtain ⟨env,sec,fil⟩ := r
    rw [List.forall_mem_cons] at hp
    obtain ⟨hf,hr⟩ := ih hp.2 (h.iniTokenGet env (fun _ h => h) hp.1 fil)
    exact ⟨hf,hr.trans (iniTokenGet_reg env sec fil ∅ w)⟩

/-- After a refused call a read returns what it would have returned, exactly if it is not the cached array of this
file that is missing, or the file leaves nothing of the caller's array. -/
theorem read_refused_iff (env' : Env) {w w' : World} {s f : Str} (nt : Token) (hc : Coherent s f w)
    (hc' : Coherent s f w') (hr : w'.reg = w.reg) (hh : Hit s f w' → Hit s f w) :
    (iniTokenGet env' s f nt w').1 = (iniTokenGet env' s f nt w).1 ↔
      (Hit s f w → Hit s f w') ∨ OrdMap.Heads nt (entries s f w) := by
  have he : entries s f w' = entries s f w := entries_congr s f hr
  by_cases h : Hit s f w
  · rw [get_hit env' s f nt hc h]
    rw [← he,get_parse_iff env' s f nt hc']
    simp only [h,true_imp_iff]
  · have h' : ¬ Hit s f w' := fun hx => h (hh hx)
    rw [get_miss env' s f nt h,get_miss env' s f nt h',he]
    simp [h]

/-- A call that does not return `TRUE`, with everything writable, changes no file, and whatever is read after it
into an array of its own is what would have been read. What is read into an array that holds something already
is the same exactly if the call has not dropped the cached array of that file, or the file leaves nothing of it. -/
theorem refused_iff (hs : env.strg = true) {w : World} (hw : FreshOn Plainly w) (hp : Plainly sec) {a : Attempt}
    {r : Ret × World} (hr : a.run pcre env sec fil w = some r) (hn : r.1 ≠ .ok) :
    (∀ s f, text s f r.2 = text s f w) ∧
    (∀ rs : List (Env × Str × Str), (∀ x ∈ rs, Plainly x.2.1) → ∀ env' s f, Plainly s →
      (iniTokenGet env' s f ∅ (reads rs r.2)).1 = (iniTokenGet env' s f ∅ w).1) ∧
    ∀ env' s f nt, Plainly s → ((iniTokenGet env' s f nt r.2).1 = (iniTokenGet env' s f nt w).1 ↔
      a.blank = true ∨ (s,f) ≠ (sec,fil) ∨ ¬ Hit s f w ∨ OrdMap.Heads nt (entries s f w)) := by
  have hd := a.dropped pcre env hs hr hn
  have hreg : r.2.reg = w.reg ∧ FreshOn Plainly r.2 := by
    split at hd
    · rw [hd]
      exact ⟨rfl,hw⟩
    · exact ⟨hd.reg,hd.freshOn hp hw⟩
  refine ⟨fun s f => by rw [text,text,hreg.1],fun rs hrs env' s f hsf => ?_,fun env' s f nt hsf => ?_⟩
  · obtain ⟨hf,he⟩ := reads_freshOn hrs hreg.2
    rw [iniTokenGet_fst env' s f (hf s f hsf),iniTokenGet_fst env' s f (hw s f hsf),entries_congr s f (he.trans hreg.1)]
  · split at hd
    · rename_i hb
      simp [hd,hb]
    · rename_i hb
      have hi := hd.hit_iff hp hsf (f:=f)
      rw [read_refused_iff env' nt (hw s f hsf) (hreg.2 s f hsf) hreg.1 fun hx => (hi.mp hx).1,hi]
      by_cases h : Hit s f w <;> simp [h,hb]

def cachedWorld : World := (iniTokenGet noonEnv "definitions" "weekdays.cfg" ∅ tablesWorld).2

def weekdaysUpdate : Attempt := .update "months" (OrdMap.empty.set ("0" : Str) "Jan")

theorem refused_iff_weekdays :
    (iniTokenGet noonEnv "definitions" "icmptype.cfg" OrdMap.empty
        (iniTokenUpdate noonEnv "definitions" "weekdays.cfg" "months" (OrdMap.empty.set ("0" : Str) "Jan") cachedWorld).2).1 =
      (iniTokenGet noonEnv "definitions" "icmptype.cfg" OrdMap.empty cachedWorld).1 := by
  have hw : FreshOn Plainly cachedWorld := FreshOn.iniTokenGet noonEnv (fun _ h => h) tablesWorld_init (by decide) _
  have h := @refused_iff Pcre.plain noonEnv "definitions" "weekdays.cfg" rfl cachedWorld hw (by decide)
    weekdaysUpdate _ rfl (by decide)
  exact (h.2.2 noonEnv "definitions" "icmptype.cfg" OrdMap.empty (by decide)).mpr (Or.inr (Or.inl (by decide)))

/-- The array still holds another table when the one the refused call was about is read. -/
theorem refused_changes_read : ¬ ∀ (pcre : Pcre) (env : Env) (sec fil : Str) (w : World) (a : Attempt) (r : Ret × World),
    env.strg = true → FreshOn Plainly w → Plainly sec → a.run pcre env sec fil w = some r → r.1 ≠ .ok →
    ∀ env' s f nt, Plainly s → (iniTokenGet env' s f nt r.2).1 = (iniTokenGet env' s f nt w).1 := by
  intro h
  have hw : FreshOn Plainly cachedWorld := FreshOn.iniTokenGet noonEnv (fun _ h => h) tablesWorld_init (by decide) _
  have hx := h Pcre.plain noonEnv "definitions" "weekdays.cfg" cachedWorld weekdaysUpdate _ rfl hw (by decide) rfl
    (by decide) noonEnv "definitions" "weekdays.cfg"
    (iniTokenGet noonEnv "definitions" "icmptype.cfg" ∅ tablesWorld).1 (by decide)
  revert hx
  decide

end Registry
end Mybox
