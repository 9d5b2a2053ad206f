import Mybox.ReadValues

/-! Files of the section of the network that the commands keep in order: they read as they were written, and the cache
agrees with them. What one update and one save do to such files. -/
namespace Mybox
namespace Registry

open Php RegistryFormat References

variable (env : Env)

/-- The files hold what the writers write, and the cache agrees with all files. -/
structure KeptFiles (fils : List Str) (w : World) : Prop where
  plain : ∀ fil ∈ fils, Plain (text "network" fil w)
  ended : ∀ fil ∈ fils, LineEnded (text "network" fil w)
  fresh : Fresh w

variable {env} {fils : List Str} {w : World}

theorem KeptFiles.coherent (h : KeptFiles fils w) (fil : Str) : Coherent "network" fil w :=
  h.fresh "network" fil looked_network

theorem KeptFiles.canonical (h : KeptFiles fils w) {fil : Str} (hf : fil ∈ fils) : Canonical (entries "network" fil w) :=
  readText_canonical (h.plain fil hf)

theorem KeptFiles.congr (h : KeptFiles fils w) {v : World} (hr : v.reg = w.reg) (hv : Fresh v) : KeptFiles fils v where
  plain fil hf := by
    rw [text,hr]
    exact h.plain fil hf
  ended fil hf := by
    rw [text,hr]
    exact h.ended fil hf
  fresh := hv

/-- A call that may replace the text of one file: if it does, the new text is fine too. -/
theorem KeptFiles.rewrite (h : KeptFiles fils w) {fil x : Str} {r : Ret × World} (hr : Rewrites "network" fil w r x)
    (hc : Frame "network" fil w r.2) (hx : r.1 = .ok → Plain x ∧ LineEnded x) : KeptFiles fils r.2 := by
  have hf := hr.fresh hc looked_network h.fresh
  by_cases ho : r.1 = .ok
  · have ht : ∀ fil', text "network" fil' r.2 = if fil' = fil then x else text "network" fil' w := by
      intro fil'
      rw [text,hr.done ho,OrdMap.getD]
      split
      · rename_i he
        rw [he,OrdMap.get?_set_self,Option.getD_some]
      · rename_i he
        rw [OrdMap.get?_set_ne _ _ (by simpa using Ne.symm he)]
        rfl
    refine ⟨fun fil' hm => ?_,fun fil' hm => ?_,hf⟩
    · rw [ht]
      split
      · exact (hx ho).1
      · exact h.plain fil' hm
    · rw [ht]
      split
      · exact (hx ho).2
      · exact h.ended fil' hm
  · exact h.congr (hr.refused ho) hf

/-- An update refuses, or assigns the data to its entry as it is read. -/
theorem KeptFiles.update (env : Env) (h : KeptFiles fils w) {fil : Str} (hf : fil ∈ fils) (id : Str) {data : Params}
    (hd : WritableData data) :
    KeptFiles fils (iniTokenUpdate env "network" fil id data w).2 ∧
    (∀ fil', fil ≠ fil' → entries "network" fil' (iniTokenUpdate env "network" fil id data w).2 =
      entries "network" fil' w) ∧
    ((iniTokenUpdate env "network" fil id data w).1 ≠ .ok →
      (iniTokenUpdate env "network" fil id data w).2.reg = w.reg) ∧
    ((iniTokenUpdate env "network" fil id data w).1 = .ok →
      ∃ p, (entries "network" fil w).get? id = some p ∧
        entries "network" fil (iniTokenUpdate env "network" fil id data w).2 =
          (entries "network" fil w).set id (readBack id (p.setAll (carriedParams data).entries))) := by
  have hc := h.coherent fil
  have hcan := h.canonical hf
  have hfr := @iniTokenUpdate_frame env "network" fil id data w
  obtain ⟨x,hr,hx⟩ : ∃ x, Rewrites "network" fil w (iniTokenUpdate env "network" fil id data w) x ∧
      ((iniTokenUpdate env "network" fil id data w).1 = .ok → Plain x ∧ LineEnded x) := by
    rcases iniTokenUpdate_spec env "network" fil id data hc with ⟨p,hp,hr⟩ | ⟨hn,-,hr⟩
    · rw [merge_eq_setAll] at hr
      have hok := (readText_update env hcan hp hd.carried).1
      exact ⟨_,hr,fun _ => ⟨plain_alike (alike_update env hcan hp hd) (plain_updateText env hok),lineEnded_updateText env _⟩⟩
    · exact ⟨[],hr [],fun ho => by rw [hn] at ho; simp at ho⟩
  refine ⟨h.rewrite hr hfr hx,fun fil' hne => Interfaces.entries_rewrite_ne hr hne,hr.refused,fun ho => ?_⟩
  obtain ⟨p,hp,-,he⟩ := iniTokenUpdate_read env hc hcan id hd ho
  exact ⟨p,hp,he⟩

/-- A save refuses, or adds an entry with the data as it is read. -/
theorem KeptFiles.save (h : KeptFiles fils w) {fil : Str} (hf : fil ∈ fils) {data : Params} (hd : NewData data)
    {r : Ret × World} (hr : iniTokenSave env "network" fil data w = some r) :
    KeptFiles fils r.2 ∧ (∀ fil', fil ≠ fil' → entries "network" fil' r.2 = entries "network" fil' w) ∧
    (r.1 ≠ .ok → r.2.reg = w.reg) ∧
    (r.1 = .ok → ∃ n, (entries "network" fil w).get? n = none ∧
      entries "network" fil r.2 = (entries "network" fil w).set n (readBack n (carriedParams data))) := by
  have hc := h.coherent fil
  have hl := h.ended fil hf
  have hfr := iniTokenSave_frame env hr
  obtain ⟨x,hw⟩ : ∃ x, Rewrites "network" fil w r x := by
    rcases iniTokenSave_spec env "network" fil hc hr with ⟨_,_,-,-,hw,-⟩ | ⟨-,hw⟩
    · exact ⟨_,hw⟩
    · exact ⟨[],hw []⟩
  by_cases ho : r.1 = .ok
  · obtain ⟨n,hi,hn,hreg,he⟩ := iniTokenSave_read env hc hl hd hr ho
    have hx : Rewrites "network" fil w r (text "network" fil w ++ saveText env n data) :=
      ⟨hw.coherent,fun _ => hreg,hw.refused⟩
    exact ⟨h.rewrite hx hfr fun _ => ⟨(readText_newEntry env hl hi hn hd).2 (h.plain fil hf),
      lineEnded_saveText env _ _ _⟩,fun fil' hne => Interfaces.entries_rewrite_ne hx hne,fun hn => absurd ho hn,
      fun _ => ⟨n,hn,he⟩⟩
  · exact ⟨h.rewrite hw hfr fun hok => absurd hok ho,fun fil' hne => Interfaces.entries_rewrite_ne hw hne,hw.refused,
      fun hok => absurd hok ho⟩

theorem KeptFiles.check (h : KeptFiles fils w) (fil name value : Str) :
    KeptFiles fils (iniTokenCheck env "network" fil name value w).2 :=
  h.congr (iniTokenCheck_reg _ _ _ _ _ _) ((Interfaces.check_quiet env fil name value w).fresh h.fresh)

/-- Deleting an entry without a name leaves the other entries and the other files. -/
theorem KeptFiles.delete (pcre : Pcre) (env : Env) (h : KeptFiles fils w) {fil id : Str} (hf : fil ∈ fils)
    (hn : nameOf "network" fil id w = []) :
    KeptFiles fils (iniTokenDelete pcre env "network" fil id w).2 ∧
    (∀ fil', fil ≠ fil' → entries "network" fil' (iniTokenDelete pcre env "network" fil id w).2 =
      entries "network" fil' w) ∧
    (entries "network" fil (iniTokenDelete pcre env "network" fil id w).2 = entries "network" fil w ∨
      entries "network" fil (iniTokenDelete pcre env "network" fil id w).2 = (entries "network" fil w).erase id) := by
  have hc := h.coherent fil
  have hreg := iniTokenDelete_deleted pcre env id hc
  have hfresh : Fresh (iniTokenDelete pcre env "network" fil id w).2 :=
    iniTokenDelete_fresh pcre env id looked_network h.fresh
  generalize (iniTokenDelete pcre env "network" fil id w).2 = v at *
  unfold deleted at hreg
  split at hreg
  · rw [if_pos (null_iff.mpr hn)] at hreg
    have hv : ∀ fil', entries "network" fil' v = entries "network" fil' (without env "network" fil id w) :=
      fun fil' => entries_congr _ _ hreg
    have hw := entries_without env id (h.plain fil hf)
    have ht : ∀ fil', fil ≠ fil' → text "network" fil' v = text "network" fil' w := fun fil' hne => by
      rw [text,hreg]
      exact text_without_ne env (by simpa using hne)
    have hs : text "network" fil v = text "network" fil (without env "network" fil id w) := by rw [text,hreg]; rfl
    refine ⟨⟨fun fil' hm => ?_,fun fil' hm => ?_,hfresh⟩,fun fil' hne => ?_,Or.inr ((hv fil).trans hw.1)⟩
    · by_cases hne : fil = fil'
      · rw [← hne,hs]
        exact hw.2.1
      · rw [ht fil' hne]
        exact h.plain fil' hm
    · by_cases hne : fil = fil'
      · rw [← hne,hs]
        exact hw.2.2
      · rw [ht fil' hne]
        exact h.ended fil' hm
    · rw [entries,entries,ht fil' hne]
  · exact ⟨h.congr hreg hfresh,fun fil' _ => entries_congr _ _ hreg,Or.inl (entries_congr _ _ hreg)⟩

theorem NewData.writable {data : Params} (h : NewData data) : WritableData data := fun x hx =>
  Or.inr (Or.inl ⟨(h x hx).2,(h x hx).1.1⟩)

theorem KeptFiles.quiet (h : KeptFiles fils w) {v : World} (hq : Interfaces.Quiet w v) : KeptFiles fils v :=
  h.congr hq.reg (hq.fresh h.fresh)

/-- One entry of a file is written, and the other files stay: the data are put into what it was, or into a new entry. -/
structure Written (fils : List Str) (fil : Str) (own : Option Str) (data : Params) (w v : World) : Prop where
  kept : KeptFiles fils v
  others : ∀ fil', fil ≠ fil' → entries "network" fil' v = entries "network" fil' w
  put : ∃ id q p, (own = some id ∧ (entries "network" fil w).get? id = some q ∨
      own = none ∧ (entries "network" fil w).get? id = none ∧ q = ∅) ∧
    entries "network" fil v = (entries "network" fil w).set id p ∧
    ∀ k, skipped k = false → p.val k = ((data.get? k).map carried).getD (q.val k)

theorem Written.congr {fil : Str} {own : Option Str} {data : Params} {u v : World} (hu : u.reg = w.reg)
    (h : Written fils fil own data u v) : Written fils fil own data w v := by
  refine ⟨h.kept,fun fil' hne => (h.others fil' hne).trans (entries_congr _ _ hu),?_⟩
  rw [← entries_congr "network" fil hu]
  exact h.put

theorem Written.quiet {fil : Str} {own : Option Str} {data : Params} {u v : World} (hq : Interfaces.Quiet w u)
    (h : Written fils fil own data u v) : Written fils fil own data w v := h.congr hq.reg

theorem readBack_carried {k : Str} (hk : skipped k = false) (id : Str) (q data : Params) :
    (readBack id (q.setAll (carriedParams data).entries)).val k = ((data.get? k).map carried).getD (q.val k) := by
  have hc : carriedValue k = carried := funext fun v => by rw [carriedValue,hk]; rfl
  rw [Interfaces.readBack_val _ hk,setAll_val,carriedParams,OrdMap.get?_mapEntries,hc]

theorem KeptFiles.update_written (env : Env) (h : KeptFiles fils w) {fil : Str} (hf : fil ∈ fils) {id : Str} {data : Params}
    (hd : WritableData data) {v : World} (hr : iniTokenUpdate env "network" fil id data w = (.ok,v)) :
    Written fils fil (some id) data w v := by
  obtain ⟨hk,ho,-,hput⟩ := h.update env hf id hd
  rw [hr] at hk ho hput
  obtain ⟨q,hq,he⟩ := hput rfl
  exact ⟨hk,ho,id,q,_,Or.inl ⟨rfl,hq⟩,he,fun k hks => readBack_carried hks id q data⟩

theorem KeptFiles.save_written (h : KeptFiles fils w) {fil : Str} (hf : fil ∈ fils) {data : Params} (hd : NewData data)
    {v : World} (hr : iniTokenSave env "network" fil data w = some (.ok,v)) : Written fils fil none data w v := by
  obtain ⟨hk,ho,-,hput⟩ := h.save hf hd hr
  obtain ⟨n,hn,he⟩ := hput rfl
  refine ⟨hk,ho,n,∅,_,Or.inr ⟨rfl,hn,rfl⟩,he,fun k hks => ?_⟩
  rw [← readBack_carried hks n ∅ data,(OrdMap.setAll_entries_iff ∅ _).mpr List.nil_prefix]

end Registry

namespace Interfaces

open Php RegistryFormat Registry References

variable (env : Env)

theorem Sound.kept {w : World} (h : Sound w) : KeptFiles netFiles w := ⟨h.plain,h.ended,h.fresh⟩

theorem sound_of_kept {w : World} (h : KeptFiles netFiles w) : Sound w := ⟨⟨h.plain,h.ended⟩,h.fresh⟩

/-- An update either refuses, or assigns the data to its entry as it is read. -/
theorem update_read {w : World} (h : Sound w) {fil : Str} (hf : fil ∈ netFiles) (id : Str)
    {data : Params} (hd : WritableData data) :
    Sound (iniTokenUpdate env "network" fil id data w).2 ∧
    (∀ fil', fil ≠ fil' → entries "network" fil' (iniTokenUpdate env "network" fil id data w).2 =
      entries "network" fil' w) ∧
    ((iniTokenUpdate env "network" fil id data w).1 ≠ .ok →
      (iniTokenUpdate env "network" fil id data w).2.reg = w.reg) ∧
    ((iniTokenUpdate env "network" fil id data w).1 = .ok →
      ∃ p, (entries "network" fil w).get? id = some p ∧
        entries "network" fil (iniTokenUpdate env "network" fil id data w).2 =
          (entries "network" fil w).set id (readBack id (p.setAll (carriedParams data).entries))) := by
  obtain ⟨hk,ho,hr,hput⟩ := h.kept.update env hf id hd
  exact ⟨sound_of_kept hk,ho,hr,hput⟩

/-- A save either refuses, or adds an entry with the data as it is read. -/
theorem save_read {w : World} (h : Sound w) {fil : Str} (hf : fil ∈ netFiles) {data : Params}
    (hd : NewData data) {r : Ret × World} (hr : iniTokenSave env "network" fil data w = some r) :
    Sound r.2 ∧ (∀ fil', fil ≠ fil' → entries "network" fil' r.2 = entries "network" fil' w) ∧
    (r.2.reg = w.reg ∨ ∃ n, (entries "network" fil w).get? n = none ∧
      entries "network" fil r.2 = (entries "network" fil w).set n (readBack n (carriedParams data))) := by
  obtain ⟨hk,ho,hreg,hput⟩ := h.kept.save hf hd hr
  refine ⟨sound_of_kept hk,ho,?_⟩
  by_cases hok : r.1 = .ok
  · exact Or.inr (hput hok)
  · exact Or.inl (hreg hok)

end Interfaces
end Mybox
