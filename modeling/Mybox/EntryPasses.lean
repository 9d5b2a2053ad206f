import Mybox.DerivedFields

/-! A loop over a copy of the entries of a file that writes single values back: what one turn does to the file. -/
namespace Mybox
namespace Registry

open Php RegistryFormat References Interfaces

variable (env : Env) (sec fil : Str)

theorem val_set_self (p : Params) (k v : Str) : Params.val (p.set k v) k = v := by rw [val_set,if_pos rfl]

theorem val_set_ne (p : Params) {k j : Str} (v : Str) (h : k ≠ j) : Params.val (p.set k v) j = p.val j := by
  rw [val_set,if_neg h]

structure Filed (es : List (Str × Params)) (w : World) : Prop where
  coherent : Coherent sec fil w
  entry : ∀ e ∈ es, EntryOk e.1 e.2
  read : (entries sec fil w).entries = es

variable {env sec fil}

theorem Filed.canonical {es : List (Str × Params)} {w : World} (h : Filed sec fil es w) :
    Canonical (entries sec fil w) := fun e he => h.entry e (h.read ▸ he)

theorem Filed.nodup {es : List (Str × Params)} {w : World} (h : Filed sec fil es w) : (es.map Prod.fst).Nodup :=
  h.read ▸ (entries sec fil w).nodup

theorem Filed.quiet {es : List (Str × Params)} {w w' : World} (h : Filed sec fil es w) (hr : w'.reg = w.reg)
    (hc : Coherent sec fil w') : Filed sec fil es w' :=
  ⟨hc,h.entry,by rw [entries_congr _ _ hr]; exact h.read⟩

/-- Setting one value of one entry. -/
theorem Filed.set (hs : env.strg = true) {key : Str} (hk : KeyName key) (hh : hidden key = false) (hn : key ≠ "NAME")
    {v : Str} (hv : ReadValue v) {a b : List (Str × Params)} {e : Str × Params} {w : World} (h : Filed sec fil (a ++ e::b) w) :
    Filed sec fil (a ++ (e.1,e.2.set key v)::b) (iniTokenUpdate env sec fil e.1 (e.2.set key v) w).2 ∧
      LineEnded (text sec fil (iniTokenUpdate env sec fil e.1 (e.2.set key v) w).2) := by
  have he : EntryOk e.1 e.2 := h.entry e (by simp)
  have hp := hk.paramOk hv.1 hv.2.1 hv.2.2
  have hnew : EntryOk e.1 (e.2.set key v) := he.assign hh hp
  have hg : (entries sec fil w).get? e.1 = some e.2 :=
    OrdMap.get?_eq_some.mpr (by rw [h.read]; simp)
  have ho := update_done env h.coherent h.canonical hs hg (Or.inr (val_set_ne e.2 v hn))
  obtain ⟨p,hp',ht,hr⟩ := iniTokenUpdate_read env h.coherent h.canonical e.1 hnew.writable ho
  obtain rfl : p = e.2 := Option.some.inj (hp'.symm.trans hg)
  have hall : OrdMap.setAll e.2 (e.2.set key v).entries = e.2.set key v := by
    rw [OrdMap.setAll_set,(OrdMap.setAll_entries_iff e.2 e.2).mpr List.prefix_rfl]
  rw [carriedParams_entry hnew,hall,hnew.readBack] at hr
  have hfresh : e.1 ∉ a.map Prod.fst := by
    have hd := h.nodup
    rw [List.map_append,List.map_cons,List.nodup_append] at hd
    exact fun hm => hd.2.2 e.1 hm e.1 (by simp) rfl
  refine ⟨⟨?_,?_,?_⟩,by rw [ht]; exact lineEnded_updateText env _⟩
  · rcases iniTokenUpdate_spec env sec fil e.1 (e.2.set key v) h.coherent with ⟨p,-,hw⟩ | ⟨-,-,hw⟩
    · exact hw.coherent
    · exact (hw []).coherent
  · intro x hx
    rcases List.mem_append.mp hx with hx | hx
    · exact h.entry x (List.mem_append_left _ hx)
    · rcases List.mem_cons.mp hx with rfl | hx
      · exact hnew
      · exact h.entry x (List.mem_append_right _ (List.mem_cons_of_mem _ hx))
  · rw [hr]
    change OrdMap.assign e.1 (e.2.set key v) (entries sec fil w).entries = _
    rw [h.read,OrdMap.assign_middle _ _ hfresh]

end Registry
end Mybox
