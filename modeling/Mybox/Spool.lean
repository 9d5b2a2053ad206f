import Mybox.OrderedMap
import Mathlib.Algebra.GroupWithZero.Nat
import Mathlib.Algebra.Order.BigOperators.Group.List
import Mathlib.Algebra.Order.Group.Nat
import Mathlib.Tactic.Common

/-! A spool: texts are written under names, and handed on when the spool is emptied. A text under a name that is still
there takes the place of the older one. When every text is handed on as what it was written for. -/
namespace Mybox
namespace Spool

variable {κ δ α : Type}

structure Box (κ δ α : Type) where
  files : OrdMap κ δ
  out : List α

def Box.new : Box κ δ α := ⟨∅,[]⟩

inductive Event (κ δ α : Type)
  | file (k : κ) (d : δ)
  /-- Handed on at once. -/
  | hand (a : α)
  | drain

variable [DecidableEq κ] (le : κ → κ → Bool) (decode : δ → Option α) (want : δ → α)

def step (b : Box κ δ α) : Event κ δ α → Box κ δ α
  | .file k d => ⟨b.files.set k d,b.out⟩
  | .hand a => ⟨b.files,b.out ++ [a]⟩
  | .drain => ⟨∅,b.out ++ (b.files.sortKeys le).entries.filterMap fun e => decode e.2⟩

def run (b : Box κ δ α) (evs : List (Event κ δ α)) : Box κ δ α := evs.foldl (step le decode) b

omit [DecidableEq κ] in
def Event.asked : Event κ δ α → List α
  | .file _ d => [want d]
  | .hand a => [a]
  | .drain => []

def Delivered (evs : List (Event κ δ α)) : Prop :=
  (run le decode .new (evs ++ [.drain])).out.Perm (evs.flatMap (Event.asked want))

def Free (evs : List (Event κ δ α)) : Prop :=
  ∀ before k d middle d' after, evs = before ++ .file k d::(middle ++ .file k d'::after) → .drain ∈ middle

/-- Something that a text can only lose when it is not read as what it is wanted for. -/
structure Weighing where
  weight : α → ℕ
  pos : ∀ d, 0 < weight (want d)
  le : ∀ {d a}, decode d = some a → weight a ≤ weight (want d)
  eq : ∀ {d a}, decode d = some a → weight a = weight (want d) → a = want d

variable {le decode want}

theorem run_concat (b : Box κ δ α) (evs : List (Event κ δ α)) (e : Event κ δ α) :
    run le decode b (evs ++ [e]) = step le decode (run le decode b evs) e := List.foldl_concat ..

def contents (decode : δ → Option α) (b : Box κ δ α) : List α := b.out ++ b.files.entries.filterMap fun e => decode e.2

theorem contents_drain (b : Box κ δ α) : (step le decode b .drain).out.Perm (contents decode b) := by
  refine List.Perm.append_left b.out ?_
  exact (List.perm_insertionSort _ _).filterMap _

theorem contents_hand (b : Box κ δ α) (a : α) :
    (contents decode (step le decode b (.hand a))).Perm (contents decode b ++ [a]) := by
  unfold contents step
  rw [List.append_assoc,List.append_assoc]
  exact List.Perm.append_left b.out List.perm_append_comm

theorem contents_file {b : Box κ δ α} {k : κ} {d : δ} {a : α} (h : b.files.get? k = none) (hd : decode d = some a) :
    (contents decode (step le decode b (.file k d))).Perm (contents decode b ++ [a]) := by
  have hp := (b.files.perm_set k d).filterMap fun e => decode e.2
  rw [OrdMap.erase_of_none h,List.filterMap_cons_some (f:=fun e : κ × δ => decode e.2) hd] at hp
  unfold contents
  rw [List.append_assoc]
  refine List.Perm.append_left b.out (hp.trans ?_)
  exact (List.perm_append_singleton a _).symm

/-- Under a name something is there exactly when it was written after the last time the spool was emptied. -/
theorem files_run_iff (evs : List (Event κ δ α)) (k : κ) (d : δ) (h : (run le decode .new evs).files.get? k = some d) :
    ∃ before after, evs = before ++ .file k d::after ∧ .drain ∉ after := by
  induction evs using List.reverseRecOn with
  | nil => cases h
  | append_singleton evs e ih =>
    rw [run_concat] at h
    cases e with
    | hand a =>
      obtain ⟨before,after,rfl,hn⟩ := ih h
      exact ⟨before,after ++ [.hand a],by simp,by simpa using hn⟩
    | drain => cases h
    | file j c =>
      change (OrdMap.set _ j c).get? k = some d at h
      rw [OrdMap.get?_set] at h
      split at h
      · next hj =>
        cases h
        exact ⟨evs,[],by rw [hj],List.not_mem_nil⟩
      · next hj =>
        obtain ⟨before,after,rfl,hn⟩ := ih h
        exact ⟨before,after ++ [.file j c],by simp,by simpa using hn⟩

theorem files_after (before : List (Event κ δ α)) (k : κ) (d : δ) {after : List (Event κ δ α)} (h : .drain ∉ after) :
    (run le decode .new (before ++ .file k d::after)).files.get? k ≠ none := by
  induction after using List.reverseRecOn with
  | nil =>
    rw [run_concat]
    change (OrdMap.set _ k d).get? k ≠ none
    rw [OrdMap.get?_set_self]
    exact Option.some_ne_none d
  | append_singleton after e ih =>
    rw [List.mem_append,not_or,List.mem_singleton] at h
    rw [← List.cons_append,← List.append_assoc,run_concat]
    have hb := ih h.1
    cases e with
    | hand a => exact hb
    | drain => exact absurd rfl h.2
    | file j c =>
      change (OrdMap.set _ j c).get? k ≠ none
      rw [OrdMap.get?_set]
      split
      · exact Option.some_ne_none c
      · exact hb

omit [DecidableEq κ] in
theorem Free.left {evs : List (Event κ δ α)} {e : Event κ δ α} (h : Free (evs ++ [e])) : Free evs := by
  intro before k d middle d' after he
  refine h before k d middle d' (after ++ [e]) ?_
  rw [he]
  simp

theorem Free.name {evs : List (Event κ δ α)} {k : κ} {d : δ} (h : Free (evs ++ [.file k d])) :
    (run le decode .new evs).files.get? k = none := by
  by_contra hn
  obtain ⟨c,hc⟩ := Option.ne_none_iff_exists'.mp hn
  obtain ⟨before,after,rfl,hd⟩ := files_run_iff evs k c hc
  exact hd (h before k c after d [] (by simp))

theorem free_concat {evs : List (Event κ δ α)} {e : Event κ δ α} (h : Free evs)
    (he : ∀ k d, e = .file k d → (run le decode .new evs).files.get? k = none) : Free (evs ++ [e]) := by
  intro before k d middle d' after heq
  rcases List.eq_nil_or_concat after with rfl | ⟨after,x,rfl⟩
  · -- the later text is the one that is added
    have hs : evs ++ [e] = (before ++ .file k d::middle) ++ [.file k d'] := by rw [heq]; simp
    obtain ⟨rfl,rfl⟩ := List.append_singleton_inj.mp hs
    by_contra hn
    exact files_after before k d hn (he k d' rfl)
  · have hs : evs ++ [e] = (before ++ .file k d::(middle ++ .file k d'::after)) ++ [x] := by rw [heq]; simp
    obtain ⟨rfl,-⟩ := List.append_singleton_inj.mp hs
    exact h before k d middle d' after rfl

def Readable (decode : δ → Option α) (want : δ → α) (evs : List (Event κ δ α)) : Prop :=
  ∀ k d, .file k d ∈ evs → decode d = some (want d)

theorem contents_run {evs : List (Event κ δ α)} (hr : Readable decode want evs) (hf : Free evs) :
    (contents decode (run le decode .new evs)).Perm (evs.flatMap (Event.asked want)) := by
  induction evs using List.reverseRecOn with
  | nil => exact List.Perm.refl _
  | append_singleton evs e ih =>
    have hi := ih (fun k d hm => hr k d (List.mem_append_left _ hm)) hf.left
    rw [run_concat,List.flatMap_append,List.flatMap_singleton]
    cases e with
    | hand a => exact (contents_hand _ a).trans (hi.append_right [a])
    | file k d =>
      have hd : decode d = some (want d) := hr k d (by simp)
      exact (contents_file hf.name hd).trans (hi.append_right [want d])
    | drain =>
      have hc : contents decode (step le decode (run le decode .new evs) .drain) = (step le decode _ .drain).out :=
        List.append_nil _
      rw [hc]
      exact (contents_drain _).trans (by simpa [Event.asked] using hi)

section Weight

variable (w : Weighing decode want)

def Weighing.read (d : δ) : ℕ := ((decode d).map w.weight).getD 0

def Weighing.total (as : List α) : ℕ := (as.map w.weight).sum

theorem Weighing.total_perm {as bs : List α} (h : as.Perm bs) : w.total as = w.total bs := (h.map w.weight).sum_eq

theorem Weighing.total_append (as bs : List α) : w.total (as ++ bs) = w.total as + w.total bs := by
  simp [Weighing.total]

theorem Weighing.read_le (d : δ) : w.read d ≤ w.weight (want d) := by
  unfold Weighing.read
  cases hd : decode d with
  | none => exact Nat.zero_le _
  | some a => exact w.le hd

theorem Weighing.read_eq {d : δ} (h : w.read d = w.weight (want d)) : decode d = some (want d) := by
  unfold Weighing.read at h
  cases hd : decode d with
  | none =>
    rw [hd] at h
    have := w.pos d
    change 0 = _ at h
    omega
  | some a =>
    rw [hd] at h
    rw [w.eq hd h]

omit [DecidableEq κ] in
theorem Weighing.total_cons (k : κ) (d : δ) (es : List (κ × δ)) :
    w.total (((k,d)::es).filterMap fun e => decode e.2) = w.read d + w.total (es.filterMap fun e => decode e.2) := by
  unfold Weighing.read
  cases hd : decode d with
  | none => simp [hd]
  | some a => simp [hd,Weighing.total]

/-- A text that is written adds what it weighs, and the older one under its name is gone. -/
theorem Weighing.total_file (b : Box κ δ α) (k : κ) (d : δ) :
    w.total (contents decode (step le decode b (.file k d))) + ((b.files.get? k).map w.read).getD 0 =
      w.total (contents decode b) + w.read d := by
  have hset := (b.files.perm_set k d).filterMap fun e => decode e.2
  have hnew : w.total (contents decode (step le decode b (.file k d))) =
      w.total b.out + (w.read d + w.total ((b.files.erase k).entries.filterMap fun e => decode e.2)) := by
    rw [contents,w.total_append]
    change _ + w.total ((b.files.set k d).entries.filterMap _) = _
    rw [w.total_perm hset,w.total_cons]
    rfl
  rw [hnew,contents,w.total_append]
  cases hk : b.files.get? k with
  | none =>
    rw [OrdMap.erase_of_none hk]
    simp only [Option.map_none,Option.getD_none]
    omega
  | some c =>
    have hold := (OrdMap.perm_erase hk).filterMap fun e => decode e.2
    rw [w.total_perm hold,w.total_cons]
    simp only [Option.map_some,Option.getD_some]
    omega

/-- A run can only lose weight, and one that loses none is free and has all its texts read. -/
theorem Weighing.total_run (evs : List (Event κ δ α)) :
    w.total (contents decode (run le decode .new evs)) ≤ w.total (evs.flatMap (Event.asked want)) ∧
      (w.total (contents decode (run le decode .new evs)) = w.total (evs.flatMap (Event.asked want)) →
        Readable decode want evs ∧ Free evs) := by
  induction evs using List.reverseRecOn with
  | nil =>
    refine ⟨le_rfl,fun _ => ⟨fun k d h => (List.not_mem_nil h).elim,fun before k d middle d' after h => ?_⟩⟩
    exact (List.append_ne_nil_of_right_ne_nil before (List.cons_ne_nil _ _) h.symm).elim
  | append_singleton evs e ih =>
    obtain ⟨hle,heq⟩ := ih
    rw [run_concat,List.flatMap_append,List.flatMap_singleton,w.total_append]
    have quiet : (∀ k d, e ≠ .file k d) → w.total (contents decode (run le decode .new evs)) =
        w.total (evs.flatMap (Event.asked want)) → Readable decode want (evs ++ [e]) ∧ Free (evs ++ [e]) := by
      intro hn h
      obtain ⟨hr,hf⟩ := heq h
      have hfree : ∀ k d, e = .file k d → (run le decode .new evs).files.get? k = none := fun k d he => absurd he (hn k d)
      refine ⟨fun k d hm => ?_,free_concat hf hfree⟩
      rcases List.mem_append.mp hm with hm | hm
      · exact hr k d hm
      · exact absurd (List.mem_singleton.mp hm).symm (hn k d)
    cases e with
    | hand a =>
      rw [w.total_perm (contents_hand _ a),w.total_append]
      exact ⟨Nat.add_le_add_right hle _,fun h => quiet (by simp) (Nat.add_right_cancel h)⟩
    | drain =>
      have hc : contents decode (step le decode (run le decode .new evs) .drain) = (step le decode _ .drain).out :=
        List.append_nil _
      rw [hc,w.total_perm (contents_drain _)]
      exact ⟨hle,fun h => quiet (by simp) h⟩
    | file k d =>
      have hfile := @Weighing.total_file κ δ α _ le decode want w (run le decode .new evs) k d
      have hread := w.read_le d
      have hd : w.total (Event.asked want (.file k d : Event κ δ α)) = w.weight (want d) := by
        simp [Event.asked,Weighing.total]
      rw [hd]
      refine ⟨by omega,fun h => ?_⟩
      obtain ⟨hr,hf⟩ := heq (by omega)
      have hnew := w.read_eq (d:=d) (by omega)
      have hall : Readable decode want (evs ++ [.file k d]) := by
        intro j c hm
        rcases List.mem_append.mp hm with hm | hm
        · exact hr j c hm
        · cases List.mem_singleton.mp hm
          exact hnew
      -- an older text would have weighed something
      have hnone : (run le decode .new evs).files.get? k = none := by
        cases hk : (run le decode .new evs).files.get? k with
        | none => rfl
        | some c =>
          obtain ⟨before,after,rfl,-⟩ := files_run_iff evs k c hk
          have hc : w.read c = w.weight (want c) := by
            unfold Weighing.read
            rw [hr k c (by simp)]
            rfl
          have hpos := w.pos c
          rw [hk] at hfile
          simp only [Option.map_some,Option.getD_some] at hfile
          omega
      have hfree : ∀ j c, (.file k d : Event κ δ α) = .file j c → (run le decode .new evs).files.get? j = none := by
        intro j c he
        cases he
        exact hnone
      exact ⟨hall,free_concat hf hfree⟩

end Weight

/-- Everything is delivered exactly when each text is read as what it is wanted for and none takes the place of
another. -/
theorem drained_iff (w : Weighing decode want) (evs : List (Event κ δ α)) :
    Delivered le decode want evs ↔ Readable decode want evs ∧ Free evs := by
  unfold Delivered
  rw [run_concat]
  have hdrain : (step le decode (run le decode .new evs) .drain).out.Perm (contents decode (run le decode .new evs)) :=
    contents_drain _
  constructor
  · intro h
    have ht := w.total_perm (hdrain.symm.trans h)
    exact (w.total_run evs).2 ht
  · rintro ⟨hr,hf⟩
    exact hdrain.trans (contents_run hr hf)

end Spool
end Mybox
