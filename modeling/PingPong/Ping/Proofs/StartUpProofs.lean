import PingPong.Ping.Proofs.StoreStepProofs

/-!
# Proofs: starting up

When no check overlaps with another call that is about to insert, at most one call inserts, and it
finds the document absent (`Alone`). After an overlap two calls are bound to insert, and one of them
throws (`Contended`).
-/

namespace PingPong.Ping

open Messages

variable {P T : Type} {s s' : StoreState P T} {a : StoreAction P T} {c : Messages}
  {acts : List (StoreAction P T)}

/-! ## Without an overlap -/

/-- No call has thrown, and a call that is about to insert is the only one and will succeed. -/
structure Alone (s : StoreState P T) : Prop where
  normal : ∀ k, s.phase k ≠ .failed
  absent : ∀ k, s.phase k = .inserting → s.store.present = false
  unique : ∀ k k', s.phase k = .inserting → s.phase k' = .inserting → k = k'

theorem alone_start : Alone (P := P) (T := T) (.start c) where
  normal _ := nofun
  absent _ := nofun
  unique _ _ := nofun

/-- Once nobody is about to insert, the document may change. -/
theorem Alone.setStore {c : Messages} (h : Alone s)
    (hp : c.present = s.store.present ∨ ∀ k, s.phase k ≠ .inserting) :
    Alone { s with store := c } := by
  refine ⟨h.normal, fun k hk => ?_, h.unique⟩
  rcases hp with hp | hnone
  · exact hp.trans (h.absent k hk)
  · exact absurd hk (hnone k)

variable [DecidableEq P] [DecidableEq T]

/-- A caller that ends its call leaves the others alone. -/
theorem Alone.setPhase {k : Caller P T} {ph : CallPhase} (h : Alone s) (hins : ph ≠ .inserting)
    (hfail : ph ≠ .failed) : Alone (s.setPhase k ph) := by
  have hother : ∀ j, (s.setPhase k ph).phase j = .inserting → s.phase j = .inserting := by
    intro j hj
    by_cases hjk : j = k
    · subst hjk
      rw [StoreState.setPhase_phase_self] at hj
      exact absurd hj hins
    · rwa [StoreState.setPhase_phase_of_ne hjk] at hj
  refine ⟨fun j => ?_, fun j hj => h.absent j (hother j hj),
    fun j j' hj hj' => h.unique j j' (hother j hj) (hother j' hj')⟩
  by_cases hjk : j = k
  · subst hjk
    rw [StoreState.setPhase_phase_self]
    exact hfail
  · rw [StoreState.setPhase_phase_of_ne hjk]
    exact h.normal j

/-- The first caller that finds no document is alone. -/
theorem Alone.setInserting {k : Caller P T} (h : Alone s) (hp : s.store.present = false)
    (hnone : ∀ j, s.phase j ≠ .inserting) : Alone (s.setPhase k .inserting) := by
  have honly : ∀ j, (s.setPhase k .inserting).phase j = .inserting → j = k := by
    intro j hj
    by_contra hjk
    rw [StoreState.setPhase_phase_of_ne hjk] at hj
    exact hnone j hj
  refine ⟨fun j => ?_, fun _ _ => hp, fun j j' hj hj' => (honly j hj).trans (honly j' hj').symm⟩
  by_cases hjk : j = k
  · subst hjk
    rw [StoreState.setPhase_phase_self]
    nofun
  · rw [StoreState.setPhase_phase_of_ne hjk]
    exact h.normal j

theorem alone_step (h : Alone s) (hstep : StoreStep s a s')
    (hover : a.isCheck = true → s.store.present = false → ∀ k, s.phase k ≠ .inserting) :
    Alone s' := by
  cases hstep with
  | initFound => exact h.setPhase nofun nofun
  | got => exact h.setPhase nofun nofun
  | initAbsent _ hp => exact h.setInserting hp (hover rfl hp)
  | getAbsent _ hp => exact h.setInserting hp (hover rfl hp)
  | @inserted k c hk hc =>
    obtain ⟨hins, hfail⟩ := afterInsert_ne k
    refine (h.setPhase hins hfail).setStore (Or.inr fun j hj => ?_)
    by_cases hjk : j = k
    · subst hjk
      rw [StoreState.setPhase_phase_self] at hj
      exact hins hj
    · rw [StoreState.setPhase_phase_of_ne hjk] at hj
      exact hjk (h.unique j k hj hk)
  | duplicate hk hp =>
    rw [h.absent _ hk] at hp
    cases hp
  | @updated p t _ =>
    have hset : Alone (s.setPhase (.thread p t) (.set HttpStatus.successMessage)) :=
      h.setPhase nofun nofun
    exact hset.setStore (Or.inl present_update)

theorem alone_run (hover : ¬ Overlap c acts)
    (hrun : (storeMachine P T).run (.start c) acts = some s) : Alone s := by
  have hhist : ∀ {l u}, (storeMachine P T).run (.start c) l = some u → ¬ Overlap c l → Alone u := by
    intro l u hl
    refine StepMachine.run_history (I := fun l u => ¬ Overlap c l → Alone u)
      (fun _ => alone_start) (fun l u a u' hu ih ha hl => ?_) hl
    have hprefix : ¬ Overlap c l := by
      rintro ⟨l₁, b, l₂, v, rfl, hv⟩
      exact hl ⟨l₁, b, l₂ ++ [a], v, by simp, hv⟩
    refine alone_step (ih hprefix) (storeStep_of_step ha) fun hcheck hp k hk => ?_
    exact hl ⟨l, a, [], u, rfl, hu, hcheck, hp, k, hk⟩
  exact hhist hrun hover

/-! ## After an overlap -/

/-- Some call is about to insert a document that exists, or that another call is about to insert. -/
def Contended (s : StoreState P T) : Prop :=
  ∃ k, s.phase k = .inserting ∧
    (s.store.present = true ∨ ∃ k', k' ≠ k ∧ s.phase k' = .inserting)

/-- A check during an overlap leaves two calls that are about to insert. -/
theorem contended_of_check {k : Caller P T} (hstep : StoreStep s a s') (hcheck : a.isCheck = true)
    (hp : s.store.present = false) (hk : s.phase k = .inserting) : Contended s' := by
  have hsecond : ∀ {j}, s.phase j ≠ .inserting → Contended (s.setPhase j .inserting) := by
    intro j hj
    have hkj : k ≠ j := by rintro rfl; exact hj hk
    refine ⟨k, ?_, Or.inr ⟨j, hkj.symm, StoreState.setPhase_phase_self _⟩⟩
    rw [StoreState.setPhase_phase_of_ne hkj, hk]
  cases hstep with
  | initFound _ hp' => rw [hp] at hp'; cases hp'
  | got _ hm => rw [present_eq_isSome, hm] at hp; cases hp
  | initAbsent h => exact hsecond (by rw [h]; nofun)
  | getAbsent h => exact hsecond h
  | inserted | duplicate | updated => cases hcheck

theorem contended_step (h : Contended s) (hstep : StoreStep s a s') :
    Contended s' ∨ ∃ k, s'.phase k = .failed := by
  obtain ⟨k, hk, hother⟩ := h
  by_cases ha : a = .insert k
  · subst ha
    cases hstep with
    | duplicate => exact Or.inr ⟨k, StoreState.setPhase_phase_self _⟩
    | inserted _ hc =>
      rcases hother with hp | ⟨k', hne, hk'⟩
      · rw [insert_created_eq_none_iff.mpr hp] at hc
        cases hc
      · refine Or.inl ⟨k', ?_, Or.inl (present_of_insert hc)⟩
        exact (StoreState.setPhase_phase_of_ne hne _).trans hk'
  · have hstay := inserting_step hstep hk ha
    rcases hother with hp | ⟨k', hne, hk'⟩
    · exact Or.inl ⟨k, hstay, Or.inl (present_step hstep hp)⟩
    · by_cases ha' : a = .insert k'
      · subst ha'
        cases hstep with
        | duplicate => exact Or.inr ⟨k', StoreState.setPhase_phase_self _⟩
        | inserted _ hc => exact Or.inl ⟨k, hstay, Or.inl (present_of_insert hc)⟩
      · exact Or.inl ⟨k, hstay, Or.inr ⟨k', hne, inserting_step hstep hk' ha'⟩⟩

/-- From a contended state, a run that finishes all calls makes one of them throw. -/
theorem exists_failed_of_contended (h : Contended s)
    (hrun : (storeMachine P T).run s acts = some s') (hdone : s'.Quiescent) :
    ∃ l u, l <+: acts ∧ (storeMachine P T).run s l = some u ∧ ∃ k, u.phase k = .failed := by
  induction acts generalizing s with
  | nil =>
    cases hrun
    obtain ⟨k, hk, -⟩ := h
    exact absurd hk (hdone k)
  | cons a acts ih =>
    obtain ⟨u, hu, hrest⟩ := StepMachine.run_cons_eq_some.mp hrun
    rcases contended_step h (storeStep_of_step hu) with hcont | hfail
    · obtain ⟨l, v, hl, hv, hfail⟩ := ih hcont hrest
      exact ⟨a :: l, v, List.cons_prefix_cons.mpr ⟨rfl, hl⟩,
        StepMachine.run_cons_eq_some.mpr ⟨u, hu, hv⟩, hfail⟩
    · exact ⟨[a], u, by simp, StepMachine.run_cons_eq_some.mpr ⟨u, hu, rfl⟩, hfail⟩

/-! ## Starting up -/

/-- After a check the document exists, or some call is about to insert it. -/
theorem present_or_inserting (hrun : (storeMachine P T).run (.start c) acts = some s)
    (hcheck : ∃ a ∈ acts, a.isCheck = true) :
    s.store.present = true ∨ ∃ k, s.phase k = .inserting := by
  refine StepMachine.run_history (I := fun acts s => (∃ a ∈ acts, a.isCheck = true) →
    s.store.present = true ∨ ∃ k, s.phase k = .inserting) (by simp)
    (fun l u a u' _ ih ha hmem => ?_) hrun hcheck
  have hstep := storeStep_of_step ha
  by_cases hp : u'.store.present = true
  · exact Or.inl hp
  · have hnow : a.isCheck = true → ∃ k, u'.phase k = .inserting := by
      intro hcheck
      cases hstep with
      | initFound _ hp' => exact absurd hp' hp
      | got _ hm => exact absurd (by rw [StoreState.setPhase_store, present_eq_isSome, hm]; rfl) hp
      | initAbsent | getAbsent => exact ⟨_, StoreState.setPhase_phase_self _⟩
      | inserted | duplicate | updated => cases hcheck
    by_cases hc : a.isCheck = true
    · exact Or.inr (hnow hc)
    · have hbefore : ∃ b ∈ l, b.isCheck = true := by
        obtain ⟨b, hb, hbc⟩ := hmem
        rcases List.mem_append.mp hb with hb | hb
        · exact ⟨b, hb, hbc⟩
        · rw [List.mem_singleton.mp hb] at hbc
          exact absurd hbc hc
      rcases ih hbefore with hpu | ⟨k, hk⟩
      · exact absurd (present_step hstep hpu) hp
      · refine Or.inr ⟨k, inserting_step hstep hk ?_⟩
        -- an insert would have left a document behind
        rintro rfl
        cases hstep with
        | inserted _ hc => exact hp (present_of_insert hc)
        | duplicate _ hpu => exact hp hpu

/-- When all calls are over, they have completed normally and left one document exactly when no check
overlapped with another call's insert. -/
theorem startsSafely_iff (c : Messages) (acts : List (StoreAction P T)) (s : StoreState P T)
    (hrun : (storeMachine P T).run (.start c) acts = some s) (hdone : s.Quiescent) :
    StartsSafely c acts s ↔ ¬ Overlap c acts := by
  constructor
  · rintro hsafe ⟨l, a, l', u, rfl, hu, hcheck, hp, k, hk⟩
    obtain ⟨u₁, hu₁, hrest⟩ := StepMachine.run_append_eq_some.mp hrun
    obtain rfl : u₁ = u := Option.some.inj (hu₁.symm.trans hu)
    obtain ⟨v, hv, hrest⟩ := StepMachine.run_cons_eq_some.mp hrest
    have hcont := contended_of_check (storeStep_of_step hv) hcheck hp hk
    obtain ⟨m, w, hm, hw, j, hj⟩ := exists_failed_of_contended hcont hrest hdone
    refine hsafe.normal (l ++ a :: m) w ?_ ?_ j hj
    · exact (List.prefix_append_right_inj l).mpr (List.cons_prefix_cons.mpr ⟨rfl, hm⟩)
    · exact StepMachine.run_append_eq_some.mpr
        ⟨u₁, hu, StepMachine.run_cons_eq_some.mpr ⟨v, hv, hw⟩⟩
  · intro hover
    refine ⟨fun l u hl hu => ?_, fun hcheck => ?_⟩
    · have hprefix : ¬ Overlap c l := by
        obtain ⟨m, rfl⟩ := hl
        rintro ⟨l₁, b, l₂, v, rfl, hv⟩
        exact hover ⟨l₁, b, l₂ ++ m, v, by simp, hv⟩
      exact (alone_run hprefix hu).normal
    · rcases present_or_inserting hrun hcheck with hp | ⟨k, hk⟩
      · exact Keyed.countP_key (by rw [← Keyed.contains_eq_isSome]; exact hp)
      · exact absurd hk (hdone k)

/-- The second process starts when the first one has finished, and then serves a client. -/
def oneAfterTheOther : List (StoreAction Bool Unit) :=
  [.exists false, .insert (.init false), .exists true, .findOne true ()]

/-- Both processes check before either inserts. -/
def bothCheckFirst : List (StoreAction Bool Unit) :=
  [.exists false, .exists true, .insert (.init false), .insert (.init true)]

theorem startsSafely_iff_oneAfterTheOther : ∃ s : StoreState Bool Unit,
    (storeMachine Bool Unit).run (.start .empty) oneAfterTheOther = some s ∧ s.Quiescent ∧
    (StartsSafely .empty oneAfterTheOther s ↔ ¬ Overlap .empty oneAfterTheOther) := by
  obtain ⟨s, hrun, h1, h2, h3⟩ : ∃ s : StoreState Bool Unit,
      (storeMachine Bool Unit).run (.start .empty) oneAfterTheOther = some s ∧
      (∀ p, s.phase (.init p) ≠ .inserting) ∧ s.phase (.thread false ()) ≠ .inserting ∧
      s.phase (.thread true ()) ≠ .inserting :=
    ⟨_, rfl, by decide, by decide, by decide⟩
  have hdone : s.Quiescent := by
    rintro (p | ⟨p, ⟨⟩⟩)
    · exact h1 p
    · cases p
      · exact h2
      · exact h3
  exact ⟨s, hrun, hdone, startsSafely_iff .empty oneAfterTheOther s hrun hdone⟩

/-- The insert of the second process throws. -/
theorem not_startsSafely_bothCheckFirst : ∃ s : StoreState Bool Unit,
    (storeMachine Bool Unit).run (.start .empty) bothCheckFirst = some s ∧
    s.phase (.init true) = .failed ∧ ¬ StartsSafely .empty bothCheckFirst s := by
  obtain ⟨s, hrun, hfail⟩ : ∃ s : StoreState Bool Unit,
      (storeMachine Bool Unit).run (.start .empty) bothCheckFirst = some s ∧
      s.phase (.init true) = .failed := ⟨_, rfl, rfl⟩
  exact ⟨s, hrun, hfail, fun h => h.normal bothCheckFirst s List.prefix_rfl hrun (.init true) hfail⟩

end PingPong.Ping
