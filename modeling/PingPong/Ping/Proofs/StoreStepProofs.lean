import PingPong.Ping.MessageStore

/-!
# Proofs: what one step on the message document can do

`StoreStep` lists the steps of `storeMachine` with their guards. Nothing ever removes the document,
and only its own insert ends the wait of a call between its check and its insert.
-/

namespace PingPong.Ping

open Messages

variable {P T : Type} {s s' : StoreState P T} {a : StoreAction P T} {k k' : Caller P T}
  {c c' : Messages} {msg : Option String}

/-! ## The collection -/

theorem present_eq_isSome : c.present = c.message.isSome := Keyed.contains_eq_isSome

theorem insert_created_eq_none_iff : c.insert created = none ↔ c.present = true := by
  rw [present_eq_isSome]
  exact Keyed.insert_eq_none_iff

theorem message_of_insert (h : c.insert created = some c') : c'.message = some created := by
  show c'.find MappedConstant.msgId = _
  rw [Keyed.find_insert h]
  exact if_pos rfl

theorem present_of_insert (h : c.insert created = some c') : c'.present = true := by
  rw [present_eq_isSome, message_of_insert h, Option.isSome_some]

@[simp] theorem message_update :
    (c.update msg).message = c.message.map fun _ => ⟨MappedConstant.msgId, msg⟩ :=
  Keyed.find_updateFirst

@[simp] theorem present_update : (c.update msg).present = c.present := by
  rw [present_eq_isSome, present_eq_isSome, message_update, Option.isSome_map]

/-! ## The steps -/

theorem afterInsert_ne (k : Caller P T) : k.afterInsert ≠ .inserting ∧ k.afterInsert ≠ .failed := by
  cases k <;> exact ⟨nofun, nofun⟩

variable [DecidableEq P] [DecidableEq T]

namespace StoreState

@[simp] theorem setPhase_store (ph : CallPhase) : (s.setPhase k ph).store = s.store := rfl

@[simp] theorem setPhase_phase_self (ph : CallPhase) : (s.setPhase k ph).phase k = ph :=
  Function.update_self ..

theorem setPhase_phase_of_ne (h : k' ≠ k) (ph : CallPhase) :
    (s.setPhase k ph).phase k' = s.phase k' :=
  Function.update_of_ne h ..

end StoreState

/-- The steps of the machine, one constructor for each way a label can be taken. -/
inductive StoreStep (s : StoreState P T) : StoreAction P T → StoreState P T → Prop where
  | initFound {p : P} (h : s.phase (.init p) = .idle) (hp : s.store.present = true) :
    StoreStep s (.exists p) (s.setPhase (.init p) .initialized)
  | initAbsent {p : P} (h : s.phase (.init p) = .idle) (hp : s.store.present = false) :
    StoreStep s (.exists p) (s.setPhase (.init p) .inserting)
  | got {p : P} {t : T} {m : PingMessage} (h : s.phase (.thread p t) ≠ .inserting)
    (hm : s.store.message = some m) :
    StoreStep s (.findOne p t) (s.setPhase (.thread p t) (.got m.message))
  | getAbsent {p : P} {t : T} (h : s.phase (.thread p t) ≠ .inserting)
    (hp : s.store.present = false) :
    StoreStep s (.findOne p t) (s.setPhase (.thread p t) .inserting)
  | inserted {k : Caller P T} {c : Messages} (h : s.phase k = .inserting)
    (hc : s.store.insert created = some c) :
    StoreStep s (.insert k) { s.setPhase k k.afterInsert with store := c }
  | duplicate {k : Caller P T} (h : s.phase k = .inserting) (hp : s.store.present = true) :
    StoreStep s (.insert k) (s.setPhase k .failed)
  | updated {p : P} {t : T} {msg : Option String} (h : s.phase (.thread p t) ≠ .inserting) :
    StoreStep s (.updateFirst p t msg)
      { s.setPhase (.thread p t) (.set HttpStatus.successMessage) with store := s.store.update msg }

theorem storeStep_of_step (h : (storeMachine P T).step s a = some s') : StoreStep s a s' := by
  cases a with
  | «exists» p =>
    simp only [storeMachine, Option.ite_none_right_eq_some, Option.some.injEq] at h
    obtain ⟨hph, rfl⟩ := h
    cases hp : s.store.present with
    | true => exact .initFound hph hp
    | false => exact .initAbsent hph hp
  | findOne p t =>
    simp only [storeMachine, Option.ite_none_right_eq_some, Option.some.injEq] at h
    obtain ⟨hph, rfl⟩ := h
    cases hm : s.store.message with
    | some m => exact .got hph hm
    | none => exact .getAbsent hph (by rw [present_eq_isSome, hm]; rfl)
  | insert k =>
    simp only [storeMachine, Option.ite_none_right_eq_some] at h
    obtain ⟨hph, h⟩ := h
    cases hc : s.store.insert created with
    | some c =>
      rw [hc] at h
      cases h
      exact .inserted hph hc
    | none =>
      rw [hc] at h
      cases h
      exact .duplicate hph (insert_created_eq_none_iff.mp hc)
  | updateFirst p t msg =>
    simp only [storeMachine, Option.ite_none_right_eq_some, Option.some.injEq] at h
    obtain ⟨hph, rfl⟩ := h
    exact .updated hph

theorem storeStep_of_serving (h : (servingMachine P T).step s a = some s') :
    servedBy s a = true ∧ StoreStep s a s' := by
  obtain ⟨hserved, hstep⟩ := StepMachine.restrict_step_eq_some.mp h
  exact ⟨hserved, storeStep_of_step hstep⟩

/-- A document that exists stays. -/
theorem present_step (h : StoreStep s a s') (hp : s.store.present = true) :
    s'.store.present = true := by
  cases h with
  | inserted _ hc => exact present_of_insert hc
  | updated => rw [present_update]; exact hp
  | _ => exact hp

/-- A call between its check and its insert waits for its own insert. -/
theorem inserting_step (h : StoreStep s a s') (hk : s.phase k = .inserting) (ha : a ≠ .insert k) :
    s'.phase k = .inserting := by
  have hne : ∀ {j ph}, j ≠ k → (s.setPhase j ph).phase k = .inserting := by
    intro j ph hj
    rw [StoreState.setPhase_phase_of_ne hj.symm, hk]
  cases h with
  | initFound h | initAbsent h =>
    refine hne ?_
    rintro rfl
    rw [hk] at h
    cases h
  | got h | getAbsent h | updated h => exact hne fun e => h (e ▸ hk)
  | inserted | duplicate => exact hne fun e => ha (e ▸ rfl)

/-- An `init` that has completed stays completed. -/
theorem initialized_step {p : P} (h : StoreStep s a s') (hk : s.phase (.init p) = .initialized) :
    s'.phase (.init p) = .initialized := by
  have hother : ∀ {j}, s.phase j ≠ .initialized → ∀ ph, (s.setPhase j ph).phase (.init p) = .initialized := by
    intro j hj ph
    have hne : Caller.init p ≠ j := fun e => hj (e ▸ hk)
    rw [StoreState.setPhase_phase_of_ne hne, hk]
  have hthread : ∀ q t ph, (s.setPhase (.thread q t) ph).phase (.init p) = .initialized := by
    intro q t ph
    have hne : Caller.init p ≠ .thread q t := by rintro ⟨⟩
    rw [StoreState.setPhase_phase_of_ne hne, hk]
  cases h with
  | initFound h | initAbsent h | inserted h | duplicate h => exact hother (by rw [h]; rintro ⟨⟩) _
  | got | getAbsent => exact hthread _ _ _
  | @updated q t => exact hthread q t (.set HttpStatus.successMessage)

/-! ## Calls without interruption -/

/-- On an existing document, `setSendMessage` stores any message, null too. -/
theorem message_setSendMessage (hp : c.present = true) (msg : Option String) :
    ∃ c', PingService.setSendMessage (some c) msg = (HttpStatus.successMessage, some c') ∧
      c'.message = some ⟨MappedConstant.msgId, msg⟩ := by
  rw [present_eq_isSome] at hp
  obtain ⟨d, hd⟩ := Option.isSome_iff_exists.mp hp
  exact ⟨c.update msg, rfl, by rw [message_update, hd]; rfl⟩

/-- A thread that is not interrupted goes through the steps of `getSendMessage`: it gets the message that
the call returns, and leaves the collection that the call leaves. -/
theorem run_getSendMessage {p : P} {t : T} (h : s.phase (.thread p t) ≠ .inserting) :
    ∃ acts s' m, (storeMachine P T).run s acts = some s' ∧
      PingService.getSendMessage (some s.store) = (some m, some s'.store) ∧
      s'.phase (.thread p t) = .got m := by
  cases hm : s.store.message with
  | some d =>
    have hstep : (storeMachine P T).step s (.findOne p t) =
        some (s.setPhase (.thread p t) (.got d.message)) := by
      simp only [storeMachine, PingService.afterFindOne, hm]
      exact if_pos h
    refine ⟨[.findOne p t], _, d.message, StepMachine.run_cons_eq_some.mpr ⟨_, hstep, rfl⟩, ?_,
      StoreState.setPhase_phase_self _⟩
    simp only [PingService.getSendMessage, hm]
    rfl
  | none =>
    have habsent : ¬ s.store.present = true := by
      rw [present_eq_isSome, hm]
      exact Bool.false_ne_true
    obtain ⟨c, hc⟩ : ∃ c, s.store.insert created = some c :=
      Option.ne_none_iff_exists'.mp fun hnone => habsent (insert_created_eq_none_iff.mp hnone)
    have hfind : (storeMachine P T).step s (.findOne p t) =
        some (s.setPhase (.thread p t) .inserting) := by
      simp only [storeMachine, PingService.afterFindOne, hm]
      exact if_pos h
    have hinsert : (storeMachine P T).step (s.setPhase (.thread p t) .inserting)
        (.insert (.thread p t)) =
        some { (s.setPhase (.thread p t) .inserting).setPhase (.thread p t) (.got created.message) with
          store := c } := by
      simp only [storeMachine, StoreState.setPhase_phase_self, StoreState.setPhase_store, hc, if_true]
      rfl
    refine ⟨[.findOne p t, .insert (.thread p t)], _, created.message,
      StepMachine.run_cons_eq_some.mpr ⟨_, hfind,
        StepMachine.run_cons_eq_some.mpr ⟨_, hinsert, rfl⟩⟩, ?_, StoreState.setPhase_phase_self _⟩
    simp only [PingService.getSendMessage, hm, hc]

end PingPong.Ping
