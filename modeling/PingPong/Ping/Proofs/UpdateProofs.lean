import PingPong.Ping.Proofs.StoreStepProofs

/-!
# Proofs: updates of the message are kept

A process serves clients after its own `init` has completed, so the document exists from then on:
updates hit it, reads find it, and a late insert of another process fails.
-/

namespace PingPong.Ping

open Messages

variable {P T : Type} {s s' : StoreState P T} {a : StoreAction P T} {c : Messages}
  {acts : List (StoreAction P T)}

/-- What holds in every run: an `init` that has completed has left a document, no client call is about
to insert, and the document, or else the one that will be created, has the last message. -/
structure Serving (c : Messages) (acts : List (StoreAction P T)) (s : StoreState P T) : Prop where
  ready : ∀ p, s.phase (.init p) = .initialized → s.store.present = true
  reading : ∀ p t, s.phase (.thread p t) ≠ .inserting
  last : (s.store.message.getD created).message = lastMessage c acts

theorem serving_start : Serving (P := P) (T := T) c [] (.start c) where
  ready _ := nofun
  reading _ _ := nofun
  last := rfl

theorem lastMessage_append (acts : List (StoreAction P T)) (a : StoreAction P T) :
    lastMessage c (acts ++ [a]) =
      match a with | .updateFirst _ _ msg => msg | _ => lastMessage c acts :=
  List.foldl_concat ..

/-! ## Steps -/

/-- The document may change as long as it does not go away. -/
theorem Serving.setStore {c' : Messages} {acts' : List (StoreAction P T)} (h : Serving c acts s)
    (hp : s.store.present = true → c'.present = true)
    (hlast : (c'.message.getD created).message = lastMessage c acts') :
    Serving c acts' { s with store := c' } :=
  ⟨fun p hinit => hp (h.ready p hinit), h.reading, hlast⟩

/-- An insert that succeeds adds the document the clients expect. -/
theorem Serving.insert {c' : Messages} (h : Serving c acts s)
    (hc : s.store.insert created = some c') :
    Serving c acts { s with store := c' } := by
  have habsent : s.store.message = none := by
    have hp : ¬ s.store.present = true := fun hp => by
      rw [insert_created_eq_none_iff.mpr hp] at hc
      cases hc
    rw [present_eq_isSome] at hp
    simpa using hp
  refine h.setStore (fun _ => present_of_insert hc) ?_
  rw [message_of_insert hc, ← h.last, habsent]
  rfl

/-- While a process serves, the document exists. -/
theorem Serving.exists_message (h : Serving c acts s) {p : P}
    (hinit : s.phase (.init p) = .initialized) : ∃ m, s.store.message = some m := by
  have hp := h.ready p hinit
  rw [present_eq_isSome] at hp
  exact Option.isSome_iff_exists.mp hp

variable [DecidableEq P] [DecidableEq T]

theorem Serving.setInit {p : P} {ph : CallPhase} (h : Serving c acts s)
    (hready : ph = .initialized → s.store.present = true) :
    Serving c acts (s.setPhase (.init p) ph) := by
  refine ⟨fun q hq => ?_, fun q t => ?_, h.last⟩
  · by_cases hqp : Caller.init (T := T) q = .init p
    · rw [hqp, StoreState.setPhase_phase_self] at hq
      exact hready hq
    · rw [StoreState.setPhase_phase_of_ne hqp] at hq
      exact h.ready q hq
  · have hne : Caller.thread q t ≠ .init p := nofun
    rw [StoreState.setPhase_phase_of_ne hne]
    exact h.reading q t

theorem Serving.setThread {p : P} {t : T} {ph : CallPhase} (h : Serving c acts s)
    (hreading : ph ≠ .inserting) : Serving c acts (s.setPhase (.thread p t) ph) := by
  refine ⟨fun q hq => ?_, fun q u => ?_, h.last⟩
  · have hne : Caller.init (T := T) q ≠ .thread p t := nofun
    rw [StoreState.setPhase_phase_of_ne hne] at hq
    exact h.ready q hq
  · by_cases hqp : Caller.thread q u = .thread p t
    · rw [hqp, StoreState.setPhase_phase_self]
      exact hreading
    · rw [StoreState.setPhase_phase_of_ne hqp]
      exact h.reading q u

theorem serving_step (h : Serving c acts s) (hserved : servedBy s a = true)
    (hstep : StoreStep s a s') : Serving c (acts ++ [a]) s' ∧ KeepsUpdates c acts s s' a := by
  have hsame : ∀ {u : StoreState P T}, (∀ p t msg, a ≠ .updateFirst p t msg) → Serving c acts u →
      Serving c (acts ++ [a]) u := by
    intro u ha hu
    refine ⟨hu.ready, hu.reading, hu.last.trans ?_⟩
    rw [lastMessage_append]
    cases a with
    | updateFirst p t msg => exact absurd rfl (ha p t msg)
    | _ => rfl
  cases hstep with
  | initFound _ hp => exact ⟨hsame nofun (h.setInit fun _ => hp), trivial⟩
  | initAbsent => exact ⟨hsame nofun (h.setInit nofun), trivial⟩
  | got _ hm =>
    refine ⟨hsame nofun (h.setThread nofun), ?_⟩
    show (s.setPhase _ _).phase _ = _
    rw [StoreState.setPhase_phase_self, ← h.last, hm]
    rfl
  | getAbsent _ hp =>
    obtain ⟨m, hm⟩ := h.exists_message (by simpa [servedBy] using hserved)
    rw [present_eq_isSome, hm] at hp
    cases hp
  | @inserted k _ hk hc =>
    cases k with
    | thread p t => exact absurd hk (h.reading p t)
    | init p =>
      have hset : Serving c acts { s.setPhase (.init p) .initialized with store := _ } :=
        (h.insert hc).setInit fun _ => present_of_insert hc
      exact ⟨hsame nofun hset, p, rfl⟩
  | @duplicate k hk _ =>
    cases k with
    | thread p t => exact absurd hk (h.reading p t)
    | init p => exact ⟨hsame nofun (h.setInit nofun), p, rfl⟩
  | @updated p t msg =>
    obtain ⟨m, hm⟩ := h.exists_message (by simpa [servedBy] using hserved)
    have hmsg : (s.store.update msg).message = some ⟨MappedConstant.msgId, msg⟩ := by
      rw [message_update, hm]
      rfl
    have hset : Serving c acts (s.setPhase (.thread p t) (.set HttpStatus.successMessage)) :=
      h.setThread nofun
    refine ⟨hset.setStore (fun hp => by rw [present_update]; exact hp) ?_, ?_, ?_, hmsg⟩
    · rw [lastMessage_append, hmsg]
      rfl
    · rw [present_eq_isSome, hm]
      rfl
    · exact StoreState.setPhase_phase_self _

/-! ## Runs -/

theorem serving_run (hrun : (servingMachine P T).run (.start c) acts = some s) :
    Serving c acts s :=
  StepMachine.run_history serving_start
    (fun _ _ _ _ _ hu hstep => (serving_step hu (storeStep_of_serving hstep).1
      (storeStep_of_serving hstep).2).1) hrun

/-- In every run in which the processes serve after their `init`, every step keeps the updates. -/
theorem keepsUpdates_step (c : Messages) (acts : List (StoreAction P T)) (a : StoreAction P T)
    (s s' : StoreState P T) (hrun : (servingMachine P T).run (.start c) acts = some s)
    (hstep : (servingMachine P T).step s a = some s') : KeepsUpdates c acts s s' a := by
  obtain ⟨hserved, hstep⟩ := storeStep_of_serving hstep
  exact (serving_step (serving_run hrun) hserved hstep).2

/-- The second process checks before the first one inserts, and its own insert fails after the message
has been updated. -/
def lateInsert : List (StoreAction Bool Unit) :=
  [.exists true, .exists false, .insert (.init false), .updateFirst false () (some "Hi"),
    .insert (.init true)]

theorem keepsUpdates_step_lateInsert : ∃ s s' : StoreState Bool Unit,
    (servingMachine Bool Unit).run (.start .empty) lateInsert = some s ∧
    (servingMachine Bool Unit).step s (.findOne false ()) = some s' ∧
    s'.phase (.thread false ()) = .got (some "Hi") := by
  obtain ⟨s, s', hrun, hstep⟩ : ∃ s s' : StoreState Bool Unit,
      (servingMachine Bool Unit).run (.start .empty) lateInsert = some s ∧
      (servingMachine Bool Unit).step s (.findOne false ()) = some s' := ⟨_, _, rfl, rfl⟩
  exact ⟨s, s', hrun, hstep, keepsUpdates_step .empty lateInsert (.findOne false ()) s s' hrun hstep⟩

end PingPong.Ping
