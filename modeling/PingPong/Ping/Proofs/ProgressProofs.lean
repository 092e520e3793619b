import PingPong.Ping.Proofs.SendStepProofs
import PingPong.StepMachine.Progress
import Mathlib.Data.List.Infix

/-!
# Proofs: progress of a call

No step of `send` waits for another thread: `lock()` passes over a slot that it does not get. So every call
ends after a bounded number of its own steps, whatever the other calls and the shutdowns do in between.
-/

namespace PingPong.Ping

variable {P T S : Type} {channels : List S} {s s' : State P T S} {a : Action P T} {c : P × T}
  {acts : List (Action P T)}

/-- The steps that a call has at most before it. -/
def Phase.work : Phase S → ℕ
  | idle => 0
  | scanning _ fs => fs.length + 5
  | refused => 0
  | locked _ => 4
  | sending _ _ => 3
  | awaiting _ _ => 2
  | unlocking _ _ => 1
  | ended _ => 0

theorem Phase.work_scan_le (fs : List S) : (Phase.scan fs).work ≤ fs.length + 4 := by
  cases fs with
  | nil => exact Nat.zero_le _
  | cons f fs =>
    show fs.length + 5 ≤ fs.length + 1 + 4
    omega

theorem Phase.canCall_of_work {ph : Phase S} (h : ph.work = 0) : ph.canCall = true := by
  cases ph <;> first | rfl | cases h

variable [DecidableEq P] [DecidableEq T] [DecidableEq S]

/-! ## One step -/

/-- A step of a call brings it closer to its end. -/
theorem work_step (hcall : a ≠ .call c) (hact : a.actor = some c) (h : SendStep channels s a s') :
    (s'.phase c).work < (s.phase c).work := by
  cases h with
  | call _ =>
    cases hact
    exact absurd rfl hcall
  | destroyed p => cases hact
  | skipped hph _ =>
    cases hact
    rw [setPhase_phase_self, hph]
    have hle := Phase.work_scan_le ‹List S›
    show _ < List.length _ + 5
    omega
  | granted hph _ =>
    cases hact
    rw [setPhase_phase_self, hph]
    show 4 < List.length _ + 5
    omega
  | lookupThrew hph =>
    cases hact
    rw [setPhase_phase_self, hph]
    exact (by decide : 1 < 4)
  | lookedUp _ hph | departed hph | answerThrew hph | answered _ hph | unlocked hph =>
    cases hact
    rw [setPhase_phase_self, hph]
    exact Nat.lt_succ_self _

/-- A call has no more steps before it than one for each slot and four others. -/
theorem work_le_step (hle : ∀ c, (s.phase c).work ≤ channels.length + 4) (h : SendStep channels s a s')
    (c : P × T) : (s'.phase c).work ≤ channels.length + 4 := by
  by_cases hact : a.actor = some c
  · by_cases hcall : a = .call c
    · subst hcall
      cases h with
      | call _ =>
        rw [setPhase_phase_self]
        exact Phase.work_scan_le channels
    · exact (work_step hcall hact h).le.trans (hle c)
  · rw [phase_of_actor_ne h hact]
    exact hle c

theorem work_le_run (h : (sendMachine P T channels).run (State.start channels) acts = some s) (c : P × T) :
    (s.phase c).work ≤ channels.length + 4 :=
  StepMachine.run_invariant (I := fun s => ∀ c, (s.phase c).work ≤ channels.length + 4)
    (fun _ _ _ hI hs => work_le_step hI (sendStep_of_step hs)) (fun _ => Nat.zero_le _) h c

/-! ## Calls are not stuck -/

/-- A call can always take its next step. -/
theorem exists_step (hph : (s.phase c).canCall = false) :
    ∃ a s', a.actor = some c ∧ a ≠ .call c ∧ (sendMachine P T channels).step s a = some s' := by
  cases h : s.phase c with
  | idle => rw [h] at hph; cases hph
  | refused => rw [h] at hph; cases hph
  | ended e => rw [h] at hph; cases hph
  | scanning f fs =>
    refine ⟨.tryLock c, ?_⟩
    cases ht : FileLimitedLock.tryLock s.files c.1 f with
    | granted => exact ⟨_, rfl, by rintro ⟨⟩, by simp only [sendMachine, h, ht]; rfl⟩
    | null => exact ⟨_, rfl, by rintro ⟨⟩, by simp only [sendMachine, h, ht]; rfl⟩
    | exception => exact ⟨_, rfl, by rintro ⟨⟩, by simp only [sendMachine, h, ht]; rfl⟩
  | locked f => exact ⟨.lookup c none, _, rfl, by rintro ⟨⟩, by simp only [sendMachine, h]; rfl⟩
  | sending f msg => exact ⟨.depart c, _, rfl, by rintro ⟨⟩, by simp only [sendMachine, h]; rfl⟩
  | awaiting f msg => exact ⟨.answer c none, _, rfl, by rintro ⟨⟩, by simp only [sendMachine, h]; rfl⟩
  | unlocking f e => exact ⟨.unlock c, _, rfl, by rintro ⟨⟩, by simp only [sendMachine, h]; rfl⟩

/-! ## Every call ends -/

/-- In every state a running call can take its next step, and it ends within one step for each slot and
four others, whatever the other threads and the shutdowns do in between. -/
theorem send_wait_free (lockFile : String) (num : ℕ) (before acts : List (Action P T))
    (s s' : State P T String) (c : P × T)
    (hbefore : (sendMachine P T (FileLimitedLock.init lockFile num)).run
      (State.start (FileLimitedLock.init lockFile num)) before = some s)
    (hacts : (sendMachine P T (FileLimitedLock.init lockFile num)).run s acts = some s')
    (hcall : ∀ a ∈ acts, a ≠ .call c) :
    acts.countP (fun a => decide (a.actor = some c)) ≤ num + 4 ∧
    (acts.countP (fun a => decide (a.actor = some c)) = num + 4 → (s'.phase c).canCall = true) ∧
    ((s'.phase c).canCall = false → ∃ a s'', a.actor = some c ∧ a ≠ .call c ∧
      (sendMachine P T (FileLimitedLock.init lockFile num)).step s' a = some s'') := by
  have hlength : (FileLimitedLock.init lockFile num).length = num := by simp [FileLimitedLock.init]
  have hstart : (s.phase c).work ≤ num + 4 := hlength ▸ work_le_run hbefore c
  have hown : ∀ u a u', a ≠ .call c → decide (a.actor = some c) = true →
      (sendMachine P T (FileLimitedLock.init lockFile num)).step u a = some u' →
      (u'.phase c).work < (u.phase c).work :=
    fun u a u' hok hmine hs => work_step hok (of_decide_eq_true hmine) (sendStep_of_step hs)
  have hother : ∀ u a u', decide (a.actor = some c) = false →
      (sendMachine P T (FileLimitedLock.init lockFile num)).step u a = some u' →
      (u'.phase c).work = (u.phase c).work := by
    intro u a u' hother hs
    rw [phase_of_actor_ne (sendStep_of_step hs) (of_decide_eq_false hother)]
  have hsteps : acts.countP (fun a => decide (a.actor = some c)) + (s'.phase c).work ≤ (s.phase c).work :=
    StepMachine.countP_add_variant_le hown hother hcall hacts
  refine ⟨by omega, fun hall => Phase.canCall_of_work (by omega), exists_step⟩

/-- A call that passes over the slot of another process and is refused. -/
theorem send_wait_free_refused : ∃ s s' : State (Fin 2) Unit String,
    (sendMachine (Fin 2) Unit (FileLimitedLock.init "lock" 1)).run
        (State.start (FileLimitedLock.init "lock" 1)) [.call (0, ()), .tryLock (0, ()), .call (1, ())] =
      some s ∧
    (sendMachine (Fin 2) Unit (FileLimitedLock.init "lock" 1)).run s [.tryLock (1, ())] = some s' ∧
    ([.tryLock (1, ())] : List (Action (Fin 2) Unit)).countP (fun a => decide (a.actor = some (1, ()))) ≤
      1 + 4 :=
  ⟨_, _, rfl, rfl, (send_wait_free "lock" 1 [.call (0, ()), .tryLock (0, ()), .call (1, ())]
    [.tryLock (1, ())] _ _ (1, ()) rfl rfl (by decide)).1⟩

end PingPong.Ping
