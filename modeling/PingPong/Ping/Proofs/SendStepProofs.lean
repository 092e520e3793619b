import PingPong.Ping.PingService

/-!
# Proofs: what one step of the Ping processes can do

`SendStep` lists the steps of `sendMachine` with their guards; every invariant of the machine is
proved by cases on it.
-/

namespace PingPong.Ping

open FileLimitedLock
open Feign (FeignResponse)

variable {P T S : Type} {channels : List S} {s s' : State P T S} {a : Action P T} {c c' : P × T} {f : S}

/-! ## The state after an update -/

@[simp] theorem setFiles_files (L : SlotFiles P S) : (s.setFiles L).files = L := rfl

@[simp] theorem setFiles_phase (L : SlotFiles P S) : (s.setFiles L).phase = s.phase := rfl

/-- `scan` never holds a slot. -/
@[simp] theorem slot_scan (fs : List S) : (Phase.scan fs).slot = none := by
  cases fs <;> rfl

theorem slot_of_canCall {ph : Phase S} (h : ph.canCall = true) : ph.slot = none := by
  cases ph <;> first | rfl | cases h

section

variable [DecidableEq S]

@[simp] theorem grant_streams (L : SlotFiles P S) (p : P) : (grant L p f).streams = L.streams := rfl

@[simp] theorem unlock_streams (L : SlotFiles P S) (p : P) : (unlock L p f).streams = L.streams := by
  unfold unlock
  split <;> rfl

@[simp] theorem grant_holder_self (L : SlotFiles P S) (p : P) : (grant L p f).holder f = some p :=
  Function.update_self ..

theorem grant_holder_of_ne {g : S} (h : g ≠ f) (L : SlotFiles P S) (p : P) :
    (grant L p f).holder g = L.holder g :=
  Function.update_of_ne h ..

theorem unlock_holder_self {L : SlotFiles P S} {p : P} (hopen : f ∈ L.streams p) :
    (unlock L p f).holder f = none := by
  unfold unlock
  rw [if_pos hopen]
  exact Function.update_self ..

theorem unlock_holder_of_ne {g : S} (h : g ≠ f) (L : SlotFiles P S) (p : P) :
    (unlock L p f).holder g = L.holder g := by
  unfold unlock
  split
  · exact Function.update_of_ne h ..
  · rfl

end

variable [DecidableEq P] [DecidableEq T]

@[simp] theorem setPhase_files (ph : Phase S) : (s.setPhase c ph).files = s.files := rfl

@[simp] theorem setPhase_phase_self (ph : Phase S) : (s.setPhase c ph).phase c = ph :=
  Function.update_self ..

theorem setPhase_phase_of_ne (h : c' ≠ c) (ph : Phase S) :
    (s.setPhase c ph).phase c' = s.phase c' :=
  Function.update_of_ne h ..

variable [DecidableEq S]

/-- On an open channel, `tryLock` succeeds exactly when nobody holds the file. -/
theorem tryLock_eq_granted {L : SlotFiles P S} {p : P} (hopen : f ∈ L.streams p) :
    tryLock L p f = .granted ↔ L.holder f = none := by
  unfold tryLock
  rw [if_pos hopen]
  cases L.holder f with
  | none => simp
  | some q => by_cases hq : q = p <;> simp [hq]

/-! ## The steps -/

/-- The steps of the machine, one constructor for each way a label can be taken. -/
inductive SendStep (channels : List S) (s : State P T S) : Action P T → State P T S → Prop where
  | call {c : P × T} (h : (s.phase c).canCall = true) :
      SendStep channels s (.call c) (s.setPhase c (.scan channels))
  | granted {c : P × T} {f : S} {fs : List S} (h : s.phase c = .scanning f fs)
      (ht : tryLock s.files c.1 f = .granted) :
      SendStep channels s (.tryLock c)
        ((s.setFiles (grant s.files c.1 f)).setPhase c (.locked f))
  | skipped {c : P × T} {f : S} {fs : List S} (h : s.phase c = .scanning f fs)
      (ht : tryLock s.files c.1 f ≠ .granted) :
      SendStep channels s (.tryLock c) (s.setPhase c (.scan fs))
  | lookupThrew {c : P × T} {f : S} (h : s.phase c = .locked f) :
      SendStep channels s (.lookup c none) (s.setPhase c (.unlocking f .threw))
  | lookedUp {c : P × T} {f : S} (m : Option String) (h : s.phase c = .locked f) :
      SendStep channels s (.lookup c (some m)) (s.setPhase c (.sending f m))
  | departed {c : P × T} {f : S} {m : Option String} (h : s.phase c = .sending f m) :
      SendStep channels s (.depart c) (s.setPhase c (.awaiting f m))
  | answerThrew {c : P × T} {f : S} {m : Option String} (h : s.phase c = .awaiting f m) :
      SendStep channels s (.answer c none) (s.setPhase c (.unlocking f .threw))
  | answered {c : P × T} {f : S} {m : Option String} (r : FeignResponse)
      (h : s.phase c = .awaiting f m) :
      SendStep channels s (.answer c (some r)) (s.setPhase c (.unlocking f (PingService.report r)))
  | unlocked {c : P × T} {f : S} {e : Exit} (h : s.phase c = .unlocking f e) :
      SendStep channels s (.unlock c)
        ((s.setFiles (unlock s.files c.1 f)).setPhase c (.ended e))
  | destroyed (p : P) :
      SendStep channels s (.destroy p) (s.setFiles (destroyNext s.files p))

/-- Every step of the machine is one of the listed ones. -/
theorem sendStep_of_step (h : (sendMachine P T channels).step s a = some s') :
    SendStep channels s a s' := by
  cases a with
  | call c =>
    simp only [sendMachine] at h
    split at h
    · rename_i hc
      cases h
      exact .call hc
    · cases h
  | tryLock c =>
    simp only [sendMachine] at h
    split at h
    · rename_i f fs hph
      split at h <;> rename_i ht <;> cases h
      · exact .granted hph ht
      · exact .skipped hph (by rw [ht]; decide)
      · exact .skipped hph (by rw [ht]; decide)
    · cases h
  | lookup c msg =>
    simp only [sendMachine] at h
    split at h
    · rename_i f hph
      cases msg with
      | none => cases h; exact .lookupThrew hph
      | some m => cases h; exact .lookedUp m hph
    · cases h
  | depart c =>
    simp only [sendMachine] at h
    split at h
    · rename_i f m hph
      cases h
      exact .departed hph
    · cases h
  | answer c response =>
    simp only [sendMachine] at h
    split at h
    · rename_i f m hph
      cases response with
      | none => cases h; exact .answerThrew hph
      | some r => cases h; exact .answered r hph
    · cases h
  | unlock c =>
    simp only [sendMachine] at h
    split at h
    · rename_i f e hph
      cases h
      exact .unlocked hph
    · cases h
  | destroy p =>
    cases h
    exact .destroyed p

/-- A step of the machine without shutdowns is a step that destroys nothing. -/
theorem sendStep_of_running (h : (runningMachine P T channels).step s a = some s') :
    SendStep channels s a s' ∧ a.isDestroy = false := by
  obtain ⟨hd, hs⟩ := StepMachine.restrict_step_eq_some.mp h
  exact ⟨sendStep_of_step hs, by simpa using hd⟩

/-- A step moves its actor only. -/
theorem phase_of_actor_ne (h : SendStep channels s a s') (hc : a.actor ≠ some c) :
    s'.phase c = s.phase c := by
  cases h <;> first
    | rfl
    | exact setPhase_phase_of_ne (fun e => hc (by rw [e]; rfl)) _

/-- The only step of a thread that waits for Pong is the end of its HTTP call. -/
theorem awaiting_step {m : Option String} (hph : s.phase c = .awaiting f m)
    (h : SendStep channels s a s') (hact : a.actor = some c) : ∃ r, a = .answer c r := by
  cases h with
  | answerThrew _ => cases hact; exact ⟨none, rfl⟩
  | answered r _ => cases hact; exact ⟨some r, rfl⟩
  | call hc => cases hact; rw [hph] at hc; cases hc
  | destroyed p => cases hact
  | granted hph' _ => cases hact; rw [hph] at hph'; cases hph'
  | skipped hph' _ => cases hact; rw [hph] at hph'; cases hph'
  | lookupThrew hph' => cases hact; rw [hph] at hph'; cases hph'
  | lookedUp m hph' => cases hact; rw [hph] at hph'; cases hph'
  | departed hph' => cases hact; rw [hph] at hph'; cases hph'
  | unlocked hph' => cases hact; rw [hph] at hph'; cases hph'

end PingPong.Ping
