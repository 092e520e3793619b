import PingPong.Ping.Refusal
import PingPong.Ping.Proofs.SlotProofs

/-!
# Proofs: what a refused call of `lock()` has seen

The call has seen every slot locked, each at the moment of its own `tryLock` (`scanning_saw`). These
moments may differ: with two slots there is a run in which no instant has both locked. They coincide
when no slot is freed behind the scan (`scanning_instant`).
-/

namespace PingPong.Ping

open FileLimitedLock

variable {P T S : Type} {channels : List S} {s s' : State P T S} {a : Action P T} {c : P × T} {f : S}
  {fs : List S}

/-- The point of a thread is neither inside a scan nor after a failed one. -/
def OutsideScan (ph : Phase S) : Prop := ph ≠ .refused ∧ ∀ f fs, ph ≠ .scanning f fs

theorem outsideScan_of_slot {ph : Phase S} (h : ph.slot ≠ none) : OutsideScan ph :=
  ⟨fun e => h (by rw [e]; rfl), fun f fs e => h (by rw [e]; rfl)⟩

theorem outsideScan_ended (e : Exit) : OutsideScan (Phase.ended e : Phase S) :=
  ⟨nofun, nofun⟩

variable [DecidableEq P] [DecidableEq T] [DecidableEq S]

/-- A thread gets into a scan by a new call only. -/
theorem outsideScan_step (h : SendStep channels s a s') (ha : a ≠ .call c)
    (hc : OutsideScan (s.phase c)) : OutsideScan (s'.phase c) := by
  by_cases hact : a.actor = some c
  · cases h with
    | call _ => exact absurd (congrArg _ (Option.some.inj hact)) ha
    | granted hph _ => cases hact; exact absurd hph (hc.2 _ _)
    | skipped hph _ => cases hact; exact absurd hph (hc.2 _ _)
    | unlocked _ => cases hact; rw [setPhase_phase_self]; exact outsideScan_ended _
    | destroyed p => cases hact
    | _ =>
      cases hact
      rw [setPhase_phase_self]
      exact outsideScan_of_slot (Option.some_ne_none _)
  · rw [phase_of_actor_ne h hact]; exact hc

theorem outsideScan_run {l : List (Action P T)} (hl : Action.call c ∉ l)
    (hc : OutsideScan (s.phase c)) (h : (runningMachine P T channels).run s l = some s') :
    OutsideScan (s'.phase c) := by
  induction l generalizing s with
  | nil => cases h; exact hc
  | cons a l ih =>
    obtain ⟨u, hu, hrun⟩ := StepMachine.run_cons_eq_some.mp h
    obtain ⟨ha, hl'⟩ := not_or.mp (mt List.mem_cons.mpr hl)
    exact ih hl' (outsideScan_step (sendStep_of_running hu).1 (Ne.symm ha) hc) hrun

/-- The next step of a scan that is going to fail: the thread stays where it is, or its `tryLock`
finds `f` locked and the scan goes on. -/
theorem scanning_step (hI : SlotInv channels s) (hph : s.phase c = .scanning f fs)
    (h : SendStep channels s a s') (ha : a ≠ .call c) :
    s'.phase c = .scanning f fs ∨ OutsideScan (s'.phase c) ∨
      (a = .tryLock c ∧ s' = s.setPhase c (.scan fs) ∧ s.files.holder f ≠ none) := by
  by_cases hact : a.actor = some c
  · have hopen : f ∈ s.files.streams c.1 := by
      rw [hI.streams]
      exact (hI.scan_suffix c f fs hph).subset List.mem_cons_self
    cases h with
    | call _ => exact absurd (congrArg _ (Option.some.inj hact)) ha
    | granted _ _ =>
      cases hact
      rw [setPhase_phase_self]
      exact Or.inr (Or.inl (outsideScan_of_slot (Option.some_ne_none _)))
    | skipped hph' ht =>
      cases hact
      rw [hph] at hph'
      cases hph'
      exact Or.inr (Or.inr ⟨rfl, rfl, fun e => ht ((tryLock_eq_granted hopen).mpr e)⟩)
    | destroyed p => cases hact
    | lookupThrew hph' => cases hact; rw [hph] at hph'; cases hph'
    | lookedUp m hph' => cases hact; rw [hph] at hph'; cases hph'
    | departed hph' => cases hact; rw [hph] at hph'; cases hph'
    | answerThrew hph' => cases hact; rw [hph] at hph'; cases hph'
    | answered r hph' => cases hact; rw [hph] at hph'; cases hph'
    | unlocked hph' => cases hact; rw [hph] at hph'; cases hph'
  · rw [phase_of_actor_ne h hact]; exact Or.inl hph

/-! ## What a scan sees -/

/-- At one of its `tryLock`s in the run `l` from `s`, the thread meets a state with `Q`. -/
def Sees (channels : List S) (c : P × T) (s : State P T S) (l : List (Action P T))
    (Q : State P T S → Prop) : Prop :=
  ∃ pre post u, l = pre ++ .tryLock c :: post ∧
    (runningMachine P T channels).run s pre = some u ∧ Q u

theorem Sees.now {l : List (Action P T)} {Q : State P T S → Prop} (h : Q s) :
    Sees channels c s (.tryLock c :: l) Q :=
  ⟨[], l, s, rfl, rfl, h⟩

/-- What the rest of a run sees, the whole run sees. -/
theorem Sees.cons {l : List (Action P T)} {Q : State P T S → Prop} (h : Sees channels c s' l Q)
    (hs : (runningMachine P T channels).step s a = some s') : Sees channels c s (a :: l) Q := by
  obtain ⟨pre, post, u, rfl, hpre, hQ⟩ := h
  exact ⟨a :: pre, post, u, rfl, StepMachine.run_cons_eq_some.mpr ⟨s', hs, hpre⟩, hQ⟩

/-- A scan that ends in a refusal finds each of its remaining slots locked, at the `tryLock` on it. -/
theorem scanning_saw {l : List (Action P T)} (hI : SlotInv channels s)
    (hph : s.phase c = .scanning f fs) (h : (runningMachine P T channels).run s l = some s')
    (hl : Action.call c ∉ l) (hnull : s'.phase c = .refused) :
    ∀ g ∈ f :: fs, Sees channels c s l fun u =>
      (∃ gs, u.phase c = .scanning g gs) ∧ u.files.holder g ≠ none := by
  induction l generalizing s f fs with
  | nil => cases h; rw [hph] at hnull; cases hnull
  | cons a l ih =>
    obtain ⟨u, hu, hrun⟩ := StepMachine.run_cons_eq_some.mp h
    obtain ⟨ha, hl'⟩ := not_or.mp (mt List.mem_cons.mpr hl)
    obtain ⟨hstep, hd⟩ := sendStep_of_running hu
    have hIu := slotInv_step hI hstep hd
    intro g hg
    rcases scanning_step hI hph hstep (Ne.symm ha) with hstay | hout | ⟨rfl, rfl, hheld⟩
    · exact (ih hIu hstay hrun hl' g hg).cons hu
    · exact absurd hnull (outsideScan_run hl' hout hrun).1
    · rcases List.mem_cons.mp hg with rfl | hg
      · exact .now ⟨⟨fs, hph⟩, hheld⟩
      · cases fs with
        | nil => cases hg
        | cons f' fs' => exact (ih hIu (setPhase_phase_self _) hrun hl' g hg).cons hu

/-- A step frees the slot of the thread that unlocks, and no other. -/
theorem holder_ne_none_step (h : SendStep channels s a s')
    (ha : a.isDestroy = false) {g : S} (hg : s.files.holder g ≠ none)
    (hkeep : ∀ c', a = .unlock c' → (s.phase c').slot ≠ some g) : s'.files.holder g ≠ none := by
  cases h with
  | @granted c f fs hph ht =>
    rw [setPhase_files, setFiles_files]
    by_cases he : g = f
    · rw [he, grant_holder_self]; exact Option.some_ne_none _
    · rw [grant_holder_of_ne he]; exact hg
  | @unlocked c f e hph =>
    have hslot : (s.phase c).slot = some f := by rw [hph]; rfl
    have hne : g ≠ f := fun he => hkeep c rfl (he ▸ hslot)
    rw [setPhase_files, setFiles_files, unlock_holder_of_ne hne]
    exact hg
  | destroyed p => cases ha
  | _ => exact hg

theorem KeepsPassed.tail {l : List (Action P T)} (hk : KeepsPassed channels c s (a :: l))
    (hu : (runningMachine P T channels).step s a = some s') : KeepsPassed channels c s' l := by
  intro pre post v c' g f passed fs hl hrun
  exact hk (a :: pre) post v c' g f passed fs (by rw [hl]; rfl)
    (StepMachine.run_cons_eq_some.mpr ⟨s', hu, hrun⟩)

/-- If no slot is freed behind a scan that ends in a refusal, then all slots are locked at one of its
`tryLock`s: the slots it has passed stay locked up to the last one. -/
theorem scanning_instant {l : List (Action P T)} (passed : List S) (hI : SlotInv channels s)
    (hph : s.phase c = .scanning f fs) (hpassed : passed ++ f :: fs = channels)
    (hlocked : ∀ g ∈ passed, s.files.holder g ≠ none)
    (h : (runningMachine P T channels).run s l = some s') (hl : Action.call c ∉ l)
    (hnull : s'.phase c = .refused) (hk : KeepsPassed channels c s l) :
    Sees channels c s l (AllLocked channels) := by
  induction l generalizing s f fs passed with
  | nil => cases h; rw [hph] at hnull; cases hnull
  | cons a l ih =>
    obtain ⟨u, hu, hrun⟩ := StepMachine.run_cons_eq_some.mp h
    obtain ⟨ha, hl'⟩ := not_or.mp (mt List.mem_cons.mpr hl)
    obtain ⟨hstep, hd⟩ := sendStep_of_running hu
    have hIu := slotInv_step hI hstep hd
    have hlockedu : ∀ g ∈ passed, u.files.holder g ≠ none := fun g hg =>
      holder_ne_none_step hstep hd (hlocked g hg) fun c' hc' hslot =>
        hk [] l s c' g f passed fs (by rw [hc']; rfl) rfl hslot hph hpassed hg
    rcases scanning_step hI hph hstep (Ne.symm ha) with hstay | hout | ⟨rfl, rfl, hheld⟩
    · exact (ih passed hIu hstay hpassed hlockedu hrun hl' (hk.tail hu)).cons hu
    · exact absurd hnull (outsideScan_run hl' hout hrun).1
    · have hall : ∀ g ∈ passed ++ [f], s.files.holder g ≠ none := by
        intro g hg
        rcases List.mem_append.mp hg with hg | hg
        · exact hlocked g hg
        · rw [List.mem_singleton.mp hg]; exact hheld
      cases fs with
      | nil => exact .now (hpassed ▸ hall)
      | cons f' fs' =>
        have hnext : (passed ++ [f]) ++ f' :: fs' = channels := by
          rw [List.append_assoc]
          exact hpassed
        have hrest := ih (passed ++ [f]) hIu (setPhase_phase_self _) hnext hall hrun hl' (hk.tail hu)
        exact hrest.cons hu

/-! ## Refused calls -/

/-- With a single slot nothing is behind the scan. -/
theorem keepsPassed_of_length_one {l : List (Action P T)} (h1 : channels.length = 1) :
    KeepsPassed channels c s l := by
  intro pre post u c' g f passed fs _ _ _ _ hch
  have hlen := congrArg List.length hch
  rw [h1, List.length_append, List.length_cons] at hlen
  have hnil : passed = [] := List.eq_nil_of_length_eq_zero (by omega)
  rw [hnil]
  exact List.not_mem_nil

/-- A refused call meets every slot as the slot of another send. -/
theorem RefusedCall.saw {acts l : List (Action P T)} (hr : RefusedCall channels c s l s')
    (h0 : (runningMachine P T channels).run (State.start channels) acts = some s) :
    ∀ f ∈ channels, Sees channels c s l fun u =>
      (∃ fs, u.phase c = .scanning f fs) ∧ ∃ c', c' ≠ c ∧ (u.phase c').slot = some f := by
  intro f hf
  rcases hch : channels with _ | ⟨f₀, fs₀⟩
  · rw [hch] at hf; cases hf
  · have hstart := hr.start
    rw [hch] at hstart hf
    rw [← hch]
    obtain ⟨pre, post, u, hl, hpre, ⟨fs, hph⟩, hheld⟩ :=
      scanning_saw (slotInv_run h0) hstart hr.run hr.same hr.null f hf
    obtain ⟨p, hp⟩ := Option.ne_none_iff_exists'.mp hheld
    have hIu := slotInv_run (StepMachine.run_append_eq_some.mpr ⟨s, h0, hpre⟩)
    obtain ⟨t, ht⟩ := hIu.held_slot f p hp
    have hne : (p, t) ≠ c := by
      intro e
      rw [e, hph] at ht
      cases ht
    exact ⟨pre, post, u, hl, hpre, ⟨fs, hph⟩, (p, t), hne, ht⟩

/-- A refused call behind which no slot is freed meets a state with all slots locked. -/
theorem RefusedCall.saw_allLocked {l : List (Action P T)} (hr : RefusedCall channels c s l s')
    (hI : SlotInv channels s) (hk : KeepsPassed channels c s l) :
    Sees channels c s l (AllLocked channels) := by
  rcases hch : channels with _ | ⟨f₀, fs₀⟩
  · obtain ⟨m, hm⟩ := List.head?_eq_some_iff.mp hr.first
    rw [hm]
    exact .now fun f hf => by cases hf
  · have hstart := hr.start
    rw [hch] at hstart
    rw [← hch]
    exact scanning_instant [] hI hstart hch.symm (fun g hg => by cases hg) hr.run hr.same hr.null hk

/-- A refused call has seen every slot locked by another send, at its own `tryLock` on the slot. All
slots are locked at one of its `tryLock`s when no slot it has passed is freed before it ends, and so
always when there is one slot. -/
theorem refused_call_locked (lockFile : String) (num : ℕ) (acts : List (Action P T))
    {s s' : State P T String} {c : P × T} {l : List (Action P T)}
    (h0 : (runningMachine P T (init lockFile num)).run (State.start (init lockFile num)) acts = some s)
    (hr : RefusedCall (init lockFile num) c s l s') :
    (∀ f ∈ init lockFile num, ∃ pre post u fs c', l = pre ++ .tryLock c :: post ∧
      (runningMachine P T (init lockFile num)).run s pre = some u ∧ u.phase c = .scanning f fs ∧
      c' ≠ c ∧ (u.phase c').slot = some f) ∧
    (KeepsPassed (init lockFile num) c s l → ∃ pre post u, l = pre ++ .tryLock c :: post ∧
      (runningMachine P T (init lockFile num)).run s pre = some u ∧ AllLocked (init lockFile num) u) ∧
    (num = 1 → ∃ pre post u, l = pre ++ .tryLock c :: post ∧
      (runningMachine P T (init lockFile num)).run s pre = some u ∧
      AllLocked (init lockFile num) u) := by
  refine ⟨fun f hf => ?_, fun hk => hr.saw_allLocked (slotInv_run h0) hk, fun h1 => ?_⟩
  · obtain ⟨pre, post, u, hl, hpre, ⟨fs, hph⟩, c', hne, hslot⟩ := hr.saw h0 f hf
    exact ⟨pre, post, u, fs, c', hl, hpre, hph, hne, hslot⟩
  · refine hr.saw_allLocked (slotInv_run h0) (keepsPassed_of_length_one ?_)
    rw [init_length, h1]

/-- Processes 0 and 1 hold both slots, and process 2 is about to scan. -/
def twoSlotsTaken : List (Action (Fin 3) Unit) :=
  [.call (0, ()), .tryLock (0, ()), .call (1, ()), .tryLock (1, ()), .tryLock (1, ()), .call (2, ())]

/-- Process 2 finds both slots taken. -/
def vainScan : List (Action (Fin 3) Unit) := [.tryLock (2, ()), .tryLock (2, ())]

theorem refused_call_locked_twoSlotsTaken :
    ∃ s s' : State (Fin 3) Unit String,
      RefusedCall (init "lock" 2) (2, ()) s vainScan s' ∧
      (∀ f ∈ init "lock" 2, ∃ pre post u fs c', vainScan = pre ++ .tryLock (2, ()) :: post ∧
        (runningMachine (Fin 3) Unit (init "lock" 2)).run s pre = some u ∧
        u.phase (2, ()) = .scanning f fs ∧ c' ≠ (2, ()) ∧ (u.phase c').slot = some f) ∧
      ∃ pre post u, vainScan = pre ++ .tryLock (2, ()) :: post ∧
        (runningMachine (Fin 3) Unit (init "lock" 2)).run s pre = some u ∧
        AllLocked (init "lock" 2) u := by
  obtain ⟨s, h0, hstart⟩ : ∃ s, (runningMachine (Fin 3) Unit (init "lock" 2)).run
      (State.start (init "lock" 2)) twoSlotsTaken = some s ∧
      s.phase (2, ()) = .scan (init "lock" 2) := ⟨_, rfl, rfl⟩
  obtain ⟨s', hall', hnull⟩ : ∃ s', (runningMachine (Fin 3) Unit (init "lock" 2)).run
      (State.start (init "lock" 2)) (twoSlotsTaken ++ vainScan) = some s' ∧
      s'.phase (2, ()) = .refused := ⟨_, rfl, rfl⟩
  have hrun : (runningMachine (Fin 3) Unit (init "lock" 2)).run s vainScan = some s' := by
    rw [StepMachine.run_append, h0] at hall'
    exact hall'
  have hr : RefusedCall (init "lock" 2) (2, ()) s vainScan s' := ⟨hstart, rfl, rfl, hrun, by decide, hnull⟩
  -- no step of the scan unlocks a slot
  have hkeeps : KeepsPassed (init "lock" 2) (2, ()) s vainScan := by
    intro pre post u c' g f passed fs hl
    have hmem : Action.unlock c' ∈ vainScan := hl ▸ List.mem_append_right _ List.mem_cons_self
    simp [vainScan] at hmem
  obtain ⟨hsaw, hlocked, -⟩ := refused_call_locked "lock" 2 twoSlotsTaken h0 hr
  exact ⟨s, s', hr, hsaw, hlocked hkeeps⟩

/-! ## A refusal without a full house -/

/-- Process 1 holds the first of two slots; processes 0 and 2 are about to scan. -/
def firstSlotTaken : List (Action (Fin 3) Unit) :=
  [.call (1, ()), .tryLock (1, ()), .call (0, ()), .call (2, ())]

/-- Processes 0 and 2 pass the first slot; process 1 frees it; process 2 takes the second slot, and
process 0 finds that one taken too. -/
def staleScan : List (Action (Fin 3) Unit) :=
  [.tryLock (0, ()), .tryLock (2, ()), .lookup (1, ()) none, .unlock (1, ()), .tryLock (2, ()),
    .tryLock (0, ())]

/-- In no state of `staleScan` are both slots locked. -/
theorem staleScan_not_allLocked : ∀ pre ∈ staleScan.inits,
    (((runningMachine (Fin 3) Unit (init "lock" 2)).run (State.start (init "lock" 2))
      (firstSlotTaken ++ pre)).all fun u => !decide (AllLocked (init "lock" 2) u)) = true := by
  decide

/-- `lock()` is not an atomic semaphore: process 0 is refused although a slot was free at every
instant of its call. -/
theorem not_refusesAtomically : ¬ RefusesAtomically (Fin 3) Unit (init "lock" 2) := by
  intro h
  obtain ⟨s, h0, hstart⟩ : ∃ s, (runningMachine (Fin 3) Unit (init "lock" 2)).run
      (State.start (init "lock" 2)) firstSlotTaken = some s ∧
      s.phase (0, ()) = .scan (init "lock" 2) := ⟨_, rfl, rfl⟩
  obtain ⟨s', hall', hnull⟩ : ∃ s', (runningMachine (Fin 3) Unit (init "lock" 2)).run
      (State.start (init "lock" 2)) (firstSlotTaken ++ staleScan) = some s' ∧
      s'.phase (0, ()) = .refused := ⟨_, rfl, rfl⟩
  have hrun : (runningMachine (Fin 3) Unit (init "lock" 2)).run s staleScan = some s' := by
    rw [StepMachine.run_append, h0] at hall'
    exact hall'
  obtain ⟨pre, hpre, u, hu, hall⟩ :=
    h firstSlotTaken s (0, ()) staleScan s' h0 ⟨hstart, rfl, rfl, hrun, by decide, hnull⟩
  have hpreRun := StepMachine.run_append_eq_some.mpr ⟨s, h0, hu⟩
  have hno := staleScan_not_allLocked pre ((List.mem_inits _ _).mpr hpre)
  rw [hpreRun] at hno
  simp [hall] at hno

end PingPong.Ping
