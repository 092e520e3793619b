import PingPong.Ping.Proofs.LockProofs
import PingPong.PermitPool.Pool
import Mathlib.Data.Finset.Card

/-!
# Proofs: slot accounting

`SlotInv` relates the lock table to the control points of all threads: a file is locked exactly when
one call of `send` holds it. Every step of the machine without shutdowns keeps it, whichever way the
scan, the lookup and the HTTP call go.
-/

namespace PingPong.Ping

open FileLimitedLock

variable {P T S : Type} {channels : List S} {s s' : State P T S} {a : Action P T} {f : S}

@[simp] theorem init_length (lockFile : String) (num : ℕ) : (init lockFile num).length = num := by
  simp [init]

/-- The invariant of the machine without shutdowns. -/
structure SlotInv (channels : List S) (s : State P T S) : Prop where
  /-- No stream has been closed. -/
  streams : ∀ p, s.files.streams p = channels
  /-- A scan still has a suffix of the channels before it. -/
  scan_suffix : ∀ c f fs, s.phase c = .scanning f fs → (f :: fs) <:+ channels
  /-- Slots are slot files. -/
  slot_mem : ∀ c f, (s.phase c).slot = some f → f ∈ channels
  /-- A slot is locked by the process of the send that holds it. -/
  slot_held : ∀ c f, (s.phase c).slot = some f → s.files.holder f = some c.1
  /-- A locked file is the slot of some send of the holding process. -/
  held_slot : ∀ f p, s.files.holder f = some p → ∃ t, (s.phase (p, t)).slot = some f
  /-- No two sends hold one slot. -/
  slot_unique : ∀ c c' f, (s.phase c).slot = some f → (s.phase c').slot = some f → c = c'

theorem slotInv_start : SlotInv channels (State.start channels : State P T S) where
  streams _ := rfl
  scan_suffix c f fs h := by cases h
  slot_mem c f h := by cases h
  slot_held c f h := by cases h
  held_slot f p h := by cases h
  slot_unique c c' f h := by cases h

/-- Without shutdowns all files are open, so every slot is locked. -/
theorem slotInv_iff :
    SlotInv channels s ↔ LockInv channels s ∧ ∀ p, s.files.streams p = channels := by
  constructor
  · intro hI
    refine ⟨⟨?_, hI.scan_suffix, hI.slot_mem, ?_, ?_, hI.slot_unique⟩, hI.streams⟩
    · intro p
      rw [hI.streams]
    · intro c f h
      exact Or.inl (hI.slot_held c f h)
    · intro f p h
      obtain ⟨t, ht⟩ := hI.held_slot f p h
      rw [hI.streams]
      exact ⟨hI.slot_mem _ f ht, t, ht⟩
  · rintro ⟨hI, hstreams⟩
    refine ⟨hstreams, hI.scan_suffix, hI.slot_mem, ?_, ?_, hI.slot_unique⟩
    · intro c f h
      rcases hI.slot_held c f h with hheld | hclosed
      · exact hheld
      · exact absurd (by rw [hstreams]; exact hI.slot_mem c f h) (hclosed c.1)
    · intro f p h
      exact (hI.held_slot f p h).2

/-! ## Slot accounting -/

/-- The locked files and the sends that hold a slot correspond one to one. -/
theorem SlotInv.exists_equiv (hI : SlotInv channels s) :
    ∃ e : {f // s.files.holder f ≠ none} ≃ {c // (s.phase c).slot ≠ none},
      ∀ f, (s.phase (e f).1).slot = some f.1 ∧ s.files.holder f.1 = some (e f).1.1 := by
  have hex : ∀ f : {f // s.files.holder f ≠ none}, ∃ c : {c // (s.phase c).slot ≠ none},
      (s.phase c.1).slot = some f.1 ∧ s.files.holder f.1 = some c.1.1 := by
    rintro ⟨f, hf⟩
    obtain ⟨p, hp⟩ := Option.ne_none_iff_exists'.mp hf
    obtain ⟨t, ht⟩ := hI.held_slot f p hp
    exact ⟨⟨(p, t), by rw [ht]; exact Option.some_ne_none f⟩, ht, hp⟩
  choose g hg using hex
  have hbij : Function.Bijective g := by
    constructor
    · intro f f' hff
      have h1 := (hg f).1
      rw [hff, (hg f').1] at h1
      exact Subtype.ext (Option.some.inj h1).symm
    · rintro ⟨c, hc⟩
      obtain ⟨f, hf⟩ := Option.ne_none_iff_exists'.mp hc
      have hheld : s.files.holder f ≠ none := by rw [hI.slot_held c f hf]; exact Option.some_ne_none _
      exact ⟨⟨f, hheld⟩, Subtype.ext (hI.slot_unique _ c f (hg ⟨f, hheld⟩).1 hf)⟩
  exact ⟨Equiv.ofBijective g hbij, hg⟩

/-- Only slot files are ever locked. -/
theorem SlotInv.mem_of_locked (hI : SlotInv channels s) (hf : s.files.holder f ≠ none) :
    f ∈ channels := by
  obtain ⟨p, hp⟩ := Option.ne_none_iff_exists'.mp hf
  obtain ⟨t, ht⟩ := hI.held_slot f p hp
  exact hI.slot_mem _ f ht

/-- `A` is the set of the sends that hold a slot in `s`. -/
def Holding (s : State P T S) (A : Finset (P × T)) : Prop :=
  ∀ c, c ∈ A ↔ (s.phase c).slot ≠ none

/-- While a file is free, fewer sends hold a slot than there are files: their slots are distinct
files, and none of them is the free one. -/
theorem SlotInv.card_lt [DecidableEq S] (hI : SlotInv channels s) {A : Finset (P × T)}
    (hA : Holding s A) (hf : f ∈ channels) (hfree : s.files.holder f = none) : A.card < channels.length := by
  have hmap : ∀ c ∈ A, ((s.phase c).slot.getD f) ∈ channels.toFinset.erase f := by
    intro c hc
    obtain ⟨g, hg⟩ := Option.ne_none_iff_exists'.mp ((hA c).mp hc)
    rw [hg, Option.getD_some, Finset.mem_erase, List.mem_toFinset]
    refine ⟨fun e => ?_, hI.slot_mem c g hg⟩
    have hheld := hI.slot_held c g hg
    rw [e, hfree] at hheld
    cases hheld
  have hinj : ∀ c ∈ A, ∀ c' ∈ A, (s.phase c).slot.getD f = (s.phase c').slot.getD f → c = c' := by
    intro c hc c' hc' he
    obtain ⟨g, hg⟩ := Option.ne_none_iff_exists'.mp ((hA c).mp hc)
    obtain ⟨g', hg'⟩ := Option.ne_none_iff_exists'.mp ((hA c').mp hc')
    rw [hg, hg', Option.getD_some, Option.getD_some] at he
    exact hI.slot_unique c c' g hg (he ▸ hg')
  have hcard := Finset.card_le_card_of_injOn (fun c => (s.phase c).slot.getD f) hmap
    (fun c hc c' hc' he => hinj c hc c' hc' he)
  have hlt : (channels.toFinset.erase f).card < channels.toFinset.card :=
    Finset.card_erase_lt_of_mem (List.mem_toFinset.mpr hf)
  have hle := channels.toFinset_card_le
  omega

/-- A step that leaves every thread's slot alone leaves the set of holders alone. -/
theorem Holding.congr [DecidableEq P] [DecidableEq T] {A : Finset (P × T)} (hA : Holding s A)
    {c : P × T} {ph : Phase S} (hslot : ph.slot = (s.phase c).slot) : Holding (s.setPhase c ph) A := by
  intro c'
  by_cases h : c' = c
  · subst h; rw [setPhase_phase_self, hslot]; exact hA c'
  · rw [setPhase_phase_of_ne h]; exact hA c'

variable [DecidableEq P] [DecidableEq T] [DecidableEq S]

/-! ## Steps -/

/-- Every step of the machine without shutdowns keeps the invariant. -/
theorem slotInv_step (hI : SlotInv channels s) (h : SendStep channels s a s')
    (ha : a.isDestroy = false) : SlotInv channels s' := by
  obtain ⟨hL, hstreams⟩ := slotInv_iff.mp hI
  refine slotInv_iff.mpr ⟨lockInv_step hL h ha, fun p => ?_⟩
  rw [streams_step h ha]
  exact hstreams p

/-- The invariant holds in every state reached without shutdowns. -/
theorem slotInv_run {acts : List (Action P T)}
    (h : (runningMachine P T channels).run (State.start channels) acts = some s) :
    SlotInv channels s := by
  refine StepMachine.run_invariant (fun u a u' hu hs => ?_) slotInv_start h
  obtain ⟨hstep, ha⟩ := sendStep_of_running hs
  exact slotInv_step hu hstep ha

/-! ## The sends in flight as a pool of permits -/

/-- The operation a step performs on the pool. -/
def poolOps (s : State P T S) : Action P T → List (PermitPool.Op (P × T))
  | .tryLock c =>
    match s.phase c with
    | .scanning f _ => if tryLock s.files c.1 f = .granted then [.acquire c] else []
    | _ => []
  | .unlock c => [.release c]
  | _ => []

/-- Every step of the machine without shutdowns is matched by the pool: a granted `tryLock` acquires
a permit, `unlock` releases it, and every other step leaves the pool alone. -/
theorem holding_step {A : Finset (P × T)} (hI : SlotInv channels s) (hA : Holding s A)
    (h : SendStep channels s a s') (ha : a.isDestroy = false) :
    ∃ A', (PermitPool.pool (P × T) channels.length).run A (poolOps s a) = some A' ∧
      Holding s' A' := by
  cases h with
  | call hc => exact ⟨A, rfl, hA.congr (by rw [slot_scan, slot_of_canCall hc])⟩
  | @granted c f fs hph ht =>
    have hf : f ∈ channels := (hI.scan_suffix _ _ _ hph).subset List.mem_cons_self
    have hfree := (tryLock_eq_granted (by rw [hI.streams]; exact hf)).mp ht
    have hc : c ∉ A := fun hc => (hA c).mp hc (by rw [hph]; rfl)
    refine ⟨insert c A, ?_, fun c' => ?_⟩
    · simp only [poolOps, hph, ht, if_pos, StepMachine.run_cons, StepMachine.run_nil]
      rw [PermitPool.acquire_eq_some hc (hI.card_lt hA hf hfree)]
      rfl
    · by_cases h : c' = c
      · subst h; rw [setPhase_phase_self]; simp [Phase.slot]
      · rw [setPhase_phase_of_ne h, setFiles_phase, Finset.mem_insert]
        simp only [h, false_or]
        exact hA c'
  | skipped hph ht =>
    refine ⟨A, ?_, hA.congr (by rw [slot_scan, hph]; rfl)⟩
    simp only [poolOps, hph, if_neg ht, StepMachine.run_nil]
  | lookupThrew hph => exact ⟨A, rfl, hA.congr (by rw [hph]; rfl)⟩
  | lookedUp m hph => exact ⟨A, rfl, hA.congr (by rw [hph]; rfl)⟩
  | departed hph => exact ⟨A, rfl, hA.congr (by rw [hph]; rfl)⟩
  | answerThrew hph => exact ⟨A, rfl, hA.congr (by rw [hph]; rfl)⟩
  | answered r hph => exact ⟨A, rfl, hA.congr (by rw [hph]; rfl)⟩
  | @unlocked c f e hph =>
    have hc : c ∈ A := (hA c).mpr (by rw [hph]; simp [Phase.slot])
    refine ⟨A.erase c, ?_, fun c' => ?_⟩
    · simp only [poolOps, StepMachine.run_cons, StepMachine.run_nil]
      rw [PermitPool.release_eq_some hc]
      rfl
    · by_cases h : c' = c
      · subst h; rw [setPhase_phase_self]; simp [Phase.slot]
      · rw [setPhase_phase_of_ne h, setFiles_phase, Finset.mem_erase]
        simp only [ne_eq, h, not_false_eq_true, true_and]
        exact hA c'
  | destroyed p => cases ha

/-- Every run without shutdowns refines a run of the pool with one permit for each slot file. -/
theorem holding_run {acts : List (Action P T)}
    (h : (runningMachine P T channels).run (State.start channels) acts = some s) :
    ∃ ops A, (PermitPool.pool (P × T) channels.length).run ∅ ops = some A ∧ Holding s A := by
  have hsim : ∀ (u : State P T S) (A : Finset (P × T)) (a : Action P T) (u' : State P T S),
      (SlotInv channels u ∧ Holding u A) → (runningMachine P T channels).step u a = some u' →
      ∃ A', (PermitPool.pool (P × T) channels.length).run A (poolOps u a) = some A' ∧
        SlotInv channels u' ∧ Holding u' A' := by
    intro u A a u' ⟨hu, hA⟩ hs
    obtain ⟨hstep, ha⟩ := sendStep_of_running hs
    obtain ⟨A', hrun, hA'⟩ := holding_step hu hA hstep ha
    exact ⟨A', hrun, slotInv_step hu hstep ha, hA'⟩
  have h0 : Holding (State.start channels : State P T S) ∅ := fun c => by
    simp [State.start, Phase.slot]
  obtain ⟨ops, A, hrun, -, hA⟩ := StepMachine.run_simulation hsim ⟨slotInv_start, h0⟩ h
  exact ⟨ops, A, hrun, hA⟩

/-! ## Correspondence -/

/-- The `unlock` of a send can always be taken, and frees its slot. -/
theorem SlotInv.unlock_frees (hI : SlotInv channels s) {c : P × T} {e : Exit}
    (hph : s.phase c = .unlocking f e) :
    ∃ s', (runningMachine P T channels).step s (.unlock c) = some s' ∧
      s'.phase c = .ended e ∧ s'.files.holder f = none := by
  have hslot : (s.phase c).slot = some f := by rw [hph]; rfl
  have hopen : f ∈ s.files.streams c.1 := by rw [hI.streams]; exact hI.slot_mem c f hslot
  refine ⟨(s.setFiles (FileLimitedLock.unlock s.files c.1 f)).setPhase c (.ended e), ?_,
    setPhase_phase_self _, ?_⟩
  · rw [runningMachine, StepMachine.restrict_step_eq_some]
    refine ⟨rfl, ?_⟩
    simp only [sendMachine, hph]
  · rw [setPhase_files, setFiles_files, unlock_holder_self hopen]

/-- In every reachable state the locked files and the sends between their granted `tryLock` and
their `unlock` correspond one to one; so at most `num` sends are in flight, no slot is held twice,
and the `unlock` of a send that returns or throws frees its slot. -/
theorem locked_slots_correspond (lockFile : String) (num : ℕ) (acts : List (Action P T))
    {s : State P T String}
    (h : (runningMachine P T (init lockFile num)).run (State.start (init lockFile num)) acts =
      some s) :
    (∃ e : {f // s.files.holder f ≠ none} ≃ {c // (s.phase c).slot ≠ none},
      ∀ f, (s.phase (e f).1).slot = some f.1 ∧ s.files.holder f.1 = some (e f).1.1) ∧
    (∀ f, s.files.holder f ≠ none → f ∈ init lockFile num) ∧
    (∀ F : Finset (P × T), (∀ c ∈ F, (s.phase c).slot ≠ none) → F.card ≤ num) ∧
    (∀ c c' f, (s.phase c).slot = some f → (s.phase c').slot = some f → c = c') ∧
    (∀ c f e, s.phase c = .unlocking f e →
      ∃ s', (runningMachine P T (init lockFile num)).step s (.unlock c) = some s' ∧
        s'.phase c = .ended e ∧ s'.files.holder f = none) := by
  have hI := slotInv_run h
  refine ⟨hI.exists_equiv, fun f hf => hI.mem_of_locked hf, fun F hF => ?_, hI.slot_unique,
    fun c f e hph => hI.unlock_frees hph⟩
  obtain ⟨ops, A, hpool, hA⟩ := holding_run h
  have hle := PermitPool.card_le_run hpool
  rw [init_length] at hle
  exact (Finset.card_le_card fun c hc => (hA c).mpr (hF c hc)).trans hle

/-- Two processes on two slots, the second passing over the slot of the first. -/
def twoSends : List (Action (Fin 2) Unit) :=
  [.call (0, ()), .call (1, ()), .tryLock (0, ()), .tryLock (1, ()), .tryLock (1, ())]

theorem locked_slots_correspond_twoSends :
    ∃ s : State (Fin 2) Unit String,
      (runningMachine (Fin 2) Unit (init "lock" 2)).run (State.start (init "lock" 2)) twoSends =
        some s ∧
      (s.phase (1, ())).slot = some "lock.1" ∧
      ∀ F : Finset (Fin 2 × Unit), (∀ c ∈ F, (s.phase c).slot ≠ none) → F.card ≤ 2 :=
  ⟨_, rfl, by decide, (locked_slots_correspond "lock" 2 twoSends rfl).2.2.1⟩

end PingPong.Ping
