import PingPong.Ping.Proofs.SendStepProofs
import Mathlib.Data.List.Infix

/-!
# Proofs: the lock table and the control points

`LockInv` relates the lock table to the control points of all threads, also when processes shut down: a
locked file is held through an open stream and is the slot of one call of `send`, and the slot of a call is
locked by its process, or closed everywhere. Every step keeps it, except a round of `destroy` that closes
the slot of a running call while another process has the file open.
-/

namespace PingPong.Ping

open FileLimitedLock

variable {P T S : Type} {channels : List S} {s s' : State P T S} {a : Action P T} {f : S}

/-- The invariant of the machine. -/
structure LockInv (channels : List S) (s : State P T S) : Prop where
  /-- Streams are closed from the first one on. -/
  streams : ∀ p, s.files.streams p <:+ channels
  /-- A scan still has a suffix of the channels before it. -/
  scan_suffix : ∀ c f fs, s.phase c = .scanning f fs → (f :: fs) <:+ channels
  /-- Slots are slot files. -/
  slot_mem : ∀ c f, (s.phase c).slot = some f → f ∈ channels
  /-- A slot is locked by the process of the send that holds it, or closed in all processes. -/
  slot_held : ∀ c f, (s.phase c).slot = some f →
    s.files.holder f = some c.1 ∨ ∀ p, f ∉ s.files.streams p
  /-- A locked file is held through an open stream, and the slot of some send of the process. -/
  held_slot : ∀ f p, s.files.holder f = some p →
    f ∈ s.files.streams p ∧ ∃ t, (s.phase (p, t)).slot = some f
  /-- No two sends hold one slot. -/
  slot_unique : ∀ c c' f, (s.phase c).slot = some f → (s.phase c').slot = some f → c = c'

theorem lockInv_start : LockInv channels (State.start channels : State P T S) where
  streams _ := List.suffix_refl _
  scan_suffix c f fs h := by cases h
  slot_mem c f h := by cases h
  slot_held c f h := by cases h
  held_slot f p h := by cases h
  slot_unique c c' f h := by cases h

/-- A scan over a suffix of the channels goes on over a suffix of the channels. -/
theorem scan_eq_scanning {fs gs : List S} (hfs : fs <:+ channels)
    (h : Phase.scan fs = .scanning f gs) : (f :: gs) <:+ channels := by
  cases fs with
  | nil => cases h
  | cons g fs => cases h; exact hfs

variable [DecidableEq P] [DecidableEq T]

/-! ## Steps of one thread -/

/-- A thread that moves on without touching the locks keeps the invariant, if it keeps its slot and
a scan it enters is over a suffix of the channels. -/
theorem LockInv.setPhase (hI : LockInv channels s) (c : P × T) {ph : Phase S}
    (hslot : ph.slot = (s.phase c).slot)
    (hscan : ∀ f fs, ph = .scanning f fs → (f :: fs) <:+ channels) :
    LockInv channels (s.setPhase c ph) := by
  have hs : ∀ c', ((s.setPhase c ph).phase c').slot = (s.phase c').slot := by
    intro c'
    by_cases h : c' = c
    · subst h; rw [setPhase_phase_self, hslot]
    · rw [setPhase_phase_of_ne h]
  refine ⟨hI.streams, ?_, ?_, ?_, ?_, ?_⟩
  · intro c' f fs h
    by_cases hc : c' = c
    · subst hc; rw [setPhase_phase_self] at h; exact hscan f fs h
    · rw [setPhase_phase_of_ne hc] at h; exact hI.scan_suffix c' f fs h
  · intro c' f h; rw [hs] at h; exact hI.slot_mem c' f h
  · intro c' f h; rw [hs] at h; exact hI.slot_held c' f h
  · intro f p h
    obtain ⟨hopen, t, ht⟩ := hI.held_slot f p h
    exact ⟨hopen, t, by rw [hs]; exact ht⟩
  · intro c₁ c₂ f h₁ h₂; rw [hs] at h₁ h₂; exact hI.slot_unique c₁ c₂ f h₁ h₂

variable [DecidableEq S]

/-- A granted `tryLock` keeps the invariant: the file was free and open, so it was nobody's slot. -/
theorem LockInv.grant (hI : LockInv channels s) {c : P × T} {fs : List S}
    (hph : s.phase c = .scanning f fs) (hopen : f ∈ s.files.streams c.1)
    (hfree : s.files.holder f = none) :
    LockInv channels ((s.setFiles (grant s.files c.1 f)).setPhase c (.locked f)) := by
  have hnone : ∀ c', (s.phase c').slot ≠ some f := by
    intro c' h
    rcases hI.slot_held c' f h with hheld | hclosed
    · rw [hheld] at hfree; cases hfree
    · exact hclosed c.1 hopen
  have hother : ∀ c', c' ≠ c →
      (((s.setFiles (FileLimitedLock.grant s.files c.1 f)).setPhase c (.locked f)).phase c') =
        s.phase c' := fun c' h => by rw [setPhase_phase_of_ne h, setFiles_phase]
  refine ⟨hI.streams, ?_, ?_, ?_, ?_, ?_⟩
  · intro c' g gs h
    by_cases hc : c' = c
    · subst hc; rw [setPhase_phase_self] at h; cases h
    · rw [hother c' hc] at h; exact hI.scan_suffix c' g gs h
  · intro c' g h
    by_cases hc : c' = c
    · subst hc; rw [setPhase_phase_self] at h; cases h
      exact (hI.scan_suffix c' f fs hph).subset List.mem_cons_self
    · rw [hother c' hc] at h; exact hI.slot_mem c' g h
  · intro c' g h
    by_cases hc : c' = c
    · subst hc; rw [setPhase_phase_self] at h; cases h
      exact Or.inl (grant_holder_self ..)
    · rw [hother c' hc] at h
      have hg : g ≠ f := fun e => hnone c' (e ▸ h)
      rw [setPhase_files, setFiles_files, grant_holder_of_ne hg]
      exact hI.slot_held c' g h
  · intro g p h
    rw [setPhase_files, setFiles_files] at h
    by_cases hg : g = f
    · rw [hg, grant_holder_self] at h
      cases h
      exact ⟨hg ▸ hopen, c.2, by rw [setPhase_phase_self, hg]; rfl⟩
    · rw [grant_holder_of_ne hg] at h
      obtain ⟨hgopen, t, ht⟩ := hI.held_slot g p h
      have hc : (p, t) ≠ c := fun e => by rw [e, hph] at ht; cases ht
      exact ⟨hgopen, t, by rw [hother _ hc]; exact ht⟩
  · intro c₁ c₂ g h₁ h₂
    by_cases hc₁ : c₁ = c
    · by_cases hc₂ : c₂ = c
      · rw [hc₁, hc₂]
      · subst hc₁; rw [setPhase_phase_self] at h₁; cases h₁
        rw [hother c₂ hc₂] at h₂
        exact absurd h₂ (hnone c₂)
    · by_cases hc₂ : c₂ = c
      · subst hc₂; rw [setPhase_phase_self] at h₂; cases h₂
        rw [hother c₁ hc₁] at h₁
        exact absurd h₁ (hnone c₁)
      · rw [hother c₁ hc₁] at h₁; rw [hother c₂ hc₂] at h₂
        exact hI.slot_unique c₁ c₂ g h₁ h₂

/-- The `unlock` of the `finally` block keeps the invariant: the released file was the slot of this
call alone, and a file that is closed was not locked. -/
theorem LockInv.unlock (hI : LockInv channels s) {c : P × T} {e : Exit}
    (hph : s.phase c = .unlocking f e) :
    LockInv channels ((s.setFiles (unlock s.files c.1 f)).setPhase c (.ended e)) := by
  have hslot : (s.phase c).slot = some f := by rw [hph]; rfl
  have hother : ∀ c', c' ≠ c →
      ((s.setFiles (FileLimitedLock.unlock s.files c.1 f)).setPhase c (.ended e)).phase c' =
        s.phase c' := fun c' h => by rw [setPhase_phase_of_ne h, setFiles_phase]
  have hself : ((s.setFiles (FileLimitedLock.unlock s.files c.1 f)).setPhase c (.ended e)).phase c =
      .ended e := setPhase_phase_self _
  refine ⟨fun p => ?_, ?_, ?_, ?_, ?_, ?_⟩
  · rw [setPhase_files, setFiles_files, unlock_streams]; exact hI.streams p
  · intro c' g gs h
    by_cases hc : c' = c
    · subst hc; rw [hself] at h; cases h
    · rw [hother c' hc] at h; exact hI.scan_suffix c' g gs h
  · intro c' g h
    by_cases hc : c' = c
    · subst hc; rw [hself] at h; cases h
    · rw [hother c' hc] at h; exact hI.slot_mem c' g h
  · intro c' g h
    by_cases hc : c' = c
    · subst hc; rw [hself] at h; cases h
    · rw [hother c' hc] at h
      have hg : g ≠ f := fun e => hc (hI.slot_unique c' c f (e ▸ h) hslot)
      rw [setPhase_files, setFiles_files, unlock_holder_of_ne hg, unlock_streams]
      exact hI.slot_held c' g h
  · intro g p h
    rw [setPhase_files, setFiles_files] at h ⊢
    rw [unlock_streams]
    by_cases hg : g = f
    · subst hg
      by_cases hopen : g ∈ s.files.streams c.1
      · rw [unlock_holder_self hopen] at h; cases h
      · -- the file is closed here, so no process holds it
        unfold FileLimitedLock.unlock at h
        rw [if_neg hopen] at h
        obtain ⟨hgopen, t, ht⟩ := hI.held_slot g p h
        have hc := hI.slot_unique _ _ g ht hslot
        rw [← hc] at hopen
        exact absurd hgopen hopen
    · rw [unlock_holder_of_ne hg] at h
      obtain ⟨hgopen, t, ht⟩ := hI.held_slot g p h
      have hc : (p, t) ≠ c := fun e => by
        rw [e, hslot] at ht
        exact hg (Option.some.inj ht).symm
      exact ⟨hgopen, t, by rw [hother _ hc]; exact ht⟩
  · intro c₁ c₂ g h₁ h₂
    by_cases hc₁ : c₁ = c
    · subst hc₁; rw [hself] at h₁; cases h₁
    · by_cases hc₂ : c₂ = c
      · subst hc₂; rw [hself] at h₂; cases h₂
      · rw [hother c₁ hc₁] at h₁; rw [hother c₂ hc₂] at h₂
        exact hI.slot_unique c₁ c₂ g h₁ h₂

/-- A `tryLock` is granted on an open file that nobody holds. -/
theorem open_of_granted {L : SlotFiles P S} {p : P} (h : tryLock L p f = .granted) :
    f ∈ L.streams p ∧ L.holder f = none := by
  have hopen : f ∈ L.streams p := by
    by_contra hclosed
    unfold tryLock at h
    rw [if_neg hclosed] at h
    cases h
  exact ⟨hopen, (tryLock_eq_granted hopen).mp h⟩

/-- Every step that shuts nothing down keeps the invariant. -/
theorem lockInv_step (hI : LockInv channels s) (h : SendStep channels s a s')
    (ha : a.isDestroy = false) : LockInv channels s' := by
  cases h with
  | call hc =>
    refine hI.setPhase _ ?_ fun f fs h => scan_eq_scanning (List.suffix_refl _) h
    rw [slot_scan, slot_of_canCall hc]
  | granted hph ht =>
    obtain ⟨hopen, hfree⟩ := open_of_granted ht
    exact hI.grant hph hopen hfree
  | skipped hph ht =>
    refine hI.setPhase _ (by rw [slot_scan, hph]; rfl) fun f fs h => ?_
    exact scan_eq_scanning ((List.suffix_cons _ _).trans (hI.scan_suffix _ _ _ hph)) h
  | lookupThrew hph => exact hI.setPhase _ (by rw [hph]; rfl) fun _ _ h => by cases h
  | lookedUp m hph => exact hI.setPhase _ (by rw [hph]; rfl) fun _ _ h => by cases h
  | departed hph => exact hI.setPhase _ (by rw [hph]; rfl) fun _ _ h => by cases h
  | answerThrew hph => exact hI.setPhase _ (by rw [hph]; rfl) fun _ _ h => by cases h
  | answered r hph => exact hI.setPhase _ (by rw [hph]; rfl) fun _ _ h => by cases h
  | unlocked hph => exact hI.unlock hph
  | destroyed p => cases ha

/-- Only `destroy` closes streams. -/
theorem streams_step (h : SendStep channels s a s') (ha : a.isDestroy = false) :
    s'.files.streams = s.files.streams := by
  cases h with
  | unlocked hph => exact unlock_streams _ _
  | destroyed p => cases ha
  | _ => rfl

end PingPong.Ping
