import PingPong.Ping.Shutdown
import PingPong.Ping.Proofs.ShortCallProofs

/-!
# Proofs: shutdown while requests are in flight

Closing the stream of a slot in use frees the slot for the other processes (`granted_of_closed`). As long
as that does not happen, `LockInv` holds.
-/

namespace PingPong.Ping

open FileLimitedLock

variable {P T S : Type} {channels : List S} {s s' : State P T S} {acts : List (Action P T)}
  {a : Action P T} {p : P} {f : S} {fs : List S}

/-! ## One round of `destroy` -/

section

variable [DecidableEq P] [DecidableEq S]

theorem destroyNext_cons {L : SlotFiles P S} (h : L.streams p = f :: fs) :
    destroyNext L p =
      { holder := if L.holder f = some p then Function.update L.holder f none else L.holder
        streams := Function.update L.streams p fs } := by
  unfold destroyNext
  rw [h]

theorem destroyNext_nil {L : SlotFiles P S} (h : L.streams p = []) : destroyNext L p = L := by
  unfold destroyNext
  rw [h]

/-- The round frees the head of the streams, if the process holds it, and no other file. -/
theorem destroyNext_holder {L : SlotFiles P S} (h : L.streams p = f :: fs) (g : S) :
    (destroyNext L p).holder g = if g = f ∧ L.holder f = some p then none else L.holder g := by
  rw [destroyNext_cons h]
  by_cases hheld : L.holder f = some p
  · by_cases hg : g = f
    · subst hg
      simp [hheld]
    · simp [hheld, hg]
  · simp [hheld]

theorem destroyNext_streams_self {L : SlotFiles P S} (h : L.streams p = f :: fs) :
    (destroyNext L p).streams p = fs := by
  rw [destroyNext_cons h]
  exact Function.update_self ..

theorem destroyNext_streams_of_ne {L : SlotFiles P S} {q : P} (hq : q ≠ p) :
    (destroyNext L p).streams q = L.streams q := by
  rcases h : L.streams p with _ | ⟨f, fs⟩
  · rw [destroyNext_nil h]
  · rw [destroyNext_cons h]
    exact Function.update_of_ne hq ..

/-- Files are only closed. -/
theorem mem_streams_of_destroyNext {L : SlotFiles P S} {q : P} {g : S}
    (h : g ∈ (destroyNext L p).streams q) : g ∈ L.streams q := by
  by_cases hq : q = p
  · subst hq
    rcases hs : L.streams q with _ | ⟨f, fs⟩
    · rw [destroyNext_nil hs, hs] at h
      exact h
    · rw [destroyNext_streams_self hs] at h
      exact List.mem_cons_of_mem _ h
  · rwa [destroyNext_streams_of_ne hq] at h

theorem lockInv_destroy (hnodup : channels.Nodup) (hI : LockInv channels s)
    (hfree : ClosesNoSlot s (.destroy p)) :
    LockInv channels (s.setFiles (destroyNext s.files p)) := by
  rcases hs : s.files.streams p with _ | ⟨f, fs⟩
  · rw [destroyNext_nil hs]
    exact hI
  have hsuffix : (f :: fs) <:+ channels := hs ▸ hI.streams p
  have hnotin : f ∉ fs := (List.nodup_cons.mp (hsuffix.sublist.nodup hnodup)).1
  refine ⟨?_, hI.scan_suffix, hI.slot_mem, ?_, ?_, hI.slot_unique⟩
  · intro q
    rw [setFiles_files]
    by_cases hq : q = p
    · subst hq
      rw [destroyNext_streams_self hs]
      exact (List.suffix_cons f fs).trans hsuffix
    · rw [destroyNext_streams_of_ne hq]
      exact hI.streams q
  · intro c g h
    rw [setFiles_phase] at h
    rw [setFiles_files, destroyNext_holder hs]
    rcases hI.slot_held c g h with hheld | hclosed
    · by_cases hg : g = f ∧ s.files.holder f = some p
      · -- the process closes a slot of its own, so nobody else has it open
        obtain ⟨rfl, hp⟩ := hg
        have hc : c.1 = p := by
          rw [hheld] at hp
          exact Option.some.inj hp
        refine Or.inr fun q hq => ?_
        by_cases hqp : q = p
        · subst hqp
          rw [destroyNext_streams_self hs] at hq
          exact hnotin hq
        · refine hfree p g fs c.2 rfl hs ?_ q hqp (mem_streams_of_destroyNext hq)
          rw [← hc]
          exact h
      · rw [if_neg hg]
        exact Or.inl hheld
    · refine Or.inr fun q hq => ?_
      exact hclosed q (mem_streams_of_destroyNext hq)
  · intro g q h
    rw [setFiles_files, destroyNext_holder hs] at h
    split at h
    · cases h
    · rename_i hg
      obtain ⟨hopen, t, ht⟩ := hI.held_slot g q h
      refine ⟨?_, t, ht⟩
      rw [setFiles_files]
      by_cases hq : q = p
      · subst hq
        rw [destroyNext_streams_self hs]
        rw [hs] at hopen
        rcases List.mem_cons.mp hopen with rfl | hopen
        · exact absurd ⟨rfl, h⟩ hg
        · exact hopen
      · rw [destroyNext_streams_of_ne hq]
        exact hopen

/-- A slot that is closed under a running send is free for the other processes. -/
theorem granted_of_closed (hI : LockInv channels s) (hs : s.files.streams p = f :: fs) {t : T} {q : P}
    (hslot : (s.phase (p, t)).slot = some f) (hq : q ≠ p) (hopen : f ∈ s.files.streams q) :
    tryLock (destroyNext s.files p) q f = .granted := by
  have hheld : s.files.holder f = some p := by
    rcases hI.slot_held _ f hslot with hheld | hclosed
    · exact hheld
    · exact absurd hopen (hclosed q)
  have hopen' : f ∈ (destroyNext s.files p).streams q := by
    rw [destroyNext_streams_of_ne hq]
    exact hopen
  rw [tryLock_eq_granted hopen', destroyNext_holder hs, if_pos ⟨rfl, hheld⟩]

/-! ## What the invariant says about the sends -/

theorem LockInv.slotsKept (hI : LockInv channels s) : SlotsKept s := by
  intro c f q hslot hq hgranted
  obtain ⟨hopen, hfree⟩ := open_of_granted hgranted
  rcases hI.slot_held c f hslot with hheld | hclosed
  · rw [hheld] at hfree
    cases hfree
  · exact hclosed q hopen

end

/-- The sends in flight have distinct slots. -/
theorem LockInv.inFlightAtMost [DecidableEq S] (hI : LockInv channels s) :
    InFlightAtMost channels.length s := by
  intro F hF
  have hex : ∀ c : F, ∃ f, (s.phase c.1).slot = some f := by
    intro c
    exact Option.ne_none_iff_exists'.mp (hF c.1 c.2)
  choose g hg using hex
  have hmap : ∀ c ∈ F.attach, g c ∈ channels.toFinset := by
    intro c _
    exact List.mem_toFinset.mpr (hI.slot_mem c.1 (g c) (hg c))
  have hinj : ∀ c ∈ F.attach, ∀ c' ∈ F.attach, g c = g c' → c = c' := by
    intro c _ c' _ he
    exact Subtype.ext (hI.slot_unique c.1 c'.1 (g c) (hg c) (he ▸ hg c'))
  have hcard := Finset.card_le_card_of_injOn g hmap hinj
  rw [Finset.card_attach] at hcard
  have hle := channels.toFinset_card_le
  omega

variable [DecidableEq P] [DecidableEq T] [DecidableEq S]

/-! ## Runs -/

theorem lockInv_run (hnodup : channels.Nodup) (horderly : OrderlyShutdown channels acts)
    (h : (sendMachine P T channels).run (State.start channels) acts = some s) : LockInv channels s := by
  induction acts using List.reverseRecOn generalizing s with
  | nil =>
    cases h
    exact lockInv_start
  | append_singleton acts a ih =>
    obtain ⟨u, hu, ha⟩ := StepMachine.run_concat_eq_some.mp h
    have hI : LockInv channels u := by
      refine ih (fun pre b v hpre hv => ?_) hu
      exact horderly pre b v (hpre.trans (List.prefix_append _ _)) hv
    have hstep := sendStep_of_step ha
    by_cases hd : a.isDestroy = false
    · exact lockInv_step hI hstep hd
    · cases hstep with
      | destroyed p => exact lockInv_destroy hnodup hI (horderly acts _ u List.prefix_rfl hu)
      | _ => exact absurd rfl hd

/-- A run whose states keep the slots closes none that is in use. -/
theorem orderly_of_keepsLimit (hnodup : channels.Nodup) (h : ShutdownKeepsLimit channels acts) :
    OrderlyShutdown channels acts := by
  induction acts using List.reverseRecOn with
  | nil =>
    intro pre a s hpre
    have hlen := hpre.length_le
    simp at hlen
  | append_singleton acts b ih =>
    have horderly : OrderlyShutdown channels acts :=
      ih fun pre s hpre hs => h pre s (hpre.trans (List.prefix_append _ _)) hs
    intro pre a s hpre hs
    rcases List.prefix_concat_iff.mp hpre with heq | hpre
    · obtain ⟨rfl, hab⟩ := List.append_inj' heq rfl
      obtain rfl : a = b := by simpa using hab
      have hI := lockInv_run hnodup horderly hs
      rintro p f fs t rfl hstreams hslot q hq hopen
      -- after this step the other process can lock the slot
      have hstep : (sendMachine P T channels).run (State.start channels) (pre ++ [.destroy p]) =
          some (s.setFiles (destroyNext s.files p)) :=
        StepMachine.run_concat_eq_some.mpr ⟨s, hs, rfl⟩
      exact (h _ _ List.prefix_rfl hstep).1 (p, t) f q hslot hq
        (granted_of_closed hI hstreams hslot hq hopen)
    · exact horderly pre a s hpre hs

/-! ## The limit -/

/-- In every run, with processes shutting down at any point, the slots of the sends in flight are kept from
the other processes, and at most `num` sends are in flight, if and only if no `destroy` closes the slot of
a send of its process while another process has the slot file open. -/
theorem shutdownKeepsLimit_iff (lockFile : String) (num : ℕ) (acts : List (Action P T)) :
    ShutdownKeepsLimit (init lockFile num) acts ↔ OrderlyShutdown (init lockFile num) acts := by
  have hnodup := init_nodup lockFile num
  constructor
  · exact orderly_of_keepsLimit hnodup
  · intro horderly pre s hpre hs
    have hI : LockInv (init lockFile num) s := by
      refine lockInv_run hnodup (fun l a u hl hu => ?_) hs
      exact horderly l a u (hl.trans hpre) hu
    exact ⟨hI.slotsKept, hI.inFlightAtMost⟩

/-- A process is shut down while its send has the only slot, and another process sends. -/
def destroyedSend : List (Action Bool Unit) :=
  [.call (false, ()), .tryLock (false, ()), .call (true, ()), .destroy false, .tryLock (true, ())]

/-- Both sends are in flight. -/
theorem not_shutdownKeepsLimit_destroyedSend :
    ¬ ShutdownKeepsLimit (init "lock" 1) destroyedSend := by
  intro h
  obtain ⟨s, hrun, hfalse, htrue⟩ : ∃ s : State Bool Unit String,
      (sendMachine Bool Unit (init "lock" 1)).run (State.start (init "lock" 1)) destroyedSend = some s ∧
      (s.phase (false, ())).slot ≠ none ∧ (s.phase (true, ())).slot ≠ none :=
    ⟨_, rfl, by decide, by decide⟩
  have hcard := (h _ s List.prefix_rfl hrun).2 {(false, ()), (true, ())} (by
    intro c hc
    rcases Finset.mem_insert.mp hc with rfl | hc
    · exact hfalse
    · rw [Finset.mem_singleton.mp hc]; exact htrue)
  rw [init_length] at hcard
  revert hcard
  decide

end PingPong.Ping
