import PingPong.Ping.RateLimit
import PingPong.Ping.Proofs.SlotProofs
import Mathlib.Algebra.Order.Field.Basic
import Mathlib.Tactic.Linarith

/-!
# Proofs: the rate of outgoing requests

A slot is busy from the departure of a request to the end of its HTTP call, and nothing else paces
the requests. So `num` slots let at most `num` requests leave within a second exactly when every
call takes at least a second: shorter calls free their slots within the second, and the next requests
leave through them.
-/

namespace PingPong.Ping

open FileLimitedLock

variable {P T S : Type} {channels : List S} {d lo hi t : ℚ}

/-! ## Slots and counts -/

/-- The slots `used` in the window `[lo, lo + 1)`: each of them is still waited on by a request that
left in the window, until the window is over. -/
def Used (lo : ℚ) (used : Finset S) (ts : TimedState P T S) : Prop :=
  ∀ f ∈ used, lo + 1 ≤ ts.clock ∨ ∃ c m, ts.state.phase c = .awaiting f m ∧ lo ≤ ts.left c

/-- The slot through which a request leaves in the window has not been used in the window yet. -/
theorem Used.notMem_of_sending {used : Finset S} {ts : TimedState P T S} {c : P × T} {f : S}
    {m : Option String} (hU : Used lo used ts) (hI : SlotInv channels ts.state)
    (hph : ts.state.phase c = .sending f m) (hclock : ts.clock < lo + 1) : f ∉ used := by
  intro hf
  rcases hU f hf with hover | ⟨c', m', hph', -⟩
  · exact absurd hover (not_le.mpr hclock)
  · have hcc := hI.slot_unique c c' f (by rw [hph]; rfl) (by rw [hph']; rfl)
    rw [← hcc, hph] at hph'
    cases hph'

section

variable [DecidableEq S]

/-- A departure in the window uses its slot. -/
theorem Used.depart {used : Finset S} {ts : TimedState P T S} {c : P × T} {f : S}
    {m : Option String} (hU : Used lo used ts) (hph : ts.state.phase c = .awaiting f m)
    (hleft : lo ≤ ts.left c) : Used lo (insert f used) ts := by
  intro g hg
  rcases Finset.mem_insert.mp hg with rfl | hg
  · exact Or.inr ⟨c, m, hph, hleft⟩
  · exact hU g hg

theorem departures_append (l l' : List (ℚ × Action P T)) :
    departures lo hi (l ++ l') = departures lo hi l + departures lo hi l' := by
  unfold departures
  exact List.countP_append ..

/-- Only a departure inside the window is counted. -/
theorem departures_singleton (t : ℚ) (a : Action P T) :
    departures lo hi [(t, a)] = if a.isDepart = true ∧ lo ≤ t ∧ t < hi then 1 else 0 := by
  simp [departures, List.countP_cons]

end

variable [DecidableEq P] [DecidableEq T] [DecidableEq S]

/-! ## Steps -/

theorem timed_step_eq_some {ts ts' : TimedState P T S} {x : ℚ × Action P T} :
    (timedMachine P T channels d).step ts x = some ts' ↔
      ts.clock ≤ x.1 ∧ ts.callTook d x.1 x.2 = true ∧
      ∃ s, (runningMachine P T channels).step ts.state x.2 = some s ∧
        ts' = { state := s, clock := x.1, left := ts.leftAfter x.1 x.2 } := by
  simp only [timedMachine]
  split
  · rename_i h
    simp only [Option.map_eq_some_iff, h, true_and]
    exact ⟨fun ⟨s, hs, e⟩ => ⟨s, hs, e.symm⟩, fun ⟨s, hs, e⟩ => ⟨s, hs, e.symm⟩⟩
  · rename_i h
    constructor
    · intro e; cases e
    · rintro ⟨h1, h2, -⟩; exact absurd ⟨h1, h2⟩ h

/-- Without slots nothing leaves. -/
theorem departures_eq_zero {acts : List (ℚ × Action P T)} {ts : TimedState P T S}
    (h : (timedMachine P T ([] : List S) d).run (TimedState.start []) acts = some ts) :
    departures lo hi acts = 0 := by
  have hI : SlotInv [] ts.state ∧ departures lo hi acts = 0 := by
    refine StepMachine.run_history (I := fun acts ts => SlotInv [] ts.state ∧
      departures lo hi acts = 0) ⟨slotInv_start, rfl⟩ (fun l u x u' _ hu hx => ?_) h
    obtain ⟨t, a⟩ := x
    obtain ⟨-, -, s, hs, rfl⟩ := timed_step_eq_some.mp hx
    obtain ⟨hstep, hd⟩ := sendStep_of_running hs
    refine ⟨slotInv_step hu.1 hstep hd, ?_⟩
    rw [departures_append, hu.2, departures_singleton, if_neg]
    rintro ⟨hdep, -⟩
    -- a request that leaves holds a slot, and there is none
    cases a with
    | depart c =>
      cases hstep with
      | departed hph => cases hu.1.slot_mem c _ (by rw [hph]; rfl)
    | _ => cases hdep
  exact hI.2

/-! ## Calls of a second or more -/

/-- A step that is no departure in the window leaves the used slots used: the call that waits on one
goes on, or ends a second or more after the request left. -/
theorem Used.step {used : Finset S} {ts : TimedState P T S} {t : ℚ} {a : Action P T}
    {s' : State P T S} (hd : 1 ≤ d) (hU : Used lo used ts) (ht : ts.clock ≤ t)
    (htook : ts.callTook d t a = true) (h : SendStep channels ts.state a s') :
    Used lo used { state := s', clock := t, left := ts.leftAfter t a } := by
  intro f hf
  rcases hU f hf with hclock | ⟨c, m, hph, hleft⟩
  · exact Or.inl (hclock.trans ht)
  · by_cases hact : a.actor = some c
    · obtain ⟨r, rfl⟩ := awaiting_step hph h hact
      have hlong : ts.left c + d ≤ t := by simpa [TimedState.callTook] using htook
      exact Or.inl (by show lo + 1 ≤ t; linarith)
    · have hleft' : ts.leftAfter t a c = ts.left c := by
        cases a with
        | depart c' => exact Function.update_of_ne (fun e => hact (by rw [e]; rfl)) ..
        | _ => rfl
      refine Or.inr ⟨c, m, ?_, ?_⟩
      · show s'.phase c = _
        rw [phase_of_actor_ne h hact, hph]
      · show lo ≤ ts.leftAfter t a c
        rw [hleft']
        exact hleft

/-- With calls of at least a second, the requests that left in the window used distinct slots. -/
theorem departures_le_used (hd : 1 ≤ d) (lo : ℚ) {acts : List (ℚ × Action P T)}
    {ts : TimedState P T S}
    (h : (timedMachine P T channels d).run (TimedState.start channels) acts = some ts) :
    SlotInv channels ts.state ∧ ∃ used : Finset S, used ⊆ channels.toFinset ∧ Used lo used ts ∧
      departures lo (lo + 1) acts ≤ used.card := by
  refine StepMachine.run_history (I := fun acts ts => SlotInv channels ts.state ∧
    ∃ used : Finset S, used ⊆ channels.toFinset ∧ Used lo used ts ∧
      departures lo (lo + 1) acts ≤ used.card) ?_ (fun l u x u' _ hu hx => ?_) h
  · exact ⟨slotInv_start, ∅, Finset.empty_subset _, fun f hf => absurd hf (Finset.notMem_empty f),
      le_rfl⟩
  · obtain ⟨t, a⟩ := x
    obtain ⟨hI, used, hsub, hU, hle⟩ := hu
    obtain ⟨ht, htook, s, hs, rfl⟩ := timed_step_eq_some.mp hx
    obtain ⟨hstep, hdes⟩ := sendStep_of_running hs
    have hU' := hU.step hd ht htook hstep
    refine ⟨slotInv_step hI hstep hdes, ?_⟩
    rw [departures_append, departures_singleton]
    by_cases hcount : a.isDepart = true ∧ lo ≤ t ∧ t < lo + 1
    · obtain ⟨hdep, hlo, hhi⟩ := hcount
      cases a with
      | depart c =>
        cases hstep with
        | @departed c f m hph =>
          have hnew : f ∉ used := hU.notMem_of_sending hI hph (ht.trans_lt hhi)
          refine ⟨insert f used, ?_, hU'.depart (setPhase_phase_self _) ?_, ?_⟩
          · refine Finset.insert_subset ?_ hsub
            exact List.mem_toFinset.mpr (hI.slot_mem c f (by rw [hph]; rfl))
          · show lo ≤ Function.update u.left c t c
            rw [Function.update_self]
            exact hlo
          · rw [if_pos ⟨rfl, hlo, hhi⟩, Finset.card_insert_of_notMem hnew]
            omega
      | _ => cases hdep
    · rw [if_neg hcount]
      exact ⟨used, hsub, hU', by omega⟩

theorem rateLimited_of_one_le (lockFile : String) (num : ℕ) (hd : 1 ≤ d) :
    RateLimited lockFile num d := by
  intro P T _ _ acts ts h lo
  obtain ⟨-, used, hsub, -, hle⟩ := departures_le_used hd lo h
  have hcard := Finset.card_le_card hsub
  have hlen := (init lockFile num).toFinset_card_le
  rw [init_length] at hlen
  omega

theorem rateLimited_zero (lockFile : String) (d : ℚ) : RateLimited lockFile 0 d := by
  intro P T _ _ acts ts h lo
  exact (departures_eq_zero h).le

end PingPong.Ping
