import PingPong.Ping.Proofs.RateLimitProofs
import Mathlib.Tactic.Linarith

/-!
# Proofs: calls shorter than a second exceed the rate

If calls may take less than a second, `num + 1` requests can leave within one: `num` processes take
all the slots at time 0, the first of them gets its answer before the second is over, and sends
again through the slot it has freed.
-/

namespace PingPong.Ping

open FileLimitedLock
open Feign (FeignResponse)

/-- Distinct slots are distinct files. -/
theorem init_nodup (lockFile : String) (num : ℕ) : (init lockFile num).Nodup := by
  refine List.Nodup.map (fun i j h => ?_) List.nodup_range
  have hdigits := congrArg String.toList ((String.append_right_inj _).mp h)
  rw [Nat.toString_eq_repr, Nat.toString_eq_repr, Nat.toList_repr, Nat.toList_repr] at hdigits
  -- the digits give the number back
  have hnumbers := congrArg (Nat.ofDigitChars 10 · 0) hdigits
  simpa using hnumbers

variable {P T S : Type} {channels : List S} {s s' : State P T S} {c : P × T} {f : S} {fs : List S}
  {d t lo hi : ℚ}

/-! ## Running the code of one thread -/

/-- A call of `send` up to the departure of its request, past `n` taken slots. -/
def sendPast (c : P × T) (n : ℕ) : List (Action P T) :=
  .call c :: (List.replicate n (.tryLock c) ++ [.tryLock c, .lookup c (some none), .depart c])

section

variable [DecidableEq S]

theorem departures_sendPast (c : P × T) (n : ℕ) (hlo : lo ≤ t) (hhi : t < hi) :
    departures lo hi ((sendPast c n).map fun a => (t, a)) = 1 := by
  simp [departures, sendPast, Action.isDepart, List.countP_append, List.countP_replicate, hlo, hhi]

theorem answer_notMem_sendPast (c c' : P × T) (n : ℕ) (r : Option FeignResponse) :
    Action.answer c' r ∉ sendPast c n := by
  simp [sendPast, List.mem_replicate]

end

variable [DecidableEq P] [DecidableEq T] [DecidableEq S]

theorem tryLock_ne_granted {L : SlotFiles P S} {p : P} (h : L.holder f ≠ none) :
    tryLock L p f ≠ .granted := by
  unfold tryLock
  split
  · split
    · rename_i hnone; exact absurd hnone h
    · split <;> decide
  · decide

theorem step_skipped (channels : List S) (hph : s.phase c = .scanning f fs) (h : s.files.holder f ≠ none) :
    (runningMachine P T channels).step s (.tryLock c) = some (s.setPhase c (.scan fs)) := by
  refine StepMachine.restrict_step_eq_some.mpr ⟨rfl, ?_⟩
  simp only [sendMachine, hph]
  have hne := tryLock_ne_granted (p := c.1) h
  split
  · rename_i hg; exact absurd hg hne
  · rfl
  · rfl

theorem step_granted (channels : List S) (hph : s.phase c = .scanning f fs) (hopen : f ∈ s.files.streams c.1)
    (h : s.files.holder f = none) :
    (runningMachine P T channels).step s (.tryLock c) =
      some ((s.setFiles (grant s.files c.1 f)).setPhase c (.locked f)) := by
  refine StepMachine.restrict_step_eq_some.mpr ⟨rfl, ?_⟩
  simp only [sendMachine, hph, (tryLock_eq_granted hopen).mpr h]

/-- The scan passes over slots that are taken. -/
theorem run_scan_past (channels passed : List S) (hph : s.phase c = .scan (passed ++ f :: fs))
    (hheld : ∀ g ∈ passed, s.files.holder g ≠ none) :
    ∃ s', (runningMachine P T channels).run s (List.replicate passed.length (.tryLock c)) = some s' ∧
      s'.files = s.files ∧ s'.phase c = .scanning f fs ∧ ∀ c', c' ≠ c → s'.phase c' = s.phase c' := by
  induction passed generalizing s with
  | nil => exact ⟨s, rfl, rfl, hph, fun _ _ => rfl⟩
  | cons g passed ih =>
    have hstep := step_skipped channels hph (hheld g List.mem_cons_self)
    obtain ⟨s', hrun, hfiles, hself, hother⟩ := ih (s := s.setPhase c (.scan (passed ++ f :: fs)))
      (setPhase_phase_self _) fun g' hg' => hheld g' (List.mem_cons_of_mem _ hg')
    refine ⟨s', StepMachine.run_cons_eq_some.mpr ⟨_, hstep, hrun⟩, hfiles, hself, fun c' hc' => ?_⟩
    rw [hother c' hc', setPhase_phase_of_ne hc']

/-- A thread that calls `send` sends through the first free slot. -/
theorem run_sendPast (passed : List S) (hch : channels = passed ++ f :: fs)
    (hcall : (s.phase c).canCall = true) (hopen : f ∈ s.files.streams c.1)
    (hheld : ∀ g ∈ passed, s.files.holder g ≠ none) (hfree : s.files.holder f = none) :
    ∃ s', (runningMachine P T channels).run s (sendPast c passed.length) = some s' ∧
      s'.files = grant s.files c.1 f ∧ s'.phase c = .awaiting f none ∧
      ∀ c', c' ≠ c → s'.phase c' = s.phase c' := by
  have hfirst : (runningMachine P T channels).step s (.call c) =
      some (s.setPhase c (.scan channels)) := by
    refine StepMachine.restrict_step_eq_some.mpr ⟨rfl, ?_⟩
    simp only [sendMachine, hcall, if_true]
  obtain ⟨u, hscan, hfiles, hself, hother⟩ := run_scan_past (s := s.setPhase c (.scan channels))
    channels passed (by rw [setPhase_phase_self, hch]) hheld
  rw [setPhase_files] at hfiles
  have hgrant := step_granted channels hself (by rw [hfiles]; exact hopen)
    (by rw [hfiles]; exact hfree)
  set v := (u.setFiles (grant u.files c.1 f)).setPhase c (.locked f) with hv
  set w := (v.setPhase c (.sending f none)).setPhase c (.awaiting f none) with hw
  have hlast : (runningMachine P T channels).run u [.tryLock c, .lookup c (some none), .depart c] =
      some w := by
    refine StepMachine.run_cons_eq_some.mpr ⟨v, hgrant, ?_⟩
    refine StepMachine.run_cons_eq_some.mpr ⟨v.setPhase c (.sending f none), ?_, ?_⟩
    · refine StepMachine.restrict_step_eq_some.mpr ⟨rfl, ?_⟩
      simp only [sendMachine, hv, setPhase_phase_self]
    · refine StepMachine.run_cons_eq_some.mpr ⟨w, ?_, rfl⟩
      refine StepMachine.restrict_step_eq_some.mpr ⟨rfl, ?_⟩
      simp only [sendMachine, hw, setPhase_phase_self]
  refine ⟨w, ?_, ?_, setPhase_phase_self _, fun c' hc' => ?_⟩
  · exact StepMachine.run_cons_eq_some.mpr ⟨_, hfirst,
      StepMachine.run_append_eq_some.mpr ⟨u, hscan, hlast⟩⟩
  · show grant u.files c.1 f = _
    rw [hfiles]
  · rw [hw, setPhase_phase_of_ne hc', setPhase_phase_of_ne hc', hv, setPhase_phase_of_ne hc',
      setFiles_phase, hother c' hc', setPhase_phase_of_ne hc']

/-! ## Putting a run on the clock -/

/-- Steps that end no call can all be taken at one time. -/
theorem timed_run_at {acts : List (Action P T)} (ts : TimedState P T S)
    (hno : ∀ c r, Action.answer c r ∉ acts) (hclock : ts.clock ≤ t)
    (h : (runningMachine P T channels).run ts.state acts = some s') :
    ∃ ts', (timedMachine P T channels d).run ts (acts.map fun a => (t, a)) = some ts' ∧
      ts'.state = s' ∧ ts'.clock ≤ t ∧ ∀ c, ts'.left c = ts.left c ∨ ts'.left c = t := by
  induction acts generalizing ts with
  | nil =>
    cases h
    exact ⟨ts, rfl, rfl, hclock, fun _ => Or.inl rfl⟩
  | cons a acts ih =>
    obtain ⟨u, hu, hrun⟩ := StepMachine.run_cons_eq_some.mp h
    have htook : ts.callTook d t a = true := by
      cases a with
      | answer c r => exact absurd List.mem_cons_self (hno c r)
      | _ => rfl
    obtain ⟨ts', hrun', hs', hc', hleft⟩ := ih ⟨u, t, ts.leftAfter t a⟩
      (fun c r hmem => hno c r (List.mem_cons_of_mem _ hmem)) le_rfl hrun
    refine ⟨ts', ?_, hs', hc', fun c => ?_⟩
    · refine StepMachine.run_cons_eq_some.mpr ⟨_, timed_step_eq_some.mpr ?_, hrun'⟩
      exact ⟨hclock, htook, u, hu, rfl⟩
    · rcases hleft c with hl | hl
      · rw [hl]
        cases a with
        | depart c' =>
          show Function.update ts.left c' t c = ts.left c ∨ Function.update ts.left c' t c = t
          by_cases e : c = c'
          · rw [e, Function.update_self]; exact Or.inr rfl
          · rw [Function.update_of_ne e]; exact Or.inl rfl
        | _ => exact Or.inl rfl
      · exact Or.inr hl

/-! ## Filling the slots -/

/-- At time 0 the processes `0`, ..., `k - 1` have each sent through a slot of their own. -/
structure Filled (taken free : List S) (ts : TimedState ℕ Unit S) : Prop where
  clock : ts.clock ≤ 0
  left : ∀ c, ts.left c = 0
  streams : ∀ p, ts.state.files.streams p = taken ++ free
  held : ∀ f ∈ taken, ts.state.files.holder f ≠ none
  idle : ∀ p, taken.length ≤ p → ts.state.phase (p, ()) = .idle
  spare : ∀ f ∈ free, ts.state.files.holder f = none
  first : ∀ f taken', taken = f :: taken' → ts.state.phase (0, ()) = .awaiting f none

/-- The next process sends through the next slot. -/
theorem Filled.next {taken free : List S} {ts : TimedState ℕ Unit S}
    (hF : Filled taken (f :: free) ts) (hnodup : (f :: free).Nodup) :
    ∃ ts', (timedMachine ℕ Unit (taken ++ f :: free) d).run ts
        ((sendPast (taken.length, ()) taken.length).map fun a => ((0 : ℚ), a)) = some ts' ∧
      Filled (taken ++ [f]) free ts' := by
  have hidle := hF.idle taken.length le_rfl
  have hopen : f ∈ ts.state.files.streams taken.length := by rw [hF.streams]; simp
  obtain ⟨s', hrun, hfiles, hself, hother⟩ := run_sendPast (c := (taken.length, ()))
    (s := ts.state) taken rfl (by rw [hidle]; rfl) hopen hF.held (hF.spare f List.mem_cons_self)
  obtain ⟨ts', hrun', rfl, hclock, hleft⟩ := timed_run_at (d := d) ts
    (fun c r => answer_notMem_sendPast _ c _ r) hF.clock hrun
  have hholder : ∀ g, g ≠ f → ts'.state.files.holder g = ts.state.files.holder g := fun g hg => by
    rw [hfiles, grant_holder_of_ne hg]
  refine ⟨ts', hrun', hclock, fun c => ?_, fun p => ?_, ?_, fun p hp => ?_, ?_, ?_⟩
  · rcases hleft c with h | h
    · rw [h, hF.left]
    · exact h
  · rw [hfiles, grant_streams, hF.streams, List.append_assoc]; rfl
  · intro g hg
    by_cases he : g = f
    · rw [he, hfiles, grant_holder_self]; exact Option.some_ne_none _
    · rw [hholder g he]
      rcases List.mem_append.mp hg with hg | hg
      · exact hF.held g hg
      · exact absurd (List.mem_singleton.mp hg) he
  · rw [List.length_append, List.length_singleton] at hp
    have hne : ((p, ()) : ℕ × Unit) ≠ (taken.length, ()) := fun e => by
      have := congrArg Prod.fst e
      simp only at this
      omega
    rw [hother _ hne]
    exact hF.idle p (by omega)
  · intro g hg
    have he : g ≠ f := fun e => (List.nodup_cons.mp hnodup).1 (e ▸ hg)
    rw [hholder g he]
    exact hF.spare g (List.mem_cons_of_mem _ hg)
  · intro g taken' hg
    cases taken with
    | nil => cases hg; exact hself
    | cons g' taken =>
      cases hg
      have hne : ((0, ()) : ℕ × Unit) ≠ ((g :: taken).length, ()) := fun e => by cases e
      rw [hother _ hne]
      exact hF.first g taken rfl

/-- All slots can be taken at time 0, one request leaving through each. -/
theorem exists_filled (taken free : List S) {ts : TimedState ℕ Unit S} (hF : Filled taken free ts)
    (hnodup : free.Nodup) :
    ∃ acts ts', (timedMachine ℕ Unit (taken ++ free) d).run ts acts = some ts' ∧
      Filled (taken ++ free) [] ts' ∧ departures 0 1 acts = free.length := by
  induction free generalizing taken ts with
  | nil => exact ⟨[], ts, rfl, by rw [List.append_nil]; exact hF, rfl⟩
  | cons f free ih =>
    obtain ⟨u, hu, hFu⟩ := hF.next (d := d) hnodup
    obtain ⟨acts, ts', hrun, hF', hcount⟩ := ih (taken ++ [f]) hFu (List.nodup_cons.mp hnodup).2
    rw [List.append_assoc] at hrun hF'
    refine ⟨_ ++ acts, ts', StepMachine.run_append_eq_some.mpr ⟨u, hu, hrun⟩, hF', ?_⟩
    rw [departures_append, departures_sendPast _ _ le_rfl one_pos, hcount, List.length_cons]
    omega

/-! ## One request too many -/

/-- With all slots taken, the process that sent first gets its answer within the second, frees its
slot and sends through it again. -/
theorem Filled.again {f : S} {fs : List S} {ts : TimedState ℕ Unit S} (hF : Filled (f :: fs) [] ts)
    (hd : d < 1) :
    ∃ acts ts', (timedMachine ℕ Unit (f :: fs) d).run ts acts = some ts' ∧
      departures 0 1 acts = 1 := by
  have hph := hF.first f fs rfl
  have hopen : f ∈ ts.state.files.streams 0 := by rw [hF.streams]; simp
  -- the answer comes at time `e`
  set e := max d 0 with he
  have hde : d ≤ e := le_max_left ..
  have he0 : (0 : ℚ) ≤ e := le_max_right ..
  have he1 : e < 1 := max_lt hd one_pos
  set u := ts.state.setPhase (0, ()) (.unlocking f .threw) with hu
  set v := (u.setFiles (unlock u.files 0 f)).setPhase (0, ()) (.ended .threw) with hv
  have hanswer : (timedMachine ℕ Unit (f :: fs) d).step ts (e, .answer (0, ()) none) =
      some ⟨u, e, ts.left⟩ := by
    refine timed_step_eq_some.mpr ⟨hF.clock.trans he0, ?_, u, ?_, rfl⟩
    · simpa [TimedState.callTook, hF.left] using hde
    · refine StepMachine.restrict_step_eq_some.mpr ⟨rfl, ?_⟩
      simp only [sendMachine, hph, hu]
  have hunlock : (timedMachine ℕ Unit (f :: fs) d).step ⟨u, e, ts.left⟩ (e, .unlock (0, ())) =
      some ⟨v, e, ts.left⟩ := by
    refine timed_step_eq_some.mpr ⟨le_rfl, rfl, v, ?_, rfl⟩
    refine StepMachine.restrict_step_eq_some.mpr ⟨rfl, ?_⟩
    simp only [sendMachine, hv, hu, setPhase_phase_self]
  have hfree : v.files.holder f = none := by
    rw [hv, setPhase_files, setFiles_files, hu, setPhase_files, unlock_holder_self hopen]
  have hvopen : f ∈ v.files.streams 0 := by
    rw [hv, setPhase_files, setFiles_files, unlock_streams]; exact hopen
  obtain ⟨s', hsend, -, -, -⟩ := run_sendPast (c := ((0 : ℕ), ())) (s := v) []
    (List.nil_append (f :: fs)).symm (by rw [hv, setPhase_phase_self]; rfl) hvopen
    (fun g hg => by cases hg) hfree
  obtain ⟨ts', hrun, -, -, -⟩ := timed_run_at (d := d) (t := e) ⟨v, e, ts.left⟩
    (fun c r => answer_notMem_sendPast _ c _ r) le_rfl hsend
  refine ⟨(e, .answer (0, ()) none) :: (e, .unlock (0, ())) ::
    (sendPast ((0 : ℕ), ()) 0).map fun a => (e, a), ts', ?_, ?_⟩
  · exact StepMachine.run_cons_eq_some.mpr ⟨_, hanswer,
      StepMachine.run_cons_eq_some.mpr ⟨_, hunlock, hrun⟩⟩
  · have hone : departures 0 1 ((sendPast ((0 : ℕ), ()) 0).map fun a => (e, a)) = 1 :=
      departures_sendPast _ 0 he0 he1
    simpa [departures, Action.isDepart] using hone

/-- With slots to send through, calls of less than a second exceed the rate. -/
theorem not_rateLimited (lockFile : String) {num : ℕ} (hnum : num ≠ 0) (hd : d < 1) :
    ¬ RateLimited lockFile num d := by
  intro hlim
  have hF0 : Filled [] (init lockFile num) (TimedState.start (init lockFile num)) :=
    ⟨le_rfl, fun _ => rfl, fun _ => rfl, nofun, fun _ _ => rfl, fun _ _ => rfl, nofun⟩
  obtain ⟨acts, ts, hrun, hF, hcount⟩ := exists_filled (d := d) [] _ hF0 (init_nodup lockFile num)
  rw [List.nil_append] at hrun hF
  rw [init_length] at hcount
  cases hch : init lockFile num with
  | nil => exact hnum (by rw [← init_length lockFile num, hch]; rfl)
  | cons f fs =>
    rw [hch] at hF hrun
    obtain ⟨more, ts', hrun', hone⟩ := hF.again hd
    have hall := StepMachine.run_append_eq_some.mpr ⟨ts, hrun, hrun'⟩
    rw [← hch] at hall
    have hle := hlim ℕ Unit _ ts' hall 0
    rw [zero_add, departures_append, hcount, hone] at hle
    omega

/-! ## The advertised rate -/

/-- At most `num` requests leave within any second, over all processes and all runs, exactly when
there is no slot or every HTTP call takes at least a second. -/
theorem rateLimited_iff (lockFile : String) (num : ℕ) (d : ℚ) :
    RateLimited lockFile num d ↔ num = 0 ∨ 1 ≤ d := by
  constructor
  · intro h
    by_contra hneg
    obtain ⟨hnum, hd⟩ := not_or.mp hneg
    exact not_rateLimited lockFile hnum (not_le.mp hd) h
  · rintro (rfl | hd)
    · exact rateLimited_zero lockFile d
    · exact rateLimited_of_one_le lockFile num hd

/-- One thread sends at 0 s, 0.1 s and 0.2 s; every call is answered after 0.1 s. -/
def threeQuickSends : List (ℚ × Action (Fin 1) Unit) :=
  [(0, .call (0, ())), (0, .tryLock (0, ())), (0, .lookup (0, ()) (some (some "Hello"))),
    (0, .depart (0, ())), (1/10, .answer (0, ()) (some ⟨some 200, some "World"⟩)),
    (1/10, .unlock (0, ())), (1/10, .call (0, ())), (1/10, .tryLock (0, ())),
    (1/10, .lookup (0, ()) (some (some "Hello"))), (1/10, .depart (0, ())),
    (2/10, .answer (0, ()) (some ⟨some 429, none⟩)), (2/10, .unlock (0, ())),
    (2/10, .call (0, ())), (2/10, .tryLock (0, ())), (2/10, .lookup (0, ()) (some (some "Hello"))),
    (2/10, .depart (0, ()))]

/-- With the configured two slots, three requests leave within a second. -/
theorem not_rateLimited_threeQuickSends : ¬ RateLimited "lock" 2 0 := by
  intro h
  have hrun : ((timedMachine (Fin 1) Unit (init "lock" 2) 0).run
      (TimedState.start (init "lock" 2)) threeQuickSends).isSome = true := by decide +kernel
  obtain ⟨ts, hts⟩ := Option.isSome_iff_exists.mp hrun
  have hle := h (Fin 1) Unit threeQuickSends ts hts 0
  have hcount : departures 0 (0 + 1) threeQuickSends = 3 := by decide +kernel
  omega

end PingPong.Ping
