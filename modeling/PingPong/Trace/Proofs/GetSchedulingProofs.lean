import PingPong.Trace.GetScheduling
import Mathlib.Data.List.Basic

/-!
# Proofs: threads that register tasks

The epochs of the field are counted by the methods that have set it to null, and every `getScheduling()` of a
method has returned what the cell allows (`ThreadsInv`). A method that goes on has not got null. So the methods
that have ended before the field is set to null for the first time have all got the first object.
-/

namespace PingPong.Trace

open DoubleChecked

variable {T O R ρ θ : Type} {s s' : SchedulingThreads T O R ρ θ}
  {a : ThreadAction T O R ρ θ} {actions : List (ThreadAction T O R ρ θ)} {cell cell' cell'' : Cell T O}
  {b : CellAction T O} {t : T}

/-! ## The invariant -/

/-- What the steps that do not set the field to null keep. -/
structure Moved (cell cell' : Cell T O) : Prop where
  inv : CellInv cell → CellInv cell'
  returned : CellInv cell → ∀ get, Returned cell get → Returned cell' get
  epoch : cell'.epoch = cell.epoch

/-- What a method has got so far. -/
structure GotAll (cell : Cell T O) (running : RunningCall O R ρ θ) : Prop where
  returned : ∀ g ∈ running.gets, Returned cell g
  found : ∀ g ∈ running.gets, g.object.isSome

/-- What a method has got that has ended behind `before`. -/
structure EndedWell (cell : Cell T O) (before : List (EndedCall O R ρ θ)) (e : EndedCall O R ρ θ) : Prop where
  got : e.gets ≠ []
  returned : ∀ g ∈ e.gets, Returned cell g
  epoch_le : ∀ g ∈ e.gets, g.epoch ≤ before.countP EndedCall.drops
  threw : ∀ g ∈ e.gets, g.object = none → e.exit = .threw
  twice : e.drops = true → e.gets.length = 2

structure ThreadsInv (s : SchedulingThreads T O R ρ θ) : Prop where
  cell : CellInv s.cell
  epoch : s.cell.epoch = s.ended.countP EndedCall.drops
  running : ∀ t running, s.running t = some running → GotAll s.cell running
  ended : ∀ l e l', s.ended = l ++ e :: l' → EndedWell s.cell l e

theorem Moved.trans (h : Moved cell cell') (h' : Moved cell' cell'') : Moved cell cell'' where
  inv hinv := h'.inv (h.inv hinv)
  returned hinv get hget := h'.returned (h.inv hinv) get (h.returned hinv get hget)
  epoch := h'.epoch.trans h.epoch

theorem threadsInv_start : ThreadsInv (.start : SchedulingThreads T O R ρ θ) where
  cell := cellInv_start
  epoch := rfl
  running := nofun
  ended l e l' h := by cases l <;> cases h

theorem GotAll.moved {running : RunningCall O R ρ θ} (h : GotAll cell running)
    (hreturned : ∀ get, Returned cell get → Returned cell' get) : GotAll cell' running where
  returned g hg := hreturned g (h.returned g hg)
  found := h.found

theorem EndedWell.moved {before : List (EndedCall O R ρ θ)} {e : EndedCall O R ρ θ}
    (h : EndedWell cell before e) (hreturned : ∀ get, Returned cell get → Returned cell' get) :
    EndedWell cell' before e where
  got := h.got
  returned g hg := hreturned g (h.returned g hg)
  epoch_le := h.epoch_le
  threw := h.threw
  twice := h.twice

/-- A step of the cell only. -/
theorem ThreadsInv.moved (h : ThreadsInv s) (hmoved : Moved s.cell cell) : ThreadsInv { s with cell } where
  cell := hmoved.inv h.cell
  epoch := hmoved.epoch.trans h.epoch
  running t running hrun := (h.running t running hrun).moved (hmoved.returned h.cell)
  ended l e l' heq := (h.ended l e l' heq).moved (hmoved.returned h.cell)

theorem ThreadsInv.endedWell (h : ThreadsInv s) {e : EndedCall O R ρ θ} (he : e ∈ s.ended) :
    ∃ before, EndedWell s.cell before e := by
  obtain ⟨l, l', heq⟩ := List.append_of_mem he
  exact ⟨l, h.ended l e l' heq⟩

/-- A list that ends in `e`, cut at one of its entries. -/
theorem concat_eq_append_cons {α : Type} {l l₁ l₂ : List α} {e e' : α} (h : l ++ [e] = l₁ ++ e' :: l₂) :
    (l₁ = l ∧ e' = e) ∨ ∃ l₃, l = l₁ ++ e' :: l₃ := by
  rcases List.eq_nil_or_concat l₂ with rfl | ⟨l₃, x, rfl⟩
  · obtain ⟨hl, he⟩ := List.append_inj' h rfl
    exact .inl ⟨hl.symm, (List.singleton_inj.mp he).symm⟩
  · refine .inr ⟨l₃, ?_⟩
    rw [List.concat_eq_append, ← List.cons_append, ← List.append_assoc] at h
    exact (List.append_inj' h rfl).1

variable [DecidableEq T]

/-! ## Steps -/

theorem setRunning_self (running : Option (RunningCall O R ρ θ)) :
    (s.setRunning t running).running t = running := Function.update_self ..

theorem setRunning_of_ne {u : T} (hu : u ≠ t) (running : Option (RunningCall O R ρ θ)) :
    (s.setRunning t running).running u = s.running u := Function.update_of_ne hu ..

theorem moved_of_step (hs : CellStep cell b cell') (hb : b ≠ .reset) : Moved cell cell' where
  inv h := cellInv_step h hs
  returned h _ hget := hget.step h hs
  epoch := by
    cases hs with
    | reset => exact absurd rfl hb
    | _ => rfl

/-- A method goes on. -/
theorem ThreadsInv.setRunning (h : ThreadsInv s) {running : Option (RunningCall O R ρ θ)}
    (hgot : ∀ r, running = some r → GotAll s.cell r) : ThreadsInv (s.setRunning t running) where
  cell := h.cell
  epoch := h.epoch
  running u r hrun := by
    by_cases hu : u = t
    · subst hu
      exact hgot r ((setRunning_self running).symm.trans hrun)
    · exact h.running u r ((setRunning_of_ne hu running).symm.trans hrun)
  ended := h.ended

/-- A method ends. The cell after it has one epoch more if the method has set the field to null. -/
theorem ThreadsInv.finish (h : ThreadsInv s) {running : RunningCall O R ρ θ} {exit : CallExit}
    (hwell : EndedWell s.cell s.ended ⟨running, exit⟩) (hinv : CellInv cell)
    (hreturned : ∀ get, Returned s.cell get → Returned cell get)
    (hepoch : cell.epoch = s.cell.epoch + if EndedCall.drops ⟨running, exit⟩ then 1 else 0) :
    ThreadsInv ({ s with cell }.finish t running exit) where
  cell := hinv
  epoch := by
    show cell.epoch = (s.ended ++ [EndedCall.mk running exit]).countP EndedCall.drops
    rw [List.countP_append, List.countP_singleton, hepoch, h.epoch]
  running u r hrun := by
    by_cases hu : u = t
    · subst hu
      have hnone : (none : Option (RunningCall O R ρ θ)) = some r :=
        (setRunning_self (s := { s with cell }) none).symm.trans hrun
      cases hnone
    · exact (h.running u r ((setRunning_of_ne (s := { s with cell }) hu none).symm.trans hrun)).moved hreturned
  ended l e l' heq := by
    rcases concat_eq_append_cons heq with ⟨rfl, rfl⟩ | ⟨l₃, hold⟩
    · exact hwell.moved hreturned
    · exact (h.ended l e l₃ hold).moved hreturned

/-- `setTaskRegistrar` sets the field to null. -/
theorem threadsInv_setNull (h : ThreadsInv s) {running : RunningCall O R ρ θ} (hgot : GotAll s.cell running)
    (hsets : running.call.setsRegistrar = true) (hlength : running.gets.length = 2)
    (hcell : CellStep s.cell .reset cell) : ThreadsInv ({ s with cell }.finish t running .returned) := by
  refine h.finish ⟨?_, hgot.returned, ?_, ?_, fun _ => hlength⟩ (cellInv_step h.cell hcell)
    (fun get hget => hget.step h.cell hcell) ?_
  · exact List.ne_nil_of_length_eq_add_one hlength
  · exact fun g hg => h.epoch ▸ (hgot.returned g hg).epoch_le
  · intro g hg hnone
    have hin := hgot.found g hg
    rw [hnone] at hin
    cases hin
  · cases hcell
    rw [EndedCall.drops, hsets]
    exact List.length_append

variable [DecidableEq O]

theorem stepCell_eq_some (h : s.stepCell b = some s') :
    ∃ cell, CellStep s.cell b cell ∧ s' = { s with cell } := by
  obtain ⟨cell, hs, rfl⟩ := Option.map_eq_some_iff.mp h
  exact ⟨cell, cellStep_of_step hs, rfl⟩

/-! ## Steps of the methods -/

/-- The method goes on, or ends, with what it has got. -/
theorem threadsInv_use (h : ThreadsInv s) {running : RunningCall O R ρ θ} {get : Get O} {works : Bool}
    (hgot : GotAll s.cell running) (hget : Returned s.cell get)
    (hs : s.use t running get works = some s') : ThreadsInv s' := by
  have hreturned : ∀ g ∈ running.gets ++ [get], Returned s.cell g := by
    intro g hg
    rcases List.mem_append.mp hg with hg | hg
    · exact hgot.returned g hg
    · exact List.mem_singleton.mp hg ▸ hget
  have hepoch : ∀ g ∈ running.gets ++ [get], g.epoch ≤ s.ended.countP EndedCall.drops :=
    fun g hg => h.epoch ▸ (hreturned g hg).epoch_le
  -- a method that does not set the field to null
  have hfinish : ∀ exit, (∀ g ∈ running.gets ++ [get], g.object = none → exit = .threw) →
      EndedCall.drops (⟨⟨running.call, running.gets ++ [get]⟩, exit⟩ : EndedCall O R ρ θ) = false →
      ThreadsInv (s.finish t ⟨running.call, running.gets ++ [get]⟩ exit) := by
    intro exit hthrew hdrops
    refine h.finish ⟨by simp, hreturned, hepoch, hthrew, fun h => ?_⟩ h.cell (fun _ => id) ?_
    · rw [hdrops] at h
      cases h
    · rw [hdrops]
      rfl
  simp only [SchedulingThreads.use] at hs
  split at hs
  · cases hs
    exact hfinish .threw (fun _ _ _ => rfl) (by simp [EndedCall.drops])
  · rename_i hsome
    have hfound : ∀ g ∈ running.gets ++ [get], g.object.isSome := by
      intro g hg
      rcases List.mem_append.mp hg with hg | hg
      · exact hgot.found g hg
      · rw [List.mem_singleton.mp hg, ← Option.not_isNone, Bool.of_not_eq_true hsome]
        rfl
    have hgone : GotAll s.cell (⟨running.call, running.gets ++ [get]⟩ : RunningCall O R ρ θ) :=
      ⟨hreturned, hfound⟩
    have hthrew : ∀ exit : CallExit, ∀ g ∈ running.gets ++ [get], g.object = none → exit = .threw := by
      intro exit g hg hnone
      have hin := hfound g hg
      rw [hnone] at hin
      cases hin
    split at hs
    · split at hs
      · -- the second `getScheduling()` begins
        obtain ⟨u, hu, rfl⟩ := Option.map_eq_some_iff.mp hs
        obtain ⟨cell, hcell, rfl⟩ := stepCell_eq_some hu
        have hmoved := moved_of_step hcell nofun
        refine (h.moved hmoved).setRunning ?_
        rintro r ⟨⟩
        exact hgone.moved (hmoved.returned h.cell)
      · split at hs
        · cases hs
          refine h.setRunning ?_
          rintro r ⟨⟩
          exact hgone
        · cases hs
          exact hfinish .threw (hthrew _) (by simp [EndedCall.drops])
    · rename_i hother
      cases hs
      refine hfinish _ (hthrew _) ?_
      show (running.call.setsRegistrar && _) = false
      rw [Bool.of_not_eq_true hother, Bool.false_and]

theorem threadsInv_step (h : ThreadsInv s) (hs : (schedulingMachine T O R ρ θ).step s a = some s') :
    ThreadsInv s' := by
  have hinner : ∀ b : CellAction T O, b ≠ .reset → s.stepCell b = some s' → ThreadsInv s' := by
    intro b hb hs
    obtain ⟨cell, hcell, rfl⟩ := stepCell_eq_some hs
    exact h.moved (moved_of_step hcell hb)
  cases a with
  | call t call =>
    obtain ⟨-, hs⟩ := Option.ite_none_right_eq_some.mp hs
    obtain ⟨u, hu, rfl⟩ := Option.map_eq_some_iff.mp hs
    obtain ⟨cell, hcell, rfl⟩ := stepCell_eq_some hu
    refine (h.moved (moved_of_step hcell nofun)).setRunning ?_
    rintro r ⟨⟩
    exact ⟨nofun, nofun⟩
  | read t => exact hinner (.read t) nofun hs
  | enter t => exact hinner (.enter t) nofun hs
  | check t => exact hinner (.check t) nofun hs
  | create t o => exact hinner (.create t o) nofun hs
  | leave t => exact hinner (.leave t) nofun hs
  | reread t => exact hinner (.reread t) nofun hs
  | use t works =>
    obtain ⟨running, hrun, hs⟩ := Option.bind_eq_some_iff.mp hs
    split at hs
    · rename_i get hph
      obtain ⟨u, hu, hs⟩ := Option.bind_eq_some_iff.mp hs
      obtain ⟨cell, hcell, rfl⟩ := stepCell_eq_some hu
      have hmoved := moved_of_step hcell nofun
      have hget := hmoved.returned h.cell get ((h.cell.readers t).returned get hph)
      have hgot := (h.running t running hrun).moved (hmoved.returned h.cell)
      exact threadsInv_use (h.moved hmoved) hgot hget hs
    · cases hs
  | setNull t =>
    obtain ⟨running, hrun, hs⟩ := Option.bind_eq_some_iff.mp hs
    obtain ⟨⟨hsets, hlength⟩, hs⟩ := Option.ite_none_right_eq_some.mp hs
    obtain ⟨u, hu, hs⟩ := Option.bind_eq_some_iff.mp hs
    obtain ⟨cell, hcell, rfl⟩ := stepCell_eq_some hu
    cases hs
    exact threadsInv_setNull h (h.running t running hrun) hsets hlength hcell

theorem threadsInv_run (h : (schedulingMachine T O R ρ θ).run .start actions = some s) : ThreadsInv s :=
  StepMachine.run_invariant (I := ThreadsInv) (fun _ _ _ hinv hs => threadsInv_step hinv hs) threadsInv_start h

/-! ## Sharing -/

/-- A thread that creates an object has found the field null under the lock, and no one else fills it. -/
theorem ThreadsInv.create_value (h : ThreadsInv s) {o : O}
    (hs : (schedulingMachine T O R ρ θ).step s (.create t o) = some s') : s.cell.value = none := by
  obtain ⟨cell, hcell, -⟩ := stepCell_eq_some hs
  cases hcell with
  | create hph hfresh => exact (h.cell.readers t).creating hph

/-- However the threads interleave, methods that run between two times that the field is set to null work on
one object. -/
theorem getScheduling_shared (actions : List (ThreadAction T O R ρ θ)) (s : SchedulingThreads T O R ρ θ)
    (h : (schedulingMachine T O R ρ θ).run .start actions = some s) : SchedulingShared s := by
  have hinv := threadsInv_run h
  refine ⟨fun t o s' hs => hinv.create_value hs, hinv.cell.nodup, hinv.epoch ▸ hinv.cell.length_made_le, ?_, ?_⟩
  · intro e he e' he' g hg g' hg' hepoch o o' ho ho'
    obtain ⟨before, hwell⟩ := hinv.endedWell he
    obtain ⟨before', hwell'⟩ := hinv.endedWell he'
    exact (hwell.returned g hg).object_eq (hwell'.returned g' hg') hepoch ho ho'
  · intro e he g hg hnone
    obtain ⟨before, hwell⟩ := hinv.endedWell he
    exact ⟨hwell.threw g hg hnone, (hwell.returned g hg).missed hnone⟩

/-- The methods that have ended before the field is set to null for the first time have all got the object on
which `setTaskRegistrar` has set the registrar and called `refresh`. -/
theorem registered_before (actions : List (ThreadAction T O R ρ θ)) (s : SchedulingThreads T O R ρ θ)
    (h : (schedulingMachine T O R ρ θ).run .start actions = some s) (before after : List (EndedCall O R ρ θ))
    (e : EndedCall O R ρ θ) (hended : s.ended = before ++ e :: after)
    (hfirst : ∀ e' ∈ before, e'.drops = false) :
    (e.drops = true → e.gets.length = 2) ∧
      ∃ o, ∀ e' ∈ before ++ [e], e'.gets ≠ [] ∧ ∀ g ∈ e'.gets, g.object = some o := by
  have hinv := threadsInv_run h
  have hzero : ∀ l : List (EndedCall O R ρ θ), (∀ e' ∈ l, e' ∈ before) → l.countP EndedCall.drops = 0 :=
    fun l hl => List.countP_eq_zero.mpr fun e' he' => by rw [hfirst e' (hl e' he')]; exact Bool.false_ne_true
  have hwell : ∀ e' ∈ before ++ [e], ∃ l, (∀ x ∈ l, x ∈ before) ∧ EndedWell s.cell l e' := by
    intro e' he'
    rcases List.mem_append.mp he' with hbefore | hlast
    · obtain ⟨l, l', rfl⟩ := List.append_of_mem hbefore
      refine ⟨l, fun x hx => List.mem_append_left _ hx, hinv.ended l e' (l' ++ e :: after) ?_⟩
      rw [hended, List.append_assoc, List.cons_append]
    · obtain rfl := List.mem_singleton.mp hlast
      exact ⟨before, fun _ hx => hx, hinv.ended before e' after hended⟩
  -- all of them have read the field in its first epoch, and no epoch had ended before it
  have hfound : ∀ e' ∈ before ++ [e], ∀ g ∈ e'.gets, g.object.isSome ∧ g.object = s.cell.objectAt 0 := by
    intro e' he' g hg
    obtain ⟨l, hl, hwell⟩ := hwell e' he'
    have hepoch : g.epoch = 0 := by
      have hle := hwell.epoch_le g hg
      rw [hzero l hl] at hle
      omega
    cases ho : g.object with
    | none =>
      have hmissed := (hwell.returned g hg).missed ho
      omega
    | some o =>
      have hcurrent := (hwell.returned g hg).current o ho
      rw [hepoch] at hcurrent
      exact ⟨rfl, hcurrent.symm⟩
  have hgot : ∀ e' ∈ before ++ [e], e'.gets ≠ [] := by
    intro e' he'
    obtain ⟨l, -, hwell⟩ := hwell e' he'
    exact hwell.got
  have he : e ∈ before ++ [e] := List.mem_append_right _ (List.mem_singleton_self e)
  obtain ⟨g, hg⟩ := List.exists_mem_of_ne_nil _ (hgot e he)
  obtain ⟨hsome, hobject⟩ := hfound e he g hg
  obtain ⟨o, ho⟩ := Option.isSome_iff_exists.mp hsome
  refine ⟨(hinv.ended before e after hended).twice, o, fun e' he' => ⟨hgot e' he', fun g' hg' => ?_⟩⟩
  rw [(hfound e' he' g' hg').2, ← hobject, ho]

/-- Two threads that both find the field null, and then the one that sets the registrar. -/
def twoAdds : List (ThreadAction Bool ℕ Unit Unit Unit) :=
  [.call true (.addCronTask ⟨(), "* * * * * ?"⟩), .call false (.addTrigger () ()), .read true, .read false,
    .enter true, .check true, .create true 0, .leave true, .enter false, .check false, .leave false,
    .reread true, .reread false, .use true true, .use false true,
    .call true (.setTaskRegistrar (some ())), .read true, .reread true, .use true true, .read true, .reread true,
    .use true true, .setNull true]

theorem getScheduling_shared_twoAdds :
    ∃ s, (schedulingMachine Bool ℕ Unit Unit Unit).run .start twoAdds = some s ∧ SchedulingShared s :=
  ⟨_, rfl, getScheduling_shared twoAdds _ rfl⟩

theorem registered_before_twoAdds :
    ∃ s, (schedulingMachine Bool ℕ Unit Unit Unit).run .start twoAdds = some s ∧
      ∃ o, ∀ e ∈ s.ended, e.gets ≠ [] ∧ ∀ g ∈ e.gets, g.object = some o :=
  ⟨_, rfl, (registered_before twoAdds _ rfl [_, _] [] _ rfl (by decide)).2⟩

/-! ## A thread alone -/

/-- A thread that no one interferes with gets the object of the sequential `getScheduling`, and the field
refers to it afterwards. -/
theorem getScheduling_alone {o : O} (heap : O → Scheduling R ρ θ) (state : SchedulingState R ρ θ)
    (hfield : state.scheduling = cell.value.map heap) (hnew : heap o = .new) (hph : cell.phase t = .outside)
    (hlock : cell.lock = none) (hfresh : o ∉ cell.made) :
    ∃ cell' get, (cellMachine T O).run cell (alone cell t o) = some cell' ∧ cell'.phase t = .returned get ∧
      get.object.map heap = some (SchedulingUtil.getScheduling state) ∧ cell'.value = get.object ∧
      cell'.lock = none := by
  obtain ⟨cell', hrun, hphase, hvalue, hfree⟩ := run_alone hph hlock hfresh
  refine ⟨cell', _, hrun, hphase, ?_, hvalue, hfree⟩
  rw [SchedulingUtil.getScheduling, hfield]
  cases cell.value with
  | none => exact congrArg some hnew
  | some o' => rfl

end PingPong.Trace
