import PingPong.Trace.SchedulingUtil
import Mathlib.Data.List.Basic
import Mathlib.Data.List.Induction

/-!
# Proofs: registration of scheduled tasks

`setTaskRegistrar` drops the object whose registrar it has set, so between two calls the current object
has no registrar (`Unregistered`). Then `refresh` does nothing but throw when a task waits, and a new
registrar is handed all tasks that wait.
-/

namespace PingPong.Trace

variable {R ρ θ : Type} {w registrars : Registrars R ρ θ}
  {tasks : List (ScheduledTask ρ θ)} {s : SchedulingState R ρ θ} {parses : String → Bool}
  {calls late : List (SchedulingCall R ρ θ)} {c : SchedulingCall R ρ θ}

/-! ## The loops -/

theorem addAll_some [DecidableEq R] (r : R) (tasks : List (ScheduledTask ρ θ)) (w : Registrars R ρ θ) :
    addAll (some r) tasks w = (.returned, Function.update w r (w r ++ tasks)) := by
  induction tasks generalizing w with
  | nil =>
    rw [List.append_nil, Function.update_eq_self]
    rfl
  | cons task tasks ih =>
    show addAll (some r) tasks (Function.update w r (w r ++ [task])) = _
    rw [ih, Function.update_self, Function.update_idem, List.append_assoc]
    rfl

/-! ## `Scheduling.refresh` -/

namespace Scheduling

variable {scheduling : Scheduling R ρ θ}

variable [DecidableEq R]

/-- With a registrar, all tasks are handed to it. -/
theorem refresh_of_some {r : R} (h : scheduling.taskRegistrar = some r) (w : Registrars R ρ θ) :
    scheduling.refresh w =
      (.returned, { scheduling with cronTaskList := none },
        Function.update w r (w r ++ scheduling.pending)) := by
  unfold refresh pending
  simp only [h, addAll_some]
  rw [Function.update_self, Function.update_idem, List.append_assoc]
  rfl

/-- Without a registrar, nothing is handed over, and the object keeps its tasks. -/
theorem refresh_of_none (h : scheduling.taskRegistrar = none) (w : Registrars R ρ θ) :
    ∃ exit kept, scheduling.refresh w = (exit, kept, w) ∧
      (exit = .returned ↔ scheduling.pending = []) ∧ kept.taskRegistrar = none ∧
      kept.getCronTaskList = scheduling.getCronTaskList ∧
      kept.getTriggerTaskList = scheduling.getTriggerTaskList := by
  rcases scheduling with ⟨taskRegistrar, cronTaskList, triggerTaskList⟩
  obtain rfl : taskRegistrar = none := h
  -- a loop over no tasks does not touch the registrar
  rcases cronTaskList with _ | _ | ⟨cron, crons⟩ <;>
    rcases triggerTaskList with _ | _ | ⟨trigger, triggers⟩ <;>
    exact ⟨_, _, rfl, by simp [pending, getCronTaskList, getTriggerTaskList], rfl, rfl, rfl⟩

/-! ## Repeated calls of `refresh` -/

theorem refreshes_succ (n : ℕ) (s : Scheduling R ρ θ) (w : Registrars R ρ θ) :
    s.refreshes (n + 1) w = ((s.refreshes n w).1.refresh (s.refreshes n w).2).2 :=
  Function.iterate_succ_apply' ..

/-- The first call hands over all tasks, and every further call the trigger tasks again. -/
theorem refreshes_of_some {r : R} (h : scheduling.taskRegistrar = some r) (n : ℕ)
    (w : Registrars R ρ θ) :
    scheduling.refreshes (n + 1) w =
      ({ scheduling with cronTaskList := none },
        Function.update w r (w r ++ scheduling.pending ++
          (List.replicate n (scheduling.getTriggerTaskList.map ScheduledTask.trigger)).flatten)) := by
  induction n with
  | zero =>
    show (scheduling.refresh w).2 = _
    rw [refresh_of_some h]
    simp
  | succ n ih =>
    have hkept : ({ scheduling with cronTaskList := none } : Scheduling R ρ θ).taskRegistrar = some r := h
    rw [refreshes_succ, ih]
    dsimp only
    rw [refresh_of_some hkept, Function.update_self, Function.update_idem]
    have hpending : ({ scheduling with cronTaskList := none } : Scheduling R ρ θ).pending =
        scheduling.getTriggerTaskList.map ScheduledTask.trigger := rfl
    rw [hpending, List.replicate_succ', List.flatten_append, List.flatten_singleton,
      List.append_assoc, List.append_assoc]

/-- With a registrar, `refresh` drains if and only if no trigger task waits. -/
theorem drains_iff {r : R} (h : scheduling.taskRegistrar = some r) (w : Registrars R ρ θ) :
    scheduling.Drains r w ↔ scheduling.getTriggerTaskList = [] := by
  have hleft : (scheduling.refresh w).2.1.pending =
      scheduling.getTriggerTaskList.map ScheduledTask.trigger := by
    rw [refresh_of_some h]
    rfl
  constructor
  · intro hdrains
    have hnone := hdrains.drained
    rw [hleft] at hnone
    exact List.map_eq_nil_iff.mp hnone
  · intro hnone
    refine ⟨by rw [refresh_of_some h], ⟨scheduling.pending, .refl _, by rw [refresh_of_some h]⟩, ?_, ?_⟩
    · rw [hleft, hnone]
      rfl
    · intro n hn
      obtain ⟨m, rfl⟩ := Nat.exists_eq_add_of_le' hn
      rw [refreshes_of_some h, show 1 = 0 + 1 from rfl, refreshes_of_some h, hnone]
      simp

/-- An object with one cron task. -/
def oneCron : Scheduling Unit Unit Unit := ⟨some (), some [⟨(), "0 0 * * * *"⟩], none⟩

theorem drains_iff_oneCron : oneCron.Drains () (fun _ => []) ↔ oneCron.getTriggerTaskList = [] :=
  drains_iff (show oneCron.taskRegistrar = some () from rfl) _

/-- An object with one trigger task. -/
def oneTrigger : Scheduling Unit Unit Unit := ⟨some (), none, some [⟨(), ()⟩]⟩

/-- The second call hands the trigger task over again. -/
theorem not_drains_oneTrigger : ¬ oneTrigger.Drains () (fun _ => []) := by
  intro h
  have htwice := congrFun (h.repeatable 2 (by decide)) ()
  revert htwice
  decide

end Scheduling

namespace SchedulingUtil

theorem getScheduling_put (s : SchedulingState R ρ θ) (scheduling : Scheduling R ρ θ) :
    getScheduling (put s scheduling) = scheduling := rfl

/-! ## What waits after a call -/

/-- A call that sets no registrar hands nothing over, and leaves the task it adds, if any, behind those of
its kind that wait. -/
structure Waits (parses : String → Bool) (s : SchedulingState R ρ θ) (c : SchedulingCall R ρ θ)
    (s' : SchedulingState R ρ θ) : Prop where
  registrars : s'.registrars = s.registrars
  cron : (pendingCron s').map ScheduledTask.cron =
    (pendingCron s).map .cron ++ (added parses c).toList.filter (·.isCron)
  trigger : (pendingTrigger s').map ScheduledTask.trigger =
    (pendingTrigger s).map .trigger ++ (added parses c).toList.filter (!·.isCron)

variable {s' : SchedulingState R ρ θ}

theorem waits_of_none (hc : added parses c = none) (hregistrars : s'.registrars = s.registrars)
    (hcron : pendingCron s' = pendingCron s) (htrigger : pendingTrigger s' = pendingTrigger s) :
    Waits parses s c s' := by
  refine ⟨hregistrars, ?_, ?_⟩
  · rw [hc, hcron]; exact (List.append_nil _).symm
  · rw [hc, htrigger]; exact (List.append_nil _).symm

theorem waits_of_cron {task : CronTask ρ} (hc : added parses c = some (.cron task)) :
    Waits parses s c (put s ((getScheduling s).addCronTask task)) := by
  refine ⟨rfl, ?_, ?_⟩
  · rw [hc]; exact List.map_append
  · rw [hc]; exact (List.append_nil _).symm

theorem waits_of_trigger {task : TriggerTask ρ θ} (hc : added parses c = some (.trigger task)) :
    Waits parses s c (put s ((getScheduling s).addTriggerTask task)) := by
  refine ⟨rfl, ?_, ?_⟩
  · rw [hc]; exact (List.append_nil _).symm
  · rw [hc]; exact List.map_append

/-! ## Accounting -/

variable {handed : List (R × ScheduledTask ρ θ)}

theorem filterMap_added_concat (calls : List (SchedulingCall R ρ θ)) (c : SchedulingCall R ρ θ) :
    (calls ++ [c]).filterMap (added parses) =
      calls.filterMap (added parses) ++ (added parses c).toList := by
  rw [List.filterMap_append]
  cases hc : added parses c <;> simp [hc]

theorem filter_isCron_pending (s : SchedulingState R ρ θ) :
    (pending s).filter (·.isCron) = (pendingCron s).map .cron ∧
    (pending s).filter (!·.isCron) = (pendingTrigger s).map .trigger := by
  have hpending : pending s = (pendingCron s).map .cron ++ (pendingTrigger s).map .trigger := rfl
  rw [hpending, List.filter_append, List.filter_append]
  constructor
  · simp [List.filter_map, Function.comp_def, ScheduledTask.isCron]
  · simp [List.filter_map, Function.comp_def, ScheduledTask.isCron]

theorem Waits.mem_pending (hw : Waits parses s c s') {task : ScheduledTask ρ θ}
    (h : task ∈ pending s ∨ added parses c = some task) : task ∈ pending s' := by
  have hpending : ∀ u : SchedulingState R ρ θ,
      pending u = (pendingCron u).map .cron ++ (pendingTrigger u).map .trigger := fun _ => rfl
  rw [hpending, hw.cron, hw.trigger]
  rw [hpending] at h
  rcases h with h | h
  · rcases List.mem_append.mp h with h | h
    · simp [h]
    · simp [h]
  · rw [h]
    cases task with
    | cron task => simp [ScheduledTask.isCron]
    | trigger task => simp [ScheduledTask.isCron]

variable [DecidableEq R]

/-- The current object has no registrar. -/
def Unregistered (s : SchedulingState R ρ θ) : Prop := (getScheduling s).taskRegistrar = none

/-! ## One call -/

/-- Without a registrar, `refresh` throws if a task waits, and changes neither the tasks nor a
registrar. -/
theorem refresh_of_unregistered (h : Unregistered s) :
    ((refresh s).1 = .returned ↔ pending s = []) ∧ (refresh s).2.registrars = s.registrars ∧
    pendingCron (refresh s).2 = pendingCron s ∧ pendingTrigger (refresh s).2 = pendingTrigger s ∧
    Unregistered (refresh s).2 := by
  obtain ⟨exit, kept, hrefresh, hexit, hnone, hcron, htrigger⟩ :=
    Scheduling.refresh_of_none h s.registrars
  have hstep : refresh s = (exit, ⟨some kept, s.registrars⟩) := by
    unfold refresh
    rw [hrefresh]
  rw [hstep]
  exact ⟨hexit, rfl, hcron, htrigger, hnone⟩

/-- A registrar is handed all tasks that wait, and the object is dropped. -/
theorem setTaskRegistrar_some (s : SchedulingState R ρ θ) (r : R) :
    setTaskRegistrar s (some r) =
      (.returned, start (Function.update s.registrars r (s.registrars r ++ pending s))) := by
  have hrefresh : refresh (put s { getScheduling s with taskRegistrar := some r }) =
      (.returned, ⟨some ⟨some r, none, (getScheduling s).triggerTaskList⟩,
        Function.update s.registrars r (s.registrars r ++ pending s)⟩) := by
    unfold refresh
    rw [getScheduling_put, Scheduling.refresh_of_some rfl]
    rfl
  simp only [setTaskRegistrar, hrefresh]
  rfl

/-- A null registrar changes neither the tasks nor a registrar. -/
theorem setTaskRegistrar_none (s : SchedulingState R ρ θ) :
    (setTaskRegistrar s none).2.registrars = s.registrars ∧
    pendingCron (setTaskRegistrar s none).2 = pendingCron s ∧
    pendingTrigger (setTaskRegistrar s none).2 = pendingTrigger s ∧
    Unregistered (setTaskRegistrar s none).2 := by
  obtain ⟨hexit, hregistrars, hcron, htrigger, hnone⟩ :=
    refresh_of_unregistered (s := put s { getScheduling s with taskRegistrar := none }) rfl
  unfold setTaskRegistrar
  dsimp only
  split
  · rename_i u hthrew
    rw [hthrew] at hregistrars hcron htrigger hnone
    exact ⟨hregistrars, hcron, htrigger, hnone⟩
  · rename_i u hreturned
    rw [hreturned] at hexit hregistrars
    -- nothing waits, so nothing is lost with the object
    have hempty : pending s = [] := hexit.mp rfl
    obtain ⟨hno, hno'⟩ := List.append_eq_nil_iff.mp hempty
    refine ⟨hregistrars, ?_, ?_, rfl⟩
    · exact (List.map_eq_nil_iff.mp hno).symm
    · exact (List.map_eq_nil_iff.mp hno').symm

/-! ## The current object -/

theorem unregistered_call (h : Unregistered s) : Unregistered (call parses s c).2 := by
  cases c with
  | addCronExpression task expression =>
    cases hnew : newCronTask parses task expression with
    | none => simp only [call, hnew]; exact h
    | some task => simp only [call, hnew]; exact h
  | addCronTask task => exact h
  | addTrigger task trigger => exact h
  | addTriggerTask task => exact h
  | refresh => exact (refresh_of_unregistered h).2.2.2.2
  | setTaskRegistrar taskRegistrar =>
    cases taskRegistrar with
    | none => exact (setTaskRegistrar_none s).2.2.2
    | some r =>
      show Unregistered (setTaskRegistrar s (some r)).2
      rw [setTaskRegistrar_some]
      rfl

theorem after_concat (calls : List (SchedulingCall R ρ θ)) (c : SchedulingCall R ρ θ)
    (s : SchedulingState R ρ θ) :
    after parses (calls ++ [c]) s = (call parses (after parses calls s) c).2 :=
  List.foldl_concat ..

/-- Between two calls the current object never has a registrar. -/
theorem unregistered_after (registrars : Registrars R ρ θ) (calls : List (SchedulingCall R ρ θ)) :
    Unregistered (after parses calls (start registrars)) := by
  induction calls using List.reverseRecOn with
  | nil => rfl
  | append_singleton calls c ih =>
    rw [after_concat]
    exact unregistered_call ih

/-! ## One more call -/

theorem waits_call (hu : Unregistered s) (hc : ∀ r, c ≠ .setTaskRegistrar (some r)) :
    Waits parses s c (call parses s c).2 := by
  cases c with
  | addCronExpression task expression =>
    cases hnew : newCronTask parses task expression with
    | none =>
      simp only [call, hnew]
      exact waits_of_none (by simp [added, hnew]) rfl rfl rfl
    | some task =>
      simp only [call, hnew]
      exact waits_of_cron (by simp [added, hnew])
  | addCronTask task => exact waits_of_cron rfl
  | addTrigger task trigger => exact waits_of_trigger rfl
  | addTriggerTask task => exact waits_of_trigger rfl
  | refresh =>
    obtain ⟨-, hregistrars, hcron, htrigger, -⟩ := refresh_of_unregistered hu
    exact waits_of_none rfl hregistrars hcron htrigger
  | setTaskRegistrar taskRegistrar =>
    cases taskRegistrar with
    | none =>
      obtain ⟨hregistrars, hcron, htrigger, -⟩ := setTaskRegistrar_none s
      exact waits_of_none rfl hregistrars hcron htrigger
    | some r => exact absurd rfl (hc r)

theorem Accounted.wait (h : Accounted parses registrars calls handed s) (hw : Waits parses s c s') :
    Accounted parses registrars (calls ++ [c]) handed s' := by
  refine ⟨?_, ?_, ?_⟩
  · rw [hw.registrars]
    exact h.registrars
  · rw [filterMap_added_concat, List.filter_append, h.cron, hw.cron, List.append_assoc]
  · rw [filterMap_added_concat, List.filter_append, h.trigger, hw.trigger, List.append_assoc]

/-- The call that sets a registrar hands over what waits. -/
theorem Accounted.handOver (h : Accounted parses registrars calls handed s) (r : R) :
    Accounted parses registrars (calls ++ [SchedulingCall.setTaskRegistrar (some r)])
      (handed ++ (pending s).map fun task => (r, task)) (setTaskRegistrar s (some r)).2 := by
  have hadded : (calls ++ [SchedulingCall.setTaskRegistrar (some r)]).filterMap (added parses) =
      calls.filterMap (added parses) := by
    rw [filterMap_added_concat]
    exact List.append_nil _
  have htasks : (handed ++ (pending s).map fun task => (r, task)).map (·.2) =
      handed.map (·.2) ++ pending s := by
    rw [List.map_append, List.map_map]
    simp [Function.comp_def]
  obtain ⟨hcron, htrigger⟩ := filter_isCron_pending s
  rw [setTaskRegistrar_some]
  refine ⟨fun r' => ?_, ?_, ?_⟩
  · show Function.update s.registrars r (s.registrars r ++ pending s) r' = _
    rw [List.filter_append, List.map_append, ← List.append_assoc, ← h.registrars r']
    by_cases hr : r' = r
    · subst hr
      rw [Function.update_self]
      simp [List.filter_map, Function.comp_def]
    · rw [Function.update_of_ne hr]
      have hne : ¬ r = r' := fun e => hr e.symm
      simp [List.filter_map, Function.comp_def, hne]
  · rw [hadded, htasks, List.filter_append, hcron, h.cron]
    exact (List.append_nil _).symm
  · rw [hadded, htasks, List.filter_append, htrigger, h.trigger]
    exact (List.append_nil _).symm

/-- Every call keeps the account. -/
theorem accounted_call (h : Accounted parses registrars calls handed s) (hu : Unregistered s)
    (c : SchedulingCall R ρ θ) :
    ∃ handed', Accounted parses registrars (calls ++ [c]) handed' (call parses s c).2 := by
  by_cases hc : ∃ r, c = .setTaskRegistrar (some r)
  · obtain ⟨r, rfl⟩ := hc
    exact ⟨_, h.handOver r⟩
  · exact ⟨handed, h.wait (waits_call hu fun r hr => hc ⟨r, hr⟩)⟩

/-- After any calls every added task is accounted for. -/
theorem accounted_after (parses : String → Bool) (registrars : Registrars R ρ θ)
    (calls : List (SchedulingCall R ρ θ)) :
    ∃ handed, Accounted parses registrars calls handed (after parses calls (start registrars)) := by
  induction calls using List.reverseRecOn with
  | nil =>
    refine ⟨[], fun r => ?_, rfl, rfl⟩
    exact (List.append_nil _).symm
  | append_singleton calls c ih =>
    obtain ⟨handed, h⟩ := ih
    rw [after_concat]
    exact accounted_call h (unregistered_after registrars calls) c

/-! ## Registration -/

/-- After any calls, every added task is pending or has been handed to one registrar; a call that sets a
registrar hands it what is pending, cron tasks first, and leaves nothing pending; and a refresh that throws
changes neither the pending tasks nor a registrar. -/
theorem registration_exact (parses : String → Bool) (registrars : Registrars R ρ θ)
    (calls : List (SchedulingCall R ρ θ)) :
    let s := after parses calls (start registrars)
    (∃ handed, Accounted parses registrars calls handed s) ∧
    (∀ r, (setTaskRegistrar s (some r)).1 = .returned ∧
      (setTaskRegistrar s (some r)).2.registrars r = s.registrars r ++
        ((pendingCron s).map .cron ++ (pendingTrigger s).map .trigger) ∧
      (∀ r', r' ≠ r → (setTaskRegistrar s (some r)).2.registrars r' = s.registrars r') ∧
      pending (setTaskRegistrar s (some r)).2 = []) ∧
    ((refresh s).1 = .threw → pendingCron (refresh s).2 = pendingCron s ∧
      pendingTrigger (refresh s).2 = pendingTrigger s ∧ (refresh s).2.registrars = s.registrars) := by
  intro s
  refine ⟨accounted_after parses registrars calls, fun r => ?_, fun _ => ?_⟩
  · rw [setTaskRegistrar_some]
    refine ⟨rfl, ?_, ?_, rfl⟩
    · exact Function.update_self ..
    · intro r' hr'
      exact Function.update_of_ne hr' ..
  · obtain ⟨-, hregistrars, hcron, htrigger, -⟩ :=
      refresh_of_unregistered (unregistered_after registrars calls)
    exact ⟨hcron, htrigger, hregistrars⟩

/-! ## Late tasks -/

/-- Calls that set no registrar keep what waits, and what they add waits. -/
theorem mem_pending_after (hu : Unregistered s)
    (hlate : ∀ r, SchedulingCall.setTaskRegistrar (some r) ∉ late) {task : ScheduledTask ρ θ}
    (h : task ∈ pending s ∨ task ∈ late.filterMap (added parses)) :
    task ∈ pending (after parses late s) := by
  induction late generalizing s with
  | nil =>
    rcases h with h | h
    · exact h
    · cases h
  | cons c late ih =>
    have hc : ∀ r, c ≠ .setTaskRegistrar (some r) := by
      rintro r rfl
      exact hlate r List.mem_cons_self
    have hw : Waits parses s c (call parses s c).2 := waits_call hu hc
    refine ih (unregistered_call hu) (fun r hr => hlate r (List.mem_cons_of_mem _ hr)) ?_
    rcases h with h | h
    · exact Or.inl (hw.mem_pending (Or.inl h))
    · obtain ⟨d, hd, htask⟩ := List.mem_filterMap.mp h
      rcases List.mem_cons.mp hd with rfl | hd
      · exact Or.inl (hw.mem_pending (Or.inr htask))
      · exact Or.inr (List.mem_filterMap.mpr ⟨d, hd, htask⟩)

/-- `refresh()` registers no task that is added after the last registrar was set: it throws. -/
theorem not_registersLate (parses : String → Bool) (registrars : Registrars R ρ θ)
    (calls late : List (SchedulingCall R ρ θ)) (taskRegistrar : R)
    (hlate : ∀ r, SchedulingCall.setTaskRegistrar (some r) ∉ late)
    (hadded : late.filterMap (added parses) ≠ []) :
    ¬ RegistersLate parses registrars calls late taskRegistrar := by
  rintro ⟨hreturned, -⟩
  obtain ⟨task, tasks, htasks⟩ := List.exists_cons_of_ne_nil hadded
  have hsplit : after parses (calls ++ .setTaskRegistrar (some taskRegistrar) :: late) (start registrars) =
      after parses late (after parses (calls ++ [.setTaskRegistrar (some taskRegistrar)])
        (start registrars)) := by
    unfold after
    rw [← List.foldl_append, List.append_assoc]
    rfl
  have hmem : task ∈ pending (after parses (calls ++ .setTaskRegistrar (some taskRegistrar) :: late)
      (start registrars)) := by
    rw [hsplit]
    exact mem_pending_after (unregistered_after registrars _) hlate (Or.inr (by rw [htasks]; simp))
  have hempty := (refresh_of_unregistered (unregistered_after registrars _)).1.mp hreturned
  rw [hempty] at hmem
  cases hmem

/-- One cron task is added after the registrar has been set. -/
def lateCron : List (SchedulingCall Unit Unit Unit) := [.addCronExpression () "* * * * * *"]

theorem not_registersLate_lateCron :
    ¬ RegistersLate (fun _ => true) (fun _ => []) [] lateCron () :=
  not_registersLate _ _ [] lateCron () (fun r hr => by simp [lateCron] at hr) (by decide)

/-- The registrar is null for the object that has the late task. -/
theorem late_refresh_threw :
    ¬ RegistersLate (fun _ => true) (fun _ => []) [.addCronTask ⟨(), "0 0 * * * *"⟩]
      [SchedulingCall.addTrigger () ()] () := by
  rintro ⟨hreturned, -⟩
  have hthrew : (refresh (after (fun _ => true) ([SchedulingCall.addCronTask ⟨(), "0 0 * * * *"⟩] ++
      SchedulingCall.setTaskRegistrar (some ()) :: [SchedulingCall.addTrigger () ()])
      (start fun _ => []))).1 = .threw := rfl
  rw [hthrew] at hreturned
  cases hreturned

end SchedulingUtil

end PingPong.Trace
