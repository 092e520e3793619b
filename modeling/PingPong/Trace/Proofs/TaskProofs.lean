import PingPong.Trace.TaskRunnable

/-!
# Proofs: trace ids of tasks

A task that starts on an empty MDC starts under its own id. The MDC is empty again behind it exactly
when it returns or has emptied the MDC before it threw (`run_mdc_eq_clear_iff`), so isolation fails at
the first task that does neither.
-/

namespace PingPong.Trace

variable {g : TraceIdUtil} {self : TaskRunnable} {tasks : List TaskRunnable} {t : TraceThread}

/-! ## One run -/

/-- On an empty MDC the task gets its own id. -/
theorem start_of_clear (ht : t.mdc = .clear) :
    self.start g t =
      if !isEmpty self.traceId then t.putTraceId (self.traceId.getD "") else t.putGenerated g := by
  have hid : t.traceId = none := by rw [TraceThread.traceId, ht]; rfl
  rw [TaskRunnable.start, hid]
  rfl

/-- A run clears the MDC when the task returns. -/
theorem run_mdc_eq_clear_iff :
    (self.run g t).2.mdc = .clear ↔ ((self.task.run (self.start g t)).1 = .threw →
      (self.task.run (self.start g t)).2.mdc = .clear) := by
  rw [TaskRunnable.run]
  rcases self.task.run (self.start g t) with ⟨exit, u⟩
  cases exit with
  | returned => exact ⟨fun _ => nofun, fun _ => rfl⟩
  | threw => exact ⟨fun h _ => h, fun h => h rfl⟩

/-- A run on an empty MDC is isolated if it leaves the MDC empty. -/
theorem runsIsolated_iff (ht : t.mdc = .clear) :
    RunsIsolated g self t ↔ (self.run g t).2.mdc = .clear := by
  refine ⟨RunsIsolated.cleared, fun hcleared => ⟨fun id hid hne => ?_, fun hempty => ?_, hcleared⟩⟩
  · have hsome : isEmpty self.traceId = false := by simpa [hid, isEmpty] using hne
    rw [start_of_clear ht, hsome, hid]
    exact traceId_putTraceId
  · rw [start_of_clear ht, hempty]
    exact ⟨t.drawn, le_rfl, Nat.lt_succ_self _, traceId_putGenerated⟩

/-! ## All runs -/

theorem tasksIsolated_cons : TasksIsolated g (self :: tasks) t ↔
    RunsIsolated g self t ∧ TasksIsolated g tasks (self.run g t).2 := by
  constructor
  · intro h
    refine ⟨h [] self tasks rfl, fun l other l' htasks => ?_⟩
    exact h (self :: l) other l' (by rw [htasks]; rfl)
  · rintro ⟨hself, htasks⟩ l other l' heq
    cases l with
    | nil =>
      obtain ⟨rfl, rfl⟩ := List.cons.inj heq
      exact hself
    | cons first l =>
      obtain ⟨rfl, rfl⟩ := List.cons.inj heq
      exact htasks l other l' rfl

/-- When the MDC is empty behind a run, the thread is the one the task left, cleared. -/
theorem run_eq_of_cleared (h : (self.run g t).2.mdc = .clear) :
    (self.run g t).2 = (self.task.run (self.start g t)).2.clear := by
  rw [TaskRunnable.run] at h ⊢
  generalize self.task.run (self.start g t) = result at h ⊢
  rcases result with ⟨exit, u⟩
  cases exit with
  | returned => rfl
  | threw =>
    have hu : u.mdc = .clear := h
    show u = { u with mdc := .clear }
    rw [← hu]

/-- On a thread whose MDC starts empty, all runs are isolated exactly when every task that throws has
emptied the MDC itself. -/
theorem tasksIsolated_iff (g : TraceIdUtil) (tasks : List TaskRunnable) (t : TraceThread)
    (ht : t.mdc = .clear) : TasksIsolated g tasks t ↔ CleanUpOnThrow g tasks t := by
  induction tasks generalizing t with
  | nil => exact ⟨fun _ => trivial, fun _ l _ _ heq => absurd heq (by simp)⟩
  | cons self tasks ih =>
    rw [tasksIsolated_cons, runsIsolated_iff ht, run_mdc_eq_clear_iff]
    refine and_congr_right fun hself => ?_
    rw [run_eq_of_cleared (run_mdc_eq_clear_iff.mpr hself)]
    exact ih _ rfl

/-- A task that returns. -/
def quiet : Task where
  run t := (.returned, t)
  drawn_le _ := le_rfl

/-- A task that throws at once. -/
def failing : Task where
  run t := (.threw, t)
  drawn_le _ := le_rfl

theorem tasksIsolated_iff_quiet :
    TasksIsolated { hostname := "ping", nextInt := fun k => k } [⟨quiet, none⟩, ⟨quiet, some "job"⟩]
      ⟨.clear, 0⟩ ↔
    CleanUpOnThrow { hostname := "ping", nextInt := fun k => k } [⟨quiet, none⟩, ⟨quiet, some "job"⟩]
      ⟨.clear, 0⟩ :=
  tasksIsolated_iff _ _ _ rfl

/-- The run after one that throws starts under the id of that one. -/
theorem not_tasksIsolated_failing :
    ¬ TasksIsolated { hostname := "ping", nextInt := fun k => k } [⟨failing, none⟩, ⟨quiet, some "job"⟩]
      ⟨.clear, 0⟩ := by
  intro h
  have hid := (h [⟨failing, none⟩] ⟨quiet, some "job"⟩ [] rfl).constructed "job" rfl (by decide)
  revert hid
  decide

end PingPong.Trace
