import Mathlib.Data.List.Infix

/-!
# Machines driven by labels

A machine whose only nondeterminism is the choice of the next label: `step s a` is the state after
`a`, or `none` when `a` is not enabled in `s`. An interleaving of several parties is a run whose
labels say which party moves and what its environment answers, so a theorem about every run is a
theorem about every interleaving.

The invariant rules at the end package the induction over a run once: `run_invariant` for a property
of states, `run_history` for a property that relates the state to the labels that led to it.
-/

/-- A machine with states `σ` and labels `α`. -/
structure StepMachine (σ α : Type*) where
  /-- The state after a label; `none` when the label is not enabled. -/
  step : σ → α → Option σ

namespace StepMachine

variable {σ α τ β : Type*} (M : StepMachine σ α)

/-- The state after a list of labels. -/
def run : σ → List α → Option σ
  | s, [] => some s
  | s, a :: as => (M.step s a).bind fun s' => run s' as

/-- The machine `M` that only takes the steps allowed by `ok`. -/
def restrict (ok : σ → α → Bool) : StepMachine σ α where
  step s a := if ok s a then M.step s a else none

/-! ## Runs -/

@[simp] theorem run_nil (s : σ) : M.run s [] = some s := rfl

@[simp] theorem run_cons (s : σ) (a : α) (as : List α) :
    M.run s (a :: as) = (M.step s a).bind fun s' => M.run s' as := rfl

variable {M}

theorem run_cons_eq_some {s s' : σ} {a : α} {as : List α} :
    M.run s (a :: as) = some s' ↔ ∃ u, M.step s a = some u ∧ M.run u as = some s' := by
  rw [run_cons, Option.bind_eq_some_iff]

theorem run_append (s : σ) (l l' : List α) :
    M.run s (l ++ l') = (M.run s l).bind fun u => M.run u l' := by
  induction l generalizing s with
  | nil => rfl
  | cons a l ih =>
    rw [List.cons_append, run_cons, run_cons, Option.bind_assoc]
    exact congrArg _ (funext fun u => ih u)

theorem run_append_eq_some {s s' : σ} {l l' : List α} :
    M.run s (l ++ l') = some s' ↔ ∃ u, M.run s l = some u ∧ M.run u l' = some s' := by
  rw [run_append, Option.bind_eq_some_iff]

theorem run_concat_eq_some {s s' : σ} {l : List α} {a : α} :
    M.run s (l ++ [a]) = some s' ↔ ∃ u, M.run s l = some u ∧ M.step u a = some s' := by
  rw [run_append_eq_some]
  simp only [run_cons, run_nil, Option.bind_fun_some]

/-! ## Restricted machines -/

theorem restrict_step_eq_some {ok : σ → α → Bool} {s s' : σ} {a : α} :
    (M.restrict ok).step s a = some s' ↔ ok s a = true ∧ M.step s a = some s' := by
  simp only [restrict]
  split <;> simp_all

/-! ## Invariants over runs -/

/-- A property of states that every step preserves holds after every run. -/
theorem run_invariant {I : σ → Prop} (hstep : ∀ s a s', I s → M.step s a = some s' → I s')
    {s s' : σ} {l : List α} (h0 : I s) (h : M.run s l = some s') : I s' := by
  induction l generalizing s with
  | nil => cases h; exact h0
  | cons a l ih =>
    obtain ⟨u, hu, hl⟩ := run_cons_eq_some.mp h
    exact ih (hstep s a u h0 hu) hl

/-- A property of the labels seen so far and the state they led to, preserved by appending a step,
holds after every run. -/
theorem run_history {I : List α → σ → Prop} {s₀ s : σ} {l : List α} (h0 : I [] s₀)
    (hstep : ∀ l s a s', M.run s₀ l = some s → I l s → M.step s a = some s' → I (l ++ [a]) s')
    (h : M.run s₀ l = some s) : I l s := by
  induction l using List.reverseRecOn generalizing s with
  | nil => cases h; exact h0
  | append_singleton l a ih =>
    obtain ⟨u, hu, ha⟩ := run_concat_eq_some.mp h
    exact hstep l u a s hu (ih hu) ha

/-- `s'` is the state after some run from `s`. -/
def Reaches (M : StepMachine σ α) (s s' : σ) : Prop := ∃ l, M.run s l = some s'

theorem Reaches.refl (s : σ) : M.Reaches s s := ⟨[], rfl⟩

theorem Reaches.tail {s u s' : σ} {a : α} (h : M.Reaches s u) (hs : M.step u a = some s') : M.Reaches s s' := by
  obtain ⟨l, hl⟩ := h
  exact ⟨l ++ [a], run_concat_eq_some.mpr ⟨u, hl, hs⟩⟩

/-- A property that every step preserves in the states of the runs from `s₀` holds after each of them. -/
theorem run_invariant_of_reaches {I : σ → Prop} {s₀ s : σ} {l : List α} (h0 : I s₀)
    (hstep : ∀ s a s', M.Reaches s₀ s → I s → M.step s a = some s' → I s') (h : M.run s₀ l = some s) : I s :=
  run_history (I := fun _ s => I s) h0 (fun l s a s' hrun hI hs => hstep s a s' ⟨l, hrun⟩ hI hs) h

/-- Forward simulation: if every step of `M` from related states is matched by a run of `N` over the
labels `g` assigns to it, every run of `M` is matched by a run of `N`. -/
theorem run_simulation {N : StepMachine τ β} {R : σ → τ → Prop} {g : σ → α → List β}
    (hstep : ∀ s t a s', R s t → M.step s a = some s' → ∃ t', N.run t (g s a) = some t' ∧ R s' t')
    {s s' : σ} {t : τ} {l : List α} (h0 : R s t) (h : M.run s l = some s') :
    ∃ m t', N.run t m = some t' ∧ R s' t' := by
  induction l generalizing s t with
  | nil => cases h; exact ⟨[], t, rfl, h0⟩
  | cons a l ih =>
    obtain ⟨u, hu, hl⟩ := run_cons_eq_some.mp h
    obtain ⟨v, hv, hR⟩ := hstep s t a u h0 hu
    obtain ⟨m, t', hm, hR'⟩ := ih hR hl
    exact ⟨g s a ++ m, t', run_append_eq_some.mpr ⟨v, hv, hm⟩, hR'⟩

end StepMachine
