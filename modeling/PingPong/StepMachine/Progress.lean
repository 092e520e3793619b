import PingPong.StepMachine.Run
import Mathlib.Data.Nat.Notation

/-!
# Progress

A variant for one party of a machine: it decreases in each of the party's own steps, and the steps of the
others do not change it. So the party takes a bounded number of steps, whatever the others do in between. A
measure for all parties decreases in every step, and bounds the length of the runs.
-/

namespace StepMachine

variable {σ α : Type*} {M : StepMachine σ α}

/-- Along a run whose labels are all `ok`, the own steps and the variant that is left do not exceed the
variant at the start. -/
theorem countP_add_variant_le {mine : α → Bool} {ok : α → Prop} {variant : σ → ℕ}
    (hmine : ∀ s a s', ok a → mine a = true → M.step s a = some s' → variant s' < variant s)
    (hother : ∀ s a s', mine a = false → M.step s a = some s' → variant s' = variant s)
    {s s' : σ} {l : List α} (hok : ∀ a ∈ l, ok a) (h : M.run s l = some s') :
    l.countP mine + variant s' ≤ variant s := by
  induction l generalizing s with
  | nil =>
    cases h
    exact (Nat.zero_add _).le
  | cons a l ih =>
    obtain ⟨u, hu, hl⟩ := run_cons_eq_some.mp h
    have hrest := ih (fun b hb => hok b (List.mem_cons_of_mem _ hb)) hl
    cases ha : mine a with
    | true =>
      have hless := hmine s a u (hok a List.mem_cons_self) ha hu
      rw [List.countP_cons_of_pos ha]
      omega
    | false =>
      have hsame := hother s a u ha hu
      rw [List.countP_cons_of_neg (by rw [ha]; exact Bool.false_ne_true)]
      omega

/-- Along a run whose labels are all `ok`, the measure pays for every step. -/
theorem length_add_measure_le {I : σ → Prop} {ok : α → Prop} {measure : σ → ℕ}
    (hstep : ∀ s a s', I s → ok a → M.step s a = some s' → I s' ∧ measure s' < measure s) {s s' : σ}
    {l : List α} (hI : I s) (hok : ∀ a ∈ l, ok a) (h : M.run s l = some s') :
    I s' ∧ l.length + measure s' ≤ measure s := by
  induction l generalizing s with
  | nil =>
    cases h
    exact ⟨hI, (Nat.zero_add _).le⟩
  | cons a l ih =>
    obtain ⟨u, hu, hl⟩ := run_cons_eq_some.mp h
    obtain ⟨hIu, hfirst⟩ := hstep s a u hI (hok a List.mem_cons_self) hu
    obtain ⟨hIs', hrest⟩ := ih hIu (fun b hb => hok b (List.mem_cons_of_mem _ hb)) hl
    refine ⟨hIs', ?_⟩
    rw [List.length_cons]
    omega

/-- As long as a step is enabled until the end is reached, some run reaches it. -/
theorem exists_run_of_progress {I final : σ → Prop} {ok : α → Prop} {measure : σ → ℕ}
    (hstep : ∀ s a s', I s → ok a → M.step s a = some s' → I s' ∧ measure s' < measure s)
    (hprogress : ∀ s, I s → final s ∨ ∃ a s', ok a ∧ M.step s a = some s') {s : σ} (hI : I s) :
    ∃ l s', M.run s l = some s' ∧ (∀ a ∈ l, ok a) ∧ I s' ∧ final s' := by
  induction hn : measure s using Nat.strong_induction_on generalizing s with
  | _ n ih =>
    rcases hprogress s hI with hfinal | ⟨a, u, ha, hu⟩
    · exact ⟨[], s, rfl, nofun, hI, hfinal⟩
    · obtain ⟨hIu, hless⟩ := hstep s a u hI ha hu
      obtain ⟨l, s', hl, hok, hend⟩ := ih _ (hn ▸ hless) hIu rfl
      refine ⟨a :: l, s', run_cons_eq_some.mpr ⟨u, hu, hl⟩, ?_, hend⟩
      intro b hb
      rcases List.mem_cons.mp hb with rfl | hb
      · exact ha
      · exact hok b hb

end StepMachine
