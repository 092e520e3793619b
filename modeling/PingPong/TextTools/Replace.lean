import Mathlib.Data.List.DropRight
import Mathlib.Data.Nat.Notation

/-!
# Replacing, splitting and trimming lists

Texts are lists of symbols. `replaceAll` replaces every occurrence of a pattern, from left to right
and without looking at the replaced text again; the lemmas evaluate it on texts that are built from
pieces without the pattern. The rest is about how short the pieces of a split and a trimmed list are.
-/

namespace TextTools

variable {α : Type*} {p a : α} {ps value xs ys : List α}

/-! ## Cutting -/

/-- Trimming stops at a symbol that is kept. -/
theorem rdropWhile_append {q : α → Bool} (h : q a = false) :
    ((xs ++ [a]) ++ ys).rdropWhile q = (xs ++ [a]) ++ ys.rdropWhile q := by
  induction ys using List.reverseRecOn with
  | nil =>
    rw [List.append_nil, List.rdropWhile_nil, List.append_nil]
    exact List.rdropWhile_concat_neg _ _ _ (by simp [h])
  | append_singleton ys y ih =>
    rw [← List.append_assoc, List.rdropWhile_concat, List.rdropWhile_concat]
    split
    · exact ih
    · rw [List.append_assoc]

variable [DecidableEq α]

/-! ## Replacing -/

/-- `replaceAll` after the next `skip` symbols, which belong to an occurrence already replaced. -/
def replaceFrom (pattern value : List α) : ℕ → List α → List α
  | _, [] => []
  | skip + 1, _ :: xs => replaceFrom pattern value skip xs
  | 0, x :: xs =>
    if pattern.isPrefixOf (x :: xs) then
      value ++ replaceFrom pattern value (pattern.length - 1) xs
    else x :: replaceFrom pattern value 0 xs

/-- Replaces every occurrence of `pattern` by `value`. -/
def replaceAll (pattern value xs : List α) : List α :=
  if pattern = [] then xs else replaceFrom pattern value 0 xs

theorem forall_ne_of_notMem (h : a ∉ xs) : ∀ b ∈ xs, decide (b ≠ a) = true := by
  intro b hb
  have hne : b ≠ a := by
    rintro rfl
    exact h hb
  simpa using hne

theorem replaceFrom_length (pattern : List α) (xs ys : List α) :
    replaceFrom pattern value xs.length (xs ++ ys) = replaceFrom pattern value 0 ys := by
  induction xs with
  | nil => rfl
  | cons x xs ih => exact ih

/-- A piece of text in which the pattern cannot begin stays as it is. -/
theorem replaceAll_append (h : p ∉ xs) :
    replaceAll (p :: ps) value (xs ++ ys) = xs ++ replaceAll (p :: ps) value ys := by
  have hfrom : replaceFrom (p :: ps) value 0 (xs ++ ys) =
      xs ++ replaceFrom (p :: ps) value 0 ys := by
    induction xs with
    | nil => rfl
    | cons x xs ih =>
      obtain ⟨hx, hxs⟩ := not_or.mp (mt List.mem_cons.mpr h)
      have hno : (p :: ps).isPrefixOf (x :: xs ++ ys) = false := by
        simp [List.isPrefixOf, hx]
      show (if (p :: ps).isPrefixOf (x :: xs ++ ys) then _ else _) = _
      rw [hno, if_neg Bool.false_ne_true]
      exact congrArg (x :: ·) (ih hxs)
  simpa [replaceAll] using hfrom

/-- An occurrence of the pattern is replaced. -/
theorem replaceAll_pattern :
    replaceAll (p :: ps) value ((p :: ps) ++ ys) = value ++ replaceAll (p :: ps) value ys := by
  have hyes : (p :: ps).isPrefixOf (p :: ps ++ ys) = true :=
    List.isPrefixOf_iff_prefix.mpr (List.prefix_append _ _)
  have hfrom : replaceFrom (p :: ps) value 0 (p :: ps ++ ys) =
      value ++ replaceFrom (p :: ps) value 0 ys := by
    show (if (p :: ps).isPrefixOf (p :: ps ++ ys) then _ else _) = _
    rw [hyes, if_pos rfl]
    exact congrArg (value ++ ·) (replaceFrom_length (p :: ps) ps ys)
  simpa [replaceAll] using hfrom

theorem replaceAll_nil : replaceAll (p :: ps) value [] = [] := by
  simp [replaceAll, replaceFrom]

/-! ## Splitting -/

/-- A piece of a split is no longer than the list, and shorter when there is a separator. -/
theorem length_of_mem_splitOn {piece : List α} (h : piece ∈ xs.splitOn a) :
    piece.length ≤ xs.length ∧ (a ∈ xs → piece.length < xs.length) := by
  induction hn : xs.length using Nat.strong_induction_on generalizing xs with
  | _ n ih =>
    by_cases ha : a ∈ xs
    · obtain ⟨before, after, rfl, hbefore⟩ := List.eq_append_cons_of_mem ha
      rw [List.splitOn_append_cons_self_of_not_mem hbefore] at h
      have hlen : (before ++ a :: after).length = before.length + after.length + 1 := by simp; omega
      rcases List.mem_cons.mp h with rfl | h
      · exact ⟨by omega, fun _ => by omega⟩
      · have hrest := (ih after.length (by omega) h rfl).1
        exact ⟨by omega, fun _ => by omega⟩
    · rw [List.splitOn_eq_singleton ha] at h
      rw [List.mem_singleton.mp h]
      exact ⟨hn.le, fun hmem => absurd hmem ha⟩

end TextTools
