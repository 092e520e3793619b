import Mathlib.Data.List.DropRight
import Mathlib.Data.Nat.Notation
import Mathlib.Tactic.SplitIfs

/-!
# Runs of a symbol at the ends of a list

`leading` and `trailing` count the occurrences of a symbol at the two ends of a list, and `lstrip`,
`rstrip` and `strip` take them away.
-/

namespace TextTools

variable {α : Type*} [DecidableEq α]

def leading (a : α) (xs : List α) : ℕ := (xs.takeWhile (· = a)).length

def trailing (a : α) (xs : List α) : ℕ := (xs.rtakeWhile (· = a)).length

def lstrip (a : α) (xs : List α) : List α := xs.dropWhile (· = a)

def rstrip (a : α) (xs : List α) : List α := xs.rdropWhile (· = a)

def strip (a : α) (xs : List α) : List α := rstrip a (lstrip a xs)

variable {a : α} {xs ys : List α} {n : ℕ}

/-! ## Taking a list apart -/

theorem replicate_leading_append (a : α) (xs : List α) :
    List.replicate (leading a xs) a ++ lstrip a xs = xs := by
  have hrun : xs.takeWhile (· = a) = List.replicate (leading a xs) a := by
    refine List.eq_replicate_iff.mpr ⟨rfl, fun b hb => ?_⟩
    simpa using List.mem_takeWhile_imp hb
  rw [← hrun]
  exact List.takeWhile_append_dropWhile

theorem rstrip_append_replicate (a : α) (xs : List α) :
    rstrip a xs ++ List.replicate (trailing a xs) a = xs := by
  have hrun : xs.rtakeWhile (· = a) = List.replicate (trailing a xs) a := by
    refine List.eq_replicate_iff.mpr ⟨rfl, fun b hb => ?_⟩
    simpa using List.mem_rtakeWhile_imp hb
  rw [← hrun]
  exact List.rdropWhile_append_rtakeWhile

/-- What is left does not begin with the symbol. -/
theorem head?_lstrip (a : α) (xs : List α) : (lstrip a xs).head? ≠ some a := by
  have hhead := List.head?_dropWhile_not (· = a) xs
  intro h
  rw [lstrip] at h
  rw [h] at hhead
  simp at hhead

theorem getLast?_rstrip (a : α) (xs : List α) : (rstrip a xs).getLast? ≠ some a := by
  rw [rstrip, List.rdropWhile, List.getLast?_reverse]
  exact head?_lstrip a xs.reverse

theorem leading_eq_zero_iff : leading a xs = 0 ↔ xs.head? ≠ some a := by
  cases xs with
  | nil => simp [leading]
  | cons x xs => by_cases hx : x = a <;> simp [leading, hx]

theorem trailing_eq_zero_iff : trailing a xs = 0 ↔ xs.getLast? ≠ some a := by
  induction xs using List.reverseRecOn with
  | nil => simp [trailing]
  | append_singleton xs x _ => by_cases hx : x = a <;> simp [trailing, hx]

/-! ## Putting a list together -/

theorem leading_replicate_append (h : xs.head? ≠ some a) :
    leading a (List.replicate n a ++ xs) = n ∧ lstrip a (List.replicate n a ++ xs) = xs := by
  have htake : xs.takeWhile (· = a) = [] := by
    cases xs with
    | nil => rfl
    | cons x xs => simpa using h
  have hdrop : xs.dropWhile (· = a) = xs := by
    cases xs with
    | nil => rfl
    | cons x xs => simpa using h
  have hrun : ∀ b ∈ List.replicate n a, decide (b = a) = true := by
    intro b hb
    simpa using List.eq_of_mem_replicate hb
  constructor
  · rw [leading, List.takeWhile_append_of_pos hrun, htake, List.append_nil, List.length_replicate]
  · rw [lstrip, List.dropWhile_append_of_pos hrun, hdrop]

theorem trailing_append_replicate (h : xs.getLast? ≠ some a) :
    trailing a (xs ++ List.replicate n a) = n ∧ rstrip a (xs ++ List.replicate n a) = xs := by
  have hreverse : (xs ++ List.replicate n a).reverse = List.replicate n a ++ xs.reverse := by simp
  have hhead : xs.reverse.head? ≠ some a := by rwa [List.head?_reverse]
  obtain ⟨hcount, hrest⟩ := leading_replicate_append (n := n) hhead
  constructor
  · rw [trailing, List.rtakeWhile, hreverse, List.length_reverse]
    exact hcount
  · rw [rstrip, List.rdropWhile, hreverse]
    exact (congrArg List.reverse hrest).trans xs.reverse_reverse

theorem leading_replicate (n : ℕ) : leading a (List.replicate n a) = n := by
  have h := (@leading_replicate_append _ _ a [] n (by simp)).1
  rwa [List.append_nil] at h

theorem trailing_replicate (n : ℕ) :
    trailing a (List.replicate n a) = n ∧ rstrip a (List.replicate n a) = [] := by
  have h := @trailing_append_replicate _ _ a [] n (by simp)
  rwa [List.nil_append] at h

/-- What is left between the ends does not begin with the symbol. -/
theorem head?_strip_append (h : strip a xs ≠ []) (ys : List α) : (strip a xs ++ ys).head? ≠ some a := by
  have hhead := head?_lstrip a xs
  rw [← rstrip_append_replicate a (lstrip a xs)] at hhead
  rw [List.head?_append_of_ne_nil _ h]
  rwa [show rstrip a (lstrip a xs) = strip a xs from rfl, List.head?_append_of_ne_nil _ h] at hhead

/-- A list is what is between its ends, unless it has the symbol only. -/
theorem replicate_strip_replicate (h : strip a xs ≠ []) :
    List.replicate (leading a xs) a ++ strip a xs ++ List.replicate (trailing a xs) a = xs := by
  have hsplit : (List.replicate (leading a xs) a ++ strip a xs) ++
      List.replicate (trailing a (lstrip a xs)) a = xs := by
    rw [List.append_assoc, strip, rstrip_append_replicate, replicate_leading_append]
  have hlast : (List.replicate (leading a xs) a ++ strip a xs).getLast? ≠ some a := by
    rw [List.getLast?_append_of_ne_nil _ h]
    exact getLast?_rstrip a _
  have hcount := (trailing_append_replicate (n := trailing a (lstrip a xs)) hlast).1
  rw [hsplit] at hcount
  rw [hcount, hsplit]

theorem replicate_of_strip_eq_nil (h : strip a xs = []) :
    xs = List.replicate (trailing a xs) a ∧ leading a xs = trailing a xs := by
  have hrest : lstrip a xs = List.replicate (trailing a (lstrip a xs)) a := by
    have hsplit := rstrip_append_replicate a (lstrip a xs)
    rw [show rstrip a (lstrip a xs) = [] from h] at hsplit
    exact hsplit.symm
  have hall : xs = List.replicate (leading a xs + trailing a (lstrip a xs)) a := by
    rw [List.replicate_add, ← hrest, replicate_leading_append]
  obtain ⟨n, rfl⟩ : ∃ n, xs = List.replicate n a := ⟨_, hall⟩
  rw [leading_replicate, (trailing_replicate n).1]
  exact ⟨rfl, rfl⟩

/-- One symbol at the end is taken away. -/
theorem dropLast_eq (a : α) (xs : List α) :
    (if trailing a xs ≠ 0 then xs.dropLast else xs) =
      rstrip a xs ++ List.replicate (trailing a xs - 1) a := by
  have hsplit := rstrip_append_replicate a xs
  split_ifs with h
  · obtain ⟨n, hn⟩ := Nat.exists_eq_succ_of_ne_zero h
    have hrun : List.replicate (trailing a xs) a = List.replicate n a ++ [a] := by
      rw [hn, List.replicate_succ']
    rw [hrun, ← List.append_assoc] at hsplit
    rw [hn, Nat.succ_sub_one]
    conv_lhs => rw [← hsplit]
    exact List.dropLast_concat
  · rw [not_not] at h
    rw [h] at hsplit ⊢
    exact hsplit.symm

/-! ## Joining -/

/-- Two texts joined by a separator, unless one of them has it already. -/
def join (a : α) (xs ys : List α) : List α :=
  if trailing a xs = 0 ∧ leading a ys = 0 then xs ++ a :: ys else xs ++ ys

/-- At least one separator is between the texts, and all that the two have. -/
theorem join_eq (a : α) (xs ys : List α) :
    join a xs ys = rstrip a xs ++ List.replicate (max 1 (trailing a xs + leading a ys)) a ++ lstrip a ys := by
  have hxs := rstrip_append_replicate a xs
  have hys := replicate_leading_append a ys
  unfold join
  split_ifs with h
  · rw [h.1] at hxs
    rw [h.2] at hys
    simp only [List.replicate_zero, List.append_nil, List.nil_append] at hxs hys
    rw [h.1, h.2, hxs, hys]
    simp
  · have hmax : max 1 (trailing a xs + leading a ys) = trailing a xs + leading a ys := by omega
    rw [hmax, List.replicate_add, ← List.append_assoc, hxs, List.append_assoc, hys]

end TextTools
