import PingPong.TextTools.Replace
import Mathlib.Data.List.Infix
import Mathlib.Data.List.Count
import Mathlib.Tactic.SplitIfs

/-!
# Templates with placeholders

A placeholder is a name between two brackets, and a template is taken apart into its placeholders and the
symbols between them (`pieces`). Replacing one placeholder after the other by texts is the same as
replacing all of them at once, if no text brings a placeholder with it (`rounds_eq_iff`): two placeholders
never overlap, so what is around one of the template stays as it is while this one is replaced.
-/

namespace TextTools

variable {α : Type*}

/-! ## Placeholders -/

/-- An opening and a closing bracket. -/
structure Brackets (α : Type*) where
  opening : α
  closing : α
  ne : opening ≠ closing

namespace Brackets

variable (br : Brackets α)

def placeholder (name : List α) : List α := br.opening :: (name ++ [br.closing])

/-- A name has no bracket in it. -/
def Plain (name : List α) : Prop := br.opening ∉ name ∧ br.closing ∉ name

end Brackets

variable {br : Brackets α} {name other xs ys : List α} {x : α}

theorem mem_concat_of_ne {handled : List (List α)} (h : name ≠ other) :
    other ∈ handled ++ [name] ↔ other ∈ handled := by
  have hne : ¬ other = name := fun heq => h heq.symm
  simp [hne]

/-- No opening bracket is inside of a placeholder. -/
theorem opening_notMem (hname : br.Plain name) : br.opening ∉ name ++ [br.closing] := by
  intro h
  rcases List.mem_append.mp h with h | h
  · exact hname.1 h
  · exact br.ne (List.mem_singleton.mp h)

/-- A placeholder that begins before an opening bracket ends before it. -/
theorem prefix_of_prefix_append (hname : br.Plain name) (hne : xs ≠ [])
    (h : br.placeholder name <+: xs ++ br.opening :: ys) : br.placeholder name <+: xs := by
  rcases List.prefix_or_prefix_of_prefix h (List.prefix_append xs _) with hp | ⟨rest, hrest⟩
  · exact hp
  · cases rest with
    | nil =>
      rw [List.append_nil] at hrest
      rw [← hrest]
    | cons y rest =>
      exfalso
      obtain ⟨tail, htail⟩ := h
      rw [← hrest, List.append_assoc] at htail
      obtain rfl := (List.cons.inj (List.append_cancel_left htail)).1
      cases xs with
      | nil => exact hne rfl
      | cons x xs =>
        unfold Brackets.placeholder at hrest
        have hinner := (List.cons.inj hrest).2
        exact opening_notMem hname (by rw [← hinner]; simp)

/-- Only the same placeholder begins where a placeholder begins. -/
theorem eq_of_prefix_placeholder [DecidableEq α] (hname : br.Plain name) (hother : br.Plain other)
    (h : br.placeholder name <+: br.placeholder other ++ ys) : name = other := by
  have hcut : ∀ {n : List α}, br.Plain n → ∀ rest : List α,
      (n ++ br.closing :: rest).takeWhile (· ≠ br.closing) = n := by
    intro n hn rest
    rw [List.takeWhile_append_of_pos (forall_ne_of_notMem hn.2)]
    simp
  obtain ⟨rest, hrest⟩ := h
  unfold Brackets.placeholder at hrest
  have hinner : name ++ br.closing :: rest = other ++ br.closing :: ys := by
    simpa using hrest
  rw [← hcut hname rest, hinner, hcut hother ys]

/-! ## Occurrences -/

variable [DecidableEq α] {pattern value : List α}

/-- The number of places at which the pattern begins. -/
def occurrences (pattern : List α) : List α → ℕ
  | [] => 0
  | x :: xs => (if pattern.isPrefixOf (x :: xs) then 1 else 0) + occurrences pattern xs

theorem occurrences_cons_next (h : ¬ pattern <+: x :: xs) :
    occurrences pattern (x :: xs) = occurrences pattern xs := by
  have hno : ¬ pattern.isPrefixOf (x :: xs) = true := fun hp => h (List.isPrefixOf_iff_prefix.mp hp)
  rw [occurrences, if_neg hno, Nat.zero_add]

theorem occurrences_cons_here (h : pattern <+: x :: xs) :
    occurrences pattern (x :: xs) = 1 + occurrences pattern xs := by
  rw [occurrences, if_pos (List.isPrefixOf_iff_prefix.mpr h)]

/-- Where two texts meet, occurrences may come up but none gets lost. -/
theorem occurrences_add_le (pattern xs ys : List α) :
    occurrences pattern xs + occurrences pattern ys ≤ occurrences pattern (xs ++ ys) := by
  induction xs with
  | nil => simp [occurrences]
  | cons x xs ih =>
    rw [List.cons_append]
    by_cases h : pattern <+: x :: xs
    · have hlonger : pattern <+: x :: (xs ++ ys) := h.trans (List.prefix_append (x :: xs) ys)
      rw [occurrences_cons_here h, occurrences_cons_here hlonger]
      omega
    · rw [occurrences_cons_next h]
      have hcons : occurrences pattern (xs ++ ys) ≤ occurrences pattern (x :: (xs ++ ys)) := by
        rw [occurrences]
        omega
      omega

/-- No placeholder begins in a text without the opening bracket. -/
theorem occurrences_append_of_notMem (h : br.opening ∉ xs) :
    occurrences (br.placeholder name) (xs ++ ys) = occurrences (br.placeholder name) ys := by
  induction xs with
  | nil => rfl
  | cons x xs ih =>
    obtain ⟨hx, hxs⟩ := not_or.mp (mt List.mem_cons.mpr h)
    have hno : ¬ br.placeholder name <+: x :: (xs ++ ys) := by
      rintro ⟨rest, hrest⟩
      exact hx (List.cons.inj hrest).1
    rw [List.cons_append, occurrences_cons_next hno, ih hxs]

/-- No placeholder reaches over an opening bracket. -/
theorem occurrences_append_opening (hname : br.Plain name) (xs ys : List α) :
    occurrences (br.placeholder name) (xs ++ br.opening :: ys) =
      occurrences (br.placeholder name) xs + occurrences (br.placeholder name) (br.opening :: ys) := by
  induction xs with
  | nil => simp [occurrences]
  | cons x xs ih =>
    rw [List.cons_append]
    by_cases h : br.placeholder name <+: x :: xs
    · have hlonger : br.placeholder name <+: x :: (xs ++ br.opening :: ys) :=
        h.trans (List.prefix_append (x :: xs) _)
      rw [occurrences_cons_here h, occurrences_cons_here hlonger, ih]
      omega
    · have hno : ¬ br.placeholder name <+: x :: (xs ++ br.opening :: ys) := fun hlonger =>
        h (prefix_of_prefix_append hname (List.cons_ne_nil x xs) hlonger)
      rw [occurrences_cons_next h, occurrences_cons_next hno, ih]

theorem occurrences_placeholder_append (hname : br.Plain name) (hother : br.Plain other) (ys : List α) :
    occurrences (br.placeholder name) (br.placeholder other ++ ys) =
      (if name = other then 1 else 0) + occurrences (br.placeholder name) ys := by
  have hrest : occurrences (br.placeholder name) (other ++ [br.closing] ++ ys) =
      occurrences (br.placeholder name) ys :=
    occurrences_append_of_notMem (opening_notMem hother)
  rw [show br.placeholder other ++ ys = br.opening :: (other ++ [br.closing] ++ ys) from rfl]
  split_ifs with heq
  · have hhere : br.placeholder name <+: br.opening :: (other ++ [br.closing] ++ ys) := by
      rw [heq]
      exact List.prefix_append (br.placeholder other) ys
    rw [occurrences_cons_here hhere, hrest]
  · have hno : ¬ br.placeholder name <+: br.opening :: (other ++ [br.closing] ++ ys) := fun h =>
      heq (eq_of_prefix_placeholder hname hother h)
    rw [occurrences_cons_next hno, hrest, Nat.zero_add]

/-- The placeholders of a text with a placeholder are this one and those on its two sides. -/
theorem occurrences_append_placeholder (hname : br.Plain name) (hother : br.Plain other)
    (xs ys : List α) :
    occurrences (br.placeholder name) (xs ++ (br.placeholder other ++ ys)) =
      occurrences (br.placeholder name) xs + (if name = other then 1 else 0) +
        occurrences (br.placeholder name) ys := by
  have hsplit := occurrences_append_opening hname xs (other ++ [br.closing] ++ ys)
  have hhere := occurrences_placeholder_append hname hother ys
  rw [show br.placeholder other ++ ys = br.opening :: (other ++ [br.closing] ++ ys) from rfl] at hhere ⊢
  rw [hsplit, hhere]
  omega

/-! ## Replacing a placeholder -/

theorem replaceAll_cons (h : ¬ br.placeholder name <+: x :: xs) :
    replaceAll (br.placeholder name) value (x :: xs) =
      x :: replaceAll (br.placeholder name) value xs := by
  have hno : ¬ (br.placeholder name).isPrefixOf (x :: xs) = true := fun hp =>
    h (List.isPrefixOf_iff_prefix.mp hp)
  have hne : br.placeholder name ≠ [] := List.cons_ne_nil _ _
  rw [replaceAll, replaceAll, if_neg hne, if_neg hne, replaceFrom, if_neg hno]

theorem replaceAll_placeholder_nil : replaceAll (br.placeholder name) value [] = [] := replaceAll_nil

/-- Induction along a text, from one of some placeholders to the next. -/
theorem placeholders_induction {motive : List α → Prop} (br : Brackets α) (names : List (List α))
    (nil : motive []) (here : ∀ name ∈ names, ∀ xs, motive xs → motive (br.placeholder name ++ xs))
    (next : ∀ x xs, (∀ n ∈ names, ¬ br.placeholder n <+: x :: xs) → motive xs → motive (x :: xs))
    (xs : List α) : motive xs := by
  induction hn : xs.length using Nat.strong_induction_on generalizing xs with
  | _ n ih =>
    cases xs with
    | nil => exact nil
    | cons x xs =>
      by_cases h : ∃ name ∈ names, br.placeholder name <+: x :: xs
      · obtain ⟨name, hname, rest, hrest⟩ := h
        rw [← hrest]
        have hlen := congrArg List.length hrest
        have hpos : 0 < (br.placeholder name).length := Nat.succ_pos _
        rw [List.length_append] at hlen
        exact here name hname rest (ih rest.length (by omega) rest rfl)
      · refine next x xs (fun name hname hp => h ⟨name, hname, hp⟩) ?_
        exact ih xs.length (by rw [← hn]; exact Nat.lt_succ_self _) xs rfl

/-- Induction along a text, from one occurrence of a placeholder to the next. -/
theorem placeholder_induction {motive : List α → Prop} (br : Brackets α) (name : List α)
    (nil : motive []) (here : ∀ xs, motive xs → motive (br.placeholder name ++ xs))
    (next : ∀ x xs, ¬ br.placeholder name <+: x :: xs → motive xs → motive (x :: xs))
    (xs : List α) : motive xs := by
  induction xs using placeholders_induction br [name] with
  | nil => exact nil
  | here n hn xs ih =>
    rw [List.mem_singleton.mp hn]
    exact here xs ih
  | next x xs hno ih => exact next x xs (hno name List.mem_cons_self) ih

theorem replaceAll_here (xs : List α) :
    replaceAll (br.placeholder name) value (br.placeholder name ++ xs) =
      value ++ replaceAll (br.placeholder name) value xs :=
  replaceAll_pattern

/-- A replacement stops at every opening bracket. -/
theorem replaceAll_append_opening (hname : br.Plain name) (value xs ys : List α) :
    replaceAll (br.placeholder name) value (xs ++ br.opening :: ys) =
      replaceAll (br.placeholder name) value xs ++
        replaceAll (br.placeholder name) value (br.opening :: ys) := by
  induction xs using placeholder_induction br name with
  | nil => rw [replaceAll_placeholder_nil]; rfl
  | here xs ih =>
    rw [List.append_assoc, replaceAll_here, replaceAll_here, ih, List.append_assoc]
  | next x xs hno ih =>
    have hno' : ¬ br.placeholder name <+: x :: (xs ++ br.opening :: ys) := fun h =>
      hno (prefix_of_prefix_append hname (List.cons_ne_nil x xs) h)
    rw [List.cons_append, replaceAll_cons hno', replaceAll_cons hno, ih, List.cons_append]

theorem replaceAll_append_placeholder (hname : br.Plain name) (value xs ys : List α) :
    replaceAll (br.placeholder name) value (xs ++ (br.placeholder name ++ ys)) =
      replaceAll (br.placeholder name) value xs ++
        (value ++ replaceAll (br.placeholder name) value ys) := by
  have hsplit := replaceAll_append_opening hname value xs (name ++ [br.closing] ++ ys)
  rw [show br.placeholder name ++ ys = br.opening :: (name ++ [br.closing] ++ ys) from rfl, hsplit]
  congr 1
  exact replaceAll_here ys

theorem replaceAll_of_occurrences_eq_zero (h : occurrences (br.placeholder name) xs = 0) :
    replaceAll (br.placeholder name) value xs = xs := by
  induction xs with
  | nil => exact replaceAll_nil
  | cons x xs ih =>
    have hno : ¬ br.placeholder name <+: x :: xs := by
      intro hp
      rw [occurrences_cons_here hp] at h
      omega
    rw [occurrences_cons_next hno] at h
    rw [replaceAll_cons hno, ih h]

/-- Every occurrence changes the length by as much as its value is longer or shorter. -/
theorem length_replaceAll (hname : br.Plain name) (value xs : List α) :
    (replaceAll (br.placeholder name) value xs).length +
        occurrences (br.placeholder name) xs * (br.placeholder name).length =
      xs.length + occurrences (br.placeholder name) xs * value.length := by
  induction xs using placeholder_induction br name with
  | nil =>
    rw [replaceAll_placeholder_nil]
    simp [occurrences]
  | here xs ih =>
    rw [occurrences_placeholder_append hname hname, replaceAll_here, if_pos rfl]
    simp only [List.length_append, Nat.add_mul, Nat.one_mul]
    omega
  | next x xs hno ih =>
    rw [replaceAll_cons hno, occurrences_cons_next hno, List.length_cons, List.length_cons]
    omega

/-- A text with an occurrence stays as it is only if the value is the placeholder itself. -/
theorem value_eq_of_replaceAll_eq (hlen : value.length = (br.placeholder name).length)
    (h : replaceAll (br.placeholder name) value xs = xs)
    (hocc : 0 < occurrences (br.placeholder name) xs) : value = br.placeholder name := by
  induction xs using placeholder_induction br name with
  | nil => simp [occurrences] at hocc
  | here xs ih =>
    rw [replaceAll_here] at h
    exact (List.append_inj h hlen).1
  | next x xs hno ih =>
    rw [replaceAll_cons hno] at h
    rw [occurrences_cons_next hno] at hocc
    exact ih (List.cons.inj h).2 hocc

/-- A value that is its own placeholder changes nothing. -/
theorem replaceAll_self (br : Brackets α) (name xs : List α) :
    replaceAll (br.placeholder name) (br.placeholder name) xs = xs := by
  induction xs using placeholder_induction br name with
  | nil => exact replaceAll_placeholder_nil
  | here xs ih =>
    rw [replaceAll_here, ih]
  | next x xs hno ih => rw [replaceAll_cons hno, ih]

theorem replaceAll_eq_self_iff (hname : br.Plain name) (value xs : List α) :
    replaceAll (br.placeholder name) value xs = xs ↔
      value = br.placeholder name ∨ occurrences (br.placeholder name) xs = 0 := by
  constructor
  · intro h
    by_cases hocc : occurrences (br.placeholder name) xs = 0
    · exact Or.inr hocc
    · left
      have hlength := length_replaceAll hname value xs
      rw [h] at hlength
      have hlen := Nat.eq_of_mul_eq_mul_left (Nat.pos_of_ne_zero hocc) (Nat.add_left_cancel hlength)
      exact value_eq_of_replaceAll_eq hlen.symm h (Nat.pos_of_ne_zero hocc)
  · rintro (rfl | hnone)
    · exact replaceAll_self br name xs
    · exact replaceAll_of_occurrences_eq_zero hnone

/-! ## Templates -/

/-- A piece of a template: a symbol, or a placeholder. -/
inductive Piece (α : Type*)
  | symbol (x : α)
  | hole (name : List α)
  deriving DecidableEq

/-- The template with the placeholders `handled` replaced by their values. -/
def Brackets.text (br : Brackets α) (val : List α → List α) (handled : List (List α)) :
    List (Piece α) → List α
  | [] => []
  | .symbol x :: ps => x :: br.text val handled ps
  | .hole name :: ps =>
    (if name ∈ handled then val name else br.placeholder name) ++ br.text val handled ps

/-- The pieces of a template behind the next `skip` symbols, which belong to a placeholder. -/
def Brackets.piecesFrom (br : Brackets α) (names : List (List α)) : ℕ → List α → List (Piece α)
  | _, [] => []
  | skip + 1, _ :: xs => br.piecesFrom names skip xs
  | 0, x :: xs =>
    match names.find? fun name => (br.placeholder name).isPrefixOf (x :: xs) with
    | some name => .hole name :: br.piecesFrom names (name.length + 1) xs
    | none => .symbol x :: br.piecesFrom names 0 xs

/-- The pieces of a template with placeholders of the names. -/
def Brackets.pieces (br : Brackets α) (names : List (List α)) (xs : List α) : List (Piece α) :=
  br.piecesFrom names 0 xs

variable {names handled : List (List α)} {val : List α → List α} {ps : List (Piece α)}

theorem piecesFrom_length (br : Brackets α) (names : List (List α)) (xs ys : List α) :
    br.piecesFrom names xs.length (xs ++ ys) = br.piecesFrom names 0 ys := by
  induction xs with
  | nil => rfl
  | cons x xs ih => exact ih

theorem pieces_placeholder (hplain : ∀ n ∈ names, br.Plain n) (hname : name ∈ names) (xs : List α) :
    br.pieces names (br.placeholder name ++ xs) = .hole name :: br.pieces names xs := by
  have hfind : (names.find? fun n => (br.placeholder n).isPrefixOf (br.placeholder name ++ xs)) =
      some name := by
    cases hn : names.find? fun n => (br.placeholder n).isPrefixOf (br.placeholder name ++ xs) with
    | none =>
      have hno := List.find?_eq_none.mp hn name hname
      exact absurd (List.isPrefixOf_iff_prefix.mpr (List.prefix_append _ _)) hno
    | some n =>
      have hfound := List.find?_some hn
      have hmem := List.mem_of_find?_eq_some hn
      rw [eq_of_prefix_placeholder (hplain n hmem) (hplain name hname)
        (List.isPrefixOf_iff_prefix.mp hfound)]
  have hskip := piecesFrom_length br names (name ++ [br.closing]) xs
  rw [List.length_append, List.length_singleton] at hskip
  unfold Brackets.pieces
  show br.piecesFrom names 0 (br.opening :: (name ++ [br.closing] ++ xs)) = _
  rw [Brackets.piecesFrom, show (names.find? fun n => (br.placeholder n).isPrefixOf
    (br.opening :: (name ++ [br.closing] ++ xs))) = some name from hfind]
  dsimp only
  rw [hskip]

theorem pieces_cons (h : ∀ n ∈ names, ¬ br.placeholder n <+: x :: xs) :
    br.pieces names (x :: xs) = .symbol x :: br.pieces names xs := by
  have hfind : (names.find? fun n => (br.placeholder n).isPrefixOf (x :: xs)) = none := by
    refine List.find?_eq_none.mpr fun n hn => ?_
    intro hp
    exact h n hn (List.isPrefixOf_iff_prefix.mp hp)
  unfold Brackets.pieces
  rw [Brackets.piecesFrom, hfind]

/-- The pieces are those of the template. -/
theorem text_pieces (hplain : ∀ n ∈ names, br.Plain n) (val : List α → List α) (xs : List α) :
    br.text val [] (br.pieces names xs) = xs := by
  induction xs using placeholders_induction br names with
  | nil => rfl
  | here name hname xs ih =>
    rw [pieces_placeholder hplain hname, Brackets.text, if_neg List.not_mem_nil, ih]
  | next x xs hno ih => rw [pieces_cons hno, Brackets.text, ih]

theorem plain_of_hole (hplain : ∀ n ∈ names, br.Plain n) (xs : List α) :
    ∀ n, .hole n ∈ br.pieces names xs → br.Plain n := by
  induction xs using placeholders_induction br names with
  | nil =>
    intro n hn
    cases hn
  | here name hname xs ih =>
    intro n hn
    rw [pieces_placeholder hplain hname] at hn
    rcases List.mem_cons.mp hn with hn | hn
    · cases hn
      exact hplain name hname
    · exact ih n hn
  | next x xs hno ih =>
    intro n hn
    rw [pieces_cons hno] at hn
    rcases List.mem_cons.mp hn with hn | hn
    · cases hn
    · exact ih n hn

/-- Only which placeholders are replaced matters, and of these only those of the template. -/
theorem text_congr {more : List (List α)} (h : ∀ n, .hole n ∈ ps → (n ∈ handled ↔ n ∈ more)) :
    br.text val handled ps = br.text val more ps := by
  induction ps with
  | nil => rfl
  | cons p ps ih =>
    have hrest := ih fun n hn => h n (List.mem_cons_of_mem _ hn)
    cases p with
    | symbol x => rw [Brackets.text, Brackets.text, hrest]
    | hole n =>
      have hmem := h n List.mem_cons_self
      rw [Brackets.text, Brackets.text, hrest]
      simp only [hmem]

/-- All placeholders of a template are among its pieces. -/
theorem count_pieces (hplain : ∀ n ∈ names, br.Plain n) (hname : name ∈ names) (xs : List α) :
    (br.pieces names xs).count (.hole name) = occurrences (br.placeholder name) xs := by
  induction xs using placeholders_induction br names with
  | nil => rfl
  | here n hn xs ih =>
    rw [pieces_placeholder hplain hn, occurrences_placeholder_append (hplain name hname) (hplain n hn),
      List.count_cons, ih]
    by_cases heq : name = n
    · simp [heq]
      omega
    · have hne : ¬ n = name := fun h => heq h.symm
      simp [heq, hne]
  | next x xs hno ih =>
    rw [pieces_cons hno, occurrences_cons_next (hno name hname), List.count_cons, ih]
    simp

/-! ## One round -/

theorem count_symbol (x : α) (ps : List (Piece α)) :
    (Piece.symbol x :: ps).count (.hole name) = ps.count (.hole name) := by
  simp

theorem count_hole_of_ne (h : name ≠ other) (ps : List (Piece α)) :
    (Piece.hole other :: ps).count (.hole name) = ps.count (.hole name) := by
  have hne : ¬ other = name := fun heq => h heq.symm
  simp [hne]

/-- A template has at least the occurrences of its own placeholders. -/
theorem count_le_occurrences (hplain : ∀ n, .hole n ∈ ps → br.Plain n) (hname : br.Plain name)
    (hnew : name ∉ handled) (val : List α → List α) :
    ps.count (.hole name) ≤ occurrences (br.placeholder name) (br.text val handled ps) := by
  induction ps with
  | nil => exact Nat.zero_le _
  | cons p ps ih =>
    have hrest := ih fun n hn => hplain n (List.mem_cons_of_mem _ hn)
    cases p with
    | symbol x =>
      have hle := occurrences_add_le (br.placeholder name) [x] (br.text val handled ps)
      rw [count_symbol, Brackets.text]
      rw [List.singleton_append] at hle
      omega
    | hole n =>
      rw [Brackets.text]
      by_cases heq : name = n
      · subst heq
        rw [if_neg hnew, occurrences_placeholder_append hname hname, List.count_cons_self, if_pos rfl]
        omega
      · have hle := occurrences_add_le (br.placeholder name)
          (if n ∈ handled then val n else br.placeholder n) (br.text val handled ps)
        rw [count_hole_of_ne heq]
        omega

/-- Without other occurrences than those of the template, a round replaces the placeholders of the
template. -/
theorem replaceAll_text (hplain : ∀ n, .hole n ∈ ps → br.Plain n) (hname : br.Plain name)
    (hnew : name ∉ handled) (xs : List α)
    (h : occurrences (br.placeholder name) (xs ++ br.text val handled ps) = ps.count (.hole name)) :
    replaceAll (br.placeholder name) (val name) (xs ++ br.text val handled ps) =
      xs ++ br.text val (handled ++ [name]) ps := by
  induction ps generalizing xs with
  | nil =>
    rw [Brackets.text, Brackets.text, List.append_nil] at *
    exact replaceAll_of_occurrences_eq_zero h
  | cons p ps ih =>
    have hrest : ∀ n, .hole n ∈ ps → br.Plain n := fun n hn => hplain n (List.mem_cons_of_mem _ hn)
    cases p with
    | symbol x =>
      rw [count_symbol, Brackets.text] at h
      rw [Brackets.text, Brackets.text]
      have hnext := ih hrest (xs ++ [x])
      simp only [List.append_assoc, List.singleton_append] at hnext
      exact hnext h
    | hole n =>
      rw [Brackets.text] at h ⊢
      rw [Brackets.text]
      by_cases heq : name = n
      · subst heq
        have hle := count_le_occurrences hrest hname hnew val
        rw [if_neg hnew, occurrences_append_placeholder hname hname, if_pos rfl, List.count_cons_self]
          at h
        have hhere : occurrences (br.placeholder name) xs = 0 := by omega
        have hthere : occurrences (br.placeholder name) (br.text val handled ps) =
            ps.count (.hole name) := by omega
        have hnext := ih hrest []
        rw [List.nil_append, List.nil_append] at hnext
        rw [if_neg hnew, if_pos (by simp), replaceAll_append_placeholder hname, hnext hthere,
          replaceAll_of_occurrences_eq_zero hhere]
      · rw [count_hole_of_ne heq, ← List.append_assoc] at h
        have hnext := ih hrest (xs ++ if n ∈ handled then val n else br.placeholder n) h
        simp only [mem_concat_of_ne heq]
        rw [← List.append_assoc, hnext, List.append_assoc]

/-- The more placeholders are replaced, the more occurrences there are of another one. -/
theorem occurrences_text_mono (hplain : ∀ n, .hole n ∈ ps → br.Plain n) (hname : br.Plain name)
    {more : List (List α)} (hsub : ∀ n ∈ handled, n ∈ more) (hnew : name ∉ more) (val : List α → List α)
    (xs : List α) :
    occurrences (br.placeholder name) (xs ++ br.text val handled ps) ≤
      occurrences (br.placeholder name) (xs ++ br.text val more ps) := by
  induction ps generalizing xs with
  | nil => exact le_rfl
  | cons p ps ih =>
    have hrest : ∀ n, .hole n ∈ ps → br.Plain n := fun n hn => hplain n (List.mem_cons_of_mem _ hn)
    cases p with
    | symbol x =>
      have hnext := ih hrest (xs ++ [x])
      simp only [List.append_assoc, List.singleton_append] at hnext
      exact hnext
    | hole n =>
      rw [Brackets.text, Brackets.text, ← List.append_assoc, ← List.append_assoc]
      by_cases hmore : n ∈ more
      · by_cases hhandled : n ∈ handled
        · rw [if_pos hhandled, if_pos hmore]
          exact ih hrest _
        · -- the placeholder of the template is not of `name`, and its value takes its place
          have hne : name ≠ n := by
            rintro rfl
            exact hnew hmore
          have hocc := occurrences_append_placeholder hname (hplain n List.mem_cons_self) xs
            (br.text val handled ps)
          have hle := occurrences_add_le (br.placeholder name) (xs ++ val n) (br.text val more ps)
          have hxs := occurrences_add_le (br.placeholder name) xs (val n)
          have hnext := ih hrest []
          rw [List.nil_append, List.nil_append] at hnext
          rw [if_neg hhandled, if_pos hmore, List.append_assoc, hocc, if_neg hne]
          omega
      · have hhandled : n ∉ handled := fun h => hmore (hsub n h)
        rw [if_neg hhandled, if_neg hmore]
        exact ih hrest _

/-- Replacing a placeholder by itself changes nothing. -/
theorem text_concat_of_self (h : val name = br.placeholder name) (handled : List (List α))
    (ps : List (Piece α)) : br.text val (handled ++ [name]) ps = br.text val handled ps := by
  induction ps with
  | nil => rfl
  | cons p ps ih =>
    cases p with
    | symbol x => rw [Brackets.text, Brackets.text, ih]
    | hole n =>
      rw [Brackets.text, Brackets.text, ih]
      by_cases heq : name = n
      · subst heq
        rw [if_pos (by simp), h, ite_self]
      · simp only [mem_concat_of_ne heq]

theorem length_text_concat (br : Brackets α) (val : List α → List α) (hnew : name ∉ handled)
    (ps : List (Piece α)) :
    (br.text val (handled ++ [name]) ps).length + ps.count (.hole name) * (br.placeholder name).length =
      (br.text val handled ps).length + ps.count (.hole name) * (val name).length := by
  induction ps with
  | nil => simp [Brackets.text]
  | cons p ps ih =>
    cases p with
    | symbol x =>
      rw [count_symbol, Brackets.text, Brackets.text, List.length_cons, List.length_cons]
      omega
    | hole n =>
      rw [Brackets.text, Brackets.text, List.length_append, List.length_append]
      by_cases heq : name = n
      · subst heq
        rw [if_pos (by simp), if_neg hnew, List.count_cons_self, Nat.add_mul, Nat.add_mul, Nat.one_mul,
          Nat.one_mul]
        omega
      · simp only [mem_concat_of_ne heq]
        rw [count_hole_of_ne heq]
        omega

/-- A further occurrence goes unnoticed only if its value is the placeholder itself. -/
theorem value_eq_of_replaceAll_text (hplain : ∀ n, .hole n ∈ ps → br.Plain n) (hname : br.Plain name)
    (hnew : name ∉ handled) (hlen : (val name).length = (br.placeholder name).length) (xs : List α)
    (h : replaceAll (br.placeholder name) (val name) (xs ++ br.text val handled ps) =
      xs ++ br.text val (handled ++ [name]) ps)
    (hocc : ps.count (.hole name) < occurrences (br.placeholder name) (xs ++ br.text val handled ps)) :
    val name = br.placeholder name := by
  induction ps generalizing xs with
  | nil =>
    rw [Brackets.text, Brackets.text, List.append_nil] at h
    rw [Brackets.text, List.append_nil] at hocc
    exact value_eq_of_replaceAll_eq hlen h (by simpa using hocc)
  | cons p ps ih =>
    have hrest : ∀ n, .hole n ∈ ps → br.Plain n := fun n hn => hplain n (List.mem_cons_of_mem _ hn)
    cases p with
    | symbol x =>
      rw [count_symbol, Brackets.text] at hocc
      rw [Brackets.text, Brackets.text] at h
      have hnext := ih hrest (xs ++ [x])
      simp only [List.append_assoc, List.singleton_append] at hnext
      exact hnext h hocc
    | hole n =>
      rw [Brackets.text, Brackets.text] at h
      rw [Brackets.text] at hocc
      by_cases heq : name = n
      · subst heq
        rw [if_neg hnew, if_pos (by simp), replaceAll_append_placeholder hname] at h
        rw [if_neg hnew, occurrences_append_placeholder hname hname, if_pos rfl, List.count_cons_self]
          at hocc
        have hkept : (replaceAll (br.placeholder name) (val name) xs).length = xs.length := by
          have hlength := length_replaceAll hname (val name) xs
          rw [hlen] at hlength
          omega
        obtain ⟨hbefore, hbehind⟩ := List.append_inj h hkept
        by_cases hxs : occurrences (br.placeholder name) xs = 0
        · have hnext := ih hrest []
          rw [List.nil_append, List.nil_append] at hnext
          exact hnext (List.append_cancel_left hbehind) (by omega)
        · exact value_eq_of_replaceAll_eq hlen hbefore (by omega)
      · simp only [mem_concat_of_ne heq] at h
        rw [← List.append_assoc, ← List.append_assoc] at h
        rw [count_hole_of_ne heq, ← List.append_assoc] at hocc
        exact ih hrest _ h hocc

/-- A round replaces the placeholders of the template, and no others, if and only if there are no others
or they are replaced by themselves. -/
theorem replaceAll_text_iff (hplain : ∀ n, .hole n ∈ ps → br.Plain n) (hname : br.Plain name)
    (hnew : name ∉ handled) :
    replaceAll (br.placeholder name) (val name) (br.text val handled ps) =
        br.text val (handled ++ [name]) ps ↔
      val name = br.placeholder name ∨
        occurrences (br.placeholder name) (br.text val handled ps) ≤ ps.count (.hole name) := by
  constructor
  · intro h
    by_cases hmore : occurrences (br.placeholder name) (br.text val handled ps) ≤ ps.count (.hole name)
    · exact Or.inr hmore
    · left
      have hreplaced := length_replaceAll hname (val name) (br.text val handled ps)
      have hexpanded := length_text_concat br val hnew ps
      rw [h] at hreplaced
      have hlen : (val name).length = (br.placeholder name).length := by
        obtain ⟨k, hk⟩ := Nat.exists_eq_add_of_lt (not_le.mp hmore)
        rw [hk] at hreplaced
        simp only [Nat.add_mul, Nat.one_mul] at hreplaced
        have hsame : (k + 1) * (br.placeholder name).length = (k + 1) * (val name).length := by
          simp only [Nat.add_mul, Nat.one_mul]
          omega
        exact (Nat.eq_of_mul_eq_mul_left (Nat.succ_pos k) hsame).symm
      exact value_eq_of_replaceAll_text hplain hname hnew hlen [] h (not_le.mp hmore)
  · rintro (hself | hle)
    · rw [text_concat_of_self hself, hself, replaceAll_self]
    · have hocc := count_le_occurrences hplain hname hnew val
      exact replaceAll_text hplain hname hnew [] (le_antisymm hle hocc)

/-! ## All rounds -/

/-- The placeholders of the names are replaced one after the other. -/
def Brackets.rounds (br : Brackets α) (val : List α → List α) (names : List (List α)) (xs : List α) :
    List α :=
  names.foldl (fun xs name => replaceAll (br.placeholder name) (val name) xs) xs

/-- The values of the other placeholders bring no further placeholder of this name into the template, or
it stands for itself. -/
def Brackets.Undisturbed (br : Brackets α) (val : List α → List α) (names : List (List α))
    (xs name : List α) : Prop :=
  val name = br.placeholder name ∨
    occurrences (br.placeholder name)
        (br.text val (names.filter fun n => decide (n ≠ name)) (br.pieces names xs)) ≤
      occurrences (br.placeholder name) xs

/-- A round among all is as the last one. -/
theorem round_of_undisturbed (hplain : ∀ n ∈ names, br.Plain n) (hname : name ∈ names)
    (hsub : ∀ n ∈ handled, n ∈ names) (hnew : name ∉ handled) (xs : List α)
    (h : br.Undisturbed val names xs name) :
    replaceAll (br.placeholder name) (val name) (br.text val handled (br.pieces names xs)) =
      br.text val (handled ++ [name]) (br.pieces names xs) := by
  have hpieces := plain_of_hole hplain xs
  refine (replaceAll_text_iff hpieces (hplain name hname) hnew).mpr ?_
  rw [count_pieces hplain hname]
  rcases h with hself | hle
  · exact Or.inl hself
  · have hothers : ∀ n ∈ handled, n ∈ names.filter fun n => decide (n ≠ name) := by
      intro n hn
      refine List.mem_filter.mpr ⟨hsub n hn, ?_⟩
      have hne : n ≠ name := by
        rintro rfl
        exact hnew hn
      simpa using hne
    have hmono := occurrences_text_mono hpieces (hplain name hname) hothers (by simp) val []
    exact Or.inr (le_trans hmono hle)

/-- In whatever order the placeholders are replaced, exactly those handled so far are replaced after every
round, if and only if no placeholder is disturbed by the values of the others. -/
theorem rounds_eq_iff (hplain : ∀ n ∈ names, br.Plain n) (hnodup : names.Nodup) (xs : List α) :
    (∀ order : List (List α), order.Perm names → ∀ k,
      br.rounds val (order.take k) xs = br.text val (order.take k) (br.pieces names xs)) ↔
    ∀ name ∈ names, br.Undisturbed val names xs name := by
  have hpieces := plain_of_hole hplain xs
  constructor
  · intro h name hname
    set others := names.filter fun n => decide (n ≠ name) with hothers
    have hnew : name ∉ others := by simp [hothers]
    have herase : others = names.erase name := by
      rw [hnodup.erase_eq_filter, hothers]
      refine List.filter_congr fun n _ => ?_
      by_cases hn : n = name <;> simp [hn]
    have horder : (others ++ [name]).Perm names := by
      rw [herase]
      exact (List.perm_append_comm).trans (List.perm_cons_erase hname).symm
    have hbefore := h (others ++ [name]) horder others.length
    have hlast := h (others ++ [name]) horder (others.length + 1)
    rw [List.take_left] at hbefore
    rw [List.take_of_length_le (by simp), Brackets.rounds, List.foldl_concat] at hlast
    rw [Brackets.rounds] at hbefore
    rw [hbefore] at hlast
    have hround := (replaceAll_text_iff hpieces (hplain name hname) hnew).mp hlast
    rwa [count_pieces hplain hname] at hround
  · intro h order horder k
    have hsub : ∀ n ∈ order, n ∈ names := fun n hn => horder.mem_iff.mp hn
    have hdistinct : order.Nodup := horder.nodup_iff.mpr hnodup
    -- induction on the number of rounds
    induction k with
    | zero =>
      rw [List.take_zero, text_pieces hplain]
      rfl
    | succ k ih =>
      by_cases hk : k < order.length
      · have hsplit : order.take (k + 1) = order.take k ++ [order[k]] := List.take_succ_eq_append_getElem hk
        have hname : order[k] ∈ names := hsub _ (List.getElem_mem hk)
        have htake : (order.take k ++ [order[k]]).Nodup := by
          rw [← hsplit]
          exact hdistinct.sublist (List.take_sublist _ _)
        have hnew : order[k] ∉ order.take k := fun hn =>
          (List.nodup_append.mp htake).2.2 _ hn _ (List.mem_singleton_self _) rfl
        rw [Brackets.rounds] at ih
        rw [hsplit, Brackets.rounds, List.foldl_concat, ih]
        exact round_of_undisturbed hplain hname (fun n hn => hsub n (List.mem_of_mem_take hn)) hnew xs
          (h _ hname)
      · rw [List.take_of_length_le (by omega)] at ih ⊢
        exact ih

/-- Replacing placeholders leaves a template as it is if and only if it has none, or only those that stand
for themselves. -/
theorem text_eq_self_iff (hplain : ∀ n ∈ names, br.Plain n) (xs : List α) :
    (∀ order : List (List α), order.Perm names → ∀ k,
      xs = br.text val (order.take k) (br.pieces names xs)) ↔
    ∀ name ∈ names, val name = br.placeholder name ∨ occurrences (br.placeholder name) xs = 0 := by
  have hpieces := plain_of_hole hplain xs
  constructor
  · intro h name hname
    have hone := h (name :: names.erase name) (List.perm_cons_erase hname).symm 1
    have hround : replaceAll (br.placeholder name) (val name) (br.text val [] (br.pieces names xs)) =
        br.text val ([] ++ [name]) (br.pieces names xs) := by
      refine (replaceAll_text_iff hpieces (hplain name hname) List.not_mem_nil).mpr (Or.inr ?_)
      rw [text_pieces hplain, count_pieces hplain hname]
    rw [text_pieces hplain, List.nil_append] at hround
    rw [List.take_succ_cons, List.take_zero] at hone
    rw [← hone] at hround
    exact (replaceAll_eq_self_iff (hplain name hname) _ _).mp hround
  · intro h order horder k
    have hkept : ∀ handled : List (List α), (∀ n ∈ handled, n ∈ names) →
        br.text val handled (br.pieces names xs) = br.text val [] (br.pieces names xs) := by
      intro handled
      induction handled using List.reverseRecOn with
      | nil =>
        intro _
        rfl
      | append_singleton handled name ih =>
        intro hsub
        have hname : name ∈ names := hsub name (by simp)
        refine Eq.trans ?_ (ih fun n hn => hsub n (List.mem_append_left _ hn))
        rcases h name hname with hself | hnone
        · exact text_concat_of_self hself _ _
        · refine text_congr fun n hn => ?_
          have hne : n ≠ name := by
            rintro rfl
            rw [← count_pieces hplain hname] at hnone
            exact List.count_eq_zero.mp hnone hn
          simp [hne]
    rw [hkept _ fun n hn => horder.mem_iff.mp (List.mem_of_mem_take hn), text_pieces hplain]

end TextTools
