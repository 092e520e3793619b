import PingPong.Feign.Proofs.InvokeProofs
import Mathlib.Data.List.Nodup

/-!
# Proofs: the placeholders of a URL

A call of `StrUtil.format` is a sequence of rounds of `TextTools.Brackets.rounds` (`format_toList`), so what
holds of rounds in any order holds of the URL.
-/

namespace PingPong.Feign

open TextTools

variable {a : Arguments} {self : OpenFeignClientProxy} {path template : String}

namespace Arguments

/-- The names of the parameters as lists of characters. -/
def names (a : Arguments) : List (List Char) := a.parameters.map String.toList

theorem plain_of_mem_names : ∀ n ∈ a.names, braces.Plain n := by
  intro n hn
  obtain ⟨parameter, hparameter, rfl⟩ := List.mem_map.mp hn
  obtain ⟨entry, hentry, rfl⟩ := List.mem_map.mp hparameter
  exact a.plain entry hentry

theorem nodup_names (a : Arguments) : a.names.Nodup :=
  a.nodup.map fun _ _ h => String.toList_inj.mp h

theorem value_of_mem {entry : String × String} (h : entry ∈ a.entries) :
    a.value entry.1.toList = entry.2.toList := by
  unfold value
  cases hfind : a.entries.find? fun e => e.1.toList = entry.1.toList with
  | none =>
    have hno := List.find?_eq_none.mp hfind entry h
    simp at hno
  | some found =>
    have hname : found.1 = entry.1 := by
      have hfound := List.find?_some hfind
      exact String.toList_inj.mp (by simpa using hfound)
    have hsame := List.inj_on_of_nodup_map a.nodup (List.mem_of_find?_eq_some hfind) h hname
    rw [hsame]

/-- The map that `invoke` makes of the call. -/
theorem zip_eq (a : Arguments) :
    a.parameters.zip a.args = a.entries.map fun entry => (entry.1, some entry.2) :=
  List.zip_map'

theorem expand_toList (handled : List String) (template : String) :
    (a.expand handled template).toList =
      braces.text a.value (handled.map String.toList) (braces.pieces a.names template.toList) :=
  String.toList_ofList

end Arguments

/-! ## Rounds -/

/-- Every entry is one round. -/
theorem format_toList (template : String) (entries : List (String × Option String))
    (h : ∀ entry ∈ entries, ∃ value, entry.2 = some value ∧ value.toList = a.value entry.1.toList) :
    (StrUtil.format template entries).toList =
      braces.rounds a.value (entries.map fun entry => entry.1.toList) template.toList := by
  induction entries using List.reverseRecOn with
  | nil => rfl
  | append_singleton entries entry ih =>
    obtain ⟨value, hvalue, hargument⟩ := h entry (by simp)
    have hbefore := ih fun e he => h e (List.mem_append_left _ he)
    have hpattern : ("\x7b" ++ entry.1 ++ "\x7d").toList = braces.placeholder entry.1.toList := by
      simp [Brackets.placeholder, braces]
    unfold StrUtil.format Brackets.rounds at hbefore ⊢
    rw [List.map_append, List.map_singleton, List.foldl_concat, List.foldl_concat, ← hbefore, hvalue]
    dsimp only
    rw [StrUtil.replace, String.toList_ofList, hpattern, hargument]

/-- The text of the URL after rounds over some entries of the map. -/
theorem handledUrl_toList (path template : String) {entries : List (String × Option String)}
    (h : ∀ entry ∈ entries, entry ∈ a.parameters.zip a.args) :
    (handledUrl path template entries).toList =
      if path.toList.contains '\x7b' then
        braces.rounds a.value (entries.map fun entry => entry.1.toList) template.toList
      else template.toList := by
  unfold handledUrl
  split
  · refine format_toList template entries fun entry hentry => ?_
    have hmem := h entry hentry
    rw [a.zip_eq] at hmem
    obtain ⟨original, horiginal, rfl⟩ := List.mem_map.mp hmem
    exact ⟨original.2, rfl, (Arguments.value_of_mem horiginal).symm⟩
  · rfl

/-! ## Orders -/

/-- The entry of a parameter. -/
def Arguments.entryOf (a : Arguments) (name : List Char) : String × Option String :=
  (.ofList name, some (.ofList (a.value name)))

theorem map_entryOf_names (a : Arguments) : a.names.map a.entryOf = a.parameters.zip a.args := by
  rw [a.zip_eq]
  unfold Arguments.names Arguments.parameters
  rw [List.map_map, List.map_map]
  refine List.map_congr_left fun entry hentry => ?_
  simp only [Function.comp, Arguments.entryOf, Arguments.value_of_mem hentry, String.ofList_toList]

theorem map_names_zip (a : Arguments) :
    ((a.parameters.zip a.args).map fun entry => entry.1.toList) = a.names := by
  rw [a.zip_eq]
  unfold Arguments.names Arguments.parameters
  rw [List.map_map, List.map_map]
  rfl

/-- A library whose maps have one particular order. -/
def ordered (entries order : List (String × Option String)) (h : order.Perm entries) : Library where
  iterate given := if given = entries then order else given
  iterate_perm given := by
    split
    · rename_i heq
      rw [heq]
      exact h
    · exact .refl given
  toJsonStr _ := "[]"

/-- The rounds in any order of the map are the rounds in any order of the names. -/
theorem rounds_iff (a : Arguments) (path template : String) :
    (∀ (lib : Library) (k : ℕ),
      handledUrl path template ((lib.iterate (a.parameters.zip a.args)).take k) =
        a.expand (((lib.iterate (a.parameters.zip a.args)).take k).map Prod.fst) template) ↔
    ∀ order : List (List Char), order.Perm a.names → ∀ k,
      (if path.toList.contains '\x7b' then braces.rounds a.value (order.take k) template.toList
        else template.toList) =
      braces.text a.value (order.take k) (braces.pieces a.names template.toList) := by
  have hlists : ∀ (lib : Library) (k : ℕ),
      handledUrl path template ((lib.iterate (a.parameters.zip a.args)).take k) =
        a.expand (((lib.iterate (a.parameters.zip a.args)).take k).map Prod.fst) template ↔
      (if path.toList.contains '\x7b' then
        braces.rounds a.value
          (((lib.iterate (a.parameters.zip a.args)).map fun entry => entry.1.toList).take k)
          template.toList
        else template.toList) =
      braces.text a.value
        (((lib.iterate (a.parameters.zip a.args)).map fun entry => entry.1.toList).take k)
        (braces.pieces a.names template.toList) := by
    intro lib k
    have hmem : ∀ entry ∈ (lib.iterate (a.parameters.zip a.args)).take k,
        entry ∈ a.parameters.zip a.args := fun entry hentry =>
      (lib.iterate_perm _).mem_iff.mp (List.mem_of_mem_take hentry)
    rw [← String.toList_inj, handledUrl_toList path template hmem, Arguments.expand_toList, List.map_map,
      ← List.map_take]
    rfl
  constructor
  · intro h order horder k
    have hperm : (order.map a.entryOf).Perm (a.parameters.zip a.args) := by
      rw [← map_entryOf_names]
      exact horder.map _
    have hiterate : (ordered _ _ hperm).iterate (a.parameters.zip a.args) = order.map a.entryOf :=
      if_pos rfl
    have hround := (hlists (ordered _ _ hperm) k).mp (h (ordered _ _ hperm) k)
    have hnames : (order.map a.entryOf).map (fun entry => entry.1.toList) = order := by
      rw [List.map_map]
      refine List.map_id'' (fun n => ?_) order
      exact String.toList_ofList
    rwa [hiterate, hnames] at hround
  · intro h lib k
    refine (hlists lib k).mpr (h _ ?_ k)
    rw [← map_names_zip]
    exact (lib.iterate_perm _).map _

/-- The URL of the request is the text after the last round. -/
theorem expandsAtOnce_iff_rounds (self : OpenFeignClientProxy) (path : String) (a : Arguments) :
    ExpandsAtOnce self path a ↔ ∀ (lib : Library) (k : ℕ),
      handledUrl path (OpenFeignClientProxy.joinPath self.url path)
          ((lib.iterate (a.parameters.zip a.args)).take k) =
        a.expand (((lib.iterate (a.parameters.zip a.args)).take k).map Prod.fst)
          (OpenFeignClientProxy.joinPath self.url path) := by
  constructor
  · intro h lib k
    exact (h lib none).2 k
  · intro h lib traceId
    refine ⟨?_, h lib⟩
    have hlast := h lib (lib.iterate (a.parameters.zip a.args)).length
    rw [List.take_length] at hlast
    rw [httpRequest_url, if_pos rfl, hlast, ← String.toList_inj, Arguments.expand_toList, Arguments.expand_toList]
    refine text_congr fun n _ => ?_
    have hperm : (((lib.iterate (a.parameters.zip a.args)).map Prod.fst).map String.toList).Perm
        (a.parameters.map String.toList) := by
      have hnames := map_names_zip a
      unfold Arguments.names at hnames
      rw [← hnames, List.map_map]
      exact (lib.iterate_perm _).map _
    exact hperm.mem_iff

/-! ## The condition -/

theorem standsForItself_iff {entry : String × String} (h : entry ∈ a.entries) :
    a.value entry.1.toList = braces.placeholder entry.1.toList ↔ StandsForItself entry := by
  rw [Arguments.value_of_mem h]
  rfl

/-- The other parameters of a parameter. -/
theorem map_filter_parameters (a : Arguments) (parameter : String) :
    (a.parameters.filter fun name => name ≠ parameter).map String.toList =
      a.names.filter fun n => decide (n ≠ parameter.toList) := by
  unfold Arguments.names
  rw [List.filter_map]
  congr 1
  refine List.filter_congr fun name _ => ?_
  simp [String.toList_inj]

/-- A property of the names is one of the entries. -/
theorem forall_names_iff {motive : List Char → Prop} :
    (∀ n ∈ a.names, motive n) ↔ ∀ entry ∈ a.entries, motive entry.1.toList := by
  constructor
  · intro h entry hentry
    exact h _ (List.mem_map_of_mem (List.mem_map_of_mem hentry))
  · intro h n hn
    obtain ⟨parameter, hparameter, rfl⟩ := List.mem_map.mp hn
    obtain ⟨entry, hentry, rfl⟩ := List.mem_map.mp hparameter
    exact h entry hentry

/-- The URL has all placeholders replaced at once, whatever the order of the map, if and only if no
placeholder is disturbed. -/
theorem expandsAtOnce_iff (self : OpenFeignClientProxy) (path : String) (a : Arguments) :
    ExpandsAtOnce self path a ↔ Undisturbed self path a := by
  rw [expandsAtOnce_iff_rounds, rounds_iff]
  unfold Undisturbed
  by_cases hbrace : path.toList.contains '\x7b' = true
  · simp only [hbrace, if_true]
    rw [rounds_eq_iff Arguments.plain_of_mem_names a.nodup_names, forall_names_iff]
    refine forall₂_congr fun entry hentry => ?_
    unfold Brackets.Undisturbed
    rw [standsForItself_iff hentry, Arguments.expand_toList, map_filter_parameters]
  · simp only [hbrace, Bool.false_eq_true, if_false]
    rw [text_eq_self_iff Arguments.plain_of_mem_names, forall_names_iff]
    refine forall₂_congr fun entry hentry => ?_
    rw [standsForItself_iff hentry]

/-- A method with two parameters, and an argument that is the placeholder of the other. -/
def twoArguments : Arguments where
  entries := [("a", "\x7bb\x7d"), ("b", "z")]
  nodup := by decide
  plain := by
    intro entry hentry
    have hcases : entry = ("a", "\x7bb\x7d") ∨ entry = ("b", "z") := by simpa using hentry
    rcases hcases with rfl | rfl
    · exact ⟨by decide, by decide⟩
    · exact ⟨by decide, by decide⟩

/-- The placeholder from the first argument is expanded again. -/
theorem not_expandsAtOnce_placeholder :
    ¬ ExpandsAtOnce ⟨"x", "http://localhost:8001/x"⟩ "\x7ba\x7d/\x7bb\x7d" twoArguments := by
  intro h
  have hurl := (h (ordered [] [] (.refl _)) none).1
  revert hurl
  decide

end PingPong.Feign
