import PingPong.StepMachine.Run
import Mathlib.Data.List.ReduceOption
import Mathlib.Data.List.Nodup
import Mathlib.Data.Nat.Notation
import Mathlib.Logic.Function.Basic

/-!
# A cell with double-checked locking

A cell that is filled on demand: a reader that finds it empty takes the lock, looks once more, and makes an
object if the cell is still empty; then it reads the cell again and returns what it finds. Others may empty
the cell at any time and without the lock. `θ` is the type of threads and `O` that of objects.

The number of times the cell has been emptied is its epoch. In one epoch all readers that find an object find
the same one (`objectAt`), no object is made while there is one (`ReaderInv.creating`), and a reader that returns
nothing has read across the end of an epoch (`Returned`).
-/

namespace DoubleChecked

/-! ## The cell -/

/-- What a reader returns: the epochs in which it has begun and in which it has read the cell for the last
time, and what it has found. -/
structure Get (O : Type*) where
  began : ℕ
  epoch : ℕ
  object : Option O
  deriving DecidableEq

/-- The control points of a reader: before the first look, before the lock, before the second look, before an
object is made, before the lock is released, before the last read, and with its result. -/
inductive Phase (O : Type*)
  | outside
  | reading
  | entering
  | checking
  | creating
  | leaving
  | rereading
  | returned (get : Get O)
  deriving DecidableEq

namespace Phase

variable {O : Type*}

/-- The reader has the lock. -/
def locked : Phase O → Bool
  | checking | creating | leaving => true
  | _ => false

/-- The reader has seen an object in the cell. -/
def hasSeen : Phase O → Bool
  | leaving | rereading => true
  | _ => false

end Phase

/-- The cell, the lock, the readers, and the epochs in which they have begun. `dropped` is what the cell has
had when it was emptied, and `made` lists the objects that have been made. -/
structure Cell (θ O : Type*) where
  value : Option O
  lock : Option θ
  phase : θ → Phase O
  began : θ → ℕ
  dropped : List (Option O)
  made : List O

inductive CellAction (θ O : Type*)
  | call (t : θ)
  | read (t : θ)
  | enter (t : θ)
  | check (t : θ)
  | create (t : θ) (o : O)
  | leave (t : θ)
  | reread (t : θ)
  | take (t : θ)
  | reset

/-- The reader that takes the step. -/
def CellAction.actor {θ O : Type*} : CellAction θ O → Option θ
  | .call t | .read t | .enter t | .check t | .create t _ | .leave t | .reread t | .take t => some t
  | .reset => none

namespace Cell

variable {θ O : Type*} [DecidableEq θ]

def start : Cell θ O where
  value := none
  lock := none
  phase := fun _ => .outside
  began := fun _ => 0
  dropped := []
  made := []

/-- How often the cell has been emptied. -/
def epoch (s : Cell θ O) : ℕ := s.dropped.length

/-- The object of the epoch `k`. -/
def objectAt (s : Cell θ O) (k : ℕ) : Option O := (s.dropped ++ [s.value])[k]?.join

def setPhase (s : Cell θ O) (t : θ) (ph : Phase O) : Cell θ O :=
  { s with phase := Function.update s.phase t ph }

end Cell

/-- All interleavings of the readers with those who empty the cell. -/
def cellMachine (θ O : Type*) [DecidableEq θ] [DecidableEq O] : StepMachine (Cell θ O) (CellAction θ O) where
  step s a :=
    match a with
    | .call t =>
      match s.phase t with
      | .outside => some { s.setPhase t .reading with began := Function.update s.began t s.epoch }
      | _ => none
    | .read t =>
      match s.phase t with
      | .reading => some (s.setPhase t (if s.value.isSome then .rereading else .entering))
      | _ => none
    | .enter t =>
      match s.phase t, s.lock with
      | .entering, none => some { s.setPhase t .checking with lock := some t }
      | _, _ => none
    | .check t =>
      match s.phase t with
      | .checking => some (s.setPhase t (if s.value.isSome then .leaving else .creating))
      | _ => none
    | .create t o =>
      match s.phase t with
      | .creating =>
        if o ∉ s.made then some { s.setPhase t .leaving with value := some o, made := s.made ++ [o] } else none
      | _ => none
    | .leave t =>
      match s.phase t with
      | .leaving => some { s.setPhase t .rereading with lock := none }
      | _ => none
    | .reread t =>
      match s.phase t with
      | .rereading => some (s.setPhase t (.returned ⟨s.began t, s.epoch, s.value⟩))
      | _ => none
    | .take t =>
      match s.phase t with
      | .returned _ => some (s.setPhase t .outside)
      | _ => none
    | .reset => some { s with value := none, dropped := s.dropped ++ [s.value] }

variable {θ O : Type*} {s s' : Cell θ O} {a : CellAction θ O} {t u : θ} {o : O} {k : ℕ} {ph : Phase O}

/-! ## The invariant -/

/-- A reader has returned what was in the cell in the epoch of its last read, or nothing after it has seen
the end of an epoch. -/
structure Returned (s : Cell θ O) (get : Get O) : Prop where
  epoch_le : get.epoch ≤ s.epoch
  current : ∀ o, get.object = some o → s.objectAt get.epoch = some o
  missed : get.object = none → get.began < get.epoch

structure ReaderInv (s : Cell θ O) (t : θ) : Prop where
  holder : (s.phase t).locked = true ↔ s.lock = some t
  creating : s.phase t = .creating → s.value = none
  began_le : s.began t ≤ s.epoch
  missed : (s.phase t).hasSeen = true → s.value = none → s.began t < s.epoch
  returned : ∀ get, s.phase t = .returned get → Returned s get

/-- Every object that has been made has been in the cell for one epoch. -/
structure CellInv (s : Cell θ O) : Prop where
  readers : ∀ t, ReaderInv s t
  made : s.made = (s.dropped ++ [s.value]).reduceOption
  nodup : s.made.Nodup

theorem cellInv_start : CellInv (.start : Cell θ O) where
  readers _ := ⟨⟨nofun, nofun⟩, nofun, le_rfl, nofun, nofun⟩
  made := rfl
  nodup := .nil

theorem objectAt_eq_some : s.objectAt k = some o ↔ (s.dropped ++ [s.value])[k]? = some (some o) :=
  Option.join_eq_some_iff

/-- There are no more objects than epochs. -/
theorem CellInv.length_made_le (h : CellInv s) : s.made.length ≤ s.epoch + 1 := by
  rw [h.made]
  refine (List.reduceOption_length_le _).trans_eq ?_
  rw [List.length_append]
  rfl

/-- Two readers that have found objects in one epoch have found the same one. -/
theorem Returned.object_eq {get get' : Get O} (h : Returned s get) (h' : Returned s get')
    (hepoch : get.epoch = get'.epoch) {o o' : O} (ho : get.object = some o) (ho' : get'.object = some o') :
    o = o' := by
  have hfound := h.current o ho
  rw [hepoch, h'.current o' ho'] at hfound
  exact (Option.some.inj hfound).symm

/-- A reader returns what it reads. -/
theorem ReaderInv.reread (h : ReaderInv s t) (hph : s.phase t = .rereading) :
    Returned s ⟨s.began t, s.epoch, s.value⟩ where
  epoch_le := le_rfl
  current o ho := objectAt_eq_some.mpr (by rw [Cell.epoch, List.getElem?_concat_length, ← ho])
  missed := h.missed (by rw [hph]; rfl)

/-- The reader at its new control point. -/
theorem readerInv_at (hphase : s'.phase t = ph) (hholder : ph.locked = true ↔ s'.lock = some t)
    (hcreating : ph = .creating → s'.value = none) (hbegan : s'.began t ≤ s'.epoch)
    (hmissed : ph.hasSeen = true → s'.value = none → s'.began t < s'.epoch)
    (hreturned : ∀ get, ph = .returned get → Returned s' get) : ReaderInv s' t := by
  subst hphase
  exact ⟨hholder, hcreating, hbegan, hmissed, hreturned⟩

variable [DecidableEq θ]

/-! ## The steps -/

@[simp] theorem setPhase_phase_self : (s.setPhase t ph).phase t = ph := Function.update_self ..

@[simp] theorem setPhase_phase_of_ne (h : u ≠ t) : (s.setPhase t ph).phase u = s.phase u :=
  Function.update_of_ne h ..

/-- The steps of the machine, one constructor for each way a label can be taken. -/
inductive CellStep (s : Cell θ O) : CellAction θ O → Cell θ O → Prop where
  | call {t : θ} (hph : s.phase t = .outside) :
      CellStep s (.call t) { s.setPhase t .reading with began := Function.update s.began t s.epoch }
  | readFull {t : θ} (hph : s.phase t = .reading) (hvalue : s.value.isSome) :
      CellStep s (.read t) (s.setPhase t .rereading)
  | readEmpty {t : θ} (hph : s.phase t = .reading) (hvalue : s.value = none) :
      CellStep s (.read t) (s.setPhase t .entering)
  | enter {t : θ} (hph : s.phase t = .entering) (hlock : s.lock = none) :
      CellStep s (.enter t) { s.setPhase t .checking with lock := some t }
  | checkFull {t : θ} (hph : s.phase t = .checking) (hvalue : s.value.isSome) :
      CellStep s (.check t) (s.setPhase t .leaving)
  | checkEmpty {t : θ} (hph : s.phase t = .checking) (hvalue : s.value = none) :
      CellStep s (.check t) (s.setPhase t .creating)
  | create {t : θ} {o : O} (hph : s.phase t = .creating) (hfresh : o ∉ s.made) :
      CellStep s (.create t o) { s.setPhase t .leaving with value := some o, made := s.made ++ [o] }
  | leave {t : θ} (hph : s.phase t = .leaving) :
      CellStep s (.leave t) { s.setPhase t .rereading with lock := none }
  | reread {t : θ} (hph : s.phase t = .rereading) :
      CellStep s (.reread t) (s.setPhase t (.returned ⟨s.began t, s.epoch, s.value⟩))
  | take {t : θ} {get : Get O} (hph : s.phase t = .returned get) :
      CellStep s (.take t) (s.setPhase t .outside)
  | reset : CellStep s .reset { s with value := none, dropped := s.dropped ++ [s.value] }

theorem cellStep_of_step [DecidableEq O] (h : (cellMachine θ O).step s a = some s') : CellStep s a s' := by
  cases a with
  | call t =>
    simp only [cellMachine] at h
    split at h
    · cases h; exact .call ‹_›
    · cases h
  | read t =>
    simp only [cellMachine] at h
    split at h
    · cases h
      cases hvalue : s.value with
      | none => exact .readEmpty ‹_› hvalue
      | some o => exact .readFull ‹_› (by rw [hvalue]; rfl)
    · cases h
  | enter t =>
    simp only [cellMachine] at h
    split at h
    · cases h; exact .enter ‹_› ‹_›
    · cases h
  | check t =>
    simp only [cellMachine] at h
    split at h
    · cases h
      cases hvalue : s.value with
      | none => exact .checkEmpty ‹_› hvalue
      | some o => exact .checkFull ‹_› (by rw [hvalue]; rfl)
    · cases h
  | create t o =>
    simp only [cellMachine] at h
    split at h
    · split at h
      · cases h; exact .create ‹_› ‹_›
      · cases h
    · cases h
  | leave t =>
    simp only [cellMachine] at h
    split at h
    · cases h; exact .leave ‹_›
    · cases h
  | reread t =>
    simp only [cellMachine] at h
    split at h
    · cases h; exact .reread ‹_›
    · cases h
  | take t =>
    simp only [cellMachine] at h
    split at h
    · cases h; exact .take ‹_›
    · cases h
  | reset => cases h; exact .reset

/-! ## What a step keeps -/

/-- An epoch keeps its object. -/
theorem objectAt_step (h : CellInv s) (hs : CellStep s a s') (hk : s.objectAt k = some o) :
    s'.objectAt k = some o := by
  rw [objectAt_eq_some] at hk
  have hlt := (List.getElem?_eq_some_iff.mp hk).1
  rw [List.length_append, List.length_singleton] at hlt
  cases hs with
  | @create t o' hph hfresh =>
    -- the cell is empty, so the object is that of an earlier epoch
    rw [(h.readers t).creating hph] at hk
    have hearlier : k < s.dropped.length := by
      by_contra hlast
      obtain rfl : k = s.dropped.length := by omega
      rw [List.getElem?_concat_length] at hk
      cases hk
    rw [List.getElem?_append_left hearlier] at hk
    refine objectAt_eq_some.mpr ?_
    show (s.dropped ++ [some o'])[k]? = _
    rw [List.getElem?_append_left hearlier, hk]
  | reset =>
    refine objectAt_eq_some.mpr ?_
    show ((s.dropped ++ [s.value]) ++ [none])[k]? = _
    rw [List.getElem?_append_left (by rw [List.length_append, List.length_singleton]; exact hlt), hk]
  | _ => exact objectAt_eq_some.mpr hk

theorem epoch_le_step (hs : CellStep s a s') : s.epoch ≤ s'.epoch := by
  cases hs with
  | reset =>
    show s.dropped.length ≤ (s.dropped ++ [s.value]).length
    rw [List.length_append]
    exact Nat.le_add_right _ _
  | _ => exact le_rfl

theorem Returned.step {get : Get O} (hget : Returned s get) (h : CellInv s) (hs : CellStep s a s') :
    Returned s' get where
  epoch_le := hget.epoch_le.trans (epoch_le_step hs)
  current o ho := objectAt_step h hs (hget.current o ho)
  missed := hget.missed

/-- What a step of `t` does not change for `u`. -/
theorem ReaderInv.frame (hs : CellStep s a s') (h : CellInv s) (hphase : s'.phase u = s.phase u)
    (hbegan : s'.began u = s.began u) (hlock : s'.lock = some u ↔ s.lock = some u)
    (hcreating : s.phase u = .creating → s'.value = none)
    (hmissed : (s.phase u).hasSeen = true → s'.value = none → s.began u < s'.epoch) : ReaderInv s' u where
  holder := by rw [hphase, hlock]; exact (h.readers u).holder
  creating := by rw [hphase]; exact hcreating
  began_le := by rw [hbegan]; exact (h.readers u).began_le.trans (epoch_le_step hs)
  missed := by rw [hphase, hbegan]; exact hmissed
  returned get hget := ((h.readers u).returned get (hphase ▸ hget)).step h hs

/-- The reader that has not taken the step. -/
theorem readerInv_other (h : CellInv s) (hs : CellStep s a s') (hu : a.actor ≠ some u) : ReaderInv s' u := by
  have hinv := h.readers u
  have hne : ∀ {t : θ}, a.actor = some t → u ≠ t := fun ht heq => hu (heq ▸ ht)
  have hs' := hs
  cases hs with
  | call hph =>
    exact .frame hs' h (setPhase_phase_of_ne (hne rfl)) (Function.update_of_ne (hne rfl) ..) Iff.rfl hinv.creating
      hinv.missed
  | enter hph hlock =>
    refine .frame hs' h (setPhase_phase_of_ne (hne rfl)) rfl ?_ hinv.creating hinv.missed
    rw [hlock]
    exact ⟨fun heq => absurd (Option.some.inj heq).symm (hne rfl), nofun⟩
  | @create t o hph hfresh =>
    refine .frame hs' h (setPhase_phase_of_ne (hne rfl)) rfl Iff.rfl (fun hcreating => ?_) nofun
    -- both would have the lock
    have ht := (h.readers t).holder.mp (by rw [hph]; rfl)
    have hholder := hinv.holder.mp (by rw [hcreating]; rfl)
    exact absurd (Option.some.inj (hholder.symm.trans ht)) (hne rfl)
  | @leave t hph =>
    refine .frame hs' h (setPhase_phase_of_ne (hne rfl)) rfl ?_ hinv.creating hinv.missed
    rw [(h.readers t).holder.mp (by rw [hph]; rfl)]
    exact ⟨nofun, fun heq => absurd (Option.some.inj heq).symm (hne rfl)⟩
  | reset =>
    refine .frame hs' h rfl rfl Iff.rfl (fun _ => rfl) fun _ _ => ?_
    show s.began u < (s.dropped ++ [s.value]).length
    rw [List.length_append]
    exact Nat.lt_succ_of_le hinv.began_le
  | readFull | readEmpty | checkFull | checkEmpty | reread | take =>
    exact .frame hs' h (setPhase_phase_of_ne (hne rfl)) rfl Iff.rfl hinv.creating hinv.missed

/-- The reader that has taken the step. -/
theorem readerInv_own (h : CellInv s) (hs : CellStep s a s') (ht : a.actor = some t) : ReaderInv s' t := by
  have hinv := h.readers t
  have hholder := hinv.holder
  cases hs with
  | call hph =>
    cases ht
    rw [hph] at hholder
    refine readerInv_at setPhase_phase_self hholder nofun ?_ nofun nofun
    exact (Function.update_self t s.epoch s.began).le
  | readFull hph hvalue =>
    cases ht
    rw [hph] at hholder
    exact readerInv_at setPhase_phase_self hholder nofun hinv.began_le
      (fun _ hnone => by rw [show s.value = none from hnone] at hvalue; cases hvalue) nofun
  | readEmpty hph hvalue =>
    cases ht
    rw [hph] at hholder
    exact readerInv_at setPhase_phase_self hholder nofun hinv.began_le nofun nofun
  | enter hph hlock =>
    cases ht
    exact readerInv_at setPhase_phase_self ⟨fun _ => rfl, fun _ => rfl⟩ nofun hinv.began_le nofun nofun
  | checkFull hph hvalue =>
    cases ht
    rw [hph] at hholder
    exact readerInv_at setPhase_phase_self hholder nofun hinv.began_le
      (fun _ hnone => by rw [show s.value = none from hnone] at hvalue; cases hvalue) nofun
  | checkEmpty hph hvalue =>
    cases ht
    rw [hph] at hholder
    exact readerInv_at setPhase_phase_self hholder (fun _ => hvalue) hinv.began_le nofun nofun
  | create hph hfresh =>
    cases ht
    rw [hph] at hholder
    exact readerInv_at setPhase_phase_self hholder nofun hinv.began_le nofun nofun
  | leave hph =>
    cases ht
    have hmissed := hinv.missed (by rw [hph]; rfl)
    exact readerInv_at setPhase_phase_self ⟨nofun, nofun⟩ nofun hinv.began_le (fun _ => hmissed) nofun
  | reread hph =>
    cases ht
    rw [hph] at hholder
    refine readerInv_at setPhase_phase_self hholder nofun hinv.began_le nofun ?_
    rintro get ⟨⟩
    exact (hinv.reread hph).step h (.reread hph)
  | take hph =>
    cases ht
    rw [hph] at hholder
    exact readerInv_at setPhase_phase_self hholder nofun hinv.began_le nofun nofun
  | reset => cases ht

theorem made_step (h : CellInv s) (hs : CellStep s a s') :
    s'.made = (s'.dropped ++ [s'.value]).reduceOption ∧ s'.made.Nodup := by
  cases hs with
  | @create t o hph hfresh =>
    have hempty := (h.readers t).creating hph
    have hmade := h.made
    rw [List.reduceOption_append, List.reduceOption_singleton, hempty, Option.toList_none,
      List.append_nil] at hmade
    refine ⟨?_, List.nodup_append.mpr ⟨h.nodup, List.nodup_singleton o, ?_⟩⟩
    · show s.made ++ [o] = (s.dropped ++ [some o]).reduceOption
      rw [List.reduceOption_append, List.reduceOption_singleton, hmade]
      rfl
    · rintro x hx y hy rfl
      exact hfresh (List.mem_singleton.mp hy ▸ hx)
  | reset =>
    refine ⟨?_, h.nodup⟩
    show s.made = ((s.dropped ++ [s.value]) ++ [none]).reduceOption
    rw [List.reduceOption_append, List.reduceOption_singleton, Option.toList_none, List.append_nil]
    exact h.made
  | _ => exact ⟨h.made, h.nodup⟩

theorem cellInv_step (h : CellInv s) (hs : CellStep s a s') : CellInv s' where
  readers u := by
    by_cases hu : a.actor = some u
    · exact readerInv_own h hs hu
    · exact readerInv_other h hs hu
  made := (made_step h hs).1
  nodup := (made_step h hs).2

/-! ## A reader alone -/

/-- The steps of a reader that no one interferes with. `o` is the object that it makes if it has to. -/
def alone (s : Cell θ O) (t : θ) (o : O) : List (CellAction θ O) :=
  if s.value.isSome then [.call t, .read t, .reread t]
  else [.call t, .read t, .enter t, .check t, .create t o, .leave t, .reread t]

/-- It returns what is in the cell, or else what it has put there. -/
theorem run_alone [DecidableEq O] (hph : s.phase t = .outside) (hlock : s.lock = none) (hfresh : o ∉ s.made) :
    ∃ s', (cellMachine θ O).run s (alone s t o) = some s' ∧
      s'.phase t = .returned ⟨s.epoch, s.epoch, some (s.value.getD o)⟩ ∧
      s'.value = some (s.value.getD o) ∧ s'.lock = none := by
  obtain ⟨value, lock, phase, began, dropped, made⟩ := s
  obtain rfl : lock = none := hlock
  have hstart : phase t = .outside := hph
  have hnew : o ∉ made := hfresh
  cases value with
  | none => simp [alone, cellMachine, Cell.setPhase, Cell.epoch, hstart, hnew]
  | some o' => simp [alone, cellMachine, Cell.setPhase, Cell.epoch, hstart]

end DoubleChecked
