import PingPong.Trace.StringBuilderPool

/-!
# Proofs: trace ids from pooled builders

A builder is in one place: it waits in the pool, or one running call has it (`ObjectPool.Owned`). So only
the call that has it changes its text, and the text is what this call has appended so far (`Fits`); what
waits is empty, because a call clears its builder before it gives it back.
-/

namespace PingPong.Trace.StringBuilderPool

variable {T B : Type} [DecidableEq T] {hostname : String} {acts : List (Action T B)}
  {a : Action T B} {s s' : State T B} {t t' : T} {sb c : B} {builders builders' : Builders B}
  {phase : Phase B} {drawnInt : Option Int} {source : Source}
  {got : ObjectPool B × Builders B}

/-! ## The state -/

theorem setPhase_phase_self : (s.setPhase t phase).phase t = phase := Function.update_self ..

theorem setPhase_phase_of_ne (h : t' ≠ t) : (s.setPhase t phase).phase t' = s.phase t' :=
  Function.update_of_ne h ..

/-- Who has which builder behind a step of one thread. -/
theorem builder_setPhase (s : State T B) (t : T) (phase : Phase B) :
    (fun t' => ((s.setPhase t phase).phase t').builder) =
      Function.update (fun t' => (s.phase t').builder) t phase.builder := by
  funext t'
  by_cases h : t' = t
  · rw [h, setPhase_phase_self, Function.update_self]
  · rw [setPhase_phase_of_ne h, Function.update_of_ne h]

/-! ## The int of a call -/

theorem drawn_concat (t : T) (acts : List (Action T B)) (a : Action T B) :
    drawn t (acts ++ [a]) = a.draw t (drawn t acts) :=
  List.foldl_concat ..

/-! ## The text of a builder -/

/-- What a call has appended to its builder, which draws the int `nextInt`. -/
def Phase.text (hostname : String) (nextInt : Int) : Phase B → String
  | appendedHostname _ => hostname
  | appendedDash _ => hostname ++ "-"
  | appendedInt _ => hostname ++ "-" ++ ToString.toString nextInt
  | read _ _ => hostname ++ "-" ++ ToString.toString nextInt
  | _ => ""

/-- The id that a call has read from its builder. -/
def Phase.traceId : Phase B → Option String
  | read _ traceId => some traceId
  | cleared _ traceId => some traceId
  | _ => none

def Phase.hasDrawn : Phase B → Bool
  | appendedInt _ => true
  | read _ _ => true
  | cleared _ _ => true
  | _ => false

/-- The builder of a call has the text of this call, and so has the id that it has read. -/
structure Fits (hostname : String) (drawnInt : Option Int) (builders : Builders B) (phase : Phase B)
    (nextInt : Int) : Prop where
  text : ∀ sb, phase.builder = some sb → builders sb = some (phase.text hostname nextInt)
  traceId : ∀ traceId, phase.traceId = some traceId →
    traceId = hostname ++ "-" ++ ToString.toString nextInt
  drew : phase.hasDrawn = true → drawnInt = some nextInt

/-- A call looks at its own builder only. -/
theorem Fits.congr {nextInt : Int} (h : Fits hostname drawnInt builders phase nextInt)
    (hsame : ∀ sb, phase.builder = some sb → builders' sb = builders sb) :
    Fits hostname drawnInt builders' phase nextInt where
  text sb hsb := by
    rw [hsame sb hsb]
    exact h.text sb hsb
  traceId := h.traceId
  drew := h.drew

theorem text_of_builder {nextInt : Int} (hphase : phase.builder = some sb)
    (htext : builders sb = some (phase.text hostname nextInt)) :
    ∀ c, phase.builder = some c → builders c = some (phase.text hostname nextInt) := by
  intro c hc
  rw [hphase] at hc
  cases hc
  exact htext

/-- A call that has drawn no int. -/
theorem Fits.undrawn {nextInt : Int}
    (htext : ∀ sb, phase.builder = some sb → builders sb = some (phase.text hostname nextInt))
    (hid : phase.traceId = none) (hdrew : phase.hasDrawn = false) :
    Fits hostname drawnInt builders phase nextInt where
  text := htext
  traceId traceId h := by rw [hid] at h; cases h
  drew h := by rw [hdrew] at h; cases h

/-! ## The invariant -/

structure BuilderInv (hostname : String) (acts : List (Action T B)) (s : State T B) : Prop where
  /-- Every builder is in one place. -/
  owned : s.pools.Owned fun t => (s.phase t).builder
  /-- The builders that wait are empty. -/
  idle_empty : ∀ sb ∈ s.pools.idle, s.builders sb = some ""
  /-- Every call has its own text. -/
  fits : ∀ t, ∃ nextInt, Fits hostname (drawn t acts) s.builders (s.phase t) nextInt

theorem builderInv_start : BuilderInv hostname [] (State.start : State T B) where
  owned := .empty
  idle_empty _ h := by cases h
  fits _ := ⟨0, .undrawn (fun _ h => by cases h) rfl rfl⟩

/-- No call has a builder that has not been made. -/
theorem BuilderInv.builder_ne (h : BuilderInv hostname acts s) (hnew : s.builders sb = none) (t : T) :
    (s.phase t).builder ≠ some sb := by
  intro hsb
  obtain ⟨nextInt, hfits⟩ := h.fits t
  rw [hfits.text sb hsb] at hnew
  cases hnew

/-- No such builder waits. -/
theorem BuilderInv.notMem_idle (h : BuilderInv hostname acts s) (hnew : s.builders sb = none) :
    sb ∉ s.pools.idle := by
  intro hsb
  rw [h.idle_empty sb hsb] at hnew
  cases hnew

/-- A step of a call that keeps its builder, and changes no other. -/
theorem BuilderInv.move (h : BuilderInv hostname acts s) (ht : (s.phase t).builder = some sb)
    (hphase : phase.builder = some sb) (hother : ∀ c, c ≠ sb → builders c = s.builders c)
    (hdraw : ∀ t', t' ≠ t → drawn t' (acts ++ [a]) = drawn t' acts)
    (hfits : ∃ nextInt, Fits hostname (drawn t (acts ++ [a])) builders phase nextInt) :
    BuilderInv hostname (acts ++ [a]) ((s.setBuilders builders).setPhase t phase) := by
  refine ⟨?_, ?_, ?_⟩
  · have hkept : Function.update (fun t' => (s.phase t').builder) t (some sb) =
        fun t' => (s.phase t').builder := by
      rw [← ht]
      exact Function.update_eq_self t _
    rw [builder_setPhase, hphase]
    show s.pools.Owned (Function.update (fun t' => (s.phase t').builder) t (some sb))
    rw [hkept]
    exact h.owned
  · intro c hc
    have hne : c ≠ sb := fun e => h.owned.idle_free t sb ht (e ▸ hc)
    show builders c = some ""
    rw [hother c hne]
    exact h.idle_empty c hc
  · intro t'
    by_cases htt : t' = t
    · rw [htt, setPhase_phase_self]
      exact hfits
    · rw [setPhase_phase_of_ne htt, hdraw t' htt]
      obtain ⟨nextInt, hfits'⟩ := h.fits t'
      refine ⟨nextInt, hfits'.congr fun c hc => hother c ?_⟩
      rintro rfl
      exact htt (h.owned.exclusive t' t c hc ht)

theorem BuilderInv.returning_eq {traceId : String} (h : BuilderInv hostname acts s)
    (hret : s.returning t = some traceId) :
    ∃ nextInt, drawn t acts = some nextInt ∧
      traceId = hostname ++ "-" ++ ToString.toString nextInt := by
  obtain ⟨nextInt, hfits⟩ := h.fits t
  unfold State.returning at hret
  split at hret
  · rename_i sb id ht
    cases hret
    rw [ht] at hfits
    exact ⟨nextInt, hfits.drew rfl, hfits.traceId traceId rfl⟩
  · cases hret

/-! ## The ids of a thread -/

/-- The int that a step draws for the thread `t`. -/
def Action.drawnBy (t : T) : Action T B → Option Int
  | appendInt t' nextInt => if t' = t then some nextInt else none
  | _ => none

/-- The ints that the thread has drawn. -/
def draws (t : T) (acts : List (Action T B)) : List Int := acts.filterMap (Action.drawnBy t)

theorem draw_eq_some {nextInt : Int} (h : a.draw t drawnInt = some nextInt) :
    a.drawnBy t = some nextInt ∨ a.drawnBy t = none ∧ drawnInt = some nextInt := by
  cases a with
  | getObject t' source sb =>
    by_cases htt : t' = t
    · simp only [Action.draw, if_pos htt] at h
      cases h
    · simp only [Action.draw, if_neg htt] at h
      exact Or.inr ⟨rfl, h⟩
  | appendInt t' n =>
    by_cases htt : t' = t
    · simp only [Action.draw, if_pos htt] at h
      exact Or.inl (by simp only [Action.drawnBy, if_pos htt, h])
    · simp only [Action.draw, if_neg htt] at h
      exact Or.inr ⟨by simp only [Action.drawnBy, if_neg htt], h⟩
  | _ => exact Or.inr ⟨rfl, h⟩

/-- The int of a call is the last one that its thread has drawn. -/
theorem getLast?_draws {nextInt : Int} (h : drawn t acts = some nextInt) :
    (draws t acts).getLast? = some nextInt := by
  induction acts using List.reverseRecOn with
  | nil => cases h
  | append_singleton acts a ih =>
    rw [drawn_concat] at h
    unfold draws at ih ⊢
    rw [List.filterMap_append]
    rcases draw_eq_some h with hdrawn | ⟨hdrawn, hbefore⟩
    · rw [List.filterMap_cons_some hdrawn, List.filterMap_nil, List.getLast?_concat]
    · rw [List.filterMap_cons_none hdrawn, List.filterMap_nil, List.append_nil]
      exact ih hbefore

variable [DecidableEq B]

/-! ## The pool -/

variable {pools : ObjectPool B}

/-- A builder comes from the pool as it is, or it is made now, by the pool or elsewhere. -/
theorem getObject_cases (h : getObject source sb pools builders = some got) :
    pools.take sb = some got.1 ∧ got.2 = builders ∨
      builders sb = none ∧ (pools.make maxTotal sb = some got.1 ∨ got.1 = pools) ∧
        got.2 = new builders sb := by
  cases source with
  | idle =>
    obtain ⟨taken, htake, rfl⟩ := Option.map_eq_some_iff.mp h
    exact Or.inl ⟨htake, rfl⟩
  | created =>
    simp only [getObject] at h
    split at h
    · rename_i hnew
      obtain ⟨made, hmake, rfl⟩ := Option.map_eq_some_iff.mp h
      exact Or.inr ⟨hnew, Or.inl hmake, rfl⟩
    · cases h
  | fallback =>
    simp only [getObject] at h
    split at h
    · rename_i hnew
      cases h
      exact Or.inr ⟨hnew, Or.inr rfl, rfl⟩
    · cases h

/-- The pool takes a builder back or refuses it. -/
theorem returnObject_cases (pools : ObjectPool B) (sb : B) :
    pools.giveBack maxIdle sb = some (returnObject pools sb) ∨
      pools.giveBack maxIdle sb = none ∧ returnObject pools sb = pools := by
  unfold returnObject
  cases hgive : pools.giveBack maxIdle sb with
  | none => exact Or.inr ⟨rfl, rfl⟩
  | some given => exact Or.inl rfl

/-! ## The steps -/

/-- The steps of the machine, one constructor for each label. -/
inductive PoolStep (hostname : String) (s : State T B) : Action T B → State T B → Prop where
  | got {t : T} {source : Source} {sb : B} {got : ObjectPool B × Builders B} (h : s.phase t = .outside)
      (hgot : StringBuilderPool.getObject source sb s.pools s.builders = some got) :
      PoolStep hostname s (.getObject t source sb)
        (((s.setPools got.1).setBuilders got.2).setPhase t (.borrowed sb))
  | appendedHostname {t : T} {sb : B} (h : s.phase t = .borrowed sb) :
      PoolStep hostname s (.appendHostname t)
        ((s.setBuilders (append s.builders sb hostname)).setPhase t (.appendedHostname sb))
  | appendedDash {t : T} {sb : B} (h : s.phase t = .appendedHostname sb) :
      PoolStep hostname s (.appendDash t)
        ((s.setBuilders (append s.builders sb "-")).setPhase t (.appendedDash sb))
  | appendedInt {t : T} {sb : B} (nextInt : Int) (h : s.phase t = .appendedDash sb) :
      PoolStep hostname s (.appendInt t nextInt)
        ((s.setBuilders (append s.builders sb (ToString.toString nextInt))).setPhase t (.appendedInt sb))
  | read {t : T} {sb : B} {traceId : String} (h : s.phase t = .appendedInt sb)
      (htext : s.builders sb = some traceId) :
      PoolStep hostname s (.toString t) (s.setPhase t (.read sb traceId))
  | cleared {t : T} {sb : B} {traceId : String} (h : s.phase t = .read sb traceId) :
      PoolStep hostname s (.clear t)
        ((s.setBuilders (StringBuilderPool.clear s.builders sb)).setPhase t (.cleared sb traceId))
  | returned {t : T} {sb : B} {traceId : String} (h : s.phase t = .cleared sb traceId) :
      PoolStep hostname s (.returnObject t)
        ((s.setPools (StringBuilderPool.returnObject s.pools sb)).setPhase t .outside)

/-- Every step of the machine is one of the listed ones. -/
theorem poolStep_of_step (h : (machine hostname).step s a = some s') : PoolStep hostname s a s' := by
  cases a with
  | getObject t source sb =>
    simp only [machine] at h
    split at h
    · rename_i hph
      obtain ⟨got, hgot, rfl⟩ := Option.map_eq_some_iff.mp h
      exact .got hph hgot
    · cases h
  | appendHostname t =>
    simp only [machine] at h
    split at h
    · rename_i sb hph
      cases h
      exact .appendedHostname hph
    · cases h
  | appendDash t =>
    simp only [machine] at h
    split at h
    · rename_i sb hph
      cases h
      exact .appendedDash hph
    · cases h
  | appendInt t nextInt =>
    simp only [machine] at h
    split at h
    · rename_i sb hph
      cases h
      exact .appendedInt nextInt hph
    · cases h
  | toString t =>
    simp only [machine] at h
    split at h
    · rename_i sb hph
      obtain ⟨traceId, htext, rfl⟩ := Option.map_eq_some_iff.mp h
      exact .read hph htext
    · cases h
  | clear t =>
    simp only [machine] at h
    split at h
    · rename_i sb traceId hph
      cases h
      exact .cleared hph
    · cases h
  | returnObject t =>
    simp only [machine] at h
    split at h
    · rename_i sb traceId hph
      cases h
      exact .returned hph
    · cases h

/-! ## The steps and the invariant -/

theorem append_self {before : String} (h : builders sb = some before) (text : String) :
    append builders sb text sb = some (before ++ text) := by
  unfold append
  rw [Function.update_self, h]
  rfl

theorem append_of_ne (h : c ≠ sb) (text : String) : append builders sb text c = builders c :=
  Function.update_of_ne h ..

/-- `getObject` gives an empty builder that nobody has, and changes no other. -/
theorem BuilderInv.getObject_spec (h : BuilderInv hostname acts s) (ht : s.phase t = .outside)
    (hgot : getObject source sb s.pools s.builders = some got) :
    got.1.Owned (Function.update (fun t' => (s.phase t').builder) t (some sb)) ∧
      got.2 sb = some "" ∧ (∀ c, c ≠ sb → got.2 c = s.builders c) ∧
      ∀ c ∈ got.1.idle, c ∈ s.pools.idle := by
  have hfree : (s.phase t).builder = none := by rw [ht]; rfl
  rcases getObject_cases hgot with ⟨htake, hsame⟩ | ⟨hnew, hpools, hmade⟩
  · obtain ⟨hsb, hidle, -⟩ := ObjectPool.take_eq_some htake
    rw [hsame]
    refine ⟨h.owned.take hfree htake, h.idle_empty sb hsb, fun _ _ => rfl, fun c hc => ?_⟩
    rw [hidle] at hc
    exact List.mem_of_mem_erase hc
  · have hfresh : got.2 sb = some "" ∧ ∀ c, c ≠ sb → got.2 c = s.builders c := by
      rw [hmade]
      exact ⟨Function.update_self .., fun c hc => Function.update_of_ne hc ..⟩
    rcases hpools with hmake | hpools
    · obtain ⟨-, hidle, -⟩ := ObjectPool.make_eq_some hmake
      refine ⟨h.owned.make hfree (h.builder_ne hnew) hmake, hfresh.1, hfresh.2, fun c hc => ?_⟩
      rw [hidle] at hc
      exact hc
    · rw [hpools]
      exact ⟨h.owned.outside hfree (h.builder_ne hnew) (h.notMem_idle hnew), hfresh.1, hfresh.2,
        fun _ hc => hc⟩

/-- A call begins. -/
theorem BuilderInv.get (h : BuilderInv hostname acts s) (ht : s.phase t = .outside)
    (hgot : getObject source sb s.pools s.builders = some got) :
    BuilderInv hostname (acts ++ [.getObject t source sb])
      (((s.setPools got.1).setBuilders got.2).setPhase t (.borrowed sb)) := by
  obtain ⟨howned, hempty, hother, hidle⟩ := h.getObject_spec ht hgot
  refine ⟨?_, ?_, ?_⟩
  · rw [builder_setPhase]
    exact howned
  · intro c hc
    show got.2 c = some ""
    by_cases hcsb : c = sb
    · rw [hcsb]
      exact hempty
    · rw [hother c hcsb]
      exact h.idle_empty c (hidle c hc)
  · intro t'
    by_cases htt : t' = t
    · rw [htt, setPhase_phase_self]
      exact ⟨0, .undrawn (text_of_builder rfl hempty) rfl rfl⟩
    · rw [setPhase_phase_of_ne htt, drawn_concat, Action.draw, if_neg (Ne.symm htt)]
      obtain ⟨nextInt, hfits⟩ := h.fits t'
      refine ⟨nextInt, hfits.congr fun c hc => hother c ?_⟩
      rintro rfl
      have hc' : Function.update (fun t' => (s.phase t').builder) t (some c) t' = some c := by
        rw [Function.update_of_ne htt]
        exact hc
      exact htt (howned.exclusive t' t c hc' (Function.update_self ..))

/-- A call ends: its builder, which is empty, goes back to the pool or is refused. -/
theorem BuilderInv.giveBack {traceId : String} (h : BuilderInv hostname acts s)
    (ht : s.phase t = .cleared sb traceId) :
    BuilderInv hostname (acts ++ [.returnObject t])
      ((s.setPools (returnObject s.pools sb)).setPhase t .outside) := by
  have hsb : (s.phase t).builder = some sb := by rw [ht]; rfl
  have hempty : s.builders sb = some "" := by
    obtain ⟨nextInt, hfits⟩ := h.fits t
    rw [hfits.text sb hsb, ht]
    rfl
  have hback : (returnObject s.pools sb).Owned (Function.update (fun t' => (s.phase t').builder) t none) ∧
      ∀ c ∈ (returnObject s.pools sb).idle, c = sb ∨ c ∈ s.pools.idle := by
    rcases returnObject_cases s.pools sb with hgive | ⟨hrefused, hsame⟩
    · exact ⟨h.owned.giveBack hsb hgive, fun c hc => ObjectPool.mem_idle_of_giveBack hgive hc⟩
    · rw [hsame]
      exact ⟨h.owned.refuse hsb hrefused, fun _ hc => Or.inr hc⟩
  refine ⟨?_, ?_, ?_⟩
  · rw [builder_setPhase]
    exact hback.1
  · intro c hc
    show s.builders c = some ""
    rcases hback.2 c hc with rfl | hc
    · exact hempty
    · exact h.idle_empty c hc
  · intro t'
    by_cases htt : t' = t
    · rw [htt, setPhase_phase_self]
      exact ⟨0, .undrawn (fun _ hc => by cases hc) rfl rfl⟩
    · rw [setPhase_phase_of_ne htt, drawn_concat]
      exact h.fits t'

/-- Every step keeps the invariant. -/
theorem builderInv_step (h : BuilderInv hostname acts s) (hs : (machine hostname).step s a = some s') :
    BuilderInv hostname (acts ++ [a]) s' := by
  cases poolStep_of_step hs with
  | got ht hgot => exact h.get ht hgot
  | @appendedHostname t sb ht =>
    obtain ⟨nextInt, hfits⟩ := h.fits t
    rw [ht] at hfits
    refine h.move (by rw [ht]; rfl) rfl (fun c hc => append_of_ne hc _) (fun t' _ => drawn_concat ..)
      ⟨nextInt, .undrawn (text_of_builder rfl ?_) rfl rfl⟩
    rw [append_self (hfits.text sb rfl)]
    exact congrArg some (String.empty_append ..)
  | @appendedDash t sb ht =>
    obtain ⟨nextInt, hfits⟩ := h.fits t
    rw [ht] at hfits
    refine h.move (by rw [ht]; rfl) rfl (fun c hc => append_of_ne hc _) (fun t' _ => drawn_concat ..)
      ⟨nextInt, .undrawn (text_of_builder rfl ?_) rfl rfl⟩
    exact append_self (hfits.text sb rfl) _
  | @appendedInt t sb nextInt ht =>
    obtain ⟨_, hfits⟩ := h.fits t
    rw [ht] at hfits
    refine h.move (by rw [ht]; rfl) rfl (fun c hc => append_of_ne hc _) (fun t' htt => ?_)
      ⟨nextInt, text_of_builder rfl ?_, fun _ hid => ?_, fun _ => ?_⟩
    · rw [drawn_concat, Action.draw, if_neg (Ne.symm htt)]
    · exact append_self (hfits.text sb rfl) _
    · cases hid
    · rw [drawn_concat, Action.draw, if_pos rfl]
  | @read t sb traceId ht htext =>
    obtain ⟨nextInt, hfits⟩ := h.fits t
    rw [ht] at hfits
    refine h.move (by rw [ht]; rfl) rfl (fun _ _ => rfl) (fun t' _ => drawn_concat ..)
      ⟨nextInt, hfits.text, fun id hid => ?_, fun _ => ?_⟩
    · obtain rfl : traceId = id := Option.some.inj hid
      rw [hfits.text sb rfl] at htext
      exact (Option.some.inj htext).symm
    · rw [drawn_concat]
      exact hfits.drew rfl
  | @cleared t sb traceId ht =>
    obtain ⟨nextInt, hfits⟩ := h.fits t
    rw [ht] at hfits
    refine h.move (by rw [ht]; rfl) rfl (fun c hc => Function.update_of_ne hc ..)
      (fun t' _ => drawn_concat ..) ⟨nextInt, text_of_builder rfl ?_, hfits.traceId, fun _ => ?_⟩
    · exact Function.update_self ..
    · rw [drawn_concat]
      exact hfits.drew rfl
  | returned ht => exact h.giveBack ht

theorem builderInv_run (h : (machine hostname).run State.start acts = some s) :
    BuilderInv hostname acts s :=
  StepMachine.run_history (I := BuilderInv hostname) builderInv_start
    (fun _ _ _ _ _ hI hs => builderInv_step hI hs) h

/-! ## The ids -/

/-- In every run of any number of threads, a call returns the host name and the int it has drawn itself,
the builders that wait in the pool are empty, and each borrowed builder belongs to one running call. -/
theorem never_mixes (h : (machine hostname).run State.start acts = some s) :
    NeverMixes hostname acts s := by
  have hI := builderInv_run h
  refine ⟨fun t traceId hret => hI.returning_eq hret, hI.idle_empty, ?_, hI.owned.exclusive⟩
  intro sb hsb
  obtain ⟨t, ht⟩ := hI.owned.lent_held sb hsb
  exact ⟨t, ht, fun t' ht' => hI.owned.exclusive t' t sb ht' ht⟩

/-- Two calls whose steps alternate. The pool has no builder for the second one. -/
def twoCalls : List (Action Bool ℕ) :=
  [.getObject false .created 0, .getObject true .fallback 1, .appendHostname false, .appendHostname true,
    .appendDash true, .appendInt true (-7), .appendDash false, .appendInt false 42, .toString true,
    .toString false, .clear true, .returnObject true, .clear false]

theorem never_mixes_twoCalls : ∃ s, (machine "host").run State.start twoCalls = some s ∧
    s.returning false = some "host-42" ∧ NeverMixes "host" twoCalls s :=
  ⟨_, rfl, by decide, never_mixes rfl⟩

/-! ## The ids that a thread returns -/

/-- A call returns what `getGenerateTraceId` gives a thread that has drawn as many ints before. -/
theorem getGenerateTraceId_of_run {g : TraceIdUtil} {u : TraceThread} {traceId : String}
    (h : (machine g.hostname).run State.start acts = some s) (hret : s.returning t = some traceId)
    (hints : ∀ k n, (draws t acts)[k]? = some n → n = g.nextInt k)
    (hdrawn : (draws t acts).length = u.drawn + 1) : (u.getGenerateTraceId g).1 = traceId := by
  obtain ⟨nextInt, hlast, rfl⟩ := (builderInv_run h).returning_eq hret
  have hlast' := getLast?_draws hlast
  rw [List.getLast?_eq_getElem?, hdrawn, Nat.add_sub_cancel] at hlast'
  rw [hints u.drawn nextInt hlast']
  rfl

/-! ## The limits of the pool -/

theorem within_step (h : s.pools.Within maxTotal maxIdle)
    (hs : (machine hostname).step s a = some s') : s'.pools.Within maxTotal maxIdle := by
  cases poolStep_of_step hs with
  | @got t source sb got ht hgot =>
    show got.1.Within maxTotal maxIdle
    rcases getObject_cases hgot with ⟨htake, -⟩ | ⟨-, hmake | hsame, -⟩
    · exact h.take htake
    · exact h.make hmake
    · rw [hsame]
      exact h
  | @returned t sb traceId ht =>
    show (returnObject s.pools sb).Within maxTotal maxIdle
    rcases returnObject_cases s.pools sb with hgive | ⟨-, hsame⟩
    · exact h.giveBack hgive
    · rw [hsame]
      exact h
  | _ => exact h

/-- The pool never has more builders than it is configured for. -/
theorem within_run (h : (machine hostname).run (State.start : State T B) acts = some s) :
    s.pools.Within maxTotal maxIdle :=
  StepMachine.run_invariant (fun _ _ _ hI hs => within_step hI hs) ⟨Nat.zero_le _, Nat.zero_le _⟩ h

end PingPong.Trace.StringBuilderPool
