import PingPong.Exchange.Proofs.EndToEndProofs
import PingPong.Exchange.Rest
import PingPong.Ping.Proofs.ProgressProofs
import Mathlib.Algebra.BigOperators.Group.Finset.Basic
import Mathlib.Algebra.Order.BigOperators.Group.Finset

/-!
# Proofs: coming to rest

`World.work` counts the steps that are left: those of the calls that run, three for each request on the wire,
two for each request with Pong and one for each message at the broker. Every step that goes on with these
takes one away (`work_worldStep`). And as long as something is left, someone can go on: Pong with a request,
the receiver with a message, or else a call, whose request has been answered (`exists_goesOn`).
-/

namespace PingPong.Exchange

open Feign Ping Pong Trace Other

variable {P T D : Type} {v : Services P T D}
  {w w' : World P T D} {a : WorldAction P T D} {c : P × T} {call : Call} {messages : Messages}
  {rows : List PongMessage} {thread : P × T → TraceThread} {pongThread : D → TraceThread}
  {actions : List (WorldAction P T D)} {running : Finset (P × T)}

/-! ## The work of a call -/

/-- What the request of a call costs when it has left. -/
def reserve : Phase String → ℕ
  | .scanning _ _ | .locked _ | .sending _ _ => 3
  | _ => 0

/-- The steps of a call, and of its request and its message when it has left. -/
def World.callWork (w : World P T D) (c : P × T) : ℕ :=
  if (w.calls c).isSome then (w.ping.phase c).work + reserve (w.ping.phase c) + 1 else 0

theorem reserve_scan_le (fs : List String) : reserve (.scan fs) ≤ 3 := by
  cases fs with
  | nil => exact Nat.zero_le _
  | cons => exact le_rfl

theorem work_of_canCall {ph : Phase String} (h : ph.canCall = true) : ph.work = 0 := by
  cases ph <;> first | rfl | cases h

theorem callWork_finished (hcall : w.calls c = some call) (hcall' : w'.calls c = none) :
    w'.callWork c + 0 < w.callWork c := by
  rw [World.callWork, World.callWork, hcall, hcall']
  exact Nat.succ_pos _

section

variable [DecidableEq P] [DecidableEq T]

/-- A step of a call sets nothing aside. -/
theorem reserve_step {channels : List String} {s s' : State P T String} {b : Action P T}
    (hs : SendStep channels s b s') (hb : b ≠ .call c) (hc : b.actor = some c) :
    reserve (s'.phase c) ≤ reserve (s.phase c) := by
  cases hs with
  | call _ =>
    cases hc
    exact absurd rfl hb
  | destroyed p => cases hc
  | skipped hph _ =>
    cases hc
    rw [setPhase_phase_self, hph]
    exact reserve_scan_le _
  | granted hph _ | lookedUp _ hph | lookupThrew hph | departed hph | answerThrew hph | answered _ hph
  | unlocked hph =>
    cases hc
    rw [setPhase_phase_self, hph]
    simp [reserve]

/-- A call that takes a step is running, and it has less to do behind it. -/
theorem callWork_lt (hkept : CallKept v messages w c) {b : Action P T}
    (hs : (sendMachine P T v.channels).step w.ping b = some w'.ping) (hb : b ≠ .call c) (hc : b.actor = some c) :
    (w.calls c).isSome = true ∧ w'.callWork c < w.callWork c := by
  have hstep := sendStep_of_step hs
  have hwork := work_step hb hc hstep
  have hreserve := reserve_step hstep hb hc
  have hcall : (w.calls c).isSome = true := by
    cases hcall : w.calls c with
    | none =>
      have hzero := work_of_canCall (hkept.idle hcall)
      omega
    | some call => rfl
  refine ⟨hcall, ?_⟩
  unfold World.callWork
  rw [hcall, if_pos rfl]
  split <;> omega

/-- The request that leaves is paid for by its call. -/
theorem callWork_departed {f : String} {msg : Option String} (hcall : w.calls c = some call)
    (hphase : w.ping.phase c = .sending f msg)
    (hs : (sendMachine P T v.channels).step w.ping (.depart c) = some w'.ping) :
    w'.callWork c + 3 < w.callWork c := by
  have hphase' : w'.ping.phase c = .awaiting f msg := by
    have hstep := sendStep_of_step hs
    generalize w'.ping = ping at hstep
    cases hstep with
    | departed h =>
      rw [hphase] at h
      cases h
      exact setPhase_phase_self _
  rw [World.callWork, World.callWork, hcall, hphase, hphase']
  split
  · exact (by decide : 2 + 0 + 1 + 3 < 7)
  · exact (by decide : 0 + 3 < 7)

end

/-! ## The work of Pong and of the broker -/

def Transit.work (s : Transit (P × T) D) : ℕ := 3 * s.wire.length + 2 * s.handling.length

/-- A step of Pong leaves less to do than the message that it publishes. -/
theorem transit_work [DecidableEq D] {s s' : Transit (P × T) D} {b : TransitAction (P × T) D}
    (hs : TransitStep v.pong s b s') (hb : ∀ c msg request, b ≠ .depart c msg request) :
    s'.work + s'.published.length < s.work + s.published.length := by
  have hconcat : ∀ h : Handled, ((s.handled ++ [h]).filterMap Handled.published).length ≤
      (s.handled.filterMap Handled.published).length + 1 := by
    intro h
    rw [List.filterMap_append, List.length_append]
    exact Nat.add_le_add_left (List.length_filterMap_le ..) _
  cases hs with
  | departed c msg request => exact absurd rfl (hb c msg request)
  | @admitted d i now departed hwire _ _ _ _ =>
    show 3 * (s.wire.erase i).length + 2 * ((d, i) :: s.handling).length + s.published.length < _
    have hlength := List.length_erase_of_mem hwire
    have hpos := List.length_pos_of_mem hwire
    rw [List.length_cons, Transit.work]
    omega
  | @rejected d i now departed code hwire _ _ _ _ =>
    show 3 * (s.wire.erase i).length + 2 * s.handling.length +
      ((s.handled ++ [_]).filterMap Handled.published).length < _
    have hlength := List.length_erase_of_mem hwire
    have hpos := List.length_pos_of_mem hwire
    have hpublished : ((s.handled ++ [Handled.mk i (.throttled code) none]).filterMap Handled.published).length =
        s.published.length := by
      rw [List.filterMap_append]
      exact congrArg List.length (List.append_nil _)
    rw [hpublished, Transit.work]
    omega
  | @responded d i works departed hhandling _ =>
    obtain ⟨t, outcome, published, heq, -⟩ := respond_eq s v.pong departed.request d i works
    rw [heq]
    show 3 * s.wire.length + 2 * (s.handling.erase (d, i)).length +
      ((s.handled ++ [_]).filterMap Handled.published).length < _
    have hlength := List.length_erase_of_mem hhandling
    have hpos := List.length_pos_of_mem hhandling
    have hpublished := hconcat ⟨i, outcome, published⟩
    rw [Transit.work, Transit.published]
    omega

/-- Messages that are published wait. -/
theorem run_publish {broker broker' : Broker} {msgs : List MqMessageDTO}
    (h : Broker.machine.run broker (msgs.map .publish) = some broker') :
    broker' = { broker with waiting := broker.waiting ++ msgs } := by
  induction msgs generalizing broker with
  | nil =>
    cases h
    rw [List.append_nil]
  | cons msg msgs ih =>
    obtain ⟨u, hu, hrest⟩ := StepMachine.run_cons_eq_some.mp h
    cases Broker.brokerStep_of_step hu
    rw [ih hrest]
    simp only [List.append_assoc, List.singleton_append]

/-- A request that has left has its entry. -/
theorem sent_of_place (h : TransitKept v.pong pongThread w.transit) {i : ℕ}
    (hi : i ∈ w.transit.wire ++ w.transit.handling.map Prod.snd ++ w.transit.handled.map Handled.number) :
    ∃ departed, w.transit.sent[i]? = some departed :=
  ⟨_, List.getElem?_eq_getElem (List.mem_range.mp (h.places.mem_iff.mp hi))⟩

theorem exists_stepPong [DecidableEq D] {b : TransitAction (P × T) D} {transit : Transit (P × T) D}
    (hs : (transitMachine (P × T) v.pong).step w.transit b = some transit) : ∃ w', w.stepPong v b = some w' := by
  unfold World.stepPong
  rw [hs]
  cases hpublished : transit.published.drop w.transit.published.length with
  | nil => exact ⟨{ w with transit }, by simp [hpublished]⟩
  | cons msg rest => exact ⟨_, by simp [hpublished, Broker.machine]; rfl⟩

variable [DecidableEq P] [DecidableEq T] [DecidableEq D]

/-! ## All the work -/

def World.work (w : World P T D) (running : Finset (P × T)) : ℕ :=
  ∑ c ∈ running, w.callWork c + w.transit.work + w.broker.waiting.length

/-- The other calls have as much to do as before. -/
theorem sum_callWork_lt (hs : WorldStep v w a w') (hc : a.actor = some c) (hmem : c ∈ running) {k : ℕ}
    (h : w'.callWork c + k < w.callWork c) :
    ∑ c ∈ running, w'.callWork c + k < ∑ c ∈ running, w.callWork c := by
  have hothers : ∑ c' ∈ running.erase c, w'.callWork c' = ∑ c' ∈ running.erase c, w.callWork c' := by
    refine Finset.sum_congr rfl fun c' hc' => ?_
    have hne : a.actor ≠ some c' := by
      rw [hc]
      exact fun heq => (Finset.mem_erase.mp hc').1 (Option.some.inj heq).symm
    obtain ⟨hcalls, -, hphase⟩ := frame_step hs hne
    rw [World.callWork, World.callWork, hcalls, hphase]
  rw [← Finset.add_sum_erase running w'.callWork hmem, ← Finset.add_sum_erase running w.callWork hmem, hothers]
  omega

theorem sum_callWork_eq (running : Finset (P × T)) (hs : WorldStep v w a w') (hc : a.actor = none) :
    ∑ c ∈ running, w'.callWork c = ∑ c ∈ running, w.callWork c := by
  refine Finset.sum_congr rfl fun c _ => ?_
  obtain ⟨hcalls, -, hphase⟩ := frame_step hs (c := c) (by rw [hc]; exact nofun)
  rw [World.callWork, World.callWork, hcalls, hphase]

/-- Every step that goes on takes some of the work away. -/
theorem work_worldStep (hruns : WorldRuns v messages rows pongThread w)
    (hcalls : ∀ c, CallKept v messages w c) (hrunning : ∀ c, (w.calls c).isSome = true → c ∈ running)
    (hs : WorldStep v w a w') (ha : a.goesOn = true) : w'.work running < w.work running := by
  have hs' := hs
  -- a step of a call on its own
  have hown : ∀ {c : P × T} {b : Action P T}, a.actor = some c →
      (sendMachine P T v.channels).step w.ping b = some w'.ping → b ≠ .call c → b.actor = some c →
      w'.transit = w.transit → w'.broker = w.broker → w'.work running < w.work running := by
    intro c b hc hb hne hactor htransit hbroker
    obtain ⟨hcall, hless⟩ := callWork_lt (hcalls c) hb hne hactor
    have hsum := sum_callWork_lt hs' hc (hrunning c hcall) (k := 0) hless
    rw [World.work, World.work, htransit, hbroker]
    omega
  cases hs with
  | checked | created | posted | called | destroyed => cases ha
  | tried hcall hs => exact hown rfl hs nofun rfl rfl rfl
  | absent hlookup _ _ hs hstore => exact absurd (hruns.lookup hlookup hs) (hstore.2 _)
  | duplicate hlookup _ hs hstore _ =>
    rw [hruns.lookup hlookup hs] at hstore
    cases hstore
  | found hlookup hcall hs _ hp => exact hown (actor_of_lookup hlookup) hp nofun rfl rfl rfl
  | lookupFailed _ hs => exact hown rfl hs nofun rfl rfl rfl
  | @departed c call f msg ping hcall hphase hs =>
    have hsum := sum_callWork_lt hs' rfl (hrunning c (by rw [hcall]; rfl)) (callWork_departed hcall hphase hs)
    have hwire : (w.transit.depart c msg (v.request c msg (w.thread c))).work = w.transit.work + 3 := by
      show 3 * (w.transit.wire ++ [_]).length + 2 * w.transit.handling.length = _
      rw [List.length_append, List.length_singleton, Transit.work]
      omega
    show _ + (w.transit.depart c msg (v.request c msg (w.thread c))).work + w.broker.waiting.length < _
    rw [World.work, hwire]
    omega
  | @pong _ b transit broker msgs hpong hs hpublished hb =>
    have hactor : a.actor = none := by cases a <;> first | rfl | cases hpong
    have hdepart : ∀ c msg request, b ≠ .depart c msg request := by
      rintro c msg request rfl
      cases a <;> cases hpong
    have hsum := sum_callWork_eq running hs' hactor
    have hwork := transit_work (transitStep_of_step hs) hdepart
    obtain rfl := run_publish hb
    rw [hpublished, List.length_append] at hwork
    show _ + transit.work + (w.broker.waiting ++ msgs).length < _
    rw [World.work, List.length_append]
    omega
  | answered hcall _ _ _ _ hs => exact hown rfl hs nofun rfl rfl rfl
  | answerFailed hs => exact hown rfl hs nofun rfl rfl rfl
  | unlocked hs => exact hown rfl hs nofun rfl rfl rfl
  | @finished c call exit hcall hexit =>
    have hsum := sum_callWork_lt hs' rfl (hrunning c (by rw [hcall]; rfl))
      (callWork_finished hcall (Function.update_self ..))
    show _ + w.transit.work + w.broker.waiting.length < _
    rw [World.work]
    omega
  | @delivered i works broker hs =>
    have hsum := sum_callWork_eq running hs' rfl
    show _ + w.transit.work + broker.waiting.length < _
    cases Broker.brokerStep_of_step hs with
    | @delivered _ _ msg hmsg =>
      have hi := (List.getElem?_eq_some_iff.mp hmsg).1
      have hlength : (w.broker.waiting.eraseIdx i).length + 1 = w.broker.waiting.length := by
        rw [List.length_eraseIdx_of_lt hi]
        omega
      rw [World.work]
      show _ + w.transit.work + (w.broker.waiting.eraseIdx i).length < _
      omega

/-! ## Calls that run -/

/-- Only its beginning makes a call run, in a process whose `init` has completed. -/
theorem running_step (hs : WorldStep v w a w') (hcall : (w'.calls c).isSome = true) :
    (w.calls c).isSome = true ∨ ∃ origin, a = .call c origin ∧ w.store.phase (.init c.1) = .initialized := by
  by_cases hc : a.actor = some c
  · cases hs with
    | called _ hinit _ =>
      cases hc
      exact .inr ⟨_, rfl, hinit⟩
    | tried hold _ | departed hold _ _ | answered hold _ _ _ _ _ =>
      cases hc
      exact .inl (by rw [hold]; rfl)
    | found ha hold _ _ _ =>
      obtain rfl := Option.some.inj ((actor_of_lookup ha).symm.trans hc)
      exact .inl (by rw [hold]; rfl)
    | finished =>
      cases hc
      replace hcall : (Function.update w.calls c none c).isSome = true := hcall
      rw [Function.update_self] at hcall
      cases hcall
    | _ => exact .inl hcall
  · rw [(frame_step hs hc).1] at hcall
    exact .inl hcall

theorem store_step (hs : WorldStep v w a w') : w'.store = w.store ∨ ∃ b, StoreStep w.store b w'.store := by
  cases hs with
  | checked hs | created hs | posted _ hs | absent _ _ _ hs _ | found _ _ hs _ _ | duplicate _ _ hs _ _ =>
    exact .inr ⟨_, (storeStep_of_serving hs).2⟩
  | _ => exact .inl rfl

/-- What the steps that go on need: the runs of the machines, the points of the calls, and a list of the
calls that run, all of them behind the `init` of their processes. -/
structure GoesOn (v : Services P T D) (messages : Messages) (rows : List PongMessage)
    (pongThread : D → TraceThread) (running : Finset (P × T)) (w : World P T D) : Prop where
  runs : WorldRuns v messages rows pongThread w
  call : ∀ c, CallKept v messages w c
  mem : ∀ c, (w.calls c).isSome = true → c ∈ running
  initialized : ∀ c, (w.calls c).isSome = true → w.store.phase (.init c.1) = .initialized

theorem goesOn_start :
    GoesOn v messages rows pongThread ∅ (.start v messages rows thread pongThread) where
  runs := worldRuns_start
  call _ := .of_none rfl rfl
  mem _ hcall := by cases hcall
  initialized _ hcall := by cases hcall

/-- A call that begins joins the running ones. -/
theorem goesOn_step (h : GoesOn v messages rows pongThread running w) (hs : WorldStep v w a w') :
    ∃ running', GoesOn v messages rows pongThread running' w' ∧ (a.goesOn = true → running' = running) := by
  have hinitialized : ∀ p, w.store.phase (.init p) = .initialized → w'.store.phase (.init p) = .initialized := by
    intro p hp
    rcases store_step hs with hsame | ⟨b, hb⟩
    · rw [hsame, hp]
    · exact initialized_step hb hp
  have hcall : ∀ c, CallKept v messages w' c := fun c => by
    by_cases hc : a.actor = some c
    · exact callKept_own h.runs (h.call c) hs hc
    · exact callKept_other (h.call c) hs hc
  have hstarted : ∀ c, (w'.calls c).isSome = true → w'.store.phase (.init c.1) = .initialized := by
    intro c hc
    rcases running_step hs hc with hold | ⟨origin, -, hinit⟩
    · exact hinitialized c.1 (h.initialized c hold)
    · exact hinitialized c.1 hinit
  by_cases ha : ∃ c origin, a = .call c origin
  · obtain ⟨c, origin, rfl⟩ := ha
    refine ⟨insert c running, ⟨worldRuns_step h.runs hs, hcall, ?_, hstarted⟩, fun hgoesOn => by cases hgoesOn⟩
    intro c' hc'
    rcases running_step hs hc' with hold | ⟨origin', heq, -⟩
    · exact Finset.mem_insert_of_mem (h.mem c' hold)
    · cases heq
      exact Finset.mem_insert_self ..
  · refine ⟨running, ⟨worldRuns_step h.runs hs, hcall, ?_, hstarted⟩, fun _ => rfl⟩
    intro c' hc'
    rcases running_step hs hc' with hold | ⟨origin', heq, -⟩
    · exact h.mem c' hold
    · exact absurd ⟨c', origin', heq⟩ ha

/-! ## The bound -/

theorem callWork_le (h : GoesOn v messages rows pongThread running w) (c : P × T) :
    w.callWork c ≤ v.callBound := by
  obtain ⟨acts, hrun⟩ := h.runs.ping
  have hlength : v.channels.length = v.num := by simp [Services.channels, FileLimitedLock.init]
  have hwork := work_le_run hrun c
  have hreserve : reserve (w.ping.phase c) ≤ 3 := by
    cases w.ping.phase c <;> first | exact le_rfl | exact Nat.zero_le _
  unfold World.callWork Services.callBound
  split <;> omega

theorem work_le (h : GoesOn v messages rows pongThread running w) :
    w.work running ≤ running.card * v.callBound + 3 * w.transit.wire.length +
      2 * w.transit.handling.length + w.broker.waiting.length := by
  have hsum : ∑ c ∈ running, w.callWork c ≤ running.card * v.callBound :=
    Finset.sum_le_card_nsmul running w.callWork v.callBound fun c _ => callWork_le h c
  rw [World.work, Transit.work]
  omega

/-! ## Someone can go on -/

/-- A step in which nothing fails. -/
def World.CanGoOn (v : Services P T D) (w : World P T D) : Prop :=
  ∃ a w', a.goesOn = true ∧ a.fails = false ∧ (worldMachine v).step w a = some w'

/-- A thread of Pong that has a request can answer it. -/
theorem canGoOn_respond (h : TransitKept v.pong pongThread w.transit) (hhandling : w.transit.handling ≠ []) :
    w.CanGoOn v := by
  obtain ⟨⟨d, j⟩, hmem⟩ := List.exists_mem_of_ne_nil _ hhandling
  obtain ⟨i, hi⟩ : ∃ i, w.transit.handling.lookup d = some i := by
    refine Option.isSome_iff_exists.mp (List.lookup_isSome_iff.mpr ⟨(d, j), hmem, ?_⟩)
    exact beq_self_eq_true d
  obtain ⟨l, l', heq, -⟩ := List.lookup_eq_some_iff.mp hi
  have hplace : (d, i) ∈ w.transit.handling := by
    rw [heq]
    exact List.mem_append_right _ List.mem_cons_self
  obtain ⟨departed, hsent⟩ :=
    sent_of_place h (List.mem_append_left _ (List.mem_append_right _ (List.mem_map_of_mem hplace)))
  have hs : (transitMachine (P × T) v.pong).step w.transit (.respond d true) =
      some (w.transit.respond v.pong departed.request d i true) := by
    show (w.transit.handling.lookup d).bind _ = _
    rw [hi, Option.bind_some, hsent, Option.map_some]
  obtain ⟨w', hw'⟩ := exists_stepPong hs
  exact ⟨.respond d true, w', rfl, rfl, hw'⟩

/-- A free thread of Pong can take a request off the wire. -/
theorem canGoOn_arrive [Nonempty D] (h : TransitKept v.pong pongThread w.transit)
    (hhandling : w.transit.handling = []) (hwire : w.transit.wire ≠ []) : w.CanGoOn v := by
  obtain ⟨d⟩ := ‹Nonempty D›
  obtain ⟨i, hi⟩ := List.exists_mem_of_ne_nil _ hwire
  obtain ⟨departed, hsent⟩ := sent_of_place h (List.mem_append_left _ (List.mem_append_left _ hi))
  have hguard : i ∈ w.transit.wire ∧ d ∉ w.transit.handling.map Prod.fst ∧ w.transit.clock ≤ w.transit.clock :=
    ⟨hi, by rw [hhandling]; exact List.not_mem_nil, le_rfl⟩
  have hs : (transitMachine (P × T) v.pong).step w.transit (.arrive d i w.transit.clock) =
      some (w.transit.arrive v.pong departed.request d i w.transit.clock) := by
    show (if _ then _ else _) = _
    rw [if_pos hguard, hsent, Option.map_some]
  obtain ⟨w', hw'⟩ := exists_stepPong hs
  exact ⟨.arrive d i w.transit.clock, w', rfl, rfl, hw'⟩

theorem canGoOn_deliver (hwaiting : w.broker.waiting ≠ []) : w.CanGoOn v := by
  cases hmsgs : w.broker.waiting with
  | nil => exact absurd hmsgs hwaiting
  | cons msg msgs =>
    obtain ⟨broker, hs⟩ : ∃ broker, Broker.machine.step w.broker (.deliver 0 true) = some broker := by
      simp only [Broker.machine, hmsgs, List.getElem?_cons_zero, Broker.listen_eq]
      exact ⟨_, rfl⟩
    refine ⟨.deliver 0 true, { w with broker }, rfl, rfl, ?_⟩
    show (Broker.machine.step w.broker (.deliver 0 true)).map _ = _
    rw [hs, Option.map_some]

/-! ### Calls -/

/-- Behind its lock, a call finds the document at once and goes on with its message. -/
theorem canGoOn_findOne (h : GoesOn v messages rows pongThread running w) {f : String}
    (hcall : w.calls c = some call) (hphase : w.ping.phase c = .locked f) : w.CanGoOn v := by
  obtain ⟨acts, hrun, -⟩ := h.runs.store
  have hinit : w.store.phase (.init c.1) = .initialized := h.initialized c (by rw [hcall]; rfl)
  obtain ⟨store, hs⟩ : ∃ store, (servingMachine P T).step w.store (.findOne c.1 c.2) = some store :=
    ⟨w.store.setPhase (.thread c.1 c.2) (PingService.afterFindOne w.store.store.message),
      StepMachine.restrict_step_eq_some.mpr
        ⟨decide_eq_true hinit, if_pos ((serving_run hrun).reading c.1 c.2)⟩⟩
  have hgot := h.runs.lookup (a := .findOne c) rfl hs
  obtain ⟨w', hw'⟩ : ∃ w', ({ w with store } : World P T D).lookedUp v c call = some w' := by
    simp only [World.lookedUp, hgot, World.stepPing, sendMachine, World.setCall, hphase]
    exact ⟨_, rfl⟩
  refine ⟨.findOne c, w', rfl, rfl, ?_⟩
  simp only [worldMachine, hcall, hphase, World.stepStore, hs, Option.bind_eq_bind, Option.bind_some,
    Option.map_some, hw']

/-- The request of a call that waits has been answered when nothing is on its way any more. -/
theorem canGoOn_answer (h : GoesOn v messages rows pongThread running w) {f : String} {msg : Option String}
    (hwire : w.transit.wire = []) (hhandling : w.transit.handling = []) (hcall : w.calls c = some call)
    (hphase : w.ping.phase c = .awaiting f msg) : w.CanGoOn v := by
  have hat := (h.call c).reached call hcall
  rw [hphase] at hat
  obtain ⟨-, -, hnumber, -, -⟩ := hat
  obtain ⟨i, hi⟩ := Option.isSome_iff_exists.mp hnumber
  obtain ⟨departed, hsent, -⟩ := ((h.call c).met call hcall).request i hi
  have hplace := h.runs.kept.places.mem_iff.mpr
    (List.mem_range.mpr (List.getElem?_eq_some_iff.mp hsent).1)
  rw [hwire, hhandling] at hplace
  obtain ⟨answer, hmem, hanswer⟩ := List.mem_map.mp hplace
  obtain ⟨handled, hhandled⟩ : ∃ handled, w.transit.handled.find? (·.number = i) = some handled :=
    Option.isSome_iff_exists.mp (List.find?_isSome.mpr ⟨answer, hmem, decide_eq_true hanswer⟩)
  obtain ⟨w', hw'⟩ : ∃ w', (worldMachine v).step w (.answer c) = some w' := by
    simp only [worldMachine, hcall, hi, hsent, hhandled, Option.bind_eq_bind, Option.bind_some, World.stepPing,
      World.setCall, sendMachine, hphase]
    exact ⟨_, rfl⟩
  exact ⟨.answer c, w', rfl, rfl, hw'⟩

/-- When nothing is on its way, a call that runs can go on. -/
theorem canGoOn_call (h : GoesOn v messages rows pongThread running w) (hwire : w.transit.wire = [])
    (hhandling : w.transit.handling = []) (hcall : w.calls c = some call) : w.CanGoOn v := by
  have hat := (h.call c).reached call hcall
  cases hphase : w.ping.phase c with
  | idle => rw [hphase] at hat; cases hat
  | scanning f fs =>
    obtain ⟨w', hw'⟩ : ∃ w', (worldMachine v).step w (.tryLock c) = some w' := by
      simp only [worldMachine, hcall, World.stepPing, sendMachine, hphase]
      cases FileLimitedLock.tryLock w.ping.files c.1 f <;> exact ⟨_, rfl⟩
    exact ⟨.tryLock c, w', rfl, rfl, hw'⟩
  | locked f => exact canGoOn_findOne h hcall hphase
  | sending f msg =>
    obtain ⟨hsent, -⟩ : (v.client.invoke v.lib (v.ids c) PingClient.send [msg] (fun _ => none)
          (w.thread c)).1.sent = some (v.request c msg (w.thread c)) ∧
        (v.client.invoke v.lib (v.ids c) PingClient.send [msg] (fun _ => none) (w.thread c)).2 =
          (w.thread c).ensureTraceId (v.ids c) := invoke_of_mapped rfl rfl [msg] fun _ => none
    obtain ⟨w', hw'⟩ : ∃ w', (worldMachine v).step w (.depart c) = some w' := by
      simp only [worldMachine, hcall, hphase, hsent, World.stepPing, sendMachine, Option.bind_eq_bind,
        Option.bind_some, Option.map_some]
      exact exists_stepPong rfl
    exact ⟨.depart c, w', rfl, rfl, hw'⟩
  | awaiting f msg => exact canGoOn_answer h hwire hhandling hcall hphase
  | unlocking f exit =>
    obtain ⟨w', hw'⟩ : ∃ w', (worldMachine v).step w (.unlock c) = some w' := by
      simp only [worldMachine, World.stepPing, sendMachine, hphase]
      exact ⟨_, rfl⟩
    exact ⟨.unlock c, w', rfl, rfl, hw'⟩
  | refused | ended exit =>
    obtain ⟨w', hw'⟩ : ∃ w', (worldMachine v).step w (.finish c) = some w' := by
      simp only [worldMachine, hcall, hphase]
      exact ⟨_, rfl⟩
    exact ⟨.finish c, w', rfl, rfl, hw'⟩

/-- Unless the system is at rest, a step can be taken in which nothing fails. -/
theorem atRest_or_canGoOn [Nonempty D] (h : GoesOn v messages rows pongThread running w) :
    w.AtRest ∨ w.CanGoOn v := by
  by_cases hhandling : w.transit.handling = []
  · by_cases hwire : w.transit.wire = []
    · by_cases hwaiting : w.broker.waiting = []
      · by_cases hcalls : ∀ c, w.calls c = none
        · exact .inl ⟨hcalls, hwire, hhandling, hwaiting⟩
        · obtain ⟨c, hc⟩ := not_forall.mp hcalls
          obtain ⟨call, hcall⟩ := Option.ne_none_iff_exists'.mp hc
          exact .inr (canGoOn_call h hwire hhandling hcall)
      · exact .inr (canGoOn_deliver hwaiting)
    · exact .inr (canGoOn_arrive h.runs.kept hhandling hwire)
  · exact .inr (canGoOn_respond h.runs.kept hhandling)

/-! ## Coming to rest -/

/-- Steps that go on keep to the calls that run, and pay with the work that is left. -/
theorem goesOn_work (w : World P T D) (a : WorldAction P T D) (w' : World P T D)
    (h : GoesOn v messages rows pongThread running w) (ha : a.goesOn = true)
    (hs : (worldMachine v).step w a = some w') :
    GoesOn v messages rows pongThread running w' ∧ w'.work running < w.work running := by
  have hstep := worldStep_of_step hs
  obtain ⟨running', hkept, hsame⟩ := goesOn_step h hstep
  obtain rfl := hsame ha
  exact ⟨hkept, work_worldStep h.runs h.call h.mem hstep ha⟩

theorem goesOn_run (h : (worldMachine v).run (.start v messages rows thread pongThread) actions = some w) :
    ∃ running, GoesOn v messages rows pongThread running w := by
  refine StepMachine.run_invariant (I := fun w => ∃ running, GoesOn v messages rows pongThread running w)
    ?_ ⟨∅, goesOn_start⟩ h
  rintro w a w' ⟨running, hkept⟩ hs
  obtain ⟨running', hkept', -⟩ := goesOn_step hkept (worldStep_of_step hs)
  exact ⟨running', hkept'⟩

/-- Wherever a run of the system has come to: once clients and the clock stop calling, the system comes to
rest within a bounded number of steps, in whatever order these are taken and whatever fails, and it is never
stuck before. -/
theorem comes_to_rest [Nonempty D] (v : Services P T D) (messages : Messages) (rows : List PongMessage)
    (thread : P × T → TraceThread) (pongThread : D → TraceThread) (actions : List (WorldAction P T D))
    (w : World P T D) (h : (worldMachine v).run (.start v messages rows thread pongThread) actions = some w) :
    ComesToRest v w := by
  obtain ⟨started, hstarted⟩ := goesOn_run h
  have hrunning : ∀ c, c ∈ started.filter (fun c => (w.calls c).isSome) ↔ (w.calls c).isSome = true := by
    intro c
    rw [Finset.mem_filter]
    exact ⟨And.right, fun hc => ⟨hstarted.mem c hc, hc⟩⟩
  have hkept : GoesOn v messages rows pongThread (started.filter fun c => (w.calls c).isSome) w :=
    { hstarted with mem := fun c hc => (hrunning c).mpr hc }
  refine ⟨_, hrunning, fun later w' hlater hok => ?_⟩
  obtain ⟨hkept', hlength⟩ := StepMachine.length_add_measure_le goesOn_work hkept hok hlater
  have hbound := work_le hkept
  exact ⟨by omega, atRest_or_canGoOn hkept'⟩

/-- A call that has begun. -/
theorem exists_oneCall : ∃ w, (worldMachine oneService).run
    (.start oneService .empty [] (fun _ => ⟨.clear, 0⟩) fun _ => ⟨.clear, 0⟩) (oneExchange.take 4) = some w :=
  Option.isSome_iff_exists.mp (by decide +kernel)

theorem comes_to_rest_oneCall : ∃ w, (worldMachine oneService).run
      (.start oneService .empty [] (fun _ => ⟨.clear, 0⟩) fun _ => ⟨.clear, 0⟩) (oneExchange.take 4) = some w ∧
    ComesToRest oneService w := by
  obtain ⟨w, hw⟩ := exists_oneCall
  exact ⟨w, hw, comes_to_rest oneService .empty [] (fun _ => ⟨.clear, 0⟩) (fun _ => ⟨.clear, 0⟩)
    (oneExchange.take 4) w hw⟩

/-! ## Draining -/

theorem failed_step (hs : WorldStep v w a w') (ha : a.fails = false) : w'.broker.failed = w.broker.failed := by
  cases hs with
  | pong _ _ _ hb =>
    obtain rfl := run_publish hb
    rfl
  | @delivered i works broker hs =>
    obtain rfl : works = true := by simpa [WorldAction.fails] using ha
    cases Broker.brokerStep_of_step hs
    show ((w.broker.acknowledged ++ [_]).filter _).map _ = _
    rw [List.filter_append, List.map_append]
    exact List.append_nil _
  | _ => rfl

/-- From every state that a run reaches, the system can be drained: when nothing fails any more, all calls end,
all requests are answered, and only those exchanges lack their row whose save has failed before. -/
theorem drains [Nonempty D] (v : Services P T D) (messages : Messages) (rows : List PongMessage)
    (thread : P × T → TraceThread) (pongThread : D → TraceThread) (actions : List (WorldAction P T D))
    (w : World P T D) (h : (worldMachine v).run (.start v messages rows thread pongThread) actions = some w) :
    ∃ later w', (worldMachine v).run w later = some w' ∧
      (∀ a ∈ later, a.goesOn = true ∧ a.fails = false) ∧
      w'.Drained v messages rows w.broker.failed := by
  obtain ⟨running, hkept⟩ := goesOn_run h
  have hstep : ∀ u a u', (GoesOn v messages rows pongThread running u ∧ u.broker.failed = w.broker.failed) →
      (a.goesOn = true ∧ a.fails = false) → (worldMachine v).step u a = some u' →
      (GoesOn v messages rows pongThread running u' ∧ u'.broker.failed = w.broker.failed) ∧
        u'.work running < u.work running := by
    rintro u a u' ⟨hu, hfailed⟩ ⟨hgoesOn, hfails⟩ hs
    obtain ⟨hu', hless⟩ := goesOn_work u a u' hu hgoesOn hs
    exact ⟨⟨hu', (failed_step (worldStep_of_step hs) hfails).trans hfailed⟩, hless⟩
  have hprogress : ∀ u, (GoesOn v messages rows pongThread running u ∧ u.broker.failed = w.broker.failed) →
      u.AtRest ∨ ∃ a u', (a.goesOn = true ∧ a.fails = false) ∧ (worldMachine v).step u a = some u' := by
    rintro u ⟨hu, -⟩
    rcases atRest_or_canGoOn hu with hrest | ⟨a, u', hgoesOn, hfails, hs⟩
    · exact .inl hrest
    · exact .inr ⟨a, u', ⟨hgoesOn, hfails⟩, hs⟩
  obtain ⟨later, w', hlater, hok, ⟨hkept', hfailed⟩, hrest⟩ :=
    StepMachine.exists_run_of_progress hstep hprogress ⟨hkept, rfl⟩
  refine ⟨later, w', hlater, hok, hrest, ?_, ?_⟩
  · have hplaces := hkept'.runs.kept.places
    rw [hrest.wire, hrest.handling] at hplaces
    exact hplaces
  · have hrun := StepMachine.run_append_eq_some.mpr ⟨w, h, hlater⟩
    obtain ⟨saved, lost, waiting, added, hperm, -, hrows, hadded, hlost, hwaiting⟩ := exchangesKept_run hrun
    rw [hrest.waiting] at hwaiting
    obtain rfl := List.forall₂_nil_left_iff.mp hwaiting
    rw [List.append_nil] at hperm
    exact ⟨saved, lost, added, hperm, hrows, hadded, hfailed ▸ hlost⟩

theorem drains_oneCall : ∃ w, (worldMachine oneService).run
      (.start oneService .empty [] (fun _ => ⟨.clear, 0⟩) fun _ => ⟨.clear, 0⟩) (oneExchange.take 4) = some w ∧
    ∃ later w', (worldMachine oneService).run w later = some w' ∧
      (∀ a ∈ later, a.goesOn = true ∧ a.fails = false) ∧
      w'.Drained oneService .empty [] w.broker.failed := by
  obtain ⟨w, hw⟩ := exists_oneCall
  exact ⟨w, hw, drains oneService .empty [] (fun _ => ⟨.clear, 0⟩) (fun _ => ⟨.clear, 0⟩) (oneExchange.take 4) w hw⟩

end PingPong.Exchange
