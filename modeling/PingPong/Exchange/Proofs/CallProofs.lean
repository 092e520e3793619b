import PingPong.Exchange.Proofs.SystemStepProofs

/-!
# Proofs: calls among other calls

A step of another party changes nothing of what a call has met, and a step of the call itself brings it to the
next point of its function (`Call.At`). So the calls of a thread are calls that run alone, one after another
(`calls_alone`).
-/

namespace PingPong.Exchange

open Feign Ping Pong Trace Other

variable {P T D : Type} {v : Services P T D}
  {w w' : World P T D} {a : WorldAction P T D} {c : P × T} {call : Call} {messages : Messages}
  {rows : List PongMessage} {thread : P × T → TraceThread} {pongThread : D → TraceThread}
  {actions : List (WorldAction P T D)} {n : ℕ}

/-! ## One call alone -/

/-- The thread when `send` begins. -/
def Call.entered (call : Call) (v : Services P T D) (c : P × T) : TraceThread :=
  call.origin.enter (v.ids c) call.before

/-- The thread behind `send`. -/
def Call.behind (call : Call) (v : Services P T D) (c : P × T) : TraceThread :=
  if call.message.isSome then (call.entered v c).ensureTraceId (v.ids c) else call.entered v c

/-- How the call ends with what it has met. -/
def Call.exit (call : Call) : Exit :=
  if call.locked then
    match call.message, call.response with
    | some _, some response => PingService.report response
    | _, _ => .threw
  else .returned HttpStatus.pingLimitedMsg

/-- A call without a slot has no message. -/
theorem send_env (v : Services P T D) (c : P × T) (hlocked : call.locked = false → call.message = none) :
    PingService.send v.client v.lib (v.ids c) call.env (call.entered v c) =
      (⟨call.exit, call.message.map fun msg => v.request c msg (call.entered v c)⟩, call.behind v c) := by
  obtain ⟨origin, before, posted, locked, message, number, response⟩ := call
  cases locked with
  | false =>
    obtain rfl : message = none := hlocked rfl
    rfl
  | true =>
    cases message with
    | none => rfl
    | some msg => cases response <;> rfl

theorem start_tick (client : OpenFeignClientProxy) (lib : Library) (g : TraceIdUtil) (env : SendEnv)
    (t : TraceThread) : (tick client lib g env).start g t = Origin.tick.enter g t := rfl

/-- The call alone does what the call has done. -/
theorem alone_eq (v : Services P T D) (c : P × T) (exit : Exit) (posted : ℕ)
    (hlocked : call.locked = false → call.message = none) :
    (Ended.mk c call exit posted).alone v call.before =
      (⟨call.exit, call.message.map fun msg => v.request c msg (call.entered v c)⟩,
        call.origin.leave call.exit (call.behind v c)) := by
  have hsend := send_env v c hlocked
  unfold Ended.alone
  cases horigin : call.origin with
  | request =>
    have hentered : call.before.ensureTraceId (v.ids c) = call.entered v c := by
      rw [Call.entered, horigin]
      rfl
    show PingService.send v.client v.lib (v.ids c) call.env (call.before.ensureTraceId (v.ids c)) = _
    rw [hentered, hsend]
    rfl
  | tick =>
    have hentered : (tick v.client v.lib (v.ids c) call.env).start (v.ids c) call.before =
        call.entered v c := by
      rw [start_tick, Call.entered, horigin]
    have hrun : ((tick v.client v.lib (v.ids c) call.env).run (v.ids c) call.before).2 =
        Origin.tick.leave call.exit (call.behind v c) := by
      have hscheduled : (tick v.client v.lib (v.ids c) call.env).task.run (call.entered v c) =
          PingController.scheduled v.client v.lib (v.ids c) call.env (call.entered v c) := rfl
      rw [TaskRunnable.run, hentered, hscheduled, PingController.scheduled, hsend]
      cases call.exit <;> rfl
    dsimp only
    rw [hentered, hsend, hrun]

/-! ## The points of a call -/

/-- The call `c` on the thread `t` has come to this point of `send`. -/
def Call.At (call : Call) (v : Services P T D) (c : P × T) (t : TraceThread) : Phase String → Prop
  | .idle => False
  | .scanning _ _ | .refused => call.locked = false ∧ call.message = none ∧ call.number = none ∧
      call.response = none ∧ t = call.entered v c
  | .locked _ => call.locked = true ∧ call.message = none ∧ call.number = none ∧ call.response = none ∧
      t = call.entered v c
  | .sending _ msg => call.locked = true ∧ call.message = some msg ∧ call.number = none ∧
      call.response = none ∧ t = call.entered v c
  | .awaiting _ msg => call.locked = true ∧ call.message = some msg ∧ call.number.isSome ∧
      call.response = none ∧ t = (call.entered v c).ensureTraceId (v.ids c)
  | .unlocking _ exit | .ended exit => call.locked = true ∧ call.number.isSome = call.message.isSome ∧
      exit = call.exit ∧ t = call.behind v c

/-- What a call that has come to its end has got. -/
structure Call.Done (call : Call) (exit : Exit) : Prop where
  exit : exit = call.exit
  locked : call.locked = false → call.message = none
  number : call.number.isSome = call.message.isSome

theorem at_result {t : TraceThread} {ph : Phase String} {exit : Exit} (h : call.At v c t ph)
    (hexit : ph.result = some exit) : call.Done exit ∧ t = call.behind v c := by
  cases ph with
  | refused =>
    obtain ⟨hlocked, hmessage, hnumber, hresponse, ht⟩ := h
    cases hexit
    refine ⟨⟨?_, fun _ => hmessage, by rw [hnumber, hmessage]; rfl⟩, ?_⟩
    · simp only [Call.exit, hlocked, Bool.false_eq_true, if_false]
    · simp only [Call.behind, hmessage, Option.isSome_none, Bool.false_eq_true, if_false, ht]
  | ended exit =>
    obtain ⟨hlocked, hnumber, rfl, ht⟩ := h
    cases hexit
    exact ⟨⟨rfl, fun hfalse => absurd hlocked (by rw [hfalse]; exact Bool.false_ne_true), hnumber⟩, ht⟩
  | _ => cases hexit

/-! ## What grows -/

/-- What only grows in a run. -/
structure Grows (w w' : World P T D) : Prop where
  posted : w.posted <+: w'.posted
  sent : w.transit.sent <+: w'.transit.sent
  handled : ∀ h ∈ w.transit.handled, h ∈ w'.transit.handled

theorem Grows.getElem? (h : Grows w w') {i : ℕ} {departed : Departed (P × T)}
    (hi : w.transit.sent[i]? = some departed) : w'.transit.sent[i]? = some departed := by
  obtain ⟨l, hl⟩ := h.sent
  rw [← hl, List.getElem?_append_left (List.getElem?_eq_some_iff.mp hi).1, hi]

theorem Grows.take (h : Grows w w') {k : ℕ} (hk : k ≤ w.posted.length) :
    w'.posted.take k = w.posted.take k := by
  obtain ⟨l, hl⟩ := h.posted
  rw [← hl, List.take_append_of_le_length hk]

/-- What a call has met stays true. -/
theorem Call.Met.grow (h : call.Met v messages w c n) (hg : Grows w w') (hn : n ≤ w.posted.length) :
    call.Met v messages w' c n where
  began := h.began
  message msg hmsg := by
    obtain ⟨k, hle, hk, rfl⟩ := h.message msg hmsg
    exact ⟨k, hle, hk, by rw [hg.take (hk.trans hn)]⟩
  request i hi := by
    obtain ⟨departed, hsent, hrest⟩ := h.request i hi
    exact ⟨departed, hg.getElem? hsent, hrest⟩
  response response hresponse := by
    obtain ⟨i, departed, handled, hi, hsent, hmem, hrest⟩ := h.response response hresponse
    exact ⟨i, departed, handled, hi, hg.getElem? hsent, hg.handled handled hmem, hrest⟩

theorem Call.Met.later {m : ℕ} (h : call.Met v messages w c n) (hle : n ≤ m) : call.Met v messages w c m :=
  { h with
    began := h.began.trans hle
    message := fun msg hmsg => by
      obtain ⟨k, hk, hkn, hmsg⟩ := h.message msg hmsg
      exact ⟨k, hk, hkn.trans hle, hmsg⟩ }

/-- The request of a call that has met its message. -/
theorem Call.Met.requestOf (h : call.Met v messages w c n) (hnumber : call.number.isSome = call.message.isSome) :
    w.requestOf call = call.message.map fun msg => v.request c msg (call.entered v c) := by
  cases hi : call.number with
  | none =>
    rw [hi] at hnumber
    have hnone : call.message = none := Option.isSome_eq_false_iff.mp hnumber.symm |> Option.isNone_iff_eq_none.mp
    rw [World.requestOf, hi, hnone]
    rfl
  | some i =>
    obtain ⟨departed, hsent, -, hmessage, hrequest⟩ := h.request i hi
    rw [World.requestOf, hi, hmessage]
    show w.transit.sent[i]?.map Departed.request = some _
    rw [hsent, Option.map_some, hrequest]
    rfl

theorem grows_transit [DecidableEq D] {s s' : Transit (P × T) D} {b : TransitAction (P × T) D}
    (hs : TransitStep v.pong s b s') : s.sent <+: s'.sent ∧ ∀ h ∈ s.handled, h ∈ s'.handled := by
  cases hs with
  | departed => exact ⟨List.prefix_append _ _, fun _ hmem => hmem⟩
  | admitted => exact ⟨List.prefix_rfl, fun _ hmem => hmem⟩
  | rejected => exact ⟨List.prefix_rfl, fun _ hmem => List.mem_append_left _ hmem⟩
  | @responded d i works departed _ _ =>
    obtain ⟨t, outcome, published, heq, -⟩ := respond_eq s v.pong departed.request d i works
    rw [heq]
    exact ⟨List.prefix_rfl, fun _ hmem => List.mem_append_left _ hmem⟩

/-! ## The call itself -/

/-- The call that takes the step. -/
def WorldAction.actor : WorldAction P T D → Option (P × T)
  | .message c _ | .call c _ | .tryLock c | .findOne c | .insert c | .lookupFails c | .depart c | .answer c
  | .answerFails c | .unlock c | .finish c => some c
  | _ => none

/-- The call `c` is at the point where its phase is, or there is none. -/
structure CallKept (v : Services P T D) (messages : Messages) (w : World P T D) (c : P × T) : Prop where
  idle : w.calls c = none → (w.ping.phase c).canCall = true
  reached : ∀ call, w.calls c = some call → call.At v c (w.thread c) (w.ping.phase c)
  met : ∀ call, w.calls c = some call → call.Met v messages w c w.posted.length

theorem canCall_of_result {ph : Phase String} {exit : Exit} (h : ph.result = some exit) : ph.canCall = true := by
  cases ph <;> first | rfl | cases h

theorem Call.At.scan {t : TraceThread} {fs : List String} (hlocked : call.locked = false)
    (hmessage : call.message = none) (hnumber : call.number = none) (hresponse : call.response = none)
    (ht : t = call.entered v c) : call.At v c t (.scan fs) := by
  cases fs <;> exact ⟨hlocked, hmessage, hnumber, hresponse, ht⟩

/-- A call that has not met anything yet. -/
theorem Call.Met.of_none (hbegan : call.posted ≤ n) (hmessage : call.message = none)
    (hnumber : call.number = none) (hresponse : call.response = none) : call.Met v messages w c n where
  began := hbegan
  message msg hmsg := by rw [hmessage] at hmsg; cases hmsg
  request i hi := by rw [hnumber] at hi; cases hi
  response r hr := by rw [hresponse] at hr; cases hr

theorem CallKept.of_some (hcall : w.calls c = some call) (hat : call.At v c (w.thread c) (w.ping.phase c))
    (hmet : call.Met v messages w c w.posted.length) : CallKept v messages w c where
  idle hnone := by rw [hcall] at hnone; cases hnone
  reached call' hsome := Option.some.inj (hcall.symm.trans hsome) ▸ hat
  met call' hsome := Option.some.inj (hcall.symm.trans hsome) ▸ hmet

/-- A thread that makes no call is at no step of `send`. -/
theorem CallKept.exists_call (h : CallKept v messages w c) (hphase : (w.ping.phase c).canCall = false) :
    ∃ call, w.calls c = some call := by
  cases hcall : w.calls c with
  | none => rw [h.idle hcall] at hphase; cases hphase
  | some call => exact ⟨call, rfl⟩

/-- Without one it can make the next. -/
theorem CallKept.of_none (hcall : w.calls c = none) (hphase : (w.ping.phase c).canCall = true) :
    CallKept v messages w c where
  idle _ := hphase
  reached call hsome := by rw [hcall] at hsome; cases hsome
  met call hsome := by rw [hcall] at hsome; cases hsome

theorem actor_of_lookup {b : StoreAction P T} (ha : a.lookup = some (c, b)) : a.actor = some c := by
  cases a <;> cases ha <;> rfl

/-- The call comes to the next point and has met nothing new. -/
theorem CallKept.moved (h : CallKept v messages w c) {ph ph' : Phase String} (hphase : w.ping.phase c = ph)
    (hbusy : ph.canCall = false) {ping : State P T String} (hphase' : ping.phase c = ph')
    (hat : ∀ call : Call, call.At v c (w.thread c) ph → call.At v c (w.thread c) ph') :
    CallKept v messages { w with ping } c := by
  obtain ⟨call, hcall⟩ := h.exists_call (by rw [hphase]; exact hbusy)
  have hold := h.reached call hcall
  rw [hphase] at hold
  refine .of_some hcall ?_ ((h.met call hcall).grow ?_ le_rfl)
  · show call.At v c (w.thread c) (ping.phase c)
    rw [hphase']
    exact hat call hold
  · exact ⟨List.prefix_rfl, List.prefix_rfl, fun _ hmem => hmem⟩

/-- The lookup throws. -/
theorem Call.At.lookupThrew {t : TraceThread} {f : String} (h : call.At v c t (.locked f)) :
    call.At v c t (.unlocking f .threw) := by
  obtain ⟨hlocked, hmessage, hnumber, hresponse, ht⟩ := h
  refine ⟨hlocked, by rw [hnumber, hmessage]; rfl, ?_, ?_⟩
  · simp only [Call.exit, hlocked, hmessage, if_true]
  · simp only [Call.behind, hmessage, Option.isSome_none, Bool.false_eq_true, if_false, ht]

/-- The HTTP call throws. -/
theorem Call.At.answerThrew {t : TraceThread} {f : String} {msg : Option String}
    (h : call.At v c t (.awaiting f msg)) : call.At v c t (.unlocking f .threw) := by
  obtain ⟨hlocked, hmessage, hsome, hresponse, ht⟩ := h
  refine ⟨hlocked, by rw [hmessage, hsome]; rfl, ?_, ?_⟩
  · simp only [Call.exit, hlocked, hmessage, hresponse, if_true]
  · simp only [Call.behind, hmessage, Option.isSome_some, if_true, ht]

/-! ## Calls one after another -/

theorem runAlone_concat {ended : List (Ended P T)} {e : Ended P T} {t u : TraceThread} :
    RunAlone v w (ended ++ [e]) t u ↔ ∃ x, RunAlone v w ended t x ∧
      (e.alone v x).1 = ⟨e.exit, w.requestOf e.call⟩ ∧ u = (e.alone v x).2 := by
  induction ended generalizing t with
  | nil =>
    constructor
    · rintro ⟨hsent, rfl⟩
      exact ⟨t, rfl, hsent, rfl⟩
    · rintro ⟨x, rfl, hsent, rfl⟩
      exact ⟨hsent, rfl⟩
  | cons first ended ih =>
    constructor
    · rintro ⟨hfirst, hrest⟩
      obtain ⟨x, hx, hsent, rfl⟩ := ih.mp hrest
      exact ⟨x, ⟨hfirst, hx⟩, hsent, rfl⟩
    · rintro ⟨x, ⟨hfirst, hx⟩, hsent, rfl⟩
      exact ⟨hfirst, ih.mpr ⟨x, hx, hsent, rfl⟩⟩

/-- Calls that have ended have sent what they have sent. -/
theorem RunAlone.grow (hg : Grows w w') {ended : List (Ended P T)} {t u : TraceThread}
    (h : RunAlone v w ended t u) (hmet : ∀ e ∈ ended, e.call.Met v messages w e.caller e.posted) :
    RunAlone v w' ended t u := by
  induction ended generalizing t with
  | nil => exact h
  | cons e ended ih =>
    obtain ⟨hsent, hrest⟩ := h
    have hrequest : w'.requestOf e.call = w.requestOf e.call := by
      unfold World.requestOf
      cases hi : e.call.number with
      | none => rfl
      | some i =>
        obtain ⟨departed, hget, -⟩ := (hmet e List.mem_cons_self).request i hi
        show w'.transit.sent[i]?.map _ = w.transit.sent[i]?.map _
        rw [hget, hg.getElem? hget]
    exact ⟨by rw [hrequest]; exact hsent, ih hrest fun e he => hmet e (List.mem_cons_of_mem _ he)⟩

variable [DecidableEq P] [DecidableEq T]

/-! ## Steps of a call -/

/-- The next slot is tried. -/
theorem callKept_tried (h : CallKept v messages w c) (hcall : w.calls c = some call) {ping : State P T String}
    (hs : (sendMachine P T v.channels).step w.ping (.tryLock c) = some ping) :
    CallKept v messages
      { w.setCall c (some { call with locked := (ping.phase c).slot.isSome }) with ping } c := by
  have hat := h.reached call hcall
  have hmet := h.met call hcall
  cases sendStep_of_step hs with
  | granted hphase _ =>
    rw [hphase] at hat
    obtain ⟨-, hmessage, hnumber, hresponse, ht⟩ := hat
    refine .of_some (Function.update_self ..) ?_ (.of_none hmet.began hmessage hnumber hresponse)
    show Call.At _ v c (w.thread c) (Function.update w.ping.phase c _ c)
    rw [Function.update_self]
    exact ⟨by rw [setPhase_phase_self]; rfl, hmessage, hnumber, hresponse, ht⟩
  | skipped hphase _ =>
    rw [hphase] at hat
    obtain ⟨-, hmessage, hnumber, hresponse, ht⟩ := hat
    refine .of_some (Function.update_self ..) ?_ (.of_none hmet.began hmessage hnumber hresponse)
    show Call.At _ v c (w.thread c) (Function.update w.ping.phase c _ c)
    rw [Function.update_self]
    refine .scan ?_ hmessage hnumber hresponse ht
    rw [setPhase_phase_self, slot_scan]
    rfl

/-- The call gets the message that is current. -/
theorem callKept_found (h : CallKept v messages w c) (hcall : w.calls c = some call)
    {ping : State P T String} {store : StoreState P T}
    (hs : (sendMachine P T v.channels).step w.ping
      (.lookup c (some (currentMessage messages w.posted))) = some ping) :
    CallKept v messages
      { w.setCall c (some { call with message := some (currentMessage messages w.posted) }) with store, ping }
      c := by
  have hat := h.reached call hcall
  have hmet := h.met call hcall
  cases sendStep_of_step hs with
  | lookedUp _ hphase =>
    rw [hphase] at hat
    obtain ⟨hlocked, -, hnumber, hresponse, ht⟩ := hat
    refine .of_some (Function.update_self ..) ?_
      { began := hmet.began
        message := ?_
        request := fun i hi => by rw [hnumber] at hi; cases hi
        response := fun r hr => by rw [hresponse] at hr; cases hr }
    · show Call.At _ v c (w.thread c) (Function.update w.ping.phase c _ c)
      rw [Function.update_self]
      exact ⟨hlocked, rfl, hnumber, hresponse, ht⟩
    · rintro _ ⟨⟩
      refine ⟨w.posted.length, hmet.began, le_rfl, ?_⟩
      show _ = currentMessage messages (w.posted.take w.posted.length)
      rw [List.take_length]

/-- The call gets the answer of Pong to its request. -/
theorem callKept_answered (h : CallKept v messages w c) (hcall : w.calls c = some call) {i : ℕ}
    {departed : Departed (P × T)} {handled : Handled} (hnumber : call.number = some i)
    (hsent : w.transit.sent[i]? = some departed) (hmem : handled ∈ w.transit.handled)
    (hi : handled.number = i) {ping : State P T String}
    (hs : (sendMachine P T v.channels).step w.ping
      (.answer c (some (v.pong.answer departed.request handled.outcome))) = some ping) :
    CallKept v messages
      { w.setCall c (some { call with response := some (v.pong.answer departed.request handled.outcome) })
        with ping } c := by
  have hat := h.reached call hcall
  have hmet := h.met call hcall
  cases sendStep_of_step hs with
  | answered _ hphase =>
    rw [hphase] at hat
    obtain ⟨hlocked, hmessage, hsome, -, ht⟩ := hat
    refine .of_some (Function.update_self ..) ?_
      { began := hmet.began
        message := hmet.message
        request := hmet.request
        response := ?_ }
    · show Call.At _ v c (w.thread c) (Function.update w.ping.phase c _ c)
      rw [Function.update_self]
      refine ⟨hlocked, ?_, ?_, ?_⟩
      · show call.number.isSome = call.message.isSome
        rw [hmessage, hsome]
        rfl
      · simp only [Call.exit, hlocked, hmessage, if_true]
      · simp only [Call.behind, hmessage, Option.isSome_some, if_true]
        exact ht
    · rintro _ ⟨⟩
      exact ⟨i, departed, handled, hnumber, hsent, hmem, hi, rfl⟩

variable [DecidableEq D]

theorem grows_step (hs : WorldStep v w a w') : Grows w w' := by
  cases hs with
  | posted => exact ⟨List.prefix_append _ _, List.prefix_rfl, fun _ hmem => hmem⟩
  | departed => exact ⟨List.prefix_rfl, List.prefix_append _ _, fun _ hmem => hmem⟩
  | pong _ hs _ _ =>
    have hgrows := grows_transit (transitStep_of_step hs)
    exact ⟨List.prefix_rfl, hgrows.1, hgrows.2⟩
  | _ => exact ⟨List.prefix_rfl, List.prefix_rfl, fun _ hmem => hmem⟩

/-- The request of the call leaves. -/
theorem callKept_departed (h : CallKept v messages w c) (hcall : w.calls c = some call) {f : String}
    {msg : Option String} (hphase : w.ping.phase c = .sending f msg) {ping : State P T String}
    (hs : (sendMachine P T v.channels).step w.ping (.depart c) = some ping) :
    CallKept v messages
      { (w.setThread c ((w.thread c).ensureTraceId (v.ids c))).setCall c
          (some { call with number := some w.transit.sent.length }) with
        ping
        transit := w.transit.depart c msg (v.request c msg (w.thread c)) } c := by
  have hgrows := grows_step (WorldStep.departed hcall hphase hs)
  have hat := h.reached call hcall
  rw [hphase] at hat
  obtain ⟨hlocked, hmessage, -, hresponse, ht⟩ := hat
  cases sendStep_of_step hs with
  | departed hphase' =>
    rw [hphase] at hphase'
    cases hphase'
    have hmet := (h.met call hcall).grow hgrows le_rfl
    refine .of_some (Function.update_self ..) ?_
      { began := hmet.began
        message := hmet.message
        request := ?_
        response := fun r hr => by rw [hresponse] at hr; cases hr }
    · show Call.At _ v c (Function.update w.thread c _ c) (Function.update w.ping.phase c _ c)
      rw [Function.update_self, Function.update_self, ht]
      exact ⟨hlocked, hmessage, rfl, hresponse, rfl⟩
    · rintro _ ⟨⟩
      refine ⟨_, List.getElem?_concat_length, rfl, hmessage, ?_⟩
      show v.request c _ (w.thread c) = _
      rw [ht]
      rfl

/-- A step of the call itself. -/
theorem callKept_own (hruns : WorldRuns v messages rows pongThread w) (h : CallKept v messages w c)
    (hs : WorldStep v w a w') (hc : a.actor = some c) : CallKept v messages w' c := by
  cases hs with
  | checked | created | destroyed | delivered => cases hc
  | @pong _ b _ _ _ ha => cases a <;> cases ha <;> cases hc
  | posted hcall =>
    cases hc
    exact .of_none hcall (h.idle hcall)
  | @called _ origin ping hcall _ hs =>
    cases hc
    cases sendStep_of_step hs
    refine .of_some (Function.update_self ..) ?_ (.of_none le_rfl rfl rfl rfl)
    show Call.At _ v c (Function.update w.thread c _ c) (Function.update w.ping.phase c _ c)
    rw [Function.update_self, Function.update_self]
    exact .scan rfl rfl rfl rfl rfl
  | tried hcall hs =>
    cases hc
    exact callKept_tried h hcall hs
  | absent ha _ _ hs hstore =>
    obtain rfl := Option.some.inj ((actor_of_lookup ha).symm.trans hc)
    exact absurd (hruns.lookup ha hs) (hstore.2 _)
  | duplicate ha _ hs hstore _ =>
    obtain rfl := Option.some.inj ((actor_of_lookup ha).symm.trans hc)
    rw [hruns.lookup ha hs] at hstore
    cases hstore
  | found ha hcall hs hstore hp =>
    obtain rfl := Option.some.inj ((actor_of_lookup ha).symm.trans hc)
    rw [hruns.lookup ha hs] at hstore
    obtain rfl := CallPhase.got.inj hstore
    exact callKept_found h hcall hp
  | lookupFailed _ hs =>
    cases hc
    cases sendStep_of_step hs with
    | lookupThrew hphase => exact h.moved hphase rfl (setPhase_phase_self _) fun _ hat => hat.lookupThrew
  | departed hcall hphase hs =>
    cases hc
    exact callKept_departed h hcall hphase hs
  | answered hcall hnumber hsent hmem hi hs =>
    cases hc
    exact callKept_answered h hcall hnumber hsent hmem hi hs
  | answerFailed hs =>
    cases hc
    cases sendStep_of_step hs with
    | answerThrew hphase => exact h.moved hphase rfl (setPhase_phase_self _) fun _ hat => hat.answerThrew
  | unlocked hs =>
    cases hc
    cases sendStep_of_step hs with
    | unlocked hphase => exact h.moved hphase rfl (setPhase_phase_self _) fun _ hat => hat
  | finished hcall hexit =>
    cases hc
    exact .of_none (Function.update_self ..) (canCall_of_result hexit)

/-! ## Other parties -/

/-- A step of another party changes neither the call nor its thread. -/
theorem frame_step (hs : WorldStep v w a w') (hc : a.actor ≠ some c) :
    w'.calls c = w.calls c ∧ w'.thread c = w.thread c ∧ w'.ping.phase c = w.ping.phase c := by
  have hsend : ∀ {b : Action P T} {ping : State P T String},
      (sendMachine P T v.channels).step w.ping b = some ping → b.actor ≠ some c →
      ping.phase c = w.ping.phase c :=
    fun hs hb => phase_of_actor_ne (sendStep_of_step hs) hb
  have hlookup : ∀ {b : StoreAction P T} {c' : P × T}, a.lookup = some (c', b) → c' ≠ c := by
    rintro b c' ha rfl
    cases a <;> cases ha <;> exact hc rfl
  have hne : ∀ {c' : P × T}, a.actor = some c' → c ≠ c' := by
    rintro c' ha rfl
    exact hc ha
  cases hs with
  | checked | created | posted | absent | pong | delivered => exact ⟨rfl, rfl, rfl⟩
  | called _ _ hs =>
    exact ⟨Function.update_of_ne (hne rfl) .., Function.update_of_ne (hne rfl) .., hsend hs hc⟩
  | tried _ hs => exact ⟨Function.update_of_ne (hne rfl) .., rfl, hsend hs hc⟩
  | found ha _ _ _ hp =>
    refine ⟨Function.update_of_ne (hlookup ha).symm .., rfl, hsend hp fun heq => ?_⟩
    exact hlookup ha (Option.some.inj heq)
  | duplicate ha _ _ _ hp => exact ⟨rfl, rfl, hsend hp fun heq => hlookup ha (Option.some.inj heq)⟩
  | lookupFailed _ hs | answerFailed hs | unlocked hs => exact ⟨rfl, rfl, hsend hs hc⟩
  | departed _ _ hs =>
    exact ⟨Function.update_of_ne (hne rfl) .., Function.update_of_ne (hne rfl) .., hsend hs hc⟩
  | answered _ _ _ _ _ hs => exact ⟨Function.update_of_ne (hne rfl) .., rfl, hsend hs hc⟩
  | finished => exact ⟨Function.update_of_ne (hne rfl) .., Function.update_of_ne (hne rfl) .., rfl⟩
  | destroyed hs => exact ⟨rfl, rfl, hsend hs nofun⟩

/-! ## All calls -/

/-- What holds in every run: every call is at its point, and the calls that have ended have met what they say
and have run alone. -/
structure CallsKept (v : Services P T D) (messages : Messages) (thread : P × T → TraceThread)
    (w : World P T D) : Prop where
  call : ∀ c, CallKept v messages w c
  ended : ∀ e ∈ w.ended, e.call.Met v messages w e.caller e.posted ∧ e.posted ≤ w.posted.length ∧
    e.call.Done e.exit
  alone : ∀ c, RunAlone v w (w.ended.filter fun e => e.caller = c) (thread c) (w.resting c)

/-- Only the end of a call moves the thread from one call to the next. -/
theorem resting_step (hs : WorldStep v w a w') (hfinish : a ≠ .finish c) : w'.resting c = w.resting c := by
  have hupdate : ∀ {call call' : Call} {u : World P T D}, u.calls = Function.update w.calls c (some call') →
      w.calls c = some call → call'.before = call.before → u.resting c = w.resting c := by
    intro call call' u hcalls hcall hbefore
    simp only [World.resting, hcalls, hcall, Function.update_self, hbefore]
  by_cases hc : a.actor = some c
  · cases hs with
    | checked | created | posted | absent | duplicate | lookupFailed | pong | answerFailed | unlocked
    | destroyed | delivered => rfl
    | called hcall _ _ =>
      cases hc
      simp only [World.resting, World.setCall, World.setThread, hcall, Function.update_self]
      rfl
    | tried hcall _ => cases hc; exact hupdate rfl hcall rfl
    | found ha hcall _ _ _ =>
      obtain rfl := Option.some.inj ((actor_of_lookup ha).symm.trans hc)
      exact hupdate rfl hcall rfl
    | departed hcall _ _ => cases hc; exact hupdate rfl hcall rfl
    | answered hcall _ _ _ _ _ => cases hc; exact hupdate rfl hcall rfl
    | finished => cases hc; exact absurd rfl hfinish
  · obtain ⟨hcalls, hthread, -⟩ := frame_step hs hc
    simp only [World.resting, hcalls, hthread]

theorem finish_step (hs : WorldStep v w (.finish c) w') :
    ∃ call exit, w.calls c = some call ∧ (w.ping.phase c).result = some exit ∧
      w' = { (w.setThread c (call.origin.leave exit (w.thread c))).setCall c none with
        ended := w.ended ++ [⟨c, call, exit, w.posted.length⟩] } := by
  cases hs with
  | finished hcall hexit => exact ⟨_, _, hcall, hexit, rfl⟩
  | absent ha | found ha | duplicate ha | pong ha => cases ha

/-- A step of another party keeps the call. -/
theorem callKept_other (h : CallKept v messages w c) (hs : WorldStep v w a w') (hc : a.actor ≠ some c) :
    CallKept v messages w' c := by
  obtain ⟨hcalls, hthread, hphase⟩ := frame_step hs hc
  have hgrows := grows_step hs
  refine ⟨fun hnone => ?_, fun call hcall => ?_, fun call hcall => ?_⟩
  · rw [hphase]
    exact h.idle (hcalls ▸ hnone)
  · rw [hthread, hphase]
    exact h.reached call (hcalls ▸ hcall)
  · exact ((h.met call (hcalls ▸ hcall)).grow hgrows le_rfl).later hgrows.posted.length_le

theorem callsKept_step (hruns : WorldRuns v messages rows pongThread w) (h : CallsKept v messages thread w)
    (hs : WorldStep v w a w') : CallsKept v messages thread w' := by
  have hgrows := grows_step hs
  have hcall : ∀ c, CallKept v messages w' c := fun c => by
    by_cases hc : a.actor = some c
    · exact callKept_own hruns (h.call c) hs hc
    · exact callKept_other (h.call c) hs hc
  have hold : ∀ e ∈ w.ended, e.call.Met v messages w' e.caller e.posted ∧ e.posted ≤ w'.posted.length ∧
      e.call.Done e.exit := by
    intro e he
    obtain ⟨hmet, hle, hdone⟩ := h.ended e he
    exact ⟨hmet.grow hgrows hle, hle.trans hgrows.posted.length_le, hdone⟩
  have halone : ∀ c, RunAlone v w' (w.ended.filter fun e => e.caller = c) (thread c) (w.resting c) :=
    fun c => (h.alone c).grow hgrows fun e he => (h.ended e (List.mem_of_mem_filter he)).1
  by_cases hfinish : ∃ c, a = .finish c
  · obtain ⟨c, rfl⟩ := hfinish
    obtain ⟨call, exit, hrunning, hexit, rfl⟩ := finish_step hs
    obtain ⟨hdone, hthread⟩ := at_result ((h.call c).reached call hrunning) hexit
    obtain rfl := hdone.exit
    have hmet := ((h.call c).met call hrunning).grow hgrows le_rfl
    refine ⟨hcall, fun e he => ?_, fun c' => ?_⟩
    · rcases List.mem_append.mp he with he | he
      · exact hold e he
      · rw [List.mem_singleton.mp he]
        exact ⟨hmet, le_rfl, hdone⟩
    · show RunAlone v _ ((w.ended ++ [_]).filter fun e => e.caller = c') (thread c') _
      rw [List.filter_append]
      by_cases hc : c = c'
      · subst hc
        simp only [List.filter_cons, List.filter_nil, decide_true, if_true]
        refine runAlone_concat.mpr ⟨_, halone c, ?_, ?_⟩
        · simp only [World.resting, hrunning]
          rw [alone_eq v c _ _ hdone.locked, hmet.requestOf hdone.number]
        · simp only [World.resting, hrunning]
          rw [alone_eq v c _ _ hdone.locked]
          simp only [World.setCall, World.setThread, Function.update_self]
          rw [hthread]
      · rw [List.filter_cons_of_neg (by simpa using hc), List.filter_nil, List.append_nil]
        simp only [World.resting, World.setCall, World.setThread, Function.update_of_ne (Ne.symm hc)]
        exact halone c'
  · have hended : w'.ended = w.ended := by
      cases hs with
      | finished => exact absurd ⟨_, rfl⟩ hfinish
      | _ => rfl
    refine ⟨hcall, by rw [hended]; exact hold, fun c => ?_⟩
    rw [hended, resting_step hs fun heq => hfinish ⟨c, heq⟩]
    exact halone c

theorem callsKept_run (h : (worldMachine v).run (.start v messages rows thread pongThread) actions = some w) :
    CallsKept v messages thread w := by
  refine StepMachine.run_invariant_of_reaches ?_ ?_ h
  · exact ⟨fun c => .of_none rfl rfl, nofun, fun c => rfl⟩
  · rintro w a w' ⟨l, hrun⟩ hkept hs
    exact callsKept_step (worldRuns_run hrun) hkept (worldStep_of_step hs)

/-- In every run of the system, the calls that a thread of Ping has made are calls of its functions that run
alone, one after another; each of them has met a message that was current during the call, and the answer of
Pong to its own request. -/
theorem calls_alone (v : Services P T D) (messages : Messages) (rows : List PongMessage)
    (thread : P × T → TraceThread) (pongThread : D → TraceThread) (actions : List (WorldAction P T D))
    (w : World P T D) (h : (worldMachine v).run (.start v messages rows thread pongThread) actions = some w) :
    (∀ c, RunAlone v w (w.ended.filter fun e => e.caller = c) (thread c) (w.resting c)) ∧
    ∀ e ∈ w.ended, e.call.Met v messages w e.caller e.posted :=
  ⟨(callsKept_run h).alone, fun e he => ((callsKept_run h).ended e he).1⟩

/-- One process with one slot. -/
def oneService : Services Unit Unit Unit where
  lockFile := "lock"
  num := 1
  name := "be-ping-service"
  url := localhost
  lib := inOrder
  ids _ := { hostname := "ping", nextInt := fun k => k }
  pong := onePong

/-- A call from its beginning to its end, and the row of its exchange. -/
def oneExchange : List (WorldAction Unit Unit Unit) :=
  [.exists (), .insertInit (), .message ((), ()) (some "Hi"), .call ((), ()) .request, .tryLock ((), ()),
    .findOne ((), ()), .depart ((), ()), .arrive () 0 0, .respond () true, .answer ((), ()), .unlock ((), ()),
    .finish ((), ()), .deliver 0 true]

theorem exists_oneExchange : ∃ w, (worldMachine oneService).run
    (.start oneService .empty [] (fun _ => ⟨.clear, 0⟩) fun _ => ⟨.clear, 0⟩) oneExchange = some w :=
  Option.isSome_iff_exists.mp (by decide +kernel)

theorem calls_alone_oneExchange : ∃ w, (worldMachine oneService).run
      (.start oneService .empty [] (fun _ => ⟨.clear, 0⟩) fun _ => ⟨.clear, 0⟩) oneExchange = some w ∧
    (∀ c, RunAlone oneService w (w.ended.filter fun e => e.caller = c) ⟨.clear, 0⟩ (w.resting c)) ∧
    ∀ e ∈ w.ended, e.call.Met oneService .empty w e.caller e.posted := by
  obtain ⟨w, hw⟩ := exists_oneExchange
  exact ⟨w, hw, calls_alone oneService .empty [] (fun _ => ⟨.clear, 0⟩) (fun _ => ⟨.clear, 0⟩) oneExchange w hw⟩

end PingPong.Exchange
