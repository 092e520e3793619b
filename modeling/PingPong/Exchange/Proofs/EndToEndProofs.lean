import PingPong.Exchange.EndToEnd
import PingPong.Exchange.Proofs.CallProofs
import PingPong.Exchange.Proofs.ReportProofs

/-!
# Proofs: from end to end

A request on its way has been sent by a call that has got its message from the collection (`SentKept`), Pong
publishes what it has read from the request, and the broker keeps what Pong publishes. No two calls have the
same request (`NumbersKept`).
-/

namespace PingPong.Exchange

open Feign Ping Pong Trace Other

variable {P T D : Type} {v : Services P T D}
  {w w' : World P T D} {a : WorldAction P T D} {c : P × T} {call : Call} {messages : Messages}
  {rows : List PongMessage} {thread : P × T → TraceThread} {pongThread : D → TraceThread}
  {actions : List (WorldAction P T D)} {departed : Departed (P × T)} {h : Handled}

/-! ## Requests -/

theorem traceId_request (msg : Option String) (t : TraceThread) :
    isBlank (v.request c msg t).traceId = false := by
  rw [Services.request, clientRequest, httpRequest_traceId]
  exact isBlank_ensureTraceId

/-- A plain path segment arrives as it is. -/
theorem respondArgument_request {msg : Option String} {t : TraceThread}
    (hsafe : PathSafe v.pong.codec msg) : respondArgument v.pong.codec (v.request c msg t) = msg := by
  cases msg with
  | none => exact hsafe.elim
  | some msg =>
    have hmethod : (clientRequest (PingClient.proxy v.name v.url) v.lib (some msg)
        (t.ensureTraceId (v.ids c)).traceId).method = .get := (clientRequest_eq (some msg) _).1
    rw [respondArgument, Services.request, Services.client, if_pos hmethod]
    exact delivered_of_pathSafe hsafe (clientRequest_url msg _)

/-! ## What has been published -/

/-- The published messages, each with its exchange. -/
theorem published_exchanges (all : List Handled) {l : List Handled} (hl : ∀ h ∈ l, h ∈ all) :
    List.Forall₂ (fun msg h => h.published = some msg ∧ h ∈ all) (l.filterMap Handled.published)
      (l.filter fun h => h.published.isSome) := by
  induction l with
  | nil => exact .nil
  | cons h l ih =>
    have hrest := ih fun h hmem => hl h (List.mem_cons_of_mem _ hmem)
    cases hpub : h.published with
    | none => simpa [hpub] using hrest
    | some msg =>
      rw [List.filterMap_cons_some hpub, List.filter_cons_of_pos (by rw [hpub]; rfl)]
      exact .cons ⟨hpub, hl h List.mem_cons_self⟩ hrest

/-- The requests that the ended calls have sent. -/
def World.numbers (w : World P T D) : List ℕ := w.ended.filterMap fun e => e.call.number

theorem numbers_concat {e : Ended P T} (hended : w'.ended = w.ended ++ [e]) :
    w'.numbers = w.numbers ++ e.call.number.toList := by
  rw [World.numbers, hended, List.filterMap_append]
  cases hi : e.call.number with
  | none => simp [World.numbers, hi]
  | some i => simp [World.numbers, hi]

/-- What `send` makes of the answer of Pong. None but the throttle answers with its code. -/
theorem report_answer (pong : PongServer D) (request : HttpRequest) {outcome : Outcome}
    (hthrottled : ∀ code, outcome = .throttled code → code = HttpStatus.rateLimited) :
    PingService.report (pong.answer request outcome) = pong.report request outcome := by
  cases outcome with
  | throttled code =>
    obtain rfl := hthrottled code rfl
    rfl
  | unmatched =>
    have hcode : HttpStatus.rateLimited ≠ (pong.unmatched request).1 := by
      rcases pong.unmatched_code request with h | h <;> rw [h] <;> decide
    exact if_neg hcode
  | failed => rfl
  | responded returned => rfl

variable [DecidableEq P] [DecidableEq T] [DecidableEq D]

/-! ## Who has sent a request -/

/-- Every request has been sent by a call with a message of the collection. -/
def SentKept (v : Services P T D) (messages : Messages) (w : World P T D) : Prop :=
  ∀ departed ∈ w.transit.sent, ∃ k t, k ≤ w.posted.length ∧
    departed.message = currentMessage messages (w.posted.take k) ∧
    departed.request = v.request departed.caller departed.message t

theorem sentKept_step (hcalls : CallsKept v messages thread w) (h : SentKept v messages w)
    (hs : WorldStep v w a w') : SentKept v messages w' := by
  have hgrows := grows_step hs
  have hold : ∀ departed ∈ w.transit.sent, ∃ k t, k ≤ w'.posted.length ∧
      departed.message = currentMessage messages (w'.posted.take k) ∧
      departed.request = v.request departed.caller departed.message t := by
    intro departed hmem
    obtain ⟨k, t, hk, hmessage, hrequest⟩ := h departed hmem
    exact ⟨k, t, hk.trans hgrows.posted.length_le, by rw [hgrows.take hk]; exact hmessage, hrequest⟩
  cases hs with
  | @departed c call f msg ping hcall hphase hs =>
    intro departed hmem
    rcases List.mem_append.mp hmem with hmem | hmem
    · exact hold departed hmem
    · rw [List.mem_singleton.mp hmem]
      have hat := (hcalls.call c).reached call hcall
      rw [hphase] at hat
      obtain ⟨k, -, hk, hmsg⟩ := ((hcalls.call c).met call hcall).message msg hat.2.1
      exact ⟨k, w.thread c, hk, hmsg, rfl⟩
  | pong ha hs _ _ =>
    have hsent : ∀ {b : TransitAction (P × T) D} {transit : Transit (P × T) D}, a.pong = some b →
        TransitStep v.pong w.transit b transit → transit.sent = w.transit.sent := by
      intro b transit ha hs
      cases hs with
      | departed => cases a <;> cases ha
      | admitted | rejected => rfl
      | @responded d i works departed _ _ =>
        obtain ⟨t, outcome, published, heq, -⟩ := respond_eq w.transit v.pong departed.request d i works
        rw [heq]
        rfl
    intro departed hmem
    exact hold departed (hsent ha (transitStep_of_step hs) ▸ hmem)
  | _ => exact hold

theorem sentKept_run (h : (worldMachine v).run (.start v messages rows thread pongThread) actions = some w) :
    SentKept v messages w := by
  refine StepMachine.run_invariant_of_reaches ?_ ?_ h
  · exact nofun
  · rintro w a w' ⟨l, hrun⟩ hsent hs
    exact sentKept_step (callsKept_run hrun) hsent (worldStep_of_step hs)

/-! ## Rows -/

/-- The row of a published message. -/
theorem rowOf_published (hruns : WorldRuns v messages rows pongThread w) (hsent : SentKept v messages w)
    {msg : MqMessageDTO} (hmem : h ∈ w.transit.handled) (hpublished : h.published = some msg) :
    RowOf v messages w (ReceiveService.onMessage msg) h := by
  obtain ⟨drawn, hids⟩ := hruns.kept.ids
  obtain ⟨departed, hget, hfits⟩ := hids.fits h hmem
  obtain ⟨k, t, hk, hmessage, hrequest⟩ := hsent departed (List.mem_of_getElem? hget)
  unfold Handled.Fits at hfits
  cases houtcome : h.outcome with
  | throttled | unmatched =>
    rw [houtcome] at hfits
    rw [hfits.2] at hpublished
    cases hpublished
  | failed =>
    rw [houtcome] at hfits
    rw [hfits.2.2] at hpublished
    cases hpublished
  | responded returned =>
    rw [houtcome] at hfits
    obtain ⟨-, arg, harg, hbridge⟩ := hfits
    by_cases hstream : v.pong.streamBridge = true
    · rw [if_pos hstream] at hbridge
      obtain ⟨id, heq, hid, -⟩ := hbridge
      rw [heq] at hpublished
      cases hpublished
      have hblank : isBlank departed.request.traceId = false := by rw [hrequest]; exact traceId_request ..
      refine ⟨departed, k, hget, hk, hmessage, hid hblank, ?_, harg.symm, fun hsafe => ?_, rfl⟩
      · show isBlank id = false
        rw [hid hblank]
        exact hblank
      · show some arg = _
        rw [← harg, hrequest]
        exact respondArgument_request hsafe
    · rw [if_neg hstream] at hbridge
      rw [hbridge] at hpublished
      cases hpublished

theorem forall₂_append_left {α β : Type} {R : α → β → Prop} {l₁ l₂ : List α} {l : List β}
    (h : List.Forall₂ R (l₁ ++ l₂) l) :
    ∃ l₁' l₂', l = l₁' ++ l₂' ∧ List.Forall₂ R l₁ l₁' ∧ List.Forall₂ R l₂ l₂' := by
  refine ⟨l.take l₁.length, l.drop l₁.length, (List.take_append_drop ..).symm, ?_, ?_⟩
  · simpa using List.forall₂_take l₁.length h
  · simpa using List.forall₂_drop l₁.length h

/-- The rows are added one by one for the published exchanges, in the order of their deliveries. -/
theorem exchangesKept_run
    (h : (worldMachine v).run (.start v messages rows thread pongThread) actions = some w) :
    ExchangesKept v messages rows w := by
  have hruns := worldRuns_run h
  have hsent := sentKept_run h
  obtain ⟨events, hevents, hpublished⟩ := hruns.broker
  have hbroker := Broker.kept_run hevents
  have hnumbers : (w.transit.handled.map Handled.number).Nodup := by
    have hall := hruns.kept.places.nodup_iff.mpr List.nodup_range
    exact (List.nodup_append.mp hall).2.1
  -- the messages by what has become of them
  set saves := (w.broker.acknowledged.filter (·.2)).map Prod.fst with hsaves
  have hperm : (saves ++ w.broker.failed ++ w.broker.waiting).Perm
      (w.transit.handled.filterMap Handled.published) := by
    have hparts : (saves ++ w.broker.failed).Perm (w.broker.acknowledged.map Prod.fst) := by
      rw [hsaves, Broker.failed, ← List.map_append]
      exact (List.filter_append_perm ..).map _
    refine (hparts.append_right _).trans ?_
    exact hbroker.messages.symm.trans (List.Perm.of_eq hpublished)
  obtain ⟨exchanges, hpairs, hexchanges⟩ := List.perm_comp_forall₂ hperm
    (published_exchanges w.transit.handled fun h hmem => hmem)
  obtain ⟨acknowledged, waiting, rfl, hacknowledged, hwaiting⟩ := forall₂_append_left hpairs
  obtain ⟨saved, lost, rfl, hsaved, hlost⟩ := forall₂_append_left hacknowledged
  refine ⟨saved, lost, waiting, w.broker.saved, hexchanges, ?_, hbroker.rows, ?_,
    hlost.imp fun _ _ h => h.1, hwaiting.imp fun _ _ h => h.1⟩
  · exact hnumbers.sublist (List.filter_sublist.map _)
  · have hrows : w.broker.saved = saves.map ReceiveService.onMessage := by
      rw [hsaves, List.map_map]
      rfl
    rw [hrows, List.forall₂_map_left_iff]
    exact hsaved.imp fun msg h hmsg => rowOf_published hruns hsent hmsg.2 hmsg.1

/-- In every run of the system, every published exchange has one row, or its save has failed, or its message
waits; the rows that have been added are those of the saved exchanges. -/
theorem exchanges_kept (v : Services P T D) (messages : Messages) (rows : List PongMessage)
    (thread : P × T → TraceThread) (pongThread : D → TraceThread) (actions : List (WorldAction P T D))
    (w : World P T D) (h : (worldMachine v).run (.start v messages rows thread pongThread) actions = some w) :
    ExchangesKept v messages rows w :=
  exchangesKept_run h

theorem exchanges_kept_oneExchange : ∃ w, (worldMachine oneService).run
      (.start oneService .empty [] (fun _ => ⟨.clear, 0⟩) fun _ => ⟨.clear, 0⟩) oneExchange = some w ∧
    ExchangesKept oneService .empty [] w := by
  obtain ⟨w, hw⟩ := exists_oneExchange
  exact ⟨w, hw, exchanges_kept oneService .empty [] (fun _ => ⟨.clear, 0⟩) (fun _ => ⟨.clear, 0⟩) oneExchange w
    hw⟩

/-! ## The rate of the rows -/

/-- These are the requests of the ended calls, each of one call, and no running call has one of them. -/
structure NumbersKept (w : World P T D) (numbers : List ℕ) : Prop where
  nodup : numbers.Nodup
  sent : ∀ i ∈ numbers, i < w.transit.sent.length
  running : ∀ c call i, w.calls c = some call → call.number = some i → i ∉ numbers

/-- A call keeps the number of its request, or gets the next one. -/
theorem number_step (hs : WorldStep v w a w') {i : ℕ} (hcall : w'.calls c = some call)
    (hi : call.number = some i) :
    (∃ call', w.calls c = some call' ∧ call'.number = some i) ∨ i = w.transit.sent.length := by
  by_cases hc : a.actor = some c
  · have hself : ∀ {call' : Call}, Function.update w.calls c (some call') c = some call → call = call' := by
      intro call' hupdate
      rw [Function.update_self] at hupdate
      exact (Option.some.inj hupdate).symm
    cases hs with
    | checked | created | posted | absent | duplicate | lookupFailed | pong | answerFailed | unlocked
    | destroyed | delivered => exact .inl ⟨call, hcall, hi⟩
    | called =>
      cases hc
      obtain rfl := hself hcall
      cases hi
    | tried hold => cases hc; obtain rfl := hself hcall; exact .inl ⟨_, hold, hi⟩
    | found ha hold =>
      obtain rfl := Option.some.inj ((actor_of_lookup ha).symm.trans hc)
      obtain rfl := hself hcall
      exact .inl ⟨_, hold, hi⟩
    | departed =>
      cases hc
      obtain rfl := hself hcall
      exact .inr (Option.some.inj hi).symm
    | answered hold => cases hc; obtain rfl := hself hcall; exact .inl ⟨_, hold, hi⟩
    | finished =>
      cases hc
      have hnone : Function.update w.calls c none c = none := Function.update_self ..
      cases hnone.symm.trans hcall
  · exact .inl ⟨call, (frame_step hs hc).1 ▸ hcall, hi⟩

theorem numbersKept_step (hcalls : CallsKept v messages thread w) (h : NumbersKept w w.numbers)
    (hs : WorldStep v w a w') : NumbersKept w' w'.numbers := by
  have hgrows := grows_step hs
  have hrunning : ∀ c call i, w'.calls c = some call → call.number = some i → i ∉ w.numbers := by
    intro c call i hcall hi hmem
    rcases number_step hs hcall hi with ⟨call', hcall', hi'⟩ | rfl
    · exact h.running c call' i hcall' hi' hmem
    · exact absurd (h.sent _ hmem) (lt_irrefl _)
  have hsent : ∀ i ∈ w.numbers, i < w'.transit.sent.length :=
    fun i hmem => (h.sent i hmem).trans_le hgrows.sent.length_le
  by_cases hfinish : ∃ c, a = .finish c
  · obtain ⟨c, rfl⟩ := hfinish
    obtain ⟨call, exit, hcall, -, rfl⟩ := finish_step hs
    have hmet := (hcalls.call c).met call hcall
    rw [numbers_concat (w := w) rfl]
    refine ⟨?_, fun i hi => ?_, fun c' call' i hcall' hi hmem => ?_⟩
    · refine List.nodup_append.mpr ⟨h.nodup, ?_, ?_⟩
      · cases call.number with
        | none => exact .nil
        | some i => exact List.nodup_singleton i
      · rintro i hi _ hj rfl
        exact h.running c call i hcall (Option.mem_toList.mp hj) hi
    · rcases List.mem_append.mp hi with hold | hnew
      · exact hsent i hold
      · obtain ⟨departed, hget, -⟩ := hmet.request i (Option.mem_toList.mp hnew)
        exact (List.getElem?_eq_some_iff.mp hget).1
    · rcases List.mem_append.mp hmem with hold | hnew
      · exact hrunning c' call' i hcall' hi hold
      · -- the request says whose it is
        have hne : c' ≠ c := by
          rintro rfl
          have hnone : Function.update w.calls c' none c' = none := Function.update_self ..
          cases hnone.symm.trans hcall'
        have hcall'' : w.calls c' = some call' := (Function.update_of_ne hne ..).symm.trans hcall'
        obtain ⟨departed, hget, hcaller, -⟩ := hmet.request i (Option.mem_toList.mp hnew)
        obtain ⟨departed', hget', hcaller', -⟩ := ((hcalls.call c').met call' hcall'').request i hi
        obtain rfl := Option.some.inj (hget.symm.trans hget')
        exact hne (hcaller'.symm.trans hcaller)
  · have hnumbers : w'.numbers = w.numbers := by
      cases hs with
      | finished => exact absurd ⟨_, rfl⟩ hfinish
      | _ => rfl
    rw [hnumbers]
    exact ⟨h.nodup, hsent, hrunning⟩

theorem numbersKept_run (h : (worldMachine v).run (.start v messages rows thread pongThread) actions = some w) :
    NumbersKept w w.numbers := by
  refine StepMachine.run_invariant_of_reaches (I := fun w => NumbersKept w w.numbers) ?_ ?_ h
  · exact ⟨.nil, nofun, nofun⟩
  · rintro w a w' ⟨l, hrun⟩ hnumbers hs
    exact numbersKept_step (callsKept_run hrun) hnumbers (worldStep_of_step hs)

/-! ## Answers -/

/-- In every run of the system, no request belongs to two calls, and every call that has ended reports what
has become of its own request, or throws. -/
theorem calls_reported (v : Services P T D) (messages : Messages) (rows : List PongMessage)
    (thread : P × T → TraceThread) (pongThread : D → TraceThread) (actions : List (WorldAction P T D))
    (w : World P T D) (h : (worldMachine v).run (.start v messages rows thread pongThread) actions = some w) :
    (w.ended.filterMap fun e => e.call.number).Nodup ∧ ∀ e ∈ w.ended, e.Reported v w := by
  refine ⟨(numbersKept_run h).nodup, fun e he => ?_⟩
  obtain ⟨hmet, -, hexit, hlocked, hnumber⟩ := (callsKept_run h).ended e he
  unfold Ended.Reported
  cases hi : e.call.number with
  | none =>
    have hnone : e.call.message = none := by
      rw [hi] at hnumber
      exact Option.isNone_iff_eq_none.mp (Option.isSome_eq_false_iff.mp hnumber.symm)
    show e.exit = _
    rw [hexit, Call.exit, hnone]
  | some i =>
    obtain ⟨departed, hget, hcaller, hmessage, -⟩ := hmet.request i hi
    have hgot : e.call.locked = true := by
      cases hfalse : e.call.locked with
      | true => rfl
      | false => rw [hlocked hfalse] at hmessage; cases hmessage
    refine ⟨departed, hget, hcaller, ?_⟩
    rw [hexit, Call.exit, hgot, hmessage, if_pos rfl]
    cases hresponse : e.call.response with
    | none => exact .inl rfl
    | some response =>
      obtain ⟨i', departed', handled, hi', hget', hmem, hnum, rfl⟩ := hmet.response response hresponse
      obtain rfl := Option.some.inj (hi.symm.trans hi')
      obtain rfl := Option.some.inj (hget.symm.trans hget')
      refine .inr ⟨handled, hmem, hnum, report_answer v.pong departed.request fun code hcode => ?_⟩
      obtain ⟨_, hids⟩ := (worldRuns_run h).kept.ids
      obtain ⟨_, _, hfits⟩ := hids.fits handled hmem
      unfold Handled.Fits at hfits
      rw [hcode] at hfits
      exact hfits.1

theorem calls_reported_oneExchange : ∃ w, (worldMachine oneService).run
      (.start oneService .empty [] (fun _ => ⟨.clear, 0⟩) fun _ => ⟨.clear, 0⟩) oneExchange = some w ∧
    (w.ended.filterMap fun e => e.call.number).Nodup ∧ ∀ e ∈ w.ended, e.Reported oneService w := by
  obtain ⟨w, hw⟩ := exists_oneExchange
  exact ⟨w, hw, calls_reported oneService .empty [] (fun _ => ⟨.clear, 0⟩) (fun _ => ⟨.clear, 0⟩) oneExchange w hw⟩

end PingPong.Exchange
