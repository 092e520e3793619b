import PingPong.Exchange.Transit
import PingPong.Exchange.Proofs.DeliveryProofs
import PingPong.Pong.Proofs.LimiterProofs
import PingPong.Pong.Proofs.TraceSurvivesProofs
import Mathlib.Data.List.Perm.Basic

/-!
# Proofs: requests on their way

Pong neither loses a request that has reached it nor answers one twice, whatever the order in which its
threads take their steps. `TransitStep` lists the steps, and `TransitKept` is the invariant: `TransitAccounts`
with what the steps need of the throttle and of the threads. What has been drawn for the requests without a
trace id is part of it (`TransitIds`).
-/

namespace PingPong.Exchange

open Feign Ping Pong Trace

variable {C D : Type} {v : PongServer D} {s s' : Transit C D} {a : TransitAction C D}
  {d : D} {i : ℕ} {now : ℚ} {works : Bool} {departed : Departed C} {request : HttpRequest}
  {actions : List (TransitAction C D)} {pongThread : D → TraceThread} {drawn : ℕ → Option (D × ℕ)}

/-! ## The invariant -/

theorem isBlank_of_runsUnder {draw : Option (D × ℕ)} {id : Option String} (h : v.RunsUnder draw request id) :
    isBlank id = false := by
  cases hblank : isBlank request.traceId with
  | false => rw [h.1 hblank, hblank]
  | true =>
    obtain ⟨d, k, -, hid⟩ := h.2 hblank
    rw [hid, isBlank_generateTraceId]

/-- Pong's threads run under the ids of their requests, and the answers fit. -/
structure TransitIds (v : PongServer D) (pongThread : D → TraceThread) (s : Transit C D)
    (drawn : ℕ → Option (D × ℕ)) : Prop where
  draws : DrawnFor pongThread s.pongThread drawn
  threads : ∀ d i, (d, i) ∈ s.handling → ∃ departed, s.sent[i]? = some departed ∧
    v.RunsUnder (drawn i) departed.request (s.pongThread d).traceId
  fits : ∀ h ∈ s.handled, ∃ departed, s.sent[h.number]? = some departed ∧
    h.Fits v (drawn h.number) departed.request

structure TransitKept (v : PongServer D) (pongThread : D → TraceThread) (s : Transit C D) : Prop where
  places : (s.wire ++ s.handling.map Prod.snd ++ s.handled.map Handled.number).Perm
    (List.range s.sent.length)
  admissions : ((s.arrivals.filter Arrival.admitted).map Arrival.number).Perm
    (s.handling.map Prod.snd ++ (s.handled.filter Handled.admitted).map Handled.number)
  rejections : ((s.arrivals.filter (!·.admitted)).map Arrival.number).Perm
    ((s.handled.filter (!·.admitted)).map Handled.number)
  served : s.arrivals.map (fun a => (a.time, a.fate)) =
    (ThrottlingInterceptor.init v.rateLimite).serve (s.arrivals.map Arrival.time)
  sorted : (s.arrivals.map Arrival.time).Pairwise (· ≤ ·) ∧ ∀ t ∈ s.arrivals.map Arrival.time, 0 ≤ t
  throttling : s.throttling = (ThrottlingInterceptor.init v.rateLimite).after (s.arrivals.map Arrival.time)
  clock_nonneg : 0 ≤ s.clock
  clock : ∀ t ∈ s.arrivals.map Arrival.time, t ≤ s.clock
  free : (s.handling.map Prod.fst).Nodup
  since : ∀ d, (pongThread d).drawn ≤ (s.pongThread d).drawn
  ids : ∃ drawn, TransitIds v pongThread s drawn

theorem TransitKept.accounts (h : TransitKept v pongThread s) : TransitAccounts v pongThread s where
  places := h.places
  admissions := h.admissions
  rejections := h.rejections
  served := h.served
  sorted := h.sorted
  fits := by
    obtain ⟨drawn, hids⟩ := h.ids
    exact ⟨drawn, hids.draws, hids.fits⟩

theorem transitKept_start (pongThread : D → TraceThread) :
    TransitKept v pongThread (.start v pongThread : Transit C D) where
  places := .refl _
  admissions := .refl _
  rejections := .refl _
  served := rfl
  sorted := ⟨.nil, nofun⟩
  throttling := rfl
  clock_nonneg := le_rfl
  clock := nofun
  free := .nil
  since _ := le_rfl
  ids := ⟨fun _ => none, ⟨by rintro i j draw ⟨⟩, by rintro i d k ⟨⟩⟩, nofun, nofun⟩

/-- A request on the wire is nowhere else. -/
theorem TransitKept.of_wire (h : TransitKept v pongThread s) (hwire : i ∈ s.wire) :
    i ∉ s.handling.map Prod.snd ∧ i ∉ s.handled.map Handled.number := by
  have hnodup := h.places.nodup_iff.mpr List.nodup_range
  rw [List.append_assoc] at hnodup
  have hother := fun hmem => (List.nodup_append.mp hnodup).2.2 i hwire i hmem rfl
  exact ⟨fun hmem => hother (List.mem_append_left _ hmem), fun hmem => hother (List.mem_append_right _ hmem)⟩

/-- A free thread is at no request. -/
theorem notMem_of_free (hfree : d ∉ s.handling.map Prod.fst) (j : ℕ) : (d, j) ∉ s.handling :=
  fun hmem => hfree (List.mem_map_of_mem hmem)

/-! ## Departures -/

theorem transitKept_depart (h : TransitKept v pongThread s) (c : C) (message : Option String)
    (request : HttpRequest) : TransitKept v pongThread (s.depart c message request) := by
  -- what has left keeps its number
  have hget : ∀ {i : ℕ} {departed : Departed C}, s.sent[i]? = some departed →
      (s.sent ++ [⟨c, message, request⟩])[i]? = some departed := by
    intro i departed hi
    rw [List.getElem?_append_left (List.getElem?_eq_some_iff.mp hi).1, hi]
  refine { h with places := ?_, ids := ?_ }
  · show (s.wire ++ [s.sent.length] ++ s.handling.map Prod.snd ++ s.handled.map Handled.number).Perm
      (List.range (s.sent ++ [_]).length)
    rw [List.length_append, List.length_singleton, List.range_succ]
    simp only [List.append_assoc, List.singleton_append]
    refine List.perm_middle.trans (List.Perm.trans ?_ (List.perm_append_singleton _ _).symm)
    exact (List.append_assoc .. ▸ h.places).cons _
  · obtain ⟨drawn, hids⟩ := h.ids
    refine ⟨drawn, hids.draws, fun d i hmem => ?_, fun answer hanswer => ?_⟩
    · obtain ⟨departed, hsent, hid⟩ := hids.threads d i hmem
      exact ⟨departed, hget hsent, hid⟩
    · obtain ⟨departed, hsent, hfits⟩ := hids.fits answer hanswer
      exact ⟨departed, hget hsent, hfits⟩

/-! ## One more arrival -/

theorem after_concat (throttling : ThrottlingInterceptor) (ts : List ℚ) (now : ℚ) :
    throttling.after (ts ++ [now]) = ((throttling.after ts).filter now).2 :=
  List.foldl_concat ..

/-- The throttle sees one more request. -/
theorem served_concat (h : TransitKept v pongThread s) {fate : Filtered}
    (hfate : (s.throttling.filter now).1 = fate) :
    (s.arrivals ++ [Arrival.mk i now fate]).map (fun a => (a.time, a.fate)) =
      (ThrottlingInterceptor.init v.rateLimite).serve
        ((s.arrivals ++ [Arrival.mk i now fate]).map Arrival.time) := by
  rw [List.map_append, List.map_append, serve_append, ← h.served, ← h.throttling]
  exact congrArg _ (congrArg (fun fate => [(now, fate)]) hfate.symm)

theorem throttling_concat (h : TransitKept v pongThread s) (fate : Filtered) :
    (s.throttling.filter now).2 =
      (ThrottlingInterceptor.init v.rateLimite).after
        ((s.arrivals ++ [Arrival.mk i now fate]).map Arrival.time) := by
  rw [List.map_append, List.map_singleton, after_concat, ← h.throttling]

/-- Times go on behind the clock. -/
theorem sorted_concat (h : TransitKept v pongThread s) (hclock : s.clock ≤ now) (fate : Filtered) :
    (((s.arrivals ++ [Arrival.mk i now fate]).map Arrival.time).Pairwise (· ≤ ·) ∧
      ∀ t ∈ (s.arrivals ++ [Arrival.mk i now fate]).map Arrival.time, 0 ≤ t) ∧
    ∀ t ∈ (s.arrivals ++ [Arrival.mk i now fate]).map Arrival.time, t ≤ now := by
  rw [List.map_append, List.map_singleton]
  refine ⟨⟨List.pairwise_append.mpr ⟨h.sorted.1, List.pairwise_singleton _ _, ?_⟩, ?_⟩, ?_⟩
  · rintro t ht _ (_ | ⟨_, ⟨⟩⟩)
    exact (h.clock t ht).trans hclock
  · intro t ht
    rcases List.mem_append.mp ht with ht | ht
    · exact h.sorted.2 t ht
    · rw [List.mem_singleton.mp ht]
      exact h.clock_nonneg.trans hclock
  · intro t ht
    rcases List.mem_append.mp ht with ht | ht
    · exact (h.clock t ht).trans hclock
    · rw [List.mem_singleton.mp ht]

variable [DecidableEq D]

/-! ## The steps -/

/-- The thread of Pong behind the trace filters. -/
def Transit.filtered (s : Transit C D) (v : PongServer D) (request : HttpRequest) (d : D) : TraceThread :=
  v.order.thread (v.ids d) (request.traceId.map fun id => [id]) (s.pongThread d)

/-- The steps of the machine, one constructor for each way a label can be taken. -/
inductive TransitStep (v : PongServer D) (s : Transit C D) : TransitAction C D → Transit C D → Prop where
  | departed (c : C) (message : Option String) (request : HttpRequest) :
      TransitStep v s (.depart c message request) (s.depart c message request)
  | admitted {d : D} {i : ℕ} {now : ℚ} {departed : Departed C} (hwire : i ∈ s.wire)
      (hfree : d ∉ s.handling.map Prod.fst) (hclock : s.clock ≤ now) (hsent : s.sent[i]? = some departed)
      (hfate : (s.throttling.filter now).1 = .chain) :
      TransitStep v s (.arrive d i now)
        { s.setThread d (s.filtered v departed.request d) with
          wire := s.wire.erase i
          clock := now
          throttling := (s.throttling.filter now).2
          arrivals := s.arrivals ++ [⟨i, now, .chain⟩]
          handling := (d, i) :: s.handling }
  | rejected {d : D} {i : ℕ} {now : ℚ} {departed : Departed C} {code : Int} (hwire : i ∈ s.wire)
      (hfree : d ∉ s.handling.map Prod.fst) (hclock : s.clock ≤ now) (hsent : s.sent[i]? = some departed)
      (hfate : (s.throttling.filter now).1 = .status code) :
      TransitStep v s (.arrive d i now)
        { s.setThread d (s.filtered v departed.request d) with
          wire := s.wire.erase i
          clock := now
          throttling := (s.throttling.filter now).2
          arrivals := s.arrivals ++ [⟨i, now, .status code⟩]
          handled := s.handled ++ [⟨i, .throttled code, none⟩] }
  | responded {d : D} {i : ℕ} {works : Bool} {departed : Departed C} (hhandling : (d, i) ∈ s.handling)
      (hsent : s.sent[i]? = some departed) :
      TransitStep v s (.respond d works) (s.respond v departed.request d i works)

theorem transitStep_of_step (h : (transitMachine C v).step s a = some s') : TransitStep v s a s' := by
  cases a with
  | depart c message request =>
    cases h
    exact .departed c message request
  | arrive d i now =>
    simp only [transitMachine, Option.ite_none_right_eq_some, Option.map_eq_some_iff] at h
    obtain ⟨⟨hwire, hfree, hclock⟩, departed, hsent, rfl⟩ := h
    simp only [Transit.arrive, filter_eq]
    cases hfate : (s.throttling.filter now).1 with
    | chain => exact .admitted hwire hfree hclock hsent hfate
    | status code => exact .rejected hwire hfree hclock hsent hfate
  | respond d works =>
    simp only [transitMachine, Option.bind_eq_some_iff, Option.map_eq_some_iff] at h
    obtain ⟨i, hlookup, departed, hsent, rfl⟩ := h
    refine .responded ?_ hsent
    obtain ⟨l, l', heq, -⟩ := List.lookup_eq_some_iff.mp hlookup
    rw [heq]
    exact List.mem_append_right _ List.mem_cons_self

/-! ## The controller -/

theorem payload_message (req : Option String) (resp : String) (t : TraceThread) :
    (PongService.message req resp t).1.message.payload = ⟨t.traceId, req, some resp⟩ := by
  simp only [PongService.message, MqInterceptor.preSend, MqInterceptor.preSend.stamp]
  split
  · split
    · split
      · split <;> rfl
      · rfl
    · rfl
  · split
    · split <;> rfl
    · rfl

/-- The controller answers the request. On a thread that runs under the trace id of the request the answer
fits, and the thread goes on with this id. -/
theorem respond_eq (s : Transit C D) (v : PongServer D) (request : HttpRequest) (d : D) (i : ℕ) (works : Bool) :
    ∃ t outcome published, s.respond v request d i works = (s.setThread d t).close d i outcome published ∧
      Handled.admitted ⟨i, outcome, published⟩ = true ∧
      ∀ draw, v.RunsUnder draw request (s.pongThread d).traceId →
        t = s.pongThread d ∧ Handled.Fits v draw request ⟨i, outcome, published⟩ := by
  have hself : s.setThread d (s.pongThread d) = s := by
    unfold Transit.setThread
    rw [Function.update_eq_self]
  -- publishing leaves a thread with a trace id as it is
  have hpublish : ∀ {draw : Option (D × ℕ)} (msg : String), v.RunsUnder draw request (s.pongThread d).traceId →
      (PongService.message (some msg) MappedConstant.responseMsg (s.pongThread d)).2 = s.pongThread d := by
    intro draw msg hruns
    have hblank := isBlank_of_runsUnder hruns
    obtain ⟨id, hid, hnot⟩ := exists_of_not_blank (by rw [hblank]; exact Bool.false_ne_true)
    exact (message_carries (some msg) MappedConstant.responseMsg hid hnot).2
  unfold Transit.respond
  cases harg : respondArgument v.codec request with
  | none => exact ⟨s.pongThread d, .unmatched, none, by rw [hself], rfl, fun _ _ => ⟨rfl, harg, rfl⟩⟩
  | some msg =>
    cases hbridge : v.streamBridge with
    | false =>
      refine ⟨s.pongThread d, .responded MappedConstant.responseMsg, none, rfl, rfl, fun _ _ =>
        ⟨rfl, rfl, msg, harg, ?_⟩⟩
      rw [hbridge]
      exact rfl
    | true =>
      cases works with
      | false =>
        refine ⟨_, .failed, none, rfl, rfl, fun _ hruns => ⟨hpublish msg hruns, hbridge, ?_, rfl⟩⟩
        rw [harg]
        rfl
      | true =>
        refine ⟨_, .responded MappedConstant.responseMsg, _, rfl, rfl, fun _ hruns =>
          ⟨hpublish msg hruns, rfl, msg, harg, ?_⟩⟩
        rw [hbridge]
        exact ⟨(s.pongThread d).traceId, congrArg some (payload_message _ _ _), hruns⟩

/-! ## Draws -/

theorem drawn_le_update (request : HttpRequest) (d' : D) :
    (s.pongThread d').drawn ≤ (Function.update s.pongThread d (s.filtered v request d) d').drawn := by
  by_cases hd : d' = d
  · subst hd
    rw [Function.update_self]
    exact drawn_le_thread _
  · rw [Function.update_of_ne hd]

theorem since_update (hsince : ∀ d, (pongThread d).drawn ≤ (s.pongThread d).drawn) (request : HttpRequest)
    (d' : D) : (pongThread d').drawn ≤ (Function.update s.pongThread d (s.filtered v request d) d').drawn :=
  (hsince d').trans (drawn_le_update request d')

/-- The filters make at most one draw known, for a request without a trace id, and the thread then runs under the
id of the request. The other requests keep what has been drawn for them. -/
theorem exists_drawn (hdraws : DrawnFor pongThread s.pongThread drawn)
    (hsince : ∀ d, (pongThread d).drawn ≤ (s.pongThread d).drawn) (request : HttpRequest) (d : D) (i : ℕ) :
    ∃ drawn', DrawnFor pongThread (Function.update s.pongThread d (s.filtered v request d)) drawn' ∧
      v.RunsUnder (drawn' i) request (s.filtered v request d).traceId ∧ ∀ j, j ≠ i → drawn' j = drawn j := by
  have hold : ∀ j d' k, drawn j = some (d', k) → (pongThread d').drawn ≤ k ∧
      k < (Function.update s.pongThread d (s.filtered v request d) d').drawn := by
    intro j d' k hj
    obtain ⟨hfrom, hto⟩ := hdraws.since j d' k hj
    exact ⟨hfrom, hto.trans_le (drawn_le_update request d')⟩
  have hheader : (request.traceId.map fun id => [id]).bind List.head? = request.traceId := by
    cases request.traceId <;> rfl
  cases hblank : isBlank request.traceId with
  | false =>
    refine ⟨drawn, ⟨hdraws.distinct, hold⟩, ⟨fun _ => ?_, ?_⟩, fun _ _ => rfl⟩
    · obtain ⟨id, hid, hnot⟩ := exists_of_not_blank (by rw [hblank]; exact Bool.false_ne_true)
      rw [hid]
      exact (thread_of_header v.order (v.ids d) (s.pongThread d) (hheader.trans hid) hnot).1
    · intro h
      rw [hblank] at h
      cases h
  | true =>
    obtain ⟨k, hfrom, hto, hid⟩ := thread_of_blank v.order (v.ids d) (s.pongThread d)
      (hheader.symm ▸ hblank : isBlank ((request.traceId.map fun id => [id]).bind List.head?) = true)
    -- no earlier request has this number of the thread
    have hnew : ∀ j, drawn j ≠ some (d, k) := by
      intro j hj
      have hlt := (hdraws.since j d k hj).2
      omega
    refine ⟨Function.update drawn i (some (d, k)), ⟨?_, ?_⟩, ⟨?_, fun _ => ⟨d, k, ?_, hid⟩⟩, fun j hj =>
      Function.update_of_ne hj ..⟩
    · intro a b draw ha hb
      by_cases hai : a = i
      · by_cases hbi : b = i
        · exact hai.trans hbi.symm
        · rw [hai, Function.update_self] at ha
          rw [Function.update_of_ne hbi] at hb
          exact absurd (hb.trans ha.symm) (hnew b)
      · rw [Function.update_of_ne hai] at ha
        by_cases hbi : b = i
        · rw [hbi, Function.update_self] at hb
          exact absurd (ha.trans hb.symm) (hnew a)
        · rw [Function.update_of_ne hbi] at hb
          exact hdraws.distinct a b draw ha hb
    · intro j d' k' hj
      by_cases hji : j = i
      · rw [hji, Function.update_self] at hj
        cases hj
        rw [Function.update_self]
        exact ⟨(hsince d).trans hfrom, hto⟩
      · rw [Function.update_of_ne hji] at hj
        exact hold j d' k' hj
    · intro h
      rw [hblank] at h
      cases h
    · exact Function.update_self ..

/-- The request `i` has reached the free thread `d`: it runs under its id there, and the other threads and the
answers are as before. -/
structure Reached (v : PongServer D) (pongThread : D → TraceThread) (s : Transit C D) (request : HttpRequest)
    (d : D) (i : ℕ) (drawn : ℕ → Option (D × ℕ)) : Prop where
  draws : DrawnFor pongThread (Function.update s.pongThread d (s.filtered v request d)) drawn
  here : v.RunsUnder (drawn i) request (s.filtered v request d).traceId
  threads : ∀ d' j, (d', j) ∈ s.handling → ∃ departed, s.sent[j]? = some departed ∧
    v.RunsUnder (drawn j) departed.request
      (Function.update s.pongThread d (s.filtered v request d) d').traceId
  fits : ∀ h ∈ s.handled, ∃ departed, s.sent[h.number]? = some departed ∧
    h.Fits v (drawn h.number) departed.request

theorem exists_reached (h : TransitKept v pongThread s) (hwire : i ∈ s.wire)
    (hfree : d ∉ s.handling.map Prod.fst) (request : HttpRequest) :
    ∃ drawn, Reached v pongThread s request d i drawn := by
  obtain ⟨drawn, hids⟩ := h.ids
  obtain ⟨drawn', hdraws, hhere, hother⟩ := exists_drawn hids.draws h.since request d i
  obtain ⟨hhandling, hhandled⟩ := h.of_wire hwire
  refine ⟨drawn', hdraws, hhere, fun d' j hmem => ?_, fun answer hmem => ?_⟩
  · have hd : d' ≠ d := by
      rintro rfl
      exact notMem_of_free hfree j hmem
    have hj : j ≠ i := by
      rintro rfl
      exact hhandling (List.mem_map_of_mem hmem)
    rw [Function.update_of_ne hd, hother j hj]
    exact hids.threads d' j hmem
  · have hnumber : answer.number ≠ i := by
      intro heq
      exact hhandled (heq ▸ List.mem_map_of_mem hmem)
    rw [hother _ hnumber]
    exact hids.fits answer hmem

/-! ## Arrivals -/

theorem transitKept_arrive (h : TransitKept v pongThread s) (hs : TransitStep v s (.arrive d i now) s') :
    TransitKept v pongThread s' := by
  have hmoved : ∀ {places : List ℕ}, i ∈ s.wire → (i :: (s.wire.erase i ++ places)).Perm (s.wire ++ places) :=
    fun hwire => ((List.perm_cons_erase hwire).append_right _).symm
  cases hs with
  | @admitted d i now departed hwire hfree hclock hsent hfate =>
    have htimes := sorted_concat (i := i) h hclock .chain
    refine
      { places := ?_
        admissions := ?_
        rejections := ?_
        served := served_concat h hfate
        sorted := htimes.1
        throttling := throttling_concat h .chain
        clock_nonneg := h.clock_nonneg.trans hclock
        clock := htimes.2
        free := List.nodup_cons.mpr ⟨hfree, h.free⟩
        since := since_update h.since departed.request
        ids := ?_ }
    · refine List.Perm.trans ?_ h.places
      show (s.wire.erase i ++ i :: s.handling.map Prod.snd ++ s.handled.map Handled.number).Perm _
      rw [List.append_assoc, List.append_assoc]
      exact List.perm_middle.trans (hmoved hwire)
    · show (((s.arrivals ++ [_]).filter Arrival.admitted).map Arrival.number).Perm
        (i :: (s.handling.map Prod.snd ++ _))
      rw [List.filter_append, List.map_append]
      exact (List.perm_append_singleton _ _).trans (h.admissions.cons i)
    · show (((s.arrivals ++ [_]).filter fun a : Arrival => !a.admitted).map Arrival.number).Perm _
      rw [List.filter_append, List.map_append]
      exact (List.append_nil _) ▸ h.rejections
    · obtain ⟨drawn, hreached⟩ := exists_reached h hwire hfree departed.request
      refine ⟨drawn, hreached.draws, fun d' i' hmem => ?_, hreached.fits⟩
      rcases List.mem_cons.mp hmem with heq | hother
      · cases heq
        refine ⟨departed, hsent, ?_⟩
        show v.RunsUnder _ _ (Function.update s.pongThread d _ d).traceId
        rw [Function.update_self]
        exact hreached.here
      · exact hreached.threads d' i' hother
  | @rejected d i now departed code hwire hfree hclock hsent hfate =>
    have htimes := sorted_concat (i := i) h hclock (.status code)
    refine
      { places := ?_
        admissions := ?_
        rejections := ?_
        served := served_concat h hfate
        sorted := htimes.1
        throttling := throttling_concat h (.status code)
        clock_nonneg := h.clock_nonneg.trans hclock
        clock := htimes.2
        free := h.free
        since := since_update h.since departed.request
        ids := ?_ }
    · refine List.Perm.trans ?_ h.places
      show (s.wire.erase i ++ s.handling.map Prod.snd ++ (s.handled ++ [_]).map Handled.number).Perm _
      rw [List.map_append, ← List.append_assoc]
      refine (List.perm_append_singleton _ _).trans ?_
      rw [List.append_assoc, List.append_assoc]
      exact hmoved hwire
    · show (((s.arrivals ++ [_]).filter Arrival.admitted).map Arrival.number).Perm
        (_ ++ ((s.handled ++ [_]).filter Handled.admitted).map Handled.number)
      rw [List.filter_append, List.map_append, List.filter_append, List.map_append]
      exact (List.append_nil _).symm ▸ (List.append_nil _).symm ▸ h.admissions
    · show (((s.arrivals ++ [_]).filter fun a : Arrival => !a.admitted).map Arrival.number).Perm
        (((s.handled ++ [_]).filter fun h : Handled => !h.admitted).map Handled.number)
      rw [List.filter_append, List.map_append, List.filter_append, List.map_append]
      exact h.rejections.append_right [i]
    · obtain ⟨drawn, hreached⟩ := exists_reached h hwire hfree departed.request
      refine ⟨drawn, hreached.draws, hreached.threads, fun answer hanswer => ?_⟩
      rcases List.mem_append.mp hanswer with hanswer | hanswer
      · exact hreached.fits answer hanswer
      · rw [List.mem_singleton.mp hanswer]
        refine ⟨departed, hsent, ?_, rfl⟩
        have hfiltered : (now, Filtered.status code) ∈
            (ThrottlingInterceptor.init v.rateLimite).serve
              ((s.arrivals ++ [Arrival.mk i now (.status code)]).map Arrival.time) := by
          rw [← served_concat h hfate, List.map_append]
          exact List.mem_append_right _ List.mem_cons_self
        exact Filtered.status.inj (serve_status _ hfiltered nofun)

/-! ## Answers -/

theorem transitKept_respond (h : TransitKept v pongThread s) (hs : TransitStep v s (.respond d works) s') :
    TransitKept v pongThread s' := by
  cases hs with
  | @responded d i works departed hhandling hsent =>
  obtain ⟨drawn, hids⟩ := h.ids
  obtain ⟨departed', hsent', hruns⟩ := hids.threads d i hhandling
  obtain rfl := Option.some.inj (hsent.symm.trans hsent')
  obtain ⟨t, outcome, published, heq, hadmitted, hfits⟩ := respond_eq s v departed.request d i works
  obtain ⟨rfl, hanswer⟩ := hfits _ hruns
  rw [heq, Transit.setThread, Function.update_eq_self]
  have hperm := (List.perm_cons_erase hhandling).map Prod.snd
  refine
    { h with
      places := ?_
      admissions := ?_
      rejections := ?_
      free := h.free.sublist (List.erase_sublist.map _)
      ids := ⟨drawn, hids.draws, fun d' j hmem => hids.threads d' j (List.mem_of_mem_erase hmem), ?_⟩ }
  · refine List.Perm.trans ?_ h.places
    show (s.wire ++ (s.handling.erase (d, i)).map Prod.snd ++ (s.handled ++ [_]).map Handled.number).Perm _
    rw [List.map_append, ← List.append_assoc]
    refine (List.perm_append_singleton _ _).trans ?_
    refine (List.perm_middle.append_right _).symm.trans ?_
    exact (hperm.symm.append_left _).append_right _
  · refine h.admissions.trans ?_
    show (s.handling.map Prod.snd ++ _).Perm ((s.handling.erase (d, i)).map Prod.snd ++
      ((s.handled ++ [_]).filter Handled.admitted).map Handled.number)
    rw [List.filter_append, List.map_append, List.filter_cons_of_pos hadmitted, List.filter_nil,
      ← List.append_assoc]
    exact (hperm.append_right _).trans (List.perm_append_singleton _ _).symm
  · show ((s.arrivals.filter fun a : Arrival => !a.admitted).map Arrival.number).Perm
      (((s.handled ++ [_]).filter fun h : Handled => !h.admitted).map Handled.number)
    rw [List.filter_append, List.map_append, List.filter_cons_of_neg (by rw [hadmitted]; decide),
      List.filter_nil, List.map_nil, List.append_nil]
    exact h.rejections
  · intro answer hmem
    rcases List.mem_append.mp hmem with hmem | hmem
    · exact hids.fits answer hmem
    · rw [List.mem_singleton.mp hmem]
      exact ⟨departed, hsent, hanswer⟩

/-! ## Runs -/

theorem transitKept_step (h : TransitKept v pongThread s) (hs : TransitStep v s a s') :
    TransitKept v pongThread s' := by
  cases a with
  | depart c message request =>
    cases hs
    exact transitKept_depart h c message request
  | arrive d i now => exact transitKept_arrive h hs
  | respond d works => exact transitKept_respond h hs

theorem transitKept_run (h : (transitMachine C v).run (.start v pongThread) actions = some s) :
    TransitKept v pongThread s :=
  StepMachine.run_invariant (I := TransitKept v pongThread)
    (fun _ _ _ hkept hs => transitKept_step hkept (transitStep_of_step hs)) (transitKept_start pongThread) h

/-- In every run, every request that has left is in one place and is answered at most once, and the answer
and the published message fit it, under its own trace id or one that has been drawn for it alone. -/
theorem transit_accounts (v : PongServer D) (pongThread : D → TraceThread)
    (actions : List (TransitAction C D)) (s : Transit C D)
    (h : (transitMachine C v).run (.start v pongThread) actions = some s) :
    TransitAccounts v pongThread s :=
  (transitKept_run h).accounts

/-- Pong with one thread. -/
def onePong : PongServer Unit where
  rateLimite := 1
  order := .webTraceFirst
  ids _ := { hostname := "pong", nextInt := fun k => k }
  codec := asciiCodec
  streamBridge := true
  unmatched request := (404, "Not Found: " ++ request.url)
  unmatched_code _ := Or.inl rfl
  errorBody _ := "Internal Server Error"

def helloRequest : HttpRequest where
  method := .get
  url := "http://localhost:8001/pong/send/Hello"
  body := none
  traceId := some "ping-1"
  form := []

/-- Two requests, of which the second, without a trace id, arrives first; the other one is throttled. -/
def overtaken : List (TransitAction Unit Unit) :=
  [.depart () (some "Hello") helloRequest, .depart () (some "Hello") { helloRequest with traceId := none },
    .arrive () 1 0, .respond () true, .arrive () 0 (1 / 2)]

theorem transit_accounts_overtaken : ∃ s,
    (transitMachine Unit onePong).run (.start onePong fun _ => ⟨.clear, 0⟩) overtaken = some s ∧
      TransitAccounts onePong (fun _ => ⟨.clear, 0⟩) s := by
  obtain ⟨s, hs⟩ := Option.isSome_iff_exists.mp (show ((transitMachine Unit onePong).run
    (.start onePong fun _ => ⟨.clear, 0⟩) overtaken).isSome = true by decide +kernel)
  exact ⟨s, hs, transit_accounts onePong (fun _ => ⟨.clear, 0⟩) overtaken s hs⟩

end PingPong.Exchange
