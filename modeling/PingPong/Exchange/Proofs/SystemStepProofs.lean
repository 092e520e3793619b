import PingPong.Exchange.Calls
import PingPong.Exchange.Proofs.TransitProofs
import PingPong.Other.Proofs.BrokerProofs
import PingPong.Ping.Proofs.SendStepProofs
import PingPong.Ping.Proofs.UpdateProofs

/-!
# Proofs: what one step of the system can do

`WorldStep` lists the steps, each with the steps of the machines that it is made of. So what a machine does
in a run of the system is a run of this machine (`worldRuns_run`).
-/

namespace PingPong.Exchange

open Feign Ping Pong Trace Other

variable {P T D : Type} {v : Services P T D}
  {w w' : World P T D} {a : WorldAction P T D} {c : P × T} {call : Call}

/-! ## The steps -/

namespace WorldAction

/-- The step on the collection that a lookup of a call makes. -/
def lookup : WorldAction P T D → Option ((P × T) × StoreAction P T)
  | findOne c => some (c, .findOne c.1 c.2)
  | insert c => some (c, .insert (.thread c.1 c.2))
  | _ => none

/-- A step of Pong. -/
def pong : WorldAction P T D → Option (TransitAction (P × T) D)
  | arrive d i now => some (.arrive d i now)
  | respond d works => some (.respond d works)
  | _ => none

end WorldAction

theorem lookup_ne_updateFirst {b : StoreAction P T} (ha : a.lookup = some (c, b)) (p : P) (t : T)
    (msg : Option String) : b ≠ .updateFirst p t msg := by
  cases a <;> cases ha <;> exact nofun

/-! ## What Pong publishes -/

section

variable [DecidableEq D]

/-- A step of Pong publishes one message or none. -/
theorem published_step {s s' : Transit (P × T) D} {b : TransitAction (P × T) D}
    (hs : TransitStep v.pong s b s') :
    s'.published = s.published ∨ ∃ msg, s'.published = s.published ++ [msg] := by
  have hconcat : ∀ {h : Handled}, s'.handled = s.handled ++ [h] →
      s'.published = s.published ∨ ∃ msg, s'.published = s.published ++ [msg] := by
    intro h heq
    unfold Transit.published
    rw [heq, List.filterMap_append]
    cases hpub : h.published with
    | none => left; simp [hpub]
    | some msg => right; exact ⟨msg, by simp [hpub]⟩
  cases hs with
  | departed | admitted => exact .inl rfl
  | rejected => exact hconcat rfl
  | responded =>
    rename_i d i works departed _ _
    obtain ⟨t, outcome, published, heq, -⟩ := respond_eq s v.pong departed.request d i works
    exact hconcat (congrArg Transit.handled heq)

theorem stepPong_eq_some {b : TransitAction (P × T) D} (h : w.stepPong v b = some w') :
    ∃ transit broker msgs, (transitMachine (P × T) v.pong).step w.transit b = some transit ∧
      transit.published = w.transit.published ++ msgs ∧
      Broker.machine.run w.broker (msgs.map .publish) = some broker ∧ w' = { w with transit, broker } := by
  simp only [World.stepPong, Option.bind_eq_bind, Option.bind_eq_some_iff] at h
  obtain ⟨transit, hs, h⟩ := h
  rcases published_step (transitStep_of_step hs) with hsame | ⟨msg, hmsg⟩
  · rw [hsame, List.drop_length] at h
    cases h
    exact ⟨transit, w.broker, [], hs, by rw [hsame, List.append_nil], rfl, rfl⟩
  · rw [hmsg, List.drop_left] at h
    obtain ⟨broker, hb, h⟩ := Option.bind_eq_some_iff.mp h
    cases h
    exact ⟨transit, broker, [msg], hs, hmsg, by rw [List.map_singleton, StepMachine.run_cons, hb]; rfl, rfl⟩

end

/-! ## What the collection and the calls do -/

section

variable [DecidableEq P] [DecidableEq T]

theorem stepPing_eq_some {b : Action P T} (h : w.stepPing v b = some w') :
    ∃ ping, (sendMachine P T v.channels).step w.ping b = some ping ∧ w' = { w with ping } := by
  obtain ⟨ping, hs, rfl⟩ := Option.map_eq_some_iff.mp h
  exact ⟨ping, hs, rfl⟩

theorem stepStore_eq_some {b : StoreAction P T} (h : w.stepStore b = some w') :
    ∃ store, (servingMachine P T).step w.store b = some store ∧ w' = { w with store } := by
  obtain ⟨store, hs, rfl⟩ := Option.map_eq_some_iff.mp h
  exact ⟨store, hs, rfl⟩

/-- A step on the collection that posts nothing. -/
theorem store_tail {messages : Messages} {b : StoreAction P T} {store : StoreState P T}
    {posted : List (Option String)}
    (h : ∃ acts, (servingMachine P T).run (.start messages) acts = some w.store ∧
      lastMessage messages acts = currentMessage messages posted)
    (hs : (servingMachine P T).step w.store b = some store) (hb : ∀ p t msg, b ≠ .updateFirst p t msg) :
    ∃ acts, (servingMachine P T).run (.start messages) acts = some store ∧
      lastMessage messages acts = currentMessage messages posted := by
  obtain ⟨acts, hrun, hlast⟩ := h
  refine ⟨acts ++ [b], StepMachine.run_concat_eq_some.mpr ⟨w.store, hrun, hs⟩, ?_⟩
  rw [lastMessage_append, ← hlast]
  cases b with
  | updateFirst p t msg => exact absurd rfl (hb p t msg)
  | _ => rfl

end

variable [DecidableEq P] [DecidableEq T] [DecidableEq D]

/-! ## Every step is listed -/

/-- The steps of the system, one constructor for each way a label can be taken. -/
inductive WorldStep (v : Services P T D) (w : World P T D) : WorldAction P T D → World P T D → Prop where
  | checked {p : P} {store : StoreState P T}
      (hs : (servingMachine P T).step w.store (.exists p) = some store) :
      WorldStep v w (.exists p) { w with store }
  | created {p : P} {store : StoreState P T}
      (hs : (servingMachine P T).step w.store (.insert (.init p)) = some store) :
      WorldStep v w (.insertInit p) { w with store }
  | posted {c : P × T} {msg : Option String} {store : StoreState P T} (hcall : w.calls c = none)
      (hs : (servingMachine P T).step w.store (.updateFirst c.1 c.2 msg) = some store) :
      WorldStep v w (.message c msg) { w with store, posted := w.posted ++ [msg] }
  | called {c : P × T} {origin : Origin} {ping : State P T String} (hcall : w.calls c = none)
      (hinit : w.store.phase (.init c.1) = .initialized)
      (hs : (sendMachine P T v.channels).step w.ping (.call c) = some ping) :
      WorldStep v w (.call c origin)
        { (w.setThread c (origin.enter (v.ids c) (w.thread c))).setCall c
            (some (.begin origin (w.thread c) w.posted.length)) with ping }
  | tried {c : P × T} {call : Call} {ping : State P T String} (hcall : w.calls c = some call)
      (hs : (sendMachine P T v.channels).step w.ping (.tryLock c) = some ping) :
      WorldStep v w (.tryLock c)
        { w.setCall c (some { call with locked := (ping.phase c).slot.isSome }) with ping }
  | absent {a : WorldAction P T D} {c : P × T} {b : StoreAction P T} {store : StoreState P T}
      (ha : a.lookup = some (c, b)) (hcall : w.calls c ≠ none)
      (hphase : a = .findOne c → ∃ f, w.ping.phase c = .locked f)
      (hs : (servingMachine P T).step w.store b = some store)
      (hstore : store.phase (.thread c.1 c.2) ≠ .failed ∧ ∀ m, store.phase (.thread c.1 c.2) ≠ .got m) :
      WorldStep v w a { w with store }
  | found {a : WorldAction P T D} {c : P × T} {b : StoreAction P T} {store : StoreState P T} {call : Call}
      {msg : Option String} {ping : State P T String} (ha : a.lookup = some (c, b))
      (hcall : w.calls c = some call)
      (hs : (servingMachine P T).step w.store b = some store)
      (hstore : store.phase (.thread c.1 c.2) = .got msg)
      (hp : (sendMachine P T v.channels).step w.ping (.lookup c (some msg)) = some ping) :
      WorldStep v w a { w.setCall c (some { call with message := some msg }) with store, ping }
  | duplicate {a : WorldAction P T D} {c : P × T} {b : StoreAction P T} {store : StoreState P T}
      {ping : State P T String} (ha : a.lookup = some (c, b)) (hcall : w.calls c ≠ none)
      (hs : (servingMachine P T).step w.store b = some store)
      (hstore : store.phase (.thread c.1 c.2) = .failed)
      (hp : (sendMachine P T v.channels).step w.ping (.lookup c none) = some ping) :
      WorldStep v w a { w with store, ping }
  | lookupFailed {c : P × T} {ping : State P T String}
      (hstore : w.store.phase (.thread c.1 c.2) ≠ .inserting)
      (hs : (sendMachine P T v.channels).step w.ping (.lookup c none) = some ping) :
      WorldStep v w (.lookupFails c) { w with ping }
  | departed {c : P × T} {call : Call} {f : String} {msg : Option String} {ping : State P T String}
      (hcall : w.calls c = some call) (hphase : w.ping.phase c = .sending f msg)
      (hs : (sendMachine P T v.channels).step w.ping (.depart c) = some ping) :
      WorldStep v w (.depart c)
        { (w.setThread c ((w.thread c).ensureTraceId (v.ids c))).setCall c
            (some { call with number := some w.transit.sent.length }) with
          ping
          transit := w.transit.depart c msg (v.request c msg (w.thread c)) }
  | pong {a : WorldAction P T D} {b : TransitAction (P × T) D} {transit : Transit (P × T) D} {broker : Broker}
      {msgs : List MqMessageDTO} (ha : a.pong = some b)
      (hs : (transitMachine (P × T) v.pong).step w.transit b = some transit)
      (hpublished : transit.published = w.transit.published ++ msgs)
      (hb : Broker.machine.run w.broker (msgs.map .publish) = some broker) :
      WorldStep v w a { w with transit, broker }
  | answered {c : P × T} {call : Call} {i : ℕ} {departed : Departed (P × T)} {handled : Handled}
      {ping : State P T String} (hcall : w.calls c = some call) (hnumber : call.number = some i)
      (hsent : w.transit.sent[i]? = some departed) (hmem : handled ∈ w.transit.handled)
      (hi : handled.number = i)
      (hs : (sendMachine P T v.channels).step w.ping
        (.answer c (some (v.pong.answer departed.request handled.outcome))) = some ping) :
      WorldStep v w (.answer c)
        { w.setCall c (some { call with response := some (v.pong.answer departed.request handled.outcome) })
          with ping }
  | answerFailed {c : P × T} {ping : State P T String}
      (hs : (sendMachine P T v.channels).step w.ping (.answer c none) = some ping) :
      WorldStep v w (.answerFails c) { w with ping }
  | unlocked {c : P × T} {ping : State P T String}
      (hs : (sendMachine P T v.channels).step w.ping (.unlock c) = some ping) :
      WorldStep v w (.unlock c) { w with ping }
  | finished {c : P × T} {call : Call} {exit : Exit} (hcall : w.calls c = some call)
      (hexit : (w.ping.phase c).result = some exit) :
      WorldStep v w (.finish c)
        { (w.setThread c (call.origin.leave exit (w.thread c))).setCall c none with
          ended := w.ended ++ [⟨c, call, exit, w.posted.length⟩] }
  | destroyed {p : P} {ping : State P T String}
      (hs : (sendMachine P T v.channels).step w.ping (.destroy p) = some ping) :
      WorldStep v w (.destroy p) { w with ping }
  | delivered {i : ℕ} {works : Bool} {broker : Broker}
      (hs : Broker.machine.step w.broker (.deliver i works) = some broker) :
      WorldStep v w (.deliver i works) { w with broker }

/-- What becomes of a call whose lookup has made a step on the collection. -/
theorem worldStep_of_lookedUp {b : StoreAction P T} {store : StoreState P T} (ha : a.lookup = some (c, b))
    (hcall : w.calls c = some call) (hphase : a = .findOne c → ∃ f, w.ping.phase c = .locked f)
    (hs : (servingMachine P T).step w.store b = some store)
    (h : ({ w with store } : World P T D).lookedUp v c call = some w') : WorldStep v w a w' := by
  have hsome : w.calls c ≠ none := by rw [hcall]; exact nofun
  simp only [World.lookedUp] at h
  split at h
  · rename_i msg hgot
    obtain ⟨ping, hp, rfl⟩ := stepPing_eq_some h
    exact .found ha hcall hs hgot hp
  · rename_i hfailed
    obtain ⟨ping, hp, rfl⟩ := stepPing_eq_some h
    exact .duplicate ha hsome hs hfailed hp
  · rename_i hgot hfailed
    cases h
    exact .absent ha hsome hphase hs ⟨hfailed, hgot⟩

/-- Every step of the system is one of the listed ones. -/
theorem worldStep_of_step (h : (worldMachine v).step w a = some w') : WorldStep v w a w' := by
  cases a with
  | «exists» p =>
    obtain ⟨store, hs, rfl⟩ := stepStore_eq_some h
    exact .checked hs
  | insertInit p =>
    obtain ⟨store, hs, rfl⟩ := stepStore_eq_some h
    exact .created hs
  | message c msg =>
    simp only [worldMachine, Option.ite_none_right_eq_some, Option.isNone_iff_eq_none] at h
    obtain ⟨hcall, h⟩ := h
    obtain ⟨store, hs, rfl⟩ := stepStore_eq_some h
    exact .posted hcall hs
  | call c origin =>
    simp only [worldMachine, Option.ite_none_right_eq_some, Option.isNone_iff_eq_none] at h
    obtain ⟨⟨hcall, hinit⟩, h⟩ := h
    obtain ⟨ping, hs, rfl⟩ := stepPing_eq_some h
    exact .called hcall hinit hs
  | tryLock c =>
    simp only [worldMachine, Option.bind_eq_bind, Option.bind_eq_some_iff] at h
    obtain ⟨call, hcall, w₁, hw₁, h⟩ := h
    obtain ⟨ping, hs, rfl⟩ := stepPing_eq_some hw₁
    cases h
    exact .tried hcall hs
  | findOne c =>
    simp only [worldMachine, Option.bind_eq_bind, Option.bind_eq_some_iff] at h
    obtain ⟨call, hcall, h⟩ := h
    split at h
    · rename_i f hf
      obtain ⟨w₁, hw₁, h⟩ := Option.bind_eq_some_iff.mp h
      obtain ⟨store, hs, rfl⟩ := stepStore_eq_some hw₁
      exact worldStep_of_lookedUp rfl hcall (fun _ => ⟨f, hf⟩) hs h
    · cases h
  | insert c =>
    simp only [worldMachine, Option.bind_eq_bind, Option.bind_eq_some_iff] at h
    obtain ⟨call, hcall, w₁, hw₁, h⟩ := h
    obtain ⟨store, hs, rfl⟩ := stepStore_eq_some hw₁
    exact worldStep_of_lookedUp rfl hcall nofun hs h
  | lookupFails c =>
    simp only [worldMachine, Option.ite_none_right_eq_some] at h
    obtain ⟨hstore, h⟩ := h
    obtain ⟨ping, hs, rfl⟩ := stepPing_eq_some h
    exact .lookupFailed hstore hs
  | depart c =>
    simp only [worldMachine, Option.bind_eq_bind, Option.bind_eq_some_iff] at h
    obtain ⟨call, hcall, h⟩ := h
    split at h
    · rename_i f msg hphase
      obtain ⟨hsent, hthread⟩ : (v.client.invoke v.lib (v.ids c) PingClient.send [msg] (fun _ => none)
            (w.thread c)).1.sent = some (v.request c msg (w.thread c)) ∧
          (v.client.invoke v.lib (v.ids c) PingClient.send [msg] (fun _ => none) (w.thread c)).2 =
            (w.thread c).ensureTraceId (v.ids c) := invoke_of_mapped rfl rfl [msg] fun _ => none
      obtain ⟨request, hrequest, w₁, hw₁, h⟩ := by simpa only [Option.bind_eq_some_iff] using h
      rw [hsent] at hrequest
      obtain rfl := Option.some.inj hrequest
      obtain ⟨ping, hs, rfl⟩ := stepPing_eq_some hw₁
      rw [hthread] at h
      obtain ⟨transit, broker, msgs, ht, hpublished, hb, rfl⟩ := stepPong_eq_some h
      cases ht
      have hnone : msgs = [] := List.append_cancel_left (hpublished.symm.trans (List.append_nil _).symm)
      subst hnone
      cases hb
      exact .departed hcall hphase hs
    · cases h
  | arrive d i now =>
    obtain ⟨transit, broker, msgs, hs, hpublished, hb, rfl⟩ := stepPong_eq_some h
    exact .pong rfl hs hpublished hb
  | respond d works =>
    obtain ⟨transit, broker, msgs, hs, hpublished, hb, rfl⟩ := stepPong_eq_some h
    exact .pong rfl hs hpublished hb
  | answer c =>
    simp only [worldMachine, Option.bind_eq_bind, Option.bind_eq_some_iff] at h
    obtain ⟨call, hcall, i, hnumber, departed, hsent, handled, hhandled, h⟩ := h
    obtain ⟨ping, hs, rfl⟩ := stepPing_eq_some h
    exact .answered hcall hnumber hsent (List.mem_of_find?_eq_some hhandled)
      (by simpa using List.find?_some hhandled) hs
  | answerFails c =>
    obtain ⟨ping, hs, rfl⟩ := stepPing_eq_some h
    exact .answerFailed hs
  | unlock c =>
    obtain ⟨ping, hs, rfl⟩ := stepPing_eq_some h
    exact .unlocked hs
  | finish c =>
    simp only [worldMachine, Option.bind_eq_bind, Option.bind_eq_some_iff] at h
    obtain ⟨call, hcall, exit, hexit, h⟩ := h
    cases h
    exact .finished hcall hexit
  | destroy p =>
    obtain ⟨ping, hs, rfl⟩ := stepPing_eq_some (v := v) (b := .destroy p) h
    exact .destroyed hs
  | deliver i works =>
    obtain ⟨broker, hs, rfl⟩ := Option.map_eq_some_iff.mp h
    exact .delivered hs

/-! ## Runs of the machines -/

/-- Each machine is in a state of its own runs. The collection gets what has been posted, and the broker what
Pong publishes, in this order. -/
structure WorldRuns (v : Services P T D) (messages : Messages) (rows : List PongMessage)
    (pongThread : D → TraceThread) (w : World P T D) : Prop where
  ping : (sendMachine P T v.channels).Reaches (.start v.channels) w.ping
  store : ∃ acts, (servingMachine P T).run (.start messages) acts = some w.store ∧
    lastMessage messages acts = currentMessage messages w.posted
  transit : (transitMachine (P × T) v.pong).Reaches (.start v.pong pongThread) w.transit
  broker : ∃ events, Broker.machine.run (.start rows) events = some w.broker ∧
    events.filterMap Broker.Event.published = w.transit.published

variable {messages : Messages} {rows : List PongMessage} {thread : P × T → TraceThread}
  {pongThread : D → TraceThread} {actions : List (WorldAction P T D)}

theorem worldRuns_start : WorldRuns v messages rows pongThread (.start v messages rows thread pongThread) where
  ping := .refl _
  store := ⟨[], rfl, rfl⟩
  transit := .refl _
  broker := ⟨[], rfl, rfl⟩

theorem worldRuns_step (h : WorldRuns v messages rows pongThread w) (hs : WorldStep v w a w') :
    WorldRuns v messages rows pongThread w' := by
  obtain ⟨hping, hstore, htransit, events, hevents, hpublished⟩ := h
  cases hs with
  | checked hs => exact ⟨hping, store_tail hstore hs nofun, htransit, events, hevents, hpublished⟩
  | created hs => exact ⟨hping, store_tail hstore hs nofun, htransit, events, hevents, hpublished⟩
  | @posted c msg store _ hs =>
    obtain ⟨acts, hrun, -⟩ := hstore
    refine ⟨hping, ⟨_, StepMachine.run_concat_eq_some.mpr ⟨w.store, hrun, hs⟩, ?_⟩, htransit, events, hevents,
      hpublished⟩
    rw [lastMessage_append, currentMessage, List.getLast?_concat]
    rfl
  | called _ _ hs => exact ⟨hping.tail hs, hstore, htransit, events, hevents, hpublished⟩
  | tried _ hs => exact ⟨hping.tail hs, hstore, htransit, events, hevents, hpublished⟩
  | absent ha _ _ hs _ =>
    exact ⟨hping, store_tail hstore hs (lookup_ne_updateFirst ha), htransit, events, hevents, hpublished⟩
  | found ha _ hs _ hp =>
    exact ⟨hping.tail hp, store_tail hstore hs (lookup_ne_updateFirst ha), htransit, events, hevents, hpublished⟩
  | duplicate ha _ hs _ hp =>
    exact ⟨hping.tail hp, store_tail hstore hs (lookup_ne_updateFirst ha), htransit, events, hevents, hpublished⟩
  | lookupFailed _ hs => exact ⟨hping.tail hs, hstore, htransit, events, hevents, hpublished⟩
  | @departed c _ _ msg _ _ _ hs =>
    have hdepart : (transitMachine (P × T) v.pong).step w.transit (.depart c msg (v.request c msg (w.thread c))) =
        some (w.transit.depart c msg (v.request c msg (w.thread c))) := rfl
    exact ⟨hping.tail hs, hstore, htransit.tail hdepart, events, hevents, hpublished⟩
  | @pong _ b transit broker msgs _ hs hmsgs hb =>
    refine ⟨hping, hstore, htransit.tail hs, events ++ msgs.map .publish, ?_, ?_⟩
    · exact StepMachine.run_append_eq_some.mpr ⟨w.broker, hevents, hb⟩
    · rw [List.filterMap_append, hpublished, hmsgs, List.filterMap_map]
      exact congrArg _ List.filterMap_some
  | answered _ _ _ _ _ hs => exact ⟨hping.tail hs, hstore, htransit, events, hevents, hpublished⟩
  | answerFailed hs => exact ⟨hping.tail hs, hstore, htransit, events, hevents, hpublished⟩
  | unlocked hs => exact ⟨hping.tail hs, hstore, htransit, events, hevents, hpublished⟩
  | finished => exact ⟨hping, hstore, htransit, events, hevents, hpublished⟩
  | destroyed hs => exact ⟨hping.tail hs, hstore, htransit, events, hevents, hpublished⟩
  | @delivered i works broker hs =>
    refine ⟨hping, hstore, htransit, events ++ [.deliver i works], ?_, ?_⟩
    · exact StepMachine.run_concat_eq_some.mpr ⟨w.broker, hevents, hs⟩
    · rw [List.filterMap_append, hpublished]
      exact List.append_nil _

theorem worldRuns_run (h : (worldMachine v).run (.start v messages rows thread pongThread) actions = some w) :
    WorldRuns v messages rows pongThread w :=
  StepMachine.run_invariant (I := WorldRuns v messages rows pongThread)
    (fun _ _ _ hI hs => worldRuns_step hI (worldStep_of_step hs)) worldRuns_start h

/-- A lookup gets the current message at once. -/
theorem WorldRuns.lookup (h : WorldRuns v messages rows pongThread w) {b : StoreAction P T}
    {store : StoreState P T} (ha : a.lookup = some (c, b))
    (hs : (servingMachine P T).step w.store b = some store) :
    store.phase (.thread c.1 c.2) = .got (currentMessage messages w.posted) := by
  obtain ⟨acts, hrun, hlast⟩ := h.store
  obtain ⟨hserved, hstep⟩ := storeStep_of_serving hs
  have hkeeps := (serving_step (serving_run hrun) hserved hstep).2
  rw [← hlast]
  cases a <;> cases ha
  · exact hkeeps
  · obtain ⟨p, hp⟩ := hkeeps
    cases hp

theorem WorldRuns.kept (h : WorldRuns v messages rows pongThread w) :
    TransitKept v.pong pongThread w.transit := by
  obtain ⟨actions, hrun⟩ := h.transit
  exact transitKept_run hrun

end PingPong.Exchange
