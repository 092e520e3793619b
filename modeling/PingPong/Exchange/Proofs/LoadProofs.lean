import PingPong.Exchange.Proofs.CallProofs
import PingPong.Ping.Proofs.LockProofs
import PingPong.Ping.Proofs.ShutdownProofs

/-!
# Proofs: the load of Pong

A call keeps its slot until its request is answered, unless it gives up before. So without such calls the slots
of Ping bound the requests that are on the wire or with Pong (`unanswered_le`).
-/

namespace PingPong.Exchange

open Feign Ping Pong Trace Other

variable {P T D : Type} {v : Services P T D}
  {w w' : World P T D} {a : WorldAction P T D} {c : P × T} {call : Call} {messages : Messages}
  {rows : List PongMessage} {thread : P × T → TraceThread} {pongThread : D → TraceThread}
  {actions : List (WorldAction P T D)}

/-! ## Requests without an answer -/

/-- The requests that have left and are not answered. -/
def Transit.unanswered (s : Transit (P × T) D) : List ℕ := s.wire ++ s.handling.map Prod.snd

/-- A call waits for each of them. -/
def Awaited (w : World P T D) : Prop :=
  ∀ i ∈ w.transit.unanswered, ∃ c call f msg, w.calls c = some call ∧ call.number = some i ∧
    w.ping.phase c = .awaiting f msg

/-- A request has no answer before it has been handled. -/
theorem not_handled_of_unanswered (h : TransitKept v.pong pongThread w.transit) {i : ℕ}
    (hi : i ∈ w.transit.unanswered) {handled : Handled} (hmem : handled ∈ w.transit.handled) : handled.number ≠ i := by
  rintro rfl
  have hnodup := h.places.nodup_iff.mpr List.nodup_range
  exact (List.nodup_append.mp hnodup).2.2 _ hi _ (List.mem_map_of_mem hmem) rfl

/-- Pong takes no request twice. -/
theorem unanswered_pong [DecidableEq D] {s s' : Transit (P × T) D} {b : TransitAction (P × T) D}
    (hs : TransitStep v.pong s b s') (hb : ∀ c msg request, b ≠ .depart c msg request) :
    ∀ i ∈ s'.unanswered, i ∈ s.unanswered := by
  intro i hi
  cases hs with
  | departed c msg request => exact absurd rfl (hb c msg request)
  | @admitted d j now departed hwire hfree hclock hsent hfate =>
    rcases List.mem_append.mp hi with hi | hi
    · exact List.mem_append_left _ (List.mem_of_mem_erase hi)
    · rcases List.mem_cons.mp (show i ∈ j :: s.handling.map Prod.snd from hi) with rfl | hi
      · exact List.mem_append_left _ hwire
      · exact List.mem_append_right _ hi
  | rejected =>
    rcases List.mem_append.mp hi with hi | hi
    · exact List.mem_append_left _ (List.mem_of_mem_erase hi)
    · exact List.mem_append_right _ hi
  | @responded d j works departed hhandling hsent =>
    obtain ⟨t, outcome, published, heq, -⟩ := respond_eq s v.pong departed.request d j works
    rw [heq] at hi
    rcases List.mem_append.mp hi with hi | hi
    · exact List.mem_append_left _ hi
    · exact List.mem_append_right _ ((List.erase_sublist.map Prod.snd).subset hi)

variable [DecidableEq P] [DecidableEq T] [DecidableEq D]

/-! ## Patient runs -/

/-- The step shuts no process down, and no call gives its request up. -/
def WorldAction.Patient : WorldAction P T D → Prop
  | .destroy _ | .answerFails _ => False
  | _ => True

/-- The slots are kept. -/
theorem lockInv_worldStep (hI : LockInv v.channels w.ping) (hs : WorldStep v w a w') (ha : a.Patient) :
    LockInv v.channels w'.ping := by
  cases hs with
  | checked | created | posted | absent | pong | finished | delivered => exact hI
  | called _ _ hs | tried _ hs | lookupFailed _ hs | departed _ _ hs | unlocked hs =>
    exact lockInv_step hI (sendStep_of_step hs) rfl
  | found _ _ _ _ hp | duplicate _ _ _ _ hp => exact lockInv_step hI (sendStep_of_step hp) rfl
  | answered _ _ _ _ _ hs => exact lockInv_step hI (sendStep_of_step hs) rfl
  | answerFailed | destroyed => exact ha.elim

/-- A call that waits goes on waiting until it gets the answer. -/
theorem waiting_step (hs : WorldStep v w a w') (ha : a.Patient) (hcall : w.calls c = some call) {f : String}
    {msg : Option String} (hphase : w.ping.phase c = .awaiting f msg) (hanswer : a ≠ .answer c) :
    w'.calls c = some call ∧ w'.ping.phase c = .awaiting f msg := by
  by_cases hc : a.actor = some c
  · have hping : ∀ {b : Action P T} {ping : State P T String},
        (sendMachine P T v.channels).step w.ping b = some ping → b.actor = some c →
        ∃ response, b = .answer c response :=
      fun hs hb => awaiting_step hphase (sendStep_of_step hs) hb
    cases hs with
    | checked | created | posted | absent | pong | delivered => exact ⟨hcall, hphase⟩
    | called _ _ hs | tried _ hs | lookupFailed _ hs | departed _ _ hs | unlocked hs =>
      obtain ⟨response, hb⟩ := hping hs hc
      cases hb
    | found ha' _ _ _ hp | duplicate ha' _ _ _ hp =>
      obtain rfl := Option.some.inj ((actor_of_lookup ha').symm.trans hc)
      obtain ⟨response, hb⟩ := hping hp rfl
      cases hb
    | answered => cases hc; exact absurd rfl hanswer
    | answerFailed | destroyed => exact ha.elim
    | finished _ hexit =>
      cases hc
      rw [hphase] at hexit
      cases hexit
  · obtain ⟨hcalls, -, hphases⟩ := frame_step hs hc
    exact ⟨hcalls.trans hcall, hphases.trans hphase⟩

theorem awaited_step (hruns : WorldRuns v messages rows pongThread w) (h : Awaited w) (hs : WorldStep v w a w')
    (ha : a.Patient) : Awaited w' := by
  have hwaiting : ∀ i ∈ w.transit.unanswered, (∀ c call, w.calls c = some call → call.number = some i →
      a ≠ .answer c) → ∃ c call f msg, w'.calls c = some call ∧ call.number = some i ∧
        w'.ping.phase c = .awaiting f msg := by
    intro i hi hanswer
    obtain ⟨c, call, f, msg, hcall, hnumber, hphase⟩ := h i hi
    obtain ⟨hcall', hphase'⟩ := waiting_step hs ha hcall hphase (hanswer c call hcall hnumber)
    exact ⟨c, call, f, msg, hcall', hnumber, hphase'⟩
  intro i hi
  cases hs with
  | @departed c call f msg ping hcall hphase hs =>
    have hmem : i ∈ w.transit.unanswered ∨ i = w.transit.sent.length := by
      have hi' : i ∈ w.transit.wire ++ [w.transit.sent.length] ++ w.transit.handling.map Prod.snd := hi
      simp only [List.mem_append, List.mem_singleton] at hi'
      simp only [Transit.unanswered, List.mem_append]
      tauto
    rcases hmem with hold | rfl
    · exact hwaiting i hold fun _ _ _ _ => nofun
    · refine ⟨c, _, f, msg, Function.update_self .., rfl, ?_⟩
      cases sendStep_of_step hs with
      | departed hphase' =>
        rw [hphase] at hphase'
        cases hphase'
        exact setPhase_phase_self _
  | @pong _ b transit broker msgs hb hs hpublished hbroker =>
    refine hwaiting i ?_ fun c _ _ _ heq => ?_
    · refine unanswered_pong (transitStep_of_step hs) (fun c msg request heq => ?_) i hi
      subst heq
      cases a <;> cases hb
    · subst heq
      cases hb
  | answered hcall hnumber hsent hmem hnum hs =>
    refine hwaiting i hi fun c call hcall' hi' heq => ?_
    cases heq
    obtain rfl := Option.some.inj (hcall.symm.trans hcall')
    obtain rfl := Option.some.inj (hi'.symm.trans hnumber)
    exact not_handled_of_unanswered hruns.kept hi hmem hnum
  | absent hb | found hb | duplicate hb =>
    refine hwaiting i hi fun c _ _ _ heq => ?_
    subst heq
    cases hb
  | _ => exact hwaiting i hi fun _ _ _ _ => nofun

/-! ## Runs -/

theorem patient_run (h : (worldMachine v).run (.start v messages rows thread pongThread) actions = some w)
    (hpatient : ∀ a ∈ actions, a.Patient) : LockInv v.channels w.ping ∧ Awaited w := by
  refine StepMachine.run_history (I := fun actions w => (∀ a ∈ actions, WorldAction.Patient a) →
    LockInv v.channels w.ping ∧ Awaited w) ?_ ?_ h hpatient
  · exact fun _ => ⟨lockInv_start, nofun⟩
  · intro l w a w' hrun hI hs hpatient
    obtain ⟨hlock, hawaited⟩ := hI fun b hb => hpatient b (List.mem_append_left _ hb)
    have ha : a.Patient := hpatient a (List.mem_append_right _ List.mem_cons_self)
    have hs' := worldStep_of_step hs
    exact ⟨lockInv_worldStep hlock hs' ha, awaited_step (worldRuns_run hrun) hawaited hs' ha⟩

/-- In every run of the system in which no call gives its request up and no process shuts down, at most `num`
requests are on the wire or with Pong. -/
theorem unanswered_le (v : Services P T D) (messages : Messages) (rows : List PongMessage)
    (thread : P × T → TraceThread) (pongThread : D → TraceThread) (actions : List (WorldAction P T D))
    (w : World P T D) (h : (worldMachine v).run (.start v messages rows thread pongThread) actions = some w)
    (hpatient : ∀ a ∈ actions, a.Patient) :
    w.transit.wire.length + w.transit.handling.length ≤ v.num := by
  obtain ⟨hlock, hawaited⟩ := patient_run h hpatient
  have hnodup : w.transit.unanswered.Nodup := by
    have hall := (worldRuns_run h).kept.places.nodup_iff.mpr List.nodup_range
    exact (List.nodup_append.mp hall).1
  -- each of them has a call in flight of its own
  choose caller call f msg hcall hnumber hphase using hawaited
  let F := w.transit.unanswered.attach.map fun i => caller i.1 i.2
  have hF : F.Nodup := by
    refine (List.nodup_map_iff_inj_on (List.nodup_attach.mpr hnodup)).mpr fun i _ j _ heq => ?_
    have hsame : call i.1 i.2 = call j.1 j.2 := by
      have hcalli := hcall i.1 i.2
      rw [heq, hcall j.1 j.2] at hcalli
      exact (Option.some.inj hcalli).symm
    have hnumberi := hnumber i.1 i.2
    rw [hsame, hnumber j.1 j.2] at hnumberi
    exact Subtype.ext (Option.some.inj hnumberi).symm
  have hle := hlock.inFlightAtMost F.toFinset fun c hc => by
    obtain ⟨i, -, rfl⟩ := List.mem_map.mp (List.mem_toFinset.mp hc)
    rw [hphase i.1 i.2]
    exact nofun
  have hcard : F.toFinset.card = w.transit.unanswered.length := by
    rw [List.toFinset_card_of_nodup hF, List.length_map, List.length_attach]
  have hslots : v.channels.length = v.num := by simp [Services.channels, FileLimitedLock.init]
  have hlength : w.transit.unanswered.length = w.transit.wire.length + w.transit.handling.length := by
    rw [Transit.unanswered, List.length_append, List.length_map]
  omega

/-- A call whose request has left. -/
theorem exists_oneDeparture : ∃ w, (worldMachine oneService).run
      (.start oneService .empty [] (fun _ => ⟨.clear, 0⟩) fun _ => ⟨.clear, 0⟩) (oneExchange.take 7) = some w ∧
    w.transit.wire = [0] := by
  obtain ⟨w, hw⟩ := Option.isSome_iff_exists.mp (show ((worldMachine oneService).run
    (.start oneService .empty [] (fun _ => ⟨.clear, 0⟩) fun _ => ⟨.clear, 0⟩)
      (oneExchange.take 7)).isSome = true by decide +kernel)
  refine ⟨w, hw, ?_⟩
  have hwire : ((worldMachine oneService).run (.start oneService .empty [] (fun _ => ⟨.clear, 0⟩)
    fun _ => ⟨.clear, 0⟩) (oneExchange.take 7)).map (·.transit.wire) = some [0] := by decide +kernel
  rw [hw] at hwire
  exact Option.some.inj hwire

theorem unanswered_le_oneDeparture : ∃ w, (worldMachine oneService).run
      (.start oneService .empty [] (fun _ => ⟨.clear, 0⟩) fun _ => ⟨.clear, 0⟩) (oneExchange.take 7) = some w ∧
    w.transit.wire = [0] ∧ w.transit.wire.length + w.transit.handling.length ≤ 1 := by
  obtain ⟨w, hw, hwire⟩ := exists_oneDeparture
  exact ⟨w, hw, hwire, unanswered_le oneService .empty [] (fun _ => ⟨.clear, 0⟩) (fun _ => ⟨.clear, 0⟩)
    (oneExchange.take 7) w hw (by simp [oneExchange, WorldAction.Patient])⟩

end PingPong.Exchange
