import PeerCall.Proofs.Agent.Inbound
import PeerCall.Proofs.World.Run

/-!
# The candidates of the peer at the link

The agent keeps the candidates of the peer in order, and so does the worker of the link, so the
calls on the link have them in order too. A call with a candidate cannot come too early: it goes
back to an event that only the end of the call with the description of the peer brings about.
-/

namespace PeerCall

/-- The candidates that were applied on a link or are being applied, in order. -/
def Link.tried (l : Link) : List Candidate := l.ran.filterMap Operation.candidate?

namespace World

variable {settings : Settings} {scripts : List Script} {bus : BusScript} {trace : List Happening}
  {past : List Agent.Moment} {undone : List Effect} {w w' : World} {id : ConnId}

/-- The call that applies the description of the peer has returned with success on a link. -/
def Confirmed (trace : List Happening) (id : ConnId) : Prop :=
  ∃ d, Happening.ended id (.setRemote d) .done ∈ trace

/-- What is confirmed stays so. -/
theorem Confirmed.append (h : Confirmed trace id) (later : List Happening) :
    Confirmed (trace ++ later) id := by
  obtain ⟨d, hd⟩ := h
  exact ⟨d, List.mem_append_left _ hd⟩

/-- Everything that lets candidates pass goes back to the call with the description of the peer:
the event in the queue, the mark of the live connection, and the candidates that have passed. -/
structure Prompted (trace : List Happening) (past : List Agent.Moment) (w : World) : Prop where
  queue : ∀ id kind, Event.outcome id (.remoteApplied kind) ∈ w.queue → Confirmed trace id
  set : ∀ l, w.agent.live = some l → l.remote.isRemoteSet = true → Confirmed trace l.id
  passed : ∀ id, Agent.passed id (Agent.effectsOf past) ≠ [] → Confirmed trace id
  began : ∀ earlier id c later, trace = earlier ++ .began id (.addCandidate c) :: later →
    Confirmed earlier id

/-- A candidate at the worker of a link was handed over by the agent. -/
theorem Sound.passed_ne_nil {l : Link} {c : Candidate} (h : Sound settings past undone w)
    (hl : l ∈ w.links) (hc : .addCandidate c ∈ l.worker.waiting) :
    Agent.passed l.id (Agent.effectsOf past) ≠ [] := by
  have hmem : Operation.addCandidate c ∈ Agent.submitted l.id w.effects :=
    (h.links l hl).ordered.subset (List.mem_append_right _ hc)
  have hpassed : c ∈ Agent.passed l.id (Agent.effectsOf past) := by
    rw [← h.effects, Agent.passed_append]
    exact List.mem_append_left _ (List.mem_filterMap.mpr ⟨_, hmem, rfl⟩)
  exact List.ne_nil_of_mem hpassed

/-- A move begins an operation only if it waits at the worker. -/
theorem mem_waiting_of_began {m : Move} {operation : Operation}
    (h : Happening.began id operation ∈ w.happenings m) :
    ∃ l ∈ w.links, l.id = id ∧ operation ∈ l.worker.waiting := by
  cases m with
  | link id' move =>
    obtain ⟨l, hl, hhappening⟩ := Option.bind_eq_some_iff.mp (Option.mem_toList.mp h)
    cases move with
    | beginOperation =>
      obtain ⟨operation', hhead, hbegan⟩ := Option.map_eq_some_iff.mp hhappening
      obtain ⟨rfl, rfl⟩ := Happening.began.inj hbegan
      exact ⟨l, (link?_eq_some hl).1, rfl, List.mem_of_head? hhead⟩
    | endOperation =>
      obtain ⟨current, -, hended⟩ := Option.map_eq_some_iff.mp hhappening
      cases hended
    | _ => cases hhappening
  | _ => simp [happenings] at h

/-- A move is one happening at most. -/
theorem happenings_length_le (m : Move) : (w.happenings m).length ≤ 1 := by
  cases m with
  | link id move => exact Option.length_toList_le
  | _ => exact Nat.zero_le _

/-- A move of another part than the agent keeps to this, -/
theorem Prompted.aside {m : Move} (h : Prompted trace past w) (hs : Sound settings past undone w)
    (hw : Aside w w' (w.happenings m)) : Prompted (trace ++ w.happenings m) past w' := by
  refine ⟨fun id kind hevent => ?_, fun l hl hset => ?_, fun id hid => ?_, ?_⟩
  · rcases hw.queue id kind hevent with hold | ⟨d, hd⟩
    · exact (h.queue id kind hold).append _
    · exact ⟨d, List.mem_append_right _ hd⟩
  · rw [hw.agent] at hl
    exact (h.set l hl hset).append _
  · exact (h.passed id hid).append _
  · intro earlier id c later hsplit
    have hnow (hmem : Happening.began id (.addCandidate c) ∈ w.happenings m) :
        Confirmed trace id := by
      obtain ⟨l, hl, rfl, hwaiting⟩ := mem_waiting_of_began hmem
      exact h.passed l.id (hs.passed_ne_nil hl hwaiting)
    -- The call has begun with this move or before it.
    rcases List.append_eq_append_iff.mp hsplit with ⟨between, rfl, hhappenings⟩ |
      ⟨between, htrace, hlater⟩
    · have hone := happenings_length_le (w := w) m
      rw [hhappenings] at hone hnow
      obtain rfl : between = [] := List.eq_nil_of_length_eq_zero (by simp at hone; omega)
      rw [List.append_nil]
      exact hnow (by simp)
    · cases between with
      | nil =>
        rw [List.append_nil] at htrace
        rw [← htrace]
        exact hnow (by rw [← List.nil_append (w.happenings m), ← hlater]; simp)
      | cons x between =>
        obtain ⟨rfl, -⟩ := List.cons.inj hlater
        exact h.began earlier id c between htrace

/-- and so does an event that the agent takes, -/
theorem Prompted.take {event : Event} {rest : List Event} (h : Prompted trace past w)
    (hs : Sound settings past [] w) (r : Replies) (hqueue : w.queue = event :: rest) :
    Prompted trace (past ++ [w.agent.moment w.settings event r])
      { w with agent := (w.agent.step w.settings r event).1, queue := rest } := by
  have ha := hs.coherent
  have hstride : Agent.Stride w.settings r w.agent event _ := Agent.step_stride ha event
  have hready {l : Live} (hl : w.agent.live = some l)
      (h' : l.remote.isRemoteSet = true ∨ w.agent.Applied event) : Confirmed trace l.id := by
    rcases h' with hset | ⟨l', kind, hl', rfl⟩
    · exact h.set l hl hset
    · obtain rfl : l = l' := Option.some.inj (hl.symm.trans hl')
      exact h.queue l.id kind (by rw [hqueue]; exact List.mem_cons_self)
  refine ⟨fun id kind hevent => ?_, fun l' hl' hset => ?_, fun id hid => ?_, h.began⟩
  · exact h.queue id kind (by rw [hqueue]; exact List.mem_cons_of_mem _ hevent)
  · cases hstride.hands ha with
    | free _ hnew =>
      rw [hnew l' hl'] at hset
      simp at hset
    | @goesOn l l'' hl hlive hiff =>
      obtain rfl : l'' = l' := Option.some.inj (hlive.symm.trans hl')
      rw [hstride.id_eq ha hl hl']
      exact hready hl (hiff.mp hset)
    | ends _ hnone => exact absurd (hl'.symm.trans hnone) (by simp)
  · rw [Agent.effectsOf_append, Agent.passed_append] at hid
    by_cases hold : Agent.passed id (Agent.effectsOf past) = []
    · rw [hold, List.nil_append] at hid
      have hother {l : Live} (hpassed : ∀ id ≠ l.id, Agent.passed id
          (w.agent.step w.settings r event).2 = []) : id = l.id := by
        by_contra hne
        exact hid (hpassed id hne)
      cases hstride.hands ha with
      | free _ _ hpassed => exact absurd (hpassed id) hid
      | goesOn hl hlive hiff _ hnone hearly =>
        obtain rfl := hother hnone
        exact hready hl (hiff.mp (hearly hid))
      | ends hl _ _ hnone hearly =>
        obtain rfl := hother hnone
        exact hready hl (hearly hid)
    · exact h.passed id hold

/-- and all that it does. -/
theorem Prompted.act {effect : Effect} (h : Prompted trace past w) :
    Prompted trace past (w.apply effect) := by
  obtain ⟨-, hagent, hqueue, -⟩ := apply_frame (w := w) effect
  refine ⟨?_, ?_, h.passed, h.began⟩
  · rw [hqueue]
    exact h.queue
  · rw [hagent]
    exact h.set

/-- In every run candidates pass only after the description of the peer. -/
theorem Run.prompted (h : Run settings scripts bus trace past undone w) :
    Prompted trace past w := by
  induction h with
  | start => exact ⟨by simp, by simp, by simp [Agent.effectsOf, Agent.passed, Agent.submitted],
      by simp⟩
  | move h hm hw ih => exact ih.aside h.sound (perform_aside hm hw)
  | take r h hqueue ih => exact ih.take h.sound r hqueue
  | act _ ih => exact ih.act

/-- In every run, the candidates that come from the peer of a session are handed over or still
wait, each once and in order, and none waits once the description of the peer is known to be
applied. The calls on a link have them in the same order, and none begins before the call with the
description of the peer has returned with success. A candidate that is rejected leaves the agent
and the link as they would be without the rejection. -/
theorem run_candidates (h : Run settings scripts bus trace past undone w) :
    (∀ l, w.agent.live = some l →
      Agent.passed l.id (Agent.effectsOf past) ++ l.remote.waiting =
          Agent.heardIn (Agent.during l.id past) ∧
        ((∃ m ∈ Agent.during l.id past, m.before.Applied m.event) → l.remote.waiting = [])) ∧
    (∀ l ∈ w.links, l.tried <+: Agent.heardIn (Agent.during l.id past)) ∧
    (∀ earlier id c later, trace = earlier ++ .began id (.addCandidate c) :: later →
      Confirmed earlier id) ∧
    (∀ id error r,
      (w.agent.step w.settings r (.outcome id (.candidateRejected error))).1 = w.agent ∧
      ∀ effect ∈ (w.agent.step w.settings r (.outcome id (.candidateRejected error))).2,
        ∃ warning, effect = .warn warning) ∧
    ∀ l ∈ w.links, ∀ c flight error, l.worker.current = some (.addCandidate c, flight) →
      flight.answer.ending = .fail error →
        (l.endOperation w.clock w.isOpen).map (·.1) =
          (Link.endOperation
            { l with worker := { l.worker with current := some (.addCandidate c,
              { flight with answer := { flight.answer with ending := .done } }) } }
            w.clock w.isOpen).map (·.1) := by
  have hs := h.sound
  have ha := hs.coherent
  obtain ⟨script, rfl, hagent⟩ := hs.agent
  have hsorted := Agent.run_sorted settings script
  rw [← hagent] at hsorted
  refine ⟨fun l hl => ?_, fun l hl => ?_, h.prompted.began, fun id error r => ?_, ?_⟩
  · have hcustody := (hsorted.live l hl).custody
    refine ⟨?_, fun happlied => ha.waiting_eq_nil l hl ((hcustody.set l hl).mpr happlied)⟩
    rw [← Agent.passed_during]
    exact hcustody.live l hl
  · have hbegun : l.tried <+: (l.ran ++ l.worker.waiting).filterMap Operation.candidate? := by
      rw [List.filterMap_append]
      exact List.prefix_append _ _
    have htaken : (l.ran ++ l.worker.waiting).filterMap Operation.candidate? <+:
        Agent.passed l.id w.effects := (hs.links l hl).ordered.filterMap _
    have hdone : Agent.passed l.id w.effects <+:
        Agent.passed l.id (Agent.effectsOf (Agent.history settings script {})) := by
      rw [← hs.effects, Agent.passed_append]
      exact List.prefix_append _ _
    exact ((hbegun.trans htaken).trans hdone).trans (Agent.run_ordered script l.id)
  · exact Agent.step_candidateRejected error
  · intro l _ c flight error hcurrent hending
    exact Link.endOperation_rejected hcurrent hending

/-- A call that a peer begins, with a candidate that comes before the offer is applied. -/
def earlyCandidate : List Move :=
  [.post (.bus (.message "bob" "\x7b\"type\":\"offer\",\"sdp\":\"v=0\"\x7d")),
    .post (.bus (.message "bob" "\x7b\"candidate\":\"typ host\"\x7d")),
    .deliver, .deliver, .link 1 .beginOperation, .link 1 .endOperation, .deliver,
    .link 1 .beginOperation, .link 1 .endOperation, .link 1 .beginOperation]

/-- The candidate waits for the offer, and is then applied. -/
theorem tried_earlyCandidate :
    ∃ w, performAll { settings := Settings.default } earlyCandidate = some w ∧
      w.links.map Link.tried = [[⟨"typ host", none, none⟩]] ∧
      ∃ past, ∀ l ∈ w.links, l.tried <+: Agent.heardIn (Agent.during l.id past) := by
  have htried : (performAll { settings := Settings.default } earlyCandidate).map
      (fun w => w.links.map Link.tried) = some [[⟨"typ host", none, none⟩]] := by
    decide +kernel
  obtain ⟨w, hw, hlinks⟩ := Option.map_eq_some_iff.mp htried
  obtain ⟨trace, past, hrun⟩ := Run.performAll .start hw
  exact ⟨w, hw, hlinks, past, (run_candidates hrun).2.1⟩

end World

end PeerCall
