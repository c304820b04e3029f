import PeerCall.Proofs.Agent.Residue
import PeerCall.Proofs.Agent.SigningIn
import PeerCall.Proofs.World.Closing

/-!
# Closing and shutting down

An agent that is closed keeps nothing but the numbers that it has given out. There is nothing left
to end then, so that closing it once more, hanging up and what its old connections still report
come to nothing. Shutting an agent down is closing it for good: nothing that waits for it or comes
later is heard.
-/

namespace PeerCall

/-- An event that finds nothing to end at an agent that is closed: the user hangs up or closes
again, or a connection is heard of. -/
inductive Event.IsAftermath : Event → Prop
  | close : IsAftermath (.command .close)
  | disconnect : IsAftermath (.command .disconnect)
  | connection {event : Event} {id : ConnId} (hevent : event.connection? = some id) :
      IsAftermath event

namespace Agent

variable {settings : Settings} {a : Agent} {r : Replies} {event : Event} {issued : Nat}

/-- Closing forgets everything but the numbers, and signs out if there is a sign-in to take back. -/
theorem Coherent.close_eq (ha : a.Coherent) (hrun : a.isRunning = true) (r : Replies) :
    ∃ effects, a.close r = emit { issued := a.issued } effects ∧
      markedBy effects =
        if a.isSignedIn = true ∨ a.call.phase = .awaitingSignIn then [.withdrawn] else [] := by
  cases hl : a.live with
  | none =>
    rw [close_of_free ha hl, hl, (ha.free hl).1, hrun]
    refine ⟨_, rfl, ?_⟩
    by_cases hphase : a.call.phase = .awaitingSignIn <;> cases hsigned : a.isSignedIn <;>
      simp [hphase, Effect.mark?]
  | some l =>
    obtain ⟨-, peer, hpeer⟩ := ha.call_of_live hl
    rw [close_of_live ha hl hpeer, freed, hrun]
    refine ⟨_, rfl, ?_⟩
    cases hsigned : a.isSignedIn <;> simp [ha.not_awaiting hl, Effect.mark?]

/-- Closing and shutting down do the same. -/
theorem Coherent.step_close (ha : a.Coherent) (hrun : a.isRunning = true) (settings : Settings)
    (r : Replies) :
    ∃ effects, a.step settings r (.command .close) = ({ issued := a.issued }, effects) ∧
      a.step settings r (.command .shutdown) =
        ({ issued := a.issued, isRunning := false }, effects) ∧
      markedBy effects =
        if a.isSignedIn = true ∨ a.call.phase = .awaitingSignIn then [.withdrawn] else [] := by
  obtain ⟨effects, hclose, hmarks⟩ := ha.close_eq hrun r
  refine ⟨effects, ?_, ?_, hmarks⟩
  · simp only [step, hrun, if_true, handle, onCommand, hclose, finish_emit]
  · simp only [step, hrun, if_true, handle, onCommand, hclose, emit_andThen, after_emit,
      List.append_nil, finish_emit]

/-! ## Afterwards -/

/-- An agent that is closed stays as it is, and does nothing but warn. -/
theorem step_aftermath (hevent : event.IsAftermath) :
    (step settings r event { issued := issued }).1 = { issued := issued } ∧
      (step settings r event { issued := issued }).2.filter Effect.isSeen = [] := by
  cases hevent with
  | close | disconnect => exact ⟨rfl, rfl⟩
  | connection hevent => exact step_of_stale hevent (by simp)

/-- So it is in a run of such events. -/
theorem run_aftermath (later : List (Event × Replies))
    (hlater : ∀ input ∈ later, input.1.IsAftermath) :
    (run settings later { issued := issued }).1 = { issued := issued } ∧
      seen (history settings later { issued := issued }) = [] := by
  induction later with
  | nil => exact ⟨rfl, rfl⟩
  | cons input later ih =>
    obtain ⟨event, r⟩ := input
    obtain ⟨hevent, hlater⟩ := List.forall_mem_cons.mp hlater
    obtain ⟨hself, hnothing⟩ : (step settings r event { issued := issued }).1 = { issued } ∧
      (step settings r event { issued := issued }).2.filter Effect.isSeen = [] :=
      step_aftermath hevent
    rw [run_cons, seen_history_cons, hself, hnothing]
    exact ih hlater

/-- An agent that has been shut down does nothing. -/
theorem step_of_stopped (hstopped : a.isRunning = false) :
    a.step settings r event = (a, []) := by
  simp [step, hstopped]

/-- It does nothing in a whole run. -/
theorem run_of_stopped (hstopped : a.isRunning = false) (later : List (Event × Replies)) :
    run settings later a = (a, later.map fun _ => []) := by
  induction later with
  | nil => rfl
  | cons input later ih => simp [run, step_of_stopped hstopped, ih]

end Agent

namespace World

variable {settings : Settings} {scripts : List Script} {bus : BusScript} {trace : List Happening}
  {past : List Agent.Moment} {undone : List Effect} {w : World}

/-- The agent has been shut down, and what it still wants done is what it wanted then. -/
structure Stopped (a : Agent) (effects : List Effect) (y : List Effect × World) : Prop where
  agent_eq : y.2.agent = a
  isRunning : a.isRunning = false
  effects_eq : y.2.effects ++ y.1 = effects

/-- Nothing that happens next changes this. -/
theorem Stopped.next {a : Agent} {effects : List Effect} {y z : List Effect × World}
    (h : Stopped a effects y) (hnext : Next y z) : Stopped a effects z := by
  obtain ⟨rfl, hstopped, rfl⟩ := h
  cases hnext with
  | move hm hw =>
    obtain ⟨-, hagent, heffects, -, -⟩ := perform_aside hm hw
    exact ⟨hagent, hstopped, by rw [heffects]⟩
  | take r hqueue =>
    refine ⟨?_, hstopped, ?_⟩ <;> simp [Agent.step_of_stopped hstopped]
  | @act effect undone w =>
    obtain ⟨-, hagent, -, heffects⟩ := apply_frame (w := w) effect
    exact ⟨hagent, hstopped, by simp [heffects]⟩

/-- No event reaches an agent that has been shut down. -/
theorem deliver_of_stopped (hstopped : w.agent.isRunning = false) : w.deliver = none := by
  unfold deliver
  cases w.queue <;> simp [hstopped]

/-- Nor does all that happens later. -/
theorem Stopped.nexts {a : Agent} {effects : List Effect} {y z : List Effect × World}
    (h : Stopped a effects y) (hnexts : Relation.ReflTransGen Next y z) : Stopped a effects z := by
  induction hnexts with
  | refl => exact h
  | tail _ hnext ih => exact ih.next hnext

/-- An agent that runs, whatever it has been through, is idle and signed out once it is closed,
without a connection, polls or messages that wait. It signs out once if it was signed in or waited
to be, and not at all otherwise. After that neither closing it again nor hanging up nor what comes
from its connections changes the agent or is seen outside the log. Shutting it down does the same,
and is for good: whatever comes later, the agent does nothing, and in the whole no event is taken
from the queue and nothing is done any more but what was still to be done then. -/
theorem run_closedown (script : List (Event × Replies)) (r : Replies)
    (hrun : (Agent.run settings script {}).1.isRunning = true) :
    let a := (Agent.run settings script {}).1
    let closed := a.step settings r (.command .close)
    let down := a.step settings r (.command .shutdown)
    closed.1 = { issued := a.issued } ∧
    Agent.markedBy closed.2 =
      (if a.isSignedIn = true ∨ a.call.phase = .awaitingSignIn then [.withdrawn] else []) ∧
    (∀ later : List (Event × Replies), (∀ input ∈ later, input.1.IsAftermath) →
      (Agent.run settings later closed.1).1 = closed.1 ∧
        Agent.seen (Agent.history settings later closed.1) = []) ∧
    down = ({ closed.1 with isRunning := false }, closed.2) ∧
    (∀ later, Agent.run settings later down.1 = (down.1, later.map fun _ => [])) ∧
    ∀ scripts bus trace past undone w, Run settings scripts bus trace past undone w →
      (∃ m ∈ past, m.event = .command .shutdown) →
        ∀ y, Relation.ReflTransGen Next (undone, w) y →
          y.2.agent = w.agent ∧ y.2.effects ++ y.1 = w.effects ++ undone ∧
            y.2.perform .deliver = none := by
  intro a closed down
  obtain ⟨effects, hclose, hshutdown, hmarks⟩ :=
    (Agent.coherent_run script).step_close hrun settings r
  have hclosed : closed = ({ issued := a.issued }, effects) := hclose
  have hdown : down = ({ issued := a.issued, isRunning := false }, effects) := hshutdown
  rw [hclosed, hdown]
  refine ⟨rfl, hmarks, fun later hlater => Agent.run_aftermath later hlater, rfl,
    fun later => Agent.run_of_stopped rfl later, ?_⟩
  intro scripts bus trace past undone w h hshut y hnexts
  have hstopped : Stopped w.agent (w.effects ++ undone) (undone, w) :=
    ⟨rfl, h.tended.stopped hshut, rfl⟩
  obtain ⟨hagent, hstill, heffects⟩ := hstopped.nexts hnexts
  refine ⟨hagent, heffects, deliver_of_stopped ?_⟩
  rw [hagent]
  exact hstill

/-- An agent that is signed in and has an offer to send which the bus does not take. -/
def heldOffer : List (Event × Replies) :=
  [(.command .signIn, {}), (.bus .signedIn, {}), (.command (.connect "bob"), {}),
    (.outcome 1 (.localReady ⟨.offer, "v=0"⟩), { send := fun _ => some BusScript.busy })]

/-- The offer is forgotten, the agent signs out once, and its old connection is not heard. -/
theorem closedown_heldOffer :
    let a := (Agent.run Settings.default heldOffer {}).1
    let closed := a.step Settings.default {} (.command .close)
    let later : List (Event × Replies) :=
      [(.command .disconnect, {}), (.link 1 (.state .failed), {}), (.command .close, {})]
    a.isRunning = true ∧ a.call.outbox.length = 1 ∧ closed.1 = { issued := 1 } ∧
      Agent.markedBy closed.2 = [.withdrawn] ∧
      Agent.seen (Agent.history Settings.default later closed.1) = [] := by
  intro a closed later
  have hrun : (Agent.run Settings.default heldOffer {}).1.isRunning = true := by decide +kernel
  obtain ⟨hclosed, hmarks, hlater, -⟩ := run_closedown heldOffer {} hrun
  refine ⟨hrun, by decide +kernel, hclosed.trans (by decide +kernel), ?_, ?_⟩
  · exact hmarks.trans (by decide +kernel)
  · refine (hlater later ?_).2
    simp only [later, List.forall_mem_cons, List.not_mem_nil, false_implies, implies_true, and_true]
    exact ⟨.disconnect, .connection rfl, .close⟩

end World

end PeerCall
