import PeerCall.Agent.Step

/-!
# Coherent agents

The state of an agent has several fields that speak of the same call. This file states when they
agree, and computes the pieces of which all handlers are made for agents whose fields agree: the
end of a call, operations that are handed over, and messages that are sent.
-/

namespace PeerCall

namespace Replies

variable {r : Replies} {id : ConnId} {n : Nat}

/-- The worker of a connection takes the first operations that a step hands over, so many of
them. -/
def Takes (r : Replies) (id : ConnId) (n : Nat) : Prop := ∀ i < n, r.isDead i id = false

/-- No operations are always taken. -/
theorem takes_zero : r.Takes id 0 := by
  simp [Takes]

/-- One more operation is taken if the worker takes the first, and after it the others. -/
theorem takes_succ : r.Takes id (n + 1) ↔ r.isDead 0 id = false ∧ r.afterSubmit.Takes id n := by
  simp only [Takes, afterSubmit, Nat.forall_lt_succ_left']

/-- If one of the operations is refused, they are not all taken. -/
theorem not_takes {i : Nat} (hi : i < n) (hdead : r.isDead i id = true) : ¬r.Takes id n := by
  intro htakes
  simp [htakes i hi] at hdead

end Replies

/-- Puts what was done before in front of a turn. -/
def Turn.after (effects : List Effect) (t : Turn) : Turn :=
  { t with effects := effects ++ t.effects }

namespace Agent

/-- The fields of an agent agree with each other, and with the phase of the call. -/
structure Coherent (a : Agent) : Prop where
  /-- The phases that end a call are over when the step is. -/
  phase_ne_closing : a.call.phase ≠ .closing
  phase_ne_closed : a.call.phase ≠ .closed
  /-- There is a connection exactly while a call is being set up or stands, -/
  live_iff : a.live.isSome ↔ a.call.phase.isLive
  /-- and exactly then there is a peer. -/
  peer_iff : a.live.isSome ↔ a.call.peer.isSome
  /-- Polling goes on exactly while the call stands, on its connection. -/
  polled_eq : a.polled = if a.call.phase = .connected then a.live.map (·.id) else none
  outbox_eq_nil : a.call.phase.isLive = false → a.call.outbox = []
  isCaller_eq_false : a.call.phase.isLive = false → a.call.isCaller = false
  /-- The connection is the last one that was begun. -/
  id_eq_issued : ∀ l, a.live = some l → l.id = a.issued
  awaiting : a.call.phase = .awaitingSignIn → a.isSignedIn = false
  /-- Before a description of the peer has come, this side is the one that called. -/
  isCaller_of_phase :
    a.call.phase = .connecting ∨ a.call.phase = .haveLocalOffer → a.call.isCaller = true
  /-- Candidates wait only for the description of the peer. -/
  waiting_eq_nil : ∀ l, a.live = some l → l.remote.isRemoteSet = true → l.remote.waiting = []
  /-- An agent that has been shut down has no call and is signed out. -/
  stopped : a.isRunning = false → a.live = none ∧ a.isSignedIn = false

/-- The new agent is coherent. -/
theorem coherent_new : Coherent {} := by
  constructor <;> simp [Phase.isLive]

/-- A coherent agent with a connection has a peer, and is in one of four phases. -/
theorem Coherent.call_of_live {a : Agent} (ha : a.Coherent) {l : Live} (hl : a.live = some l) :
    a.call.phase.isLive = true ∧ ∃ peer, a.call.peer = some peer := by
  have hsome : a.live.isSome = true := by simp [hl]
  exact ⟨ha.live_iff.mp hsome, Option.isSome_iff_exists.mp (ha.peer_iff.mp hsome)⟩

/-- A coherent agent with a connection is running. -/
theorem Coherent.isRunning_of_live {a : Agent} (ha : a.Coherent) {l : Live}
    (hl : a.live = some l) : a.isRunning = true := by
  cases hrun : a.isRunning with
  | true => rfl
  | false =>
    have h := (ha.stopped hrun).1
    simp [hl] at h

/-- A coherent agent in a live phase has a connection and a peer. -/
theorem Coherent.live_of_phase {a : Agent} (ha : a.Coherent) (hp : a.call.phase.isLive = true) :
    ∃ l peer, a.live = some l ∧ a.call.peer = some peer := by
  obtain ⟨l, hl⟩ := Option.isSome_iff_exists.mp (ha.live_iff.mpr hp)
  obtain ⟨peer, hpeer⟩ := (ha.call_of_live hl).2
  exact ⟨l, peer, hl, hpeer⟩

/-- Outside the live phases there is no connection. -/
theorem Coherent.live_eq_none {a : Agent} (ha : a.Coherent) (hp : a.call.phase.isLive = false) :
    a.live = none := by
  have h := ha.live_iff
  simpa [hp] using h

/-- An idle agent has no connection. -/
theorem Coherent.live_of_idle {a : Agent} (ha : a.Coherent) (hp : a.call.phase = .idle) :
    a.live = none :=
  ha.live_eq_none (by rw [hp]; rfl)

/-- Without a connection the phase is not live. -/
theorem Coherent.isLive_eq_false {a : Agent} (ha : a.Coherent) (hl : a.live = none) :
    a.call.phase.isLive = false := by
  have h := ha.live_iff
  simpa [hl] using h

/-- A coherent agent without a connection has no trace of a call. -/
theorem Coherent.free {a : Agent} (ha : a.Coherent) (hl : a.live = none) :
    a.polled = none ∧ a.call = { phase := a.call.phase } ∧
      (a.call.phase = .idle ∨ a.call.phase = .awaitingSignIn) := by
  have hphase := ha.isLive_eq_false hl
  have hpeer : a.call.peer = none := by
    have h := ha.peer_iff
    simpa [hl] using h
  refine ⟨by rw [ha.polled_eq, hl]; simp, ?_, ?_⟩
  · rcases hcall : a.call with ⟨peer, phase, isCaller, outbox⟩
    have houtbox := ha.outbox_eq_nil hphase
    have hcaller := ha.isCaller_eq_false hphase
    simp_all
  · have hclosing := ha.phase_ne_closing
    have hclosed := ha.phase_ne_closed
    cases h : a.call.phase <;> simp_all [Phase.isLive]

/-- An idle agent is as it was before its first call, but for the numbers it has given out. -/
theorem Coherent.fresh_of_idle {a : Agent} (ha : a.Coherent) (hp : a.call.phase = .idle) :
    a.live = none ∧ a.polled = none ∧ a.call = {} := by
  have hl := ha.live_of_idle hp
  obtain ⟨hpolled, hcall, -⟩ := ha.free hl
  rw [hp] at hcall
  exact ⟨hl, hpolled, hcall⟩

/-! ## Turns -/

variable {a : Agent} {r : Replies} {t : Turn} {effects later : List Effect}

/-- A turn without an error goes on. -/
@[simp] theorem emit_andThen {next : Agent → Turn} :
    (a.emit effects).andThen next = (next a).after effects := rfl

/-- A turn that fails does not. -/
@[simp] theorem fail_andThen {error : AgentError} {next : Agent → Turn} :
    (a.fail error).andThen next = a.fail error := rfl

/-- What was done before a turn stays before what the turn goes on with. -/
@[simp] theorem after_andThen {next : Agent → Turn} :
    (t.after effects).andThen next = (t.andThen next).after effects := by
  rcases t with ⟨agent, done, error⟩
  cases error <;> simp [Turn.andThen, Turn.after]

/-- Putting nothing in front of a turn leaves it as it is. -/
@[simp] theorem after_nil {t : Turn} : t.after [] = t := by
  simp [Turn.after]

/-- What was done before comes before the effects of a turn. -/
@[simp] theorem after_emit : (a.emit later).after effects = a.emit (effects ++ later) := rfl

/-- The earlier of two pieces comes first. -/
@[simp] theorem after_after : (t.after later).after effects = t.after (effects ++ later) := by
  simp [Turn.after]

/-- A turn that goes on with nothing stays as it is. -/
@[simp] theorem andThen_emit_nil (t : Turn) : t.andThen (fun b => b.emit []) = t := by
  rcases t with ⟨agent, done, error⟩
  cases error <;> simp [Turn.andThen, emit]

/-- A turn without an error ends with its effects. -/
@[simp] theorem finish_emit : finish (a.emit effects) = (a, effects) := rfl

/-- What was done before a turn comes before all that the turn ends with. -/
@[simp] theorem finish_after :
    finish (t.after effects) = ((finish t).1, effects ++ (finish t).2) := by
  unfold finish Turn.after
  cases t.error <;> simp

/-- A turn that fails at a stale event ends with a warning. -/
@[simp] theorem finish_stale {connection : ConnId} :
    finish (a.fail (.stale connection)) = (a, [.warn (.discarded (.stale connection))]) := rfl

/-! ## The end of a call -/

/-- An agent after the end of its call. -/
def freed (a : Agent) : Agent := { a with call := {}, live := none, polled := none }

/-- What is done when a call ends. A failure is reported in place of the phase `closed`. -/
def parting (failure : Option String) (a : Agent) : List Effect :=
  .notify (.phase .closing) ::
    ((a.polled.map Effect.stopPolls).toList ++ (a.live.map fun l => Effect.close l.id).toList ++
      [.notify (match failure with
        | some reason => .callFailed reason
        | none => .phase .closed), .notify (.phase .idle)])

/-- Ending a call in a live phase frees the agent, whatever its other fields are. -/
theorem endCall_of_isLive (hp : a.call.phase.isLive = true) (failure : Option String) :
    a.endCall failure = a.freed.emit (a.parting failure) := by
  have hne : a.call.phase ≠ .closing := by
    intro h
    simp [h, Phase.isLive] at hp
  rcases a with ⟨call, live, polled, issued, isSignedIn, isRunning⟩
  cases failure <;> cases live <;> cases polled <;>
    simp_all [endCall, enter, stopPolls, dropLive, Call.reset, freed, parting]

/-- Ending a call frees the agent. -/
theorem endCall_of_live {l : Live} (ha : a.Coherent) (hl : a.live = some l)
    (failure : Option String) : a.endCall failure = a.freed.emit (a.parting failure) :=
  endCall_of_isLive (ha.call_of_live hl).1 failure

/-- A failure of the link ends the call. -/
theorem finish_fatal (hp : a.call.phase.isLive = true) (error : LinkError) :
    finish (a.fail (.fatal error)) =
      (a.freed, .warn (.fatal error) :: a.parting (some error.message)) := by
  have hsettle : a.settle (.fatal error) =
      a.freed.emit (.warn (.fatal error) :: a.parting (some error.message)) := by
    simp [settle, endCall_of_isLive hp]
  simp [finish, fail, hsettle, emit]

/-! ## Operations -/

/-- Operations are handed over up to the first that is refused. -/
theorem submitAll_eq {l : Live} (hl : a.live = some l) (operations : List Operation) :
    (r.Takes l.id operations.length ∧
        a.submitAll r operations = a.emit (operations.map (.submit l.id))) ∨
      ∃ taken operation left, operations = taken ++ operation :: left ∧
        r.isDead taken.length l.id = true ∧ a.submitAll r operations =
          (a.fail (.fatal .closed)).after (taken.map (.submit l.id)) := by
  induction operations generalizing r with
  | nil => exact Or.inl ⟨Replies.takes_zero, rfl⟩
  | cons operation rest ih =>
    cases hdead : r.isDead 0 l.id with
    | true =>
      refine Or.inr ⟨[], operation, rest, rfl, hdead, ?_⟩
      have hrefused : a.submit r operation = a.fail (.fatal .closed) := by
        simp [submit, hl, hdead]
      simp [submitAll, hrefused, Turn.after]
    | false =>
      have htaken : a.submit r operation = a.emit [.submit l.id operation] := by
        simp [submit, hl, hdead]
      rcases ih (r := r.afterSubmit) with ⟨htakes, hall⟩ |
        ⟨taken, refused, left, hsplit, hrefuses, hturn⟩
      · refine Or.inl ⟨Replies.takes_succ.mpr ⟨hdead, htakes⟩, ?_⟩
        simp [submitAll, htaken, hall]
      · refine Or.inr ⟨operation :: taken, refused, left, by simp [hsplit], hrefuses, ?_⟩
        simp [submitAll, htaken, hturn]

/-- Handing over one operation is handing over a list of one. -/
theorem submit_eq_submitAll (operation : Operation) :
    a.submit r operation = a.submitAll r [operation] := by
  simp only [submitAll, submit]
  split
  · split <;> simp [emit, fail, Turn.andThen]
  · rfl

/-! ## Messages -/

/-- Without a peer nothing is sent. -/
theorem flush_of_no_peer (hpeer : a.call.peer = none) : a.flush r = a.emit [] := by
  simp [flush, hpeer]

/-- With a peer the outbox is drained, and a message that could not be sent is noted. -/
theorem finish_flush {peer : String} (hpeer : a.call.peer = some peer) :
    finish (a.flush r) =
      ({ a with call := { a.call with outbox := (a.call.outbox.drain peer r.send).rest } },
        (a.call.outbox.drain peer r.send).effects ++
          ((a.call.outbox.drain peer r.send).error.map fun error =>
            Effect.warn (.unhandled (.undelivered error))).toList) := by
  cases herror : (a.call.outbox.drain peer r.send).error <;>
    simp [flush, hpeer, finish, settle, herror, emit]

end Agent

end PeerCall
