import PeerCall.Proofs.Agent.Transparency

/-!
# Renumbered connections

An agent does nothing with the number of a connection but to compare it and to pass it on. So an
agent whose connections are numbered from later on does the same as one that counts from the
beginning, with all numbers raised. This is said here for each handler, and in the end for a step.
-/

namespace PeerCall

/-! ## Raised numbers -/

/-- An event with another number for its connection. -/
def Event.renumber (f : ConnId → ConnId) : Event → Event
  | .link connection news => .link (f connection) news
  | .outcome connection result => .outcome (f connection) result
  | .records connection new => .records (f connection) new
  | event => event

/-- An event with the number of its connection raised. -/
def Event.raise (n : Nat) : Event → Event := renumber (· + n)

def AgentError.raise (n : Nat) : AgentError → AgentError
  | .stale connection => .stale (connection + n)
  | error => error

def Warning.raise (n : Nat) : Warning → Warning
  | .discarded error => .discarded (error.raise n)
  | warning => warning

/-- An effect with the number of its connection raised. -/
def Effect.raise (n : Nat) : Effect → Effect
  | .create connection error => .create (connection + n) error
  | .submit connection operation => .submit (connection + n) operation
  | .startPolls connection => .startPolls (connection + n)
  | .stopPolls connection => .stopPolls (connection + n)
  | .close connection => .close (connection + n)
  | .warn warning => .warn (warning.raise n)
  | effect => effect

def Live.raise (n : Nat) (l : Live) : Live := { l with id := l.id + n }

/-- An agent that has given out so many more numbers before. -/
def Agent.raise (n : Nat) (a : Agent) : Agent :=
  { a with live := a.live.map (·.raise n), polled := a.polled.map (· + n), issued := a.issued + n }

def Turn.raise (n : Nat) (t : Turn) : Turn where
  agent := t.agent.raise n
  effects := t.effects.map (·.raise n)
  error := t.error.map (·.raise n)

/-- What an agent is answered whose numbers are lower. -/
def Replies.lower (n : Nat) (r : Replies) : Replies :=
  { r with isDead := fun i id => r.isDead i (id + n) }

namespace Agent

variable {settings : Settings} {n : Nat} {a : Agent} {r : Replies}

/-! ## Turns -/

/-- The call of an agent has no number. -/
@[simp] theorem raise_call : (a.raise n).call = a.call := rfl

/-- The live connection is raised with its agent. -/
@[simp] theorem raise_live : (a.raise n).live = a.live.map (·.raise n) := rfl

/-- What has no number is done by a raised agent as by the other. -/
theorem emit_raise {effects : List Effect} (h : effects.map (·.raise n) = effects) :
    (a.raise n).emit effects = (a.emit effects).raise n := by
  simp [emit, Turn.raise, h]

/-- An unexpected event is reported without a number. -/
theorem unexpected_raise {what : String} :
    (a.raise n).unexpected what = (a.unexpected what).raise n := rfl

/-- What is done after something else. -/
theorem andThen_raise {t t' : Turn} {next next' : Agent → Turn} (ht : t' = t.raise n)
    (hnext : ∀ b : Agent, next' (b.raise n) = (next b).raise n) :
    t'.andThen next' = (t.andThen next).raise n := by
  rcases t with ⟨b, effects, error⟩
  rw [ht]
  cases error <;> simp [Turn.andThen, Turn.raise, hnext]

/-- A turn that comes after raised effects is raised if it is. -/
theorem after_raise {t t' : Turn} {effects effects' : List Effect}
    (heffects : effects' = effects.map (·.raise n)) (ht : t' = t.raise n) :
    t'.after effects' = (t.after effects).raise n := by
  simp [Turn.after, Turn.raise, heffects, ht]

/-- What is done in one of two cases. -/
theorem ite_raise {c : Prop} [Decidable c] {t t' u u' : Turn} (ht : t' = t.raise n)
    (hu : u' = u.raise n) : (if c then t' else u') = (if c then t else u).raise n := by
  rw [ht, hu, apply_ite (Turn.raise n)]

/-- A raised agent enters a phase as the other does. -/
theorem enter_raise {phase : Phase} : (a.raise n).enter phase = (a.enter phase).raise n :=
  ite_raise rfl rfl

/-- A raised agent hands over an operation as the other does. -/
theorem submit_raise {operation : Operation} :
    (a.raise n).submit r operation = (a.submit (r.lower n) operation).raise n := by
  unfold submit
  rw [raise_live]
  cases a.live with
  | none => rfl
  | some l => exact ite_raise rfl rfl

/-- So it does with several operations. -/
theorem submitAll_raise {operations : List Operation} :
    (a.raise n).submitAll r operations = (a.submitAll (r.lower n) operations).raise n := by
  induction operations generalizing a r with
  | nil => rfl
  | cons operation rest ih => exact andThen_raise submit_raise fun _ => ih

/-- No message carries the number of a connection. -/
theorem drain_raise (peer : String) (reply : Nat → Option BusError) (o : Outbox) :
    (o.drain peer reply).effects.map (·.raise n) = (o.drain peer reply).effects := by
  rcases o.drain_cases peer reply with h | ⟨sent, text, rest, error, -, h⟩ <;>
    simp [h, Effect.raise, Warning.raise]

/-- A raised agent sends what waits in its outbox as the other does. -/
theorem flush_raise : (a.raise n).flush r = (a.flush (r.lower n)).raise n := by
  unfold flush
  rw [raise_call]
  cases a.call.peer with
  | none => rfl
  | some peer =>
    simp only [Turn.raise, Replies.lower, drain_raise, Option.map_map]
    rfl

/-! ## Beginning and ending a call -/

/-- A raised agent starts a call as the other does, on a raised connection. -/
theorem startCall_raise {peer : String} {isCaller : Bool} :
    (a.raise n).startCall r peer isCaller = (a.startCall (r.lower n) peer isCaller).raise n := by
  have hissued : (a.raise n).issued + 1 = a.issued + 1 + n := Nat.add_right_comm ..
  have hreply : (r.lower n).create = r.create := rfl
  let begun : Agent :=
    { a with issued := a.issued + 1, call := a.call.begin peer isCaller }
  simp only [startCall, hreply, hissued, emit_andThen]
  refine andThen_raise (enter_raise (a := begun)) fun b => ?_
  let created : Agent := { b with live := some { id := a.issued + 1 } }
  cases r.create with
  | some error => rfl
  | none => exact after_raise rfl (ite_raise (submit_raise (a := created)) rfl)

/-- A raised agent starts to poll as the other does. -/
theorem enterConnected_raise : (a.raise n).enterConnected = a.enterConnected.raise n := by
  refine andThen_raise enter_raise fun b => ?_
  rw [raise_live]
  cases b.live <;> rfl

/-- A raised agent stops its polls as the other does. -/
theorem stopPolls_raise : (a.raise n).stopPolls = a.stopPolls.raise n := by
  cases hpolled : a.polled <;> simp [stopPolls, raise, hpolled, Turn.raise, emit, Effect.raise]

/-- A raised agent gives up its connection as the other does. -/
theorem dropLive_raise : (a.raise n).dropLive = a.dropLive.raise n := by
  cases hl : a.live <;>
    simp [dropLive, raise, hl, Turn.raise, emit, Effect.raise, Live.raise]

/-- A raised agent ends a call as the other does. -/
theorem endCall_raise {failure : Option String} :
    (a.raise n).endCall failure = (a.endCall failure).raise n := by
  unfold endCall
  rw [raise_live, Option.isNone_map]
  refine ite_raise rfl (andThen_raise enter_raise fun b => andThen_raise stopPolls_raise fun b =>
    andThen_raise dropLive_raise fun b => ?_)
  let reset : Agent := { b with call := b.call.reset }
  cases failure with
  | some reason => exact after_raise rfl (enter_raise (a := reset))
  | none => exact andThen_raise (enter_raise (a := reset)) fun _ => enter_raise

/-- A raised agent hangs up as the other does. -/
theorem hangUp_raise : (a.raise n).hangUp r = (a.hangUp (r.lower n)).raise n := by
  refine ite_raise (after_raise ?_ endCall_raise) rfl
  rw [raise_call]
  cases a.call.peer <;> rfl

/-- A raised agent closes as the other does. -/
theorem close_raise : (a.raise n).close r = (a.close (r.lower n)).raise n := by
  refine andThen_raise hangUp_raise fun b => ite_raise ?_ rfl
  exact after_raise rfl (enter_raise (a := { b with isSignedIn := false }))

/-! ## Commands and news of the bus -/

/-- A raised agent signs in as the other does. -/
theorem signIn_raise : (a.raise n).signIn r = (a.signIn (r.lower n)).raise n := by
  have hreply : (r.lower n).signIn = r.signIn := rfl
  unfold signIn
  rw [hreply]
  refine ite_raise rfl ?_
  cases r.signIn with
  | none => exact after_raise rfl enter_raise
  | some error => rfl

/-- Commands have no number. -/
theorem onCommand_raise {command : Command} :
    (a.raise n).onCommand r command = (a.onCommand (r.lower n) command).raise n := by
  cases command with
  | signIn => exact signIn_raise
  | connect peer => exact ite_raise rfl startCall_raise
  | disconnect => exact hangUp_raise
  | close => exact close_raise
  | shutdown =>
    simp only [onCommand]
    exact andThen_raise close_raise fun _ => rfl

/-- A raised agent accepts an offer as the other does. -/
theorem acceptOffer_raise {offer : Description} :
    (a.raise n).acceptOffer r offer = (a.acceptOffer (r.lower n) offer).raise n :=
  andThen_raise submitAll_raise fun _ => enter_raise

/-- A raised agent takes a description of the peer as the other does. -/
theorem onRemoteDescription_raise {peer : String} {d : Description} :
    (a.raise n).onRemoteDescription r peer d =
      (a.onRemoteDescription (r.lower n) peer d).raise n := by
  unfold onRemoteDescription
  rw [raise_call]
  split
  · exact andThen_raise startCall_raise fun _ => acceptOffer_raise
  · exact acceptOffer_raise
  · exact andThen_raise submit_raise fun _ => enterConnected_raise
  · rfl
  · rfl

/-- A raised agent takes a candidate of the peer as the other does. -/
theorem onRemoteCandidate_raise {c : Candidate} :
    (a.raise n).onRemoteCandidate r c = (a.onRemoteCandidate (r.lower n) c).raise n := by
  unfold onRemoteCandidate
  rw [raise_call, raise_live]
  cases a.call.phase.isLive with
  | false => rfl
  | true =>
    cases a.live with
    | none => rfl
    | some l =>
      have hremote : (l.raise n).remote = l.remote := rfl
      let heard : Agent := { a with live := some { l with remote := (l.remote.receive c).2 } }
      simp only [Option.map_some, hremote]
      cases (l.remote.receive c).1 with
      | none => rfl
      | some passed => exact submit_raise (a := heard)

/-- Messages have no number. -/
theorem onMessage_raise {peer text : String} :
    (a.raise n).onMessage r peer text = (a.onMessage (r.lower n) peer text).raise n := by
  unfold onMessage
  cases Message.decode text with
  | error error => rfl
  | ok message =>
    refine ite_raise unexpected_raise ?_
    cases message with
    | description d => exact onRemoteDescription_raise
    | candidate c => exact onRemoteCandidate_raise
    | bye => exact ite_raise endCall_raise rfl

/-- A raised agent is signed in or out as the other is. -/
theorem endSignIn_raise {isSignedIn : Bool} :
    (a.raise n).endSignIn isSignedIn = (a.endSignIn isSignedIn).raise n :=
  ite_raise (enter_raise (a := { a with isSignedIn := isSignedIn })) rfl

/-- News from the bus has no number. -/
theorem onBus_raise {news : BusNews} :
    (a.raise n).onBus settings r news = (a.onBus settings (r.lower n) news).raise n := by
  cases news with
  | signedIn => exact andThen_raise endSignIn_raise fun _ => flush_raise
  | signInFailed reason =>
    refine after_raise rfl (andThen_raise endSignIn_raise fun b => ?_)
    rfl
  | peerConnected peer => exact ite_raise startCall_raise flush_raise
  | peerDisconnected peer => exact ite_raise endCall_raise rfl
  | message peer text => exact onMessage_raise
  | messageSent => exact flush_raise

/-! ## News of the link -/

/-- A raised agent counts its candidates as the other does. -/
theorem noteOwn_raise {c : Candidate} : (a.raise n).noteOwn c = (a.noteOwn c).raise n := by
  unfold noteOwn
  rw [raise_live]
  cases a.live <;> rfl

/-- A raised agent follows the state of its link as the other does. -/
theorem onLinkState_raise {state : LinkState} :
    (a.raise n).onLinkState state = (a.onLinkState state).raise n := by
  cases state with
  | connected =>
    unfold onLinkState
    rw [raise_live]
    cases a.live <;> exact emit_raise (by rw [apply_ite (List.map _)]; rfl)
  | closed => exact ite_raise endCall_raise rfl
  | disconnected | failed | new | connecting => rfl

/-- A raised agent takes news of its link as the other does. -/
theorem onLink_raise {news : LinkNews} :
    (a.raise n).onLink r news = (a.onLink (r.lower n) news).raise n := by
  cases news with
  | candidate c =>
    simp only [onLink]
    exact andThen_raise noteOwn_raise fun b => andThen_raise rfl fun _ => flush_raise
  | state state => exact onLinkState_raise
  | trackAdded track | trackRemoved track => rfl

/-- A raised agent queues and applies its description as the other does, and goes on as it does. -/
theorem useLocal_raise {d : Description} {next next' : Agent → Turn}
    (hnext : ∀ b : Agent, next' (b.raise n) = (next b).raise n) :
    (a.raise n).useLocal r d next' = (a.useLocal (r.lower n) d next).raise n := by
  let queued : Agent := { a with call := a.call.push (Message.description d).encode }
  exact after_raise rfl (andThen_raise (submit_raise (a := queued)) fun b =>
    andThen_raise (hnext b) fun _ => flush_raise)

/-- A raised agent takes its own description as the other does. -/
theorem onLocalDescription_raise {d : Description} :
    (a.raise n).onLocalDescription r d = (a.onLocalDescription (r.lower n) d).raise n := by
  unfold onLocalDescription
  rw [raise_call]
  split
  · exact useLocal_raise fun _ => enter_raise
  · exact useLocal_raise fun _ => enterConnected_raise
  · rfl
  · rfl

/-- A raised agent passes on the candidates that wait as the other does. -/
theorem onRemoteApplied_raise :
    (a.raise n).onRemoteApplied r = (a.onRemoteApplied (r.lower n)).raise n := by
  unfold onRemoteApplied
  rw [raise_live]
  cases a.live with
  | none => rfl
  | some l =>
    exact submitAll_raise (a := { a with live := some { l with remote := l.remote.release.2 } })

/-- A raised agent takes the outcome of an operation as the other does. -/
theorem onOutcome_raise {outcome : Outcome} :
    (a.raise n).onOutcome r outcome = (a.onOutcome (r.lower n) outcome).raise n := by
  cases outcome with
  | localReady d => exact onLocalDescription_raise
  | remoteApplied kind => exact onRemoteApplied_raise
  | localApplied | candidateApplied | candidateRejected | failed => rfl

/-- A raised agent shows records as the other does. -/
theorem onRecords_raise {records : List Metrics.Record} :
    (a.raise n).onRecords records = (a.onRecords records).raise n := by
  refine emit_raise ?_
  rw [apply_ite (List.map _), List.map_map]
  rfl

/-! ## Steps -/

/-- An agent with raised numbers heeds the raised number of its connection. -/
theorem ifLive_raise {connection : ConnId} {handle handle' : Agent → Turn}
    (h : handle' (a.raise n) = (handle a).raise n) :
    (a.raise n).ifLive (connection + n) handle' = (a.ifLive connection handle).raise n := by
  unfold ifLive
  have hlive : (a.raise n).live.map (·.id) = some (connection + n) ↔
      a.live.map (·.id) = some connection := by
    cases hl : a.live <;> simp [hl, Live.raise]
  rw [if_congr hlive rfl rfl]
  exact ite_raise h rfl

/-- A raised agent handles a raised event as the other handles the event. -/
theorem handle_raise {event : Event} :
    (a.raise n).handle settings r (event.raise n) =
      (a.handle settings (r.lower n) event).raise n := by
  cases event with
  | command command => exact onCommand_raise
  | bus news => exact onBus_raise
  | link connection news => exact ifLive_raise onLink_raise
  | outcome connection outcome => exact ifLive_raise onOutcome_raise
  | records connection records => exact ifLive_raise onRecords_raise

/-- A raised agent settles an error as the other does. -/
theorem settle_raise {error : AgentError} :
    (a.raise n).settle (error.raise n) = (a.settle error).raise n := by
  cases error with
  | fatal error => exact after_raise rfl endCall_raise
  | unexpected | stale | undelivered | pollFailed | queueClosed => rfl

/-- A raised turn is finished as the other is. -/
theorem finish_raise (t : Turn) :
    finish (t.raise n) = ((finish t).1.raise n, (finish t).2.map (·.raise n)) := by
  rcases t with ⟨b, effects, error⟩
  cases error with
  | none => rfl
  | some error => simp [finish, Turn.raise, settle_raise]

/-- An agent with raised numbers takes the same steps. -/
theorem step_raise {event : Event} :
    (a.raise n).step settings r (event.raise n) =
      ((a.step settings (r.lower n) event).1.raise n,
        (a.step settings (r.lower n) event).2.map (·.raise n)) := by
  unfold step
  have hrun : (a.raise n).isRunning = a.isRunning := rfl
  rw [hrun]
  split
  · rw [handle_raise, finish_raise]
  · rfl

end Agent

end PeerCall
