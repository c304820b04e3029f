import PeerCall.Agent.Call
import PeerCall.Agent.Candidates
import PeerCall.Settings.Basic

/-!
# The agent

The agent handles one event at a time. What its surroundings answer while it does so (whether a
connection could be made, a message sent, an operation taken) is an input of the step, and what it
does is an output, so that a step is a function.

A handler that meets an error stops there; what it has done until then stands. The error is then
settled: most are only noted, a failure of the link ends the call.
-/

namespace PeerCall

/-- The connection of the current call. -/
structure Live where
  id : ConnId
  remote : CandidateBuffer := {}
  /-- The candidates of this side, oldest first. -/
  own : List Candidate := []
  deriving DecidableEq, Repr

/-- The state of an agent. -/
structure Agent where
  call : Call := {}
  live : Option Live := none
  /-- The connection that is polled. -/
  polled : Option ConnId := none
  /-- The number of the last connection. -/
  issued : Nat := 0
  isSignedIn : Bool := false
  isRunning : Bool := true
  deriving DecidableEq, Repr

/-- What the surroundings answer during one step. -/
structure Replies where
  create : Option LinkError := none
  signIn : Option BusError := none
  /-- The answer to each message of the step, counted from zero. -/
  send : Nat → Option BusError := fun _ => none
  /-- Whether the worker of a connection takes no more operations, at each attempt of the step to
  hand one over, counted from zero. -/
  isDead : Nat → ConnId → Bool := fun _ _ => false

/-- The answers that are left once an operation has been handed over. -/
def Replies.afterSubmit (r : Replies) : Replies := { r with isDead := fun i => r.isDead (i + 1) }

/-- What a handler has done, and the error that stopped it. -/
structure Turn where
  agent : Agent
  effects : List Effect := []
  error : Option AgentError := none

namespace Turn

/-- Goes on unless an error has stopped the turn. -/
def andThen (t : Turn) (next : Agent → Turn) : Turn :=
  match t.error with
  | some _ => t
  | none =>
    let u := next t.agent
    { u with effects := t.effects ++ u.effects }

end Turn

namespace Agent

/-- Stops with an error. -/
def fail (a : Agent) (error : AgentError) : Turn := { agent := a, error := some error }

/-- Does something. -/
def emit (a : Agent) (effects : List Effect) : Turn := { agent := a, effects := effects }

/-- Stops because the event has no place in the phase of the call. -/
def unexpected (a : Agent) (what : String) : Turn := a.fail (.unexpected a.call.phase what)

/-- Moves the call to a phase and tells the user, unless it is there already. -/
def enter (phase : Phase) (a : Agent) : Turn :=
  if a.call.phase = phase then a.emit []
  else { a with call := { a.call with phase := phase } }.emit [.notify (.phase phase)]

/-- Hands an operation to the worker of the live connection. -/
def submit (r : Replies) (operation : Operation) (a : Agent) : Turn :=
  match a.live with
  | some live =>
    if r.isDead 0 live.id then a.fail (.fatal .closed) else a.emit [.submit live.id operation]
  | none => a.fail (.fatal .closed)

/-- Hands over operations, in order. -/
def submitAll (r : Replies) : List Operation → Agent → Turn
  | [], a => a.emit []
  | operation :: rest, a => (a.submit r operation).andThen (submitAll r.afterSubmit rest)

/-- Sends what waits in the outbox. -/
def flush (r : Replies) (a : Agent) : Turn :=
  match a.call.peer with
  | none => a.emit []
  | some peer =>
    let d := a.call.outbox.drain peer r.send
    { agent := { a with call := { a.call with outbox := d.rest } },
      effects := d.effects,
      error := d.error.map .undelivered }

/-- Queues a message for the peer. -/
def queue (message : Message) (a : Agent) : Turn :=
  { a with call := a.call.push message.encode }.emit []

/-! ## Beginning and ending a call -/

/-- Begins a call on a new connection. The caller makes an offer. -/
def startCall (r : Replies) (peer : String) (isCaller : Bool) (a : Agent) : Turn :=
  let id := a.issued + 1
  let begun := { a with issued := id, call := a.call.begin peer isCaller }
  (begun.enter .connecting).andThen fun a =>
    match r.create with
    | some error =>
      { agent := a, effects := [.create id (some error)], error := some (.fatal error) }
    | none =>
      ({ a with live := some { id := id } }.emit [.create id none]).andThen fun a =>
        if isCaller then a.submit r .createOffer else a.emit []

/-- The exchange of descriptions is complete: polling begins. -/
def enterConnected (a : Agent) : Turn :=
  (a.enter .connected).andThen fun a =>
    match a.live with
    | some live => { a with polled := some live.id }.emit [.startPolls live.id]
    | none => a.emit []

/-- Stops polling. -/
def stopPolls (a : Agent) : Turn :=
  match a.polled with
  | some id => { a with polled := none }.emit [.stopPolls id]
  | none => a.emit []

/-- Gives up the live connection. -/
def dropLive (a : Agent) : Turn :=
  match a.live with
  | some live => { a with live := none }.emit [.close live.id]
  | none => a.emit []

/-- Ends the call, if there is anything to end. A call that fails is reported with its reason in
place of the phase `closed`. -/
def endCall (failure : Option String) (a : Agent) : Turn :=
  if !a.call.phase.isLive && a.live.isNone then a.emit []
  else
    (a.enter .closing).andThen fun a => a.stopPolls.andThen fun a => a.dropLive.andThen fun a =>
      let a := { a with call := a.call.reset }
      let last := match failure with
        | some reason => a.emit [.notify (.callFailed reason)]
        | none => a.enter .closed
      last.andThen (enter .idle)

/-- Ends the call because the user wants it. The peer is told, whether or not that succeeds. -/
def hangUp (r : Replies) (a : Agent) : Turn :=
  if a.call.phase.isLive then
    let goodbye := match a.call.peer with
      | some peer => [Effect.send peer Message.byeText (r.send 0)]
      | none => []
    (a.emit goodbye).andThen (endCall none)
  else a.emit []

/-- Ends the call and signs out. -/
def close (r : Replies) (a : Agent) : Turn :=
  (a.hangUp r).andThen fun a =>
    if a.isSignedIn || a.call.phase == .awaitingSignIn then
      ({ a with isSignedIn := false }.emit [.signOut]).andThen (enter .idle)
    else a.emit []

/-! ## Commands -/

/-- Asks the bus to sign in. -/
def signIn (r : Replies) (a : Agent) : Turn :=
  if a.call.phase ≠ .idle ∨ a.isSignedIn then a.unexpected "sign-in request"
  else
    match r.signIn with
    | none => (a.emit [.signIn none]).andThen (enter .awaitingSignIn)
    | some error =>
      a.emit [.signIn (some error), .warn (.signInFailed error.message),
        .notify (.signInFailed error.message)]

/-- Handles a command. -/
def onCommand (r : Replies) (command : Command) (a : Agent) : Turn :=
  match command with
  | .signIn => a.signIn r
  | .connect peer =>
    if a.call.phase ≠ .idle then a.unexpected "connect request" else a.startCall r peer true
  | .disconnect => a.hangUp r
  | .close => a.close r
  | .shutdown => (a.close r).andThen fun a => { a with isRunning := false }.emit []

/-! ## The message bus -/

/-- Accepts an offer on the live connection. -/
def acceptOffer (r : Replies) (offer : Description) (a : Agent) : Turn :=
  (a.submitAll r [.setRemote offer, .createAnswer]).andThen (enter .haveRemoteOffer)

/-- Handles a description of the peer. -/
def onRemoteDescription (r : Replies) (peer : String) (d : Description) (a : Agent) : Turn :=
  match a.call.phase, d.kind with
  | .idle, .offer => (a.startCall r peer false).andThen (acceptOffer r d)
  | .connecting, .offer => a.acceptOffer r d
  | .haveLocalOffer, .answer => (a.submit r (.setRemote d)).andThen enterConnected
  | _, .offer => a.unexpected "offer"
  | _, .answer => a.unexpected "answer"

/-- Handles a candidate of the peer. -/
def onRemoteCandidate (r : Replies) (c : Candidate) (a : Agent) : Turn :=
  match a.call.phase.isLive, a.live with
  | true, some live =>
    let (passed, remote) := live.remote.receive c
    let a := { a with live := some { live with remote := remote } }
    match passed with
    | some c => a.submit r (.addCandidate c)
    | none => a.emit []
  | _, _ => a.unexpected "ice candidate"

/-- Handles a message of a peer. During a call only its own peer is heard. -/
def onMessage (r : Replies) (peer text : String) (a : Agent) : Turn :=
  match Message.decode text with
  | .error error => a.emit [.warn (.messageIgnored error)]
  | .ok message =>
    if a.call.phase ≠ .idle ∧ ¬a.call.isWith peer then a.unexpected "message from another peer"
    else
      match message with
      | .description d => a.onRemoteDescription r peer d
      | .candidate c => a.onRemoteCandidate r c
      | .bye => if a.call.phase.isLive then a.endCall none else a.emit []

/-- The answer to a sign-in has come. -/
def endSignIn (isSignedIn : Bool) (a : Agent) : Turn :=
  let a := { a with isSignedIn := isSignedIn }
  if a.call.phase = .awaitingSignIn then a.enter .idle else a.emit []

/-- Handles news from the message bus. -/
def onBus (settings : Settings) (r : Replies) (news : BusNews) (a : Agent) : Turn :=
  match news with
  | .signedIn => (a.endSignIn true).andThen (flush r)
  | .signInFailed reason =>
    (a.emit [.warn (.signInFailed reason)]).andThen fun a =>
      (a.endSignIn false).andThen fun a => a.emit [.notify (.signInFailed reason)]
  | .peerConnected peer =>
    if settings.autocall ∧ a.isSignedIn ∧ a.call.phase = .idle then a.startCall r peer true
    else a.flush r
  | .peerDisconnected peer =>
    if a.call.phase.isLive ∧ a.call.isWith peer then a.endCall none else a.emit []
  | .message peer text => a.onMessage r peer text
  | .messageSent => a.flush r

/-! ## The link -/

/-- Notes a candidate of this side. -/
def noteOwn (c : Candidate) (a : Agent) : Turn :=
  match a.live with
  | some live => { a with live := some { live with own := live.own ++ [c] } }.emit []
  | none => a.emit []

/-- Handles a change of state of the live connection. -/
def onLinkState (state : LinkState) (a : Agent) : Turn :=
  match state with
  | .connected =>
    let own := match a.live with
      | some live => live.own.map (·.candidate)
      | none => []
    a.emit (if (CandidateCount.ofList own).lacksRelay then [.warn .noRelay] else [])
  | .disconnected => a.emit [.warn .connectionInterrupted]
  | .failed => a.fail (.fatal .connectionFailed)
  | .closed => if a.call.phase.isLive then a.endCall none else a.emit []
  | .new | .connecting => a.emit []

/-- Handles news from the live connection. -/
def onLink (r : Replies) (news : LinkNews) (a : Agent) : Turn :=
  match news with
  | .candidate c =>
    (a.noteOwn c).andThen fun a => (a.queue (.candidate c)).andThen (flush r)
  | .state state => a.onLinkState state
  | .trackAdded track => a.emit [.notify (.trackAdded track)]
  | .trackRemoved track => a.emit [.notify (.trackRemoved track)]

/-- A description of this side is sent to the peer and applied. -/
def useLocal (r : Replies) (d : Description) (next : Agent → Turn) (a : Agent) : Turn :=
  (a.queue (.description d)).andThen fun a => (a.submit r (.setLocal d)).andThen fun a =>
    (next a).andThen (flush r)

/-- Handles a description of this side. -/
def onLocalDescription (r : Replies) (d : Description) (a : Agent) : Turn :=
  match a.call.phase, d.kind with
  | .connecting, .offer => a.useLocal r d (enter .haveLocalOffer)
  | .haveRemoteOffer, .answer => a.useLocal r d enterConnected
  | _, .offer => a.unexpected "local offer"
  | _, .answer => a.unexpected "local answer"

/-- The description of the peer has been applied: the candidates that waited follow. -/
def onRemoteApplied (r : Replies) (a : Agent) : Turn :=
  match a.live with
  | some live =>
    let (waiting, remote) := live.remote.release
    submitAll r (waiting.map .addCandidate) { a with live := some { live with remote := remote } }
  | none => a.emit []

/-- Handles what came of an operation. -/
def onOutcome (r : Replies) (outcome : Outcome) (a : Agent) : Turn :=
  match outcome with
  | .localReady d => a.onLocalDescription r d
  | .localApplied _ => a.emit []
  | .remoteApplied _ => a.onRemoteApplied r
  | .candidateApplied => a.emit []
  | .candidateRejected error => a.emit [.warn (.candidateRejected error)]
  | .failed operation error =>
    { agent := a, effects := [.warn (.operationFailed operation)], error := some (.fatal error) }

/-- Shows new records, once the call stands. -/
def onRecords (records : List Metrics.Record) (a : Agent) : Turn :=
  a.emit (if a.call.phase = .connected then records.map fun r => .notify (.record r) else [])

/-! ## Steps -/

/-- Handles an event of a connection if that is the live one. -/
def ifLive (connection : ConnId) (handle : Agent → Turn) (a : Agent) : Turn :=
  if a.live.map (·.id) = some connection then handle a else a.fail (.stale connection)

/-- Handles an event. -/
def handle (settings : Settings) (r : Replies) (event : Event) (a : Agent) : Turn :=
  match event with
  | .command command => a.onCommand r command
  | .bus news => a.onBus settings r news
  | .link connection news => a.ifLive connection (onLink r news)
  | .outcome connection outcome => a.ifLive connection (onOutcome r outcome)
  | .records connection records => a.ifLive connection (onRecords records)

/-- Deals with an error. -/
def settle (error : AgentError) (a : Agent) : Turn :=
  match error with
  | .unexpected _ _ | .stale _ => a.emit [.warn (.discarded error)]
  | .undelivered _ | .pollFailed _ => a.emit [.warn (.unhandled error)]
  | .fatal e => (a.emit [.warn (.fatal e)]).andThen (endCall (some e.message))
  | .queueClosed => { a with isRunning := false }.emit [.warn (.unhandled error)]

/-- Ends a turn: an error that stopped it is dealt with. -/
def finish (t : Turn) : Agent × List Effect :=
  match t.error with
  | none => (t.agent, t.effects)
  | some error =>
    let u := t.agent.settle error
    (u.agent, t.effects ++ u.effects)

/-- One event: the new state, and what was done. An agent that has been shut down does nothing. -/
def step (settings : Settings) (r : Replies) (event : Event) (a : Agent) : Agent × List Effect :=
  if a.isRunning then finish (a.handle settings r event) else (a, [])

/-- A run over events, each with the answers of the surroundings: the last state, and what was
done in each step. -/
def run (settings : Settings) : List (Event × Replies) → Agent → Agent × List (List Effect)
  | [], a => (a, [])
  | (event, r) :: rest, a =>
    let (a, effects) := a.step settings r event
    let (a, later) := run settings rest a
    (a, effects :: later)

end Agent

end PeerCall
