import PeerCall.Agent.Step
import PeerCall.Link.Basic

/-!
# The agent and its surroundings

An agent with its queue of events, the links that it has made, the message bus, the user and a
clock that moves only when it is told to. The parts advance by moves: a link does something, the
agent takes an event from its queue, an event comes from outside, or time passes. Every order of
moves is a run; a move is `none` where it is not possible.
-/

namespace PeerCall

/-- How the bus answers: some messages pass, then some fail, and all others pass; some attempts to
sign in fail, and all others succeed. -/
structure BusScript where
  passes : Nat := 0
  sends : Nat := 0
  signIns : Nat := 0
  deriving DecidableEq, Repr

namespace BusScript

/-- What the bus says when it fails. -/
def busy : BusError := .delivery "socket busy"

/-- The answer to the message number `i` from now. -/
def send (b : BusScript) (i : Nat) : Option BusError :=
  if b.passes ≤ i ∧ i < b.passes + b.sends then some busy else none

/-- The answer to an attempt to sign in. -/
def signIn (b : BusScript) : Option BusError := if b.signIns = 0 then none else some busy

/-- One message later. -/
def afterSend (b : BusScript) : BusScript :=
  if b.passes = 0 then { b with sends := b.sends - 1 } else { b with passes := b.passes - 1 }

/-- One attempt to sign in later. -/
def afterSignIn (b : BusScript) : BusScript := { b with signIns := b.signIns - 1 }

/-- After the attempts among some effects. -/
def after (b : BusScript) (effects : List Effect) : BusScript :=
  effects.foldl (fun b effect =>
    match effect with
    | .send _ _ _ => b.afterSend
    | .signIn _ => b.afterSignIn
    | _ => b) b

end BusScript

/-- An entry of the log. -/
inductive LogEntry
  | warning (warning : Warning)
  | poll (note : Metrics.PollNote)

/-- The agent and its surroundings. Histories stand oldest first. -/
structure World where
  settings : Settings
  /-- The scripts of the connections, in the order of their numbers. -/
  scripts : List Script := []
  bus : BusScript := {}
  agent : Agent := {}
  queue : List Event := []
  /-- The links that were made, oldest first. -/
  links : List Link := []
  clock : Nat := 0
  /-- Someone takes the notices. -/
  hasListener : Bool := true
  /-- Events can be posted. -/
  isOpen : Bool := true
  /-- All that the agent has done. -/
  effects : List Effect := []
  /-- All notices that someone took. -/
  notices : List Notice := []
  log : List LogEntry := []

namespace World

/-- The link of a connection. -/
def link? (w : World) (id : ConnId) : Option Link := w.links.find? (·.id = id)

/-- Changes the link of a connection. -/
def updateLink (w : World) (id : ConnId) (f : Link → Link) : World :=
  { w with links := w.links.map fun l => if l.id = id then f l else l }

/-- The script of a connection. -/
def scriptOf (w : World) (id : ConnId) : Script := (w.scripts[id - 1]?).getD {}

/-- What the surroundings answer to the next step of the agent. -/
def replies (w : World) : Replies where
  create := (w.scriptOf (w.agent.issued + 1)).creation
  signIn := w.bus.signIn
  send := w.bus.send
  isDead _ id := (w.link? id).any (·.worker.isDone)

/-- Does what the agent wants done. -/
def apply (w : World) (effect : Effect) : World :=
  let w := { w with effects := w.effects ++ [effect] }
  match effect with
  | .send _ _ _ => { w with bus := w.bus.afterSend }
  | .signIn _ => { w with bus := w.bus.afterSignIn }
  | .signOut => w
  | .create id none => { w with links := w.links ++ [{ id := id, script := w.scriptOf id }] }
  | .create _ (some _) => w
  | .submit id operation => w.updateLink id (·.submit operation)
  | .startPolls id =>
    w.updateLink id (·.startPolls w.settings.statsIntervalMs.toNat w.clock)
  | .stopPolls id => w.updateLink id Link.stopPolls
  | .close id => w.updateLink id Link.close
  | .notify notice => if w.hasListener then { w with notices := w.notices ++ [notice] } else w
  | .warn warning => { w with log := w.log ++ [.warning warning] }

/-- The agent takes the next event from its queue. -/
def deliver (w : World) : Option World :=
  match w.queue with
  | event :: rest =>
    if w.agent.isRunning && w.isOpen then
      let (agent, effects) := w.agent.step w.settings w.replies event
      some (effects.foldl apply { w with agent := agent, queue := rest })
    else none
  | [] => none

/-- An event comes from outside. What came of an operation is posted by the worker of its link
alone, and records by its poller. -/
def post (w : World) (event : Event) : Option World :=
  if w.isOpen && event.isExternal then some { w with queue := w.queue ++ [event] } else none

/-- A link makes a move. -/
def moveLink (w : World) (id : ConnId) (move : Link.Move) : Option World := do
  let link ← w.link? id
  let (link, output) ← link.perform w.clock w.isOpen move
  let w := w.updateLink id fun _ => link
  return { w with
    queue := w.queue ++ output.event.toList,
    log := w.log ++ output.note.toList.map .poll }

/-- The call that has been held longest at a link goes on. -/
def resume (w : World) (id : ConnId) : Option World := do
  let link ← w.link? id
  let link ← link.resume? w.clock
  return w.updateLink id fun _ => link

/-- The agent is given up as it stands: polling stops, the worker is handed nothing more, and no
event can be posted. -/
def dropAgent (w : World) : World :=
  let w := match w.agent.polled with
    | some id => w.updateLink id Link.stopPolls
    | none => w
  let w := match w.agent.live with
    | some live =>
      w.updateLink live.id fun l => { l with worker := { l.worker with isClosed := true } }
    | none => w
  { w with isOpen := false, queue := [] }

/-- A step of the whole. -/
inductive Move
  | deliver
  | post (event : Event)
  | link (connection : ConnId) (move : Link.Move)
  | advance (ms : Nat)
  | resume (connection : ConnId)
  | failBus (script : BusScript)
  | dropListener
  | dropAgent

/-- Makes a move, if it is possible. -/
def perform (w : World) : Move → Option World
  | .deliver => w.deliver
  | .post event => w.post event
  | .link id move => w.moveLink id move
  | .advance ms => some { w with clock := w.clock + ms }
  | .resume id => w.resume id
  | .failBus script => some { w with bus := script }
  | .dropListener => some { w with hasListener := false }
  | .dropAgent => some w.dropAgent

/-- Makes moves in order, as long as they are possible. -/
def performAll (w : World) : List Move → Option World
  | [] => some w
  | move :: rest => (w.perform move).bind (performAll · rest)

end World

end PeerCall
