import PeerCall.World.Schedule

/-!
# Scripts for the whole

A script drives the agent and its surroundings from outside: it posts events, lets held calls go
on, lets time pass, and takes away the listener or the agent itself. After each step things go on
until nothing is left to do.
-/

namespace PeerCall.World

/-- What a script can do. -/
inductive Action
  | post (event : Event)
  /-- A link reports something by the callback that it was given. -/
  | report (connection : ConnId) (news : LinkNews)
  | resume (connection : ConnId)
  | advance (ms jump : Nat)
  | failBus (script : BusScript)
  | nothing
  | dropListener
  | dropAgent

/-- A step of a script: one action, or several before anything goes on. -/
inductive Step
  | single (action : Action)
  | batch (actions : List Action)

/-- How an action went. -/
inductive Result
  | silent
  | refused (error : AgentError)
  | noConnection
  | resumed (isDone : Bool)

/-- Does what an action says. -/
def act (isRunner : Bool) (w : World) : Action → World × Result
  | .post event =>
    match w.post event with
    | some w => (w, .silent)
    | none => (w, .refused .queueClosed)
  | .report id news =>
    match w.link? id with
    | none => (w, .noConnection)
    | some _ => ((w.post (.link id news)).getD w, .silent)
  | .resume id =>
    match w.link? id with
    | none => (w, .noConnection)
    | some _ =>
      match w.resume id with
      | some w => (w, .resumed true)
      | none => (w, .resumed false)
  | .advance ms jump => (w.pass (settle isRunner []) jump ms, .silent)
  | .failBus script => ({ w with bus := script }, .silent)
  | .nothing => (w, .silent)
  | .dropListener => ({ w with hasListener := false }, .silent)
  | .dropAgent => (w.dropAgent, .silent)

/-- Does what actions say, in order, and goes on until nothing is left to do. Those that an action
makes able to go on queue up in `ready`. -/
def actAll (isRunner : Bool) (ready : List Runner) (w : World) :
    List Action → World × List Result
  | [] => (w.settle isRunner ready, [])
  | action :: rest =>
    let (w, result) := w.act isRunner action
    let (w, results) := actAll isRunner (w.queueUp isRunner ready) w rest
    (w, result :: results)

/-- The actions of a step. -/
def Step.actions : Step → List Action
  | .single action => [action]
  | .batch actions => actions

/-- Plays a step: the world after it, and how each of its actions went. -/
def play (isRunner : Bool) (w : World) (step : Step) : World × List Result :=
  w.actAll isRunner [] step.actions

end PeerCall.World
