import PeerCall.World.Basic

/-!
# A schedule

One order of moves among the many. Runners that can go on queue up in the order in which they
became able to, and each goes on until it has to wait. The agent is a runner like the others, or
stands back and takes its next event when no other runner can go on.
-/

namespace PeerCall

/-- What goes on at a link beside the agent. -/
inductive Task
  | worker
  | poller
  | poll (tick : Nat)
  | close
  deriving DecidableEq, Repr

namespace Link

/-- The next move of a task, if it can go on. -/
def nextMove? (l : Link) (now : Nat) : Task → Option Move
  | .worker =>
    match l.worker.current with
    | some (_, flight) => if flight.isDue now then some .endOperation else none
    | none => if l.worker.waiting.isEmpty || l.worker.isDone then none else some .beginOperation
  | .poller =>
    match l.poller with
    | some p =>
      if p.isStopped then some .dropPolls
      else if p.isDue now then some .tick
      else if p.results.isEmpty then none else some .takeResult
    | none => none
  | .poll n =>
    match l.poller with
    | some p =>
      if p.spawned.contains n then some (.beginPoll n)
      else if (p.flights.lookup n).any (·.isDue now) then some (.endPoll n) else none
    | none => none
  | .close =>
    match l.closing with
    | .asked => some .beginClose
    | .flying flight => if flight.isDue now then some .endClose else none
    | _ => none

end Link

/-- A wait for a moment: when it ends, and when it began. -/
structure Alarm where
  due : Nat
  set : Nat

namespace Alarm

/-- No wait at all. -/
def none : Alarm := ⟨0, 0⟩

/-- The wait of a call. -/
def ofFlight (f : Flight) : Alarm :=
  match f.wait with
  | .time due => ⟨due, due - f.answer.delayMs⟩
  | .resumption => none

/-- The wait of a poller for its next tick. -/
def ofPoller (p : Poller) : Alarm :=
  if p.results.isEmpty && !p.isStopped then ⟨p.due, p.due - p.period⟩ else none

/-- Waits end in the order of their ends; of those that end together the oldest comes first. -/
def notAfter (a b : Alarm) : Bool := a.due < b.due || (a.due == b.due && a.set ≤ b.set)

end Alarm

namespace Link

/-- The tasks of a link, each with the wait before it. -/
def tasks (l : Link) : List (Alarm × Task) :=
  let worker := match l.worker.current with
    | some (_, flight) => Alarm.ofFlight flight
    | none => .none
  let closing := match l.closing with
    | .flying flight => Alarm.ofFlight flight
    | _ => .none
  let polling := match l.poller with
    | some p =>
      (Alarm.ofPoller p, Task.poller) ::
        p.flights.map (fun f => (Alarm.ofFlight f.2, .poll f.1)) ++
        p.spawned.map (fun n => (Alarm.none, .poll n))
    | none => []
  (worker, .worker) :: polling ++ [(closing, .close)]

/-- The tasks of a link that can go on, in the order in which their waits ended. -/
def awake (l : Link) (now : Nat) : List Task :=
  let able := l.tasks.filter fun t => (l.nextMove? now t.2).isSome
  (able.mergeSort fun s t => s.1.notAfter t.1).map (·.2)

/-- No fewer than the moves that a link can make before time passes. -/
def workLeft (l : Link) (now : Nat) : Nat :=
  2 * l.worker.waiting.length + 4 +
    (match l.poller with
      | some p => 4 * (now + 1 - p.due) + 3 * p.spawned.length + 2 * p.flights.length +
          p.results.length + 1
      | none => 0)

end Link

/-- Whatever can go on by itself. -/
inductive Runner
  | agent
  | task (connection : ConnId) (task : Task)
  deriving DecidableEq, Repr

namespace World

/-- All tasks that can go on, and the agent if it is a runner and has events to take. -/
def awake (isRunner : Bool) (w : World) : List Runner :=
  let agent := if isRunner && w.isOpen && !w.queue.isEmpty then [Runner.agent] else []
  agent ++ w.links.flatMap fun l => (l.awake w.clock).map (.task l.id)

/-- Lets those that have become able to go on queue up behind the others. -/
def queueUp (isRunner : Bool) (ready : List Runner) (w : World) : List Runner :=
  ready ++ (w.awake isRunner).filter (!ready.contains ·)

/-- One move of a runner, if it can go on. An agent that has been shut down is given up. -/
def goOn (w : World) : Runner → Option World
  | .agent => w.deliver.map fun w => if w.agent.isRunning then w else w.dropAgent
  | .task id task => do
    let link ← w.link? id
    w.moveLink id (← link.nextMove? w.clock task)

/-- Lets all runners go on: the first of `ready` until it has to wait, then the next. -/
def runAll (isRunner : Bool) : Nat → List Runner → World → World
  | 0, _, w => w
  | fuel + 1, [], w =>
    match w.awake isRunner with
    | [] => w
    | ready => runAll isRunner fuel ready w
  | fuel + 1, runner :: rest, w =>
    match w.goOn runner with
    | none => runAll isRunner fuel rest w
    | some w => runAll isRunner fuel (w.queueUp isRunner (runner :: rest)) w

/-- No fewer than the moves of all links before time passes. -/
def workLeft (w : World) : Nat := (w.links.map (·.workLeft w.clock)).foldl (· + ·) 0

/-- Lets all tasks go on until none can; those of `ready` come first. -/
def rest (ready : List Runner) (w : World) : World := runAll false (6 * w.workLeft + 16) ready w

/-- No fewer than the events that can come without one from outside. -/
def eventsLeft (w : World) : Nat :=
  let waiting := match w.agent.live with
    | some live => live.remote.waiting.length
    | none => 0
  8 * (w.queue.length + w.workLeft + waiting) + 16

/-- Tasks first, then one event, until nothing is left to do. -/
def settleStepwise : Nat → List Runner → World → World
  | 0, _, w => w
  | fuel + 1, ready, w =>
    let w := w.rest ready
    match w.deliver with
    | some w => settleStepwise fuel [] w
    | none => w

/-- Goes on until nothing is left to do. -/
def settle (isRunner : Bool) (ready : List Runner) (w : World) : World :=
  if isRunner then runAll true (8 * w.eventsLeft) ready w
  else settleStepwise w.eventsLeft ready w

/-- Time passes in jumps, with `between` after each jump. -/
def pass (between : World → World) (jump : Nat) : Nat → World → World
  | 0, w => w
  | ms + 1, w =>
    let step := min (max jump 1) (ms + 1)
    pass between jump (ms + 1 - step) (between { w with clock := w.clock + step })
termination_by ms => ms

end World

end PeerCall
