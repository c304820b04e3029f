import PeerCall.Link.Script
import PeerCall.Metrics.Poll

/-!
# Links at work

A link with the three things that go on beside the agent: a worker that runs the operations of the
connection one after another, a poller that asks for statistics in a fixed rhythm, and the call
that closes the link in the end. Each of them advances by small moves. In which order the moves
are made is left open here; a move is `none` where it is not possible.
-/

namespace PeerCall

/-- What a call waits for. -/
inductive Wait
  | resumption
  | time (due : Nat)
  deriving DecidableEq, Repr

/-- A call that has begun and not ended. -/
structure Flight where
  /-- The number of calls on the link before it. -/
  ticket : Nat
  answer : Answer
  wait : Wait

/-- Whether a call can end now. -/
def Flight.isDue (f : Flight) (now : Nat) : Bool :=
  match f.wait with
  | .resumption => false
  | .time due => due ≤ now

/-- Whether a call waits to be resumed. -/
def Flight.isHeld (f : Flight) : Bool := f.wait = .resumption

/-- Lets a held call go on. -/
def Flight.resume (f : Flight) (now : Nat) : Flight :=
  { f with wait := .time (now + f.answer.delayMs) }

/-- The operations of a connection: the one that runs, and those that wait. -/
structure Worker where
  waiting : List Operation := []
  current : Option (Operation × Flight) := none
  /-- It takes no more operations. -/
  isDone : Bool := false
  /-- No more operations will be handed to it. -/
  isClosed : Bool := false

namespace Worker

/-- Ends the task of a worker with all that it has not done. -/
def stop (w : Worker) : Worker := { w with waiting := [], current := none, isDone := true }

/-- Hands over an operation, if it is taken. -/
def submit? (w : Worker) (operation : Operation) : Option Worker :=
  if w.isDone then none else some { w with waiting := w.waiting ++ [operation] }

/-- Whether the task of the worker has ended. -/
def isFinished (w : Worker) : Bool :=
  w.isDone || (w.isClosed && w.waiting.isEmpty && w.current.isNone)

end Worker

/-- The polls of a connection. -/
structure Poller where
  period : Nat
  /-- The time of the next tick. -/
  due : Nat
  /-- The number of ticks so far. -/
  ticks : Nat := 0
  /-- It has been asked to stop: it sees no tick and takes no result any more, and goes away as soon
  as it is let go on. -/
  isStopped : Bool := false
  /-- Polls that have not begun, by the number of their tick. -/
  spawned : List Nat := []
  flights : List (Nat × Flight) := []
  /-- The results of polls in the order in which they came in. -/
  results : List Metrics.PollResult := []
  ledger : Metrics.Ledger := {}

namespace Poller

/-- Polling begins one period after its start. -/
def start (period now : Nat) : Poller := { period := period, due := now + period }

/-- A tick that is seen later than this many milliseconds starts a new rhythm. -/
def tolerance : Nat := 5

/-- The time of the tick after the one that is seen now. -/
def nextDue (p : Poller) (now : Nat) : Nat :=
  if p.due + tolerance < now then now + p.period else p.due + p.period

/-- Whether a tick is due. Without a period there are no ticks. -/
def isDue (p : Poller) (now : Nat) : Bool := !p.isStopped && 0 < p.period && p.due ≤ now

/-- The results that can be taken. -/
def takeable (p : Poller) : List Metrics.PollResult := if p.isStopped then [] else p.results

end Poller

/-- The call that closes a link. -/
inductive Closing
  | open
  | asked
  | flying (flight : Flight)
  | over

/-- A link, and what goes on at it. -/
structure Link where
  id : ConnId
  script : Script
  /-- All calls that have begun, oldest first. -/
  calls : List LinkCall := []
  worker : Worker := {}
  poller : Option Poller := none
  closing : Closing := .open

namespace Link

/-- Begins a call. -/
def begin (l : Link) (now : Nat) (call : LinkCall) : Flight × Link :=
  let (answer, script) := l.script.next call.kind
  let wait := if answer.isHeld then Wait.resumption else .time (now + answer.delayMs)
  (⟨l.calls.length, answer, wait⟩, { l with script := script, calls := l.calls ++ [call] })

/-- A small step of what goes on at a link. -/
inductive Move
  /-- The worker begins the next operation. -/
  | beginOperation
  /-- The operation of the worker ends. -/
  | endOperation
  /-- The poller sees a tick. -/
  | tick
  /-- A poll begins. -/
  | beginPoll (tick : Nat)
  /-- A poll ends. -/
  | endPoll (tick : Nat)
  /-- The poller takes the next result. -/
  | takeResult
  /-- A poller that has been stopped goes away, and its polls with it. -/
  | dropPolls
  | beginClose
  | endClose
  deriving DecidableEq, Repr

/-- What comes of a move beside the new state. -/
structure Output where
  event : Option Event := none
  note : Option Metrics.PollNote := none

/-- The worker begins the next operation once the one before is done. -/
def beginOperation (l : Link) (now : Nat) : Option Link :=
  match l.worker.current, l.worker.waiting with
  | none, operation :: rest =>
    if l.worker.isDone then none
    else
      let (flight, l) := l.begin now (.run operation)
      some { l with
        worker := { l.worker with waiting := rest, current := some (operation, flight) } }
  | _, _ => none

/-- The running operation ends and its outcome is posted. A crash ends the worker, and so does an
outcome that nobody can receive. -/
def endOperation (l : Link) (now : Nat) (isHeard : Bool) : Option (Link × Output) :=
  match l.worker.current with
  | some (operation, flight) =>
    if flight.isDue now then
      match flight.answer.outcome? operation with
      | some outcome =>
        if isHeard then
          some ({ l with worker := { l.worker with current := none } },
            { event := some (.outcome l.id outcome) })
        else some ({ l with worker := l.worker.stop }, {})
      | none => some ({ l with worker := l.worker.stop }, {})
    else none
  | none => none

/-- The poller sees a tick and starts a poll. However many periods have passed, it is one poll. -/
def tick (l : Link) (now : Nat) : Option Link :=
  match l.poller with
  | some p =>
    if p.isDue now then
      some { l with
        poller := some { p with
          due := p.nextDue now, ticks := p.ticks + 1, spawned := p.spawned ++ [p.ticks] } }
    else none
  | none => none

/-- A poll begins. -/
def beginPoll (l : Link) (now n : Nat) : Option Link :=
  match l.poller with
  | some p =>
    if p.spawned.contains n then
      let (flight, l) := l.begin now .poll
      some { l with
        poller := some { p with
          spawned := p.spawned.erase n, flights := p.flights ++ [(n, flight)] } }
    else none
  | none => none

/-- A poll ends. A crash leaves no result. -/
def endPoll (l : Link) (now n : Nat) : Option Link :=
  match l.poller with
  | some p =>
    match p.flights.lookup n with
    | some flight =>
      if flight.isDue now then
        some { l with
          poller := some { p with
            flights := p.flights.filter (·.1 ≠ n),
            results := p.results ++ flight.answer.poll?.toList } }
      else none
    | none => none
  | none => none

/-- The poller takes the next result. Records that nobody can receive end it. -/
def takeResult (l : Link) (isHeard : Bool) : Option (Link × Output) :=
  match l.poller with
  | some p =>
    match p.takeable with
    | result :: rest =>
      let (records, note, ledger) := p.ledger.takePoll .present result
      let next := { p with results := rest, ledger := ledger }
      if records.isEmpty then some ({ l with poller := some next }, { note := some note })
      else if isHeard then
        some ({ l with poller := some next },
          { event := some (.records l.id records), note := some note })
      else some ({ l with poller := none }, { note := some note })
    | [] => none
  | none => none

/-- A poller that has been stopped goes away, and its polls with it. Those that have not begun never
begin. -/
def dropPolls (l : Link) : Option Link :=
  match l.poller with
  | some p => if p.isStopped then some { l with poller := none } else none
  | none => none

/-- The call that closes the link begins. -/
def beginClose (l : Link) (now : Nat) : Option Link :=
  match l.closing with
  | .asked =>
    let (flight, l) := l.begin now .close
    some { l with closing := .flying flight }
  | _ => none

/-- The call that closes the link ends, however it does. -/
def endClose (l : Link) (now : Nat) : Option Link :=
  match l.closing with
  | .flying flight => if flight.isDue now then some { l with closing := .over } else none
  | _ => none

/-- Makes a move, if it is possible at this time. `isHeard` says whether events can still be
posted. -/
def perform (l : Link) (now : Nat) (isHeard : Bool) : Move → Option (Link × Output)
  | .beginOperation => (l.beginOperation now).map (·, {})
  | .endOperation => l.endOperation now isHeard
  | .tick => (l.tick now).map (·, {})
  | .beginPoll n => (l.beginPoll now n).map (·, {})
  | .endPoll n => (l.endPoll now n).map (·, {})
  | .takeResult => l.takeResult isHeard
  | .dropPolls => l.dropPolls.map (·, {})
  | .beginClose => (l.beginClose now).map (·, {})
  | .endClose => (l.endClose now).map (·, {})

/-! ## What the agent does to a link -/

/-- Hands an operation to the worker. -/
def submit (l : Link) (operation : Operation) : Link :=
  { l with worker := (l.worker.submit? operation).getD l.worker }

/-- Polling begins. -/
def startPolls (l : Link) (period now : Nat) : Link :=
  { l with poller := some (.start period now) }

/-- Polling ends: no tick is seen and no result is taken any more. The polls of the poller are tasks
of their own. Until it goes away, those that its ticks have started may still begin and end, but
nothing is heard of them. -/
def stopPolls (l : Link) : Link :=
  { l with poller := l.poller.map fun p => { p with isStopped := true } }

/-- The worker is stopped with all that it has not done, and the link is to be closed. -/
def close (l : Link) : Link := { l with worker := l.worker.stop, closing := .asked }

/-! ## Held calls -/

/-- The calls that have begun and not ended. -/
def flights (l : Link) : List Flight :=
  (l.worker.current.map (·.2)).toList ++
    (match l.poller with
      | some p => p.flights.map (·.2)
      | none => []) ++
    (match l.closing with
      | .flying flight => [flight]
      | _ => [])

/-- The ticket of the call that has been held longest. -/
def oldestHeld? (l : Link) : Option Nat :=
  ((l.flights.filter Flight.isHeld).map (·.ticket)).min?

/-- Lets the call that has been held longest go on, if there is one. -/
def resume? (l : Link) (now : Nat) : Option Link :=
  l.oldestHeld?.map fun ticket =>
    let go (f : Flight) := if f.ticket = ticket then f.resume now else f
    { l with
      worker := { l.worker with current := l.worker.current.map fun c => (c.1, go c.2) },
      poller := l.poller.map fun p =>
        { p with flights := p.flights.map fun f => (f.1, go f.2) },
      closing := match l.closing with
        | .flying flight => .flying (go flight)
        | closing => closing }

end Link

end PeerCall
