import PeerCall.World.Schedule

/-!
# Background tasks alone

The worker or the poller of a single link without an agent: what they post stays in the queue.
-/

namespace PeerCall.World

/-- A single link, with an agent that takes no events. -/
def ofLink (link : Link) : World where
  settings := Settings.default
  links := [link]

/-- What can be done to a worker. -/
inductive WorkerAction
  | submit (operation : Operation)
  | submitAll (operations : List Operation)
  | resume
  /-- The worker is stopped. -/
  | abort
  /-- No more operations will be handed over. -/
  | closeOperations
  /-- Nobody receives outcomes any more. -/
  | closeQueue

/-- How an action went. -/
inductive WorkerResult
  | silent
  /-- Whether an operation was taken, or a held call went on. -/
  | answer (isDone : Bool)
  | noSender

/-- Changes the worker of the only link. -/
def updateWorker (w : World) (f : Worker → Worker) : World :=
  { w with links := w.links.map fun l => { l with worker := f l.worker } }

/-- Whether the workers satisfy a condition. -/
def allWorkers (w : World) (p : Worker → Bool) : Bool := w.links.all fun l => p l.worker

/-- Hands an operation to the worker. -/
def handOver (w : World) (operation : Operation) : World :=
  w.updateWorker fun worker => (worker.submit? operation).getD worker

/-- Does something to the worker of the only link, `id`. -/
def actOnWorker (w : World) (id : ConnId) : WorkerAction → World × WorkerResult
  | .submit operation =>
    if w.allWorkers (·.isClosed) then (w, .noSender)
    else
      ((w.handOver operation).rest [], .answer (w.allWorkers fun worker => !worker.isDone))
  | .submitAll operations =>
    if w.allWorkers (·.isClosed) then (w, .silent)
    else ((operations.foldl handOver w).rest [], .silent)
  | .resume =>
    match w.resume id with
    | some w => (w.rest [], .answer true)
    | none => (w, .answer false)
  | .abort => (w.updateWorker Worker.stop, .silent)
  | .closeOperations =>
    ((w.updateWorker fun worker => { worker with isClosed := true }).rest [], .silent)
  | .closeQueue => ({ w with isOpen := false }, .silent)

/-- What can be done to a poller. -/
inductive PollerAction
  | advance (ms jump : Nat)
  | resume
  /-- The poller is stopped by its handle. -/
  | stop
  /-- The handle goes away. -/
  | drop
  /-- Nobody receives records any more. -/
  | closeQueue

/-- How an action went. -/
inductive PollerResult
  | silent
  | resumed (isDone : Bool)
  /-- The connection whose poller was stopped, if its handle was still there. -/
  | stopped (connection : Option ConnId)

/-- Stops the poller of the only link. -/
def stopPolls (w : World) : World := { w with links := w.links.map Link.stopPolls }

/-- Does something to the poller of the only link, `id`. `hasHandle` says whether its handle is
still there. -/
def actOnPoller (w : World) (id : ConnId) (hasHandle : Bool) :
    PollerAction → World × Bool × PollerResult
  | .advance ms jump => (w.pass (rest []) jump ms, hasHandle, .silent)
  | .resume =>
    match w.resume id with
    | some w => (w.rest [], hasHandle, .resumed true)
    | none => (w, hasHandle, .resumed false)
  | .stop =>
    if hasHandle then (w.stopPolls.rest [], false, .stopped (some id))
    else (w, false, .stopped none)
  | .drop => (w.stopPolls.rest [], false, .silent)
  | .closeQueue => ({ w with isOpen := false }, hasHandle, .silent)

end PeerCall.World
