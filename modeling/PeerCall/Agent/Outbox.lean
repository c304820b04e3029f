import PeerCall.Agent.Event

/-!
# The outbox

Messages that wait to be sent, first in, first out. A message leaves the outbox when it has been
sent; the first one that cannot be sent keeps its place at the head and holds up the others.
-/

namespace PeerCall

/-- Messages that wait to be sent, oldest first. -/
abbrev Outbox := List String

namespace Outbox

/-- Adds a message at the end. -/
def push (text : String) (o : Outbox) : Outbox := o ++ [text]

/-- What came of sending from an outbox. -/
structure Drained where
  effects : List Effect
  /-- What is left. -/
  rest : Outbox
  error : Option BusError

/-- The number of messages that were sent. -/
def Drained.sent (d : Drained) (o : Outbox) : Nat := o.length - d.rest.length

/-- Sends to a peer until the outbox is empty or a message cannot be sent; `reply i` is what the
bus says to the attempt number `i`. -/
def drain (peer : String) (reply : Nat → Option BusError) : Outbox → Drained
  | [] => ⟨[], [], none⟩
  | text :: rest =>
    match reply 0 with
    | some error =>
      ⟨[.send peer text (some error), .warn (.queueHeld error)], text :: rest, some error⟩
    | none =>
      let d := drain peer (fun i => reply (i + 1)) rest
      { d with effects := .send peer text none :: d.effects }

end Outbox

end PeerCall
