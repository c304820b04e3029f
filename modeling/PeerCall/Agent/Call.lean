import PeerCall.Agent.Outbox

/-!
# The call

The one call that an agent may have: with whom, who began it, where it stands, and what is still
to be sent for it.
-/

namespace PeerCall

/-- The current call, or the lack of one. -/
structure Call where
  peer : Option String := none
  phase : Phase := .idle
  isCaller : Bool := false
  outbox : Outbox := []
  deriving DecidableEq, Repr

namespace Call

/-- Turns to a peer. -/
def begin (c : Call) (peer : String) (isCaller : Bool) : Call :=
  { c with peer := some peer, isCaller := isCaller, outbox := [] }

/-- Whether the call is with this peer. -/
def isWith (c : Call) (peer : String) : Bool := c.peer == some peer

/-- Forgets everything but the phase. -/
def reset (c : Call) : Call := { phase := c.phase }

/-- Queues a message. -/
def push (c : Call) (text : String) : Call := { c with outbox := c.outbox.push text }

end Call

end PeerCall
