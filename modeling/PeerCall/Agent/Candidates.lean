import PeerCall.Agent.Event
import PeerCall.Text.Part
import PeerCall.Text.Quoted

/-!
# Candidates

Candidates of the other peer have to wait until its description has been applied, and are then
taken in the order in which they came. Candidates of this side are counted by type.
-/

namespace PeerCall

/-- The candidates of the other peer that wait for its description. -/
structure CandidateBuffer where
  isRemoteSet : Bool := false
  waiting : List Candidate := []
  deriving DecidableEq, Repr

namespace CandidateBuffer

/-- A candidate passes if the description has been applied, else it waits. -/
def receive (b : CandidateBuffer) (c : Candidate) : Option Candidate × CandidateBuffer :=
  if b.isRemoteSet then (some c, b) else (none, { b with waiting := b.waiting ++ [c] })

/-- The description has been applied: all candidates that waited pass. -/
def release (b : CandidateBuffer) : List Candidate × CandidateBuffer := (b.waiting, ⟨true, []⟩)

end CandidateBuffer

/-- How many candidates there are of each type. -/
structure CandidateCount where
  host : Nat := 0
  reflexive : Nat := 0
  relay : Nat := 0
  deriving DecidableEq, Repr

namespace CandidateCount

/-- Counts one more candidate, by the first type that its text names. -/
def add (n : CandidateCount) (text : String) : CandidateCount :=
  let names (type : String) := Text.holds ("typ " ++ type) text
  if names "host" then { n with host := n.host + 1 }
  else if names "srflx" then { n with reflexive := n.reflexive + 1 }
  else if names "relay" then { n with relay := n.relay + 1 }
  else n

/-- The count of a list of candidates. -/
def ofList (texts : List String) : CandidateCount := texts.foldl add {}

/-- There are candidates, but none of a relay. -/
def lacksRelay (n : CandidateCount) : Bool :=
  0 < n.host + n.reflexive + n.relay && n.relay == 0

/-- The count as a line of the log. -/
def line (n : CandidateCount) : String :=
  s!"Candidate analysis: {n.host} host, {n.reflexive} srflx, {n.relay} relay"

/-- All lines that counting writes to the log. -/
def lines (n : CandidateCount) : List String :=
  n.line :: if n.lacksRelay then [Warning.noRelay.text] else []

end CandidateCount

/-- A candidate as a line of the log. -/
def Candidate.line (label : String) (c : Candidate) : String :=
  "Trickle " ++ label ++ ": candidate=" ++ c.candidate ++
    " sdp_mid=" ++ Text.showOption (c.sdpMid.map Text.quoted) ++
    " sdp_mline_index=" ++ Text.showOption (c.sdpMLineIndex.map fun n => toString n.toNat)

end PeerCall
