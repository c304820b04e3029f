import PeerCall.Agent.Event

/-!
# Scripted links

A link whose calls are answered from a script: for each kind of call a list of answers, taken in
order. A call beyond the end of its list succeeds at once.
-/

namespace PeerCall

/-- A call on a link. -/
inductive LinkCall
  | run (operation : Operation)
  | poll
  | close
  deriving DecidableEq, Repr

/-- The kinds of call on a link. -/
inductive LinkCall.Kind
  | run (kind : Operation.Kind)
  | poll
  | close
  deriving DecidableEq, Repr

/-- The kind of a call. -/
def LinkCall.kind : LinkCall → Kind
  | .run operation => .run operation.kind
  | .poll => .poll
  | .close => .close

/-- How a call ends. -/
inductive Ending
  | done
  | fail (error : LinkError)
  /-- It never returns, and takes its task with it. -/
  | crash
  deriving DecidableEq, Repr

/-- How a call is answered: first it may wait until it is resumed, then for some time, then it
ends. -/
structure Answer where
  isHeld : Bool := false
  delayMs : Nat := 0
  ending : Ending := .done
  /-- The kind of the description that is made, if it is not the natural one. -/
  kind : Option SdpKind := none
  /-- The text of the description that is made. -/
  sdp : Option String := none
  /-- The result of a poll. -/
  reports : List Metrics.Report := []

/-- The answers of a link. -/
structure Script where
  /-- The connection cannot be made at all. -/
  creation : Option LinkError := none
  answers : List (LinkCall.Kind × List Answer) := []

namespace Script

/-- The answers to a kind of call that are still to come. -/
def answersTo (s : Script) (kind : LinkCall.Kind) : List Answer :=
  (s.answers.lookup kind).getD []

/-- The answer to the next call of a kind, and the script without it. -/
def next (s : Script) (kind : LinkCall.Kind) : Answer × Script :=
  match s.answersTo kind with
  | [] => ({}, s)
  | answer :: rest =>
    (answer, { s with answers := (kind, rest) :: s.answers.filter (·.1 ≠ kind) })

end Script

namespace Answer

/-- The description that a call makes. -/
def description (a : Answer) (natural : SdpKind) : Description :=
  ⟨a.kind.getD natural, a.sdp.getD (natural.word ++ "-sdp")⟩

/-- What comes of an operation, nothing if it crashes. -/
def outcome? (a : Answer) (operation : Operation) : Option Outcome :=
  match a.ending, operation with
  | .crash, _ => none
  | .fail error, .addCandidate _ => some (.candidateRejected error)
  | .fail error, operation => some (.failed operation.kind error)
  | .done, .createOffer => some (.localReady (a.description .offer))
  | .done, .createAnswer => some (.localReady (a.description .answer))
  | .done, .setLocal d => some (.localApplied d.kind)
  | .done, .setRemote d => some (.remoteApplied d.kind)
  | .done, .addCandidate _ => some .candidateApplied

/-- The result of a poll, nothing if it crashes. -/
def poll? (a : Answer) : Option (Except LinkError (List Metrics.Report)) :=
  match a.ending with
  | .crash => none
  | .fail error => some (.error error)
  | .done => some (.ok a.reports)

end Answer

end PeerCall
