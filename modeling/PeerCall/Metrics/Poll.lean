import PeerCall.Failure
import PeerCall.Metrics.PollText

/-!
# Results of polls

A poll brings reports or fails. Reports are taken into the ledger and written to the log; a
failure is noted and leaves the ledger as it was.
-/

namespace PeerCall.Metrics

/-- What a poll brings. -/
abbrev PollResult := Except LinkError (List Report)

/-- What a poll writes to the log. -/
inductive PollNote
  | polled (time : Moment) (records : List Record)
  | failed (error : LinkError)

/-- The lines of a note. -/
def PollNote.lines : PollNote → List String
  | .polled time records => pollLines time records
  | .failed error => [(AgentError.pollFailed error).message]

/-- The records of a poll, what it writes to the log, and the new ledger. -/
def Ledger.takePoll (l : Ledger) (now : Moment) (result : PollResult) :
    List Record × PollNote × Ledger :=
  match result with
  | .ok reports =>
    let (records, l) := l.ingest now reports
    (records, .polled now records, l)
  | .error error => ([], .failed error, l)

end PeerCall.Metrics
