/-!
# Faults in a JSON text

A text that is no JSON either breaks a rule of the grammar or ends too early.
-/

namespace PeerCall.Json

/-- Why a text is not JSON. -/
inductive Fault
  /-- A character stands where the grammar has no place for it. -/
  | malformed
  /-- The text ends before the value does. -/
  | truncated
  deriving DecidableEq, Repr, Inhabited

/-- A place where a text breaks. A value that is looked at and a value that is only stepped over
are read by slightly different rules, so each has its own fault. -/
structure Flaw where
  /-- What is wrong for a reader that wants the value. -/
  seen : Fault
  /-- What is wrong for a reader that steps over it. -/
  skipped : Fault
  deriving DecidableEq, Repr, Inhabited

/-- The flaw that is the same for both readers. -/
def Flaw.both (fault : Fault) : Flaw := ⟨fault, fault⟩

end PeerCall.Json
