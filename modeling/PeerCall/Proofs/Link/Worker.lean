import PeerCall.Link.Basic

/-!
# The order of operations on a link

The worker of a link runs the operations that are handed to it one after another, in order, until
it is stopped. Nothing else that goes on at the link touches its operations.
-/

namespace PeerCall

/-- The operation that a call runs. -/
def LinkCall.operation? : LinkCall → Option Operation
  | .run operation => some operation
  | .poll | .close => none

/-- What happens to an operation at a link. -/
inductive Happening
  | began (connection : ConnId) (operation : Operation)
  | ended (connection : ConnId) (operation : Operation) (ending : Ending)

namespace Link

variable {l l' : Link} {now : Nat} {isHeard : Bool} {operations : List Operation}

/-- The operations that have begun on a link, in order. -/
def ran (l : Link) : List Operation := l.calls.filterMap LinkCall.operation?

/-- The worker takes these operations in order, and all of them unless it is stopped. -/
structure Follows (l : Link) (operations : List Operation) : Prop where
  ordered : l.ran ++ l.worker.waiting <+: operations
  complete : l.worker.isDone = false → l.ran ++ l.worker.waiting = operations

/-- How a move changes the operations of a link: it begins at most the first that waits, or stops
the worker. -/
inductive Shifts (l l' : Link) : Prop
  | keeps (hid : l'.id = l.id) (hran : l'.ran ++ l'.worker.waiting = l.ran ++ l.worker.waiting)
      (hdone : l'.worker.isDone = l.worker.isDone)
  | stops (hid : l'.id = l.id) (hran : l'.ran = l.ran) (hwaiting : l'.worker.waiting = [])
      (hdone : l'.worker.isDone = true)

/-- A link that stays as it is keeps its operations. -/
theorem Shifts.refl : Shifts l l := .keeps rfl rfl rfl

/-- A link keeps its number. -/
theorem Shifts.id_eq (h : Shifts l l') : l'.id = l.id := by
  cases h <;> assumption

/-- After such a change the worker still takes the operations in order. -/
theorem Shifts.follows (h : Shifts l l') (hl : l.Follows operations) : l'.Follows operations := by
  cases h with
  | keeps _ hran hdone =>
    exact ⟨hran ▸ hl.ordered, fun h => hran.trans (hl.complete (hdone ▸ h))⟩
  | stops _ hran hwaiting hdone =>
    refine ⟨?_, by simp [hdone]⟩
    rw [hran, hwaiting, List.append_nil]
    exact (List.prefix_append _ _).trans hl.ordered

/-- A new link has no operations. -/
theorem follows_new {id : ConnId} {script : Script} : Follows { id := id, script := script } [] :=
  ⟨List.nil_prefix, fun _ => rfl⟩

/-- An operation that is handed over comes last. -/
theorem Follows.submit (hl : l.Follows operations) (operation : Operation) :
    (l.submit operation).Follows (operations ++ [operation]) := by
  cases hdone : l.worker.isDone with
  | true =>
    have hsame : l.submit operation = l := by simp [Link.submit, Worker.submit?, hdone]
    rw [hsame]
    exact ⟨hl.ordered.trans (List.prefix_append _ _), by simp [hdone]⟩
  | false =>
    have hall := hl.complete hdone
    have hmore : (l.submit operation).ran ++ (l.submit operation).worker.waiting =
        operations ++ [operation] := by
      simp [Link.submit, Worker.submit?, hdone, ran, ← hall]
    exact ⟨hmore ▸ List.prefix_refl _, fun _ => hmore⟩

/-! ## Moves -/

/-- The operation that begins is the first that has waited. -/
theorem beginOperation_shifts (h : l.beginOperation now = some l') : Shifts l l' := by
  unfold beginOperation at h
  split at h
  · next operation rest hcurrent hwaiting =>
    split at h
    · simp at h
    · obtain rfl := Option.some.inj h
      refine .keeps rfl ?_ rfl
      simp [ran, LinkCall.operation?, hwaiting]
  · simp at h

/-- An operation that ends is let go, unless it stops the worker. -/
theorem endOperation_shifts {output : Output}
    (h : l.endOperation now isHeard = some (l', output)) : Shifts l l' := by
  unfold endOperation at h
  split at h
  · split at h
    · split at h
      · split at h <;> obtain ⟨rfl, -⟩ := Prod.mk.inj (Option.some.inj h)
        · exact .keeps rfl rfl rfl
        · exact .stops rfl rfl rfl rfl
      · obtain ⟨rfl, -⟩ := Prod.mk.inj (Option.some.inj h)
        exact .stops rfl rfl rfl rfl
    · simp at h
  · simp at h

/-- A tick keeps the operations, -/
theorem tick_shifts (h : l.tick now = some l') : Shifts l l' := by
  unfold tick at h
  split at h
  · split at h
    · obtain rfl := Option.some.inj h
      exact .keeps rfl rfl rfl
    · simp at h
  · simp at h

/-- and so do the beginning of a poll, -/
theorem beginPoll_shifts {n : Nat} (h : l.beginPoll now n = some l') : Shifts l l' := by
  unfold beginPoll at h
  split at h
  · split at h
    · obtain rfl := Option.some.inj h
      refine .keeps rfl ?_ rfl
      simp [ran, LinkCall.operation?]
    · simp at h
  · simp at h

/-- its end, -/
theorem endPoll_shifts {n : Nat} (h : l.endPoll now n = some l') : Shifts l l' := by
  unfold endPoll at h
  split at h
  · split at h
    · split at h
      · obtain rfl := Option.some.inj h
        exact .keeps rfl rfl rfl
      · simp at h
    · simp at h
  · simp at h

/-- and the taking of its result. -/
theorem takeResult_shifts {output : Output} (h : l.takeResult isHeard = some (l', output)) :
    Shifts l l' := by
  unfold takeResult at h
  split at h
  · split at h
    · dsimp only at h
      split at h
      · obtain ⟨rfl, -⟩ := Prod.mk.inj (Option.some.inj h)
        exact .keeps rfl rfl rfl
      · split at h <;> obtain ⟨rfl, -⟩ := Prod.mk.inj (Option.some.inj h) <;>
          exact .keeps rfl rfl rfl
    · simp at h
  · simp at h

/-- Polls that are dropped leave the operations as they are. -/
theorem dropPolls_shifts (h : l.dropPolls = some l') : Shifts l l' := by
  unfold dropPolls at h
  split at h
  · split at h
    · obtain rfl := Option.some.inj h
      exact .keeps rfl rfl rfl
    · simp at h
  · simp at h

/-- A close that begins keeps the operations. -/
theorem beginClose_shifts (h : l.beginClose now = some l') : Shifts l l' := by
  unfold beginClose at h
  split at h
  · obtain rfl := Option.some.inj h
    refine .keeps rfl ?_ rfl
    simp [ran, LinkCall.operation?]
  · simp at h

/-- One that ends does so too. -/
theorem endClose_shifts (h : l.endClose now = some l') : Shifts l l' := by
  unfold endClose at h
  split at h
  · split at h
    · obtain rfl := Option.some.inj h
      exact .keeps rfl rfl rfl
    · simp at h
  · simp at h

/-- A move of which nothing comes beside the new state. -/
theorem of_silent {o : Option Link} {output : Output}
    (h : o.map (·, ({} : Output)) = some (l', output)) : o = some l' ∧ output = {} := by
  obtain ⟨l'', hl, heq⟩ := Option.map_eq_some_iff.mp h
  obtain ⟨rfl, rfl⟩ := Prod.mk.inj heq
  exact ⟨hl, rfl⟩

/-- Every move of a link shifts its operations. -/
theorem perform_shifts {move : Move} {output : Output}
    (h : l.perform now isHeard move = some (l', output)) : Shifts l l' := by
  cases move with
  | beginOperation => exact beginOperation_shifts (of_silent h).1
  | endOperation => exact endOperation_shifts h
  | tick => exact tick_shifts (of_silent h).1
  | beginPoll n => exact beginPoll_shifts (of_silent h).1
  | endPoll n => exact endPoll_shifts (of_silent h).1
  | takeResult => exact takeResult_shifts h
  | dropPolls => exact dropPolls_shifts (of_silent h).1
  | beginClose => exact beginClose_shifts (of_silent h).1
  | endClose => exact endClose_shifts (of_silent h).1

/-- A call that is let go on keeps the operations. -/
theorem resume_shifts (h : l.resume? now = some l') : Shifts l l' := by
  obtain ⟨ticket, -, rfl⟩ := Option.map_eq_some_iff.mp h
  exact .keeps rfl rfl rfl

/-! ## The end of an operation -/

/-- What a move does to an operation of a link. -/
def happening? (l : Link) : Move → Option Happening
  | .beginOperation => l.worker.waiting.head?.map (.began l.id)
  | .endOperation => l.worker.current.map fun c => .ended l.id c.1 c.2.answer.ending
  | _ => none

/-- Only the operation that applies the description of the peer has this outcome, when it
succeeds. -/
theorem outcome?_eq_remoteApplied {answer : Answer} {operation : Operation} {kind : SdpKind}
    (h : answer.outcome? operation = some (.remoteApplied kind)) :
    answer.ending = .done ∧ ∃ d, operation = .setRemote d := by
  unfold Answer.outcome? at h
  split at h <;> simp_all

/-- The only move that posts that the description of the peer is applied is the end of its
operation. -/
theorem perform_remoteApplied {move : Move} {output : Output} {id : ConnId} {kind : SdpKind}
    (h : l.perform now isHeard move = some (l', output))
    (hevent : output.event = some (.outcome id (.remoteApplied kind))) :
    id = l.id ∧ ∃ d, l.happening? move = some (.ended id (.setRemote d) .done) := by
  cases move with
  | endOperation =>
    simp only [perform, endOperation] at h
    split at h
    · next operation flight hcurrent =>
      split at h
      · split at h
        · next outcome houtcome =>
          split at h <;> obtain ⟨-, rfl⟩ := Prod.mk.inj (Option.some.inj h)
          · obtain ⟨rfl, rfl⟩ : l.id = id ∧ outcome = .remoteApplied kind := by
              simpa using hevent
            obtain ⟨hdone, d, rfl⟩ := outcome?_eq_remoteApplied houtcome
            exact ⟨rfl, d, by simp [happening?, hcurrent, hdone]⟩
          · simp at hevent
        · obtain ⟨-, rfl⟩ := Prod.mk.inj (Option.some.inj h)
          simp at hevent
      · simp at h
    · simp at h
  | takeResult =>
    simp only [perform, takeResult] at h
    split at h
    · split at h
      · split at h
        · obtain ⟨-, rfl⟩ := Prod.mk.inj (Option.some.inj h)
          simp at hevent
        · split at h <;> obtain ⟨-, rfl⟩ := Prod.mk.inj (Option.some.inj h) <;>
            simp at hevent
      · simp at h
    · simp at h
  | _ => simp [(of_silent h).2] at hevent

/-- A candidate that is rejected leaves a link as one that is accepted does. -/
theorem endOperation_rejected {c : Candidate} {flight : Flight} {error : LinkError}
    (hcurrent : l.worker.current = some (.addCandidate c, flight))
    (hending : flight.answer.ending = .fail error) :
    let accepted : Flight := { flight with answer := { flight.answer with ending := .done } }
    (l.endOperation now isHeard).map (·.1) =
      (endOperation
        { l with worker := { l.worker with current := some (.addCandidate c, accepted) } }
        now isHeard).map (·.1) := by
  have hrejected : flight.answer.outcome? (.addCandidate c) = some (.candidateRejected error) := by
    simp [Answer.outcome?, hending]
  cases hdue : flight.isDue now <;> cases isHeard <;>
    simp_all [endOperation, Answer.outcome?, Flight.isDue, Worker.stop]

end Link

end PeerCall
