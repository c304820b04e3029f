import PeerCall.Proofs.Agent.Renumbering

/-!
# What a call leaves behind

An agent that is free again differs from a new one in nothing but the numbers that it has given
out and in whether it is signed in. What still comes from its old connections is stale, so that it
goes on as a new agent would.
-/

namespace PeerCall

/-- An event as it reaches an agent that has not given out the first `n` numbers: those of the
first `n` connections do not reach it. -/
def Event.lower? (n : Nat) (event : Event) : Option Event :=
  if event.connection?.all (n < ·) then some (event.renumber (· - n)) else none

/-- An event and the answers to it, as they reach an agent that has not given out the first `n`
numbers. -/
def Event.lowerInput? (n : Nat) (input : Event × Replies) : Option (Event × Replies) :=
  (input.1.lower? n).map fun event => (event, input.2.lower n)

namespace Agent

variable {settings : Settings} {n : Nat} {a : Agent} {r : Replies} {event lowered : Event}

/-- An event that has been lowered is raised to itself, -/
theorem raise_of_lower? (h : event.lower? n = some lowered) : lowered.raise n = event := by
  obtain ⟨hlater, hsame⟩ := Option.ite_none_right_eq_some.mp h
  obtain rfl := Option.some.inj hsame
  cases event with
  | command | bus => rfl
  | link id | outcome id | records id =>
    have hid : n < id := by simpa [Event.connection?] using hlater
    simp [Event.raise, Event.renumber, Nat.sub_add_cancel (Nat.le_of_lt hid)]

/-- and one of a connection that has been raised is lowered to itself. -/
theorem lower?_raise {id : ConnId} (hevent : event.connection? = some id) (hid : 0 < id) :
    (event.raise n).lower? n = some event := by
  cases event with
  | command | bus => simp [Event.connection?] at hevent
  | link id' | outcome id' | records id' =>
    obtain rfl : id' = id := Option.some.inj hevent
    simp [Event.lower?, Event.connection?, Event.raise, Event.renumber, hid]

/-- Only an event of an earlier connection is not lowered. -/
theorem exists_connection_of_lower? (h : event.lower? n = none) :
    ∃ id, event.connection? = some id ∧ id ≤ n := by
  cases hid : event.connection? with
  | none => simp [Event.lower?, hid] at h
  | some id => exact ⟨id, rfl, by simpa [Event.lower?, hid] using h⟩

/-- Whether an effect is seen does not depend on numbers. -/
theorem filter_isSeen_raise (effects : List Effect) :
    (effects.map (·.raise n)).filter Effect.isSeen =
      (effects.filter Effect.isSeen).map (·.raise n) := by
  rw [List.filter_map]
  congr 2
  funext effect
  cases effect <;> rfl

/-! ## Runs -/

/-- A run goes on where its first step leaves the agent. -/
theorem run_cons (later : List (Event × Replies)) :
    (run settings ((event, r) :: later) a).1 =
      (run settings later (a.step settings r event).1).1 := rfl

/-- What is seen of the first step comes before what is seen of the others. -/
theorem seen_history_cons (later : List (Event × Replies)) :
    seen (history settings ((event, r) :: later) a) =
      (a.step settings r event).2.filter Effect.isSeen ++
        seen (history settings later (a.step settings r event).1) := by
  simp [seen, history, moment]

/-- An agent whose first numbers are spent goes on like one that has not given them out. -/
theorem run_lowered (settings : Settings) (later : List (Event × Replies))
    (ha : (a.raise n).Coherent) (hspent : ∀ id ≤ n, (a.raise n).Spent id) :
    (run settings later (a.raise n)).1 =
        (run settings (later.filterMap (Event.lowerInput? n)) a).1.raise n ∧
      seen (history settings later (a.raise n)) =
        (seen (history settings (later.filterMap (Event.lowerInput? n)) a)).map (·.raise n) := by
  induction later generalizing a with
  | nil => exact ⟨rfl, rfl⟩
  | cons input later ih =>
    obtain ⟨event, r⟩ := input
    cases hlower : event.lower? n with
    | none =>
      have hdrop : Event.lowerInput? n (event, r) = none := by simp [Event.lowerInput?, hlower]
      obtain ⟨id, hevent, hid⟩ := exists_connection_of_lower? hlower
      obtain ⟨hself, hnothing⟩ : ((a.raise n).step settings r event).1 = a.raise n ∧
        ((a.raise n).step settings r event).2.filter Effect.isSeen = [] :=
        step_of_stale hevent (hspent id hid).2
      rw [List.filterMap_cons_none hdrop, run_cons, seen_history_cons, hself, hnothing]
      exact ih ha hspent
    | some lowered =>
      have hkeep : Event.lowerInput? n (event, r) = some (lowered, r.lower n) := by
        simp [Event.lowerInput?, hlower]
      obtain rfl := raise_of_lower? hlower
      have hcoherent : ((a.raise n).step settings r (lowered.raise n)).1.Coherent :=
        step_coherent ha _
      have hstill (id : ConnId) (hid : id ≤ n) :
          ((a.raise n).step settings r (lowered.raise n)).1.Spent id := (hspent id hid).step ha _ r
      rw [step_raise] at hcoherent hstill
      obtain ⟨hrun, hseen⟩ := ih hcoherent hstill
      rw [List.filterMap_cons_some hkeep, run_cons, run_cons, seen_history_cons,
        seen_history_cons, step_raise]
      refine ⟨hrun, ?_⟩
      rw [hseen, filter_isSeen_raise, List.map_append]

/-- A free agent is a new one with raised numbers. -/
theorem Coherent.eq_raise (ha : a.Coherent) (hidle : a.call.phase = .idle)
    (hrun : a.isRunning = true) :
    a = ({ isSignedIn := a.isSignedIn } : Agent).raise a.issued := by
  obtain ⟨hl, hpolled, hcall⟩ := ha.fresh_of_idle hidle
  obtain ⟨call, live, polled, issued, isSignedIn, isRunning⟩ := a
  simp_all [raise]

/-- An agent that has no call goes on like a new one that is signed in if and only if it is. What
comes from the connections that it has had does not count, and those that it makes have higher
numbers: but for that, all that is seen from then on is the same, and so is the agent. -/
theorem run_of_idle (settings : Settings) (script later : List (Event × Replies))
    (hidle : (run settings script {}).1.call.phase = .idle)
    (hrun : (run settings script {}).1.isRunning = true) :
    let used := (run settings script {}).1
    let fresh : Agent := { isSignedIn := used.isSignedIn }
    let same := later.filterMap (Event.lowerInput? used.issued)
    (run settings later used).1 = (run settings same fresh).1.raise used.issued ∧
      seen (history settings later used) =
        (seen (history settings same fresh)).map (·.raise used.issued) := by
  intro used fresh same
  have hcoherent : used.Coherent := coherent_run script
  have hraised : used = fresh.raise used.issued := hcoherent.eq_raise hidle hrun
  have hspent (id : ConnId) (hid : id ≤ used.issued) : used.Spent id :=
    ⟨hid, by simp [hcoherent.live_of_idle hidle]⟩
  have hlowered := run_lowered (a := fresh) (n := used.issued) settings later
    (hraised ▸ hcoherent) (hraised ▸ hspent)
  rwa [← hraised] at hlowered

end Agent

end PeerCall
