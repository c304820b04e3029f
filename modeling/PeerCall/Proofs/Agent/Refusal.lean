import PeerCall.Proofs.Agent.Notices

/-!
# Operations that are refused

An agent notices that the worker of a connection is dead when it hands over an operation. It may
have done other things in this step before, and may have queued a message. Which operations it would
have handed over is read off the same step with workers that take them all.
-/

namespace PeerCall

/-- The same answers, but for workers that take all operations. -/
def Replies.willing (r : Replies) : Replies := { r with isDead := fun _ _ => false }

namespace Agent

variable {settings : Settings} {a : Agent} {r : Replies} {event : Event}
  {x : Agent × List Effect} {id : ConnId} {l : Live} {i : Nat}

/-- Only the peer of a call has it hand over operations by a message. -/
theorem Stride.peer_eq {peer text : String} (ha : a.Coherent) (hl : a.live = some l)
    (hx : Stride settings r a (.bus (.message peer text)) x) (hsome : submitted id x.2 ≠ []) :
    a.call.peer = some peer := by
  cases hx with
  | quiet => exact absurd (submitted_warnings _) hsome
  | opened hphase | notCreated hphase | notOpened hphase => simp [ha.live_of_idle hphase] at hl
  | offerAccepted _ hpeer | answerAccepted _ hpeer | candidateKept _ hpeer
  | candidatePassed _ hpeer => exact hpeer
  | flushed _ hevent => simp at hevent
  | @broken _ _ _ taken left refused _ hpeer hasks =>
    generalize taken ++ refused :: left = operations at hasks
    cases hasks <;> exact hpeer
  | failed _ hfailure => cases hfailure
  | left _ hpeer hleaves =>
    cases hleaves
    exact hpeer

/-- A new connection is given operations only where a call begins and the connection could be
made. -/
theorem Stride.phase_eq (hx : Stride settings r a event x) (hissued : x.1.issued = a.issued + 1)
    (hsome : submitted id x.2 ≠ []) : a.call.phase = .idle ∧ r.create = none := by
  cases hx with
  | opened hphase _ hreply | notOpened hphase _ hreply => exact ⟨hphase, hreply⟩
  | notCreated =>
    refine absurd ?_ hsome
    rw [submitted_cons, submitted_cons, submitted_cons, submitted_parting]
    rfl
  | _ => simp [finish_after, freed] at hissued

/-- An operation that a step would hand over to a dead worker ends the call. -/
theorem strikes_of_refused (ha : a.Coherent)
    (hi : i < (submitted id (a.step settings r.willing event).2).length)
    (hdead : r.isDead i id = true) : Strikes settings r a event .closed := by
  have hrun : a.isRunning = true := by
    by_contra hstopped
    simp [step, hstopped, submitted] at hi
  have hstride : Stride settings r.willing a event _ := step_stride ha event
  have hsome : submitted id (a.step settings r.willing event).2 ≠ [] :=
    List.ne_nil_of_length_pos (Nat.zero_lt_of_lt hi)
  have hrefuses {operations taken : List Operation} (hfirst : taken <+: operations)
      (hlt : i < taken.length) : ¬r.Takes id operations.length :=
    Replies.not_takes (Nat.lt_of_lt_of_le hlt hfirst.length_le) hdead
  cases hstride.submits with
  | nothing hnone => exact absurd (hnone id) hsome
  | opening hopening htaken hissued hsubmitted =>
    have hid : a.issued + 1 = id := by
      by_contra hother
      exact hsome (by rw [hsubmitted, if_neg hother])
    subst hid
    rw [hsubmitted, if_pos rfl] at hi
    obtain ⟨hphase, hreply⟩ := hstride.phase_eq hissued hsome
    exact .newWorker hrun hphase hopening hreply (hrefuses htaken hi)
  | @asked l peer operations taken hl hasks htaken hsubmitted =>
    have hid : l.id = id := by
      by_contra hother
      exact hsome (by rw [hsubmitted, if_neg hother])
    subst hid
    rw [hsubmitted, if_pos rfl] at hi
    obtain ⟨-, own, hown⟩ := ha.call_of_live hl
    -- A message asks for operations only if it is from the peer of the call.
    have hasks' : Asks a l own event operations := by
      cases hasks with
      | offer hdecode hphase hkind =>
        obtain rfl := Option.some.inj ((hstride.peer_eq ha hl hsome).symm.trans hown)
        exact .offer hdecode hphase hkind
      | answer hdecode hphase hkind =>
        obtain rfl := Option.some.inj ((hstride.peer_eq ha hl hsome).symm.trans hown)
        exact .answer hdecode hphase hkind
      | candidate hdecode hset =>
        obtain rfl := Option.some.inj ((hstride.peer_eq ha hl hsome).symm.trans hown)
        exact .candidate hdecode hset
      | localOffer hphase hkind => exact .localOffer hphase hkind
      | localAnswer hphase hkind => exact .localAnswer hphase hkind
      | release => exact .release
    exact .worker hl hown hasks' (hrefuses htaken hi)

/-- A step in which a worker refuses an operation ends the call: the user is told that it has
failed, and nothing is left of it, not even a message that waits. -/
theorem step_refused (ha : a.Coherent)
    (hi : i < (submitted id (a.step settings r.willing event).2).length)
    (hdead : r.isDead i id = true) :
    told (a.step settings r event).2 =
        (if a.live.isSome then [] else [.phase .connecting]) ++ failedEnd .closed ∧
      (a.step settings r event).1.live = none ∧ (a.step settings r event).1.call = {} := by
  have hstrikes : Strikes settings r a event .closed := strikes_of_refused ha hi hdead
  have hshows : Shows settings r a event _ := step_shows ha event r
  cases hshows with
  | goesOn huneventful => exact absurd hstrikes (huneventful.2 _)
  | departs hdeparts => exact absurd hstrikes (hdeparts.not_strikes ha)
  | strikes hother htold hlive hphase =>
    rw [hother.unique ha hstrikes] at htold
    exact ⟨htold, hlive, ((step_coherent ha event).fresh_of_idle hphase).2.2⟩

end Agent

end PeerCall
