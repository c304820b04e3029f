import PeerCall.Proofs.Agent.Posting

/-!
# The ends of a call

A call ends without a failure when the user, the peer or the link leaves it, and with one when an
error of the link strikes. Which of them a step brings depends on the event and on what the
surroundings answer, and no step brings both.
-/

namespace PeerCall

/-- Events that never end a call and ask for no operations. -/
def Event.isPlain : Event → Bool
  | .bus .signedIn | .bus (.signInFailed _) | .bus (.peerConnected _) | .bus .messageSent => true
  | .link _ (.candidate _) | .link _ (.trackAdded _) | .link _ (.trackRemoved _) => true
  | .records _ _ => true
  | _ => false

namespace Agent

variable {settings : Settings} {a : Agent} {r : Replies} {event : Event} {l : Live}

/-- The events that end a call without a failure: a command of the user, the last word of the peer
or its loss, or the end of the link. -/
inductive Departs (a : Agent) (event : Event) : Prop
  | hangsUp {l : Live} (hl : a.live = some l) (hevent : event.hangsUp = true)
  | leaves {l : Live} {peer : String} (hl : a.live = some l) (hpeer : a.call.peer = some peer)
      (hleaves : Leaves l peer event)

/-- The errors of the link that end a call in a step. -/
inductive Strikes (settings : Settings) (r : Replies) (a : Agent) (event : Event) :
    LinkError → Prop
  /-- The connection of a new call cannot be made. -/
  | creation {peer : String} {offer : Option Description} {error : LinkError}
      (hrun : a.isRunning = true) (hphase : a.call.phase = .idle)
      (hopening : a.opening settings event = some (peer, offer))
      (hreply : r.create = some error) : Strikes settings r a event error
  /-- The worker of a new connection is dead. -/
  | newWorker {peer : String} {offer : Option Description} (hrun : a.isRunning = true)
      (hphase : a.call.phase = .idle)
      (hopening : a.opening settings event = some (peer, offer)) (hreply : r.create = none)
      (hdead : ¬r.Takes (a.issued + 1) (openingOperations offer).length) :
      Strikes settings r a event .closed
  /-- The link or one of its operations has failed. -/
  | link {l : Live} {noted : List Warning} {error : LinkError} (hl : a.live = some l)
      (hfailure : LinkFailure l event noted error) : Strikes settings r a event error
  /-- The worker of the connection is dead when it is given an operation. -/
  | worker {l : Live} {peer : String} {operations : List Operation} (hl : a.live = some l)
      (hpeer : a.call.peer = some peer) (hasks : Asks a l peer event operations)
      (hdead : ¬r.Takes l.id operations.length) : Strikes settings r a event .closed

/-- Nothing ends the call in a step. -/
def Uneventful (settings : Settings) (r : Replies) (a : Agent) (event : Event) : Prop :=
  ¬Departs a event ∧ ∀ error, ¬Strikes settings r a event error

/-- An event asks for one list of operations. -/
theorem Asks.unique {peer : String} {operations other : List Operation}
    (h : Asks a l peer event operations) (h' : Asks a l peer event other) : operations = other := by
  cases h <;> cases h' <;> simp_all

/-- A failure of the link is no event that asks for operations. -/
theorem LinkFailure.not_asks {peer : String} {noted : List Warning} {error : LinkError}
    {operations : List Operation} (h : LinkFailure l event noted error) :
    ¬Asks a l peer event operations := by
  intro hasks
  cases h <;> cases hasks

/-- Nor is the end of a call. -/
theorem Leaves.not_asks {peer : String} {operations : List Operation} (h : Leaves l peer event) :
    ¬Asks a l peer event operations := by
  intro hasks
  cases h with
  | bye hdecode => cases hasks <;> simp_all
  | gone | linkClosed => cases hasks

/-- An event ends a call in one way. -/
theorem Strikes.unique {error other : LinkError} (ha : a.Coherent)
    (h : Strikes settings r a event error) (h' : Strikes settings r a event other) :
    error = other := by
  have hbusy {l : Live} (hl : a.live = some l) (hphase : a.call.phase = .idle) : False := by
    simp [ha.live_of_idle hphase] at hl
  cases h with
  | creation _ hphase _ hreply =>
    cases h' with
    | creation _ _ _ hreply' => exact Option.some.inj (hreply.symm.trans hreply')
    | newWorker _ _ _ hreply' => simp [hreply'] at hreply
    | link hl | worker hl => exact (hbusy hl hphase).elim
  | newWorker _ hphase _ hreply =>
    cases h' with
    | creation _ _ _ hreply' => simp [hreply'] at hreply
    | newWorker => rfl
    | link hl | worker hl => exact (hbusy hl hphase).elim
  | link hl hfailure =>
    cases h' with
    | creation _ hphase | newWorker _ hphase => exact (hbusy hl hphase).elim
    | link hl' hfailure' =>
      obtain rfl := Option.some.inj (hl.symm.trans hl')
      cases hfailure <;> cases hfailure' <;> rfl
    | worker hl' _ hasks =>
      obtain rfl := Option.some.inj (hl.symm.trans hl')
      exact absurd hasks hfailure.not_asks
  | worker hl _ hasks =>
    cases h' with
    | creation _ hphase | newWorker _ hphase => exact (hbusy hl hphase).elim
    | link hl' hfailure =>
      obtain rfl := Option.some.inj (hl.symm.trans hl')
      exact absurd hasks hfailure.not_asks
    | worker => rfl

/-- An event at which a call ends calmly does not make it fail. -/
theorem Departs.not_strikes {error : LinkError} (ha : a.Coherent) (h : Departs a event) :
    ¬Strikes settings r a event error := by
  intro hstrikes
  obtain ⟨l, hl⟩ : ∃ l, a.live = some l := by
    cases h with
    | hangsUp hl | leaves hl => exact ⟨_, hl⟩
  cases hstrikes with
  | creation _ hphase | newWorker _ hphase => simp [ha.live_of_idle hphase] at hl
  | link hl' hfailure =>
    cases h with
    | hangsUp _ hevent => cases hfailure <;> simp [Event.hangsUp] at hevent
    | leaves hl'' _ hleaves =>
      obtain rfl := Option.some.inj (hl'.symm.trans hl'')
      cases hfailure <;> cases hleaves
  | worker hl' hpeer hasks =>
    cases h with
    | hangsUp _ hevent => simp [hasks.hangsUp_eq_false] at hevent
    | leaves hl'' hpeer' hleaves =>
      obtain rfl := Option.some.inj (hl'.symm.trans hl'')
      obtain rfl := Option.some.inj (hpeer.symm.trans hpeer')
      exact hleaves.not_asks hasks

/-- During a call, only an event of the call can end it. -/
theorem uneventful_of_live {peer : String} (ha : a.Coherent) (hl : a.live = some l)
    (hpeer : a.call.peer = some peer) (hevent : event.hangsUp = false)
    (hleaves : ¬Leaves l peer event)
    (hfailure : ∀ noted error, ¬LinkFailure l event noted error)
    (htakes : ∀ operations, Asks a l peer event operations → r.Takes l.id operations.length) :
    Uneventful settings r a event := by
  refine ⟨fun h => ?_, fun error h => ?_⟩
  · cases h with
    | hangsUp _ h => simp [hevent] at h
    | leaves hl' hpeer' h =>
      obtain rfl := Option.some.inj (hl.symm.trans hl')
      obtain rfl := Option.some.inj (hpeer.symm.trans hpeer')
      exact hleaves h
  · cases h with
    | creation _ hphase | newWorker _ hphase => simp [ha.live_of_idle hphase] at hl
    | link hl' h =>
      obtain rfl := Option.some.inj (hl.symm.trans hl')
      exact hfailure _ _ h
    | worker hl' hpeer' h hdead =>
      obtain rfl := Option.some.inj (hl.symm.trans hl')
      obtain rfl := Option.some.inj (hpeer.symm.trans hpeer')
      exact hdead (htakes _ h)

/-- Operations that a worker takes end no call. -/
theorem uneventful_of_asks {peer : String} {operations : List Operation} (ha : a.Coherent)
    (hl : a.live = some l) (hpeer : a.call.peer = some peer)
    (hasks : Asks a l peer event operations) (htakes : r.Takes l.id operations.length) :
    Uneventful settings r a event := by
  refine uneventful_of_live ha hl hpeer hasks.hangsUp_eq_false (fun hleaves => ?_)
    (fun _ _ hfailure => hfailure.not_asks hasks) fun other hother => ?_
  · exact hleaves.not_asks hasks
  · rw [hother.unique hasks]
    exact htakes

/-- An event that is plain ends no call. -/
theorem uneventful_of_plain (ha : a.Coherent) (hl : a.live = some l)
    (hplain : event.isPlain = true) : Uneventful settings r a event := by
  obtain ⟨-, peer, hpeer⟩ := ha.call_of_live hl
  refine uneventful_of_live ha hl hpeer ?_ (fun hleaves => ?_) (fun _ _ hfailure => ?_)
    fun _ hasks => ?_
  · unfold Event.hangsUp
    split <;> first | rfl | simp [Event.isPlain] at hplain
  · cases hleaves <;> simp [Event.isPlain] at hplain
  · cases hfailure <;> simp [Event.isPlain] at hplain
  · cases hasks <;> simp [Event.isPlain] at hplain

/-- Without a call, only the beginning of one can fail. -/
theorem uneventful_of_free (hl : a.live = none)
    (hopening : a.isRunning = true → a.call.phase = .idle → ∀ peer offer,
      a.opening settings event = some (peer, offer) →
        r.create = none ∧ r.Takes (a.issued + 1) (openingOperations offer).length) :
    Uneventful settings r a event := by
  refine ⟨fun h => ?_, fun error h => ?_⟩
  · cases h with
    | hangsUp hl' | leaves hl' => simp [hl] at hl'
  · cases h with
    | creation hrun hphase hopens hreply =>
      simp [(hopening hrun hphase _ _ hopens).1] at hreply
    | newWorker hrun hphase hopens _ hdead => exact hdead (hopening hrun hphase _ _ hopens).2
    | link hl' | worker hl' => simp [hl] at hl'

/-- A message with content does not end a call. -/
theorem not_leaves_of_content {peer text : String} {message : Message}
    (hdecode : Message.decode text = .ok message) (hcontent : message ≠ .bye) :
    ¬Leaves l peer (.bus (.message peer text)) := by
  rintro ⟨hbye⟩
  exact hcontent (Except.ok.inj (hdecode.symm.trans hbye))

/-- Nothing ends the call if nothing has to come of the event. -/
theorem uneventful_of_ignores (ha : a.Coherent) (h : a.Ignores settings event) :
    Uneventful settings r a event := by
  rcases Option.eq_none_or_eq_some a.live with hl | ⟨l, hl⟩
  · refine uneventful_of_free hl fun hrun hphase peer offer hopens => ?_
    simp [h.idle hrun hphase] at hopens
  · obtain ⟨-, peer, hpeer⟩ := ha.call_of_live hl
    have hcall := h.call l peer hl hpeer
    refine uneventful_of_live ha hl hpeer ?_ (fun hleaves => hcall (.leaving hleaves))
      (fun _ _ hfailure => hcall (.failure hfailure)) fun _ hasks => (hcall (.asked hasks)).elim
    rw [← Bool.not_eq_true]
    intro hevent
    unfold Event.hangsUp at hevent
    split at hevent
    · exact hcall (.hangUp (Or.inl rfl))
    · exact hcall (.hangUp (Or.inr (Or.inl rfl)))
    · exact hcall (.hangUp (Or.inr (Or.inr rfl)))
    · simp at hevent

end Agent

end PeerCall
