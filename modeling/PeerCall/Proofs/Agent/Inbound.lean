import PeerCall.Proofs.Agent.Operations

/-!
# The candidates of the peer

The candidates that come from the peer during a session are handed to the link in the order in
which they came, each once: at first they wait, and from the moment at which the description of
the peer is known to be applied they pass.
-/

namespace PeerCall

/-- The candidate that an operation applies. -/
def Operation.candidate? : Operation → Option Candidate
  | .addCandidate c => some c
  | _ => none

namespace Agent

variable {settings : Settings} {a : Agent} {r : Replies} {event : Event}
  {x : Agent × List Effect} {l : Live} {id : ConnId}

/-- The candidates that are handed to the link of a connection, in order. -/
def passed (id : ConnId) (effects : List Effect) : List Candidate :=
  (submitted id effects).filterMap Operation.candidate?

/-- The candidates that an event brings from the peer of a call. -/
def heard (a : Agent) : Event → List Candidate
  | .bus (.message peer text) =>
    if a.call.phase.isLive ∧ a.call.isWith peer then
      match Message.decode text with
      | .ok (.candidate c) => [c]
      | _ => []
    else []
  | _ => []

/-- Whether an event says that the description of the peer has been applied to the live link. -/
def Applied (a : Agent) (event : Event) : Prop :=
  ∃ l kind, a.live = some l ∧ event = .outcome l.id (.remoteApplied kind)

/-! ## One step -/

/-- Candidates pass in the order of the effects. -/
theorem passed_append (first second : List Effect) :
    passed id (first ++ second) = passed id first ++ passed id second := by
  simp [passed, submitted_append]

/-- The candidate of the first effect passes first. -/
theorem passed_cons (effect : Effect) (effects : List Effect) : passed id (effect :: effects) =
    ((effect.operationFor? id).bind Operation.candidate?).toList ++ passed id effects := by
  rw [passed, submitted_cons, List.filterMap_append]
  congr 1
  cases effect.operationFor? id with
  | none => rfl
  | some operation => cases operation <;> rfl

/-- Of the operations for a connection only those with candidates count. -/
theorem passed_map {other : ConnId} (operations : List Operation) :
    passed id (operations.map (.submit other)) =
      if other = id then operations.filterMap Operation.candidate? else [] := by
  rw [passed, submitted_map]
  split <;> rfl

/-- Only operations hold candidates. -/
theorem passed_of_submitted {effects : List Effect} (h : submitted id effects = []) :
    passed id effects = [] := by
  simp [passed, h]

/-- Sending lets no candidate pass, -/
theorem passed_flush : passed id (finish (a.flush r)).2 = [] :=
  passed_of_submitted submitted_flush

/-- nor does the end of a call. -/
theorem passed_parting {failure : Option String} : passed id (a.parting failure) = [] :=
  passed_of_submitted submitted_parting

/-- A message of the peer that holds no candidate brings none. -/
theorem heard_of_description {peer text : String} {d : Description}
    (hdecode : Message.decode text = .ok (.description d)) :
    a.heard (.bus (.message peer text)) = [] := by
  simp [heard, hdecode]

/-- A candidate of the peer is heard during a call. -/
theorem heard_of_candidate {peer text : String} {c : Candidate} (ha : a.Coherent)
    (hl : a.live = some l) (hpeer : a.call.peer = some peer)
    (hdecode : Message.decode text = .ok (.candidate c)) :
    a.heard (.bus (.message peer text)) = [c] := by
  simp [heard, hdecode, Call.isWith, hpeer, (ha.call_of_live hl).1]

/-- An event that has not to be heeded brings no candidate. -/
theorem heard_of_ignores (ha : a.Coherent) (hignores : a.Ignores settings event) :
    a.heard event = [] := by
  unfold heard
  split
  · next peer text =>
    split
    · next hours =>
      obtain ⟨l, peer', hl, hpeer⟩ := ha.live_of_phase hours.1
      obtain rfl : peer' = peer := by simpa [Call.isWith, hpeer] using hours.2
      split
      · next c hdecode => exact (hignores.call l peer' hl hpeer (.candidate hdecode)).elim
      · rfl
    · rfl
  · rfl

/-- Only an outcome says that a description has been applied. -/
theorem not_applied (h : ∀ id kind, event ≠ .outcome id (.remoteApplied kind)) :
    ¬a.Applied event := by
  rintro ⟨l, kind, -, rfl⟩
  exact h l.id kind rfl

/-- It applies no description either. -/
theorem not_applied_of_ignores (ha : a.Coherent) (hignores : a.Ignores settings event) :
    ¬a.Applied event := by
  rintro ⟨l, kind, hl, rfl⟩
  obtain ⟨-, peer, hpeer⟩ := ha.call_of_live hl
  exact hignores.call l peer hl hpeer (.asked .release)

/-- What a step does with the candidates of the peer. -/
inductive Hands (a : Agent) (event : Event) (x : Agent × List Effect) : Prop
  | free (hl : a.live = none) (hnew : ∀ l, x.1.live = some l → l.remote = {})
      (hpassed : ∀ id, passed id x.2 = [])
  | goesOn {l l' : Live} (hl : a.live = some l) (hlive : x.1.live = some l')
      (hset : l'.remote.isRemoteSet = true ↔
        l.remote.isRemoteSet = true ∨ a.Applied event)
      (hpassed : passed l.id x.2 ++ l'.remote.waiting = l.remote.waiting ++ a.heard event)
      (hother : ∀ id ≠ l.id, passed id x.2 = [])
      (hearly : passed l.id x.2 ≠ [] → l'.remote.isRemoteSet = true)
  | ends {l : Live} (hl : a.live = some l) (hlive : x.1.live = none)
      (hpassed : passed l.id x.2 <+: l.remote.waiting ++ a.heard event)
      (hother : ∀ id ≠ l.id, passed id x.2 = [])
      (hearly : passed l.id x.2 ≠ [] → l.remote.isRemoteSet = true ∨ a.Applied event)

/-- The operations that an event asks for hold the candidates that have to be handed over. -/
theorem Asks.candidates {peer : String} {operations : List Operation} (ha : a.Coherent)
    (hl : a.live = some l) (hpeer : a.call.peer = some peer) (h : Asks a l peer event operations) :
    operations.filterMap Operation.candidate? = [] ∨
      (operations.filterMap Operation.candidate? = l.remote.waiting ++ a.heard event ∧
        (l.remote.isRemoteSet = true ∨ a.Applied event)) := by
  cases h with
  | candidate hdecode hset =>
    right
    refine ⟨?_, Or.inl hset⟩
    rw [ha.waiting_eq_nil l hl hset, heard_of_candidate ha hl hpeer hdecode]
    rfl
  | release =>
    right
    refine ⟨?_, Or.inr ⟨l, _, hl, rfl⟩⟩
    simp [heard, List.filterMap_map, Function.comp_def, Operation.candidate?]
  | _ => exact Or.inl rfl

/-- A step that leaves the candidates of the peer alone. -/
theorem hands_of_same (hlive : x.1.live.map (·.remote) = a.live.map (·.remote))
    (hheard : a.heard event = []) (happlied : ¬a.Applied event)
    (hpassed : ∀ id, passed id x.2 = []) : Hands a event x := by
  cases hl : a.live with
  | none =>
    have hx : x.1.live = none := by simpa [hl] using hlive
    exact .free hl (by simp [hx]) hpassed
  | some l =>
    rw [hl] at hlive
    obtain ⟨l', hx, hremote⟩ := Option.map_eq_some_iff.mp hlive
    refine .goesOn hl hx ?_ ?_ (fun id _ => hpassed id) fun h => absurd (hpassed l.id) h
    · simp [hremote, happlied]
    · simp [hpassed, hheard, hremote]

/-- A step that ends a call without handing anything over. -/
theorem hands_of_end (hl : a.live = some l) (hlive : x.1.live = none)
    (hpassed : ∀ id, passed id x.2 = []) : Hands a event x := by
  refine .ends hl hlive ?_ (fun id _ => hpassed id) fun h => absurd (hpassed l.id) h
  rw [hpassed]
  exact List.nil_prefix

/-- Every stride deals with the candidates of the peer in one of these ways. -/
theorem Stride.hands (ha : a.Coherent) (hx : Stride settings r a event x) : Hands a event x := by
  cases hx with
  | quiet hignores =>
    refine hands_of_same rfl (heard_of_ignores ha hignores) (not_applied_of_ignores ha hignores)
      fun id => passed_of_submitted (submitted_warnings _)
  | @opened _ _ offer hphase =>
    refine .free (ha.live_of_idle hphase) (fun l hl => ?_) fun id => ?_
    · obtain rfl : ({ id := a.issued + 1 } : Live) = l := Option.some.inj hl
      rfl
    · rw [passed_cons, passed_cons, passed_append, passed_map]
      cases offer <;>
        simp [openingOperations, Effect.operationFor?, Operation.candidate?, passed, submitted]
  | notCreated hphase =>
    have hl := ha.live_of_idle hphase
    refine .free hl (by simp [hl]) fun id => ?_
    simp [passed_cons, Effect.operationFor?, passed_parting]
  | @notOpened _ _ offer taken left refused hphase _ _ hsplit =>
    have hnone : (taken ++ refused :: left).filterMap Operation.candidate? = [] := by
      rw [← hsplit]
      cases offer <;> rfl
    rw [List.filterMap_append, List.append_eq_nil_iff] at hnone
    have hl := ha.live_of_idle hphase
    refine .free hl (by simp [hl]) fun id => ?_
    simp [passed_cons, passed_append, passed_map, Effect.operationFor?, passed_parting, hnone.1]
  | @offerAccepted l _ _ _ hl hpeer hdecode =>
    refine hands_of_same rfl (heard_of_description hdecode) (not_applied (by simp)) fun id => ?_
    by_cases hid : l.id = id <;>
      simp [passed, submitted, Effect.operationFor?, Operation.candidate?, hid]
  | @answerAccepted l _ _ _ hl hpeer hdecode =>
    refine hands_of_same rfl (heard_of_description hdecode) (not_applied (by simp)) fun id => ?_
    by_cases hid : l.id = id <;>
      simp [passed, submitted, Effect.operationFor?, Operation.candidate?, hid]
  | @candidateKept l peer text c hl hpeer hdecode hset =>
    have happlied : ¬a.Applied (.bus (.message peer text)) := not_applied (by simp)
    refine .goesOn hl rfl (by simp [hset, happlied]) ?_ (fun id _ => rfl) fun h => absurd rfl h
    rw [heard_of_candidate ha hl hpeer hdecode]
    rfl
  | @candidatePassed l peer text c hl hpeer hdecode hset =>
    have happlied : ¬a.Applied (.bus (.message peer text)) := not_applied (by simp)
    have hpassed (id : ConnId) : passed id [.submit l.id (.addCandidate c)] =
      if l.id = id then [c] else [] := passed_map [.addCandidate c]
    refine .goesOn hl hl (by simp [happlied]) ?_ (fun id hid => ?_) fun _ => hset
    · rw [heard_of_candidate ha hl hpeer hdecode, ha.waiting_eq_nil l hl hset, hpassed, if_pos rfl]
      rfl
    · rw [hpassed, if_neg (Ne.symm hid)]
  | @released l kind hl =>
    have happlied : a.Applied (.outcome l.id (.remoteApplied kind)) := ⟨l, kind, hl, rfl⟩
    have hpassed (id : ConnId) :
        passed id (l.remote.waiting.map fun c => .submit l.id (.addCandidate c)) =
          if l.id = id then l.remote.waiting else [] := by
      have hcandidates : (l.remote.waiting.map Operation.addCandidate).filterMap
          Operation.candidate? = l.remote.waiting := by
        simp [List.filterMap_map, Function.comp_def, Operation.candidate?]
      rw [← hcandidates, ← passed_map, List.map_map, hcandidates]
      rfl
    refine .goesOn hl rfl (by simp [happlied]) ?_ (fun id hid => ?_) fun _ => rfl
    · rw [hpassed, if_pos rfl]
      rfl
    · rw [hpassed, if_neg (Ne.symm hid)]
  | @broken l peer _ taken left refused hl hpeer hasks =>
    have hpassed (id : ConnId) : passed id (taken.map (.submit l.id) ++ .warn (.fatal .closed) ::
        a.parting (some LinkError.closed.message)) =
          if l.id = id then taken.filterMap Operation.candidate? else [] := by
      simp [passed_append, passed_map, passed_cons, Effect.operationFor?, passed_parting]
    have htaken : taken.filterMap Operation.candidate? <+:
        (taken ++ refused :: left).filterMap Operation.candidate? := by
      rw [List.filterMap_append]
      exact List.prefix_append _ _
    refine .ends hl rfl ?_ (fun id hid => ?_) ?_
    · rw [hpassed, if_pos rfl]
      rcases hasks.candidates ha hl hpeer with hnone | ⟨hall, -⟩
      · rw [hnone] at htaken
        rw [List.prefix_nil.mp htaken]
        exact List.nil_prefix
      · exact hall ▸ htaken
    · rw [hpassed, if_neg (Ne.symm hid)]
    · rw [hpassed, if_pos rfl]
      intro hsome
      rcases hasks.candidates ha hl hpeer with hnone | ⟨-, hready⟩
      · rw [hnone] at htaken
        exact absurd (List.prefix_nil.mp htaken) hsome
      · exact hready
  | left hl =>
    refine hands_of_end hl rfl fun id => ?_
    simp [passed_parting]
  | hungUp hl =>
    refine hands_of_end hl rfl fun id => ?_
    simp [passed_cons, Effect.operationFor?, passed_parting]
  | failed hl =>
    refine hands_of_end hl rfl fun id => ?_
    rw [passed_append, passed_of_submitted (submitted_warnings _), passed_cons, passed_parting]
    rfl
  | closed hl =>
    refine hands_of_end hl rfl fun id => ?_
    rw [passed_cons, passed_append, passed_parting]
    cases a.isSignedIn <;> rfl
  | flushed hl hevent =>
    have happlied : ¬a.Applied event := by
      rcases hevent with rfl | ⟨other, rfl⟩ <;> exact not_applied (by simp)
    have hheard : a.heard event = [] := by
      rcases hevent with rfl | ⟨other, rfl⟩ <;> rfl
    exact hands_of_same (by rw [flush_live]) hheard happlied fun id => passed_flush
  | signedInDuringCall hl =>
    exact hands_of_same (by rw [flush_live]) rfl (not_applied (by simp)) fun id => passed_flush
  | ownCandidate hl =>
    exact hands_of_same (by rw [flush_live, hl]; rfl) rfl (not_applied (by simp))
      fun id => passed_flush
  | @offerMade l d hl | @answerMade l d hl =>
    rw [finish_after]
    refine hands_of_same (by rw [flush_live]) rfl (not_applied (by simp)) fun id => ?_
    rw [passed_append, passed_flush]
    by_cases hid : l.id = id <;>
      simp [passed, submitted, Effect.operationFor?, Operation.candidate?, hid]
  | signedIn | signedOut | signInFailed =>
    refine hands_of_same rfl rfl (not_applied (by simp)) fun id => ?_
    dsimp only
    split_ifs <;> rfl
  | records =>
    refine hands_of_same rfl rfl (not_applied (by simp)) fun id => passed_of_submitted ?_
    simp [submitted, Effect.operationFor?]
  | _ => exact hands_of_same rfl rfl (not_applied (by simp)) fun id => rfl

/-! ## Sessions -/

/-- All candidates that came from the peer in some steps. -/
def heardIn (steps : List Moment) : List Candidate := steps.flatMap fun m => m.before.heard m.event

/-- The candidate that a step hears is heard after those of the steps before it. -/
theorem heardIn_append (steps : List Moment) (m : Moment) :
    heardIn (steps ++ [m]) = heardIn steps ++ m.before.heard m.event := by
  simp [heardIn]

/-- What has become of the candidates of the peer in a session. -/
structure Custody (id : ConnId) (steps : List Moment) (a : Agent) : Prop where
  /-- Each candidate has been handed over or still waits, in the order in which they came. -/
  live : ∀ l, a.live = some l → passed id (effectsOf steps) ++ l.remote.waiting = heardIn steps
  /-- Candidates pass once the description of the peer is known to be applied. -/
  set : ∀ l, a.live = some l →
    (l.remote.isRemoteSet = true ↔ ∃ m ∈ steps, m.before.Applied m.event)
  /-- Also at the end, those that were handed over are the first that came. -/
  ordered : passed id (effectsOf steps) <+: heardIn steps

/-- The candidates of a session are kept in order, by induction on its steps. -/
theorem Session.custody {steps : List Moment} (h : Session settings id steps a) :
    Custody id steps a := by
  induction h with
  | @begins a event r ha hl hlive =>
    refine ⟨fun l hl => ?_, fun l hl => ?_, List.nil_prefix⟩
    all_goals obtain rfl : ({ id := id } : Live) = l := Option.some.inj (hlive.symm.trans hl)
    · rfl
    · simp
  | @goesOn steps a event r hsteps hlive ih =>
    have ha := hsteps.coherent
    have hstride : Stride settings r a event _ := step_stride ha event
    cases hstride.hands ha with
    | free hnone => simp [hnone] at hlive
    | @goesOn l l' hl hl' hset hpassed =>
      obtain rfl : l.id = id := by simpa [hl] using hlive
      have hall : passed l.id (effectsOf (steps ++ [a.moment settings event r])) ++
          l'.remote.waiting = heardIn (steps ++ [a.moment settings event r]) := by
        rw [effectsOf_append, heardIn_append, passed_append, List.append_assoc]
        change _ ++ (passed l.id (a.step settings r event).2 ++ _) = _ ++ a.heard event
        rw [hpassed, ← ih.live l hl, List.append_assoc]
      refine ⟨fun l'' h => ?_, fun l'' h => ?_, ?_⟩
      · obtain rfl : l' = l'' := Option.some.inj (hl'.symm.trans h)
        exact hall
      · obtain rfl : l' = l'' := Option.some.inj (hl'.symm.trans h)
        simp [hset, ih.set l hl, moment, or_and_right, exists_or]
      · rw [← hall]
        exact List.prefix_append _ _
    | @ends l hl hnone hpassed =>
      obtain rfl : l.id = id := by simpa [hl] using hlive
      refine ⟨by simp [hnone], by simp [hnone], ?_⟩
      rw [effectsOf_append, heardIn_append, passed_append, ← ih.live l hl, List.append_assoc]
      exact (List.prefix_append_right_inj _).mpr hpassed

/-- Only the steps of its session hand candidates to the link of a connection. -/
theorem passed_during (script : List (Event × Replies)) (id : ConnId) :
    passed id (effectsOf (during id (history settings script {}))) =
      passed id (effectsOf (history settings script {})) := by
  refine (run_induction (p := fun past _ =>
    passed id (effectsOf (during id past)) = passed id (effectsOf past)) rfl
    (fun past a event r ha hpast => ?_) script).2
  have hstride : Stride settings r a event _ := step_stride ha event
  rw [during_append, effectsOf_append, passed_append, ← hpast]
  by_cases hid : (a.moment settings event r).before.live.map (·.id) = some id
  · rw [if_pos hid, effectsOf_append, passed_append]
  · have hnone : passed id (a.moment settings event r).effects = [] := by
      cases hstride.hands ha with
      | free _ _ hpassed => exact hpassed id
      | goesOn hl _ _ _ hother | ends hl _ _ hother =>
        exact hother id (by simpa [moment, hl, eq_comm] using hid)
    rw [if_neg hid, hnone, List.append_nil, List.append_nil]

/-! ## Runs -/

/-- In every run, the candidates that were handed to the link of a connection are the first that
came from the peer of its session. -/
theorem run_ordered (script : List (Event × Replies)) (id : ConnId) :
    passed id (effectsOf (history settings script {})) <+:
      heardIn (during id (history settings script {})) := by
  have hsorted := run_sorted settings script
  rw [← passed_during]
  by_cases hid : (run settings script {}).1.live.map (·.id) = some id
  · obtain ⟨l, hl, rfl⟩ := Option.map_eq_some_iff.mp hid
    exact (hsorted.live l hl).custody.ordered
  · rcases hsorted.ended id hid with hnone | ⟨b, -, hsession⟩
    · rw [hnone]
      exact List.nil_prefix
    · exact hsession.custody.ordered

/-- An agent takes no notice of a candidate that was rejected, but for a warning. -/
theorem step_candidateRejected (error : LinkError) :
    (a.step settings r (.outcome id (.candidateRejected error))).1 = a ∧
      ∀ effect ∈ (a.step settings r (.outcome id (.candidateRejected error))).2,
        ∃ warning, effect = .warn warning := by
  cases hrun : a.isRunning with
  | false => simp [step, hrun]
  | true =>
    by_cases hid : a.live.map (·.id) = some id
    · simp [step, handle, ifLive, onOutcome, hrun, hid]
    · simp [step, handle, ifLive, hrun, hid]

end Agent

end PeerCall
