import PeerCall.Proofs.Agent.Session

/-!
# The operations of a connection

Operations are handed over for the live connection, or for the one that the step has just begun.
So none is handed over for a connection before the step that asks for it.
-/

namespace PeerCall

/-- The operation that an effect hands to the link of a connection. -/
def Effect.operationFor? (id : ConnId) : Effect → Option Operation
  | .submit other operation => if other = id then some operation else none
  | _ => none

namespace Agent

variable {settings : Settings} {a : Agent} {r : Replies} {event : Event}
  {x : Agent × List Effect} {id : ConnId}

/-- All that was done in some steps. -/
def effectsOf (steps : List Moment) : List Effect := steps.flatMap (·.effects)

/-- The effects of a step come after those of the steps before it. -/
theorem effectsOf_append (steps : List Moment) (m : Moment) :
    effectsOf (steps ++ [m]) = effectsOf steps ++ m.effects := by
  simp [effectsOf]

/-- The operations that are handed to the link of a connection, in order. -/
def submitted (id : ConnId) (effects : List Effect) : List Operation :=
  effects.filterMap (Effect.operationFor? id)

/-- What is handed over comes in the order of the effects. -/
theorem submitted_append (first second : List Effect) :
    submitted id (first ++ second) = submitted id first ++ submitted id second := by
  simp [submitted]

/-- What the first effect hands over comes first. -/
theorem submitted_cons (effect : Effect) (effects : List Effect) :
    submitted id (effect :: effects) =
      (effect.operationFor? id).toList ++ submitted id effects := by
  cases h : effect.operationFor? id <;> simp [submitted, h]

/-- Operations for one link are handed to no other. -/
theorem submitted_map {other : ConnId} (operations : List Operation) :
    submitted id (operations.map (.submit other)) = if other = id then operations else [] := by
  by_cases h : other = id <;>
    simp [submitted, List.filterMap_map, Function.comp_def, Effect.operationFor?, h]

/-- Sending hands nothing over, -/
theorem submitted_flush : submitted id (finish (a.flush r)).2 = [] :=
  filterMap_flush (fun _ _ _ => rfl) fun _ => rfl

/-- nor does the end of a call, -/
theorem submitted_parting {failure : Option String} : submitted id (a.parting failure) = [] :=
  filterMap_parting (fun _ => rfl) (fun _ => rfl) fun _ => rfl

/-- nor do warnings. -/
theorem submitted_warnings (warnings : List Warning) :
    submitted id (warnings.map .warn) = [] := by
  simp [submitted, Effect.operationFor?]

/-- A call that fails hands over what the worker has taken before, and nothing else. -/
theorem submitted_failure {other : ConnId} {taken : List Operation} {error : LinkError}
    {failure : Option String} :
    submitted id (taken.map (.submit other) ++ .warn (.fatal error) :: a.parting failure) =
      if other = id then taken else [] := by
  rw [submitted_append, submitted_map, submitted_cons, submitted_parting]
  exact List.append_nil _

/-- What a step hands over: nothing, the first operations of a new connection, or the first of
those that its event asks the live one for. -/
inductive Submits (settings : Settings) (a : Agent) (event : Event) (x : Agent × List Effect) :
    Prop
  | nothing (hnone : ∀ id, submitted id x.2 = [])
  | opening {peer : String} {offer : Option Description} {taken : List Operation}
      (hopening : a.opening settings event = some (peer, offer))
      (htaken : taken <+: openingOperations offer) (hissued : x.1.issued = a.issued + 1)
      (hsubmitted : ∀ id, submitted id x.2 = if a.issued + 1 = id then taken else [])
  | asked {l : Live} {peer : String} {operations taken : List Operation} (hl : a.live = some l)
      (hasks : Asks a l peer event operations) (htaken : taken <+: operations)
      (hsubmitted : ∀ id, submitted id x.2 = if l.id = id then taken else [])

/-- Operations are handed over before all else. -/
theorem submitted_map_append {other : ConnId} {later : List Effect} (operations : List Operation)
    (hlater : submitted id later = []) :
    submitted id (operations.map (.submit other) ++ later) =
      if other = id then operations else [] := by
  rw [submitted_append, submitted_map, hlater, List.append_nil]

/-- Every stride hands over operations in one of these ways. -/
theorem Stride.submits (hx : Stride settings r a event x) : Submits settings a event x := by
  cases hx with
  | quiet => exact .nothing fun _ => submitted_warnings _
  | @opened _ _ offer _ hopening =>
    refine .opening hopening (List.prefix_refl _) rfl fun id => ?_
    have hlast : Agent.submitted id
        (if offer.isSome then [Effect.notify (.phase .haveRemoteOffer)] else []) = [] := by
      split <;> rfl
    exact submitted_map_append _ hlast
  | notCreated =>
    refine .nothing fun _ => ?_
    rw [submitted_cons, submitted_cons, submitted_cons, submitted_parting]
    rfl
  | notOpened _ hopening _ hsplit =>
    refine .opening hopening ?_ rfl fun _ => submitted_failure
    rw [hsplit]
    exact List.prefix_append _ _
  | broken hl _ hasks => exact .asked hl hasks (List.prefix_append _ _) fun _ => submitted_failure
  | offerAccepted hl _ hdecode hphase hkind =>
    exact .asked hl (.offer hdecode hphase hkind) (List.prefix_refl _)
      fun _ => submitted_map_append [_, _] rfl
  | answerAccepted hl _ hdecode hphase hkind =>
    exact .asked hl (.answer hdecode hphase hkind) (List.prefix_refl _)
      fun _ => submitted_map_append [_] rfl
  | candidatePassed hl hpeer hdecode hset =>
    exact .asked hl (.candidate hdecode hset) (List.prefix_refl _) fun _ => submitted_map [_]
  | @released l kind hl =>
    have hrelease : Asks a l "" (.outcome l.id (.remoteApplied kind)) _ := .release
    refine .asked hl hrelease (List.prefix_refl _) fun _ => ?_
    rw [← submitted_map, List.map_map]
    rfl
  | @offerMade l _ hl hphase hkind =>
    have hoffer : Asks a l "" _ _ := .localOffer hphase hkind
    rw [finish_after]
    exact .asked hl hoffer (List.prefix_refl _) fun _ => submitted_map_append [_] submitted_flush
  | @answerMade l _ hl hphase hkind =>
    have hanswer : Asks a l "" _ _ := .localAnswer hphase hkind
    rw [finish_after]
    exact .asked hl hanswer (List.prefix_refl _) fun _ => submitted_map_append [_] submitted_flush
  | flushed | signedInDuringCall | ownCandidate => exact .nothing fun _ => submitted_flush
  | failed =>
    refine .nothing fun _ => ?_
    rw [submitted_append, submitted_warnings, submitted_cons, submitted_parting]
    rfl
  | left => exact .nothing fun id => (submitted_parting : Agent.submitted id (a.parting none) = [])
  | hungUp =>
    exact .nothing fun id => (submitted_parting : Agent.submitted id (a.parting none) = [])
  | closed =>
    refine .nothing fun _ => ?_
    rw [submitted_cons, submitted_append, submitted_parting]
    split <;> rfl
  | signedIn | signInFailed | signedOut =>
    refine .nothing fun _ => ?_
    dsimp only
    split_ifs <;> rfl
  | records => exact .nothing fun _ => by simp [submitted, Effect.operationFor?]
  | _ => exact .nothing fun _ => rfl

/-- A connection gets operations only while it is live, or in the step that asks for it. -/
theorem Stride.submitted_eq_nil (hx : Stride settings r a event x)
    (hother : a.live.map (·.id) ≠ some id) (hold : id ≤ a.issued ∨ x.1.issued < id) :
    Agent.submitted id x.2 = [] := by
  cases hx.submits with
  | nothing hnone => exact hnone id
  | opening _ _ hissued hsubmitted =>
    have hnew : a.issued + 1 ≠ id := by
      rintro rfl
      rcases hold with h | h
      · exact Nat.not_succ_le_self _ h
      · exact Nat.lt_irrefl _ (hissued ▸ h)
    rw [hsubmitted, if_neg hnew]
  | @asked l _ _ _ hl _ _ hsubmitted =>
    have hlive : l.id ≠ id := by simpa [hl] using hother
    rw [hsubmitted, if_neg hlive]

/-- During a call no connection is asked for, -/
theorem Stride.issued_eq {l : Live} (ha : a.Coherent) (hx : Stride settings r a event x)
    (hl : a.live = some l) : x.1.issued = a.issued := by
  cases hx with
  | opened hphase | notCreated hphase | notOpened hphase => simp [ha.live_of_idle hphase] at hl
  | _ => simp [finish_after, freed]

/-- and no other connection gets an operation. -/
theorem Stride.submitted_other {l : Live} (ha : a.Coherent) (hx : Stride settings r a event x)
    (hl : a.live = some l) (hid : id ≠ l.id) : Agent.submitted id x.2 = [] := by
  refine hx.submitted_eq_nil (by simpa [hl] using Ne.symm hid) ?_
  rw [hx.issued_eq ha hl]
  exact Nat.lt_or_ge a.issued id |>.symm

/-- A connection that is still to come gets no operation. -/
theorem Stride.submitted_fresh (ha : a.Coherent) (hx : Stride settings r a event x)
    (hid : x.1.issued < id) : Agent.submitted id x.2 = [] := by
  refine hx.submitted_eq_nil (fun h => ?_) (Or.inr hid)
  obtain ⟨l, hl, rfl⟩ := Option.map_eq_some_iff.mp h
  rw [ha.id_eq_issued l hl] at hid
  exact Nat.not_lt_of_le hx.issued_le hid

/-- A step that asks for a connection does so before it hands over anything. -/
theorem Stride.create_first (hx : Stride settings r a event x) :
    Agent.asked x.2 = [] ∨ ∃ error rest, Agent.asked rest = [] ∧
      x.2 = .notify (.phase .connecting) :: .create (a.issued + 1) error :: rest := by
  have hasked := hx.asked
  -- Only the three ways to begin a call raise the number of connections.
  cases hx with
  | opened | notCreated | notOpened =>
    right
    refine ⟨_, _, ?_, rfl⟩
    rcases hasked with ⟨hnone, -⟩ | ⟨hone, -⟩
    · exact absurd hnone (List.cons_ne_nil _ _)
    · exact (List.cons.inj hone).2
  | _ =>
    left
    rcases hasked with ⟨hnone, -⟩ | ⟨-, hissued⟩
    · exact hnone
    · simp [finish_after, freed] at hissued

/-- A connection that is asked for stands among the others as its effect among the effects. -/
theorem asked_split (first : List Effect) (id : ConnId) (error : Option LinkError)
    (second : List Effect) :
    Agent.asked (first ++ .create id error :: second) =
      Agent.asked first ++ id :: Agent.asked second := by
  simp [Agent.asked, Effect.asked?]

/-- The connection that a step asks for is the next one, and nothing is handed over before. -/
theorem Stride.submitted_before_create {first second : List Effect} {error : Option LinkError}
    (hx : Stride settings r a event x) (hsplit : x.2 = first ++ .create id error :: second) :
    id = a.issued + 1 ∧ Agent.submitted id first = [] := by
  rcases hx.create_first with hnone | ⟨error', rest, hnone, hfirst⟩
  · rw [hsplit, asked_split] at hnone
    simp at hnone
  · rw [hfirst] at hsplit
    match first, hsplit with
    | [_], hsplit =>
      simp only [List.cons_append, List.nil_append, List.cons.injEq, Effect.create.injEq] at hsplit
      obtain ⟨rfl, ⟨rfl, -⟩, -⟩ := hsplit
      exact ⟨rfl, rfl⟩
    | _ :: _ :: first, hsplit =>
      simp only [List.cons_append, List.cons.injEq] at hsplit
      rw [hsplit.2.2, asked_split] at hnone
      simp at hnone

/-! ## Runs -/

/-- Nothing has been handed over for a connection that is still to come. -/
theorem run_submitted_fresh (script : List (Event × Replies)) :
    ∀ id, (run settings script {}).1.issued < id →
      submitted id (effectsOf (history settings script {})) = [] := by
  refine (run_induction (p := fun past a =>
    ∀ id, a.issued < id → submitted id (effectsOf past) = []) (fun _ _ => rfl) ?_ script).2
  intro past a event r ha hpast id hid
  have hstride : Stride settings r a event _ := step_stride ha event
  have hle := hstride.issued_le
  rw [effectsOf_append, submitted_append, hpast id (Nat.lt_of_le_of_lt hle hid)]
  exact hstride.submitted_fresh ha hid

end Agent

end PeerCall
