import PeerCall.Proofs.Agent.Session

/-!
# Signing in and out

Signing in is a matter between the agent and the bus: the agent asks, the bus grants or refuses,
and the agent may take back what it has asked for or has been granted. The last of these marks
tells whether the agent is signed in, and whether it waits for an answer.

An answer is heard whenever it comes. One that grants a request that has been taken back signs the
agent in all the same, and this is the only way in which it can be signed in with nothing asked
for since it signed out.
-/

namespace PeerCall

/-- What happens between the agent and the bus when it signs in or out. -/
inductive Mark
  /-- The agent has asked to be signed in. -/
  | requested
  | granted
  | refused
  /-- The agent has signed out. -/
  | withdrawn
  deriving DecidableEq, Repr

/-- The mark that is left by an effect. An attempt that the bus does not take leaves none. -/
def Effect.mark? : Effect → Option Mark
  | .signIn none => some .requested
  | .signOut => some .withdrawn
  | _ => none

/-- The answer to a request that an event brings. -/
def Event.answer? : Event → Option Mark
  | .bus .signedIn => some .granted
  | .bus (.signInFailed _) => some .refused
  | _ => none

namespace Agent

variable {settings : Settings} {a b : Agent} {r : Replies} {event : Event}
  {x : Agent × List Effect} {past earlier later : List Moment} {m : Moment}

/-- The marks that are left by some effects. -/
def markedBy (effects : List Effect) : List Mark := effects.filterMap Effect.mark?

/-- The answer that a step hears. An agent that has been shut down hears none. -/
def Moment.heard (m : Moment) : Option Mark := if m.before.isRunning then m.event.answer? else none

/-- The marks of a step. -/
def Moment.marks (m : Moment) : List Mark := m.heard.toList ++ markedBy m.effects

/-- The marks of some steps, in order. -/
def marks (steps : List Moment) : List Mark := steps.flatMap (·.marks)

/-- The marks of a step come after those of the steps before it. -/
theorem marks_append : marks (past ++ [m]) = marks past ++ m.marks := by
  simp [marks]

/-! ## One step -/

/-- What a step does to the sign-in of an agent, with the marks that it leaves. -/
inductive Signs (a b : Agent) : List Mark → Prop
  | rests (hsigned : b.isSignedIn = a.isSignedIn)
      (hawaits : b.call.phase = .awaitingSignIn ↔ a.call.phase = .awaitingSignIn) : Signs a b []
  | requests (hfree : a.call.phase = .idle) (hout : a.isSignedIn = false)
      (hsigned : b.isSignedIn = false) (hawaits : b.call.phase = .awaitingSignIn) :
      Signs a b [.requested]
  | withdraws (hopen : a.isSignedIn = true ∨ a.call.phase = .awaitingSignIn)
      (hsigned : b.isSignedIn = false) (hawaits : b.call.phase ≠ .awaitingSignIn) :
      Signs a b [.withdrawn]
  | granted (hsigned : b.isSignedIn = true) (hawaits : b.call.phase ≠ .awaitingSignIn) :
      Signs a b [.granted]
  | refused (hsigned : b.isSignedIn = false) (hawaits : b.call.phase ≠ .awaitingSignIn) :
      Signs a b [.refused]

/-- The marks of effects come one after another. -/
@[simp] theorem markedBy_append (first second : List Effect) :
    markedBy (first ++ second) = markedBy first ++ markedBy second :=
  List.filterMap_append

/-- The mark of the first effect comes first. -/
@[simp] theorem markedBy_cons (effect : Effect) (effects : List Effect) :
    markedBy (effect :: effects) = effect.mark?.toList ++ markedBy effects := by
  cases h : effect.mark? <;> simp [markedBy, h]

/-- Without effects there are no marks. -/
@[simp] theorem markedBy_nil : markedBy [] = [] := rfl

/-- Sending leaves no marks, -/
@[simp] theorem markedBy_flush : markedBy (finish (a.flush r)).2 = [] :=
  filterMap_flush (fun _ _ _ => rfl) fun _ => rfl

/-- and neither does the end of a call. -/
@[simp] theorem markedBy_parting {failure : Option String} : markedBy (a.parting failure) = [] :=
  filterMap_parting (fun _ => rfl) (fun _ => rfl) fun _ => rfl

/-- Effects of a kind that has no mark leave none. -/
theorem markedBy_map {α : Type} {f : α → Effect} (hf : ∀ y, (f y).mark? = none) (l : List α) :
    markedBy (l.map f) = [] :=
  filterMap_map_eq_nil hf l

/-- Sending does not touch the sign-in. -/
@[simp] theorem flush_isSignedIn : (finish (a.flush r)).1.isSignedIn = a.isSignedIn := by
  obtain ⟨outbox, h⟩ := flush_frame (a := a) (r := r)
  rw [h]

/-- An agent that has a connection does not wait for an answer. -/
theorem Coherent.not_awaiting {l : Live} (ha : a.Coherent) (hl : a.live = some l) :
    a.call.phase ≠ .awaitingSignIn := by
  intro h
  have hphase := (ha.call_of_live hl).1
  simp [h, Phase.isLive] at hphase

/-- A step at an event that answers no request. -/
theorem Stride.signs (ha : a.Coherent) (hx : Stride settings r a event x)
    (hevent : event.answer? = none) : Signs a x.1 (markedBy x.2) := by
  have hrests {b : Agent} {effects : List Effect} (hmarks : markedBy effects = [])
      (hsigned : b.isSignedIn = a.isSignedIn) (hafter : b.call.phase ≠ .awaitingSignIn)
      (hbefore : a.call.phase ≠ .awaitingSignIn) : Signs a b (markedBy effects) := by
    rw [hmarks]
    exact .rests hsigned (iff_of_false hafter hbefore)
  have hsubmits (id : ConnId) (operations : List Operation) :
      markedBy (operations.map (.submit id)) = [] := markedBy_map (fun _ => rfl) operations
  have hwarns (warnings : List Warning) : markedBy (warnings.map .warn) = [] :=
    markedBy_map (fun _ => rfl) warnings
  cases hx with
  | signedIn | signInFailed | signedInDuringCall => cases hevent
  | signIn hphase hout => exact .requests hphase hout hout rfl
  | trackAdded | trackRemoved | signInRefused | candidatePassed => exact .rests rfl Iff.rfl
  | quiet =>
    rw [hwarns]
    exact .rests rfl Iff.rfl
  | records =>
    rw [markedBy_map fun _ => rfl]
    exact .rests rfl Iff.rfl
  | @opened _ _ offer hphase =>
    refine hrests ?_ rfl ?_ (by simp [hphase])
    · cases offer <;> simp [hsubmits, Effect.mark?]
    · cases offer <;> simp [Agent.opened]
  | notCreated hphase | notOpened hphase =>
    exact hrests (by simp [hsubmits, Effect.mark?]) rfl (by simp [hphase]) (by simp [hphase])
  | offerAccepted hl | answerAccepted hl => exact hrests rfl rfl (by simp) (ha.not_awaiting hl)
  | candidateKept hl => exact hrests rfl rfl (ha.not_awaiting hl) (ha.not_awaiting hl)
  | released hl =>
    exact hrests (markedBy_map (fun _ => rfl) _) rfl (ha.not_awaiting hl) (ha.not_awaiting hl)
  | flushed hl | ownCandidate hl =>
    refine hrests markedBy_flush flush_isSignedIn ?_ (ha.not_awaiting hl)
    rw [flush_phase]
    exact ha.not_awaiting hl
  | offerMade hl | answerMade hl =>
    refine hrests (by simp [Effect.mark?]) (by simp) ?_ (ha.not_awaiting hl)
    simp
  | broken hl | failed hl | left hl | hungUp hl =>
    exact hrests (by simp [hsubmits, hwarns, Effect.mark?]) rfl (by simp [freed])
      (ha.not_awaiting hl)
  | closed hl =>
    cases hsigned : a.isSignedIn with
    | true =>
      simp only [markedBy_cons, markedBy_append, markedBy_parting, if_true]
      exact .withdraws (Or.inl hsigned) rfl (by simp [freed])
    | false =>
      exact hrests (by simp [Effect.mark?]) hsigned.symm (by simp [freed]) (ha.not_awaiting hl)
  | signedOut hl =>
    by_cases hphase : a.call.phase = .awaitingSignIn
    · simp only [hphase, if_true]
      exact .withdraws (Or.inr hphase) rfl (by simp)
    · cases hsigned : a.isSignedIn with
      | true =>
        simp only [hphase, if_false, if_true]
        exact .withdraws (Or.inl hsigned) rfl (by simp)
      | false => exact hrests (by simp [hphase]) hsigned.symm (by simp) hphase

/-- An agent that has heard an answer. It is signed in or not as the answer says, whether or not it
has waited for one. -/
def answered (isSignedIn : Bool) (a : Agent) : Agent :=
  { a with
    isSignedIn := isSignedIn
    call := { a.call with
      phase := if a.call.phase = .awaitingSignIn then .idle else a.call.phase } }

/-- An agent that has heard an answer does not wait for one. -/
theorem answered_not_awaiting (isSignedIn : Bool) :
    (a.answered isSignedIn).call.phase ≠ .awaitingSignIn := by
  by_cases hphase : a.call.phase = .awaitingSignIn <;> simp [answered, hphase]

/-- An agent that hears an answer does no more than tell of its phase. -/
theorem endSignIn_eq (isSignedIn : Bool) :
    ∃ told, markedBy told = [] ∧ a.endSignIn isSignedIn = (a.answered isSignedIn).emit told := by
  by_cases hphase : a.call.phase = .awaitingSignIn
  · exact ⟨[.notify (.phase .idle)], rfl, by simp [endSignIn, enter, answered, hphase]⟩
  · exact ⟨[], rfl, by simp [endSignIn, answered, hphase]⟩

/-- A step that hears an answer. -/
theorem step_answer (hrun : a.isRunning = true) {mark : Mark}
    (hevent : event.answer? = some mark) :
    Signs a (a.step settings r event).1 (mark :: markedBy (a.step settings r event).2) := by
  unfold Event.answer? at hevent
  split at hevent
  · obtain rfl := Option.some.inj hevent
    obtain ⟨told, hmarks, hend⟩ := a.endSignIn_eq true
    have hstep : a.step settings r (.bus .signedIn) =
        finish (((a.answered true).flush r).after told) := by
      simp only [step, hrun, if_true, handle, onBus, hend, emit_andThen]
    simp only [hstep, finish_after, markedBy_append, hmarks, markedBy_flush, List.append_nil]
    refine .granted flush_isSignedIn ?_
    rw [flush_phase]
    exact answered_not_awaiting true
  · next reason =>
    obtain rfl := Option.some.inj hevent
    obtain ⟨told, hmarks, hend⟩ := a.endSignIn_eq false
    have hstep : a.step settings r (.bus (.signInFailed reason)) = (a.answered false,
        .warn (.signInFailed reason) :: (told ++ [.notify (.signInFailed reason)])) := by
      simp [step, hrun, handle, onBus, hend]
    simp only [hstep, markedBy_cons, markedBy_append, hmarks]
    exact .refused rfl (answered_not_awaiting false)
  · simp at hevent

/-- Every step leaves marks that fit what it makes of the agent. -/
theorem moment_signs (ha : a.Coherent) (event : Event) (r : Replies) :
    Signs a (a.step settings r event).1 (a.moment settings event r).marks := by
  have hstride : Stride settings r a event _ := step_stride ha event
  have hanswer : (a.moment settings event r).heard =
      if a.isRunning then event.answer? else none := rfl
  unfold Moment.marks
  rw [hanswer]
  cases hrun : a.isRunning with
  | false =>
    have hself : a.step settings r event = (a, []) := by simp [step, hrun]
    simp only [moment, hself]
    exact .rests rfl Iff.rfl
  | true =>
    cases hevent : event.answer? with
    | none => exact hstride.signs ha hevent
    | some mark => exact step_answer hrun hevent

/-! ## Runs -/

/-- Whether an agent is signed in, and whether it waits to be, is told by the last mark. -/
structure Signed (past : List Moment) (a : Agent) : Prop where
  isSignedIn : a.isSignedIn = true ↔ (marks past).getLast? = some .granted
  awaits : a.call.phase = .awaitingSignIn ↔ (marks past).getLast? = some .requested

/-- Each step keeps an agent as signed in as its marks say. -/
theorem Signed.step (h : Signed past a) (ha : a.Coherent) (event : Event) (r : Replies) :
    Signed (past ++ [a.moment settings event r]) (a.step settings r event).1 := by
  have hsigns : Signs a (a.step settings r event).1 (a.moment settings event r).marks :=
    moment_signs ha event r
  rcases h with ⟨hsigned, hawaits⟩
  generalize hleft : (a.moment settings event r).marks = left at hsigns
  constructor <;> rw [marks_append, hleft] <;> cases hsigns <;> simp_all

/-- Whether an agent is signed in, and whether it waits to be, is told by the last mark in every
run. -/
theorem run_signed (settings : Settings) (script : List (Event × Replies)) :
    Signed (history settings script {}) (run settings script {}).1 :=
  (run_induction (p := Signed) ⟨by simp [marks], by simp [marks]⟩
    (fun _ _ event r ha h => h.step ha event r) script).2

/-! ## Requests that are taken back -/

/-- The agent has signed out, and has not asked to be signed in since. -/
def Lapsed (marks : List Mark) : Prop :=
  ∃ earlier later, marks = earlier ++ .withdrawn :: later ∧ .requested ∉ later

/-- No request is granted that has been taken back before. -/
def Timely (past : List Moment) : Prop :=
  ∀ earlier m later, past = earlier ++ m :: later → .granted ∈ m.marks → ¬Lapsed (marks earlier)

/-- The answers that the bus gives in some steps, heard or not. -/
def answers (past : List Moment) : List Mark := past.filterMap fun m => m.event.answer?

/-- The bus answers only what it has been asked before, and no request twice. -/
def Solicited (past : List Moment) : Prop :=
  ∀ earlier m later, past = earlier ++ m :: later → m.event.answer? ≠ none →
    (answers earlier).length < (marks earlier).count .requested

/-- What is granted asks for nothing. -/
theorem lapsed_granted {left : List Mark} : Lapsed (left ++ [.granted]) ↔ Lapsed left := by
  constructor
  · rintro ⟨first, second, hsplit, hnone⟩
    rcases List.eq_nil_or_concat' second with rfl | ⟨second, mark, rfl⟩
    · have hlast := (List.append_inj' hsplit rfl).2
      simp at hlast
    · have hsplit' : left ++ [.granted] = (first ++ .withdrawn :: second) ++ [mark] := by
        simpa using hsplit
      exact ⟨first, second, (List.append_inj' hsplit' rfl).1,
        fun hmem => hnone (List.mem_append_left _ hmem)⟩
  · rintro ⟨first, second, rfl, hnone⟩
    exact ⟨first, second ++ [.granted], by simp, by simpa using hnone⟩

/-- A step in which a request is granted does nothing else about signing in. -/
theorem Signs.eq_granted {left : List Mark} (h : Signs a b left) (hgranted : .granted ∈ left) :
    left = [.granted] ∧ b.isSignedIn = true := by
  cases h <;> simp_all

/-- What is timely was timely all along. -/
theorem Timely.of_append (h : Timely (past ++ later)) : Timely past := by
  intro first m second hsplit
  exact h first m (second ++ later) (by simp [hsplit])

/-- Where answers are timely, an agent that is signed in has asked for it since it last signed
out. -/
theorem run_timely (settings : Settings) (script : List (Event × Replies))
    (htimely : Timely (history settings script {}))
    (hsigned : (run settings script {}).1.isSignedIn = true) :
    ¬Lapsed (marks (history settings script {})) := by
  refine (run_induction (p := fun past a => Timely past → a.isSignedIn = true →
    ¬Lapsed (marks past)) ?_ ?_ script).2 htimely hsigned
  · rintro - hfalse
    simp at hfalse
  · intro past a event r ha hpast htimely hsigned
    have hsigns : Signs a (a.step settings r event).1 (a.moment settings event r).marks :=
      moment_signs ha event r
    have hlate := htimely past _ [] rfl
    rw [marks_append]
    generalize (a.moment settings event r).marks = left at hsigns hlate
    cases hsigns with
    | rests hsame =>
      rw [List.append_nil]
      exact hpast htimely.of_append (hsame ▸ hsigned)
    | granted => exact mt lapsed_granted.mp (hlate (by simp))
    | requests _ _ hout | withdraws _ hout | refused hout => simp [hout] at hsigned

/-- A peer that has come is called by itself only if the settings say so and the agent is signed
in. -/
theorem opening_peerConnected {peer : String} {y : String × Option Description}
    (h : a.opening settings (.bus (.peerConnected peer)) = some y) :
    settings.autocall = true ∧ a.isSignedIn = true := by
  simp only [opening, Option.ite_none_right_eq_some, Bool.and_eq_true] at h
  exact h.1

/-- Only an answer grants a request. -/
theorem Moment.answer_of_granted (h : .granted ∈ m.marks) : m.event.answer? = some .granted := by
  rcases List.mem_append.mp h with hheard | hdone
  · have hanswer : m.heard = some .granted := by simpa using hheard
    exact (Option.ite_none_right_eq_some.mp hanswer).2
  · obtain ⟨effect, -, hmark⟩ := List.mem_filterMap.mp hdone
    unfold Effect.mark? at hmark
    split at hmark <;> simp at hmark

/-- Where the bus answers only what it is asked, a grant comes after a request. -/
theorem Solicited.requested (h : Solicited (earlier ++ m :: later))
    (hgranted : .granted ∈ m.marks) : .requested ∈ marks earlier := by
  have hanswer : m.event.answer? ≠ none := by simp [Moment.answer_of_granted hgranted]
  exact List.count_pos_iff.mp (Nat.zero_lt_of_lt (h earlier m later rfl hanswer))

/-- An agent is signed in after a step if and only if the last mark is a grant. That it has asked
to be signed in since it last signed out holds after all steps if and only if no grant comes when
the request has been taken back, and then a peer is called by itself only if the agent has asked to
be signed in since it last signed out. If the bus answers only what it is asked, nothing but the
late answer to a request that was taken back can break this. -/
theorem run_signedIn (settings : Settings) (script : List (Event × Replies)) :
    let past := history settings script {}
    (∀ earlier m later, past = earlier ++ m :: later →
      (m.after.isSignedIn = true ↔ (marks (earlier ++ [m])).getLast? = some .granted)) ∧
    ((∀ earlier m later, past = earlier ++ m :: later → m.after.isSignedIn = true →
      ¬Lapsed (marks (earlier ++ [m]))) ↔ Timely past) ∧
    (Timely past → ∀ earlier m later peer, past = earlier ++ m :: later →
      m.event = .bus (.peerConnected peer) → asked m.effects ≠ [] →
        settings.autocall = true ∧ ¬Lapsed (marks earlier)) ∧
    (Solicited past → ¬Timely past → ∃ earlier m later first second,
      past = earlier ++ m :: later ∧ .granted ∈ m.marks ∧
        marks earlier = first ++ .withdrawn :: second ∧ .requested ∈ first ∧
        .requested ∉ second) := by
  intro past
  refine ⟨fun earlier m later hsplit => ?_, ⟨?_, ?_⟩, ?_, fun hsolicited htimely => ?_⟩
  · obtain ⟨first, event, r, rest, -, rfl, rfl⟩ := history_eq_append hsplit
    rw [← history_concat, moment, ← run_concat]
    exact (run_signed settings (first ++ [(event, r)])).isSignedIn
  · intro hlapsed earlier m later hsplit hgranted
    have hmoment := hlapsed earlier m later hsplit
    obtain ⟨first, event, r, rest, -, rfl, rfl⟩ := history_eq_append hsplit
    obtain ⟨hmarks, hsigned⟩ := (moment_signs (coherent_run first) event r).eq_granted hgranted
    rw [marks_append, hmarks] at hmoment
    exact mt lapsed_granted.mpr (hmoment hsigned)
  · intro htimely earlier m later hsplit hsigned
    have hfirst : Timely (earlier ++ [m]) := by
      rw [hsplit, List.append_cons] at htimely
      exact htimely.of_append
    obtain ⟨first, event, r, rest, -, rfl, rfl⟩ := history_eq_append hsplit
    rw [← history_concat] at hfirst ⊢
    refine run_timely settings _ hfirst ?_
    rw [run_concat]
    exact hsigned
  · intro htimely earlier m later peer hsplit hevent hasked
    rw [hsplit] at htimely
    have hfirst : Timely earlier := htimely.of_append
    obtain ⟨first, event, r, rest, -, rfl, rfl⟩ := history_eq_append hsplit
    obtain rfl : event = .bus (.peerConnected peer) := hevent
    have hstride : Stride settings r (run settings first {}).1 (.bus (.peerConnected peer)) _ :=
      step_stride (coherent_run first) _
    rcases hstride.asked_of_opening with ⟨hnone, -⟩ | ⟨⟨_, _, hopening⟩, -⟩
    · exact absurd hnone hasked
    · obtain ⟨hautocall, hsigned⟩ := opening_peerConnected hopening
      exact ⟨hautocall, run_timely settings first hfirst hsigned⟩
  · unfold Timely at htimely
    push Not at htimely
    obtain ⟨earlier, m, later, hsplit, hgranted, first, second, hmarks, hnone⟩ := htimely
    rw [hsplit] at hsolicited
    have hmem := hsolicited.requested hgranted
    rw [hmarks] at hmem
    refine ⟨earlier, m, later, first, second, hsplit, hgranted, hmarks, ?_, hnone⟩
    simpa [hnone] using hmem

/-- A request that is taken back before it is granted, and a peer that comes then. -/
def lateGrant : List (Event × Replies) :=
  [(.command .signIn, {}), (.command .close, {}), (.bus .signedIn, {}),
    (.bus (.peerConnected "bob"), {})]

/-- The bus does no more than answer, but the late grant signs the agent in, and the peer is
called by itself. -/
theorem signedIn_lateGrant :
    let settings := { Settings.default with autocall := true }
    let past := history settings lateGrant {}
    Solicited past ∧
      (∃ earlier m later, past = earlier ++ m :: later ∧ m.after.isSignedIn = true ∧
        Lapsed (marks (earlier ++ [m]))) ∧
      ∃ earlier m peer, past = earlier ++ [m] ∧ m.event = .bus (.peerConnected peer) ∧
        asked m.effects = [1] ∧ Lapsed (marks earlier) := by
  intro settings past
  refine ⟨?_, ?_, ?_⟩
  · intro earlier m later hsplit hanswer
    obtain ⟨first, event, r, rest, hscript, rfl, rfl⟩ := history_eq_append hsplit
    -- The only answer comes third.
    rcases first with _ | ⟨x, _ | ⟨y, _ | ⟨z, _ | ⟨_, first⟩⟩⟩⟩ <;> simp [lateGrant] at hscript
    · obtain ⟨⟨rfl, -⟩, -⟩ := hscript
      exact absurd rfl hanswer
    · obtain ⟨-, ⟨rfl, -⟩, -⟩ := hscript
      exact absurd rfl hanswer
    · obtain ⟨rfl, rfl, -⟩ := hscript
      decide
    · obtain ⟨-, -, -, ⟨rfl, -⟩, -⟩ := hscript
      exact absurd rfl hanswer
  · exact ⟨past.take 2, _, past.drop 3, rfl, by decide +kernel, [.requested], [.granted],
      by decide +kernel, by simp⟩
  · exact ⟨past.take 3, _, "bob", rfl, rfl, by decide +kernel, [.requested], [.granted],
      by decide +kernel, by simp⟩

end Agent

end PeerCall
