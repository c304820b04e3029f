import PeerCall.Proofs.Agent.SigningIn
import PeerCall.Proofs.Lists

/-!
# Requests to the bus

An agent does not ask to be signed in while a request of its own is open or granted, and it does not
sign out unless one is. So of the marks of a run each has only a few that it may follow. Calls have
no part in this: of what an agent does, only closing it changes whether it is signed in.
-/

namespace PeerCall

/-- What may come just before a mark. Answers may come at any time. -/
inductive Mark.Follows : Option Mark → Mark → Prop
  | first : Follows none .requested
  | afterRefusal : Follows (some .refused) .requested
  | afterWithdrawal : Follows (some .withdrawn) .requested
  | takesBack : Follows (some .requested) .withdrawn
  | givesUp : Follows (some .granted) .withdrawn
  | granted (last : Option Mark) : Follows last .granted
  | refused (last : Option Mark) : Follows last .refused

namespace Mark.Follows

variable {earlier between : List Mark}

/-- A request comes after a refusal or when the agent has signed out. -/
theorem of_requested (h : Follows (earlier ++ .requested :: between).getLast? .requested) :
    .withdrawn ∈ between ∨ .refused ∈ between := by
  rcases between.eq_nil_or_concat' with rfl | ⟨between, last, rfl⟩
  · rw [List.getLast?_concat] at h
    cases h
  · rw [List.append_cons, ← List.append_assoc, List.getLast?_concat] at h
    cases h <;> simp

/-- What is taken back or given up has been asked for or granted. -/
theorem of_withdrawn (h : Follows earlier.getLast? .withdrawn) :
    ∃ first mark, earlier = first ++ [mark] ∧ (mark = .requested ∨ mark = .granted) := by
  rcases earlier.eq_nil_or_concat' with rfl | ⟨first, last, rfl⟩
  · cases h
  · rw [List.getLast?_concat] at h
    refine ⟨first, last, rfl, ?_⟩
    cases h <;> simp

end Mark.Follows

namespace Agent

variable {settings : Settings} {a b : Agent} {r : Replies} {event : Event}
  {x : Agent × List Effect} {past : List Moment} {m : Moment}

/-! ## One step -/

/-- The marks of a step follow the last mark before it. -/
theorem Signs.follows {left : List Mark} (h : Signs a b left) (hpast : Signed past a) {mark : Mark}
    (hmark : mark ∈ left) : left = [mark] ∧ mark.Follows (marks past).getLast? := by
  obtain ⟨hsigned, hawaits⟩ := hpast
  cases h with
  | rests => simp at hmark
  | granted | refused =>
    obtain rfl := List.mem_singleton.mp hmark
    exact ⟨rfl, by constructor⟩
  | requests hfree hout =>
    obtain rfl := List.mem_singleton.mp hmark
    refine ⟨rfl, ?_⟩
    cases hlast : (marks past).getLast? with
    | none => exact .first
    | some last =>
      cases last with
      | refused => exact .afterRefusal
      | withdrawn => exact .afterWithdrawal
      | granted => simp [hsigned.mpr hlast] at hout
      | requested => simp [hawaits.mpr hlast] at hfree
  | withdraws hopen =>
    obtain rfl := List.mem_singleton.mp hmark
    refine ⟨rfl, ?_⟩
    rcases hopen with hin | hwaiting
    · rw [hsigned.mp hin]
      exact .givesUp
    · rw [hawaits.mp hwaiting]
      exact .takesBack

/-- But for the answers of the bus, only closing an agent changes whether it is signed in. -/
theorem Stride.isSignedIn_eq (hx : Stride settings r a event x) (hevent : event.answer? = none) :
    event = .command .close ∨ event = .command .shutdown ∨ x.1.isSignedIn = a.isSignedIn := by
  cases hx with
  | signedIn | signInFailed | signedInDuringCall => cases hevent
  | closed _ _ hcommand | signedOut _ hcommand => rcases hcommand with rfl | rfl <;> simp
  | flushed | ownCandidate => exact Or.inr (Or.inr flush_isSignedIn)
  | offerMade | answerMade =>
    rw [finish_after]
    exact Or.inr (Or.inr flush_isSignedIn)
  | _ => exact Or.inr (Or.inr rfl)

/-- An answer of the bus begins no call and ends none. -/
theorem Stride.rests_of_answer {mark : Mark} (hx : Stride settings r a event x)
    (hevent : event.answer? = some mark) : Agent.asked x.2 = [] ∧ x.1.live = a.live := by
  have hnone : a.opening settings event = none := by
    unfold Event.answer? at hevent
    split at hevent <;> first | rfl | cases hevent
  constructor
  · rcases hx.asked_of_opening with ⟨hasked, -⟩ | ⟨⟨_, _, hopening⟩, -⟩
    · exact hasked
    · simp [hnone] at hopening
  · cases hx with
    | quiet | signedIn | signInFailed => rfl
    | signedInDuringCall => exact flush_live
    | opened _ hopening | notCreated _ hopening | notOpened _ hopening => simp [hnone] at hopening
    | flushed _ hnews => rcases hnews with rfl | ⟨_, rfl⟩ <;> cases hevent
    | @broken _ _ _ taken left refused _ _ hasks =>
      generalize taken ++ refused :: left = operations at hasks
      cases hasks <;> cases hevent
    | failed _ hfailure => cases hfailure <;> cases hevent
    | left _ _ hleaves => cases hleaves <;> cases hevent
    | _ => cases hevent

/-- A step that begins a call, be it in vain, or ends one. -/
def Moment.TurnsCall (m : Moment) : Prop :=
  asked m.effects ≠ [] ∨ m.after.live.map (·.id) ≠ m.before.live.map (·.id)

/-- Only closing an agent and the answers of the bus, which let the call be, change whether it is
signed in. -/
theorem moment_isSignedIn (settings : Settings) (ha : a.Coherent) (event : Event) (r : Replies) :
    event = .command .close ∨ event = .command .shutdown ∨
      (event.answer?.isSome = true ∧ ¬(a.moment settings event r).TurnsCall) ∨
      (a.step settings r event).1.isSignedIn = a.isSignedIn := by
  have hstride : Stride settings r a event _ := step_stride ha event
  cases hanswer : event.answer? with
  | none => exact (hstride.isSignedIn_eq hanswer).imp_right fun h => h.imp_right Or.inr
  | some mark =>
    obtain ⟨hasked, hlive⟩ := hstride.rests_of_answer hanswer
    refine Or.inr (Or.inr (Or.inl ⟨rfl, ?_⟩))
    rintro (hasks | hturns)
    · exact hasks hasked
    · exact hturns (congrArg (Option.map (·.id)) hlive)

/-! ## Runs -/

/-- Every mark of a run follows the one before it. -/
theorem run_follows (settings : Settings) (script : List (Event × Replies)) :
    ∀ earlier mark later, marks (history settings script {}) = earlier ++ mark :: later →
      mark.Follows earlier.getLast? := by
  refine (run_induction (p := fun past a => Signed past a ∧ ∀ earlier mark later,
    marks past = earlier ++ mark :: later → mark.Follows earlier.getLast?) ?_ ?_ script).2.2
  · exact ⟨⟨by simp [marks], by simp [marks]⟩, by simp [marks]⟩
  rintro past a event r ha ⟨hsigned, hfollows⟩
  refine ⟨hsigned.step ha event r, fun earlier mark later hsplit => ?_⟩
  have hsigns : Signs a (a.step settings r event).1 (a.moment settings event r).marks :=
    moment_signs ha event r
  rw [marks_append] at hsplit
  rcases hleft : (a.moment settings event r).marks with _ | ⟨new, rest⟩
  · rw [hleft, List.append_nil] at hsplit
    exact hfollows earlier mark later hsplit
  · obtain ⟨hone, hnew⟩ := hsigns.follows hsigned (hleft ▸ List.mem_cons_self)
    rw [hone] at hsplit
    rcases concat_eq_split hsplit with ⟨rfl, rfl⟩ | ⟨rest, hpast⟩
    · exact hnew
    · exact hfollows earlier mark rest hpast

/-- Between two requests to be signed in, the first has been refused or the agent has signed out. It
signs out only if, since it last did, it has asked to be signed in or a grant has come. Whether it
is signed in changes with answers of the bus, and no call begins or ends then, and otherwise only
when the agent is closed: never with a call that begins, fails or ends by itself. -/
theorem run_requests (settings : Settings) (script : List (Event × Replies)) :
    let past := history settings script {}
    (∀ earlier between later,
      marks past = earlier ++ .requested :: (between ++ .requested :: later) →
        .withdrawn ∈ between ∨ .refused ∈ between) ∧
    (∀ earlier later, marks past = earlier ++ .withdrawn :: later →
      ∃ first mark second, earlier = first ++ mark :: second ∧
        (mark = .requested ∨ mark = .granted) ∧ .withdrawn ∉ second) ∧
    ∀ m ∈ past, m.after.isSignedIn ≠ m.before.isSignedIn →
      m.event = .command .close ∨ m.event = .command .shutdown ∨
        m.event.answer?.isSome = true ∧ ¬m.TurnsCall := by
  intro past
  refine ⟨fun earlier between later hsplit => ?_, fun earlier later hsplit => ?_,
    fun m hm hchange => ?_⟩
  · have hfollows := run_follows settings script (earlier ++ .requested :: between) .requested later
      (by simpa using hsplit)
    exact hfollows.of_requested
  · have hfollows := run_follows settings script earlier .withdrawn later hsplit
    obtain ⟨first, mark, rfl, hmark⟩ := hfollows.of_withdrawn
    exact ⟨first, mark, [], rfl, hmark, List.not_mem_nil⟩
  · obtain ⟨a, event, r, ha, rfl⟩ := exists_moment script m hm
    rcases moment_isSignedIn settings ha event r with h | h | h | hsame
    · exact Or.inl h
    · exact Or.inr (Or.inl h)
    · exact Or.inr (Or.inr h)
    · exact absurd hsame hchange

end Agent

end PeerCall
