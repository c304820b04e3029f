import PeerCall.Proofs.Agent.Refusal
import PeerCall.Proofs.Link.Life

/-!
# The worker of a link

The worker of a link runs one operation after another, in the order in which they are handed over,
and posts one outcome for each. It dies with the first call that crashes: from then on nothing
begins, ends or is posted, and every operation is refused.
-/

namespace PeerCall

/-! ## Outcomes -/

/-- An outcome fits an operation and the answer to its call. -/
inductive Answer.Fits (a : Answer) : Operation → Outcome → Prop
  | offer (hdone : a.ending = .done) : Fits a .createOffer (.localReady (a.description .offer))
  | answer (hdone : a.ending = .done) : Fits a .createAnswer (.localReady (a.description .answer))
  | own {d : Description} (hdone : a.ending = .done) : Fits a (.setLocal d) (.localApplied d.kind)
  | peer {d : Description} (hdone : a.ending = .done) :
      Fits a (.setRemote d) (.remoteApplied d.kind)
  | candidate {c : Candidate} (hdone : a.ending = .done) :
      Fits a (.addCandidate c) .candidateApplied
  | rejected {c : Candidate} {error : LinkError} (hfail : a.ending = .fail error) :
      Fits a (.addCandidate c) (.candidateRejected error)
  | failed {operation : Operation} {error : LinkError} (hfail : a.ending = .fail error)
      (hother : ∀ c, operation ≠ .addCandidate c) :
      Fits a operation (.failed operation.kind error)

/-- The outcome of a call fits its operation and its answer. -/
theorem Answer.fits_of_outcome? {a : Answer} {operation : Operation} {outcome : Outcome}
    (h : a.outcome? operation = some outcome) : a.Fits operation outcome := by
  cases hending : a.ending with
  | done =>
    cases operation <;> simp only [outcome?, hending, Option.some.injEq] at h <;> subst h <;>
      constructor <;> exact hending
  | fail error =>
    cases operation with
    | addCandidate c =>
      simp only [outcome?, hending, Option.some.injEq] at h
      subst h
      exact .rejected hending
    | _ =>
      simp only [outcome?, hending, Option.some.injEq] at h
      subst h
      exact .failed hending (by simp)
  | crash => simp [outcome?, hending] at h

/-- Only a crash has no outcome. -/
theorem Answer.outcome?_eq_none {a : Answer} {operation : Operation}
    (h : a.outcome? operation = none) : a.ending = .crash := by
  unfold outcome? at h
  split at h <;> simp_all

/-- Nothing fits a crash. -/
theorem Answer.Fits.ending_ne_crash {a : Answer} {operation : Operation} {outcome : Outcome}
    (h : a.Fits operation outcome) : a.ending ≠ .crash := by
  cases h <;> simp_all

/-! ## Works -/

/-- What happens with the operations of a link. -/
inductive Work
  | taken (operation : Operation)
  | refused (operation : Operation)
  /-- The call of an operation begins, which gets an answer. -/
  | began (operation : Operation) (answer : Answer)
  | ended (operation : Operation) (answer : Answer)
  | posted (connection : ConnId) (outcome : Outcome)

namespace Work

/-- The operation that is taken. -/
def taken? : Work → Option Operation
  | .taken operation => some operation
  | _ => none

/-- The operation that begins, with the answer that its call gets. -/
def began? : Work → Option (Operation × Answer)
  | .began operation answer => some (operation, answer)
  | _ => none

/-- Whether an operation is refused. -/
def isRefused : Work → Bool
  | .refused _ => true
  | _ => false

/-- Whether it is the worker that does it. -/
def isOwn : Work → Bool
  | .taken _ | .refused _ => false
  | _ => true

/-- Whether a call crashes. -/
def isCrash : Work → Bool
  | .ended _ answer => answer.ending = .crash
  | _ => false

end Work

/-- An operation that is done. -/
structure Job where
  operation : Operation
  answer : Answer
  outcome : Outcome

/-- What the worker of a connection does for a job. -/
def Job.works (id : ConnId) (j : Job) : List Work :=
  [.began j.operation j.answer, .ended j.operation j.answer, .posted id j.outcome]

namespace Link

/-- What happens with operations in an instant. -/
def Instant.works (i : Instant) : List Work :=
  (match i.deed with
    | .submit operation =>
      [if (i.link.worker.submit? operation).isNone then .refused operation else .taken operation]
    | .move .beginOperation => i.link.worker.waiting.head?.toList.map fun operation =>
      .began operation (i.link.script.next (.run operation.kind)).1
    | .move .endOperation => i.link.worker.current.toList.map fun c => .ended c.1 c.2.answer
    | _ => []) ++
  (match i.output.event with
    | some (.outcome connection outcome) => [.posted connection outcome]
    | _ => [])

/-- What has happened with operations. -/
def worksOf (past : List Instant) : List Work := past.flatMap Instant.works

/-- Where a worker stands: the operations that it has not done, oldest first, and what it has done
for the first of them. -/
inductive Stage (l : Link) : List Operation → List Work → Prop
  | idle (hdone : l.worker.isDone = false) (hcurrent : l.worker.current = none) :
      Stage l l.worker.waiting []
  | busy {operation : Operation} {flight : Flight} (hdone : l.worker.isDone = false)
      (hcurrent : l.worker.current = some (operation, flight)) :
      Stage l (operation :: l.worker.waiting) [.began operation flight.answer]
  /-- A call has crashed, and what waited then is lost. -/
  | dead {operation : Operation} {answer : Answer} {lost : List Operation}
      (hdone : l.worker.isDone = true) (hcurrent : l.worker.current = none)
      (hwaiting : l.worker.waiting = []) (hcrash : answer.ending = .crash) :
      Stage l (operation :: lost) [.began operation answer, .ended operation answer]

/-- Jobs are done one after another, in the order in which their operations are handed over. -/
structure Executes (id : ConnId) (l : Link) (works : List Work) (jobs : List Job)
    (rest : List Operation) (last : List Work) : Prop where
  fits : ∀ j ∈ jobs, j.answer.Fits j.operation j.outcome
  stage : Stage l rest last
  taken : works.filterMap Work.taken? = jobs.map (·.operation) ++ rest
  done : works.filter Work.isOwn = jobs.flatMap (Job.works id) ++ last

variable {first l l' : Link} {start now : Nat} {past : List Instant} {deed : Deed}
  {output : Output} {id : ConnId} {works last : List Work} {jobs : List Job}
  {rest : List Operation} {isHeard : Bool} {move : Move}

/-- What a deed can do to the operations of a link, with the works that come of it. -/
inductive Advances (l l' : Link) : List Work → Prop
  /-- The call that runs may be let go on. -/
  | nothing (hdone : l'.worker.isDone = l.worker.isDone)
      (hwaiting : l'.worker.waiting = l.worker.waiting)
      (hcurrent : l'.worker.current.map (fun c => (c.1, c.2.answer)) =
        l.worker.current.map fun c => (c.1, c.2.answer)) : Advances l l' []
  | refuses {operation : Operation} (hdone : l.worker.isDone = true) (hsame : l' = l) :
      Advances l l' [.refused operation]
  | takes {operation : Operation} (hdone : l.worker.isDone = false)
      (hworker : l'.worker = { l.worker with waiting := l.worker.waiting ++ [operation] }) :
      Advances l l' [.taken operation]
  | begins {operation : Operation} {flight : Flight} (hdone : l.worker.isDone = false)
      (hcurrent : l.worker.current = none)
      (hwaiting : l.worker.waiting = operation :: l'.worker.waiting)
      (hdone' : l'.worker.isDone = false)
      (hcurrent' : l'.worker.current = some (operation, flight)) :
      Advances l l' [.began operation flight.answer]
  | returns {operation : Operation} {flight : Flight} {outcome : Outcome}
      (hcurrent : l.worker.current = some (operation, flight))
      (hfits : flight.answer.Fits operation outcome)
      (hworker : l'.worker = { l.worker with current := none }) :
      Advances l l' [.ended operation flight.answer, .posted l.id outcome]
  | crashes {operation : Operation} {flight : Flight}
      (hcurrent : l.worker.current = some (operation, flight))
      (hcrash : flight.answer.ending = .crash) (hworker : l'.worker = l.worker.stop) :
      Advances l l' [.ended operation flight.answer]

/-- An operation that is handed over is taken or refused. -/
theorem submit_advances (operation : Operation) :
    Advances l (l.submit operation) (Instant.works ⟨now, l, .submit operation, {}⟩) := by
  cases hdone : l.worker.isDone with
  | true =>
    have hworks : Instant.works ⟨now, l, .submit operation, {}⟩ = [.refused operation] := by
      simp [Instant.works, Worker.submit?, hdone]
    rw [hworks]
    exact .refuses hdone (by simp [Link.submit, Worker.submit?, hdone])
  | false =>
    have hworks : Instant.works ⟨now, l, .submit operation, {}⟩ = [.taken operation] := by
      simp [Instant.works, Worker.submit?, hdone]
    rw [hworks]
    exact .takes hdone (by simp [Link.submit, Worker.submit?, hdone])

/-- The first operation that waits begins. -/
theorem beginOperation_advances (h : l.beginOperation now = some l') :
    Advances l l' (Instant.works ⟨now, l, .move .beginOperation, {}⟩) := by
  unfold beginOperation at h
  split at h
  · next operation rest hcurrent hwaiting =>
    split at h
    · simp at h
    · next hdone =>
      obtain rfl := Option.some.inj h
      have hworks : Instant.works ⟨now, l, .move .beginOperation, {}⟩ =
          [.began operation (l.script.next (.run operation.kind)).1] := by
        simp [Instant.works, hwaiting]
      have hopen : l.worker.isDone = false := by simpa using hdone
      rw [hworks]
      change Advances l _ [.began operation (l.begin now (.run operation)).1.answer]
      exact .begins hopen hcurrent hwaiting hopen rfl
  · simp at h

/-- The operation that runs returns or crashes. -/
theorem endOperation_advances (h : l.endOperation now true = some (l', output)) :
    Advances l l' (Instant.works ⟨now, l, .move .endOperation, output⟩) := by
  unfold endOperation at h
  split at h
  · next operation flight hcurrent =>
    split at h
    · split at h
      · next outcome houtcome =>
        obtain ⟨rfl, rfl⟩ := Prod.mk.inj (Option.some.inj h)
        simp only [Instant.works, hcurrent]
        exact .returns hcurrent (Answer.fits_of_outcome? houtcome) rfl
      · next hnone =>
        obtain ⟨rfl, rfl⟩ := Prod.mk.inj (Option.some.inj h)
        simp only [Instant.works, hcurrent]
        exact .crashes hcurrent (Answer.outcome?_eq_none hnone) rfl
    · simp at h
  · simp at h

/-- The other moves leave the worker alone. -/
theorem perform_worker (hbegin : move ≠ .beginOperation) (hend : move ≠ .endOperation)
    (h : l.perform now isHeard move = some (l', output)) :
    l'.worker = l.worker ∧ ∀ id outcome, output.event ≠ some (.outcome id outcome) := by
  cases move with
  | beginOperation => exact absurd rfl hbegin
  | endOperation => exact absurd rfl hend
  | tick => grind [perform, tick]
  | beginPoll => grind [perform, beginPoll, begin]
  | endPoll => grind [perform, endPoll]
  | takeResult => grind [perform, takeResult]
  | dropPolls => grind [perform, dropPolls]
  | beginClose => grind [perform, beginClose, begin]
  | endClose => grind [perform, endClose]

/-- Of the moves only the beginning and the end of an operation have works. -/
theorem perform_advances (h : l.perform now true move = some (l', output)) :
    Advances l l' (Instant.works ⟨now, l, .move move, output⟩) := by
  by_cases hbegin : move = .beginOperation
  · subst hbegin
    obtain ⟨hbegun, rfl⟩ := of_silent h
    exact beginOperation_advances hbegun
  by_cases hend : move = .endOperation
  · subst hend
    exact endOperation_advances h
  obtain ⟨hworker, hevent⟩ := perform_worker hbegin hend h
  have hworks : Instant.works ⟨now, l, .move move, output⟩ = [] := by
    unfold Instant.works
    dsimp only
    split <;> split <;> simp_all
  rw [hworks]
  exact .nothing (by rw [hworker]) (by rw [hworker]) (by rw [hworker])

/-- Every deed does one of these things to the operations of a link. -/
theorem take?_advances (h : l.take? now deed = some (l', output)) :
    Advances l l' (Instant.works ⟨now, l, deed, output⟩) := by
  cases deed with
  | submit operation =>
    obtain ⟨rfl, rfl⟩ := Prod.mk.inj (Option.some.inj h)
    exact submit_advances operation
  | stopPolls | wait =>
    obtain ⟨rfl, rfl⟩ := Prod.mk.inj (Option.some.inj h)
    exact .nothing rfl rfl rfl
  | resume =>
    obtain ⟨hresume, rfl⟩ := of_silent h
    obtain ⟨ticket, -, rfl⟩ := Option.map_eq_some_iff.mp hresume
    refine .nothing rfl rfl ?_
    rw [Option.map_map]
    congr 1
    funext c
    dsimp only [Function.comp_apply]
    split <;> rfl
  | move move => exact perform_advances h

/-! ## Jobs in order -/

/-- A stage depends on nothing but the worker of the link. -/
theorem Stage.same (h : Stage l rest last) (hdone : l'.worker.isDone = l.worker.isDone)
    (hwaiting : l'.worker.waiting = l.worker.waiting)
    (hcurrent : l'.worker.current.map (fun c => (c.1, c.2.answer)) =
      l.worker.current.map fun c => (c.1, c.2.answer)) : Stage l' rest last := by
  cases h with
  | idle hd hc =>
    rw [← hwaiting]
    exact .idle (hdone.trans hd) (by simpa [hc] using hcurrent)
  | busy hd hc =>
    rw [← hwaiting]
    rw [hc] at hcurrent
    obtain ⟨⟨operation, flight⟩, hc', heq⟩ := Option.map_eq_some_iff.mp hcurrent
    obtain ⟨rfl, hanswer⟩ := Prod.mk.inj heq
    rw [← hanswer]
    exact .busy (hdone.trans hd) hc'
  | dead hd hc hw hcrash =>
    exact .dead (hdone.trans hd) (by simpa [hc] using hcurrent) (hwaiting.trans hw) hcrash

/-- An operation that is taken comes last. -/
theorem Stage.takes {operation : Operation} (h : Stage l rest last)
    (hdone : l.worker.isDone = false)
    (hworker : l'.worker = { l.worker with waiting := l.worker.waiting ++ [operation] }) :
    Stage l' (rest ++ [operation]) last := by
  have hwaiting : l'.worker.waiting = l.worker.waiting ++ [operation] := by rw [hworker]
  cases h with
  | idle hd hc =>
    rw [← hwaiting]
    exact .idle (by rw [hworker]; exact hd) (by rw [hworker]; exact hc)
  | busy hd hc =>
    rw [List.cons_append, ← hwaiting]
    exact .busy (by rw [hworker]; exact hd) (by rw [hworker]; exact hc)
  | dead hd => simp [hdone] at hd

/-- Whatever is done at a link, its worker goes on with its jobs in order. -/
theorem Executes.step {new : List Work} (h : Executes l.id l works jobs rest last)
    (hnew : Advances l l' new) :
    ∃ jobs rest last, Executes l.id l' (works ++ new) jobs rest last := by
  obtain ⟨hfits, hstage, htaken, hdone⟩ := h
  cases hnew with
  | nothing hd hw hc =>
    rw [List.append_nil]
    exact ⟨jobs, rest, last, hfits, hstage.same hd hw hc, htaken, hdone⟩
  | refuses _ hsame =>
    subst hsame
    exact ⟨jobs, rest, last, hfits, hstage, by simp [htaken, Work.taken?],
      by simp [hdone, Work.isOwn]⟩
  | @takes operation hd hworker =>
    exact ⟨jobs, rest ++ [operation], last, hfits, hstage.takes hd hworker,
      by simp [htaken, Work.taken?], by simp [hdone, Work.isOwn]⟩
  | begins hd hc hw hd' hc' =>
    cases hstage with
    | idle =>
      have hbusy := Stage.busy hd' hc'
      rw [← hw] at hbusy
      exact ⟨jobs, _, _, hfits, hbusy, by simp [htaken, Work.taken?], by simp [hdone, Work.isOwn]⟩
    | busy _ hother => simp [hc] at hother
    | dead hother => simp [hd] at hother
  | @returns operation flight outcome hc houtcome hworker =>
    cases hstage with
    | idle _ hnone | dead _ hnone => simp [hc] at hnone
    | busy hd hc' =>
      obtain ⟨rfl, rfl⟩ := Prod.mk.inj (Option.some.inj (hc.symm.trans hc'))
      refine ⟨jobs ++ [⟨operation, flight.answer, outcome⟩], l'.worker.waiting, [], ?_,
        .idle (by rw [hworker]; exact hd) (by rw [hworker]), ?_, ?_⟩
      · intro j hj
        rcases List.mem_append.mp hj with hj | hj
        · exact hfits j hj
        · rw [List.mem_singleton.mp hj]
          exact houtcome
      · simp [htaken, hworker, Work.taken?]
      · simp [hdone, Job.works, Work.isOwn]
  | @crashes operation flight hc hcrash hworker =>
    cases hstage with
    | idle _ hnone | dead _ hnone => simp [hc] at hnone
    | busy hd hc' =>
      obtain ⟨rfl, rfl⟩ := Prod.mk.inj (Option.some.inj (hc.symm.trans hc'))
      have hdead : Stage l' (operation :: l.worker.waiting)
          [.began operation flight.answer, .ended operation flight.answer] :=
        .dead (by rw [hworker]; rfl) (by rw [hworker]; rfl) (by rw [hworker]; rfl) hcrash
      exact ⟨jobs, _, _, hfits, hdead, by simp [htaken, Work.taken?], by simp [hdone, Work.isOwn]⟩

/-! ## The death of a worker -/

/-- A worker is dead if and only if a call has crashed. -/
theorem Executes.isDone_eq (h : Executes id l works jobs rest last) :
    l.worker.isDone = works.any Work.isCrash := by
  have hjobs : (jobs.flatMap (Job.works id)).any Work.isCrash = false := by
    simp only [List.any_eq_false, List.mem_flatMap, Job.works, List.mem_cons]
    rintro work ⟨j, hj, rfl | rfl | rfl | hnone⟩
    · simp [Work.isCrash]
    · simpa [Work.isCrash] using (h.fits j hj).ending_ne_crash
    · simp [Work.isCrash]
    · simp at hnone
  have hall : works.any Work.isCrash = (works.filter Work.isOwn).any Work.isCrash := by
    rw [List.any_filter]
    congr 1
    funext work
    cases work <;> simp [Work.isOwn, Work.isCrash]
  rw [hall, h.done, List.any_append, hjobs, Bool.false_or]
  cases h.stage with
  | idle hd | busy hd => simp [hd, Work.isCrash]
  | dead hd _ _ hcrash => simp [hd, Work.isCrash, hcrash]

/-- Operations are refused exactly after a crash, and nothing else happens then. -/
def EndsInCrash (works : List Work) : Prop :=
  ∀ earlier work later, works = earlier ++ work :: later →
    earlier.any Work.isCrash = work.isRefused

/-- One work more, which is refused if there has been a crash. -/
theorem EndsInCrash.concat {work : Work} (h : EndsInCrash works)
    (hwork : works.any Work.isCrash = work.isRefused) : EndsInCrash (works ++ [work]) := by
  intro earlier other later hsplit
  rcases concat_eq_split hsplit with ⟨rfl, rfl⟩ | ⟨rest, hrest⟩
  · exact hwork
  · exact h earlier other rest hrest

/-- The works of a deed keep to this. -/
theorem EndsInCrash.step {new : List Work} (h : EndsInCrash works)
    (hworks : Executes l.id l works jobs rest last) (hnew : Advances l l' new) :
    EndsInCrash (works ++ new) := by
  have hdead := hworks.isDone_eq
  have hbusy {c : Operation × Flight} (hc : l.worker.current = some c) :
      works.any Work.isCrash = false := by
    rw [← hdead]
    cases hworks.stage with
    | idle _ hnone | dead _ hnone => simp [hc] at hnone
    | busy hd => exact hd
  cases hnew with
  | nothing => rwa [List.append_nil]
  | refuses hd => exact h.concat (hdead.symm.trans hd)
  | takes hd | begins hd => exact h.concat (hdead.symm.trans hd)
  | crashes hc => exact h.concat (hbusy hc)
  | @returns operation flight outcome hc hfits =>
    have hended : (works ++ [Work.ended operation flight.answer]).any Work.isCrash = false := by
      rw [List.any_append, hbusy hc]
      simpa [Work.isCrash] using hfits.ending_ne_crash
    have hall : works ++ [.ended operation flight.answer, .posted l.id outcome] =
        (works ++ [Work.ended operation flight.answer]) ++ [.posted l.id outcome] := by simp
    rw [hall]
    have hreturned : EndsInCrash (works ++ [Work.ended operation flight.answer]) :=
      h.concat (hbusy hc)
    exact hreturned.concat hended

/-! ## Calls -/

/-- The operations that have begun, with the answers that their calls get. -/
def begunOperations (past : List Instant) : List (Operation × Answer) :=
  (worksOf past).filterMap Work.began?

/-- At most one operation begins in an instant, and its call gets the next answer. -/
theorem Instant.works_began (i : Instant) :
    i.works.filterMap Work.began? =
      (((i.link.call? i.deed).bind LinkCall.operation?).map fun operation =>
        (operation, (i.link.script.next (.run operation.kind)).1)).toList := by
  obtain ⟨time, l, deed, output⟩ := i
  have hposted : (match output.event with
      | some (.outcome connection outcome) => [Work.posted connection outcome]
      | _ => []).filterMap Work.began? = [] := by
    split <;> simp [Work.began?]
  rw [works, List.filterMap_append, hposted, List.append_nil]
  cases deed with
  | submit operation =>
    dsimp only
    split <;> simp [Work.began?, call?]
  | stopPolls | resume | wait => simp [call?]
  | move move =>
    cases move with
    | beginOperation =>
      cases hwaiting : l.worker.waiting.head? <;>
        simp [call?, hwaiting, LinkCall.operation?, Work.began?]
    | endOperation => cases l.worker.current <;> simp [Work.began?, call?]
    | _ => simp [call?, LinkCall.operation?]

/-- The operations that have begun are those whose calls have begun. -/
theorem Life.ran_eq (h : Life first start past now l) :
    l.ran = first.ran ++ (begunOperations past).map (·.1) := by
  induction h with
  | start => simp [begunOperations, worksOf]
  | @step past now l l' deed output h hdeed ih =>
    have hconcat : begunOperations (past ++ [⟨now, l, deed, output⟩]) =
        begunOperations past ++ (Instant.works ⟨now, l, deed, output⟩).filterMap Work.began? := by
      simp [begunOperations, worksOf]
    rw [hconcat, List.map_append, Instant.works_began, ← List.append_assoc, ← ih, ran, ran,
      (take?_call hdeed).1, List.filterMap_append]
    cases hcall : (l.call? deed) with
    | none => simp
    | some call => cases hoperation : call.operation? <;> simp [hoperation]

/-- The calls of a kind of operation get the answers that the script has for it. -/
theorem begunOperations_answers (kind : Operation.Kind) :
    ((begunOperations past).filter (·.1.kind = kind)).map (·.2) = answersGot (.run kind) past := by
  induction past with
  | nil => rfl
  | cons i past ih =>
    have hcons : begunOperations (i :: past) =
        i.works.filterMap Work.began? ++ begunOperations past := by
      simp [begunOperations, worksOf]
    rw [hcons, List.filter_append, List.map_append, ih, answersGot, answersGot,
      List.filterMap_cons, Instant.works_began, Instant.answer?]
    cases hcall : i.link.call? i.deed with
    | none => simp
    | some call =>
      cases call with
      | run operation =>
        by_cases hkind : operation.kind = kind <;>
          simp [LinkCall.operation?, LinkCall.kind, hkind]
      | poll | close => simp [LinkCall.operation?, LinkCall.kind]

/-- The worker of a link does its jobs in order until a call crashes. -/
theorem Life.executes (h : Life first start past now l) (hnew : first.worker = {}) :
    ∃ jobs rest last, Executes first.id l (worksOf past) jobs rest last ∧
      EndsInCrash (worksOf past) := by
  induction h with
  | start =>
    have hidle : Stage first first.worker.waiting [] := .idle (by rw [hnew]) (by rw [hnew])
    rw [hnew] at hidle
    exact ⟨[], [], [], ⟨by simp, hidle, rfl, rfl⟩, by simp [EndsInCrash, worksOf]⟩
  | @step past now l l' deed output h hdeed ih =>
    obtain ⟨jobs, rest, last, hworks, hcrash⟩ := ih
    have hnext := take?_advances hdeed
    have hconcat : worksOf (past ++ [⟨now, l, deed, output⟩]) =
        worksOf past ++ Instant.works ⟨now, l, deed, output⟩ := by simp [worksOf]
    rw [← h.id_eq] at hworks ⊢
    rw [hconcat]
    obtain ⟨jobs', rest', last', hworks'⟩ := hworks.step hnext
    exact ⟨jobs', rest', last', hworks', hcrash.step hworks hnext⟩

/-! ## Runs -/

/-- The worker of a link is a sequential executor, and an agent that finds it dead ends its call.

Whatever is done at a link with a new worker, and however its calls are answered, the operations
that are handed over are done in this order. All that the worker has done is, one job after another,
to begin the operation, to wait for the end of its call and to post the outcome that fits, under the
name of the link; it may be at the next operation, or dead of it. What begins are the calls of the
link, and they get the answers that the script has for them. A worker with something to do does not
stall. Exactly after the first crash operations are refused, and nothing else happens with
operations then. When a step of an agent has an operation refused, the same step ends the call: it
tells that the call has failed and leaves no message to be sent. -/
theorem run_executor (h : Life first start past now l) (hnew : first.worker = {}) :
    (∃ jobs rest last, Executes first.id l (worksOf past) jobs rest last) ∧
    EndsInCrash (worksOf past) ∧
    (l.ran = first.ran ++ (begunOperations past).map (·.1) ∧
      ∀ kind, ∃ n, ((begunOperations past).filter (·.1.kind = kind)).map (·.2) =
        answersFrom first.script (.run kind) n) ∧
    (∀ operation rest, l.worker.current = none → l.worker.waiting = operation :: rest →
      (l.take? now (.move .beginOperation)).isSome) ∧
    (∀ operation flight, l.worker.current = some (operation, flight) → flight.isDue now = true →
      (l.take? now (.move .endOperation)).isSome) ∧
    ∀ settings script event r id i,
      let a := (Agent.run settings script {}).1
      i < (Agent.submitted id (a.step settings r.willing event).2).length →
      r.isDead i id = true →
      Agent.told (a.step settings r event).2 =
          (if a.live.isSome then [] else [.phase .connecting]) ++ failedEnd .closed ∧
        (a.step settings r event).1.live = none ∧ (a.step settings r event).1.call = {} := by
  obtain ⟨jobs, rest, last, hworks, hcrash⟩ := h.executes hnew
  refine ⟨⟨jobs, rest, last, hworks⟩, hcrash, ⟨h.ran_eq, fun kind => ?_⟩,
    fun operation waiting hcurrent hwaiting => ?_, fun operation flight hcurrent hdue => ?_,
    fun settings script event r id i => ?_⟩
  · rw [begunOperations_answers]
    exact ⟨_, (h.answers (.run kind)).1⟩
  · have hdone : l.worker.isDone = false := by
      cases hworks.stage with
      | idle hd | busy hd => exact hd
      | dead _ _ hnone => simp [hwaiting] at hnone
    simp [take?, perform, Link.beginOperation, hcurrent, hwaiting, hdone]
  · simp only [take?, perform, Link.endOperation, hcurrent, hdue, if_true]
    split <;> rfl
  · exact Agent.step_refused (Agent.coherent_run script)

/-- A link on which each call is answered in another way. The second candidate is too much. -/
def failing : Link where
  id := 3
  script := { answers := [
    (.run .createOffer, [{ delayMs := 1 }]),
    (.run .setLocal, [{ isHeld := true, ending := .fail .closed }]),
    (.run .addCandidate, [{ ending := .fail (.candidate "full") }, { ending := .crash }])] }

/-- A candidate that is handed over twice. -/
def candidateTwice : Candidate := ⟨"candidate:1", none, none⟩

/-- Operations are handed over while the worker is busy, and one when it is dead. -/
def failingDeeds : List Deed :=
  [.submit .createOffer, .move .beginOperation, .submit (.setLocal ⟨.offer, "v=0"⟩), .wait,
    .move .endOperation, .move .beginOperation, .submit (.addCandidate candidateTwice),
    .submit (.addCandidate candidateTwice), .submit .createAnswer, .resume, .move .endOperation,
    .move .beginOperation, .move .endOperation, .move .beginOperation, .move .endOperation,
    .submit .createOffer]

/-- Four operations begin and three outcomes are posted. An agent that has called finds the worker
dead when its offer is ready, and nothing is left of the offer that it has queued. -/
theorem executor_failingLink :
    let a := (Agent.run Settings.default [(.command (.connect "bob"), {})] {}).1
    let r : Replies := { isDead := fun _ _ => true }
    let event := Event.outcome 1 (.localReady ⟨.offer, "v=0"⟩)
    ∃ past l, Life failing 0 past 1 l ∧ failing.worker = {} ∧
      (∃ jobs rest last, Executes 3 l (worksOf past) jobs rest last) ∧
      l.worker.isDone = true ∧ (past.filter (·.output.event.isSome)).length = 3 ∧
      (begunOperations past).map (·.1) = [.createOffer, .setLocal ⟨.offer, "v=0"⟩,
        .addCandidate candidateTwice, .addCandidate candidateTwice] ∧
      0 < (Agent.submitted 1 (a.step Settings.default r.willing event).2).length ∧
      r.isDead 0 1 = true ∧
      Agent.told (a.step Settings.default r event).2 = failedEnd .closed ∧
      (a.step Settings.default r event).1.call = {} := by
  intro a r event
  have hplayed : (failing.play 0 failingDeeds).map (fun x => (x.2.1, x.2.2.worker.isDone,
      (x.1.filter (·.output.event.isSome)).length, (begunOperations x.1).map (·.1))) =
        some (1, true, 3, [.createOffer, .setLocal ⟨.offer, "v=0"⟩, .addCandidate candidateTwice,
          .addCandidate candidateTwice]) := by
    decide +kernel
  obtain ⟨⟨past, now, l⟩, hplay, hstate⟩ := Option.map_eq_some_iff.mp hplayed
  simp only [Prod.mk.injEq] at hstate
  obtain ⟨rfl, hdone, hposted, hbegan⟩ := hstate
  have hlife : Life failing 0 past 1 l := Life.start.play hplay
  obtain ⟨hworks, -, -, -, -, hagent⟩ := run_executor hlife rfl
  have hasked : 0 < (Agent.submitted 1 (a.step Settings.default r.willing event).2).length := by
    decide +kernel
  have hlive : a.live.isSome = true := by decide +kernel
  obtain ⟨htold, -, hcall⟩ :=
    hagent Settings.default [(.command (.connect "bob"), {})] event r 1 0 hasked rfl
  rw [if_pos hlive] at htold
  exact ⟨past, l, hlife, rfl, hworks, hdone, hposted, hbegan, hasked, rfl, htold, hcall⟩

end Link

end PeerCall
