import PeerCall.Link.Script
import PeerCall.Proofs.Agent.Ending
import PeerCall.Proofs.Agent.Operations

/-!
# What the user is told

The user sees the phases of the call as a path through a small graph, which ends where the agent
stands. Tracks and records are shown only in the phases to which they belong. A call ends within
one step, and the user is told whether it has failed.
-/

namespace PeerCall

/-- The phases that may follow a phase. -/
def Phase.next : Phase → List Phase
  | .idle => [.awaitingSignIn, .connecting]
  | .awaitingSignIn => [.idle]
  | .connecting => [.haveLocalOffer, .haveRemoteOffer, .closing]
  | .haveLocalOffer => [.connected, .closing]
  | .haveRemoteOffer => [.connected, .closing]
  | .connected => [.closing]
  | .closing => [.closed, .idle]
  | .closed => [.idle]

/-- Every call can end, from each of its phases. -/
theorem Phase.closing_mem_next {phase : Phase} (h : phase.isLive = true) :
    .closing ∈ phase.next := by
  cases phase <;> first | exact absurd h Bool.false_ne_true | simp [next]

/-- No phase follows itself. -/
theorem Phase.ne_of_mem_next {phase other : Phase} (h : other ∈ phase.next) : phase ≠ other := by
  rintro rfl
  cases phase <;> simp [next] at h

/-- What an effect tells the user. -/
def Effect.notice? : Effect → Option Notice
  | .notify notice => some notice
  | _ => none

namespace Notice

/-- The phase that a notice names. -/
def phase? : Notice → Option Phase
  | .phase p => some p
  | _ => none

/-- A notice may be given in a phase: the next phase, a track during a call, a record while the
call stands, the failure of a call that is closing, and the failure of a sign-in at any time. -/
def Fits (p : Phase) : Notice → Prop
  | .phase q => q ∈ p.next
  | .trackAdded _ | .trackRemoved _ => p.isLive = true
  | .record _ => p = .connected
  | .callFailed _ => p = .closing
  | .signInFailed _ => True

/-- Whether a notice speaks of the end of a call. -/
def IsFarewell : Notice → Prop
  | .phase p => p = .closing ∨ p = .closed
  | .callFailed _ => True
  | _ => False

end Notice

/-- The notices of a call that ends without a failure. -/
def calmEnd : List Notice := [.phase .closing, .phase .closed, .phase .idle]

/-- The notices of a call that fails. -/
def failedEnd (error : LinkError) : List Notice :=
  [.phase .closing, .callFailed error.message, .phase .idle]

/-- The phases that notices name. -/
def phasesOf (notices : List Notice) : List Phase := notices.filterMap Notice.phase?

/-- The last phase that notices name, or else the one before them. -/
def phaseAfter (p : Phase) (notices : List Notice) : Phase := (phasesOf notices).getLastD p

/-- Each notice fits the phase in which the notices before it leave the call. -/
def Orderly (p : Phase) (notices : List Notice) : Prop :=
  ∀ earlier notice later, notices = earlier ++ notice :: later → notice.Fits (phaseAfter p earlier)

/-- Orderly notices that lead from a phase to a phase. -/
structure Leads (p : Phase) (notices : List Notice) (q : Phase) : Prop where
  orderly : Orderly p notices
  phaseAfter_eq : phaseAfter p notices = q

/-- No operation with a candidate is reported as failed. -/
theorem Answer.kind_ne_addCandidate {answer : Answer} {operation : Operation}
    {kind : Operation.Kind} {error : LinkError}
    (h : answer.outcome? operation = some (.failed kind error)) : kind ≠ .addCandidate := by
  rintro rfl
  cases operation <;> cases hending : answer.ending <;>
    simp [outcome?, hending, Operation.kind] at h

/-! ## Orderly notices -/

variable {p q s : Phase} {notice : Notice} {notices : List Notice}

/-- The notices after the first start from the phase that it names. -/
theorem phaseAfter_cons (notice : Notice) (notices : List Notice) :
    phaseAfter p (notice :: notices) = phaseAfter (notice.phase?.getD p) notices := by
  cases notice with
  | phase q => exact List.getLastD_cons
  | _ => rfl

/-- Notices are orderly if the first fits and the others are orderly after it. -/
theorem orderly_cons :
    Orderly p (notice :: notices) ↔
      notice.Fits p ∧ Orderly (notice.phase?.getD p) notices := by
  constructor
  · intro h
    refine ⟨h [] notice notices rfl, fun earlier other later hsplit => ?_⟩
    rw [← phaseAfter_cons]
    exact h (notice :: earlier) other later (by rw [hsplit]; rfl)
  · rintro ⟨hfits, hrest⟩ earlier other later hsplit
    cases earlier with
    | nil =>
      obtain ⟨rfl, -⟩ := List.cons.inj hsplit
      exact hfits
    | cons first earlier =>
      obtain ⟨rfl, hrestsplit⟩ := List.cons.inj hsplit
      rw [phaseAfter_cons]
      exact hrest earlier other later hrestsplit

/-- Without notices the phase stays. -/
@[simp] theorem leads_nil : Leads p [] q ↔ p = q := by
  refine ⟨fun h => h.phaseAfter_eq, fun h => ⟨fun earlier notice later hsplit => ?_, h⟩⟩
  simp at hsplit

/-- The first notice leads to the phase from which the others go on. -/
@[simp] theorem leads_cons :
    Leads p (notice :: notices) q ↔ notice.Fits p ∧ Leads (notice.phase?.getD p) notices q := by
  constructor
  · rintro ⟨horderly, hafter⟩
    obtain ⟨hfits, hrest⟩ := orderly_cons.mp horderly
    exact ⟨hfits, hrest, (phaseAfter_cons notice notices).symm.trans hafter⟩
  · rintro ⟨hfits, hrest, hafter⟩
    exact ⟨orderly_cons.mpr ⟨hfits, hrest⟩, (phaseAfter_cons notice notices).trans hafter⟩

/-- Notices that lead on from each other lead from the first phase to the last. -/
theorem Leads.append {first second : List Notice} (h : Leads p first q)
    (hnext : Leads q second s) : Leads p (first ++ second) s := by
  induction first generalizing p with
  | nil =>
    obtain rfl := leads_nil.mp h
    exact hnext
  | cons notice first ih =>
    obtain ⟨hfits, hrest⟩ := leads_cons.mp h
    exact leads_cons.mpr ⟨hfits, ih hrest⟩

/-- The phases that orderly notices name are a path. -/
theorem Orderly.isChain (h : Orderly p notices) :
    (p :: phasesOf notices).IsChain (fun p q => q ∈ p.next) := by
  induction notices generalizing p with
  | nil => exact .singleton p
  | cons notice notices ih =>
    obtain ⟨hfits, hrest⟩ := orderly_cons.mp h
    cases notice with
    | phase q => exact .cons_cons hfits (ih hrest)
    | _ => exact ih hrest

/-- A call can end calmly from each of its phases, -/
theorem leads_calmEnd (h : p.isLive = true) : Leads p calmEnd .idle := by
  refine leads_cons.mpr ⟨Phase.closing_mem_next h, ?_⟩
  simp [Notice.Fits, Notice.phase?, Phase.next]

/-- and it can fail in each of them. -/
theorem leads_failedEnd (h : p.isLive = true) (error : LinkError) :
    Leads p (failedEnd error) .idle := by
  refine leads_cons.mpr ⟨Phase.closing_mem_next h, ?_⟩
  simp [Notice.Fits, Notice.phase?, Phase.next]

namespace Agent

variable {settings : Settings} {a : Agent} {r : Replies} {event : Event}
  {x : Agent × List Effect} {l : Live}

/-- What some effects tell the user, in order. -/
def told (effects : List Effect) : List Notice := effects.filterMap Effect.notice?

/-- What is told comes one after another. -/
theorem told_append (first second : List Effect) :
    told (first ++ second) = told first ++ told second := by
  simp [told]

/-- Sending tells the user nothing. -/
theorem told_flush : told (finish (a.flush r)).2 = [] :=
  filterMap_flush (fun _ _ _ => rfl) fun _ => rfl

/-- A call that ends without a failure is told of as a calm end, -/
theorem told_parting_none : told (a.parting none) = calmEnd := by
  cases hp : a.polled <;> cases hl : a.live <;>
    simp [told, parting, hp, hl, Effect.notice?, List.filterMap_cons, calmEnd]

/-- and one that ends with a failure as a failed one. -/
theorem told_parting_some {error : LinkError} :
    told (a.parting (some error.message)) = failedEnd error := by
  cases hp : a.polled <;> cases hl : a.live <;>
    simp [told, parting, hp, hl, Effect.notice?, List.filterMap_cons, failedEnd]

/-- What is handed over or noted before a failure is not told. -/
theorem told_failure {α : Type} {f : α → Effect} (hf : ∀ y, (f y).notice? = none) (done : List α)
    (error : LinkError) :
    told (done.map f ++ .warn (.fatal error) :: a.parting (some error.message)) =
      failedEnd error := by
  have hdone : told (done.map f) = [] := filterMap_map_eq_nil hf done
  rw [told_append, hdone]
  exact told_parting_some

/-! ## Steps -/

/-- What a step tells the user, and whether it ends the call. -/
inductive Shows (settings : Settings) (r : Replies) (a : Agent) (event : Event)
    (x : Agent × List Effect) : Prop
  | goesOn (huneventful : Uneventful settings r a event)
      (hleads : Leads a.call.phase (told x.2) x.1.call.phase)
      (htold : ∀ notice ∈ told x.2, ¬notice.IsFarewell) (hlive : a.live.isSome → x.1.live.isSome)
  | departs (hdeparts : Departs a event) (htold : told x.2 = calmEnd) (hlive : x.1.live = none)
      (hphase : x.1.call.phase = .idle)
  | strikes {error : LinkError} (hstrikes : Strikes settings r a event error)
      (htold : told x.2 =
        (if a.live.isSome then [] else [.phase .connecting]) ++ failedEnd error)
      (hlive : x.1.live = none) (hphase : x.1.call.phase = .idle)

/-- A step of a call that goes on and tells at most one notice. -/
theorem shows_of_live {l' : Live} (notice : Option Notice)
    (huneventful : Uneventful settings r a event) (hlive : x.1.live = some l')
    (htold : told x.2 = notice.toList) (hleads : Leads a.call.phase notice.toList x.1.call.phase)
    (hgoesOn : ∀ n ∈ notice, ¬n.IsFarewell) : Shows settings r a event x := by
  refine .goesOn huneventful (htold ▸ hleads) ?_ (by simp [hlive])
  rw [htold]
  simpa using hgoesOn

/-- A step of a call that goes on and only sends what waits. -/
theorem shows_of_flush {b : Agent} {l' : Live} (huneventful : Uneventful settings r a event)
    (hlive : b.live = some l') (hphase : b.call.phase = a.call.phase) :
    Shows settings r a event (finish (b.flush r)) := by
  refine shows_of_live none huneventful (flush_live.trans hlive) told_flush ?_ (by simp)
  rw [flush_phase, hphase]
  exact leads_nil.mpr rfl

/-- A step without a call that tells what it does to the sign-in. -/
theorem shows_of_free (hl : a.live = none)
    (hopening : a.call.phase = .idle → a.opening settings event = none)
    (hleads : Leads a.call.phase (told x.2) x.1.call.phase)
    (htold : ∀ notice ∈ told x.2, ¬notice.IsFarewell) : Shows settings r a event x := by
  refine .goesOn (uneventful_of_free hl fun _ hphase peer offer hopens => ?_) hleads htold
    (by simp [hl])
  simp [hopening hphase] at hopens

/-- Every stride of a running agent tells the user of its event in one of these ways. -/
theorem Stride.shows (ha : a.Coherent) (hrun : a.isRunning = true)
    (hx : Stride settings r a event x) : Shows settings r a event x := by
  have hwarned (warnings : List Warning) : told (warnings.map .warn) = [] :=
    filterMap_map_eq_nil (fun _ => rfl) warnings
  cases hx with
  | quiet hignores =>
    refine .goesOn (uneventful_of_ignores ha hignores) ?_ ?_ id <;> simp [hwarned]
  | @trackAdded _ track hl =>
    obtain ⟨hphase, -⟩ := ha.call_of_live hl
    exact shows_of_live (some (.trackAdded track)) (uneventful_of_plain ha hl rfl) hl rfl
      (leads_cons.mpr ⟨hphase, leads_nil.mpr rfl⟩) (by simp [Notice.IsFarewell])
  | @trackRemoved _ track hl =>
    obtain ⟨hphase, -⟩ := ha.call_of_live hl
    exact shows_of_live (some (.trackRemoved track)) (uneventful_of_plain ha hl rfl) hl rfl
      (leads_cons.mpr ⟨hphase, leads_nil.mpr rfl⟩) (by simp [Notice.IsFarewell])
  | @records _ records hl hphase =>
    have htold : told (records.map fun x => .notify (.record x)) = records.map .record := by
      simp [told, List.filterMap_map, Function.comp_def, Effect.notice?]
    have hleads (records : List Metrics.Record) :
        Leads .connected (records.map .record) .connected := by
      induction records with
      | nil => exact leads_nil.mpr rfl
      | cons record records ih => exact leads_cons.mpr ⟨rfl, ih⟩
    refine .goesOn (uneventful_of_plain ha hl rfl) ?_ ?_ id
    · rw [htold, hphase]
      exact hleads records
    · simp [htold, Notice.IsFarewell]
  | signIn hphase =>
    refine shows_of_free (ha.live_of_idle hphase) (fun _ => rfl) ?_ ?_ <;>
      simp [told, hphase, Effect.notice?, Notice.Fits, Notice.phase?, Notice.IsFarewell, Phase.next,
        List.filterMap_cons]
  | signInRefused hphase =>
    refine shows_of_free (ha.live_of_idle hphase) (fun _ => rfl) ?_ ?_ <;>
      simp [told, Effect.notice?, Notice.Fits, Notice.phase?, Notice.IsFarewell,
        List.filterMap_cons]
  | signedIn hl =>
    refine shows_of_free hl (fun _ => rfl) ?_ ?_ <;>
      rcases (ha.free hl).2.2 with hphase | hphase <;>
      simp [told, hphase, Effect.notice?, Notice.Fits, Notice.phase?, Notice.IsFarewell, Phase.next]
  | signedOut hl hcommand =>
    refine shows_of_free hl (fun _ => ?_) ?_ ?_
    · rcases hcommand with rfl | rfl <;> rfl
    all_goals
      rcases (ha.free hl).2.2 with hphase | hphase <;>
      cases a.isSignedIn <;>
      simp [told, hphase, Effect.notice?, Notice.Fits, Notice.phase?, Notice.IsFarewell,
        Phase.next, List.filterMap_cons]
  | @signInFailed reason =>
    rcases Option.eq_none_or_eq_some a.live with hl | ⟨l, hl⟩
    · refine shows_of_free hl (fun _ => rfl) ?_ ?_ <;>
        rcases (ha.free hl).2.2 with hphase | hphase <;>
        simp [told, hphase, Effect.notice?, Notice.Fits, Notice.phase?, Notice.IsFarewell,
          Phase.next, List.filterMap_cons]
    · obtain ⟨hphase, -⟩ := ha.call_of_live hl
      have hsigned : a.call.phase ≠ .awaitingSignIn := by
        intro h
        simp [h, Phase.isLive] at hphase
      refine shows_of_live (some (.signInFailed reason)) (uneventful_of_plain ha hl rfl) hl ?_ ?_
        (by simp [Notice.IsFarewell])
      · simp [told, hsigned, Effect.notice?, List.filterMap_cons]
      · simp [hsigned, Notice.Fits, Notice.phase?]
  | @opened _ peer offer hphase hopening hreply htakes =>
    have huneventful : Uneventful settings r a event := by
      refine uneventful_of_free (ha.live_of_idle hphase) fun _ _ peer' offer' hopens => ?_
      obtain ⟨-, rfl⟩ := Prod.mk.inj (Option.some.inj (hopening.symm.trans hopens))
      exact ⟨hreply, htakes⟩
    refine .goesOn huneventful ?_ ?_ (by simp [ha.live_of_idle hphase]) <;>
      cases offer <;>
      simp [told, Agent.opened, openingOperations, hphase, Effect.notice?, Notice.Fits,
        Notice.phase?, Notice.IsFarewell, Phase.next, List.filterMap_cons]
  | notCreated hphase hopening hreply =>
    have hl := ha.live_of_idle hphase
    refine .strikes (.creation hrun hphase hopening hreply) ?_ hl hphase
    rw [hl, Option.isSome_none, if_neg Bool.false_ne_true]
    exact congrArg (List.cons _) told_parting_some
  | notOpened hphase hopening hreply hsplit hdead =>
    have hl := ha.live_of_idle hphase
    refine .strikes (.newWorker hrun hphase hopening hreply ?_) ?_ hl hphase
    · exact Replies.not_takes (by simp [hsplit]) hdead
    · rw [hl, Option.isSome_none, if_neg Bool.false_ne_true]
      exact congrArg (List.cons _) (told_failure (fun _ => rfl) _ .closed)
  | offerAccepted hl hpeer hdecode hphase hkind htakes =>
    refine shows_of_live (some (.phase .haveRemoteOffer))
      (uneventful_of_asks ha hl hpeer (.offer hdecode hphase hkind) htakes) hl rfl ?_
      (by simp [Notice.IsFarewell])
    simp [hphase, Notice.Fits, Notice.phase?, Phase.next]
  | answerAccepted hl hpeer hdecode hphase hkind htakes =>
    refine shows_of_live (some (.phase .connected))
      (uneventful_of_asks ha hl hpeer (.answer hdecode hphase hkind) htakes) hl rfl ?_
      (by simp [Notice.IsFarewell])
    simp [hphase, Notice.Fits, Notice.phase?, Phase.next]
  | @candidateKept _ peer text _ hl hpeer hdecode hset =>
    have huneventful : Uneventful settings r a (.bus (.message peer text)) := by
      refine uneventful_of_live ha hl hpeer rfl (not_leaves_of_content hdecode (by simp))
        (by rintro _ _ ⟨⟩) fun operations hasks => ?_
      cases hasks <;> simp_all
    exact shows_of_live none huneventful rfl rfl (leads_nil.mpr rfl) (by simp)
  | candidatePassed hl hpeer hdecode hset htakes =>
    exact shows_of_live none (uneventful_of_asks ha hl hpeer (.candidate hdecode hset) htakes) hl
      rfl (leads_nil.mpr rfl) (by simp)
  | released hl htakes =>
    obtain ⟨-, peer, hpeer⟩ := ha.call_of_live hl
    refine shows_of_live none (uneventful_of_asks ha hl hpeer .release ?_) rfl ?_
      (leads_nil.mpr rfl) (by simp)
    · rw [List.length_map]
      exact htakes
    · exact filterMap_map_eq_nil (fun _ => rfl) _
  | flushed hl hevent =>
    refine shows_of_flush (uneventful_of_plain ha hl ?_) hl rfl
    rcases hevent with rfl | ⟨other, rfl⟩ <;> rfl
  | signedInDuringCall hl => exact shows_of_flush (uneventful_of_plain ha hl rfl) hl rfl
  | ownCandidate hl => exact shows_of_flush (uneventful_of_plain ha hl rfl) rfl rfl
  | offerMade hl hphase hkind htakes =>
    obtain ⟨-, peer, hpeer⟩ := ha.call_of_live hl
    rw [finish_after]
    refine shows_of_live (some (.phase .haveLocalOffer))
      (uneventful_of_asks ha hl hpeer (.localOffer hphase hkind) htakes) (flush_live.trans hl) ?_ ?_
      (by simp [Notice.IsFarewell])
    · rw [told_append, told_flush]
      rfl
    · simp [hphase, Notice.Fits, Notice.phase?, Phase.next]
  | answerMade hl hphase hkind htakes =>
    obtain ⟨-, peer, hpeer⟩ := ha.call_of_live hl
    rw [finish_after]
    refine shows_of_live (some (.phase .connected))
      (uneventful_of_asks ha hl hpeer (.localAnswer hphase hkind) htakes) (flush_live.trans hl) ?_
      ?_ (by simp [Notice.IsFarewell])
    · rw [told_append, told_flush]
      rfl
    · simp [hphase, Notice.Fits, Notice.phase?, Phase.next]
  | broken hl hpeer hasks hdead =>
    refine .strikes (.worker hl hpeer hasks ?_) ?_ rfl rfl
    · exact Replies.not_takes (by simp) hdead
    · rw [hl, Option.isSome_some, if_pos rfl]
      exact told_failure (fun _ => rfl) _ .closed
  | @failed l _ noted error hl hfailure =>
    refine .strikes (.link hl hfailure) ?_ rfl rfl
    rw [hl, Option.isSome_some, if_pos rfl]
    exact told_failure (fun _ => rfl) noted error
  | left hl hpeer hleaves => exact .departs (.leaves hl hpeer hleaves) told_parting_none rfl rfl
  | hungUp hl => exact .departs (.hangsUp hl rfl) told_parting_none rfl rfl
  | closed hl _ hcommand =>
    refine .departs (.hangsUp hl ?_) ?_ rfl rfl
    · rcases hcommand with rfl | rfl <;> rfl
    · have hrest : told (if a.isSignedIn then [.signOut] else []) = [] := by
        split <;> rfl
      change told (a.parting none ++ _) = _
      rw [told_append, told_parting_none, hrest, List.append_nil]

/-- Every step tells the user of its event in one of these ways. -/
theorem step_shows (ha : a.Coherent) (event : Event) (r : Replies) :
    Shows settings r a event (a.step settings r event) := by
  cases hrun : a.isRunning with
  | true => exact (step_stride ha event).shows ha hrun
  | false =>
    have hstopped : a.step settings r event = (a, []) := by simp [step, hrun]
    rw [hstopped]
    refine .goesOn (uneventful_of_free (ha.stopped hrun).1 (by simp [hrun])) ?_ ?_ id
    · exact leads_nil.mpr rfl
    · simp [told]

/-- So the notices of a step lead on from the phase before it. -/
theorem Shows.leads (ha : a.Coherent) (hx : Shows settings r a event x) :
    Leads a.call.phase (told x.2) x.1.call.phase := by
  cases hx with
  | goesOn _ hleads => exact hleads
  | departs hdeparts htold _ hphase =>
    rw [htold, hphase]
    cases hdeparts with
    | hangsUp hl | leaves hl => exact leads_calmEnd (ha.call_of_live hl).1
  | strikes hstrikes htold _ hphase =>
    rw [htold, hphase]
    cases hstrikes with
    | creation _ hidle | newWorker _ hidle =>
      rw [ha.live_of_idle hidle, hidle]
      simp only [Option.isSome_none, Bool.false_eq_true, if_false, List.cons_append,
        List.nil_append, leads_cons]
      exact ⟨by simp [Notice.Fits, Phase.next], leads_failedEnd rfl _⟩
    | link hl | worker hl =>
      rw [hl]
      exact leads_failedEnd (ha.call_of_live hl).1 _

/-! ## Runs -/

/-- What a run tells leads from the idle phase to the phase of the agent. -/
theorem run_leads (script : List (Event × Replies)) :
    Leads .idle (told (effectsOf (history settings script {})))
      (run settings script {}).1.call.phase := by
  refine (run_induction (p := fun past a => Leads .idle (told (effectsOf past)) a.call.phase)
    (leads_nil.mpr rfl) (fun past a event r ha hpast => ?_) script).2
  rw [effectsOf_append, told_append]
  exact hpast.append ((step_shows ha event r).leads ha)

/-- In every run, the phases that the user is told are a path from idle to the phase of the agent,
and every other notice fits the phase in which it is given: tracks are shown during a call, and
records while it stands. A step ends the call calmly exactly when the user, the peer or the link
does so, it lets the call fail exactly when an error of the link strikes, and it tells nothing of an
end otherwise. A candidate that is rejected is no such error. -/
theorem run_told (settings : Settings) (script : List (Event × Replies)) :
    let past := history settings script {}
    let notices := told (effectsOf past)
    (.idle :: phasesOf notices).IsChain (fun p q => q ∈ p.next ∧ p ≠ q) ∧
      (phasesOf notices).getLastD .idle = (run settings script {}).1.call.phase ∧
      Orderly .idle notices ∧
      (∀ m ∈ past,
        (m.before.Departs m.event → told m.effects = calmEnd ∧ m.after.live = none) ∧
        (∀ error, Strikes settings m.replies m.before m.event error →
          told m.effects =
              (if m.before.live.isSome then [] else [.phase .connecting]) ++ failedEnd error ∧
            m.after.live = none) ∧
        (Uneventful settings m.replies m.before m.event →
          (∀ notice ∈ told m.effects, ¬notice.IsFarewell) ∧
            (m.before.live.isSome → m.after.live.isSome))) ∧
      ∀ (answer : Answer) (operation : Operation) (kind : Operation.Kind) (error : LinkError),
        answer.outcome? operation = some (.failed kind error) → kind ≠ .addCandidate := by
  intro past notices
  have hleads : Leads .idle notices _ := run_leads script
  refine ⟨?_, hleads.phaseAfter_eq, hleads.orderly, fun m hm => ?_, ?_⟩
  · exact hleads.orderly.isChain.imp fun p q hnext => ⟨hnext, Phase.ne_of_mem_next hnext⟩
  · obtain ⟨a, event, r, ha, rfl⟩ := exists_moment script m hm
    have hshows : Shows settings r a event _ := step_shows ha event r
    refine ⟨fun hdeparts => ?_, fun error hstrikes => ?_, fun huneventful => ?_⟩
    · cases hshows with
      | goesOn hnone => exact absurd hdeparts hnone.1
      | departs _ htold hlive => exact ⟨htold, hlive⟩
      | strikes hstrikes => exact absurd hstrikes (hdeparts.not_strikes ha)
    · cases hshows with
      | goesOn hnone => exact absurd hstrikes (hnone.2 error)
      | departs hdeparts => exact absurd hstrikes (hdeparts.not_strikes ha)
      | strikes hstrikes' htold hlive =>
        rw [hstrikes.unique ha hstrikes']
        exact ⟨htold, hlive⟩
    · cases hshows with
      | goesOn _ _ htold hlive => exact ⟨htold, hlive⟩
      | departs hdeparts => exact absurd hdeparts huneventful.1
      | strikes hstrikes => exact absurd hstrikes (huneventful.2 _)
  · exact fun answer operation kind error => Answer.kind_ne_addCandidate

end Agent

end PeerCall
