import Mathlib.Data.List.TakeWhile
import PeerCall.Proofs.Link.Turns

/-!
# The schedule of polls

A poller that time does not run away from begins its polls at fixed times, whatever becomes of
them. The results of polls are taken one after another, in the order in which the polls have ended,
and each is taken before time goes on. When polling is stopped, no tick is seen and no result is
taken any more. The poller goes away before time goes on, and until then polls that wait may still
begin and those on the way may still end.
-/

namespace PeerCall

namespace Link

variable {first l l' : Link} {start now now' : Nat} {past : List Instant} {deed : Deed}
  {output : Output} {move : Move} {p : Poller}

/-! ## While polling goes on -/

/-- A poller that is on time, whose polls are tracked, and that has processed those that ended
before now. -/
structure Samples (answers : List Answer) (start period now : Nat) (past : List Instant)
    (p : Poller) : Prop where
  onTime : p.OnTime start period now (begunPolls past)
  tracks : p.Tracks (takenResults past) (endedPolls past)
  prompt : resultsOf (endedPolls (past.filter (·.time < now))) <+: takenResults past
  answered : p.Answered answers (endedPolls past)

variable {l₀ : Link} {period : Nat} {begun : List (Nat × Nat)} {answers : List Answer}

/-- Time goes on when nothing can be done about polls. -/
theorem Samples.wait {i : Instant} (h : Samples answers start period now past p)
    (hperiod : 0 < period) (hrest : l.AtRest now) (hp : l.poller = some p)
    (htime : ∀ i ∈ past, i.time ≤ now) (hi : i.time = now) (hdeed : i.deed = .wait) :
    Samples answers start period (now + 1) (past ++ [i]) p := by
  obtain ⟨hon, hdue, hspawned, hresults⟩ := hrest.poller hp
  have hbegun : begunPolls (past ++ [i]) = begunPolls past := by
    simp [begunPolls, Instant.begunPoll?, hdeed]
  have hended : endedPolls (past ++ [i]) = endedPolls past := by
    simp [endedPolls, Instant.endedPoll?, hdeed]
  have htaken : takenResults (past ++ [i]) = takenResults past := by
    simp [takenResults, Instant.taken?, hdeed]
  have hall : (past ++ [i]).filter (·.time < now + 1) = past ++ [i] := by
    refine List.filter_eq_self.mpr fun j hj => ?_
    rcases List.mem_append.mp hj with hj | hj
    · simpa [Nat.lt_succ_iff] using htime j hj
    · simp [List.mem_singleton.mp hj, hi]
  refine ⟨hbegun ▸ h.onTime.wait hperiod hon hdue hspawned,
    by rw [htaken, hended]; exact h.tracks, ?_, by rw [hended]; exact h.answered⟩
  have hresults_eq := h.tracks.results_eq
  rw [hresults, List.append_nil] at hresults_eq
  rw [hall, hended, htaken]
  exact ⟨[], by rw [List.append_nil, hresults_eq]⟩

/-- What a deed does to the poller leaves the time as it is. -/
theorem Samples.turn {i : Instant} {p' : Poller} (h : Samples answers start period now past p)
    (hperiod : 0 < period) (hi : i.time = now)
    (hturn : Poller.Turns now (answers.getD (begunPolls past).length {}) p p' i.begunPoll?
      i.endedPoll? i.taken?) :
    Samples answers start period now (past ++ [i]) p' := by
  have hbefore : (past ++ [i]).filter (·.time < now) = past.filter (·.time < now) := by
    simp [List.filter_append, hi]
  have htaken : takenResults (past ++ [i]) = takenResults past ++ i.taken?.toList :=
    filterMap_concat _ _ _
  have hended : endedPolls (past ++ [i]) = endedPolls past ++ i.endedPoll?.toList :=
    filterMap_concat _ _ _
  have hbegun : begunPolls (past ++ [i]) = begunPolls past ++ i.begunPoll?.toList :=
    filterMap_concat _ _ _
  have hnext : ∀ n ∈ p.spawned,
      answers.getD (begunPolls past).length {} = answers.getD n {} := fun n hn => by
    rw [h.onTime.eq_next hn]
  refine ⟨hbegun ▸ h.onTime.turn hperiod hturn, by rw [htaken, hended]; exact h.tracks.turn hturn,
    ?_, by rw [hended]; exact h.answered.turn hturn hnext⟩
  rw [hbefore, htaken]
  exact h.prompt.trans (List.prefix_append _ _)

/-! ## Stages -/

/-- The time at which polling has ended: that of the first stop, or else now. -/
def pollingEnd (past : List Instant) (now : Nat) : Nat :=
  ((past.find? (·.deed = .stopPolls)).map (·.time)).getD now

/-- The link at the end of polling. -/
def lastPolled (past : List Instant) (l : Link) : Link :=
  ((past.find? (·.deed = .stopPolls)).map (·.link)).getD l

/-- What was done until the end of polling. -/
def untilStop (past : List Instant) : List Instant := past.takeWhile (·.deed ≠ .stopPolls)

/-- Polling ends now where all stops are of now. -/
theorem pollingEnd_eq (htime : ∀ i ∈ past, i.deed = .stopPolls → i.time = now) :
    pollingEnd past now = now := by
  cases hfind : past.find? (·.deed = .stopPolls) with
  | none => rw [pollingEnd, hfind]; rfl
  | some stop =>
    have hstop : stop.deed = .stopPolls := by simpa using List.find?_some hfind
    rw [pollingEnd, hfind]
    exact htime stop (List.mem_of_find?_eq_some hfind) hstop

/-- What is done after a stop changes nothing about the end of polling. -/
theorem pollingEnd_append {rest : List Instant} (hstop : ∃ i ∈ past, i.deed = .stopPolls) :
    pollingEnd (past ++ rest) now' = pollingEnd past now := by
  obtain ⟨stop, hfind⟩ : ∃ stop, past.find? (·.deed = .stopPolls) = some stop := by
    rw [← Option.isSome_iff_exists, List.find?_isSome]
    simpa using hstop
  rw [pollingEnd, pollingEnd, List.find?_append, hfind]
  rfl

/-- Either nobody has stopped polling, or what was done until the end of polling is followed by the
first stop. -/
theorem untilStop_cases (past : List Instant) :
    (untilStop past = past ∧ past.find? (·.deed = .stopPolls) = none) ∨
      ∃ stop later, past = untilStop past ++ stop :: later ∧ stop.deed = .stopPolls ∧
        past.find? (·.deed = .stopPolls) = some stop := by
  cases hfind : past.find? (·.deed = .stopPolls) with
  | none => exact Or.inl ⟨List.takeWhile_eq_self_iff.mpr (by simpa using hfind), rfl⟩
  | some stop =>
    obtain ⟨hstop, before, later, rfl, hon⟩ := List.find?_eq_some_iff_append.mp hfind
    refine Or.inr ⟨stop, later, ?_, by simpa using hstop, rfl⟩
    rw [untilStop, List.takeWhile_append_of_pos (by simpa using hon),
      List.takeWhile_cons_of_neg (by simpa using hstop), List.append_nil]

/-- What was done until the end of polling is a life of its own. -/
theorem Life.untilStop (h : Life first start past now l) :
    Life first start (untilStop past) (pollingEnd past now) (lastPolled past l) := by
  rcases untilStop_cases past with ⟨hall, hfind⟩ | ⟨stop, later, hsplit, -, hfind⟩
  · rw [hall, pollingEnd, lastPolled, hfind]
    exact h
  · rw [pollingEnd, lastPolled, hfind]
    rw [hsplit] at h
    exact h.of_append.1

/-- How polling stands at a link: it goes on, or it has been stopped just now, or the poller has
gone away since. What a poller has done is told by the poller as it was last. -/
inductive PollingStage (answers : List Answer) (start period : Nat) (past : List Instant)
    (now : Nat) (l : Link) : Prop
  | polls {p : Poller} (hp : l.poller = some p) (hon : p.isStopped = false)
      (hnone : ∀ i ∈ past, i.deed ≠ .stopPolls) (h : Samples answers start period now past p)
  | stops {p : Poller} (hp : l.poller = some p) (hstopped : p.isStopped = true)
      (hstop : ∃ i ∈ past, i.deed = .stopPolls)
      (htime : ∀ i ∈ past, i.deed = .stopPolls → i.time = now)
      (h : Samples answers start period now past p)
  | gone {p : Poller} (hp : l.poller = none) (hstop : ∃ i ∈ past, i.deed = .stopPolls)
      (h : Samples answers start period (pollingEnd past now) past p)

/-- Deeds that have nothing to do with polls change nothing about them. -/
theorem Samples.append {rest : List Instant} (h : Samples answers start period now past p)
    (hrest : ∀ i ∈ rest, i.begunPoll? = none ∧ i.endedPoll? = none ∧ i.taken? = none) :
    Samples answers start period now (past ++ rest) p := by
  have hbegun : begunPolls (past ++ rest) = begunPolls past := by
    rw [begunPolls, List.filterMap_append,
      List.filterMap_eq_nil_iff.mpr fun i hi => (hrest i hi).1, List.append_nil, begunPolls]
  have hended : endedPolls (past ++ rest) = endedPolls past := by
    rw [endedPolls, List.filterMap_append,
      List.filterMap_eq_nil_iff.mpr fun i hi => (hrest i hi).2.1, List.append_nil, endedPolls]
  have htaken : takenResults (past ++ rest) = takenResults past := by
    rw [takenResults, List.filterMap_append,
      List.filterMap_eq_nil_iff.mpr fun i hi => (hrest i hi).2.2, List.append_nil, takenResults]
  have hbefore : endedPolls ((past ++ rest).filter (·.time < now)) =
      endedPolls (past.filter (·.time < now)) := by
    have hnone : ∀ i ∈ rest.filter (·.time < now), i.endedPoll? = none :=
      fun i hi => (hrest i (List.mem_of_mem_filter hi)).2.1
    rw [List.filter_append, endedPolls, List.filterMap_append, List.filterMap_eq_nil_iff.mpr hnone,
      List.append_nil, endedPolls]
  exact ⟨hbegun ▸ h.onTime, by rw [hended, htaken]; exact h.tracks,
    by rw [hbefore, htaken]; exact h.prompt, by rw [hended]; exact h.answered⟩

/-- A poller that is stopped is left with what it has done. -/
theorem Samples.stop {i : Instant} (h : Samples answers start period now past p)
    (hdeed : i.deed = .stopPolls) :
    Samples answers start period now (past ++ [i]) { p with isStopped := true } := by
  have hsilent : ∀ j ∈ [i], j.begunPoll? = none ∧ j.endedPoll? = none ∧ j.taken? = none := by
    simp [Instant.begunPoll?, Instant.endedPoll?, Instant.taken?, hdeed]
  obtain ⟨honTime, htracks, hprompt, hanswered⟩ := h.append hsilent
  exact ⟨{ honTime with }, { htracks with }, hprompt, { hanswered with }⟩

/-- Only time goes on by itself. -/
theorem Deed.clock_eq (h : deed ≠ .wait) : deed.clock now = now := by
  cases deed <;> first | rfl | exact absurd rfl h

section Steps

variable (hlife : Life (l₀.startPolls period start) start past now l) (hperiod : 0 < period)
  (hdeed : l.take? now deed = some (l', output)) (hrest : deed = .wait → l.AtRest now)

include hlife hperiod hdeed hrest

/-- While polling goes on, it is stopped or goes on. -/
theorem polls_stage (hp : l.poller = some p) (hon : p.isStopped = false)
    (hnone : ∀ i ∈ past, i.deed ≠ .stopPolls)
    (h : Samples (l₀.script.answersTo .poll) start period now past p) :
    PollingStage (l₀.script.answersTo .poll) start period (past ++ [⟨now, l, deed, output⟩])
      (deed.clock now) l' := by
  by_cases hwait : deed = .wait
  · subst hwait
    obtain ⟨rfl, -⟩ := Prod.mk.inj (Option.some.inj hdeed)
    refine .polls hp hon ?_ (h.wait hperiod (hrest rfl) hp hlife.time_le rfl rfl)
    simpa [or_imp, forall_and] using hnone
  · rw [Deed.clock_eq hwait]
    by_cases hstop : deed = .stopPolls
    · subst hstop
      obtain ⟨rfl, -⟩ := Prod.mk.inj (Option.some.inj hdeed)
      refine .stops (p := { p with isStopped := true }) (by simp [stopPolls, hp]) rfl (by simp) ?_
        (h.stop rfl)
      intro i hi hstop
      rcases List.mem_append.mp hi with hi | hi
      · exact absurd hstop (hnone i hi)
      · rw [List.mem_singleton.mp hi]
    · have hdrop : deed ≠ .move .dropPolls := by
        rintro rfl
        obtain ⟨⟨q, hq, hstopped⟩, -⟩ := dropPolls_gone (of_silent hdeed).1
        obtain rfl := Option.some.inj (hp.symm.trans hq)
        simp [hon] at hstopped
      obtain ⟨p', hp', hturn⟩ := take?_turns hp hstop hdrop hdeed
      rw [hlife.next_answer] at hturn
      refine .polls hp' (hturn.isStopped_eq.trans hon) ?_ (h.turn hperiod rfl hturn)
      simpa [or_imp, forall_and, hstop] using hnone

/-- Once it has been stopped, the poller is still there until it goes away. -/
theorem stops_stage (hp : l.poller = some p) (hstopped : p.isStopped = true)
    (hstop : ∃ i ∈ past, i.deed = .stopPolls)
    (htime : ∀ i ∈ past, i.deed = .stopPolls → i.time = now)
    (h : Samples (l₀.script.answersTo .poll) start period now past p) :
    PollingStage (l₀.script.answersTo .poll) start period (past ++ [⟨now, l, deed, output⟩])
      (deed.clock now) l' := by
  have hwait : deed ≠ .wait := fun hwait => by
    simp [((hrest hwait).poller hp).1] at hstopped
  rw [Deed.clock_eq hwait]
  have hstop' : ∃ i ∈ past ++ [⟨now, l, deed, output⟩], i.deed = .stopPolls :=
    hstop.imp fun i hi => ⟨List.mem_append_left _ hi.1, hi.2⟩
  have htime' : ∀ i ∈ past ++ [⟨now, l, deed, output⟩], i.deed = .stopPolls → i.time = now := by
    intro i hi hstop
    rcases List.mem_append.mp hi with hi | hi
    · exact htime i hi hstop
    · rw [List.mem_singleton.mp hi]
  by_cases hagain : deed = .stopPolls
  · subst hagain
    obtain ⟨rfl, -⟩ := Prod.mk.inj (Option.some.inj hdeed)
    exact .stops (p := { p with isStopped := true }) (by simp [stopPolls, hp]) rfl hstop' htime'
      (h.stop rfl)
  · by_cases hdrop : deed = .move .dropPolls
    · subst hdrop
      refine .gone (dropPolls_gone (of_silent hdeed).1).2 hstop' (p := p) ?_
      rw [pollingEnd_eq htime']
      exact h.append (by simp [Instant.begunPoll?, Instant.endedPoll?, Instant.taken?,
        Link.endedPoll?, Link.taken?])
    · obtain ⟨p', hp', hturn⟩ := take?_turns hp hagain hdrop hdeed
      rw [hlife.next_answer] at hturn
      exact .stops hp' (hturn.isStopped_eq.trans hstopped) hstop' htime' (h.turn hperiod rfl hturn)

end Steps

/-- At each moment of a life polling stands in one of the stages. -/
theorem Life.pollingStage (h : Life (l₀.startPolls period start) start past now l)
    (hperiod : 0 < period) (hpunctual : Punctual past) :
    PollingStage (l₀.script.answersTo .poll) start period past now l := by
  induction h with
  | start =>
    exact .polls rfl rfl (by simp) ⟨Poller.onTime_start, .start _ _, List.nil_prefix,
      ⟨by simp [Poller.start], by simp [endedPolls]⟩⟩
  | @step past now l l' deed output h hdeed ih =>
    have hrest : deed = .wait → l.AtRest now := hpunctual ⟨now, l, deed, output⟩ (by simp)
    cases ih fun i hi => hpunctual i (List.mem_append_left _ hi) with
    | polls hp hon hnone hsamples =>
      exact polls_stage h hperiod hdeed hrest hp hon hnone hsamples
    | stops hp hstopped hstop htime hsamples =>
      exact stops_stage h hperiod hdeed hrest hp hstopped hstop htime hsamples
    | @gone p hp hstop hsamples =>
      obtain ⟨hp', hbegun, hended, htaken, -⟩ := take?_gone hp hdeed
      refine .gone (p := p) hp' (hstop.imp fun i hi => ⟨List.mem_append_left _ hi.1, hi.2⟩) ?_
      rw [pollingEnd_append hstop]
      exact hsamples.append (by simpa using ⟨hbegun, hended, htaken⟩)

/-- All that has to do with polls was done by a poller that was on time until the end. -/
theorem Life.sampled (h : Life (l₀.startPolls period start) start past now l)
    (hperiod : 0 < period) (hpunctual : Punctual past) :
    ∃ p, Samples (l₀.script.answersTo .poll) start period (pollingEnd past now) past p := by
  cases h.pollingStage hperiod hpunctual with
  | @polls p _ _ hnone hsamples =>
    rw [pollingEnd_eq fun i hi hstop => absurd hstop (hnone i hi)]
    exact ⟨p, hsamples⟩
  | @stops p _ _ _ htime hsamples =>
    rw [pollingEnd_eq htime]
    exact ⟨p, hsamples⟩
  | @gone p _ _ hsamples => exact ⟨p, hsamples⟩

/-- Nobody has stopped the poller that there was until the end of polling. -/
theorem Life.sampled_untilStop (h : Life (l₀.startPolls period start) start past now l)
    (hperiod : 0 < period) (hpunctual : Punctual past) :
    ∃ p, (lastPolled past l).poller = some p ∧ p.isStopped = false ∧
      Samples (l₀.script.answersTo .poll) start period (pollingEnd past now)
        (Link.untilStop past) p := by
  have hnone : ∀ i ∈ Link.untilStop past, i.deed ≠ .stopPolls := fun i hi => by
    simpa using List.mem_takeWhile_imp hi
  have hstage := h.untilStop.pollingStage hperiod fun i hi =>
    hpunctual i ((List.takeWhile_sublist _).subset hi)
  cases hstage with
  | @polls p hp hon _ hsamples => exact ⟨p, hp, hon, hsamples⟩
  | stops _ _ hstop | gone _ hstop =>
    obtain ⟨i, hi, hstop⟩ := hstop
    exact absurd hstop (hnone i hi)

/-! ## After a stop -/

/-- A link that does not poll sees no tick, takes no result and posts no records. No poll waits at
it that did not wait before. -/
theorem take?_still (hl : l.isPolling = false) (h : l.take? now deed = some (l', output)) :
    deed ≠ .move .tick ∧ Instant.taken? ⟨now, l, deed, output⟩ = none ∧
      Instant.posted? ⟨now, l, deed, output⟩ = none ∧ l'.isPolling = false ∧
      l'.waitingPolls ⊆ l.waitingPolls := by
  cases deed with
  | submit | wait =>
    obtain ⟨rfl, rfl⟩ := Prod.mk.inj (Option.some.inj h)
    exact ⟨by simp, rfl, rfl, hl, List.Subset.refl _⟩
  | stopPolls =>
    obtain ⟨rfl, rfl⟩ := Prod.mk.inj (Option.some.inj h)
    exact ⟨by simp, rfl, rfl, isPolling_stopPolls, by simp⟩
  | resume =>
    obtain ⟨hresume, rfl⟩ := of_silent h
    exact ⟨by simp, rfl, rfl, (resume_isPolling hresume).trans hl,
      resume_waitingPolls hresume ▸ List.Subset.refl _⟩
  | move move =>
    change l.perform now true move = some (l', output) at h
    have htick : move ≠ .tick := by
      rintro rfl
      simp [perform, tick_eq_none hl] at h
    have htake : move ≠ .takeResult := by
      rintro rfl
      simp [perform, takeResult_eq_none hl] at h
    have hstopped : l'.isPolling = false := Bool.eq_false_iff.mpr fun hpolls =>
      Bool.eq_false_iff.mp hl (perform_isPolling h hpolls)
    refine ⟨by simpa using htick, ?_, posted?_eq_none htake h, hstopped,
      perform_waitingPolls htick h⟩
    cases move <;> first | rfl | exact absurd rfl htake

/-- No life starts the polls again that have been stopped. -/
theorem Life.still {stop : Instant} {later : List Instant}
    (h : Life first start (past ++ stop :: later) now l) (hstop : stop.deed = .stopPolls) :
    l.isPolling = false ∧ l.waitingPolls ⊆ stop.link.waitingPolls := by
  refine h.keeps (P := fun l => l.isPolling = false ∧ l.waitingPolls ⊆ stop.link.waitingPolls)
    (fun next hnext => ?_) fun l l' now deed output hl hdeed => ?_
  · rw [hstop] at hnext
    obtain ⟨rfl, -⟩ := Prod.mk.inj (Option.some.inj hnext)
    exact ⟨isPolling_stopPolls, by simp⟩
  · obtain ⟨hstopped, hwaits⟩ := hl
    obtain ⟨-, -, -, hstopped', hwaits'⟩ := take?_still hstopped hdeed
    exact ⟨hstopped', List.Subset.trans hwaits' hwaits⟩

/-- No poller comes back that has gone away. -/
theorem Life.gone {drop : Instant} {later : List Instant}
    (h : Life first start (past ++ drop :: later) now l) (hdrop : drop.deed = .move .dropPolls) :
    l.poller = none := by
  refine h.keeps (P := fun l => l.poller = none) (fun next hnext => ?_)
    fun l l' now deed output hl hdeed => (take?_gone hl hdeed).1
  rw [hdrop] at hnext
  exact (dropPolls_gone (of_silent hnext).1).2

/-! ## Coming to rest -/

/-- What there is to do about polls at most before time can go on. -/
def pollingLoad (l : Link) (now : Nat) : Nat :=
  match l.poller with
  | some p =>
    4 * (now + 1 - p.due) + 3 * p.spawned.length + 2 * p.flights.length + p.results.length + 1
  | none => 0

/-- A move of the poller leaves it less to do. -/
theorem pollingLoad_lt (hmove : move.isPolling = true)
    (h : l.perform now true move = some (l', output)) :
    l'.pollingLoad now < l.pollingLoad now := by
  obtain ⟨p, hp⟩ : ∃ p, l.poller = some p := by
    rw [← Option.ne_none_iff_exists']
    intro hnone
    simp [atRest_of_gone hnone move hmove] at h
  cases move with
  | tick =>
    simp only [perform, tick, hp] at h
    split at h
    · next hdue =>
      obtain ⟨rfl, -⟩ := Prod.mk.inj (Option.some.inj h)
      obtain ⟨⟨-, hperiod⟩, hpast⟩ : (p.isStopped = false ∧ 0 < p.period) ∧ p.due ≤ now := by
        simpa [Poller.isDue] using hdue
      have hlater : p.due < p.nextDue now := by
        unfold Poller.nextDue
        split <;> omega
      simp only [pollingLoad, hp, List.length_append, List.length_singleton]
      omega
    · simp at h
  | beginPoll n =>
    simp only [perform, beginPoll, hp] at h
    split at h
    · next hn =>
      obtain ⟨rfl, -⟩ := Prod.mk.inj (Option.some.inj h)
      have hmem : n ∈ p.spawned := by simpa using hn
      have hpositive := List.length_pos_of_mem hmem
      simp only [pollingLoad, hp, List.length_append, List.length_singleton,
        List.length_erase_of_mem hmem]
      omega
    · simp at h
  | endPoll n =>
    simp only [perform, endPoll, hp] at h
    split at h
    · next flight hn =>
      split at h
      · obtain ⟨rfl, -⟩ := Prod.mk.inj (Option.some.inj h)
        have hfewer : (p.flights.filter (·.1 ≠ n)).length < p.flights.length := by
          have hfound : (p.flights.lookup n).isSome = true := by simp [hn]
          obtain ⟨f, hf, hid⟩ := List.lookup_isSome_iff.mp hfound
          refine List.length_filter_lt_length_iff_exists.mpr ⟨f, hf, ?_⟩
          simpa using (beq_iff_eq.mp hid).symm
        have hone : flight.answer.poll?.toList.length ≤ 1 := by
          cases flight.answer.poll? <;> simp
        simp only [pollingLoad, hp, List.length_append]
        omega
      · simp at h
    · simp at h
  | takeResult =>
    simp only [perform, takeResult, hp] at h
    split at h
    · next result rest htakeable =>
      obtain ⟨-, hresults⟩ := Poller.takeable_eq_cons.mp htakeable
      split at h <;> obtain ⟨rfl, -⟩ := Prod.mk.inj (Option.some.inj h) <;>
        simp [pollingLoad, hp, hresults]
    · simp at h
  | dropPolls =>
    obtain ⟨-, hgone⟩ := dropPolls_gone (of_silent h).1
    simp [pollingLoad, hp, hgone]
  | _ => simp [Move.isPolling] at hmove

/-- From each moment, the poller comes to rest before time has to go on. -/
theorem Life.exists_rest (h : Life first start past now l) :
    ∃ more l', Life first start (past ++ more) now l' ∧ l'.AtRest now ∧
      ∀ i ∈ more, ∃ move, move.isPolling = true ∧ i.deed = .move move := by
  induction hload : l.pollingLoad now using Nat.strongRecOn generalizing l past with
  | ind load ih =>
    by_cases hrest : l.AtRest now
    · exact ⟨[], l, by simpa using h, hrest, by simp⟩
    · obtain ⟨move, hmove, hsome⟩ : ∃ move, move.isPolling = true ∧
          l.perform now true move ≠ none := by
        simpa [AtRest] using hrest
      obtain ⟨⟨next, output⟩, hnext⟩ := Option.ne_none_iff_exists'.mp hsome
      have hdeed : l.take? now (.move move) = some (next, output) := hnext
      obtain ⟨more, l', hlife, hquiet, hmoves⟩ :=
        ih _ (hload ▸ pollingLoad_lt hmove hnext) (h.step hdeed) rfl
      refine ⟨⟨now, l, .move move, output⟩ :: more, l', by simpa using hlife, hquiet, ?_⟩
      intro i hi
      rcases List.mem_cons.mp hi with rfl | hi
      · exact ⟨move, hmove, rfl⟩
      · exact hmoves i hi

/-! ## Runs -/

/-- The polls that have begun when the poller is at rest at the end of polling are all that are
scheduled. -/
theorem Life.begunPolls_eq (h : Life (l₀.startPolls period start) start past now l)
    (hperiod : 0 < period) (hpunctual : Punctual past)
    (hrest : (lastPolled past l).AtRest (pollingEnd past now)) :
    begunPolls past = Poller.schedule start period (pollingEnd past now) := by
  obtain ⟨p, hp, hon, hbefore⟩ := h.sampled_untilStop hperiod hpunctual
  obtain ⟨q, hsamples⟩ := h.sampled hperiod hpunctual
  obtain ⟨-, hdue, hspawned, -⟩ := hrest.poller hp
  have hall := (hsamples.onTime.scheduled hperiod).2
  have hfirst : begunPolls (Link.untilStop past) <+: begunPolls past :=
    (List.takeWhile_prefix _).filterMap _
  rw [hbefore.onTime.eq_schedule hperiod hon hdue hspawned] at hfirst
  exact hall.sublist.antisymm hfirst.sublist

/-- Polls end that have begun. -/
theorem Samples.ended_begun (h : Samples answers start period now past p) :
    ∀ n ∈ (endedPolls past).map (·.1), n ∈ (begunPolls past).map (·.1) := by
  intro n hn
  have hbegun : (begunPolls past).map (·.1) = List.range (begunPolls past).length := by
    have heq := congrArg (List.map (·.1)) h.onTime.begun_eq
    simpa [Poller.firstPolls, Function.comp_def] using heq
  have hticks : n < p.ticks := by
    rw [← List.mem_range, ← h.tracks.ticks.mem_iff]
    simp [hn]
  rw [hbegun, List.mem_range]
  rcases h.onTime.waits with ⟨-, heq⟩ | ⟨hspawned, heq, -⟩
  · rwa [← heq]
  · -- The poll that waits to begin has not ended.
    have hother : n ≠ (begunPolls past).length := by
      rintro rfl
      have hnodup := h.tracks.ticks.nodup_iff.mpr List.nodup_range
      rw [hspawned, List.singleton_append, List.nodup_cons] at hnodup
      exact hnodup.1 (List.mem_append_right _ hn)
    omega

/-- The records of a result are posted when it is taken. -/
theorem Life.posted {i : Instant} {later : List Instant}
    (h : Life (l₀.startPolls period start) start (past ++ i :: later) now l)
    (hperiod : 0 < period) (hpunctual : Punctual (past ++ i :: later)) :
    i.posted? = i.taken?.bind fun result =>
      if (yield (takenResults past) result).isEmpty then none
      else some (l₀.id, yield (takenResults past) result) := by
  obtain ⟨hbefore, next, hdeed⟩ := h.of_append
  cases hbefore.pollingStage hperiod fun j hj => hpunctual j (List.mem_append_left _ hj) with
  | polls hp _ _ hsamples | stops hp _ _ _ hsamples =>
    have hposted := take?_posted hp hdeed
    rwa [hsamples.tracks.ledger_eq, hbefore.id_eq] at hposted
  | gone hp =>
    obtain ⟨-, -, -, htaken, hposted⟩ := take?_gone hp hdeed
    change i.taken? = none at htaken
    rw [htaken]
    exact hposted

/-- Nothing is heard of polls that have been stopped. -/
theorem Life.silent {stop : Instant} {later : List Instant}
    (h : Life first start (past ++ stop :: later) now l) (hstop : stop.deed = .stopPolls) :
    ∀ i ∈ later, i.deed ≠ .move .tick ∧ i.taken? = none ∧ i.posted? = none := by
  intro i hi
  obtain ⟨between, -, hbefore, next, hdeed⟩ := h.of_later hi
  obtain ⟨htick, htaken, hposted, -⟩ := take?_still (hbefore.still hstop).1 hdeed
  exact ⟨htick, htaken, hposted⟩

/-- What may still happen to a link after its polls have been stopped: no tick is seen, no result is
taken and no records are posted. A poll begins only if it waited when polls were stopped, and polls
begin and end only at that time, until the poller goes away. -/
structure Aftermath (stop i : Instant) : Prop where
  tick : i.deed ≠ .move .tick
  taken : i.taken? = none
  posted : i.posted? = none
  begun : ∀ n time, i.begunPoll? = some (n, time) → n ∈ stop.link.waitingPolls
  time_eq : i.begunPoll? ≠ none ∨ i.endedPoll? ≠ none → i.time = stop.time ∧ i.link.poller ≠ none

/-- A poll that begins has waited. -/
theorem mem_waitingPolls {n time : Nat} (h : l.take? now deed = some (l', output))
    (hbegun : Instant.begunPoll? ⟨now, l, deed, output⟩ = some (n, time)) :
    n ∈ l.waitingPolls := by
  cases deed with
  | move move =>
    cases move with
    | beginPoll m =>
      obtain ⟨rfl, -⟩ : m = n ∧ now = time := by simpa [Instant.begunPoll?] using hbegun
      have hbegin : l.beginPoll now m = some l' := (of_silent h).1
      grind [beginPoll, waitingPolls]
    | _ => simp [Instant.begunPoll?] at hbegun
  | _ => simp [Instant.begunPoll?] at hbegun

/-- Whatever is done after polls have been stopped belongs to the aftermath. -/
theorem Life.aftermath {stop : Instant} {later : List Instant}
    (h : Life (l₀.startPolls period start) start (past ++ stop :: later) now l)
    (hperiod : 0 < period) (hpunctual : Punctual (past ++ stop :: later))
    (hstop : stop.deed = .stopPolls) : ∀ i ∈ later, Aftermath stop i := by
  intro i hi
  obtain ⟨htick, htaken, hposted⟩ := h.silent hstop i hi
  obtain ⟨between, hpast, hbefore, next, hdeed⟩ := h.of_later hi
  have hwaits := (hbefore.still hstop).2
  refine ⟨htick, htaken, hposted, fun n time hn => hwaits (mem_waitingPolls hdeed hn), ?_⟩
  cases hbefore.pollingStage hperiod fun j hj => hpunctual j (hpast j hj) with
  | polls _ _ hnone => exact absurd hstop (hnone stop (by simp))
  | stops hp _ _ htime => exact fun _ => ⟨(htime stop (by simp) hstop).symm, by simp [hp]⟩
  | gone hp =>
    obtain ⟨-, hbegun, hended, -⟩ := take?_gone hp hdeed
    exact fun hpoll => absurd hpoll (by simp [hbegun, hended])

/-- No result is taken after polling has ended. -/
theorem Life.takenResults_eq (h : Life first start past now l) :
    takenResults past = takenResults (Link.untilStop past) := by
  rcases untilStop_cases past with ⟨hall, -⟩ | ⟨stop, later, hsplit, hstop, -⟩
  · rw [hall]
  · have hnone : takenResults (stop :: later) = [] := by
      refine List.filterMap_eq_nil_iff.mpr fun i hi => ?_
      rcases List.mem_cons.mp hi with rfl | hi
      · simp [Instant.taken?, hstop]
      · rw [hsplit] at h
        exact (h.silent hstop i hi).2.1
    have happend := congrArg takenResults hsplit
    rwa [takenResults, takenResults, List.filterMap_append, ← takenResults, ← takenResults,
      ← takenResults, hnone, List.append_nil] at happend

/-- The polls of a link begin by the clock alone.

Polling begins at some time on any link, and time never passes while something can be done about
polls. Then polls begin one period after another, whatever comes of them: all that are scheduled
before polling ends, and no others, so that two lives in which it ends at the same time begin the
same polls. Every poll that ends before the stop, with the answer that the script has for it, brings
one result unless it crashes. The results are taken one at a time in the order in which the polls
have ended, those of earlier times all and none twice, and the records that a result yields are
posted as it is taken, if there are any. Once polling is stopped no tick starts a poll and no result
is taken. What a tick has started may still begin and end, but only at the time of the stop. Before
a stop and after it, the poller can always come to rest, so that time can go on, and after a stop it
is gone then. -/
theorem run_schedule (hperiod : 0 < period)
    (h : Life (l₀.startPolls period start) start past now l) (hpunctual : Punctual past) :
    (Poller.schedule start period (pollingEnd past now - 1) <+: begunPolls past ∧
      begunPolls past <+: Poller.schedule start period (pollingEnd past now) ∧
      ((lastPolled past l).AtRest (pollingEnd past now) →
        begunPolls past = Poller.schedule start period (pollingEnd past now)) ∧
      l.calls.count .poll = l₀.calls.count .poll + (begunPolls past).length) ∧
    (∀ (l₁ : Link) past₁ now₁ l₁',
      Life (l₁.startPolls period start) start past₁ now₁ l₁' → Punctual past₁ →
      pollingEnd past₁ now₁ = pollingEnd past now →
      (lastPolled past₁ l₁').AtRest (pollingEnd past now) →
      (lastPolled past l).AtRest (pollingEnd past now) → begunPolls past₁ = begunPolls past) ∧
    (takenResults past ++ (lastPolled past l).waitingResults =
        resultsOf (endedPolls (untilStop past)) ∧
      ((lastPolled past l).AtRest (pollingEnd past now) →
        takenResults past = resultsOf (endedPolls (untilStop past))) ∧
      resultsOf (endedPolls (past.filter (·.time < pollingEnd past now))) <+: takenResults past ∧
      ((endedPolls past).map (·.1)).Nodup ∧
      (∀ n ∈ (endedPolls past).map (·.1), n ∈ (begunPolls past).map (·.1)) ∧
      ∀ e ∈ endedPolls past, e.2 = (l₀.script.answersTo .poll).getD e.1 {}) ∧
    (∀ earlier i later, past = earlier ++ i :: later →
      i.posted? = i.taken?.bind fun result =>
        if (yield (takenResults earlier) result).isEmpty then none
        else some (l₀.id, yield (takenResults earlier) result)) ∧
    (∀ earlier stop later, past = earlier ++ stop :: later → stop.deed = .stopPolls →
      ∀ i ∈ later, Aftermath stop i) ∧
    (∀ earlier drop later, past = earlier ++ drop :: later → drop.deed = .move .dropPolls →
      ∀ i ∈ later, i.link.poller = none) ∧
    ∃ more l', Life (l₀.startPolls period start) start (past ++ more) now l' ∧ l'.AtRest now ∧
      ((∃ i ∈ past, i.deed = .stopPolls) → l'.poller = none) ∧
      ∀ i ∈ more, ∃ move, move.isPolling = true ∧ i.deed = .move move := by
  obtain ⟨p, hsamples⟩ := h.sampled hperiod hpunctual
  obtain ⟨q, hq, -, hbefore⟩ := h.sampled_untilStop hperiod hpunctual
  have hschedule := h.begunPolls_eq hperiod hpunctual
  obtain ⟨hsoon, hno⟩ := hsamples.onTime.scheduled hperiod
  have hresults : takenResults past ++ (lastPolled past l).waitingResults =
      resultsOf (endedPolls (Link.untilStop past)) := by
    rw [waitingResults, hq, h.takenResults_eq]
    exact hbefore.tracks.results_eq
  refine ⟨⟨hsoon, hno, hschedule, h.calls_eq⟩, ?_, ⟨hresults, fun hrest => ?_, hsamples.prompt,
    hsamples.tracks.nodup.2, hsamples.ended_begun, hsamples.answered.ended⟩, ?_, ?_, ?_, ?_⟩
  · intro l₁ past₁ now₁ l₁' h₁ hpunctual₁ htime hrest₁ hrest
    rw [hschedule hrest, ← htime]
    exact h₁.begunPolls_eq hperiod hpunctual₁ (htime ▸ hrest₁)
  · have hwaiting : (lastPolled past l).waitingResults = [] := by
      rw [waitingResults, hq]
      exact (hrest.poller hq).2.2.2
    rwa [hwaiting, List.append_nil] at hresults
  · rintro earlier i later rfl
    exact h.posted hperiod hpunctual
  · rintro earlier stop later rfl hstop
    exact h.aftermath hperiod hpunctual hstop
  · rintro earlier drop later rfl hdrop i hi
    obtain ⟨between, -, hbefore, -⟩ := h.of_later hi
    exact hbefore.gone hdrop
  · obtain ⟨more, l', hlife, hrest, hmoves⟩ := h.exists_rest
    refine ⟨more, l', hlife, hrest, fun hstop => ?_, hmoves⟩
    obtain ⟨stop, hmem, hdeed⟩ := hstop
    obtain ⟨earlier, later, rfl⟩ := List.append_of_mem hmem
    rw [List.append_assoc] at hlife
    have hstill := (hlife.still hdeed).1
    by_contra hpoller
    obtain ⟨r, hr⟩ := Option.ne_none_iff_exists'.mp hpoller
    have hon := (hrest.poller hr).1
    simp [isStopped_of_poller hstill hr] at hon

/-- A link on which the first poll takes longer than a period, the second crashes and the third is
held. -/
def unsteady : Link where
  id := 4
  script := { answers := [(.poll, [{ delayMs := 3, reports := [⟨"a", "inbound-rtp", []⟩] },
    { ending := .crash }, { isHeld := true }])] }

/-- The polls are stopped while the third is held. -/
def unsteadyDeeds : List Deed :=
  [.wait, .wait, .move .tick, .move (.beginPoll 0), .wait, .wait,
    .move .tick, .move (.beginPoll 1), .move (.endPoll 1), .wait,
    .move (.endPoll 0), .move .takeResult, .wait,
    .move .tick, .move (.beginPoll 2), .wait, .stopPolls, .move .dropPolls, .wait, .wait]

/-- The three polls begin in time, and the result of the one that ends well is processed. -/
theorem schedule_unsteadyPolls :
    ∃ past l, 0 < 2 ∧ Life (unsteady.startPolls 2 0) 0 past 9 l ∧ Punctual past ∧
      pollingEnd past 9 = 7 ∧ begunPolls past = [(0, 2), (1, 4), (2, 6)] ∧
      begunPolls past = Poller.schedule 0 2 7 ∧
      (endedPolls past).map (·.1) = [1, 0] ∧ (past.filter (·.posted?.isSome)).length = 1 ∧
      takenResults past = resultsOf (endedPolls (untilStop past)) := by
  have hplayed : ((unsteady.startPolls 2 0).play 0 unsteadyDeeds).map (fun x => (x.2.1,
      (x.1.all fun i => i.deed != .wait || i.link.isQuiet i.time, pollingEnd x.1 x.2.1,
      (lastPolled x.1 x.2.2).isQuiet 7))) = some (9, (true, 7, true)) := by
    decide +kernel
  have hpolls : ((unsteady.startPolls 2 0).play 0 unsteadyDeeds).map (fun x => (begunPolls x.1,
      (endedPolls x.1).map (·.1), (x.1.filter (·.posted?.isSome)).length)) =
        some ([(0, 2), (1, 4), (2, 6)], [1, 0], 1) := by
    decide +kernel
  obtain ⟨⟨past, now, l⟩, hplay, hstate⟩ := Option.map_eq_some_iff.mp hplayed
  rw [hplay] at hpolls
  simp only [Option.map_some, Option.some.injEq, Prod.mk.injEq] at hstate hpolls
  obtain ⟨rfl, hquiet, htime, hrest⟩ := hstate
  obtain ⟨hbegun, hended, hposted⟩ := hpolls
  have hlife : Life (unsteady.startPolls 2 0) 0 past 9 l := Life.start.play hplay
  have hpunctual : Punctual past := by
    intro i hi hwait
    have hi := List.all_eq_true.mp hquiet i hi
    exact atRest_of_isQuiet (by simpa [hwait] using hi)
  obtain ⟨⟨-, -, hschedule, -⟩, -, ⟨-, hresults, -⟩, -⟩ := run_schedule (by decide) hlife hpunctual
  rw [htime] at hschedule hresults
  have hrest := atRest_of_isQuiet hrest
  exact ⟨past, l, by decide, hlife, hpunctual, htime, hbegun, hschedule hrest, hended, hposted,
    hresults hrest⟩

/-- A link whose polls bring reports at once. -/
def brief : Link where
  id := 5
  script := { answers := [(.poll, [{ reports := [⟨"a", "inbound-rtp", []⟩] }])] }

/-- The first tick and the stop fall together. -/
def briefDeeds : List Deed :=
  [.wait, .wait, .move .tick, .stopPolls, .move (.beginPoll 0), .move (.endPoll 0),
    .move .dropPolls, .wait]

/-- A poll whose tick falls together with the stop begins after the stop, and ends. -/
theorem late_briefPoll :
    ∃ earlier stop later l, Life (brief.startPolls 2 0) 0 (earlier ++ stop :: later) 3 l ∧
      Punctual (earlier ++ stop :: later) ∧ stop.deed = .stopPolls ∧ stop.time = 2 ∧
      begunPolls earlier = [] ∧ begunPolls later = [(0, 2)] ∧
      (endedPolls later).map (·.1) = [0] := by
  have hplayed : ((brief.startPolls 2 0).play 0 briefDeeds).map (fun x => (x.2.1,
      (x.1.all fun i => i.deed != .wait || i.link.isQuiet i.time))) = some (3, true) := by
    decide +kernel
  have hpolls : ((brief.startPolls 2 0).play 0 briefDeeds).map (fun x =>
      ((x.1.drop 3).head?.map (fun i => (i.deed, i.time)), begunPolls (x.1.take 3),
        begunPolls (x.1.drop 4), (endedPolls (x.1.drop 4)).map (·.1))) =
          some (some (.stopPolls, 2), [], [(0, 2)], [0]) := by
    decide +kernel
  obtain ⟨⟨past, now, l⟩, hplay, hstate⟩ := Option.map_eq_some_iff.mp hplayed
  rw [hplay] at hpolls
  simp only [Option.map_some, Option.some.injEq, Prod.mk.injEq] at hstate hpolls
  obtain ⟨rfl, hquiet⟩ := hstate
  obtain ⟨hstop, hbefore, hbegun, hended⟩ := hpolls
  obtain ⟨stop, hhead, hdeed⟩ := Option.map_eq_some_iff.mp hstop
  obtain ⟨hdeed, htime⟩ := Prod.mk.inj hdeed
  have hsplit : past = past.take 3 ++ stop :: past.drop 4 := by
    rw [← List.drop_drop (i := 1), List.drop_one]
    conv_lhs => rw [← List.take_append_drop 3 past, ← List.cons_head?_tail hhead]
  have hpunctual : Punctual past := by
    intro i hi hwait
    have hi := List.all_eq_true.mp hquiet i hi
    exact atRest_of_isQuiet (by simpa [hwait] using hi)
  refine ⟨past.take 3, stop, past.drop 4, l, ?_, ?_, hdeed, htime, hbefore, hbegun, hended⟩
  · rw [← hsplit]
    exact Life.start.play hplay
  · rwa [← hsplit]

end Link

end PeerCall
