import Mathlib.Data.List.Nodup
import PeerCall.Proofs.Agent.Records
import PeerCall.Proofs.Link.Closing

/-!
# The polls of a link

Each tick starts one poll, and polls end in any order. Their results are taken one after another,
in the order in which the polls have ended, into a ledger that is new when polling begins. A poller
that has been stopped takes none any more, although polls may still begin and end until it goes
away.
-/

namespace PeerCall

/-- One more item gives at most one more value. -/
theorem filterMap_concat {α β : Type} (f : α → Option β) (l : List α) (x : α) :
    (l ++ [x]).filterMap f = l.filterMap f ++ (f x).toList := by
  cases hx : f x <;> simp [hx]

namespace Metrics

/-- The records of the reports of some polls, taken in order, and the ledger after them. -/
def Ledger.digest (l : Ledger) (now : Moment) : List (List Report) → List Record × Ledger
  | [] => ([], l)
  | reports :: rest =>
    let (records, l) := l.ingest now reports
    let (later, l) := l.digest now rest
    (records ++ later, l)

/-- Polls that come later are taken into the ledger that the earlier ones leave. -/
theorem Ledger.digest_append (l : Ledger) (now : Moment) (first second : List (List Report)) :
    l.digest now (first ++ second) =
      ((l.digest now first).1 ++ ((l.digest now first).2.digest now second).1,
        ((l.digest now first).2.digest now second).2) := by
  induction first generalizing l with
  | nil => rfl
  | cons reports first ih => simp [digest, ih]

variable {results : List PollResult} {result : PollResult}

/-- What the successful polls have brought. -/
def successes (results : List PollResult) : List (List Report) :=
  results.filterMap Except.toOption

/-- The records of results that are taken in order into a new ledger. -/
def digested (results : List PollResult) : List Record :=
  (({} : Ledger).digest .present (successes results)).1

/-- A new ledger after results have been taken into it. -/
def ledgerOf (results : List PollResult) : Ledger :=
  (({} : Ledger).digest .present (successes results)).2

/-- The successes come one after another. -/
theorem successes_append (first second : List PollResult) :
    successes (first ++ second) = successes first ++ successes second :=
  List.filterMap_append

/-- A result that is taken is digested if the poll has succeeded, and leaves no trace otherwise. -/
theorem Ledger.takePoll_eq (l : Ledger) (now : Moment) (result : PollResult) :
    (l.takePoll now result).1 = (l.digest now (successes [result])).1 ∧
      (l.takePoll now result).2.2 = (l.digest now (successes [result])).2 := by
  cases result with
  | ok reports => simp [takePoll, successes, Except.toOption, digest]
  | error error => exact ⟨rfl, rfl⟩

/-- One more result adds its records to those of the results before. -/
theorem digested_concat : digested (results ++ [result]) =
    digested results ++ ((ledgerOf results).takePoll .present result).1 := by
  rw [(Ledger.takePoll_eq _ _ _).1, digested, successes_append, Ledger.digest_append]
  rfl

/-- One more result is taken into the ledger that the results before leave. -/
theorem ledgerOf_concat :
    ledgerOf (results ++ [result]) = ((ledgerOf results).takePoll .present result).2.2 := by
  rw [(Ledger.takePoll_eq _ _ _).2, ledgerOf, successes_append, Ledger.digest_append]
  rfl

/-- Results that are taken later change nothing about the records before them. -/
theorem digested_mono {first second : List PollResult} (h : first <+: second) :
    digested first <+: digested second := by
  obtain ⟨rest, rfl⟩ := h
  rw [digested, digested, successes_append, Ledger.digest_append]
  exact List.prefix_append _ _

end Metrics

open Metrics (PollResult digested digested_concat ledgerOf ledgerOf_concat)

variable {taken : List PollResult} {ended : List (Nat × Answer)}

/-- The results of polls that have ended. One that has crashed has none. -/
def resultsOf (ended : List (Nat × Answer)) : List PollResult := ended.filterMap (·.2.poll?)

/-- A poller has taken the first of the results of the polls that have ended into its ledger, and
the others wait. Each tick has started one poll, which has not begun, goes on or has ended. -/
structure Poller.Tracks (p : Poller) (taken : List PollResult) (ended : List (Nat × Answer)) :
    Prop where
  ledger_eq : p.ledger = ledgerOf taken
  results_eq : taken ++ p.results = resultsOf ended
  ticks : (p.spawned ++ (p.flights.map (·.1) ++ ended.map (·.1))).Perm (List.range p.ticks)

/-- What has become of the polls of a link whose poller is this one, or has gone away. -/
structure Sampling (poller : Option Poller) (taken : List PollResult)
    (ended : List (Nat × Answer)) : Prop where
  ordered : taken <+: resultsOf ended
  /-- No poll ends twice. -/
  nodup : (ended.map (·.1)).Nodup
  tracks : ∀ p, poller = some p → p.Tracks taken ended

namespace Poller.Tracks

variable {p : Poller}

/-- A new poller tracks that nothing has happened. -/
theorem start (period now : Nat) : (Poller.start period now).Tracks [] [] :=
  ⟨rfl, rfl, .refl _⟩

/-- No poll is on the way twice, and none has ended twice. -/
theorem nodup (h : p.Tracks taken ended) :
    (p.flights.map (·.1)).Nodup ∧ (ended.map (·.1)).Nodup := by
  have hnodup := (h.ticks.nodup_iff.mpr List.nodup_range).of_append_right
  exact ⟨hnodup.of_append_left, hnodup.of_append_right⟩

/-- A poller that tracks its polls tells what has become of them. -/
theorem sampling (h : p.Tracks taken ended) : Sampling (some p) taken ended :=
  ⟨⟨p.results, h.results_eq⟩, h.nodup.2, fun _ hp => Option.some.inj hp ▸ h⟩

/-- A tick starts one poll more. -/
theorem tick (h : p.Tracks taken ended) (due : Nat) :
    Tracks { p with due := due, ticks := p.ticks + 1, spawned := p.spawned ++ [p.ticks] }
      taken ended := by
  refine ⟨h.ledger_eq, h.results_eq, ?_⟩
  dsimp only
  rw [List.range_succ, List.append_assoc, List.singleton_append]
  exact List.perm_middle.trans ((h.ticks.cons _).trans (List.perm_append_singleton _ _).symm)

/-- A poll that begins waits no more and is on the way. -/
theorem beginPoll {n : Nat} (h : p.Tracks taken ended) (hn : n ∈ p.spawned) (flight : Flight) :
    Tracks { p with spawned := p.spawned.erase n, flights := p.flights ++ [(n, flight)] }
      taken ended := by
  refine ⟨h.ledger_eq, h.results_eq, ?_⟩
  have hmoved : (p.spawned.erase n ++ (p.flights.map (·.1) ++ n :: ended.map (·.1))).Perm
      (n :: p.spawned.erase n ++ (p.flights.map (·.1) ++ ended.map (·.1))) :=
    (List.perm_middle.append_left _).trans List.perm_middle
  have hspawned := (List.perm_cons_erase hn).symm.append_right
    (p.flights.map (·.1) ++ ended.map (·.1))
  simpa using (hmoved.trans hspawned).trans h.ticks

/-- A poll that ends is on the way no more, and its result is the last that waits. -/
theorem endPoll {n : Nat} {flight : Flight} (h : p.Tracks taken ended)
    (hn : p.flights.lookup n = some flight) :
    Tracks { p with
      flights := p.flights.filter (·.1 ≠ n), results := p.results ++ flight.answer.poll?.toList }
      taken (ended ++ [(n, flight.answer)]) := by
  refine ⟨h.ledger_eq, ?_, ?_⟩
  · dsimp only
    rw [← List.append_assoc, h.results_eq, resultsOf, resultsOf, filterMap_concat]
  · have hmem : n ∈ p.flights.map (·.1) := by
      have hfound : (p.flights.lookup n).isSome = true := by simp [hn]
      obtain ⟨f, hf, hid⟩ := List.lookup_isSome_iff.mp hfound
      exact List.mem_map.mpr ⟨f, hf, (beq_iff_eq.mp hid).symm⟩
    have hleft : (p.flights.filter (·.1 ≠ n)).map (·.1) = (p.flights.map (·.1)).erase n := by
      rw [h.nodup.1.erase_eq_filter, List.filter_map]
      congr 1
      refine List.filter_congr fun f _ => ?_
      by_cases hf : f.1 = n <;> simp [hf]
    have hmoved : ((p.flights.map (·.1)).erase n ++ (ended.map (·.1) ++ [n])).Perm
        (p.flights.map (·.1) ++ ended.map (·.1)) := by
      have hback : (n :: ((p.flights.map (·.1)).erase n ++ ended.map (·.1))).Perm
          (p.flights.map (·.1) ++ ended.map (·.1)) :=
        (List.perm_cons_erase hmem).symm.append_right _
      rw [← List.append_assoc]
      exact (List.perm_append_singleton _ _).trans hback
    dsimp only
    rw [hleft, List.map_append]
    exact (hmoved.append_left _).trans h.ticks

/-- A result that is taken is digested after those that were taken before. -/
theorem takeResult {result : PollResult} {rest : List PollResult} (h : p.Tracks taken ended)
    (hresults : p.results = result :: rest) :
    Tracks { p with results := rest, ledger := (p.ledger.takePoll .present result).2.2 }
      (taken ++ [result]) ended := by
  refine ⟨?_, ?_, h.ticks⟩
  · dsimp only
    rw [ledgerOf_concat, h.ledger_eq]
  · dsimp only
    rw [← h.results_eq, hresults, List.append_assoc]
    rfl

end Poller.Tracks

/-- A poller that goes away leaves what has happened as it is. -/
theorem Sampling.gone {poller : Option Poller} (h : Sampling poller taken ended) :
    Sampling none taken ended :=
  ⟨h.ordered, h.nodup, by simp⟩

/-- What a poller can take next is the first of its results, unless it has been stopped. -/
theorem Poller.takeable_eq_cons {p : Poller} {result : PollResult} {rest : List PollResult} :
    p.takeable = result :: rest ↔ p.isStopped = false ∧ p.results = result :: rest := by
  cases hstopped : p.isStopped <;> simp [takeable, hstopped]

namespace Link

variable {l l' : Link} {now : Nat} {isHeard : Bool} {move : Move} {output : Output}

/-- So does one that is stopped, and it still tracks its polls. -/
theorem stopPolls_sampling (h : Sampling l.poller taken ended) :
    Sampling l.stopPolls.poller taken ended := by
  refine ⟨h.ordered, h.nodup, fun p' hp' => ?_⟩
  obtain ⟨p, hp, rfl⟩ := Option.map_eq_some_iff.mp hp'
  obtain ⟨hledger, hresults, hticks⟩ := h.tracks p hp
  exact ⟨hledger, hresults, hticks⟩

/-- The result that a move takes. -/
def taken? (l : Link) : Move → Option PollResult
  | .takeResult => l.poller.bind (·.takeable.head?)
  | _ => none

/-- The poll that a move ends, by the number of its tick, with its answer. -/
def endedPoll? (l : Link) : Move → Option (Nat × Answer)
  | .endPoll n => l.poller.bind fun p => (p.flights.lookup n).map fun f => (n, f.answer)
  | _ => none

/-- A tick ends no poll and takes no result. -/
theorem tick_sampling (h : Sampling l.poller taken ended) (htick : l.tick now = some l') :
    Sampling l'.poller taken ended := by
  unfold tick at htick
  split at htick
  · next p hp =>
    split at htick
    · obtain rfl := Option.some.inj htick
      exact ((h.tracks p hp).tick _).sampling
    · simp at htick
  · simp at htick

/-- A poll that begins ends no poll and takes no result. -/
theorem beginPoll_sampling {n : Nat} (h : Sampling l.poller taken ended)
    (hbegin : l.beginPoll now n = some l') : Sampling l'.poller taken ended := by
  unfold beginPoll at hbegin
  split at hbegin
  · next p hp =>
    split at hbegin
    · next hn =>
      obtain rfl := Option.some.inj hbegin
      exact ((h.tracks p hp).beginPoll (by simpa using hn) _).sampling
    · simp at hbegin
  · simp at hbegin

/-- A poll that ends is the last that has ended. -/
theorem endPoll_sampling {n : Nat} (h : Sampling l.poller taken ended)
    (hend : l.endPoll now n = some l') :
    Sampling l'.poller taken (ended ++ (l.endedPoll? (.endPoll n)).toList) := by
  unfold endPoll at hend
  split at hend
  · next p hp =>
    split at hend
    · next flight hn =>
      split at hend
      · obtain rfl := Option.some.inj hend
        simpa [endedPoll?, hp, hn] using ((h.tracks p hp).endPoll hn).sampling
      · simp at hend
    · simp at hend
  · simp at hend

/-- A result that is taken is the last that was taken, even if the poller goes away. -/
theorem takeResult_sampling (h : Sampling l.poller taken ended)
    (htake : l.takeResult isHeard = some (l', output)) :
    Sampling l'.poller (taken ++ (l.taken? .takeResult).toList) ended := by
  unfold takeResult at htake
  split at htake
  · next p hp =>
    split at htake
    · next result rest htakeable =>
      have hone : l.taken? .takeResult = some result := by simp [taken?, hp, htakeable]
      obtain ⟨-, hresults⟩ := Poller.takeable_eq_cons.mp htakeable
      have htaken := ((h.tracks p hp).takeResult hresults).sampling
      rw [hone]
      dsimp only at htake
      split at htake
      · obtain ⟨rfl, -⟩ := Prod.mk.inj (Option.some.inj htake)
        exact htaken
      · split at htake <;> obtain ⟨rfl, -⟩ := Prod.mk.inj (Option.some.inj htake)
        · exact htaken
        · exact htaken.gone
    · simp at htake
  · simp at htake

/-- A poller that goes away ends no poll and takes no result. -/
theorem dropPolls_sampling (h : Sampling l.poller taken ended) (hdrop : l.dropPolls = some l') :
    Sampling l'.poller taken ended := by
  unfold dropPolls at hdrop
  split at hdrop
  · split at hdrop
    · obtain rfl := Option.some.inj hdrop
      exact h.gone
    · simp at hdrop
  · simp at hdrop

/-- The polls that a move ends and the results that it takes come after those before it. -/
theorem perform_sampling (h : Sampling l.poller taken ended)
    (hmove : l.perform now isHeard move = some (l', output)) :
    Sampling l'.poller (taken ++ (l.taken? move).toList)
      (ended ++ (l.endedPoll? move).toList) := by
  have hsame (hpoller : l'.poller = l.poller) :
      Sampling l'.poller (taken ++ []) (ended ++ []) := by
    simpa [hpoller] using h
  cases move with
  | beginOperation => exact hsame (by grind [perform, beginOperation, begin])
  | endOperation => exact hsame (by grind [perform, endOperation])
  | tick => simpa [taken?, endedPoll?] using tick_sampling h (of_silent hmove).1
  | beginPoll n => simpa [taken?, endedPoll?] using beginPoll_sampling h (of_silent hmove).1
  | endPoll n => simpa [taken?] using endPoll_sampling h (of_silent hmove).1
  | takeResult => simpa [endedPoll?] using takeResult_sampling h hmove
  | dropPolls => simpa [taken?, endedPoll?] using dropPolls_sampling h (of_silent hmove).1
  | beginClose => exact hsame (by grind [perform, beginClose, begin])
  | endClose => exact hsame (by grind [perform, endClose])

/-- A held call that goes on leaves the polls as they are. -/
theorem resume_sampling (h : Sampling l.poller taken ended) (hresume : l.resume? now = some l') :
    Sampling l'.poller taken ended := by
  obtain ⟨ticket, -, rfl⟩ := Option.map_eq_some_iff.mp hresume
  refine ⟨h.ordered, h.nodup, fun p' hp' => ?_⟩
  obtain ⟨p, hp, rfl⟩ := Option.map_eq_some_iff.mp hp'
  obtain ⟨hledger, hresults, hticks⟩ := h.tracks p hp
  exact ⟨hledger, hresults, by simpa [Function.comp_def] using hticks⟩

/-- Where events can be posted, a link posts the records of the results that it takes. -/
theorem perform_records (h : Sampling l.poller taken ended)
    (hmove : l.perform now true move = some (l', output)) :
    digested (taken ++ (l.taken? move).toList) =
      digested taken ++ output.event.toList.flatMap (Event.recordsOf l.id) := by
  cases move with
  | endOperation =>
    have hother : ∀ id records, output.event ≠ some (.records id records) := by
      grind [perform, endOperation]
    cases hevent : output.event with
    | none => simp [taken?]
    | some event => cases event <;> simp_all [taken?, Event.recordsOf]
  | takeResult =>
    simp only [perform, takeResult] at hmove
    split at hmove
    · next p hp =>
      split at hmove
      · next result rest htakeable =>
        have hone : l.taken? .takeResult = some result := by simp [taken?, hp, htakeable]
        rw [hone, Option.toList_some, digested_concat, ← (h.tracks p hp).ledger_eq]
        split at hmove <;> obtain ⟨-, rfl⟩ := Prod.mk.inj (Option.some.inj hmove)
        · next hnone => simpa using hnone
        · simp [Event.recordsOf]
      · simp at hmove
    · simp at hmove
  | _ =>
    rw [(of_silent hmove).2]
    simp [taken?]

end Link

end PeerCall
