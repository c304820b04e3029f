import PeerCall.Proofs.Link.Life
import PeerCall.Proofs.Link.Polling

/-!
# What deeds do to a poller

A deed in the life of a link turns its poller: a tick is seen, a poll begins or ends, or a result is
taken. A poller that sees all its ticks in time begins its polls at fixed times. The polls and
results of a life are read off its deeds, each of which does one of these things or none.
-/

namespace PeerCall

open Metrics (PollResult ledgerOf)

namespace Poller

variable {p p' : Poller} {now start period : Nat} {begun : List (Nat × Nat)} {next : Answer}
  {taken : List PollResult} {ended : List (Nat × Answer)} {answers : List Answer}

/-- What a deed does to the poller of a link, with the poll that begins, the one that ends and the
result that is taken. A poll that begins gets the next answer. -/
inductive Turns (now : Nat) (next : Answer) (p : Poller) :
    Poller → Option (Nat × Nat) → Option (Nat × Answer) → Option PollResult → Prop
  /-- Polls on the way may be let go on. -/
  | rests {f : Flight → Flight} (hf : ∀ x, (f x).answer = x.answer) :
      Turns now next p { p with flights := p.flights.map fun x => (x.1, f x.2) } none none none
  | ticks (hdue : p.isDue now = true) :
      Turns now next p
        { p with due := p.nextDue now, ticks := p.ticks + 1, spawned := p.spawned ++ [p.ticks] }
        none none none
  | begins {n : Nat} {flight : Flight} (hn : n ∈ p.spawned) (hanswer : flight.answer = next) :
      Turns now next p
        { p with spawned := p.spawned.erase n, flights := p.flights ++ [(n, flight)] }
        (some (n, now)) none none
  | ends {n : Nat} {flight : Flight} (hn : p.flights.lookup n = some flight) :
      Turns now next p
        { p with
          flights := p.flights.filter (·.1 ≠ n),
          results := p.results ++ flight.answer.poll?.toList }
        none (some (n, flight.answer)) none
  | takes {result : PollResult} {rest : List PollResult} (hon : p.isStopped = false)
      (hresults : p.results = result :: rest) :
      Turns now next p
        { p with results := rest, ledger := (p.ledger.takePoll .present result).2.2 }
        none none (some result)

/-- Whether a poller has been stopped is left as it is. -/
theorem Turns.isStopped_eq {b : Option (Nat × Nat)} {e : Option (Nat × Answer)}
    {t : Option PollResult} (h : Turns now next p p' b e t) : p'.isStopped = p.isStopped := by
  cases h <;> rfl

/-- What has become of the polls is tracked through each deed. -/
theorem Tracks.turn {b : Option (Nat × Nat)} {e : Option (Nat × Answer)} {t : Option PollResult}
    (h : p.Tracks taken ended) (hturn : Turns now next p p' b e t) :
    p'.Tracks (taken ++ t.toList) (ended ++ e.toList) := by
  cases hturn with
  | rests =>
    simp only [Option.toList_none, List.append_nil]
    exact ⟨h.ledger_eq, h.results_eq, by simpa [Function.comp_def] using h.ticks⟩
  | ticks => simpa using h.tick _
  | begins hn => simpa using h.beginPoll hn _
  | ends hn => simpa using h.endPoll hn
  | takes _ hresults => simpa using h.takeResult hresults

/-- Polls get the answers at the numbers of their ticks. -/
structure Answered (p : Poller) (answers : List Answer) (ended : List (Nat × Answer)) : Prop where
  flights : ∀ f ∈ p.flights, f.2.answer = answers.getD f.1 {}
  ended : ∀ e ∈ ended, e.2 = answers.getD e.1 {}

/-- A turn keeps the answers at the numbers of the ticks, if what begins gets its own. -/
theorem Answered.turn {b : Option (Nat × Nat)} {e : Option (Nat × Answer)} {t : Option PollResult}
    (h : p.Answered answers ended) (hturn : Turns now next p p' b e t)
    (hnext : ∀ n ∈ p.spawned, next = answers.getD n {}) :
    p'.Answered answers (ended ++ e.toList) := by
  obtain ⟨hflights, hended⟩ := h
  cases hturn with
  | ticks | takes =>
    rw [Option.toList_none, List.append_nil]
    exact ⟨hflights, hended⟩
  | rests hf =>
    rw [Option.toList_none, List.append_nil]
    refine ⟨fun f hmem => ?_, hended⟩
    obtain ⟨x, hx, rfl⟩ := List.mem_map.mp hmem
    exact (hf x.2).trans (hflights x hx)
  | @begins n flight hn hanswer =>
    rw [Option.toList_none, List.append_nil]
    refine ⟨fun f hmem => ?_, hended⟩
    rcases List.mem_append.mp hmem with hmem | hmem
    · exact hflights f hmem
    · rw [List.mem_singleton.mp hmem]
      exact hanswer.trans (hnext n hn)
  | @ends n flight hn =>
    refine ⟨fun f hmem => hflights f (List.mem_of_mem_filter hmem), fun e hmem => ?_⟩
    rcases List.mem_append.mp hmem with hmem | hmem
    · exact hended e hmem
    · obtain ⟨earlier, later, hsplit, -⟩ := List.lookup_eq_some_iff.mp hn
      rw [Option.toList_some, List.mem_singleton] at hmem
      rw [hmem]
      exact hflights (n, flight) (by simp [hsplit])

/-! ## Times -/

/-- The first polls, each with the time at which it begins. -/
def firstPolls (start period n : Nat) : List (Nat × Nat) :=
  (List.range n).map fun i => (i, start + (i + 1) * period)

/-- The polls that begin until a time. -/
def schedule (start period time : Nat) : List (Nat × Nat) :=
  firstPolls start period ((time - start) / period)

/-- The next poll begins one period after the last. -/
theorem firstPolls_succ (n : Nat) : firstPolls start period (n + 1) =
    firstPolls start period n ++ [(n, start + (n + 1) * period)] := by
  simp [firstPolls, List.range_succ]

/-- The polls until a time are the first of those until a later one. -/
theorem firstPolls_mono {m n : Nat} (h : m ≤ n) :
    firstPolls start period m <+: firstPolls start period n := by
  have htake : firstPolls start period m = (firstPolls start period n).take m := by
    rw [firstPolls, firstPolls, ← List.map_take, List.take_range, Nat.min_eq_left h]
  rw [htake]
  exact List.take_prefix _ _

/-- A poller that has seen all its ticks in time: the next one is not past, and a poll that waits
to begin is that of the present one. -/
structure OnTime (p : Poller) (start period now : Nat) (begun : List (Nat × Nat)) : Prop where
  period_eq : p.period = period
  due_eq : p.due = start + (p.ticks + 1) * period
  due_le : now ≤ p.due
  begun_eq : begun = firstPolls start period begun.length
  reached : start + begun.length * period ≤ now
  waits : p.spawned = [] ∧ p.ticks = begun.length ∨
    p.spawned = [begun.length] ∧ p.ticks = begun.length + 1 ∧
      now = start + (begun.length + 1) * period

/-- Polling has just begun. -/
theorem onTime_start : (Poller.start period start).OnTime start period start [] :=
  ⟨rfl, by simp [Poller.start], by simp [Poller.start], rfl, by simp, Or.inl ⟨rfl, rfl⟩⟩

/-- The poll after those that have begun is not late. -/
theorem OnTime.le_next (h : p.OnTime start period now begun) :
    now ≤ start + (begun.length + 1) * period := by
  rcases h.waits with ⟨-, hticks⟩ | ⟨-, -, hnow⟩
  · have hle := h.due_le
    rwa [h.due_eq, hticks] at hle
  · exact Nat.le_of_eq hnow

/-- The poll that waits to begin is the next one. -/
theorem OnTime.eq_next {n : Nat} (h : p.OnTime start period now begun) (hn : n ∈ p.spawned) :
    n = begun.length := by
  rcases h.waits with ⟨hspawned, -⟩ | ⟨hspawned, -⟩
  · simp [hspawned] at hn
  · simpa [hspawned] using hn

/-- No turn makes a poller late. -/
theorem OnTime.turn {b : Option (Nat × Nat)} {e : Option (Nat × Answer)} {t : Option PollResult}
    (h : p.OnTime start period now begun) (hperiod : 0 < period)
    (hturn : Turns now next p p' b e t) : p'.OnTime start period now (begun ++ b.toList) := by
  obtain ⟨hp, hdue, hle, hbegun, hreached, hwaits⟩ := h
  cases hturn with
  | rests | ends | takes =>
    rw [Option.toList_none, List.append_nil]
    exact ⟨hp, hdue, hle, hbegun, hreached, hwaits⟩
  | ticks hsees =>
    have hnow : now = p.due := by
      obtain ⟨-, hpast⟩ : p.isStopped = false ∧ p.due ≤ now := by
        simpa [isDue, hp, hperiod] using hsees
      exact Nat.le_antisymm hle hpast
    have hnext : p.nextDue now = start + (p.ticks + 1 + 1) * period := by
      rw [nextDue, if_neg (by omega), hp, hdue, Nat.add_mul (p.ticks + 1), Nat.one_mul,
        Nat.add_assoc]
    rcases hwaits with ⟨hspawned, hticks⟩ | ⟨-, hticks, htime⟩
    · rw [Option.toList_none, List.append_nil]
      refine ⟨hp, hnext, ?_, hbegun, hreached, Or.inr ⟨?_, ?_, ?_⟩⟩
      · dsimp only
        rw [hnext, hnow, hdue, Nat.add_mul (p.ticks + 1)]
        omega
      · simp [hspawned, hticks]
      · simp [hticks]
      · rw [hnow, hdue, hticks]
    · -- The tick after this one is still to come.
      rw [hticks, Nat.add_mul (begun.length + 1)] at hdue
      omega
  | @begins n flight hn _ =>
    rcases hwaits with ⟨hspawned, -⟩ | ⟨hspawned, hticks, htime⟩
    · simp [hspawned] at hn
    · obtain rfl : n = begun.length := by simpa [hspawned] using hn
      rw [Option.toList_some]
      refine ⟨hp, hdue, hle, ?_, ?_, Or.inl ⟨?_, ?_⟩⟩
      · rw [List.length_append, List.length_singleton, firstPolls_succ, ← hbegun, htime]
      · rw [List.length_append, List.length_singleton]
        exact Nat.le_of_eq htime.symm
      · simp [hspawned]
      · simp [hticks]

/-- A poller that goes on is on time when no tick is due and no poll waits to begin. -/
theorem OnTime.wait (h : p.OnTime start period now begun) (hperiod : 0 < period)
    (hon : p.isStopped = false) (hdue : p.isDue now = false) (hspawned : p.spawned = []) :
    p.OnTime start period (now + 1) begun := by
  have hlt : now < p.due := by simpa [isDue, hon, h.period_eq, hperiod] using hdue
  refine ⟨h.period_eq, h.due_eq, hlt, h.begun_eq, Nat.le_succ_of_le h.reached,
    Or.inl ⟨hspawned, ?_⟩⟩
  rcases h.waits with ⟨-, hticks⟩ | ⟨hone, -⟩
  · exact hticks
  · simp [hspawned] at hone

/-- Until now, no more polls have begun than are scheduled, and no fewer than were scheduled
before. -/
theorem OnTime.scheduled (h : p.OnTime start period now begun) (hperiod : 0 < period) :
    schedule start period (now - 1) <+: begun ∧ begun <+: schedule start period now := by
  have hreached := h.reached
  have hnext := h.le_next
  have hpositive : 0 < (begun.length + 1) * period := Nat.mul_pos (Nat.succ_pos _) hperiod
  rw [h.begun_eq, schedule, schedule]
  constructor
  · refine firstPolls_mono (Nat.lt_add_one_iff.mp ((Nat.div_lt_iff_lt_mul hperiod).mpr ?_))
    omega
  · refine firstPolls_mono ((Nat.le_div_iff_mul_le hperiod).mpr ?_)
    omega

/-- When no tick is due and no poll waits to begin, all polls that are scheduled have begun. -/
theorem OnTime.eq_schedule (h : p.OnTime start period now begun) (hperiod : 0 < period)
    (hon : p.isStopped = false) (hdue : p.isDue now = false) (hspawned : p.spawned = []) :
    begun = schedule start period now := by
  have hsoon := (h.wait hperiod hon hdue hspawned).scheduled hperiod
  exact (h.scheduled hperiod).2.sublist.antisymm hsoon.1.sublist

end Poller

namespace Link

variable {first l l' : Link} {start now : Nat} {past : List Instant} {deed : Deed}
  {output : Output} {isHeard : Bool} {move : Move} {p : Poller}

/-- Whether a move is one of the poller. -/
def Move.isPolling : Move → Bool
  | .tick | .beginPoll _ | .endPoll _ | .takeResult | .dropPolls => true
  | _ => false

/-- Nothing can be done about polls now. -/
def AtRest (l : Link) (now : Nat) : Prop :=
  ∀ move, move.isPolling = true → l.perform now true move = none

/-- Time passes only when nothing can be done about polls. -/
def Punctual (past : List Instant) : Prop := ∀ i ∈ past, i.deed = .wait → i.link.AtRest i.time

namespace Instant

/-- The poll that begins, by the number of its tick, with the time. -/
def begunPoll? (i : Instant) : Option (Nat × Nat) :=
  match i.deed with
  | .move (.beginPoll n) => some (n, i.time)
  | _ => none

/-- The poll that ends, by the number of its tick, with its answer. -/
def endedPoll? (i : Instant) : Option (Nat × Answer) :=
  match i.deed with
  | .move move => i.link.endedPoll? move
  | _ => none

/-- The result that is taken. -/
def taken? (i : Instant) : Option PollResult :=
  match i.deed with
  | .move move => i.link.taken? move
  | _ => none

/-- The records that are posted, with the name of the connection. -/
def posted? (i : Instant) : Option (ConnId × List Metrics.Record) :=
  match i.output.event with
  | some (.records connection records) => some (connection, records)
  | _ => none

end Instant

/-- The polls that have begun, by the numbers of their ticks, with their times. -/
def begunPolls (past : List Instant) : List (Nat × Nat) := past.filterMap Instant.begunPoll?

/-- The polls that have ended, by the numbers of their ticks, with their answers. -/
def endedPolls (past : List Instant) : List (Nat × Answer) := past.filterMap Instant.endedPoll?

/-- The results that have been taken. -/
def takenResults (past : List Instant) : List PollResult := past.filterMap Instant.taken?

/-- The results that wait to be taken. -/
def waitingResults (l : Link) : List PollResult := (l.poller.map (·.results)).getD []

/-- The records that a result yields after others. -/
def yield (earlier : List PollResult) (result : PollResult) : List Metrics.Record :=
  ((ledgerOf earlier).takePoll .present result).1

/-! ## Single deeds -/

/-- A tick is a turn, -/
theorem tick_turns (hp : l.poller = some p) (h : l.tick now = some l') :
    ∃ p', l'.poller = some p' ∧
      Poller.Turns now (l.script.next .poll).1 p p' none none none := by
  simp only [tick, hp] at h
  split at h
  · next hdue =>
    obtain rfl := Option.some.inj h
    exact ⟨_, rfl, .ticks hdue⟩
  · simp at h

/-- and so is the beginning of a poll, -/
theorem beginPoll_turns {n : Nat} (hp : l.poller = some p) (h : l.beginPoll now n = some l') :
    ∃ p', l'.poller = some p' ∧
      Poller.Turns now (l.script.next .poll).1 p p' (some (n, now)) none none := by
  simp only [beginPoll, hp] at h
  split at h
  · next hn =>
    obtain rfl := Option.some.inj h
    exact ⟨_, rfl, .begins (by simpa using hn) rfl⟩
  · simp at h

/-- its end, -/
theorem endPoll_turns {n : Nat} (hp : l.poller = some p) (h : l.endPoll now n = some l') :
    ∃ p', l'.poller = some p' ∧
      Poller.Turns now (l.script.next .poll).1 p p' none (l.endedPoll? (.endPoll n)) none := by
  simp only [endPoll, hp] at h
  split at h
  · next flight hn =>
    split at h
    · obtain rfl := Option.some.inj h
      refine ⟨_, rfl, ?_⟩
      simpa [endedPoll?, hp, hn] using Poller.Turns.ends hn
    · simp at h
  · simp at h

/-- and the taking of its result. -/
theorem takeResult_turns (hp : l.poller = some p) (h : l.takeResult true = some (l', output)) :
    ∃ p', l'.poller = some p' ∧
      Poller.Turns now (l.script.next .poll).1 p p' none none (l.taken? .takeResult) := by
  simp only [takeResult, hp] at h
  split at h
  · next result rest htakeable =>
    have hone : l.taken? .takeResult = some result := by simp [taken?, hp, htakeable]
    obtain ⟨hon, hresults⟩ := Poller.takeable_eq_cons.mp htakeable
    rw [hone]
    split at h <;> obtain ⟨rfl, -⟩ := Prod.mk.inj (Option.some.inj h) <;>
      exact ⟨_, rfl, .takes hon hresults⟩
  · simp at h

/-- The other moves leave the poller alone. -/
theorem perform_poller_eq (hmove : move.isPolling = false)
    (h : l.perform now isHeard move = some (l', output)) : l'.poller = l.poller := by
  cases move with
  | beginOperation => grind [perform, beginOperation, begin]
  | endOperation => grind [perform, endOperation]
  | beginClose => grind [perform, beginClose, begin]
  | endClose => grind [perform, endClose]
  | _ => simp [Move.isPolling] at hmove

/-- Only a poller that has been stopped goes away. -/
theorem dropPolls_gone (h : l.dropPolls = some l') :
    (∃ p, l.poller = some p ∧ p.isStopped = true) ∧ l'.poller = none := by
  unfold dropPolls at h
  split at h
  · next p hp =>
    split at h
    · next hstopped =>
      obtain rfl := Option.some.inj h
      exact ⟨⟨p, hp, hstopped⟩, rfl⟩
    · simp at h
  · simp at h

/-- What a deed does to the poller of a link, unless it stops the polls or lets the poller go
away. -/
theorem take?_turns (hp : l.poller = some p) (hstop : deed ≠ .stopPolls)
    (hdrop : deed ≠ .move .dropPolls) (h : l.take? now deed = some (l', output)) :
    ∃ p', l'.poller = some p' ∧
      Poller.Turns now (l.script.next .poll).1 p p' (Instant.begunPoll? ⟨now, l, deed, output⟩)
        (Instant.endedPoll? ⟨now, l, deed, output⟩) (Instant.taken? ⟨now, l, deed, output⟩) := by
  have hrests : Poller.Turns now (l.script.next .poll).1 p p none none none := by
    simpa using Poller.Turns.rests (f := fun x => x) fun _ => rfl
  cases deed with
  | stopPolls => exact absurd rfl hstop
  | submit | wait =>
    obtain ⟨rfl, -⟩ := Prod.mk.inj (Option.some.inj h)
    exact ⟨p, hp, hrests⟩
  | resume =>
    obtain ⟨ticket, -, rfl⟩ := Option.map_eq_some_iff.mp (of_silent h).1
    let go (f : Flight) := if f.ticket = ticket then f.resume now else f
    refine ⟨{ p with flights := p.flights.map fun x => (x.1, go x.2) }, by simp [hp, go], ?_⟩
    refine .rests fun f => ?_
    dsimp only [go]
    split <;> rfl
  | move move =>
    change l.perform now true move = some (l', output) at h
    cases move with
    | tick => exact tick_turns hp (of_silent h).1
    | beginPoll n => exact beginPoll_turns hp (of_silent h).1
    | endPoll n => exact endPoll_turns hp (of_silent h).1
    | takeResult => exact takeResult_turns hp h
    | dropPolls => exact absurd rfl hdrop
    | _ => exact ⟨p, (perform_poller_eq rfl h).trans hp, hrests⟩

/-- Without a poller nothing can be done about polls. -/
theorem atRest_of_gone (hp : l.poller = none) : l.AtRest now := by
  intro move hmove
  cases move <;>
    simp_all [perform, tick, beginPoll, endPoll, takeResult, dropPolls, Move.isPolling]

/-- Whether nothing can be done about polls now. -/
def isQuiet (l : Link) (now : Nat) : Bool :=
  match l.poller with
  | some p =>
    !p.isStopped && !p.isDue now && p.spawned.isEmpty && p.results.isEmpty &&
      p.flights.all (!·.2.isDue now)
  | none => true

/-- A link that is quiet is at rest. -/
theorem atRest_of_isQuiet (h : l.isQuiet now = true) : l.AtRest now := by
  cases hp : l.poller with
  | none => exact atRest_of_gone hp
  | some p =>
    obtain ⟨⟨⟨⟨hon, hdue⟩, hspawned⟩, hresults⟩, hflights⟩ :
        (((p.isStopped = false ∧ p.isDue now = false) ∧ p.spawned = []) ∧ p.results = []) ∧
          ∀ f ∈ p.flights, f.2.isDue now = false := by
      simpa [isQuiet, hp] using h
    intro move hmove
    cases move with
    | tick => simp [perform, tick, hp, hdue]
    | beginPoll n => simp [perform, beginPoll, hp, hspawned]
    | endPoll n =>
      simp only [perform, endPoll, hp]
      cases hn : p.flights.lookup n with
      | none => rfl
      | some flight =>
        obtain ⟨earlier, later, hsplit, -⟩ := List.lookup_eq_some_iff.mp hn
        have hnot := hflights (n, flight) (by simp [hsplit])
        simp [hnot]
    | takeResult => simp [perform, takeResult, hp, Poller.takeable, hresults]
    | dropPolls => simp [perform, dropPolls, hp, hon]
    | _ => simp [Move.isPolling] at hmove

/-- What a poller at rest has done: it has not been stopped, no tick is due, no poll waits to begin
and no result to be taken. -/
theorem AtRest.poller (h : l.AtRest now) (hp : l.poller = some p) :
    p.isStopped = false ∧ p.isDue now = false ∧ p.spawned = [] ∧ p.results = [] := by
  have hon : p.isStopped = false := by
    have hdrop := h .dropPolls rfl
    simpa [perform, dropPolls, hp] using hdrop
  refine ⟨hon, ?_, ?_, ?_⟩
  · have htick := h .tick rfl
    by_contra hdue
    simp [perform, tick, hp, hdue] at htick
  · by_contra hspawned
    obtain ⟨n, hn⟩ := List.exists_mem_of_ne_nil _ hspawned
    have hbegin := h (.beginPoll n) rfl
    simp [perform, beginPoll, hp, hn] at hbegin
  · have htake := h .takeResult rfl
    cases hresults : p.results with
    | nil => rfl
    | cons result rest =>
      simp only [perform, takeResult, hp, Poller.takeable_eq_cons.mpr ⟨hon, hresults⟩] at htake
      split at htake <;> simp at htake

/-- Records are posted only when a result is taken. -/
theorem posted?_eq_none (hmove : move ≠ .takeResult)
    (h : l.perform now isHeard move = some (l', output)) :
    Instant.posted? ⟨now, l, .move move, output⟩ = none := by
  cases move with
  | takeResult => exact absurd rfl hmove
  | endOperation =>
    have hother : ∀ id records, output.event ≠ some (.records id records) := by
      grind [perform, endOperation]
    cases hevent : output.event with
    | none => simp [Instant.posted?, hevent]
    | some event => cases event <;> simp_all [Instant.posted?]
  | _ =>
    obtain ⟨-, rfl⟩ := of_silent h
    rfl

/-- The records that a result yields are posted when it is taken, if there are any, and no others
are. -/
theorem take?_posted (hp : l.poller = some p) (h : l.take? now deed = some (l', output)) :
    Instant.posted? ⟨now, l, deed, output⟩ =
      (Instant.taken? ⟨now, l, deed, output⟩).bind fun result =>
        let records := (p.ledger.takePoll .present result).1
        if records.isEmpty then none else some (l.id, records) := by
  cases deed with
  | submit | stopPolls | wait =>
    obtain ⟨-, rfl⟩ := Prod.mk.inj (Option.some.inj h)
    rfl
  | resume =>
    obtain ⟨-, rfl⟩ := of_silent h
    rfl
  | move move =>
    change l.perform now true move = some (l', output) at h
    cases move with
    | takeResult =>
      simp only [perform, takeResult, hp] at h
      split at h
      · next result rest htakeable =>
        split at h <;> obtain ⟨-, rfl⟩ := Prod.mk.inj (Option.some.inj h) <;>
          simp_all [Instant.posted?, Instant.taken?, Link.taken?]
      · simp at h
    | _ => exact posted?_eq_none (by simp) h

/-- Where no poller is left, none comes back, and no poll begins, ends or is processed. -/
theorem take?_gone (hp : l.poller = none) (h : l.take? now deed = some (l', output)) :
    l'.poller = none ∧ Instant.begunPoll? ⟨now, l, deed, output⟩ = none ∧
      Instant.endedPoll? ⟨now, l, deed, output⟩ = none ∧
      Instant.taken? ⟨now, l, deed, output⟩ = none ∧
      Instant.posted? ⟨now, l, deed, output⟩ = none := by
  cases deed with
  | submit | stopPolls | wait =>
    obtain ⟨rfl, rfl⟩ := Prod.mk.inj (Option.some.inj h)
    exact ⟨by simp [submit, stopPolls, hp], rfl, rfl, rfl, rfl⟩
  | resume =>
    obtain ⟨hresume, rfl⟩ := of_silent h
    obtain ⟨ticket, -, rfl⟩ := Option.map_eq_some_iff.mp hresume
    exact ⟨by simp [hp], rfl, rfl, rfl, rfl⟩
  | move move =>
    change l.perform now true move = some (l', output) at h
    cases hmove : move.isPolling with
    | true => simp [atRest_of_gone hp move hmove] at h
    | false =>
      have hother : move ≠ .takeResult := by
        rintro rfl
        simp [Move.isPolling] at hmove
      refine ⟨(perform_poller_eq hmove h).trans hp, ?_, ?_, ?_, posted?_eq_none hother h⟩ <;>
        cases move <;> first | rfl | simp [Move.isPolling] at hmove

/-- The call that polls is that of a poll that begins. -/
theorem Instant.begunPoll?_isSome (i : Instant) :
    i.begunPoll?.isSome = true ↔ i.link.call? i.deed = some .poll := by
  obtain ⟨time, l, deed, output⟩ := i
  cases deed with
  | submit | stopPolls | resume | wait => simp [begunPoll?, call?]
  | move move => cases move <;> simp [begunPoll?, call?]

/-- The calls that poll are those of the polls that begin. -/
theorem Life.calls_eq (h : Life first start past now l) :
    l.calls.count .poll = first.calls.count .poll + (begunPolls past).length := by
  induction h with
  | start => rfl
  | @step past now l l' deed output h hdeed ih =>
    have hbegun := Instant.begunPoll?_isSome ⟨now, l, deed, output⟩
    rw [(take?_call hdeed).1, List.count_append, ih, begunPolls, begunPolls, filterMap_concat,
      List.length_append, Nat.add_assoc]
    congr 2
    cases hpoll : Instant.begunPoll? ⟨now, l, deed, output⟩ with
    | some poll =>
      rw [hpoll] at hbegun
      simp [hbegun.mp rfl]
    | none =>
      rw [hpoll] at hbegun
      have hother : l.call? deed ≠ some .poll := fun hcall => by simpa using hbegun.mpr hcall
      cases hcall : l.call? deed <;> simp_all

/-- Each poll that begins gets an answer. -/
theorem length_answersGot (past : List Instant) :
    (answersGot .poll past).length = (begunPolls past).length := by
  rw [answersGot, begunPolls, List.length_filterMap_eq_countP, List.length_filterMap_eq_countP]
  refine List.countP_congr fun i _ => ?_
  rw [Instant.begunPoll?_isSome, Instant.answer?]
  cases i.link.call? i.deed with
  | none => simp
  | some call => cases call <;> simp [LinkCall.kind]

/-- The next poll gets the answer that comes after those of the polls that have begun. -/
theorem Life.next_answer (h : Life first start past now l) :
    (l.script.next .poll).1 =
      (first.script.answersTo .poll).getD (begunPolls past).length {} := by
  rw [Script.next_fst, (h.answers .poll).2, length_answersGot, List.headD_eq_head?_getD,
    List.head?_drop, List.getD_eq_getElem?_getD]

end Link

end PeerCall
