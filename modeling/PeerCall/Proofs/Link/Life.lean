import PeerCall.Proofs.Link.Closing
import PeerCall.Proofs.Lists

/-!
# The life of a link

What is done at one link that is not closed, in any order: its user hands over operations and may
stop its polls, the link makes its moves, held calls go on, and time passes. Everything that is done
is kept with its time, the link as it was before, and what came of it.
-/

namespace PeerCall

namespace Script

variable {s : Script} {kind other : LinkCall.Kind}

/-- The next call of a kind gets the first answer that is left, or succeeds at once. -/
theorem next_fst : (s.next kind).1 = (s.answersTo kind).headD {} := by
  unfold next
  split <;> simp_all

/-- An answer is used up by the call that gets it. -/
theorem answersTo_next : (s.next kind).2.answersTo other =
    if other = kind then (s.answersTo kind).tail else s.answersTo other := by
  unfold next
  split
  · next hnone =>
    split
    · next heq => rw [heq, hnone, List.tail_nil]
    · rfl
  · next answer rest hanswers =>
    rw [hanswers, List.tail_cons]
    by_cases hother : other = kind
    · simp [answersTo, hother]
    · have hhead : (other == kind) = false := beq_eq_false_iff_ne.mpr hother
      have hkept : (s.answers.filter (·.1 ≠ kind)).lookup other = s.answers.lookup other := by
        rw [lookup_filter_key (· ≠ kind), if_pos (by simpa using hother)]
      rw [if_neg hother, answersTo, answersTo, List.lookup_cons, hhead, hkept]

end Script

namespace Link

/-- What is done at a link by its user, by itself or by time. -/
inductive Deed
  | submit (operation : Operation)
  | stopPolls
  | move (move : Move)
  /-- The call that has been held longest goes on. -/
  | resume
  /-- A millisecond passes. -/
  | wait
  deriving DecidableEq

/-- The time after a deed. -/
def Deed.clock (now : Nat) : Deed → Nat
  | .wait => now + 1
  | _ => now

/-- What a deed makes of a link and what comes of it, if it can be done now. All events that the
link posts are received. -/
def take? (l : Link) (now : Nat) : Deed → Option (Link × Output)
  | .submit operation => some (l.submit operation, {})
  | .stopPolls => some (l.stopPolls, {})
  | .move move => l.perform now true move
  | .resume => (l.resume? now).map (·, {})
  | .wait => some (l, {})

/-- One deed in the life of a link. -/
structure Instant where
  time : Nat
  /-- The link before the deed. -/
  link : Link
  deed : Deed
  output : Output

/-- A life from a link at a time: what has been done so far, the time now and the link as it is. -/
inductive Life (first : Link) (start : Nat) : List Instant → Nat → Link → Prop
  | start : Life first start [] start first
  | step {past : List Instant} {now : Nat} {l l' : Link} {deed : Deed} {output : Output}
      (h : Life first start past now l) (hdeed : l.take? now deed = some (l', output)) :
      Life first start (past ++ [⟨now, l, deed, output⟩]) (deed.clock now) l'

variable {first l l' : Link} {start now now' : Nat} {past more : List Instant} {deed : Deed}
  {output : Output}

/-- No deed changes the name of a link. -/
theorem take?_id (h : l.take? now deed = some (l', output)) : l'.id = l.id := by
  cases deed with
  | submit | stopPolls | wait =>
    obtain ⟨rfl, -⟩ := Prod.mk.inj (Option.some.inj h)
    rfl
  | move => exact (perform_shifts h).id_eq
  | resume => exact (resume_shifts (of_silent h).1).id_eq

/-! ## Calls -/

/-- The call that a deed begins. -/
def call? (l : Link) : Deed → Option LinkCall
  | .move .beginOperation => l.worker.waiting.head?.map .run
  | .move (.beginPoll _) => some .poll
  | .move .beginClose => some .close
  | _ => none

/-- A move begins the call that it is for, and takes the next answer for it. -/
theorem perform_call {move : Move} (h : l.perform now true move = some (l', output)) :
    l'.calls = l.calls ++ (l.call? (.move move)).toList ∧
      l'.script = ((l.call? (.move move)).map fun call => (l.script.next call.kind).2).getD
        l.script := by
  cases move with
  | beginOperation =>
    obtain ⟨operation, hcall, hcalls, hscript⟩ : ∃ operation,
        l.worker.waiting.head? = some operation ∧ l'.calls = l.calls ++ [.run operation] ∧
          l'.script = (l.script.next (.run operation.kind)).2 := by
      grind [perform, beginOperation, begin, LinkCall.kind]
    simp [call?, hcall, hcalls, hscript, LinkCall.kind]
  | beginPoll => grind [perform, beginPoll, begin, call?]
  | beginClose => grind [perform, beginClose, begin, call?]
  | endOperation => grind [perform, endOperation, call?]
  | tick => grind [perform, tick, call?]
  | endPoll => grind [perform, endPoll, call?]
  | takeResult => grind [perform, takeResult, call?]
  | dropPolls => grind [perform, dropPolls, call?]
  | endClose => grind [perform, endClose, call?]

/-- A deed begins at most one call, which gets the next answer to calls of its kind. -/
theorem take?_call (h : l.take? now deed = some (l', output)) :
    l'.calls = l.calls ++ (l.call? deed).toList ∧
      l'.script = ((l.call? deed).map fun call => (l.script.next call.kind).2).getD l.script := by
  cases deed with
  | submit | stopPolls | wait =>
    obtain ⟨rfl, -⟩ := Prod.mk.inj (Option.some.inj h)
    exact ⟨by simp [call?, submit, stopPolls], rfl⟩
  | resume =>
    obtain ⟨ticket, -, rfl⟩ := Option.map_eq_some_iff.mp (of_silent h).1
    exact ⟨by simp [call?], rfl⟩
  | move => exact perform_call h

/-- The answers that are left for the calls of a kind. -/
theorem take?_answersTo (kind : LinkCall.Kind) (h : l.take? now deed = some (l', output)) :
    l'.script.answersTo kind = if (l.call? deed).map (·.kind) = some kind then
      (l.script.answersTo kind).tail else l.script.answersTo kind := by
  rw [(take?_call h).2]
  cases l.call? deed with
  | none => simp
  | some call =>
    by_cases hkind : call.kind = kind
    · simp [Script.answersTo_next, hkind]
    · simp [Script.answersTo_next, hkind, Ne.symm hkind]

/-- The answer that a call of a kind gets in an instant, if one begins. -/
def Instant.answer? (kind : LinkCall.Kind) (i : Instant) : Option Answer :=
  if (i.link.call? i.deed).map (·.kind) = some kind then some (i.link.script.next kind).1 else none

/-- The answers that the calls of a kind have got. -/
def answersGot (kind : LinkCall.Kind) (past : List Instant) : List Answer :=
  past.filterMap (Instant.answer? kind)

/-- What the calls of a kind get one after another: the answers of a script, and success at once
when there are no more. -/
def answersFrom (s : Script) (kind : LinkCall.Kind) (n : Nat) : List Answer :=
  (List.range n).map fun i => (s.answersTo kind).getD i {}

namespace Life

/-- A link keeps its name all its life. -/
theorem id_eq (h : Life first start past now l) : l.id = first.id := by
  induction h with
  | start => rfl
  | step _ hdeed ih => exact (take?_id hdeed).trans ih

/-- Whatever has been done, it was done by now. -/
theorem time_le (h : Life first start past now l) : ∀ i ∈ past, i.time ≤ now := by
  induction h with
  | start => simp
  | @step past now l l' deed output h hdeed ih =>
    have hclock : now ≤ deed.clock now := by cases deed <;> simp [Deed.clock]
    intro i hi
    rcases List.mem_append.mp hi with hi | hi
    · exact Nat.le_trans (ih i hi) hclock
    · rw [List.mem_singleton.mp hi]
      exact hclock

/-- What was done before a deed is a life of its own, and the deed could be done then. -/
theorem of_append {i : Instant} (h : Life first start (past ++ i :: more) now l) :
    Life first start past i.time i.link ∧
      ∃ next, i.link.take? i.time i.deed = some (next, i.output) := by
  generalize hall : past ++ i :: more = all at h
  induction h generalizing more with
  | start => simp at hall
  | @step earlier now l l' deed output h hdeed ih =>
    rcases concat_eq_split hall.symm with ⟨rfl, rfl⟩ | ⟨rest, hrest⟩
    · exact ⟨h, l', hdeed⟩
    · exact ih hrest.symm

/-- So is what was done before a later deed. -/
theorem of_later {i j : Instant} (h : Life first start (past ++ i :: more) now l) (hj : j ∈ more) :
    ∃ between, (∀ k ∈ past ++ i :: between, k ∈ past ++ i :: more) ∧
      Life first start (past ++ i :: between) j.time j.link ∧
        ∃ next, j.link.take? j.time j.deed = some (next, j.output) := by
  obtain ⟨between, rest, rfl⟩ := List.append_of_mem hj
  have hsplit : past ++ i :: (between ++ j :: rest) = (past ++ i :: between) ++ j :: rest := by
    simp
  rw [hsplit] at h ⊢
  exact ⟨between, fun k hk => List.mem_append_left _ hk, h.of_append⟩

/-- What holds after a deed and is kept by every deed holds from then on. -/
theorem keeps {P : Link → Prop} {i : Instant} (h : Life first start (past ++ i :: more) now l)
    (hafter : ∀ next, i.link.take? i.time i.deed = some (next, i.output) → P next)
    (hkeeps : ∀ (l l' : Link) (now : Nat) (deed : Deed) (output : Output), P l →
      l.take? now deed = some (l', output) → P l') : P l := by
  generalize hall : past ++ i :: more = all at h
  induction h generalizing more with
  | start => simp at hall
  | @step earlier now l l' deed output h hdeed ih =>
    rcases concat_eq_split hall.symm with ⟨rfl, rfl⟩ | ⟨rest, hrest⟩
    · exact hafter l' hdeed
    · exact hkeeps l l' now deed output (ih hrest.symm) hdeed

/-- The calls of a kind get their answers in the order of the script, and the rest is left. -/
theorem answers (kind : LinkCall.Kind) (h : Life first start past now l) :
    answersGot kind past = answersFrom first.script kind (answersGot kind past).length ∧
      l.script.answersTo kind =
        (first.script.answersTo kind).drop (answersGot kind past).length := by
  induction h with
  | start => exact ⟨rfl, rfl⟩
  | @step past now l l' deed output h hdeed ih =>
    obtain ⟨hgot, hleft⟩ := ih
    have hnext := take?_answersTo kind hdeed
    by_cases hcall : (l.call? deed).map (·.kind) = some kind
    · have hconcat : answersGot kind (past ++ [⟨now, l, deed, output⟩]) =
          answersGot kind past ++ [(l.script.next kind).1] := by
        simp [answersGot, Instant.answer?, hcall]
      rw [hconcat, List.length_append, List.length_singleton]
      constructor
      · rw [answersFrom, List.range_succ, List.map_append, ← answersFrom, ← hgot,
          List.map_singleton, Script.next_fst, hleft, List.headD_eq_head?_getD, List.head?_drop,
          List.getD_eq_getElem?_getD]
      · rw [hnext, if_pos hcall, hleft, List.tail_drop]
    · have hconcat :
          answersGot kind (past ++ [⟨now, l, deed, output⟩]) = answersGot kind past := by
        simp [answersGot, Instant.answer?, hcall]
      rw [hconcat, hnext, if_neg hcall]
      exact ⟨hgot, hleft⟩

end Life

/-! ## Playing -/

/-- Does some deeds, if they can be done one after another. -/
def play (l : Link) (now : Nat) : List Deed → Option (List Instant × Nat × Link)
  | [] => some ([], now, l)
  | deed :: rest =>
    (l.take? now deed).bind fun (l', output) =>
      (l'.play (deed.clock now) rest).map fun (past, last) =>
        (⟨now, l, deed, output⟩ :: past, last)

/-- A life goes on with all deeds that can be done. -/
theorem Life.play {deeds : List Deed} (h : Life first start past now l)
    (hplay : l.play now deeds = some (more, now', l')) :
    Life first start (past ++ more) now' l' := by
  induction deeds generalizing past now l more with
  | nil =>
    obtain ⟨rfl, rfl, rfl⟩ : [] = more ∧ now = now' ∧ l = l' := by
      simpa [Link.play] using hplay
    simpa using h
  | cons deed rest ih =>
    obtain ⟨⟨next, output⟩, hdeed, hrest⟩ := Option.bind_eq_some_iff.mp hplay
    obtain ⟨⟨later, last⟩, hlater, heq⟩ := Option.map_eq_some_iff.mp hrest
    obtain ⟨rfl, rfl⟩ := Prod.mk.inj heq
    have hall := ih (h.step hdeed) hlater
    rwa [List.append_assoc] at hall

end Link

end PeerCall
