import PeerCall.Proofs.Agent.Coherence

/-!
# Sending what waits

An outbox is either emptied, or held up at the first message that the bus refuses. This file says
so for the outbox and for a step that ends with sending, and states what such a step leaves alone.
-/

namespace PeerCall

/-- An outbox is drained completely, or up to the first message that cannot be sent. -/
theorem Outbox.drain_cases (peer : String) (reply : Nat → Option BusError) (o : Outbox) :
    o.drain peer reply = ⟨o.map (.send peer · none), [], none⟩ ∨
      ∃ sent text rest error, o = sent ++ text :: rest ∧ o.drain peer reply =
        ⟨sent.map (.send peer · none) ++ [.send peer text (some error), .warn (.queueHeld error)],
          text :: rest, some error⟩ := by
  induction o generalizing reply with
  | nil => exact Or.inl rfl
  | cons text rest ih =>
    cases hreply : reply 0 with
    | some error => exact Or.inr ⟨[], text, rest, error, rfl, by simp [drain, hreply]⟩
    | none =>
      rcases ih (fun i => reply (i + 1)) with hall | ⟨sent, held, left, error, hsplit, hdrain⟩
      · left
        simp [drain, hreply, hall]
      · right
        exact ⟨text :: sent, held, left, error, by simp [hsplit], by simp [drain, hreply, hdrain]⟩

namespace Agent

variable {a : Agent} {r : Replies}

/-- A step that ends with sending empties the outbox, or is held up and says so. -/
theorem flush_cases {peer : String} (hpeer : a.call.peer = some peer) :
    finish (a.flush r) = ({ a with call := { a.call with outbox := [] } },
        a.call.outbox.map (.send peer · none)) ∨
      ∃ sent text rest error, a.call.outbox = sent ++ text :: rest ∧
        finish (a.flush r) = ({ a with call := { a.call with outbox := text :: rest } },
          sent.map (.send peer · none) ++ [.send peer text (some error),
            .warn (.queueHeld error), .warn (.unhandled (.undelivered error))]) := by
  rw [finish_flush hpeer]
  rcases a.call.outbox.drain_cases peer r.send with hall | ⟨sent, text, rest, error, hsplit, hheld⟩
  · left
    simp [hall]
  · right
    exact ⟨sent, text, rest, error, hsplit, by simp [hheld]⟩

/-- Sending changes nothing but the outbox. -/
theorem flush_frame : ∃ outbox,
    (finish (a.flush r)).1 = { a with call := { a.call with outbox := outbox } } := by
  cases hpeer : a.call.peer with
  | none => exact ⟨a.call.outbox, by rw [flush_of_no_peer hpeer]; rfl⟩
  | some peer => exact ⟨_, by rw [finish_flush hpeer]⟩

/-- Sending keeps the connection, -/
@[simp] theorem flush_live : (finish (a.flush r)).1.live = a.live := by
  obtain ⟨outbox, h⟩ := flush_frame (a := a) (r := r)
  rw [h]

/-- the numbers that have been given out, -/
@[simp] theorem flush_issued : (finish (a.flush r)).1.issued = a.issued := by
  obtain ⟨outbox, h⟩ := flush_frame (a := a) (r := r)
  rw [h]

/-- the polls, -/
@[simp] theorem flush_polled : (finish (a.flush r)).1.polled = a.polled := by
  obtain ⟨outbox, h⟩ := flush_frame (a := a) (r := r)
  rw [h]

/-- the peer, -/
@[simp] theorem flush_peer : (finish (a.flush r)).1.call.peer = a.call.peer := by
  obtain ⟨outbox, h⟩ := flush_frame (a := a) (r := r)
  rw [h]

/-- the phase, -/
@[simp] theorem flush_phase : (finish (a.flush r)).1.call.phase = a.call.phase := by
  obtain ⟨outbox, h⟩ := flush_frame (a := a) (r := r)
  rw [h]

/-- and the part of this side. -/
@[simp] theorem flush_isCaller : (finish (a.flush r)).1.call.isCaller = a.call.isCaller := by
  obtain ⟨outbox, h⟩ := flush_frame (a := a) (r := r)
  rw [h]

/-! ## What sending and the end of a call do not do -/

variable {α β : Type} {f : Effect → Option α}

/-- What is done in the same way for each member of a list is of one kind. -/
theorem filterMap_map_eq_nil {g : β → Effect} (hg : ∀ x, f (g x) = none) (l : List β) :
    (l.map g).filterMap f = [] := by
  simp [hg]

/-- Sending does nothing but send and warn. -/
theorem filterMap_flush (hsend : ∀ peer text error, f (.send peer text error) = none)
    (hwarn : ∀ warning, f (.warn warning) = none) :
    (finish (a.flush r)).2.filterMap f = [] := by
  cases hpeer : a.call.peer with
  | none => rw [flush_of_no_peer hpeer]; rfl
  | some peer =>
    rcases flush_cases (r := r) hpeer with h | ⟨sent, text, rest, error, -, h⟩ <;>
      simp [h, hsend, hwarn]

/-- The end of a call stops the polls, closes the connection and tells the user. -/
theorem filterMap_parting {failure : Option String}
    (hnotify : ∀ notice, f (.notify notice) = none) (hstop : ∀ id, f (.stopPolls id) = none)
    (hclose : ∀ id, f (.close id) = none) : (a.parting failure).filterMap f = [] := by
  cases hp : a.polled <;> cases hl : a.live <;> simp [parting, hp, hl, hnotify, hstop, hclose]

end Agent

end PeerCall
