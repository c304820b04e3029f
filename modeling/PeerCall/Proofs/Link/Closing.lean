import PeerCall.Proofs.Link.Worker

/-!
# The end of a link

Until it is closed a link may run operations and polls. From then on nothing begins on it but the
call that closes it, which can begin at once and begins only once, and polls that a tick has started
before the poller was stopped. Of these none begins any more when the poller has gone away.
-/

namespace PeerCall.Link

variable {l l' : Link} {now : Nat} {isHeard : Bool}

/-- How often the call that closes a link has begun. -/
def closes (l : Link) : Nat := l.calls.count .close

/-- Whether a link polls: it has a poller that has not been stopped. -/
def isPolling (l : Link) : Bool := l.poller.any (!·.isStopped)

/-- The polls that a tick has started and that have not begun. -/
def waitingPolls (l : Link) : List Nat := (l.poller.map (·.spawned)).getD []

/-- A link that nobody has asked to close. -/
structure IsOpen (l : Link) : Prop where
  closing : l.closing = .open
  closes_eq : l.closes = 0

/-- A link that is to be closed or is closed: nothing is left to its worker, and its poller has been
stopped. -/
structure IsShut (l : Link) : Prop where
  isDone : l.worker.isDone = true
  waiting : l.worker.waiting = []
  current : l.worker.current = none
  stopped : l.isPolling = false
  closing : l.closing = .asked ∧ l.closes = 0 ∨
    ((∃ flight, l.closing = .flying flight) ∨ l.closing = .over) ∧ l.closes = 1

/-- What still begins at a link after it has been closed: the call that closes it, if it has not
begun before, and no more polls than have been started and have not begun. -/
structure WindsDown (l l' : Link) : Prop where
  id_eq : l'.id = l.id
  calls : ∃ more, l'.calls = l.calls ++ more ∧ (∀ call ∈ more, call = .close ∨ call = .poll) ∧
    more.count .poll + l'.waitingPolls.length ≤ l.waitingPolls.length
  closes_le : l'.closes ≤ max 1 l.closes

/-- Nothing begins, and no more polls wait to begin. -/
theorem WindsDown.of_calls_eq (hid : l'.id = l.id) (hcalls : l'.calls = l.calls)
    (hwaits : l'.waitingPolls.length ≤ l.waitingPolls.length) : l.WindsDown l' := by
  refine ⟨hid, ⟨[], by rw [hcalls, List.append_nil], by simp, by simpa using hwaits⟩, ?_⟩
  rw [closes, hcalls]
  exact Nat.le_max_right _ _

/-- A link stays as it is. -/
theorem WindsDown.refl : l.WindsDown l := .of_calls_eq rfl rfl (Nat.le_refl _)

/-- What begins first and what begins later begins in all. -/
theorem WindsDown.trans {l'' : Link} (h : l.WindsDown l') (h' : l'.WindsDown l'') :
    l.WindsDown l'' := by
  obtain ⟨more, hcalls, hkinds, hpolls⟩ := h.calls
  obtain ⟨later, hcalls', hkinds', hpolls'⟩ := h'.calls
  refine ⟨h'.id_eq.trans h.id_eq, ⟨more ++ later, ?_, ?_, ?_⟩, ?_⟩
  · rw [hcalls', hcalls, List.append_assoc]
  · exact fun call hcall => (List.mem_append.mp hcall).elim (hkinds call) (hkinds' call)
  · rw [List.count_append]
    omega
  · have hle := h.closes_le
    have hle' := h'.closes_le
    omega

/-- A new link is open. -/
theorem isOpen_new {id : ConnId} {script : Script} : IsOpen { id := id, script := script } :=
  ⟨rfl, rfl⟩

/-- Closing an open link stops its worker. Its polls are stopped before, if there are any. -/
theorem IsOpen.close (h : l.IsOpen) (hstopped : l.isPolling = false) : l.close.IsShut :=
  ⟨rfl, rfl, rfl, hstopped, Or.inl ⟨rfl, h.closes_eq⟩⟩

/-- A link whose polls have been stopped does not poll. -/
@[simp] theorem isPolling_stopPolls : l.stopPolls.isPolling = false := by
  cases hp : l.poller <;> simp [isPolling, stopPolls, hp]

/-- The polls that wait to begin still wait when polls are stopped. -/
@[simp] theorem waitingPolls_stopPolls : l.stopPolls.waitingPolls = l.waitingPolls := by
  cases hp : l.poller <;> simp [waitingPolls, stopPolls, hp]

/-- Stopping polls begins nothing and starts no polls. -/
theorem windsDown_stopPolls : l.WindsDown l.stopPolls :=
  .of_calls_eq rfl rfl (by simp)

/-! ## Moves -/

/-- How a move changes what has begun on a link, and whether it is closed. -/
inductive Ages (l l' : Link) : Prop
  | works (hclosing : l'.closing = l.closing)
      (hcalls : l'.calls = l.calls ∨ ∃ call, call ≠ .close ∧ l'.calls = l.calls ++ [call])
  | beginsClose {flight : Flight} (hclosing : l.closing = .asked)
      (hflying : l'.closing = .flying flight) (hcalls : l'.calls = l.calls ++ [.close])
  | endsClose {flight : Flight} (hclosing : l.closing = .flying flight)
      (hover : l'.closing = .over) (hcalls : l'.calls = l.calls)

/-- Every move of a link does one of these. -/
theorem perform_ages {move : Move} {output : Output}
    (h : l.perform now isHeard move = some (l', output)) : Ages l l' := by
  cases move with
  | beginOperation => grind [perform, beginOperation, begin, Ages]
  | endOperation => grind [perform, endOperation, Ages]
  | tick => grind [perform, tick, Ages]
  | beginPoll => grind [perform, beginPoll, begin, Ages]
  | endPoll => grind [perform, endPoll, Ages]
  | takeResult => grind [perform, takeResult, Ages]
  | dropPolls => grind [perform, dropPolls, Ages]
  | beginClose => grind [perform, beginClose, begin, Ages]
  | endClose => grind [perform, endClose, Ages]

/-- No move of a link starts its poller, or makes one that has been stopped go on. -/
theorem perform_poller {move : Move} {output : Output} {p' : Poller}
    (h : l.perform now isHeard move = some (l', output)) (hp' : l'.poller = some p') :
    ∃ p, l.poller = some p ∧ p.isStopped = p'.isStopped := by
  cases move with
  | beginOperation => grind [perform, beginOperation, begin]
  | endOperation => grind [perform, endOperation]
  | tick => grind [perform, tick]
  | beginPoll => grind [perform, beginPoll, begin]
  | endPoll => grind [perform, endPoll]
  | takeResult => grind [perform, takeResult]
  | dropPolls => grind [perform, dropPolls]
  | beginClose => grind [perform, beginClose, begin]
  | endClose => grind [perform, endClose]

/-- So no move makes a link poll. -/
theorem perform_isPolling {move : Move} {output : Output}
    (h : l.perform now isHeard move = some (l', output)) (hpolls : l'.isPolling = true) :
    l.isPolling = true := by
  cases hp' : l'.poller with
  | none => simp [isPolling, hp'] at hpolls
  | some p' =>
    obtain ⟨p, hp, hsame⟩ := perform_poller h hp'
    simpa [isPolling, hp, hp', hsame] using hpolls

/-- Only the call that closes a link counts as such. -/
theorem closes_eq_of_works
    (h : l'.calls = l.calls ∨ ∃ call, call ≠ .close ∧ l'.calls = l.calls ++ [call]) :
    l'.closes = l.closes := by
  rcases h with hsame | ⟨call, hother, hmore⟩
  · rw [closes, hsame, closes]
  · have hnone : [call].count .close = 0 :=
      List.count_eq_zero_of_not_mem (by simpa using Ne.symm hother)
    rw [closes, hmore, List.count_append, hnone, Nat.add_zero, closes]

/-- A link that nobody has asked to close goes on as such. -/
theorem IsOpen.ages (hl : l.IsOpen) (h : Ages l l') : l'.IsOpen := by
  cases h with
  | works hclosing hcalls =>
    exact ⟨hclosing.trans hl.closing, (closes_eq_of_works hcalls).trans hl.closes_eq⟩
  | beginsClose hclosing | endsClose hclosing => simp [hl.closing] at hclosing

/-- The poller of a link that does not poll has been stopped. -/
theorem isStopped_of_poller {p : Poller} (hstopped : l.isPolling = false)
    (hp : l.poller = some p) : p.isStopped = true := by
  simpa [isPolling, hp] using hstopped

/-- A link that does not poll sees no tick. -/
theorem tick_eq_none (hstopped : l.isPolling = false) : l.tick now = none := by
  cases hp : l.poller with
  | none => simp [tick, hp]
  | some p => simp [tick, hp, Poller.isDue, isStopped_of_poller hstopped hp]

/-- A link that does not poll takes no result. -/
theorem takeResult_eq_none (hstopped : l.isPolling = false) : l.takeResult isHeard = none := by
  cases hp : l.poller with
  | none => simp [takeResult, hp]
  | some p => simp [takeResult, hp, Poller.takeable, isStopped_of_poller hstopped hp]

/-- Only a tick starts polls. -/
theorem perform_waitingPolls {move : Move} {output : Output} (hmove : move ≠ .tick)
    (h : l.perform now isHeard move = some (l', output)) : l'.waitingPolls ⊆ l.waitingPolls := by
  cases move with
  | tick => exact absurd rfl hmove
  | beginOperation => grind [perform, beginOperation, begin, waitingPolls]
  | endOperation => grind [perform, endOperation, waitingPolls]
  | beginPoll n => grind [perform, beginPoll, begin, waitingPolls, List.erase_subset]
  | endPoll => grind [perform, endPoll, waitingPolls]
  | takeResult => grind [perform, takeResult, waitingPolls]
  | dropPolls => grind [perform, dropPolls, waitingPolls]
  | beginClose => grind [perform, beginClose, begin, waitingPolls]
  | endClose => grind [perform, endClose, waitingPolls]

/-- The worker has nothing to do on a link that is shut, and nothing is sampled. -/
theorem IsShut.perform_eq_none {move : Move} (hl : l.IsShut)
    (hmove : move ∈ [.beginOperation, .endOperation, .tick, .takeResult]) :
    l.perform now isHeard move = none := by
  simp only [List.mem_cons, List.not_mem_nil, or_false] at hmove
  rcases hmove with rfl | rfl | rfl | rfl
  · simp [perform, beginOperation, hl.waiting]
  · simp [perform, endOperation, hl.current]
  · simp [perform, tick_eq_none hl.stopped]
  · simp [perform, takeResult_eq_none hl.stopped]

/-- A poll that begins on a link is one that has been started. -/
theorem beginPoll_winds {n : Nat} (h : l.beginPoll now n = some l') :
    l'.calls = l.calls ++ [.poll] ∧ l'.waitingPolls.length + 1 = l.waitingPolls.length := by
  unfold beginPoll at h
  split at h
  · next p hp =>
    split at h
    · next hn =>
      obtain rfl := Option.some.inj h
      have hmem : n ∈ p.spawned := by simpa using hn
      have hpositive := List.length_pos_of_mem hmem
      refine ⟨rfl, ?_⟩
      simp only [waitingPolls, hp, Option.map_some, Option.getD_some,
        List.length_erase_of_mem hmem]
      omega
    · simp at h
  · simp at h

/-- A poll that ends leaves those that have not begun. -/
theorem endPoll_winds {n : Nat} (h : l.endPoll now n = some l') :
    l'.calls = l.calls ∧ l'.waitingPolls = l.waitingPolls := by
  grind [endPoll, waitingPolls]

/-- A poller that goes away leaves no poll that could begin. -/
theorem dropPolls_winds (h : l.dropPolls = some l') :
    l'.calls = l.calls ∧ l'.waitingPolls = [] := by
  grind [dropPolls, waitingPolls]

/-- What a move begins on a link that is shut: the call that closes it, and that only once, or a
poll that has been started before. -/
theorem IsShut.winds {move : Move} {output : Output} (hl : l.IsShut)
    (h : l.perform now isHeard move = some (l', output)) : l.WindsDown l' := by
  have hid : l'.id = l.id := (perform_shifts h).id_eq
  cases move with
  | beginOperation | endOperation | tick | takeResult =>
    rw [hl.perform_eq_none (by simp)] at h
    simp at h
  | beginPoll n =>
    obtain ⟨hcalls, hwaits⟩ := beginPoll_winds (of_silent h).1
    have hsame : l'.closes = l.closes := closes_eq_of_works (.inr ⟨.poll, by simp, hcalls⟩)
    refine ⟨hid, ⟨[.poll], hcalls, by simp, ?_⟩, hsame ▸ Nat.le_max_right _ _⟩
    rw [List.count_singleton_self, Nat.add_comm]
    exact Nat.le_of_eq hwaits
  | endPoll n =>
    obtain ⟨hcalls, hwaits⟩ := endPoll_winds (of_silent h).1
    exact .of_calls_eq hid hcalls (hwaits ▸ Nat.le_refl _)
  | dropPolls =>
    obtain ⟨hcalls, hwaits⟩ := dropPolls_winds (of_silent h).1
    exact .of_calls_eq hid hcalls (hwaits ▸ Nat.zero_le _)
  | beginClose =>
    have hnone : l.closes = 0 := by
      rcases hl.closing with ⟨-, hnone⟩ | ⟨⟨flight, hflying⟩ | hover, -⟩
      · exact hnone
      · simp [perform, beginClose, hflying] at h
      · simp [perform, beginClose, hover] at h
    obtain ⟨hcalls, hpoller⟩ : l'.calls = l.calls ++ [.close] ∧ l'.poller = l.poller := by
      grind [perform, beginClose, begin]
    refine ⟨hid, ⟨[.close], hcalls, by simp, by simp [waitingPolls, hpoller]⟩, ?_⟩
    have hone : l'.closes = l.closes + 1 := by simp [closes, hcalls]
    omega
  | endClose =>
    obtain ⟨hcalls, hpoller⟩ : l'.calls = l.calls ∧ l'.poller = l.poller := by
      grind [perform, endClose]
    exact .of_calls_eq hid hcalls (by simp [waitingPolls, hpoller])

/-- A link that is shut stays so, and only what may still begin on it does. -/
theorem IsShut.perform {move : Move} {output : Output} (hl : l.IsShut)
    (h : l.perform now isHeard move = some (l', output)) : l'.IsShut ∧ l.WindsDown l' := by
  have hworker : l'.worker = l.worker := by
    cases move with
    | beginOperation | endOperation | tick | takeResult =>
      rw [hl.perform_eq_none (by simp)] at h
      simp at h
    | beginPoll => grind [Link.perform, beginPoll, begin]
    | endPoll => grind [Link.perform, endPoll]
    | dropPolls => grind [Link.perform, dropPolls]
    | beginClose => grind [Link.perform, beginClose, begin]
    | endClose => grind [Link.perform, endClose]
  have hstopped : l'.isPolling = false := Bool.eq_false_iff.mpr fun hpolls =>
    Bool.eq_false_iff.mp hl.stopped (perform_isPolling h hpolls)
  refine ⟨⟨by rw [hworker, hl.isDone], by rw [hworker, hl.waiting], by rw [hworker, hl.current],
    hstopped, ?_⟩, hl.winds h⟩
  cases perform_ages h with
  | works hsame hcalls =>
    rw [hsame, closes_eq_of_works hcalls]
    exact hl.closing
  | @beginsClose flight hasked hflying hcalls =>
    have hnone : l.closes = 0 := by
      rcases hl.closing with ⟨-, hnone⟩ | ⟨⟨flight, hother⟩ | hother, -⟩
      · exact hnone
      · simp [hasked] at hother
      · simp [hasked] at hother
    refine Or.inr ⟨Or.inl ⟨flight, hflying⟩, ?_⟩
    rw [closes, hcalls, List.count_append, ← closes, hnone]
    rfl
  | @endsClose flight hflying hover hcalls =>
    have hone : l.closes = 1 := by
      rcases hl.closing with ⟨hasked, -⟩ | ⟨-, hone⟩
      · simp [hflying] at hasked
      · exact hone
    exact Or.inr ⟨Or.inr hover, by rw [closes, hcalls, ← closes, hone]⟩

/-- A held call that goes on changes neither what has begun nor whether the link is closed. -/
theorem IsOpen.resume (hl : l.IsOpen) (h : l.resume? now = some l') : l'.IsOpen := by
  obtain ⟨ticket, -, rfl⟩ := Option.map_eq_some_iff.mp h
  exact ⟨by simp [hl.closing], hl.closes_eq⟩

/-- Nor does it make a link poll. -/
theorem resume_isPolling (h : l.resume? now = some l') : l'.isPolling = l.isPolling := by
  obtain ⟨ticket, -, rfl⟩ := Option.map_eq_some_iff.mp h
  cases hp : l.poller <;> simp [isPolling, hp]

/-- The polls that wait to begin still wait when a held call goes on. -/
theorem resume_waitingPolls (h : l.resume? now = some l') : l'.waitingPolls = l.waitingPolls := by
  obtain ⟨ticket, -, rfl⟩ := Option.map_eq_some_iff.mp h
  cases hp : l.poller <;> simp [waitingPolls, hp]

/-- A link that is shut stays so when a held call goes on. -/
theorem IsShut.resume (hl : l.IsShut) (h : l.resume? now = some l') :
    l'.IsShut ∧ l.WindsDown l' := by
  have hstopped := (resume_isPolling h).trans hl.stopped
  have hwaits := resume_waitingPolls h
  obtain ⟨hdone, hwaiting, hcurrent, -, hclosing⟩ := hl
  obtain ⟨ticket, -, rfl⟩ := Option.map_eq_some_iff.mp h
  refine ⟨⟨hdone, hwaiting, by simp [hcurrent], hstopped, ?_⟩, .of_calls_eq rfl rfl ?_⟩
  · rcases hclosing with ⟨hasked, hnone⟩ | ⟨⟨flight, hflying⟩ | hover, hone⟩
    · exact Or.inl ⟨by simp [hasked], hnone⟩
    · exact Or.inr ⟨Or.inl ⟨if flight.ticket = ticket then flight.resume now else flight,
        by simp [hflying]⟩, hone⟩
    · exact Or.inr ⟨Or.inr (by simp [hover]), hone⟩
  · exact hwaits ▸ Nat.le_refl _

/-- The call that closes a link can begin as soon as the link is to be closed. -/
theorem IsShut.canClose (hl : l.IsShut) (hcloses : l.closes = 0) :
    (l.perform now isHeard .beginClose).isSome = true := by
  have hasked : l.closing = .asked := by
    rcases hl.closing with ⟨hasked, -⟩ | ⟨-, hone⟩
    · exact hasked
    · simp [hcloses] at hone
  simp [Link.perform, beginClose, hasked]

/-- The poller of a link that is shut can go away at any time. -/
theorem IsShut.canDrop (hl : l.IsShut) (hpoller : l.poller ≠ none) :
    (l.perform now isHeard .dropPolls).isSome = true := by
  obtain ⟨p, hp⟩ := Option.ne_none_iff_exists'.mp hpoller
  simp [Link.perform, dropPolls, hp, isStopped_of_poller hl.stopped hp]

end PeerCall.Link
