import Mathlib.Data.List.Basic
import PeerCall.Proofs.Agent.History
import PeerCall.Proofs.Agent.Sending

/-!
# Sessions

A session is the time of one connection: it begins with a step that asks for the connection, and
goes on until a step ends the call. No two sessions share a number, so the steps of a run that
belong to a connection are the steps of one session. What is shown of sessions, by induction on
their steps, then holds of the connections of every run.
-/

namespace PeerCall

variable {settings : Settings}

/-! ## The numbers of connections -/

/-- The connection that an effect asks for, whether or not it can be made. -/
def Effect.asked? : Effect → Option ConnId
  | .create id _ => some id
  | _ => none

namespace Agent

/-- The connections that are asked for, in order. -/
def asked (effects : List Effect) : List ConnId := effects.filterMap Effect.asked?

variable {a : Agent} {r : Replies} {event : Event} {x : Agent × List Effect}

/-- A connection is asked for when a call begins, under the next number. -/
theorem Stride.asked_of_opening (hx : Stride settings r a event x) :
    (Agent.asked x.2 = [] ∧ x.1.issued = a.issued) ∨
      ((∃ peer offer, a.opening settings event = some (peer, offer)) ∧
        Agent.asked x.2 = [a.issued + 1] ∧ x.1.issued = a.issued + 1) := by
  have hflush (b : Agent) : (finish (b.flush r)).2.filterMap Effect.asked? = [] :=
    filterMap_flush (fun _ _ _ => rfl) fun _ => rfl
  have hparting (b : Agent) (failure : Option String) :
      (b.parting failure).filterMap Effect.asked? = [] :=
    filterMap_parting (fun _ => rfl) (fun _ => rfl) fun _ => rfl
  unfold Agent.asked
  cases hx with
  | @opened event peer offer _ hopening =>
    cases offer <;> exact Or.inr ⟨⟨_, _, hopening⟩, rfl, rfl⟩
  | notCreated _ hopening | notOpened _ hopening =>
    refine Or.inr ⟨⟨_, _, hopening⟩, ?_⟩
    simp only [List.filterMap_cons, List.filterMap_append, List.filterMap_map, Function.comp_def,
      Effect.asked?, List.filterMap_none, hparting, List.nil_append, and_self]
  | _ =>
    left
    simp only [List.filterMap_cons, List.filterMap_append, List.filterMap_nil, List.filterMap_map,
      Function.comp_def, Effect.asked?, List.filterMap_none, List.nil_append, hparting, hflush,
      apply_ite (List.filterMap Effect.asked?), ite_self, freed, flush_issued, finish_after,
      and_self]

/-- Connections are asked for one at a time, under the next number. -/
theorem Stride.asked (hx : Stride settings r a event x) :
    (Agent.asked x.2 = [] ∧ x.1.issued = a.issued) ∨
      (Agent.asked x.2 = [a.issued + 1] ∧ x.1.issued = a.issued + 1) :=
  hx.asked_of_opening.imp_right And.right

/-- No number that has been given out is taken back. -/
theorem Stride.issued_le (hx : Stride settings r a event x) : a.issued ≤ x.1.issued := by
  rcases hx.asked with ⟨-, hissued⟩ | ⟨-, hissued⟩ <;> omega

/-- What a step does to the connection of an agent. -/
inductive Passage (a b : Agent) : Prop
  | rests (hl : a.live = none) (hlive : b.live = none)
  | begins (hl : a.live = none) (hlive : b.live = some { id := a.issued + 1 })
      (houtbox : b.call.outbox = [])
  | goesOn {l l' : Live} (hl : a.live = some l) (hlive : b.live = some l') (hid : l'.id = l.id)
      (hpeer : b.call.peer = a.call.peer)
  | ends {l : Live} (hl : a.live = some l) (hlive : b.live = none)

/-- Every stride lets the connection be, begins one under a new number, or ends one. -/
theorem Stride.passage (ha : a.Coherent) (hx : Stride settings r a event x) : Passage a x.1 := by
  have hsame (b : Agent) (hlive : b.live = a.live) (hpeer : b.call.peer = a.call.peer) :
      Passage a b := by
    cases hl : a.live with
    | none => exact .rests hl (hlive.trans hl)
    | some l => exact .goesOn hl (hlive.trans hl) rfl hpeer
  cases hx with
  | opened hphase => exact .begins (ha.live_of_idle hphase) rfl rfl
  | signedIn hl | signedOut hl => exact .rests hl hl
  | candidateKept hl | released hl => exact .goesOn hl rfl rfl rfl
  | ownCandidate hl => exact .goesOn hl flush_live rfl flush_peer
  | flushed | signedInDuringCall => exact hsame _ flush_live flush_peer
  | offerMade | answerMade =>
    rw [finish_after]
    exact hsame _ flush_live flush_peer
  | broken hl | failed hl | left hl | hungUp hl | closed hl => exact .ends hl rfl
  | _ => exact hsame _ rfl rfl

/-- A call goes on with its own connection. -/
theorem Stride.id_eq {l l' : Live} (ha : a.Coherent) (hx : Stride settings r a event x)
    (hl : a.live = some l) (hl' : x.1.live = some l') : l'.id = l.id := by
  cases hx.passage ha with
  | rests hnone | begins hnone => simp [hl] at hnone
  | ends _ hnone => simp [hl'] at hnone
  | goesOn hbefore hafter hid =>
    rw [Option.some.inj (hl'.symm.trans hafter), hid, Option.some.inj (hl.symm.trans hbefore)]

/-! ## Sessions of a run -/

/-- Whether a step began while a connection was the live one. -/
def Moment.isDuring (id : ConnId) (m : Moment) : Bool := m.before.live.map (·.id) = some id

/-- The steps that began while a connection was the live one. -/
def during (id : ConnId) (past : List Moment) : List Moment := past.filter (·.isDuring id)

/-- The steps of a connection since it was begun, and the agent after them. Only the last of them
may have ended the call. -/
inductive Session (settings : Settings) (id : ConnId) : List Moment → Agent → Prop
  | begins {a : Agent} {event : Event} {r : Replies} (ha : a.Coherent) (hl : a.live = none)
      (hlive : (a.step settings r event).1.live = some { id := id }) :
      Session settings id [] (a.step settings r event).1
  | goesOn {steps : List Moment} {a : Agent} {event : Event} {r : Replies}
      (hsteps : Session settings id steps a) (hlive : a.live.map (·.id) = some id) :
      Session settings id (steps ++ [a.moment settings event r]) (a.step settings r event).1

/-- The agent of a session is coherent. -/
theorem Session.coherent {id : ConnId} {steps : List Moment} (h : Session settings id steps a) :
    a.Coherent := by
  induction h with
  | begins ha => exact step_coherent ha _
  | goesOn _ _ ih => exact step_coherent ih _

/-- Only the connection of a session is live in it. -/
theorem Session.id_eq {id : ConnId} {steps : List Moment} {l : Live}
    (h : Session settings id steps a) (hl : a.live = some l) : l.id = id := by
  cases h with
  | begins ha _ hlive =>
    obtain rfl : ({ id := id } : Live) = l := Option.some.inj (hlive.symm.trans hl)
    rfl
  | @goesOn steps a event r hsteps hlive =>
    obtain ⟨l₀, hl₀, rfl⟩ := Option.map_eq_some_iff.mp hlive
    have hstride : Stride settings r a event _ := step_stride hsteps.coherent event
    exact hstride.id_eq hsteps.coherent hl₀ hl

/-- What a run has made of each connection: the live one is in the middle of its session, and any
other was never live or has ended its session. -/
structure Sorted (settings : Settings) (past : List Moment) (a : Agent) : Prop where
  live : ∀ l, a.live = some l → Session settings l.id (during l.id past) a
  ended : ∀ id, a.live.map (·.id) ≠ some id → during id past = [] ∨
    ∃ b : Agent, b.live = none ∧ Session settings id (during id past) b
  fresh : ∀ id, a.issued < id → during id past = []

/-- A step belongs to the connection that was live when it began, and to no other. -/
theorem during_append {past : List Moment} {m : Moment} {id : ConnId} :
    during id (past ++ [m]) =
      during id past ++ if m.before.live.map (·.id) = some id then [m] else [] := by
  by_cases h : m.before.live.map (·.id) = some id <;>
    simp only [during, List.filter_append, List.filter_cons, List.filter_nil, Moment.isDuring, h,
      decide_true, decide_false, if_true, if_false, Bool.false_eq_true]

/-- A step at a live connection belongs to it. -/
theorem during_of_live {past : List Moment} {l : Live} (hl : a.live = some l) :
    during l.id (past ++ [a.moment settings event r]) =
      during l.id past ++ [a.moment settings event r] := by
  rw [during_append, if_pos (by simp [moment, hl])]

/-- Every step of a run keeps the steps of the connections sorted. -/
theorem Sorted.step {past : List Moment} (ha : a.Coherent) (hpast : Sorted settings past a)
    (event : Event) (r : Replies) :
    Sorted settings (past ++ [a.moment settings event r]) (a.step settings r event).1 := by
  have hstride : Stride settings r a event _ := step_stride ha event
  have hissued : a.issued ≤ (a.step settings r event).1.issued := hstride.issued_le
  have hduring {id : ConnId} (hid : a.live.map (·.id) ≠ some id) :
      during id (past ++ [a.moment settings event r]) = during id past := by
    simp [during_append, moment, hid]
  have hfresh (id : ConnId) (hid : (a.step settings r event).1.issued < id) :
      during id (past ++ [a.moment settings event r]) = [] := by
    rw [hduring, hpast.fresh id (by omega)]
    cases hl : a.live with
    | none => simp
    | some l =>
      have hlt : l.id < id := by
        rw [ha.id_eq_issued l hl]
        exact Nat.lt_of_le_of_lt hissued hid
      simpa using Nat.ne_of_lt hlt
  cases hstride.passage ha with
  | rests hl hlive =>
    refine ⟨by simp [hlive], fun id _ => ?_, hfresh⟩
    rw [hduring (by simp [hl])]
    exact hpast.ended id (by simp [hl])
  | begins hl hlive =>
    refine ⟨fun l h => ?_, fun id _ => ?_, hfresh⟩
    · obtain rfl : { id := a.issued + 1 } = l := Option.some.inj (hlive.symm.trans h)
      rw [hduring (by simp [hl]), hpast.fresh _ (Nat.lt_succ_self _)]
      exact .begins ha hl hlive
    · rw [hduring (by simp [hl])]
      exact hpast.ended id (by simp [hl])
  | @goesOn l l' hl hlive hid =>
    refine ⟨fun l'' h => ?_, fun id h => ?_, hfresh⟩
    · obtain rfl : l' = l'' := Option.some.inj (hlive.symm.trans h)
      rw [hid, during_of_live hl]
      exact .goesOn (hpast.live l hl) (by simp [hl])
    · have hne : a.live.map (·.id) ≠ some id := by simpa [hl, hlive, hid] using h
      rw [hduring hne]
      exact hpast.ended id hne
  | @ends l hl hlive =>
    refine ⟨by simp [hlive], fun id _ => ?_, hfresh⟩
    by_cases hid : a.live.map (·.id) = some id
    · obtain rfl : l.id = id := by simpa [hl] using hid
      rw [during_of_live hl]
      exact Or.inr ⟨_, hlive, .goesOn (hpast.live l hl) hid⟩
    · rw [hduring hid]
      exact hpast.ended id hid

/-- The steps of a run are sorted by their sessions. -/
theorem run_sorted (settings : Settings) (script : List (Event × Replies)) :
    Sorted settings (history settings script {}) (run settings script {}).1 := by
  have hnew : Sorted settings [] {} := ⟨by simp, fun _ _ => Or.inl rfl, fun _ _ => rfl⟩
  exact (run_induction hnew (fun _ _ event r ha hpast => hpast.step ha event r) script).2

/-! ## The numbers of a run -/

/-- After every step of every run an agent is coherent. The connections that it has asked for are
numbered from one without a gap, and the live one is the last of them. -/
theorem run_coherent (settings : Settings) (script : List (Event × Replies)) :
    (run settings script {}).1.Coherent ∧
      asked (run settings script {}).2.flatten =
        List.range' 1 (run settings script {}).1.issued ∧
      ∀ l, (run settings script {}).1.live = some l →
        (asked (run settings script {}).2.flatten).getLast? = some l.id := by
  have hnumbers : (run settings script {}).1.Coherent ∧
      asked ((history settings script {}).map (·.effects)).flatten =
          List.range' 1 (run settings script {}).1.issued ∧
        ∀ l, (run settings script {}).1.live = some l → 0 < l.id := by
    refine run_induction (p := fun past a =>
      asked (past.map (·.effects)).flatten = List.range' 1 a.issued ∧
        ∀ l, a.live = some l → 0 < l.id) ⟨rfl, by simp⟩ ?_ script
    rintro past a event r ha ⟨hasked, hpos⟩
    have hstride : Stride settings r a event _ := step_stride ha event
    constructor
    · have hmore : asked ((past ++ [a.moment settings event r]).map (·.effects)).flatten =
          List.range' 1 a.issued ++ asked (a.step settings r event).2 := by
        simp [asked, moment, ← hasked]
      rw [hmore]
      rcases hstride.asked with ⟨hnone, hissued⟩ | ⟨hone, hissued⟩
      · rw [hnone, hissued, List.append_nil]
      · rw [hone, hissued, List.range'_concat, Nat.one_mul, Nat.add_comm]
    · intro l hl
      cases hstride.passage ha with
      | rests _ hlive | ends _ hlive => simp [hlive] at hl
      | begins _ hlive =>
        obtain rfl : { id := a.issued + 1 } = l := Option.some.inj (hlive.symm.trans hl)
        exact Nat.succ_pos _
      | @goesOn l₀ l' hl₀ hlive hid =>
        obtain rfl : l' = l := Option.some.inj (hlive.symm.trans hl)
        rw [hid]
        exact hpos l₀ hl₀
  obtain ⟨hcoherent, hasked, hpos⟩ := hnumbers
  rw [← run_effects] at hasked
  refine ⟨hcoherent, hasked, fun l hl => ?_⟩
  have hid := hcoherent.id_eq_issued l hl
  have hpos := hpos l hl
  rw [hid] at hpos ⊢
  rw [hasked, List.getLast?_range', if_neg (Nat.ne_of_gt hpos), Nat.add_sub_cancel_left]

end Agent

end PeerCall
