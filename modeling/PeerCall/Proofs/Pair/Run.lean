import Mathlib.Logic.Function.Basic
import Mathlib.Logic.Relation
import PeerCall.Proofs.Agent.Answers

/-!
# Two agents that talk to each other

Two agents know each other by name, and a bus keeps what it takes for each of them in order. What
an agent hears from its user and from its links is left open, and so is how the bus answers it, but
a message can only be one that the other agent has sent.
-/

namespace PeerCall

/-- One of two sides. -/
inductive Side
  | near
  | far
  deriving DecidableEq, Repr

namespace Side

/-- The other side. -/
def other : Side → Side
  | .near => .far
  | .far => .near

/-- The other side of the other side is the side itself, -/
@[simp] theorem other_other (s : Side) : s.other.other = s := by
  cases s <;> rfl

/-- and they are two. -/
@[simp] theorem other_ne (s : Side) : s.other ≠ s := by
  cases s <;> decide

/-- There is no third side. -/
theorem eq_or_eq_other (s t : Side) : t = s ∨ t = s.other := by
  cases s <;> cases t <;> simp [other]

end Side

/-- Whether an event is a message. -/
def Event.isMessage : Event → Bool
  | .bus (.message _ _) => true
  | _ => false

/-- The settings of two sides, and the names by which they know each other. -/
structure Parties where
  settings : Side → Settings
  name : Side → String

/-- Two agents with all that they have done, and the texts that are on their way to them, oldest
first. -/
structure Pair where
  agent : Side → Agent := fun _ => {}
  past : Side → List Agent.Moment := fun _ => []
  wire : Side → List String := fun _ => []

namespace Pair

/-- A side takes a step. What it gets to the other side is then on the way. -/
def take (parties : Parties) (p : Pair) (s : Side) (event : Event) (r : Replies) : Pair :=
  let m := (p.agent s).moment (parties.settings s) event r
  let sent := Agent.sentTo (parties.name s.other) m.effects
  { agent := Function.update p.agent s m.after
    past := Function.update p.past s (p.past s ++ [m])
    wire := Function.update p.wire s.other (p.wire s.other ++ sent) }

/-- A step of the whole. -/
inductive Move
  /-- A side takes an event that is no message. -/
  | turn (side : Side) (event : Event) (replies : Replies)
  /-- The next text reaches a side. -/
  | deliver (side : Side) (replies : Replies)
  /-- The next text on the way to a side is lost. -/
  | lose (side : Side)

/-- Makes a move, if it is possible. -/
def perform (parties : Parties) (p : Pair) : Move → Option Pair
  | .turn s event r => if event.isMessage then none else some (p.take parties s event r)
  | .deliver s r =>
    match p.wire s with
    | text :: rest =>
      some (take parties { p with wire := Function.update p.wire s rest } s
        (.bus (.message (parties.name s.other) text)) r)
    | [] => none
  | .lose s =>
    match p.wire s with
    | _ :: rest => some { p with wire := Function.update p.wire s rest }
    | [] => none

/-- Makes moves in order, as long as they are possible. -/
def performAll (parties : Parties) (p : Pair) : List Move → Option Pair
  | [] => some p
  | m :: rest => (p.perform parties m).bind (performAll parties · rest)

/-- One pair comes from another by a move. -/
def Next (parties : Parties) (p p' : Pair) : Prop := ∃ m, p.perform parties m = some p'

/-- One pair comes from another by moves. -/
abbrev Leads (parties : Parties) : Pair → Pair → Prop := Relation.ReflTransGen (Next parties)

/-- A pair that comes from two new agents by moves. -/
abbrev Reachable (parties : Parties) (p : Pair) : Prop := Leads parties {} p

variable {parties : Parties} {p p' : Pair} {s t : Side} {text : String}

/-- Moves that are performed one after another lead from pair to pair. -/
theorem leads_of_performAll {moves : List Move} (h : p.performAll parties moves = some p') :
    Leads parties p p' := by
  induction moves generalizing p with
  | nil =>
    obtain rfl := Option.some.inj h
    exact .refl
  | cons m moves ih =>
    obtain ⟨q, hq, hrest⟩ := Option.bind_eq_some_iff.mp h
    exact .head ⟨m, hq⟩ (ih hrest)

/-! ## Single moves -/

/-- A side takes an event, and the other side does nothing. -/
structure Acts (parties : Parties) (s : Side) (event : Event) (r : Replies) (p p' : Pair) :
    Prop where
  agent : p'.agent s = ((p.agent s).step (parties.settings s) r event).1
  past : p'.past s = p.past s ++ [(p.agent s).moment (parties.settings s) event r]
  wire : p'.wire s.other = p.wire s.other ++ Agent.sentTo (parties.name s.other)
    ((p.agent s).step (parties.settings s) r event).2
  agent_other : p'.agent s.other = p.agent s.other
  past_other : p'.past s.other = p.past s.other
  /-- A message is the next text that was on the way. -/
  heard : event.isMessage = false ∧ p'.wire s = p.wire s ∨
    ∃ text, event = .bus (.message (parties.name s.other) text) ∧ p.wire s = text :: p'.wire s

/-- Nothing new is on the way to a side that acts. -/
theorem Acts.wire_subset {event : Event} {r : Replies} (h : Acts parties s event r p p') :
    p'.wire s ⊆ p.wire s := by
  rcases h.heard with ⟨-, hsame⟩ | ⟨text, -, hwire⟩
  · rw [hsame]
    exact List.Subset.refl _
  · rw [hwire]
    exact List.subset_cons_self _ _

/-- What a side has taken is a step of it alone. -/
theorem take_agent (s : Side) (event : Event) (r : Replies) :
    (p.take parties s event r).agent s =
      ((p.agent s).step (parties.settings s) r event).1 :=
  Function.update_self ..

/-- What is on the way to a side stays so when it takes an event. -/
theorem take_wire (s : Side) (event : Event) (r : Replies) :
    (p.take parties s event r).wire s = p.wire s :=
  Function.update_of_ne s.other_ne.symm ..

/-- A side that takes an event acts, once a message that it hears is off the way. -/
theorem take_acts {q : Pair} {event : Event} {r : Replies} (hagent : q.agent = p.agent)
    (hpast : q.past = p.past) (hother : q.wire s.other = p.wire s.other)
    (hheard : event.isMessage = false ∧ q.wire s = p.wire s ∨
      ∃ text, event = .bus (.message (parties.name s.other) text) ∧
        p.wire s = text :: q.wire s) :
    Acts parties s event r p (q.take parties s event r) := by
  refine ⟨?_, ?_, ?_, ?_, ?_, ?_⟩
  · rw [take_agent, hagent]
  · simp only [take, hpast, hagent, Function.update_self]
  · simp only [take, hother, hagent, Function.update_self]
    rfl
  · simp only [take, hagent, ne_eq, Side.other_ne, not_false_eq_true, Function.update_of_ne]
  · simp only [take, hpast, ne_eq, Side.other_ne, not_false_eq_true, Function.update_of_ne]
  · rw [take_wire]
    exact hheard

/-- A move lets one side act, or loses a text. -/
theorem Next.cases (h : Next parties p p') :
    (∃ s event r, Acts parties s event r p p') ∨
      p'.agent = p.agent ∧ p'.past = p.past ∧ ∀ s, p'.wire s ⊆ p.wire s := by
  obtain ⟨m, hm⟩ := h
  cases m with
  | turn s event r =>
    simp only [perform] at hm
    split_ifs at hm with hevent
    obtain rfl := Option.some.inj hm
    exact Or.inl ⟨s, event, r, take_acts rfl rfl rfl (Or.inl ⟨by simpa using hevent, rfl⟩)⟩
  | deliver s r =>
    simp only [perform] at hm
    split at hm
    · next text rest hwire =>
      obtain rfl := Option.some.inj hm
      have hrest : Function.update p.wire s rest s = rest := Function.update_self ..
      refine Or.inl ⟨s, .bus (.message (parties.name s.other) text), r, take_acts rfl rfl ?_ ?_⟩
      · exact Function.update_of_ne s.other_ne ..
      · exact Or.inr ⟨text, rfl, hwire.trans (congrArg _ hrest.symm)⟩
    · simp at hm
  | lose s =>
    simp only [perform] at hm
    split at hm
    · next text rest hwire =>
      obtain rfl := Option.some.inj hm
      refine Or.inr ⟨rfl, rfl, fun t => ?_⟩
      by_cases ht : t = s
      · subst ht
        simp [hwire]
      · simp [ht]
    · simp at hm

/-- What a side has done stays done. -/
theorem Next.past_mono (h : Next parties p p') (s : Side) : p.past s <+: p'.past s := by
  rcases h.cases with ⟨t, event, r, hacts⟩ | ⟨-, hpast, -⟩
  · rcases t.eq_or_eq_other s with rfl | rfl
    · rw [hacts.past]
      exact List.prefix_append _ _
    · rw [hacts.past_other]
  · rw [hpast]

/-! ## What every run keeps -/

/-- What a side has sent to the other side in some of its steps. -/
def sentIn (parties : Parties) (s : Side) (steps : List Agent.Moment) : List String :=
  steps.flatMap fun m => Agent.sentTo (parties.name s.other) m.effects

/-- A text that a side has sent: the last word, or a message that it has written in the session of
a connection and sent in the same session. -/
def Said (parties : Parties) (s : Side) (past : List Agent.Moment) (text : String) : Prop :=
  text = Message.byeText ∨ ∃ id, ∃ message ∈ Agent.writtenIn (Agent.during id past),
    text = message.encode ∧ text ∈ sentIn parties s (Agent.during id past)

/-- What has been said stays so. -/
theorem Said.mono {past past' : List Agent.Moment} (h : Said parties s past text)
    (hpast : past <+: past') : Said parties s past' text := by
  obtain hbye | ⟨id, message, hmessage, htext, hsent⟩ := h
  · exact Or.inl hbye
  · have hduring : Agent.during id past <+: Agent.during id past' := hpast.filter _
    exact Or.inr ⟨id, message, (hduring.flatMap _).subset hmessage, htext,
      (hduring.flatMap _).subset hsent⟩

/-- Both sides have taken their steps as agents alone would, and all that is on the way to one side
or has reached it was said by the other. -/
structure Sound (parties : Parties) (p : Pair) : Prop where
  ran : ∀ s, Agent.Ran (parties.settings s) (p.past s) (p.agent s)
  wire : ∀ s, ∀ text ∈ p.wire s, Said parties s.other (p.past s.other) text
  heard : ∀ s, ∀ m ∈ p.past s, ∀ peer text, m.event = .bus (.message peer text) →
    Said parties s.other (p.past s.other) text

/-- What a step sends to the other side, it says. -/
theorem said_of_sent {past : List Agent.Moment} {a : Agent} {event : Event} {r : Replies}
    (h : Agent.Ran (parties.settings s) past a)
    (htext : text ∈ Agent.sentTo (parties.name s.other)
      (a.step (parties.settings s) r event).2) :
    Said parties s (past ++ [a.moment (parties.settings s) event r]) text := by
  obtain ⟨l, hl, hbye | ⟨-, message, hmessage, hencode⟩⟩ := h.sent_written htext
  · exact Or.inl hbye
  · refine Or.inr ⟨l.id, message, hmessage, hencode, ?_⟩
    rw [Agent.during_append, if_pos (by simp [Agent.moment, hl]), sentIn, List.flatMap_append]
    exact List.mem_append_right _ (List.mem_flatMap.mpr ⟨_, List.mem_singleton_self _, htext⟩)

/-- Every move keeps a pair sound. -/
theorem Sound.next (h : Sound parties p) (hnext : Next parties p p') : Sound parties p' := by
  have hsaid {t : Side} {text : String} (h : Said parties t (p.past t) text) :
      Said parties t (p'.past t) text :=
    h.mono (hnext.past_mono t)
  rcases hnext.cases with ⟨s, event, r, hacts⟩ | ⟨hagent, hpast, hwire⟩
  · -- Each side is the one that acts or the other one.
    refine ⟨fun t => ?_, fun t text htext => ?_, fun t m hm peer text hevent => ?_⟩
    · rcases s.eq_or_eq_other t with rfl | rfl
      · rw [hacts.past, hacts.agent]
        exact (h.ran _).step event r
      · rw [hacts.past_other, hacts.agent_other]
        exact h.ran _
    · rcases s.eq_or_eq_other t with rfl | rfl
      · exact hsaid (h.wire _ text (hacts.wire_subset htext))
      · rw [hacts.wire] at htext
        rcases List.mem_append.mp htext with hold | hnew
        · exact hsaid (h.wire _ text hold)
        · rw [Side.other_other, hacts.past]
          exact said_of_sent (h.ran s) hnew
    · rcases s.eq_or_eq_other t with rfl | rfl
      · rw [hacts.past] at hm
        rcases List.mem_append.mp hm with hold | hnew
        · exact hsaid (h.heard _ m hold peer text hevent)
        · obtain rfl := List.mem_singleton.mp hnew
          obtain rfl : event = .bus (.message peer text) := hevent
          rcases hacts.heard with ⟨hnone, -⟩ | ⟨first, hfirst, hwire⟩
          · simp [Event.isMessage] at hnone
          · obtain ⟨-, rfl⟩ : _ ∧ text = first := by simpa using hfirst
            refine hsaid (h.wire _ text ?_)
            rw [hwire]
            exact List.mem_cons_self
      · rw [hacts.past_other] at hm
        exact hsaid (h.heard _ m hm peer text hevent)
  · refine ⟨?_, fun t text htext => ?_, ?_⟩
    · rw [hagent, hpast]
      exact h.ran
    · rw [hpast]
      exact h.wire t text (hwire t htext)
    · rw [hpast]
      exact h.heard

/-- Every pair that comes from two new agents is sound. -/
theorem Reachable.sound (h : Reachable parties p) : Sound parties p := by
  induction h with
  | refl => exact ⟨fun _ => Agent.ran_new, by simp, by simp⟩
  | tail _ hnext ih => exact ih.next hnext

end Pair

end PeerCall
