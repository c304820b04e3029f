import PeerCall.Proofs.Agent.Operations

/-!
# The links that an agent makes

Every link that is made is closed in the step that ends its session, once, and nothing is done to
it after that. So the links that are made are those that are closed, and the link of the live
connection if there is one.
-/

namespace PeerCall

/-- The connection whose link an effect makes. -/
def Effect.made? : Effect → Option ConnId
  | .create id none => some id
  | _ => none

/-- The connection whose link an effect closes. -/
def Effect.shut? : Effect → Option ConnId
  | .close id => some id
  | _ => none

/-- The connection whose link an effect touches. -/
def Effect.target? : Effect → Option ConnId
  | .create id _ | .submit id _ | .startPolls id | .stopPolls id | .close id => some id
  | _ => none

/-- The connection whose polls an effect starts or stops, and which of both it does. -/
def Effect.rhythm? : Effect → Option (ConnId × Bool)
  | .startPolls id => some (id, true)
  | .stopPolls id => some (id, false)
  | _ => none

namespace Agent

variable {settings : Settings} {a : Agent} {r : Replies} {event : Event}
  {x : Agent × List Effect} {id : ConnId} {effects : List Effect}

/-- The connections whose links are made, in order. -/
def made (effects : List Effect) : List ConnId := effects.filterMap Effect.made?

/-- The connections whose links are closed, in order. -/
def shut (effects : List Effect) : List ConnId := effects.filterMap Effect.shut?

/-- The connections whose links are touched, in order. -/
def touched (effects : List Effect) : List ConnId := effects.filterMap Effect.target?

/-- The starts and stops of polls, in order. -/
def rhythm (effects : List Effect) : List (ConnId × Bool) := effects.filterMap Effect.rhythm?

/-- Whether the polls of a connection were started last, and not stopped. -/
def polls (id : ConnId) (effects : List Effect) : Bool :=
  (((rhythm effects).filter (·.1 = id)).getLast?.map (·.2)).getD false

/-- Effects that close a link once. Its polls are stopped before, and no link is touched later. -/
structure Closes (polled : Option ConnId) (id : ConnId) (effects : List Effect) : Prop where
  split : ∃ earlier later, effects = earlier ++ .close id :: later ∧ shut earlier = [] ∧
    touched later = [] ∧ rhythm earlier = (polled.map (·, false)).toList

/-- Nothing is done to a link once it is closed. -/
def Final (effects : List Effect) : Prop :=
  effects.Pairwise fun earlier later =>
    ∀ id, earlier.shut? = some id → later.target? ≠ some id

/-- The polls of a link have been stopped when it is closed. -/
def Rested (effects : List Effect) : Prop :=
  ∀ earlier id later, effects = earlier ++ .close id :: later → polls id earlier = false

/-! ## Lists of effects -/

/-- The links are made one after another. -/
theorem made_append (first second : List Effect) :
    made (first ++ second) = made first ++ made second := by
  simp [made]

/-- They are closed one after another. -/
theorem shut_append (first second : List Effect) :
    shut (first ++ second) = shut first ++ shut second := by
  simp [shut]

/-- They are touched one after another. -/
theorem touched_append (first second : List Effect) :
    touched (first ++ second) = touched first ++ touched second := by
  simp [touched]

/-- Polls are started and stopped one after another. -/
theorem rhythm_append (first second : List Effect) :
    rhythm (first ++ second) = rhythm first ++ rhythm second := by
  simp [rhythm]

/-- What starts or stops no polls of a connection leaves them as they are. -/
theorem polls_append {first second : List Effect} (h : ∀ p ∈ rhythm second, p.1 ≠ id) :
    polls id (first ++ second) = polls id first := by
  have hnone : (rhythm second).filter (·.1 = id) = [] := by
    simpa [List.filter_eq_nil_iff] using h
  simp [polls, rhythm_append, hnone]

/-- Whether polls go on is told by what was done last about them. -/
theorem polls_of_last {first second : List Effect} {b : Bool} (h : rhythm second = [(id, b)]) :
    polls id (first ++ second) = b := by
  simp [polls, rhythm_append, h]

/-- Once the polls of the one polled connection are stopped, all polls are. -/
theorem polls_of_stopped {polled : Option ConnId} {first second : List Effect}
    (h : rhythm second = (polled.map (·, false)).toList)
    (hpolls : ∀ id, polls id first = true → polled = some id) (id : ConnId) :
    polls id (first ++ second) = false := by
  have hother (hpolled : polled ≠ some id) : polls id first = false := by
    rw [← Bool.not_eq_true]
    exact fun hid => hpolled (hpolls id hid)
  cases polled with
  | none =>
    rw [polls_append (by simp [h])]
    exact hother (by simp)
  | some other =>
    by_cases hid : other = id
    · subst hid
      exact polls_of_last h
    · rw [polls_append (by simpa [h] using hid)]
      exact hother (by simpa using hid)

/-- What touches no link closes none, and leaves all polls as they are. -/
theorem shut_of_touched (h : touched effects = []) : shut effects = [] ∧ rhythm effects = [] := by
  constructor <;> refine List.filterMap_eq_nil_iff.mpr fun effect hmem => ?_
  all_goals
    have huntouched := List.filterMap_eq_nil_iff.mp h effect hmem
    cases effect <;> simp_all [Effect.target?, Effect.shut?, Effect.rhythm?]

/-- What comes after the end of a link does not touch it. -/
theorem Final.target_ne {earlier later : List Effect} {effect : Effect}
    (h : Final (earlier ++ effect :: later)) (hid : id ∈ shut earlier) :
    effect.target? ≠ some id := by
  obtain ⟨closing, hmem, hshut⟩ := List.mem_filterMap.mp hid
  exact (List.pairwise_append.mp h).2.2 closing hmem effect List.mem_cons_self id hshut

/-- Where no link is closed, none is touched after its end. -/
theorem final_of_shut (h : shut effects = []) : Final effects := by
  refine List.pairwise_of_forall_mem_list fun earlier hearlier later _ id hid => ?_
  have hnone := List.filterMap_eq_nil_iff.mp h earlier hearlier
  simp [hid] at hnone

namespace Closes

variable {polled : Option ConnId}

/-- Closing closes the one link. -/
theorem shut_eq (h : Closes polled id effects) : shut effects = [id] := by
  obtain ⟨earlier, later, rfl, hshut, htouched, -⟩ := h.split
  have hlater := (shut_of_touched htouched).1
  rw [shut_append, hshut, List.nil_append]
  exact congrArg (List.cons id) hlater

/-- Closing touches nothing that it has closed. -/
theorem final (h : Closes polled id effects) : Final effects := by
  obtain ⟨earlier, later, rfl, hshut, htouched, -⟩ := h.split
  have hlater : ∀ effect ∈ later, effect.target? = none := List.filterMap_eq_nil_iff.mp htouched
  refine List.pairwise_append.mpr ⟨final_of_shut hshut, List.pairwise_cons.mpr ⟨?_, ?_⟩, ?_⟩
  · intro effect hmem other _
    simp [hlater effect hmem]
  · exact final_of_shut (shut_of_touched htouched).1
  · intro effect hmem last _ other hother
    have hnone := List.filterMap_eq_nil_iff.mp hshut effect hmem
    simp [hother] at hnone

/-- There is only one place where the link is closed, and no polls go on there. -/
theorem rested (h : Closes polled id effects) {first : List Effect}
    (hpolls : ∀ other, polls other first = true → polled = some other) :
    ∀ earlier other later, effects = earlier ++ .close other :: later →
      polls other (first ++ earlier) = false := by
  obtain ⟨before, after, rfl, hshut, htouched, hrhythm⟩ := h.split
  intro earlier other later hsplit
  rcases List.append_eq_append_iff.mp hsplit with ⟨between, rfl, hrest⟩ | ⟨between, rfl, hrest⟩
  · cases between with
    | nil =>
      rw [List.append_nil]
      exact polls_of_stopped hrhythm hpolls other
    | cons effect between =>
      obtain ⟨-, rfl⟩ := List.cons.inj hrest
      simp [touched, Effect.target?] at htouched
  · cases between with
    | nil =>
      rw [List.append_nil] at hrhythm
      exact polls_of_stopped hrhythm hpolls other
    | cons effect between =>
      obtain ⟨rfl, -⟩ := List.cons.inj hrest
      simp [shut, Effect.shut?] at hshut

/-- Nor do any after it. -/
theorem polls_eq_false (h : Closes polled id effects) {first : List Effect}
    (hpolls : ∀ other, polls other first = true → polled = some other) (other : ConnId) :
    polls other (first ++ effects) = false := by
  obtain ⟨before, after, rfl, -, htouched, hrhythm⟩ := h.split
  have hafter : rhythm (.close id :: after) = [] := (shut_of_touched htouched).2
  rw [← List.append_assoc, polls_append (by simp [hafter])]
  exact polls_of_stopped hrhythm hpolls other

end Closes

/-! ## One step -/

/-- Parting makes no link. -/
theorem made_parting {failure : Option String} : made (a.parting failure) = [] :=
  filterMap_parting (fun _ => rfl) (fun _ => rfl) fun _ => rfl

/-- The end of a call closes its link, after its polls have been stopped. -/
theorem closes_parting {l : Live} (hl : a.live = some l) (failure : Option String)
    {first last : List Effect} (hfirst : shut first = [] ∧ rhythm first = [])
    (hlast : touched last = []) :
    Closes a.polled l.id (first ++ (a.parting failure ++ last)) := by
  let told : Notice := failure.elim (.phase .closed) .callFailed
  refine ⟨first ++ .notify (.phase .closing) :: (a.polled.map .stopPolls).toList,
    .notify told :: .notify (.phase .idle) :: last, ?_, ?_, hlast, ?_⟩
  · cases failure <;> simp [parting, hl, told]
  · rw [shut_append, hfirst.1]
    cases a.polled <;> rfl
  · rw [rhythm_append, hfirst.2]
    cases a.polled <;> rfl

/-- What a step does to links. -/
inductive Tends (a : Agent) (x : Agent × List Effect) : Prop
  | keeps (hmade : made x.2 = []) (hshut : shut x.2 = [])
      (hlive : x.1.live.map (·.id) = a.live.map (·.id))
      (hpolled : rhythm x.2 = [] ∧ x.1.polled = a.polled ∨
        ∃ id, rhythm x.2 = [(id, true)] ∧ a.polled = none ∧ x.1.polled = some id)
  | makes (hl : a.live = none) (hmade : made x.2 = [a.issued + 1]) (hshut : shut x.2 = [])
      (hlive : x.1.live.map (·.id) = some (a.issued + 1)) (hissued : x.1.issued = a.issued + 1)
      (hpolled : rhythm x.2 = [] ∧ x.1.polled = a.polled)
  | shuts {l : Live} (hl : a.live = some l) (hmade : made x.2 = [])
      (hcloses : Closes a.polled l.id x.2) (hlive : x.1.live = none)
  /-- The link is made, and is closed at once since its worker is dead. -/
  | fails (hl : a.live = none) (hmade : made x.2 = [a.issued + 1])
      (hcloses : Closes a.polled (a.issued + 1) x.2) (hlive : x.1.live = none)
      (hissued : x.1.issued = a.issued + 1)

/-- A step that ends a call closes its link. -/
theorem tends_of_parting {l : Live} (first last : List Effect) (failure : Option String)
    (hl : a.live = some l) (hlive : x.1.live = none)
    (heffects : x.2 = first ++ (a.parting failure ++ last))
    (hfirst : made first = [] ∧ shut first = [] ∧ rhythm first = [])
    (hlast : made last = [] ∧ touched last = []) : Tends a x := by
  refine .shuts hl ?_ ?_ hlive
  all_goals rw [heffects]
  · rw [made_append, made_append, hfirst.1, made_parting, hlast.1]
    rfl
  · exact closes_parting hl failure hfirst.2 hlast.2

/-- A step that leaves links and polls alone, and goes on with the call if there is one. -/
theorem tends_of_same (hnone : made x.2 = [] ∧ shut x.2 = [] ∧ rhythm x.2 = [])
    (hlive : x.1.live.map (·.id) = a.live.map (·.id)) (hpolled : x.1.polled = a.polled) :
    Tends a x :=
  .keeps hnone.1 hnone.2.1 hlive (Or.inl ⟨hnone.2.2, hpolled⟩)

/-- Effects of one kind that neither make nor close links, and leave polls alone. -/
theorem done_map {α : Type} {f : α → Effect}
    (hf : ∀ y, (f y).made? = none ∧ (f y).shut? = none ∧ (f y).rhythm? = none) (done : List α) :
    made (done.map f) = [] ∧ shut (done.map f) = [] ∧ rhythm (done.map f) = [] :=
  ⟨filterMap_map_eq_nil (fun y => (hf y).1) done, filterMap_map_eq_nil (fun y => (hf y).2.1) done,
    filterMap_map_eq_nil (fun y => (hf y).2.2) done⟩

/-- Sending what waits has nothing to do with links and polls. -/
theorem done_flush : made (finish (a.flush r)).2 = [] ∧ shut (finish (a.flush r)).2 = [] ∧
    rhythm (finish (a.flush r)).2 = [] :=
  ⟨filterMap_flush (fun _ _ _ => rfl) fun _ => rfl, filterMap_flush (fun _ _ _ => rfl) fun _ => rfl,
    filterMap_flush (fun _ _ _ => rfl) fun _ => rfl⟩

/-- Every stride makes a link, closes one or does neither, or does both if the worker is dead. -/
theorem Stride.tends (ha : a.Coherent) (hx : Stride settings r a event x) : Tends a x := by
  have hfailure {α : Type} {f : α → Effect}
      (hf : ∀ y, (f y).made? = none ∧ (f y).shut? = none ∧ (f y).rhythm? = none) (done : List α)
      (error : LinkError) :
      let effects := done.map f ++ [.warn (.fatal error)]
      made effects = [] ∧ shut effects = [] ∧ rhythm effects = [] := by
    obtain ⟨hmade, hshut, hrhythm⟩ := done_map hf done
    dsimp only
    rw [made_append, shut_append, rhythm_append, hmade, hshut, hrhythm]
    exact ⟨rfl, rfl, rfl⟩
  -- Polls start in the phases that come before the call stands.
  have hstart {l : Live} {phase : Phase} (hphase : a.call.phase = phase)
      (hsetup : phase ≠ .connected) (hl : a.live = some l) (hmade : made x.2 = [])
      (hshut : shut x.2 = []) (hrhythm : rhythm x.2 = [(l.id, true)])
      (hlive : x.1.live = a.live) (hpolled : x.1.polled = some l.id) : Tends a x := by
    have hnone : a.polled = none := by
      rw [ha.polled_eq, if_neg (by rwa [hphase])]
    exact .keeps hmade hshut (by rw [hlive]) (Or.inr ⟨l.id, hrhythm, hnone, hpolled⟩)
  cases hx with
  | @opened _ _ offer hphase =>
    refine .makes (ha.live_of_idle hphase) ?_ ?_ rfl rfl ⟨?_, rfl⟩ <;> cases offer <;> rfl
  | @notCreated _ _ _ error hphase =>
    obtain ⟨hl, hpolled, -⟩ := ha.fresh_of_idle hphase
    refine tends_of_same ⟨?_, ?_, ?_⟩ rfl rfl <;>
      simp [made, shut, rhythm, parting, hl, hpolled, List.filterMap_cons, Effect.made?,
        Effect.shut?, Effect.rhythm?]
  | @notOpened _ peer offer taken _ _ hphase =>
    obtain ⟨hl, hpolled, -⟩ := ha.fresh_of_idle hphase
    obtain ⟨hmade, hshut, hrhythm⟩ := hfailure (f := .submit (a.issued + 1))
      (fun _ => ⟨rfl, rfl, rfl⟩) taken .closed
    let first : List Effect := .notify (.phase .connecting) :: .create (a.issued + 1) none ::
      (taken.map (.submit (a.issued + 1)) ++ [.warn (.fatal .closed)])
    have heffects : .notify (.phase .connecting) :: .create (a.issued + 1) none ::
        (taken.map (.submit (a.issued + 1)) ++ .warn (.fatal .closed) ::
          (a.opened peer offer).parting (some LinkError.closed.message)) =
        first ++ ((a.opened peer offer).parting (some LinkError.closed.message) ++ []) := by
      simp [first]
    refine .fails hl ?_ ?_ hl rfl
    all_goals rw [heffects]
    · have hfirst : made first = [a.issued + 1] := congrArg (List.cons _) hmade
      rw [made_append, made_append, made_parting, hfirst]
      rfl
    · exact closes_parting (a := a.opened peer offer) rfl _ ⟨hshut, hrhythm⟩ rfl
  | @broken l _ _ taken _ _ hl =>
    exact tends_of_parting (taken.map (.submit l.id) ++ [.warn (.fatal .closed)]) []
      (some LinkError.closed.message) hl rfl (by simp)
      (hfailure (fun _ => ⟨rfl, rfl, rfl⟩) taken .closed) ⟨rfl, rfl⟩
  | @failed l _ noted error hl =>
    exact tends_of_parting (noted.map .warn ++ [.warn (.fatal error)]) [] (some error.message) hl
      rfl (by simp) (hfailure (fun _ => ⟨rfl, rfl, rfl⟩) noted error) ⟨rfl, rfl⟩
  | left hl =>
    exact tends_of_parting [] [] none hl rfl (List.append_nil _).symm ⟨rfl, rfl, rfl⟩ ⟨rfl, rfl⟩
  | @hungUp _ peer hl =>
    exact tends_of_parting [.send peer Message.byeText (r.send 0)] [] none hl rfl (by simp)
      ⟨rfl, rfl, rfl⟩ ⟨rfl, rfl⟩
  | @closed _ peer _ hl =>
    refine tends_of_parting [.send peer Message.byeText (r.send 0)] _ none hl rfl rfl
      ⟨rfl, rfl, rfl⟩ ?_
    split <;> exact ⟨rfl, rfl⟩
  | answerAccepted hl _ _ hphase => exact hstart hphase (by simp) hl rfl rfl rfl rfl rfl
  | offerMade hl hphase =>
    rw [finish_after]
    exact tends_of_same done_flush (by rw [flush_live]) flush_polled
  | answerMade hl hphase =>
    rw [finish_after] at hstart ⊢
    obtain ⟨hmade, hshut, hrhythm⟩ := done_flush (r := r)
    refine hstart hphase (by simp) hl hmade hshut ?_ flush_live flush_polled
    exact congrArg (List.cons _) hrhythm
  | candidateKept hl => exact tends_of_same ⟨rfl, rfl, rfl⟩ (by simp [hl]) rfl
  | released hl => exact tends_of_same (done_map (fun _ => ⟨rfl, rfl, rfl⟩) _) (by simp [hl]) rfl
  | ownCandidate hl => exact tends_of_same done_flush (by rw [flush_live, hl]; rfl) flush_polled
  | flushed | signedInDuringCall =>
    exact tends_of_same done_flush (by rw [flush_live]) flush_polled
  | quiet | records => exact tends_of_same (done_map (fun _ => ⟨rfl, rfl, rfl⟩) _) rfl rfl
  | signedIn hl | signedOut hl | signInFailed =>
    refine tends_of_same ?_ rfl rfl
    dsimp only
    split_ifs <;> exact ⟨rfl, rfl, rfl⟩
  | _ => exact tends_of_same ⟨rfl, rfl, rfl⟩ rfl rfl

/-! ## Which links a step touches -/

/-- The end of a call touches the link of the call alone. -/
theorem mem_touched_parting {failure : Option String} {l : Live} (hl : a.live = some l)
    (hpolled : a.polled = none ∨ a.polled = some l.id) :
    ∀ id ∈ touched (a.parting failure), id = l.id := by
  rcases hpolled with hpolled | hpolled <;>
    simp [touched, parting, hl, hpolled, List.filterMap_cons, Effect.target?]

/-- The agent polls the live connection or none. -/
theorem Coherent.polled_of_live {l : Live} (ha : a.Coherent) (hl : a.live = some l) :
    a.polled = none ∨ a.polled = some l.id := by
  rw [ha.polled_eq, hl]
  split
  · exact Or.inr rfl
  · exact Or.inl rfl

/-- A step touches the link of the live connection, or that of the connection it asks for. -/
theorem Stride.touched (ha : a.Coherent) (hx : Stride settings r a event x) :
    ∀ id ∈ Agent.touched x.2, a.live.map (·.id) = some id ∨ id = a.issued + 1 := by
  have hflush (b : Agent) : Agent.touched (finish (b.flush r)).2 = [] :=
    filterMap_flush (fun _ _ _ => rfl) fun _ => rfl
  have hsubmits (other : ConnId) (operations : List Operation) :
      ∀ id ∈ Agent.touched (operations.map (.submit other)), id = other := by
    simp [Agent.touched, Effect.target?]
  have hparting {l : Live} (hl : a.live = some l) (failure : Option String) :
      ∀ id ∈ Agent.touched (a.parting failure),
        a.live.map (·.id) = some id ∨ id = a.issued + 1 := by
    intro id hid
    rw [mem_touched_parting hl (ha.polled_of_live hl) id hid, hl]
    exact Or.inl rfl
  cases hx with
  | quiet | records => simp [Agent.touched, Effect.target?]
  | @opened _ _ offer =>
    intro id hid
    cases offer <;>
      simp [Agent.touched, List.filterMap_cons, Effect.target?, openingOperations] at hid <;>
      exact Or.inr hid
  | @notCreated _ _ _ error hphase =>
    obtain ⟨hl, hpolled, -⟩ := ha.fresh_of_idle hphase
    simp [Agent.touched, List.filterMap_cons, Effect.target?, parting, hl, hpolled]
  | @notOpened _ peer offer taken _ _ hphase =>
    obtain ⟨-, hpolled, -⟩ := ha.fresh_of_idle hphase
    intro id hid
    right
    have hrest : id = a.issued + 1 ∨ id ∈ Agent.touched (taken.map (.submit (a.issued + 1))) ∨
        id ∈ Agent.touched ((a.opened peer offer).parting (some LinkError.closed.message)) := by
      simpa [Agent.touched, List.filterMap_cons, Effect.target?] using hid
    rcases hrest with rfl | htaken | hend
    · rfl
    · exact hsubmits _ _ id htaken
    · exact mem_touched_parting (a := a.opened peer offer) rfl (Or.inl hpolled) id hend
  | @broken l _ _ taken _ _ hl =>
    intro id hid
    rw [touched_append] at hid
    rcases List.mem_append.mp hid with htaken | hend
    · rw [hsubmits _ _ id htaken, hl]
      exact Or.inl rfl
    · exact hparting hl (some LinkError.closed.message) id hend
  | @failed l _ noted error hl =>
    intro id hid
    have hnoted : Agent.touched (noted.map .warn) = [] := filterMap_map_eq_nil (fun _ => rfl) noted
    rw [touched_append, hnoted] at hid
    exact hparting hl (some error.message) id hid
  | left hl => exact hparting hl none
  | hungUp hl => exact hparting hl none
  | closed hl =>
    intro id hid
    have hlast : Agent.touched (if a.isSignedIn then [Effect.signOut] else []) = [] := by
      split <;> rfl
    change id ∈ Agent.touched (a.parting none ++ _) at hid
    rw [touched_append, hlast, List.append_nil] at hid
    exact hparting hl none id hid
  | flushed | signedInDuringCall | ownCandidate => simp [hflush]
  | offerMade hl | answerMade hl =>
    rw [finish_after, touched_append, hflush]
    simp [Agent.touched, List.filterMap_cons, Effect.target?, hl]
  | released hl => simp [Agent.touched, Effect.target?, hl]
  | signedIn | signedOut | signInFailed =>
    dsimp only
    split_ifs <;> simp [Agent.touched, List.filterMap_cons, Effect.target?]
  | offerAccepted hl | answerAccepted hl | candidatePassed hl =>
    simp [Agent.touched, List.filterMap_cons, Effect.target?, hl]
  | _ => simp [Agent.touched, List.filterMap_cons, Effect.target?]

/-- A step closes the link of the connection that it ends, and no other. -/
theorem Tends.mem_shut (h : Tends a x) :
    id ∈ shut x.2 ↔
      (a.live.map (·.id) = some id ∨ id ∈ made x.2) ∧ x.1.live.map (·.id) ≠ some id := by
  cases h with
  | keeps hmade hshut hlive =>
    rw [hmade, hshut, hlive]
    simp
  | makes hl hmade hshut hlive =>
    rw [hmade, hshut, hlive, hl]
    simp [eq_comm]
  | shuts hl hmade hcloses hlive =>
    rw [hmade, hcloses.shut_eq, hlive, hl]
    simp [eq_comm]
  | fails hl hmade hcloses hlive =>
    rw [hmade, hcloses.shut_eq, hlive, hl]
    simp

/-- A step touches no link that it has closed. -/
theorem Tends.final (h : Tends a x) : Final x.2 := by
  cases h with
  | keeps _ hshut | makes _ _ hshut => exact final_of_shut hshut
  | shuts _ _ hcloses | fails _ _ hcloses => exact hcloses.final

/-! ## One step after others -/

/-- A step keeps the balance: what has been made is what has been closed, and the live link. -/
theorem Tends.balance (h : Tends a x)
    (hbalance : made effects = shut effects ++ (a.live.map (·.id)).toList) :
    made (effects ++ x.2) = shut (effects ++ x.2) ++ (x.1.live.map (·.id)).toList := by
  rw [made_append, shut_append, hbalance]
  cases h with
  | keeps hnone hnone' hlive =>
    rw [hnone, hnone', hlive, List.append_nil, List.append_nil]
  | makes hl hone hnone hlive =>
    rw [hone, hnone, hlive, hl]
    simp
  | shuts hl hnone hcloses hlive =>
    rw [hnone, hcloses.shut_eq, hlive, hl]
    simp
  | fails hl hone hcloses hlive =>
    rw [hone, hcloses.shut_eq, hlive, hl]
    simp

/-- A link that is made belongs to a connection that has had none. -/
theorem Tends.nodup (h : Tends a x) (hnodup : (made effects).Nodup)
    (hfresh : a.issued + 1 ∉ made effects) : (made (effects ++ x.2)).Nodup := by
  rw [made_append]
  cases h with
  | keeps hnone | shuts _ hnone =>
    rw [hnone, List.append_nil]
    exact hnodup
  | makes _ hone | fails _ hone =>
    rw [hone]
    refine List.nodup_append.mpr ⟨hnodup, List.pairwise_singleton _ _, ?_⟩
    intro id hid other hother
    rw [List.mem_singleton.mp hother]
    rintro rfl
    exact hfresh hid

/-- A step makes links under numbers that have been issued. -/
theorem Tends.made_le (h : Tends a x) (hissued : a.issued ≤ x.1.issued)
    (hle : ∀ id ∈ made effects, id ≤ a.issued) : ∀ id ∈ made (effects ++ x.2), id ≤ x.1.issued := by
  intro id hid
  rw [made_append] at hid
  rcases List.mem_append.mp hid with hold | hnew
  · exact Nat.le_trans (hle id hold) hissued
  · cases h with
    | keeps hnone | shuts _ hnone => simp [hnone] at hnew
    | makes _ hone _ _ hlast | fails _ hone _ _ hlast =>
      rw [hlast]
      exact Nat.le_of_eq (by simpa [hone] using hnew)

/-- What touches nothing that was closed before may come after it. -/
theorem Final.append {first second : List Effect} (h : Final first) (h' : Final second)
    (hapart : ∀ id ∈ shut first, id ∉ touched second) : Final (first ++ second) := by
  refine List.pairwise_append.mpr ⟨h, h', fun earlier hearlier later hlater id hshut htarget => ?_⟩
  have hid : id ∈ shut first := List.mem_filterMap.mpr ⟨earlier, hearlier, hshut⟩
  exact hapart id hid (List.mem_filterMap.mpr ⟨later, hlater, htarget⟩)

/-- A link that a step closes is closed where no polls go on. -/
theorem Tends.rested (h : Tends a x) (hrested : Rested effects)
    (hpolls : ∀ id, polls id effects = true → a.polled = some id) : Rested (effects ++ x.2) := by
  intro earlier id later hsplit
  have hnow (between : List Effect) (heffects : x.2 = between ++ .close id :: later) :
      polls id (effects ++ between) = false := by
    have hclosed : id ∈ shut x.2 :=
      List.mem_filterMap.mpr ⟨.close id, by simp [heffects], rfl⟩
    cases h with
    | keeps _ hnone | makes _ _ hnone => simp [hnone] at hclosed
    | shuts _ _ hcloses | fails _ _ hcloses =>
      exact hcloses.rested hpolls between id later heffects
  -- The link is closed in the new step, or in one before it.
  rcases List.append_eq_append_iff.mp hsplit with ⟨between, rfl, hrest⟩ | ⟨between, hpast, hrest⟩
  · exact hnow between hrest
  · cases between with
    | nil =>
      rw [List.append_nil] at hpast
      rw [← hpast, ← List.append_nil effects]
      exact hnow [] hrest.symm
    | cons effect between =>
      obtain ⟨rfl, -⟩ := List.cons.inj hrest
      exact hrested earlier id between hpast

/-- The polls that go on are those of the polled connection. -/
theorem Tends.polled (h : Tends a x)
    (hpolls : ∀ id, polls id effects = true → a.polled = some id) :
    ∀ id, polls id (effects ++ x.2) = true → x.1.polled = some id := by
  intro id hid
  cases h with
  | keeps _ _ _ hpolled =>
    rcases hpolled with ⟨hnone, hsame⟩ | ⟨other, hone, hfree, hnew⟩
    · rw [polls_append (by simp [hnone])] at hid
      exact hsame.trans (hpolls id hid)
    · by_cases hother : other = id
      · rw [hnew, hother]
      · rw [polls_append (by simpa [hone] using hother)] at hid
        simp [hpolls id hid] at hfree
  | makes _ _ _ _ _ hpolled =>
    rw [polls_append (by simp [hpolled.1])] at hid
    exact hpolled.2.trans (hpolls id hid)
  | shuts _ _ hcloses | fails _ _ hcloses =>
    exact absurd (hid.symm.trans (hcloses.polls_eq_false hpolls id)) (by simp)

/-- An agent that is told to shut down stops. -/
theorem step_shutdown (ha : a.Coherent) :
    (a.step settings r (.command .shutdown)).1.isRunning = false := by
  cases hrun : a.isRunning with
  | false => simp [step, hrun]
  | true =>
    cases hl : a.live with
    | none => simp [step, hrun, handle, onCommand, close_of_free ha hl]
    | some l =>
      obtain ⟨-, peer, hpeer⟩ := ha.call_of_live hl
      simp [step, hrun, handle, onCommand, close_of_live ha hl hpeer]

/-! ## Runs -/

/-- What has become of the links of a run. -/
structure Tended (past : List Moment) (a : Agent) : Prop where
  /-- The links that are made are those that are closed, and that of the live connection. -/
  balance : made (effectsOf past) = shut (effectsOf past) ++ (a.live.map (·.id)).toList
  nodup : (made (effectsOf past)).Nodup
  le_issued : ∀ id ∈ made (effectsOf past), id ≤ a.issued
  final : Final (effectsOf past)
  rested : Rested (effectsOf past)
  polled : ∀ id, polls id (effectsOf past) = true → a.polled = some id
  stopped : (∃ m ∈ past, m.event = .command .shutdown) → a.isRunning = false

/-- The links of a step come after those of the steps before it. -/
theorem Tended.step {past : List Moment} (ha : a.Coherent) (h : Tended past a) (event : Event)
    (r : Replies) :
    Tended (past ++ [a.moment settings event r]) (a.step settings r event).1 := by
  have hstride : Stride settings r a event _ := step_stride ha event
  have htends := hstride.tends ha
  have hfresh : a.issued + 1 ∉ made (effectsOf past) := fun hmem =>
    Nat.not_succ_le_self _ (h.le_issued _ hmem)
  -- A link that is closed is neither that of the live connection nor still to be made.
  have hapart : ∀ id ∈ shut (effectsOf past), id ∉ touched (a.step settings r event).2 := by
    intro id hid htouched
    have hnodup := h.nodup
    rw [h.balance] at hnodup
    rcases hstride.touched ha id htouched with hlive | rfl
    · rw [hlive] at hnodup
      exact (List.nodup_append.mp hnodup).2.2 id hid id (by simp) rfl
    · rw [h.balance] at hfresh
      exact hfresh (List.mem_append_left _ hid)
  have hstopped : (∃ m ∈ past ++ [a.moment settings event r], m.event = .command .shutdown) →
      (a.step settings r event).1.isRunning = false := by
    rintro ⟨m, hm, hevent⟩
    rcases List.mem_append.mp hm with hold | hnew
    · have hrun := h.stopped ⟨m, hold, hevent⟩
      simp [Agent.step, hrun]
    · obtain rfl := List.mem_singleton.mp hnew
      obtain rfl : event = .command .shutdown := hevent
      exact step_shutdown ha
  have heffects : effectsOf (past ++ [a.moment settings event r]) =
      effectsOf past ++ (a.step settings r event).2 := effectsOf_append _ _
  constructor
  case balance =>
    rw [heffects]
    exact htends.balance h.balance
  case nodup =>
    rw [heffects]
    exact htends.nodup h.nodup hfresh
  case le_issued =>
    rw [heffects]
    exact htends.made_le hstride.issued_le h.le_issued
  case final =>
    rw [heffects]
    exact h.final.append htends.final hapart
  case rested =>
    rw [heffects]
    exact htends.rested h.rested h.polled
  case polled =>
    rw [heffects]
    exact htends.polled h.polled
  case stopped => exact hstopped

/-- Every run tends its links. -/
theorem run_tended (script : List (Event × Replies)) :
    Tended (history settings script {}) (run settings script {}).1 :=
  (run_induction (p := Tended) ⟨rfl, List.nodup_nil, by simp [effectsOf, made], .nil,
    by simp [effectsOf, Rested], by simp [effectsOf, polls, rhythm], by simp⟩
    (fun _ _ event r ha h => h.step ha event r) script).2

end Agent

end PeerCall
