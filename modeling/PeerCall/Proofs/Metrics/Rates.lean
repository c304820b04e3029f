import Mathlib.Data.List.Induction
import PeerCall.Metrics.Reading

/-!
# The history of a bit rate

A rate keeps two things of the samples before: the last whole one, from which the next is measured,
and the last rate that was measured. Here both are read off the list of samples, and so is every
reading. Samples that are not whole have no part in it.
-/

namespace PeerCall.Metrics

open Float.Model (UnpackedFloat)

/-! ## Comparing doubles -/

section Doubles

variable {x y : Float}

/-- Doubles are in order as the standard library compares them. -/
theorem le_iff_compare :
    x ≤ y ↔ (x.toModel.unpack.compare y.toModel.unpack).any (·.isLE) = true :=
  decide_eq_true_iff

/-- So it is with the strict order. -/
theorem lt_iff_compare : x < y ↔ x.toModel.unpack.compare y.toModel.unpack = some .lt :=
  decide_eq_true_iff.trans beq_iff_eq

/-- The larger of two doubles. One that is no number does not count. -/
def larger (x y : Float) : Float :=
  if x.isNaN then y else if y.isNaN then x else if x ≤ y then y else x

/-- A double is positive if and only if it is a number and not at most zero. -/
theorem pos_iff : 0 < x ↔ x.isNaN = false ∧ ¬x ≤ 0 := by
  have hzero : (0 : Float).toModel.unpack = .zero .positive := rfl
  have hnan : x.isNaN = x.toModel.unpack.isNaN := rfl
  rw [lt_iff_compare, le_iff_compare, hzero, hnan]
  -- For each form and sign of the number both comparisons compute.
  cases x.toModel.unpack with
  | notANumber => exact iff_of_false (Option.some_ne_none _).symm fun h => Bool.noConfusion h.1
  | zero =>
    have hequal : ¬some Ordering.eq = some .lt := by simp
    exact iff_of_false hequal fun h => h.2 rfl
  | infinity sign | finite sign =>
    cases sign with
    | positive => exact iff_of_true rfl ⟨rfl, Bool.false_ne_true⟩
    | negative =>
      have hgreater : ¬some Ordering.gt = some .lt := by simp
      exact iff_of_false hgreater fun h => h.2 rfl

/-- A rate that counts as measured is positive. -/
theorem pos_of_rateFloor_le (h : rateFloor ≤ x) : 0 < x := by
  obtain ⟨m, e, hm, hfloor⟩ : ∃ m e hm, rateFloor.toModel.unpack = .finite .positive m e hm :=
    ⟨_, _, by decide, rfl⟩
  have hzero : (0 : Float).toModel.unpack = .zero .positive := rfl
  rw [le_iff_compare, hfloor] at h
  rw [lt_iff_compare, hzero]
  cases hx : x.toModel.unpack with
  | notANumber | zero =>
    rw [hx] at h
    exact absurd h Bool.false_ne_true
  | infinity sign | finite sign =>
    rw [hx] at h
    cases sign with
    | positive => rfl
    | negative => exact absurd h Bool.false_ne_true

/-- The loss of a count that has gone back, or is no number, is taken as zero. -/
theorem atLeastZero_eq_larger (x : Float) : Rate.atLeastZero x = larger x 0 := by
  have hzero : (0 : Float).isNaN = false := rfl
  unfold Rate.atLeastZero larger
  grind [pos_iff]

end Doubles

/-! ## Samples and readings -/

/-- A running count of bytes with its time in milliseconds, as far as they are there. -/
abbrev Sample := Option Float × Option Float

/-- The count and the time in seconds of a sample that has both. -/
def Sample.whole? : Sample → Option (Float × Float)
  | (some bytes, some ms) => some (bytes, ms / 1000.0)
  | _ => none

namespace Rate

variable {r : Rate} {past : List Sample} {s : Sample}

/-- The rate after some samples. -/
def after (r : Rate) (samples : List Sample) : Rate :=
  samples.foldl (fun r s => (r.observe s.1 s.2).2) r

/-- The readings of some samples, in order. -/
def readings (r : Rate) : List Sample → List (Reading (Option Float))
  | [] => []
  | s :: rest => (r.observe s.1 s.2).1 :: (r.observe s.1 s.2).2.readings rest

/-- The last sample comes after all others. -/
theorem after_concat : r.after (past ++ [s]) = ((r.after past).observe s.1 s.2).2 := by
  simp [after]

/-- Its reading is the last. -/
theorem readings_concat : r.readings (past ++ [s]) =
    r.readings past ++ [((r.after past).observe s.1 s.2).1] := by
  induction past generalizing r with
  | nil => rfl
  | cons first past ih => simp [readings, after, ih]

/-- The last whole one of some samples. -/
def latestWhole? (samples : List Sample) : Option (Float × Float) :=
  (samples.filterMap Sample.whole?).getLast?

/-- The rate in megabits per second between two whole samples. -/
def megabits (earlier later : Float × Float) : Float :=
  larger (later.1 - earlier.1) 0 / (later.2 - earlier.2).abs * 8.0 / 1e6

/-- Two whole samples measure a rate if time has passed between them and the rate is not too low
to count. -/
def Measures (earlier later : Float × Float) : Prop :=
  ((later.2 - earlier.2).abs == 0) = false ∧ 1e-6 ≤ megabits earlier later

/-- The rate between two whole samples, if time has passed between them. -/
theorem between_eq (earlier later : Float × Float) : between earlier later =
    if (later.2 - earlier.2).abs == 0 then none else some (megabits earlier later) := by
  rw [megabits, ← atLeastZero_eq_larger]
  rfl

/-! ## One sample -/

/-- A sample that is not whole changes nothing. -/
theorem observe_of_not_whole (hs : s.whole? = none) :
    r.observe s.1 s.2 = (.held (some (r.last.getD 0)), r) := by
  obtain ⟨bytes, ms⟩ := s
  cases bytes <;> cases ms <;> first | rfl | simp [Sample.whole?] at hs

/-- A whole sample moves the baseline, and the rate it measures is shown unless it is too low. -/
theorem observe_of_whole {later : Float × Float} (hs : s.whole? = some later) :
    r.observe s.1 s.2 = match r.baseline.bind (between · later) with
      | some rate =>
        if rateFloor ≤ rate then (.fresh (some rate), ⟨some later, some rate⟩)
        else (.held r.last, ⟨some later, r.last⟩)
      | none => (.held r.last, ⟨some later, r.last⟩) := by
  obtain ⟨bytes, ms⟩ := s
  cases bytes <;> cases ms <;> simp only [Sample.whole?, reduceCtorEq, Option.some.injEq] at hs
  subst hs
  rfl

/-- What a whole sample does: it moves the baseline, and it either measures a rate or shows the
last one. -/
inductive Takes (r : Rate) (later : Float × Float) : Reading (Option Float) × Rate → Prop
  | measures {earlier : Float × Float} (hbaseline : r.baseline = some earlier)
      (hmeasures : Measures earlier later) :
      Takes r later (.fresh (some (megabits earlier later)),
        ⟨some later, some (megabits earlier later)⟩)
  | holds (hnone : ∀ earlier, r.baseline = some earlier → ¬Measures earlier later) :
      Takes r later (.held r.last, ⟨some later, r.last⟩)

/-- A whole sample does one of the two. -/
theorem observe_takes {later : Float × Float} (hs : s.whole? = some later) :
    Takes r later (r.observe s.1 s.2) := by
  rw [observe_of_whole hs]
  cases hbaseline : r.baseline with
  | none => exact .holds (by simp [hbaseline])
  | some earlier =>
    simp only [Option.bind_some, between_eq]
    cases helapsed : (later.2 - earlier.2).abs == 0 with
    | true => exact .holds (by simp [hbaseline, Measures, helapsed])
    | false =>
      by_cases hfloor : rateFloor ≤ megabits earlier later
      · simpa [hfloor] using Takes.measures hbaseline ⟨helapsed, hfloor⟩
      · have hnone : ∀ earlier', r.baseline = some earlier' → ¬Measures earlier' later := by
          intro earlier' h hmeasures
          obtain rfl := Option.some.inj (hbaseline.symm.trans h)
          exact hfloor hmeasures.2
        simpa [hfloor] using Takes.holds hnone

/-- The reading of a whole sample is fresh if and only if it measures a rate. -/
theorem Takes.reading {later : Float × Float} {x : Reading (Option Float) × Rate}
    (h : Takes r later x) :
    (∀ value, x.1 = .fresh value ↔ ∃ earlier, r.baseline = some earlier ∧
      Measures earlier later ∧ value = some (megabits earlier later)) ∧
    (x.1.isFresh = false → x.1.value = r.last) := by
  cases h with
  | measures hbaseline hmeasures =>
    refine ⟨fun value => ⟨fun h => ?_, ?_⟩, fun h => by simp [Reading.fresh] at h⟩
    · exact ⟨_, hbaseline, hmeasures, by simpa [Reading.fresh, eq_comm] using h⟩
    · rintro ⟨earlier, hearlier, -, rfl⟩
      rw [Option.some.inj (hbaseline.symm.trans hearlier)]
  | holds hnone =>
    refine ⟨fun value => ⟨fun h => by simp [Reading.held, Reading.fresh] at h, ?_⟩, fun _ => rfl⟩
    rintro ⟨earlier, hearlier, hmeasures, -⟩
    exact absurd hmeasures (hnone earlier hearlier)

/-! ## Runs -/

/-- The value of a reading, if it was measured. -/
def freshValue? (reading : Reading (Option Float)) : Option Float :=
  if reading.isFresh then reading.value else none

/-- The rates that were measured at some samples, in order. -/
def measured (samples : List Sample) : List Float :=
  (({} : Rate).readings samples).filterMap freshValue?

/-- A rate that is measured at the last sample comes last. -/
theorem measured_concat : measured (past ++ [s]) = measured past ++
    (freshValue? ((({} : Rate).after past).observe s.1 s.2).1).toList := by
  rw [measured, readings_concat, List.filterMap_append]
  cases h : freshValue? ((({} : Rate).after past).observe s.1 s.2).1 <;> simp [measured, h]

/-- The last whole sample is the last one, if that is whole. -/
theorem latestWhole?_concat :
    latestWhole? (past ++ [s]) = s.whole?.or (latestWhole? past) := by
  cases h : s.whole? <;> simp [latestWhole?, h]

/-- After some samples, the baseline is the last whole one, whether or not it measured a rate, and
the last rate is the last one that was measured. -/
theorem after_eq (past : List Sample) :
    ({} : Rate).after past = ⟨latestWhole? past, (measured past).getLast?⟩ := by
  induction past using List.reverseRecOn with
  | nil => rfl
  | append_singleton past s ih =>
    rw [after_concat, measured_concat, latestWhole?_concat]
    cases hs : s.whole? with
    | none =>
      rw [observe_of_not_whole hs, ih]
      simp [freshValue?, Reading.held]
    | some later =>
      have htakes : Takes (({} : Rate).after past) later _ := observe_takes hs
      generalize (({} : Rate).after past).observe s.1 s.2 = x at htakes ⊢
      cases htakes with
      | measures => simp [freshValue?, Reading.fresh]
      | holds => simp [freshValue?, Reading.held, ih]

/-- A rate that is kept is a positive number. -/
theorem pos_of_mem_measured {v : Float} (hv : v ∈ measured past) : v.isNaN = false ∧ 0 < v := by
  induction past using List.reverseRecOn with
  | nil => simp [measured, readings] at hv
  | append_singleton past s ih =>
    rw [measured_concat, List.mem_append] at hv
    rcases hv with hold | hnew
    · exact ih hold
    cases hs : s.whole? with
    | none => simp [observe_of_not_whole hs, freshValue?, Reading.held] at hnew
    | some later =>
      have htakes : Takes (({} : Rate).after past) later _ := observe_takes hs
      generalize (({} : Rate).after past).observe s.1 s.2 = x at htakes hnew
      cases htakes with
      | measures _ hmeasures =>
        obtain rfl : _ = v := by simpa [freshValue?, Reading.fresh, eq_comm] using hnew
        have hpos := pos_of_rateFloor_le hmeasures.2
        exact ⟨(pos_iff.mp hpos).1, hpos⟩
      | holds => simp [freshValue?, Reading.held] at hnew

/-- Samples that are not whole leave the readings of the others as they are. -/
theorem readings_filter_whole (r : Rate) (samples : List Sample) :
    r.readings (samples.filter (·.whole?.isSome)) =
      ((samples.zip (r.readings samples)).filter (·.1.whole?.isSome)).map (·.2) := by
  induction samples generalizing r with
  | nil => rfl
  | cons s rest ih =>
    cases hs : s.whole? with
    | none => simp [readings, hs, observe_of_not_whole hs, ih]
    | some later => simp [readings, hs, ih]

/-- The readings of a run, one sample after another. Samples that are not whole could be left out
without a change to the readings of the others. A whole sample has a fresh reading if and only if
it measures a rate against the last whole one before it, and then that rate; so the baseline moves
with every whole sample. Every other reading shows the last rate that was measured, and in its
absence nothing for a whole sample and zero for any other. The last rate that is kept is always the
last one that was measured, a positive number. -/
theorem run_rates (past : List Sample) (s : Sample) :
    let rate := ({} : Rate).after past
    let reading := (rate.observe s.1 s.2).1
    ({} : Rate).readings (past ++ [s]) = ({} : Rate).readings past ++ [reading] ∧
    ({} : Rate).readings (past.filter (·.whole?.isSome)) =
      ((past.zip (({} : Rate).readings past)).filter (·.1.whole?.isSome)).map (·.2) ∧
    (∀ later, s.whole? = some later →
      (∀ value, reading = .fresh value ↔ ∃ earlier, latestWhole? past = some earlier ∧
        Measures earlier later ∧ value = some (megabits earlier later)) ∧
      (reading.isFresh = false → reading.value = (measured past).getLast?)) ∧
    (s.whole? = none → reading = .held (some ((measured past).getLast?.getD 0))) ∧
    rate.baseline = latestWhole? past ∧ rate.last = (measured past).getLast? ∧
    ∀ v, rate.last = some v → v.isNaN = false ∧ 0 < v := by
  intro rate reading
  have hafter : rate = ⟨latestWhole? past, (measured past).getLast?⟩ := after_eq past
  refine ⟨readings_concat, readings_filter_whole _ _, fun later hs => ?_, fun hs => ?_,
    by rw [hafter], by rw [hafter], fun v hv => ?_⟩
  · have htakes : Takes rate later (rate.observe s.1 s.2) := observe_takes hs
    have hbaseline : rate.baseline = latestWhole? past := by rw [hafter]
    have hlast : rate.last = (measured past).getLast? := by rw [hafter]
    rw [← hbaseline, ← hlast]
    exact htakes.reading
  · simp only [reading, observe_of_not_whole hs, hafter]
  · rw [hafter] at hv
    exact pos_of_mem_measured (List.mem_of_getLast? hv)

/-- A sample without a time, one whose clock has gone back, and a count that is lost. -/
def unevenSamples : List Sample :=
  [(some 0, some 2000), (some 125000, none), (some 125000, some 1000), (some (0 / 0), some 3000)]

/-- A clock that stands still measures nothing: the rate from before the loss is shown. -/
theorem rates_unevenSamples :
    let rate := ({} : Rate).after unevenSamples
    measured unevenSamples = [1] ∧ (∀ v, rate.last = some v → v.isNaN = false ∧ 0 < v) ∧
      (rate.observe (some 250000) (some 3000)).1.value = some 1 := by
  have hwhole : Sample.whole? (some 250000, some 3000) = some (250000, 3) := by decide +kernel
  have hmeasured : measured unevenSamples = [1] := by decide +kernel
  have hstale : ((({} : Rate).after unevenSamples).observe (some 250000) (some 3000)).1.isFresh =
      false := by decide +kernel
  obtain ⟨-, -, hreading, -, -, -, hlast⟩ := run_rates unevenSamples (some 250000, some 3000)
  dsimp only at hreading
  have hvalue := (hreading _ hwhole).2 hstale
  rw [hmeasured] at hvalue
  exact ⟨hmeasured, hlast, hvalue⟩

end Rate

end PeerCall.Metrics
