import PeerCall.Metrics.Record
import PeerCall.Proofs.Lists
import PeerCall.Proofs.Metrics.Rates

/-!
# The history of a ledger

A ledger keeps one stream for each report id. What a stream holds, and so what it makes of the next
report, is read off the reports with this id that have come before it.
-/

namespace PeerCall.Metrics

/-! ## What a report yields -/

namespace Report

/-- The category of a report. -/
def category? (r : Report) : Option Category := Category.ofType? r.type

/-- The count of bytes of a report with its time. -/
def sample (r : Report) : Sample :=
  match r.category? with
  | some .inboundRtp => (r.float? "bytesReceived", r.float? "lastPacketReceivedTimestamp")
  | some .outboundRtp => (r.float? "bytesSent", r.float? "timestamp")
  | some .candidatePair => (r.float? "bytesReceived", r.float? "timestamp")
  | some .remoteInboundRtp | none => (none, none)

/-- The number under a name, from seconds to milliseconds. -/
def ms? (name : String) (r : Report) : Option Float := (r.float? name).map (· * 1000.0)

/-- The round-trip time in milliseconds. -/
def roundTripMs? (r : Report) : Option Float :=
  r.ms? (if r.category? = some .candidatePair then "currentRoundTripTime" else "roundTripTime")

/-- The number of lost packets. -/
def packetsLost? (r : Report) : Option Int64 := r.int? "packetsLost"

/-- The frames per second. -/
def frameRate? (r : Report) : Option Float := r.float? "framesPerSecond"

/-- The number of freezes, unless it is negative. -/
def freezeCount? (r : Report) : Option UInt64 := (r.int? "freezeCount").bind count?

/-- Whether a report is on a video stream. -/
def isVideo (r : Report) : Bool := r.text? "kind" = some "video"

/-- A report without the attributes that have no value. -/
def withoutEmpty (r : Report) : Report :=
  { r with attributes := r.attributes.filter fun a => (r.value? a.1).isSome }

/-- A name without a value is the same as no such name. -/
theorem value?_withoutEmpty (r : Report) (name : String) :
    r.withoutEmpty.value? name = r.value? name := by
  have hkept := lookup_filter_key (fun name => (r.value? name).isSome) name r.attributes
  rw [value?, withoutEmpty, hkept]
  cases h : r.value? name with
  | none => rfl
  | some value => simpa [value?] using h

end Report

/-- A count is the same number without a sign, and there is none for a negative one. -/
theorem count?_eq_some_iff {i : Int64} {n : UInt64} : count? i = some n ↔ i.toInt = n.toNat := by
  have hbound : i.toInt < 2 ^ 63 := i.toInt_lt
  have hnat : i.toNatClampNeg = i.toInt.toNat := rfl
  unfold count?
  by_cases hi : 0 ≤ i
  · have hpos : 0 ≤ i.toInt := by simpa [Int64.le_iff_toInt_le] using hi
    have hsize : i.toInt.toNat < 2 ^ 64 := by omega
    rw [if_pos hi, Option.some.injEq, ← UInt64.toNat_inj, hnat, UInt64.toNat_ofNat_of_lt' hsize]
    omega
  · have hneg : i.toInt < 0 := by simpa [Int64.le_iff_toInt_le] using hi
    rw [if_neg hi]
    simp only [reduceCtorEq, false_iff]
    omega

/-! ## Fields -/

section Fields

variable {α : Type} {f : Report → Option α} {past : List Report} {r : Report}

/-- The last value that some reports yield. -/
def latest? (f : Report → Option α) (past : List Report) : Option α := (past.filterMap f).getLast?

/-- The reading of a field after earlier reports: the value that the report yields, else the last
one that was yielded before, else zero. -/
def Reading.recalled [OfNat α 0] (f : Report → Option α) (past : List Report) (r : Report) :
    Reading α :=
  match f r with
  | some value => .fresh value
  | none => .held ((latest? f past).getD 0)

/-- The last value is that of the last report, if it yields one. -/
theorem latest?_concat : latest? f (past ++ [r]) = (f r).or (latest? f past) := by
  cases h : f r <;> simp [latest?, h]

/-- What is held of a field after earlier reports gives its reading, and is then what is held after
this one too. -/
theorem observe_latest [Inhabited α] [OfNat α 0] (hzero : (default : α) = 0)
    (f : Report → Option α) (past : List Report) (r : Report) :
    Held.observe ⟨latest? f past⟩ (f r) = (.recalled f past r, ⟨latest? f (past ++ [r])⟩) := by
  rw [latest?_concat, Reading.recalled, ← hzero]
  cases f r <;> rfl

end Fields

/-! ## Streams -/

variable {past : List Report} {r : Report} {now : Moment} {category : Category}

/-- The readings of a video report after earlier ones. -/
def Video.recalled (past : List Report) (r : Report) : Video where
  frameRate := .recalled Report.frameRate? past r
  freezeCount := .recalled Report.freezeCount? past r
  freezeDurationMs := .recalled (Report.ms? "totalFreezesDuration") past r
  interFrameDelayMs := .recalled (Report.ms? "totalInterFrameDelay") past r

/-- The record of a report after earlier ones with its id. Of a video stream, only the video
reports among them count. -/
def Record.recalled (past : List Report) (category : Category) (r : Report) (now : Moment) :
    Record where
  time := r.time now
  reportId := r.id
  category := category
  kind := r.text? "kind"
  bitrate := ((({} : Rate).after (past.map Report.sample)).observe r.sample.1 r.sample.2).1
  packetsLost := .recalled Report.packetsLost? past r
  jitterMs := .recalled (Report.ms? "jitter") past r
  roundTripMs := .recalled Report.roundTripMs? past r
  video := if r.isVideo then some (.recalled (past.filter (·.isVideo)) r) else none

/-- What is held of a video stream after some reports. -/
def HeldVideo.after (past : List Report) : HeldVideo where
  frameRate := ⟨latest? Report.frameRate? past⟩
  freezeCount := ⟨latest? Report.freezeCount? past⟩
  freezeDurationMs := ⟨latest? (Report.ms? "totalFreezesDuration") past⟩
  interFrameDelayMs := ⟨latest? (Report.ms? "totalInterFrameDelay") past⟩

/-- What is held of a stream after some reports. -/
def Stream.after (past : List Report) : Stream where
  bitrate := ({} : Rate).after (past.map Report.sample)
  packetsLost := ⟨latest? Report.packetsLost? past⟩
  jitterMs := ⟨latest? (Report.ms? "jitter") past⟩
  roundTripMs := ⟨latest? Report.roundTripMs? past⟩
  video := .after (past.filter (·.isVideo))

/-- What is held of a video stream gives the readings of the next report. -/
theorem HeldVideo.observe_after : (HeldVideo.after past).observe r =
    (.recalled past r, .after (past ++ [r])) := by
  have hrate := observe_latest rfl Report.frameRate? past r
  have hcount := observe_latest rfl Report.freezeCount? past r
  have hduration := observe_latest rfl (Report.ms? "totalFreezesDuration") past r
  have hdelay := observe_latest rfl (Report.ms? "totalInterFrameDelay") past r
  rw [Report.frameRate?] at hrate
  rw [Report.freezeCount?] at hcount
  rw [Report.ms?] at hduration hdelay
  simp only [observe, after, secondsToMs, hrate, hcount, hduration, hdelay]
  rfl

/-- What a stream makes of a report, in terms of what the report yields. -/
theorem Stream.observe_eq (s : Stream) (h : r.category? = some category) :
    s.observe category r now =
      (⟨r.time now, r.id, category, r.text? "kind",
          (s.bitrate.observe r.sample.1 r.sample.2).1, (s.packetsLost.observe r.packetsLost?).1,
          (s.jitterMs.observe (r.ms? "jitter")).1, (s.roundTripMs.observe r.roundTripMs?).1,
          if r.isVideo then some (s.video.observe r).1 else none⟩,
        ⟨(s.bitrate.observe r.sample.1 r.sample.2).2, (s.packetsLost.observe r.packetsLost?).2,
          (s.jitterMs.observe (r.ms? "jitter")).2, (s.roundTripMs.observe r.roundTripMs?).2,
          if r.isVideo then (s.video.observe r).2 else s.video⟩) := by
  have hsample : r.sample = ((category.byteCounter.bind fun n => r.float? n.1),
      (category.byteCounter.bind fun n => r.float? n.2)) := by
    cases category <;> simp [Report.sample, h, Category.byteCounter]
  have hroundTrip : r.roundTripMs? = secondsToMs (r.float? category.roundTripName) := by
    cases category <;> simp [Report.roundTripMs?, Report.ms?, h, Category.roundTripName,
      secondsToMs]
  rw [hsample, hroundTrip]
  by_cases hkind : r.text? "kind" = some "video" <;> cases category <;>
    simp [observe, Category.byteCounter, Report.isVideo, hkind, Report.packetsLost?, Report.ms?,
      secondsToMs]

/-- A stream makes of a report what its history says, and goes on with a longer one. -/
theorem Stream.observe_after (past : List Report) (now : Moment) (h : r.category? = some category) :
    (Stream.after past).observe category r now =
      (.recalled past category r now, .after (past ++ [r])) := by
  have hcounts := observe_latest (α := Int64) rfl
  have hfloats := observe_latest (α := Float) rfl
  rw [observe_eq _ h]
  cases hvideo : r.isVideo <;>
    simp [after, Record.recalled, hcounts, hfloats, HeldVideo.observe_after, Rate.after_concat,
      List.filter_append, hvideo]

/-! ## Ledgers -/

/-- The reports among some whose record goes to the stream of an id. -/
def reportsOn (id : String) (seen : List Report) : List Report :=
  seen.filter fun q => q.id = id ∧ q.category?.isSome

/-- The record of a report of a known category after some others. -/
def Report.record? (seen : List Report) (now : Moment) (r : Report) : Option Record :=
  r.category?.map fun category => .recalled (reportsOn r.id seen) category r now

/-- The records of the reports of one poll after some others: one for each of a known category, in
order. -/
def recordsAfter (seen : List Report) (now : Moment) (reports : List Report) : List Record :=
  reports.zipIdx.filterMap fun (r, i) => r.record? (seen ++ reports.take i) now

/-- The record of the first report comes first, and the others are read after it. -/
theorem recordsAfter_cons (seen : List Report) (now : Moment) (r : Report)
    (rest : List Report) : recordsAfter seen now (r :: rest) =
      (r.record? seen now).toList ++ recordsAfter (seen ++ [r]) now rest := by
  have hrest : (rest.zipIdx 1).filterMap
      (fun (q, i) => q.record? (seen ++ (r :: rest).take i) now) =
        recordsAfter (seen ++ [r]) now rest := by
    simp [recordsAfter, List.zipIdx_succ, List.filterMap_map, Function.comp_def]
  rw [← hrest]
  cases h : r.record? seen now <;> simp [recordsAfter, h]

namespace Ledger

variable {l l' : Ledger} {seen : List Report}

/-- Replacing one stream leaves the others. -/
theorem stream_set (l : Ledger) (id other : String) (s : Stream) :
    (l.set id s).stream other = if other = id then s else l.stream other := by
  by_cases hid : other = id
  · simp [stream, set, hid]
  · have hkept : (l.streams.filter (·.1 ≠ id)).lookup other = l.streams.lookup other := by
      rw [lookup_filter_key (· ≠ id), if_pos (by simpa using hid)]
    have hhead : (other == id) = false := by simpa using hid
    simp only [stream, set, List.lookup_cons, hhead, hkept, if_neg hid]

/-- The streams of a ledger hold what these reports have left. -/
def Recalls (l : Ledger) (seen : List Report) : Prop :=
  ∀ id, l.stream id = .after (reportsOn id seen)

/-- A new ledger has seen nothing. -/
theorem recalls_new : Recalls {} [] := fun _ => rfl

/-- A report goes to the stream of its own id, if its category is known. -/
theorem reportsOn_concat (id : String) (seen : List Report) (r : Report) :
    reportsOn id (seen ++ [r]) =
      reportsOn id seen ++ if r.id = id ∧ r.category?.isSome then [r] else [] := by
  by_cases h : r.id = id ∧ r.category?.isSome <;> simp [reportsOn, h]

/-- One report: its record is what the history says, and only the stream of its id goes on. -/
theorem add_recalls (r : Report) (now : Moment) (h : l.Recalls seen) :
    (l.add r now).1 = r.record? seen now ∧ (l.add r now).2.Recalls (seen ++ [r]) := by
  cases hcategory : r.category? with
  | none =>
    have hadd : l.add r now = (none, l) := by
      rw [Report.category?] at hcategory
      simp [add, hcategory]
    rw [hadd]
    refine ⟨by simp [Report.record?, hcategory], fun id => ?_⟩
    rw [reportsOn_concat, hcategory]
    simpa using h id
  | some category =>
    have hobserve := Stream.observe_after (reportsOn r.id seen) now hcategory
    rw [← h r.id] at hobserve
    have hadd : l.add r now = (some (.recalled (reportsOn r.id seen) category r now),
        l.set r.id (.after (reportsOn r.id seen ++ [r]))) := by
      rw [Report.category?] at hcategory
      simp [add, hcategory, hobserve]
    rw [hadd]
    refine ⟨by simp [Report.record?, hcategory], fun id => ?_⟩
    rw [stream_set, reportsOn_concat, hcategory]
    by_cases hid : id = r.id
    · simp [hid]
    · simpa [hid, Ne.symm hid] using h id

/-- The reports of one poll. -/
theorem ingest_recalls (now : Moment) (reports : List Report) (h : l.Recalls seen) :
    (l.ingest now reports).1 = recordsAfter seen now reports ∧
      (l.ingest now reports).2.Recalls (seen ++ reports) := by
  induction reports generalizing l seen with
  | nil => exact ⟨rfl, by rwa [List.append_nil]⟩
  | cons r rest ih =>
    obtain ⟨hrecord, hadded⟩ := add_recalls r now h
    obtain ⟨hrecords, hingested⟩ := ih hadded
    rw [List.append_cons, recordsAfter_cons, ← hrecord, ← hrecords]
    exact ⟨rfl, hingested⟩

/-! ## Runs -/

/-- The records of each of some polls, in order. -/
def records (l : Ledger) : List (Moment × List Report) → List (List Record)
  | [] => []
  | (now, reports) :: rest =>
    (l.ingest now reports).1 :: (l.ingest now reports).2.records rest

/-- The ledger after some polls. -/
def after (l : Ledger) (polls : List (Moment × List Report)) : Ledger :=
  polls.foldl (fun l poll => (l.ingest poll.1 poll.2).2) l

variable {polls : List (Moment × List Report)}

/-- The records of one poll more come last. -/
theorem records_concat (l : Ledger) (reports : List Report) :
    l.records (polls ++ [(now, reports)]) =
      l.records polls ++ [((l.after polls).ingest now reports).1] := by
  induction polls generalizing l with
  | nil => rfl
  | cons first polls ih => simp [records, after, ih]

/-- After some polls a ledger recalls their reports. -/
theorem after_recalls (h : l.Recalls seen) :
    (l.after polls).Recalls (seen ++ polls.flatMap (·.2)) := by
  induction polls generalizing l seen with
  | nil => simpa [after] using h
  | cons first polls ih => simpa [after] using ih (ingest_recalls _ _ h).2

/-! ## What leaves no trace -/

/-- Attributes without a value change nothing. -/
theorem add_withoutEmpty (l : Ledger) (r : Report) (now : Moment) :
    l.add r.withoutEmpty now = l.add r now := by
  have hfloat : r.withoutEmpty.float? = r.float? := by
    funext name
    rw [Report.float?, Report.value?_withoutEmpty, Report.float?]
  have hint : r.withoutEmpty.int? = r.int? := by
    funext name
    rw [Report.int?, Report.value?_withoutEmpty, Report.int?]
  have htext : r.withoutEmpty.text? = r.text? := by
    funext name
    rw [Report.text?, Report.value?_withoutEmpty, Report.text?]
  have hid : r.withoutEmpty.id = r.id := rfl
  have htype : r.withoutEmpty.type = r.type := rfl
  have htime : r.withoutEmpty.time now = r.time now := by rw [Report.time, hfloat, Report.time]
  have hvideo (held : HeldVideo) : held.observe r.withoutEmpty = held.observe r := by
    rw [HeldVideo.observe, hfloat, hint, HeldVideo.observe]
  have hstream (s : Stream) (category : Category) :
      s.observe category r.withoutEmpty now = s.observe category r now := by
    rw [Stream.observe, hfloat, hint, htext, hid, htime, hvideo, Stream.observe]
  unfold add
  simp only [htype, hid, hstream]

/-- Attributes without a value change nothing in a poll either. -/
theorem ingest_withoutEmpty (l : Ledger) (now : Moment) (reports : List Report) :
    l.ingest now (reports.map Report.withoutEmpty) = l.ingest now reports := by
  induction reports generalizing l with
  | nil => rfl
  | cons r rest ih => simp only [List.map_cons, ingest, add_withoutEmpty, ih]

/-- Reports of unknown categories change nothing. -/
theorem ingest_known (l : Ledger) (now : Moment) (reports : List Report) :
    l.ingest now (reports.filter (·.category?.isSome)) = l.ingest now reports := by
  induction reports generalizing l with
  | nil => rfl
  | cons r rest ih =>
    cases hcategory : r.category? with
    | some category => simp [hcategory, ingest, ih]
    | none =>
      have hadd : l.add r now = (none, l) := by
        rw [Report.category?] at hcategory
        simp [add, hcategory]
      simp [hcategory, ingest, hadd, ih]

/-- The polls with their reports changed. -/
def eachPoll (f : List Report → List Report) (polls : List (Moment × List Report)) :
    List (Moment × List Report) :=
  polls.map fun poll => (poll.1, f poll.2)

/-- A change to the reports that no ledger notices leaves all records. -/
theorem records_eachPoll {f : List Report → List Report}
    (hf : ∀ (l : Ledger) now reports, l.ingest now (f reports) = l.ingest now reports)
    (l : Ledger) : l.records (eachPoll f polls) = l.records polls := by
  induction polls generalizing l with
  | nil => rfl
  | cons first polls ih =>
    simp only [eachPoll, List.map_cons, records, hf]
    exact congrArg _ (ih _)

/-! ## The reports of one id -/

/-- The reports of an id among those of this id. -/
theorem reportsOn_filter (id : String) (seen : List Report) :
    reportsOn id (seen.filter (·.id = id)) = reportsOn id seen := by
  simp only [reportsOn, List.filter_filter]
  exact List.filter_congr fun r _ => by by_cases hr : r.id = id <;> simp [hr]

/-- The record of a report needs only the reports of its id. -/
theorem record?_id (r : Report) (seen : List Report) (now : Moment) :
    r.record? (seen.filter (·.id = r.id)) now = r.record? seen now := by
  rw [Report.record?, reportsOn_filter, Report.record?]

/-- The record of a report bears its id. -/
theorem filter_record? (id : String) (r : Report) (seen : List Report) (now : Moment) :
    (r.record? seen now).toList.filter (·.reportId = id) =
      if r.id = id then (r.record? seen now).toList else [] := by
  cases h : r.category? <;> simp [Report.record?, h, Record.recalled, List.filter_cons]

/-- The records of one id come from the reports of this id alone. -/
theorem recordsAfter_id (id : String) (seen : List Report) (now : Moment)
    (reports : List Report) :
    (recordsAfter seen now reports).filter (·.reportId = id) =
      recordsAfter (seen.filter (·.id = id)) now (reports.filter (·.id = id)) := by
  induction reports generalizing seen with
  | nil => rfl
  | cons r rest ih =>
    rw [recordsAfter_cons, List.filter_append, filter_record?, ih, List.filter_append]
    by_cases hr : r.id = id
    · subst hr
      simp [recordsAfter_cons, record?_id]
    · simp [hr]

/-- The records of one id in a run come from the reports of this id alone. -/
theorem records_id (id : String) (h : l.Recalls seen) (h' : l'.Recalls (seen.filter (·.id = id))) :
    l'.records (eachPoll (·.filter (·.id = id)) polls) =
      (l.records polls).map (·.filter (·.reportId = id)) := by
  induction polls generalizing l l' seen with
  | nil => rfl
  | cons first polls ih =>
    obtain ⟨now, reports⟩ := first
    obtain ⟨hrecords, hlater⟩ := ingest_recalls now reports h
    obtain ⟨hrecords', hlater'⟩ :=
      ingest_recalls now (reports.filter (·.id = id)) h'
    rw [← List.filter_append] at hlater'
    have hrest := ih hlater hlater'
    simp only [eachPoll, List.map_cons, records] at hrest ⊢
    rw [hrest, hrecords, hrecords', recordsAfter_id]

/-! ## The history of a run -/

/-- A ledger says of each report what the history of its id says.

After any polls, the records of a further one are, in order, one for each report of a known
category, and each is the record recalled from the earlier reports of its id: those of the earlier
polls and those before it in its own. Reports of unknown categories and attributes without a value
might as well not be there, and the records of an id are those that its reports alone would give:
other ids, and their places among the reports, do not matter to it. -/
theorem run_ledger (polls : List (Moment × List Report)) :
    (∀ now reports, records {} (polls ++ [(now, reports)]) =
      records {} polls ++ [recordsAfter (polls.flatMap (·.2)) now reports]) ∧
    (∀ (i : Int64) (n : UInt64), count? i = some n ↔ i.toInt = n.toNat) ∧
    records {} (eachPoll (·.filter (·.category?.isSome)) polls) = records {} polls ∧
    records {} (eachPoll (·.map Report.withoutEmpty) polls) = records {} polls ∧
    ∀ id, records {} (eachPoll (·.filter (·.id = id)) polls) =
      (records {} polls).map (·.filter (·.reportId = id)) := by
  refine ⟨fun now reports => ?_, fun i n => count?_eq_some_iff, ?_, ?_, fun id => ?_⟩
  · rw [records_concat, (ingest_recalls now reports (after_recalls recalls_new)).1, List.nil_append]
  · exact records_eachPoll ingest_known {}
  · exact records_eachPoll ingest_withoutEmpty {}
  · exact records_id id recalls_new recalls_new

end Ledger

end PeerCall.Metrics
