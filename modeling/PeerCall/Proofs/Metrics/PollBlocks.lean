import Mathlib.Data.List.Nodup
import Mathlib.Data.List.SplitBy
import PeerCall.Metrics.PollText
import PeerCall.Text.Part

/-!
# The blocks of a poll

Scripts that read the text of a poll go by what its lines begin with. Every line is a label with
something filled in after it, and what it begins with is told by the label alone, whatever is filled
in. So the lines after the header fall into blocks in one way only, one for each record.
-/

namespace PeerCall.Metrics

/-! ## Labels -/

/-- The labels of a poll. -/
inductive Label
  | header
  | title (c : Category)
  | receivingRate
  | packetsLost
  | jitter
  | videoTitle
  | frameRate
  | freezeCount
  | freezeDuration
  | interFrameDelay
  | remotePacketsLost
  | remoteJitter
  | roundTrip
  | sendingRate
  | transportRate
  | currentRoundTrip
  deriving DecidableEq

namespace Label

/-- What scripts look for at the beginning of a line. -/
def start : Label → String
  | header => "PeerConnection Stats Report received"
  | title .inboundRtp => "********LOGGING INBOUND TRANSPORT RTP STATS********"
  | title .remoteInboundRtp => "********LOGGING REMOTE INBOUND RTP STATS********"
  | title .outboundRtp => "********LOGGING OUTBOUND RTP STATS********"
  | title .candidatePair => "********LOGGING ICE CANDIDATE PAIR STATS********"
  | receivingRate => "Receiving Rate:"
  | packetsLost => "Packets Lost:"
  | jitter => "Jitter:"
  | videoTitle => "********LOGGING INBOUND VIDEO RTP STATS********"
  | frameRate => "Frames per Second:"
  | freezeCount => "Freeze Rate:"
  | freezeDuration => "Total Freeze Duration:"
  | interFrameDelay => "Total Inter Frame Delay:"
  | remotePacketsLost => "Remote Packets Lost:"
  | remoteJitter => "Remote Jitter:"
  | roundTrip => "Round Trip Time:"
  | sendingRate => "Sending Rate:"
  | transportRate => "Transport Rate:"
  | currentRoundTrip => "Current Round Trip Time:"

/-- What stands between the start of a line and its value. -/
def gap : Label → String
  | header => ", timestamp: "
  | title _ => ""
  | videoTitle => ""
  | _ => " "

/-- The parts of a poll that labels belong to. -/
inductive Part
  | header
  | title
  | body (c : Category)
  | video

/-- The part of a poll that a label belongs to. -/
def part : Label → Part
  | header => .header
  | title _ => .title
  | receivingRate | packetsLost | jitter => .body .inboundRtp
  | videoTitle | frameRate | freezeCount | freezeDuration | interFrameDelay => .video
  | remotePacketsLost | remoteJitter | roundTrip => .body .remoteInboundRtp
  | sendingRate => .body .outboundRtp
  | transportRate | currentRoundTrip => .body .candidatePair

/-- All labels. -/
def all : List Label :=
  header :: Category.all.map title ++
    [receivingRate, packetsLost, jitter, videoTitle, frameRate, freezeCount, freezeDuration,
      interFrameDelay, remotePacketsLost, remoteJitter, roundTrip, sendingRate, transportRate,
      currentRoundTrip]

/-- The list of all labels is complete. -/
theorem mem_all (l : Label) : l ∈ all := by
  rcases l with _ | (_ | _ | _ | _) | _ <;> decide

/-- The text of a label. -/
def text (l : Label) : String := l.start ++ l.gap

/-- A label with the characters of its start and of its text. -/
def spelled (l : Label) : Label × List Char × List Char := (l, l.start.toList, l.text.toList)

/-- No label ends where the start of another goes on, a start stands at the beginning of one label
only, and no label has a line break. Some starts are the ends of others, but that does no harm. -/
theorem spelled_apart : ∀ l ∈ all.map spelled, '\n' ∉ l.2.2 ∧ ∀ l' ∈ all.map spelled,
    (l'.2.2 <+: l.2.1 → l.2.1 <+: l'.2.2) ∧ (l.2.1 <+: l'.2.2 ↔ l'.1 = l.1) := by
  simp only [all, Category.all, spelled, text, start, gap, List.map_cons, List.map_nil,
    List.cons_append, List.nil_append, String.toList_append]
  repeat rw [String.toList_ofList]
  decide +kernel

/-- So is that of the spelled labels. -/
theorem spelled_mem (l : Label) : spelled l ∈ all.map spelled := List.mem_map_of_mem l.mem_all

/-- A label begins with its own start, and with that of no other. -/
theorem start_prefix_text_iff {l l' : Label} : l.start.toList <+: l'.text.toList ↔ l' = l :=
  ((spelled_apart _ l.spelled_mem).2 _ l'.spelled_mem).2

/-- The text of a label ends before the start of another goes on. -/
theorem start_prefix_of_text_prefix {l l' : Label} (h : l'.text.toList <+: l.start.toList) :
    l.start.toList <+: l'.text.toList :=
  ((spelled_apart _ l.spelled_mem).2 _ l'.spelled_mem).1 h

/-- No label has a line break. -/
theorem text_unbroken (l : Label) : '\n' ∉ l.text.toList := (spelled_apart _ l.spelled_mem).1

end Label

/-- A line of a poll: a label, and what is filled in after it. -/
structure Field where
  label : Label
  value : String

namespace Field

/-- The text of a line. -/
def line (f : Field) : String := f.label.text ++ f.value

/-- What a line begins with is told by its label. -/
theorem beginsWith_line (f : Field) (l : Label) :
    Text.beginsWith l.start f.line = decide (f.label = l) := by
  have hline : f.label.text.toList <+: f.line.toList := by
    rw [line, String.toList_append]
    exact List.prefix_append _ _
  rw [Bool.eq_iff_iff, decide_eq_true_iff, Text.beginsWith_iff, ← Label.start_prefix_text_iff]
  constructor
  · intro hbegins
    exact (List.prefix_or_prefix_of_prefix hbegins hline).elim id Label.start_prefix_of_text_prefix
  · exact fun hbegins => hbegins.trans hline

/-- Among lines, those that begin with the start of a label are the lines of that label. -/
theorem filter_beginsWith (fs : List Field) (l : Label) :
    (fs.map line).filter (Text.beginsWith l.start) = (fs.filter (·.label = l)).map line := by
  have hbegins : Text.beginsWith l.start ∘ line = fun f => decide (f.label = l) :=
    funext fun f => f.beginsWith_line l
  rw [List.filter_map, hbegins]

/-- Some line begins with the start of a label if some line has that label. -/
theorem any_beginsWith (fs : List Field) (l : Label) :
    (fs.map line).any (Text.beginsWith l.start) = fs.any (·.label = l) := by
  have hbegins : Text.beginsWith l.start ∘ line = fun f => decide (f.label = l) :=
    funext fun f => f.beginsWith_line l
  rw [List.any_map, hbegins]

end Field

/-! ## The lines of a record -/

/-- The lines of every record of a category after its title, each with its value. -/
def Category.values : Category → List (Label × (Record → String))
  | .inboundRtp =>
    [(.receivingRate, Record.rateText),
      (.packetsLost, fun r => toString r.packetsLost.value.toInt),
      (.jitter, fun r => Record.inSeconds r.jitterMs)]
  | .remoteInboundRtp =>
    [(.remotePacketsLost, fun r => toString r.packetsLost.value.toInt),
      (.remoteJitter, fun r => Record.inSeconds r.jitterMs),
      (.roundTrip, fun r => Record.inSeconds r.roundTripMs)]
  | .outboundRtp => [(.sendingRate, Record.rateText)]
  | .candidatePair =>
    [(.transportRate, Record.rateText),
      (.currentRoundTrip, fun r => Record.inSeconds r.roundTripMs)]

/-- The lines of a video stream, each with its value. -/
def videoValues : List (Label × (Video → String)) :=
  [(.videoTitle, fun _ => ""),
    (.frameRate, fun v => pollNumber.write v.frameRate.value),
    (.freezeCount, fun v => toString v.freezeCount.value.toNat),
    (.freezeDuration, fun v => Record.inSeconds v.freezeDurationMs),
    (.interFrameDelay, fun v => Record.inSeconds v.interFrameDelayMs)]

/-- The values of a category have labels of its body. -/
theorem part_values {c : Category} : ∀ entry ∈ c.values, entry.1.part = .body c := by
  cases c <;> simp [Category.values, Label.part]

/-- The values of a video have labels of the video. -/
theorem part_videoValues : ∀ entry ∈ videoValues, entry.1.part = .video := by
  simp [videoValues, Label.part]

/-- No label stands twice among the values of a category. -/
theorem nodup_values (c : Category) : (c.values.map Prod.fst).Nodup := by
  cases c <;> decide

/-- Nor does one among the values of a video. -/
theorem nodup_videoValues : (videoValues.map Prod.fst).Nodup := by
  decide

section Fill

variable {α : Type} {values : List (Label × (α → String))} {entry : Label × (α → String)} {x : α}

/-- Lines with their values filled in. -/
def fill (values : List (Label × (α → String))) (x : α) : List Field :=
  values.map fun entry => ⟨entry.1, entry.2 x⟩

/-- A label that none of the values has is on none of their lines. -/
theorem filter_fill_eq_nil {l : Label} (hl : ∀ entry ∈ values, entry.1 ≠ l) :
    (fill values x).filter (·.label = l) = [] := by
  rw [List.filter_eq_nil_iff]
  intro f hf
  obtain ⟨entry, hentry, rfl⟩ := List.mem_map.mp hf
  simpa using hl entry hentry

/-- Of lines with different labels one has a label among them. -/
theorem filter_fill_of_mem (hnodup : (values.map Prod.fst).Nodup) (hentry : entry ∈ values) :
    (fill values x).filter (·.label = entry.1) = [⟨entry.1, entry.2 x⟩] := by
  induction values with
  | nil => cases hentry
  | cons first rest ih =>
    obtain ⟨hfirst, hrest⟩ := List.nodup_cons.mp hnodup
    rw [fill, List.map_cons]
    rcases List.mem_cons.mp hentry with rfl | hentry
    · have hothers : ∀ other ∈ rest, other.1 ≠ entry.1 := fun other hother h =>
        hfirst (h ▸ List.mem_map_of_mem hother)
      rw [List.filter_cons_of_pos (by simp)]
      exact congrArg _ (filter_fill_eq_nil hothers)
    · have hne : first.1 ≠ entry.1 := fun h => hfirst (h ▸ List.mem_map_of_mem hentry)
      rw [List.filter_cons_of_neg (by simpa using hne)]
      exact ih hrest hentry

end Fill

namespace Record

variable {r : Record} {f : Field}

/-- The video that a record shows: only that of an inbound stream. -/
def shownVideo? (r : Record) : Option Video :=
  if r.category = .inboundRtp then r.video else none

/-- The lines of a record after its title. -/
def bodyFields (r : Record) : List Field :=
  fill r.category.values r ++ r.shownVideo?.toList.flatMap (fill videoValues)

/-- The lines of a record. -/
def fields (r : Record) : List Field := ⟨.title r.category, ""⟩ :: r.bodyFields

/-- The lines of a record are those of its fields. -/
theorem lines_eq (r : Record) : r.lines = r.fields.map Field.line := by
  obtain ⟨_, _, category, _, _, _, _, _, video⟩ := r
  cases category <;> cases video <;>
    simp [lines, videoLines, fields, bodyFields, shownVideo?, Category.values, videoValues, fill,
      Field.line, Label.text, Label.start, Label.gap]

/-- A line of a record after its title is one of its category or of its video. -/
theorem mem_bodyFields (hf : f ∈ r.bodyFields) :
    (∃ entry ∈ r.category.values, f = ⟨entry.1, entry.2 r⟩) ∨
      ∃ v, ∃ entry ∈ videoValues, f = ⟨entry.1, entry.2 v⟩ := by
  rcases List.mem_append.mp hf with hf | hf
  · obtain ⟨entry, hentry, rfl⟩ := List.mem_map.mp hf
    exact Or.inl ⟨entry, hentry, rfl⟩
  · obtain ⟨v, -, hf⟩ := List.mem_flatMap.mp hf
    obtain ⟨entry, hentry, rfl⟩ := List.mem_map.mp hf
    exact Or.inr ⟨v, entry, hentry, rfl⟩

/-- After the title come fields of the body and of the video only. -/
theorem part_of_mem_bodyFields (hf : f ∈ r.bodyFields) :
    f.label.part = .body r.category ∨ f.label.part = .video := by
  rcases mem_bodyFields hf with ⟨entry, hentry, rfl⟩ | ⟨v, entry, hentry, rfl⟩
  · exact Or.inl (part_values entry hentry)
  · exact Or.inr (part_videoValues entry hentry)

/-- So none of them is a title. -/
theorem label_ne_title (hf : f ∈ r.bodyFields) (c : Category) : f.label ≠ .title c := by
  intro h
  have hpart := part_of_mem_bodyFields hf
  simp [h, Label.part] at hpart

/-- No field of a record is the header of a poll. -/
theorem label_ne_header (hf : f ∈ r.fields) : f.label ≠ .header := by
  intro h
  rcases List.mem_cons.mp hf with rfl | hf
  · cases h
  · have hpart := part_of_mem_bodyFields hf
    simp [h, Label.part] at hpart

/-- Whether a record shows a video is told by its lines after the title. -/
theorem any_videoTitle (r : Record) :
    r.bodyFields.any (·.label = .videoTitle) = r.shownVideo?.isSome := by
  have hvalues (c : Category) : (fill c.values r).any (·.label = .videoTitle) = false := by
    cases c <;> rfl
  rw [bodyFields, List.any_append, hvalues, Bool.false_or]
  cases r.shownVideo? <;> rfl

/-- The lines of a category stand in the records of it, each once. -/
theorem filter_values {c : Category} {entry : Label × (Record → String)}
    (hentry : entry ∈ c.values) (r : Record) : r.fields.filter (·.label = entry.1) =
      if r.category = c then [⟨entry.1, entry.2 r⟩] else [] := by
  have hpart : entry.1.part = .body c := part_values entry hentry
  have htitle : Label.title r.category ≠ entry.1 := fun h => by
    simp [← h, Label.part] at hpart
  have hvideo (v : Video) : (fill videoValues v).filter (·.label = entry.1) = [] :=
    filter_fill_eq_nil fun other hother h => by
      simp [← h, part_videoValues other hother] at hpart
  rw [fields, List.filter_cons_of_neg (by simpa using htitle), bodyFields, List.filter_append,
    List.filter_flatMap, List.flatMap_eq_nil_iff.mpr fun v _ => hvideo v, List.append_nil]
  split
  · next hcategory =>
    rw [hcategory]
    exact filter_fill_of_mem (nodup_values c) hentry
  · next hcategory =>
    refine filter_fill_eq_nil fun other hother h => hcategory ?_
    simpa [← h, part_values other hother] using hpart

/-- The lines of a video stand where it is shown, each once. -/
theorem filter_video {entry : Label × (Video → String)} (hentry : entry ∈ videoValues)
    (r : Record) : r.fields.filter (·.label = entry.1) =
      r.shownVideo?.toList.map fun v => ⟨entry.1, entry.2 v⟩ := by
  have hpart : entry.1.part = .video := part_videoValues entry hentry
  have htitle : Label.title r.category ≠ entry.1 := fun h => by
    simp [← h, Label.part] at hpart
  have hvalues : (fill r.category.values r).filter (·.label = entry.1) = [] :=
    filter_fill_eq_nil fun other hother h => by
      simp [← h, part_values other hother] at hpart
  rw [fields, List.filter_cons_of_neg (by simpa using htitle), bodyFields, List.filter_append,
    hvalues, List.nil_append, List.filter_flatMap, List.map_eq_flatMap]
  simp only [filter_fill_of_mem nodup_videoValues hentry]

end Record

/-- The lines of a poll are the header and the lines of its records. -/
theorem pollLines_eq (time : Moment) (records : List Record) : pollLines time records =
    Field.line ⟨.header, time.text⟩ :: records.flatMap Record.lines := by
  simp [pollLines, Field.line, Label.text, Label.start, Label.gap]

/-! ## Line breaks -/

/-- A text without a line break. -/
def Unbroken (s : String) : Prop := '\n' ∉ s.toList

instance (s : String) : Decidable (Unbroken s) := inferInstanceAs (Decidable ('\n' ∉ s.toList))

/-- A text has no line break if its parts have none. -/
theorem unbroken_append {s t : String} : Unbroken (s ++ t) ↔ Unbroken s ∧ Unbroken t := by
  simp [Unbroken, String.toList_append]

/-- A line break is no digit. -/
theorem break_notMem_toDigits (n : Nat) : '\n' ∉ Nat.toDigits 10 n := by
  intro hmem
  have hdigit := Nat.isDigit_of_mem_toDigits (by omega) (by omega) hmem
  exact absurd hdigit (by decide)

/-- A natural number has no line break. -/
theorem unbroken_nat (n : Nat) : Unbroken n.repr := by
  rw [Unbroken, Nat.toList_repr]
  exact break_notMem_toDigits n

/-- Nor has an integer. -/
theorem unbroken_int (i : Int) : Unbroken i.repr := by
  cases i with
  | ofNat n => exact unbroken_nat n
  | negSucc n =>
    have hsign : Unbroken "-" := by decide
    exact unbroken_append.mpr ⟨hsign, unbroken_nat (n + 1)⟩

/-- The digits of a decimal have no line break. -/
theorem break_notMem_digits (d : Nat) (e : Int) : '\n' ∉ (Decimal.Digits.ofNat d e).digits := by
  intro hmem
  have hsub := List.dropWhile_subset _ (List.mem_reverse.mp hmem)
  exact break_notMem_toDigits d (List.mem_reverse.mp hsub)

/-- Nor has a decimal that is written in full. -/
theorem break_notMem_places {d : Decimal.Digits} (hd : '\n' ∉ d.digits) :
    '\n' ∉ Decimal.Layout.places [] d := by
  have htake (k : Nat) : '\n' ∉ d.digits.take k := fun h => hd (List.mem_of_mem_take h)
  have hdrop (k : Nat) : '\n' ∉ d.digits.drop k := fun h => hd (List.mem_of_mem_drop h)
  unfold Decimal.Layout.places
  split
  · simp [hd]
  · dsimp only
    split <;> simp [hd, htake, hdrop]

/-- No double is written with a line break. -/
theorem unbroken_number (f : Float) : Unbroken (pollNumber.write f) := by
  unfold Decimal.Layout.write
  cases Decimal.Double.ofFloat f with
  | nan => exact (by decide : Unbroken "NaN")
  | infinite negative =>
    cases negative
    · exact (by decide : Unbroken "inf")
    · exact (by decide : Unbroken "-inf")
  | finite negative m q =>
    have hpositive : '\n' ∉ pollNumber.positive m q := break_notMem_places (break_notMem_digits _ _)
    have hunsigned : '\n' ∉ if m = 0 then '0' :: pollNumber.wholeMark.toList
        else pollNumber.positive m q := by
      split
      · decide
      · exact hpositive
    cases negative <;> simp [Unbroken, hunsigned]

/-- No rate is written with a line break. -/
theorem unbroken_rate (r : Record) : Unbroken r.rateText := by
  rw [Record.rateText, unbroken_append]
  refine ⟨?_, by decide⟩
  cases r.bitrate.value with
  | none => exact (by decide : Unbroken "NAN")
  | some rate => exact unbroken_number rate

/-- No time is written with a line break. -/
theorem unbroken_time (time : Moment) : Unbroken time.text := by
  rcases time with ms | _
  · exact unbroken_int _
  · exact (by decide : Unbroken "now")

/-- Nothing that is filled in for a category has a line break. -/
theorem unbroken_values {c : Category} {entry : Label × (Record → String)}
    (hentry : entry ∈ c.values) (r : Record) : Unbroken (entry.2 r) := by
  revert entry
  cases c <;>
    simp [Category.values, Record.inSeconds, unbroken_rate, unbroken_number, unbroken_int]

/-- Nothing that is filled in for a video has a line break. -/
theorem unbroken_videoValues {entry : Label × (Video → String)} (hentry : entry ∈ videoValues)
    (v : Video) : Unbroken (entry.2 v) := by
  have hempty : Unbroken "" := by decide
  revert entry
  simp [videoValues, Record.inSeconds, hempty, unbroken_number, unbroken_nat]

/-- So no line of a record has one. -/
theorem Record.unbroken_line {r : Record} {line : String} (hline : line ∈ r.lines) :
    Unbroken line := by
  rw [r.lines_eq] at hline
  obtain ⟨f, hf, rfl⟩ := List.mem_map.mp hline
  refine unbroken_append.mpr ⟨f.label.text_unbroken, ?_⟩
  rcases List.mem_cons.mp hf with rfl | hf
  · exact (by decide : Unbroken "")
  · rcases mem_bodyFields hf with ⟨entry, hentry, rfl⟩ | ⟨v, entry, hentry, rfl⟩
    · exact unbroken_values hentry r
    · exact unbroken_videoValues hentry v

/-- The lines of a poll are lines: what is filled in never breaks one. -/
theorem unbroken_of_mem_pollLines {time : Moment} {records : List Record} {line : String}
    (hline : line ∈ pollLines time records) : Unbroken line := by
  rw [pollLines_eq] at hline
  rcases List.mem_cons.mp hline with rfl | hline
  · exact unbroken_append.mpr ⟨Label.text_unbroken _, unbroken_time time⟩
  · obtain ⟨r, -, hline⟩ := List.mem_flatMap.mp hline
    exact r.unbroken_line hline

/-! ## Reading blocks -/

/-- The category of which a line is the title. -/
def Category.ofTitle? (line : String) : Option Category :=
  Category.all.find? fun c => Text.beginsWith (Label.title c).start line

/-- Lines that can be taken for one block: a title, and no other title after it. -/
def IsBlock (lines : List String) : Prop :=
  ∃ first rest, lines = first :: rest ∧ (Category.ofTitle? first).isSome = true ∧
    ∀ line ∈ rest, Category.ofTitle? line = none

/-- Cuts lines before each title. -/
def cutBlocks (lines : List String) : List (List String) :=
  lines.splitBy fun _ next => (Category.ofTitle? next).isNone

/-- What can be read of a block: its category, and whether it shows a video. -/
def readBlock? : List String → Option (Category × Bool)
  | [] => none
  | first :: rest =>
    (Category.ofTitle? first).map fun c => (c, rest.any (Text.beginsWith Label.videoTitle.start))

/-- What can be read of a poll, block by block. -/
def readPoll? : List String → Option (List (Category × Bool))
  | [] => none
  | header :: rest =>
    if Text.beginsWith Label.header.start header then (cutBlocks rest).mapM readBlock? else none

/-- The category that a line names is told by its label. -/
theorem ofTitle?_line (f : Field) :
    Category.ofTitle? f.line = Category.all.find? fun c => f.label = .title c := by
  simp only [Category.ofTitle?, Field.beginsWith_line]

/-- A title names its category. -/
theorem ofTitle?_title (c : Category) (value : String) :
    Category.ofTitle? (Field.line ⟨.title c, value⟩) = some c := by
  rw [ofTitle?_line]
  cases c <;> rfl

/-- The other lines of a record name none. -/
theorem ofTitle?_body {r : Record} {f : Field} (hf : f ∈ r.bodyFields) :
    Category.ofTitle? f.line = none := by
  rw [ofTitle?_line, List.find?_eq_none]
  intro c _
  simpa using Record.label_ne_title hf c

/-- The lines of a record are a block. -/
theorem isBlock_lines (r : Record) : IsBlock r.lines := by
  refine ⟨_, _, r.lines_eq, ?_, ?_⟩
  · rw [ofTitle?_title]
    rfl
  · intro line hline
    obtain ⟨f, hf, rfl⟩ := List.mem_map.mp hline
    exact ofTitle?_body hf

/-- Blocks are what is cut from their lines. -/
theorem cutBlocks_flatten {blocks : List (List String)} (hblocks : ∀ b ∈ blocks, IsBlock b) :
    cutBlocks blocks.flatten = blocks := by
  -- Inside a block no line is a title, and where the next block begins there is one.
  refine List.splitBy_flatten ?_ ?_ ?_
  · intro hnil
    obtain ⟨_, _, hcons, -⟩ := hblocks [] hnil
    cases hcons
  · intro b hb
    obtain ⟨first, rest, rfl, -, hrest⟩ := hblocks b hb
    have hinside : ∀ line ∈ rest, (Category.ofTitle? line).isNone = true := fun line hline => by
      rw [hrest line hline]
      rfl
    refine (List.pairwise_cons.mpr ⟨fun line hline => hinside line hline, ?_⟩).isChain
    exact List.pairwise_of_forall_mem_list fun _ _ line hline => hinside line hline
  · refine (List.pairwise_of_forall_mem_list fun b hb b' hb' => ?_).isChain
    obtain ⟨first, rest, rfl, -, -⟩ := hblocks b hb
    obtain ⟨first', rest', rfl, htitle, -⟩ := hblocks b' hb'
    refine ⟨List.cons_ne_nil _ _, List.cons_ne_nil _ _, ?_⟩
    simpa using htitle

/-- From the lines of a record one reads its category and whether it shows a video. -/
theorem readBlock?_lines (r : Record) :
    readBlock? r.lines = some (r.category, r.shownVideo?.isSome) := by
  rw [r.lines_eq, Record.fields, List.map_cons, readBlock?, ofTitle?_title, Option.map_some,
    Field.any_beginsWith, r.any_videoTitle]

/-- The lines of some records are blocks. -/
theorem forall_isBlock_lines (records : List Record) :
    ∀ b ∈ records.map Record.lines, IsBlock b := by
  intro b hb
  obtain ⟨r, -, rfl⟩ := List.mem_map.mp hb
  exact isBlock_lines r

/-- Cut at the titles, the lines of some records are those of each. -/
theorem cutBlocks_lines (records : List Record) :
    cutBlocks (records.flatMap Record.lines) = records.map Record.lines := by
  rw [List.flatMap_def]
  exact cutBlocks_flatten (forall_isBlock_lines records)

/-- The lines after the header can be taken for blocks in one way only. -/
theorem eq_map_lines_iff {records : List Record} {blocks : List (List String)} :
    (blocks.flatten = records.flatMap Record.lines ∧ ∀ b ∈ blocks, IsBlock b) ↔
      blocks = records.map Record.lines := by
  constructor
  · rintro ⟨hflatten, hblocks⟩
    rw [← cutBlocks_flatten hblocks, hflatten, cutBlocks_lines]
  · rintro rfl
    exact ⟨List.flatMap_def.symm, forall_isBlock_lines records⟩

/-- The header begins with its start. -/
theorem beginsWith_header (time : Moment) :
    Text.beginsWith Label.header.start (Field.line ⟨.header, time.text⟩) = true := by
  rw [Field.beginsWith_line]
  exact decide_eq_true rfl

/-- From the lines of a poll one reads the categories of its records, and which show a video. -/
theorem readPoll?_pollLines (time : Moment) (records : List Record) :
    readPoll? (pollLines time records) =
      some (records.map fun r => (r.category, r.shownVideo?.isSome)) := by
  have hread : readBlock? ∘ Record.lines = fun r => some (r.category, r.shownVideo?.isSome) :=
    funext readBlock?_lines
  rw [pollLines_eq, readPoll?, if_pos (beginsWith_header time), cutBlocks_lines,
    List.mapM_map, hread]
  exact List.mapM_pure

/-! ## Lines by their labels -/

namespace Record

/-- The lines of a record that begin with the start of a label are those of its fields with the
label. -/
theorem filter_lines (r : Record) (l : Label) : r.lines.filter (Text.beginsWith l.start) =
    (r.fields.filter (·.label = l)).map Field.line := by
  rw [r.lines_eq, Field.filter_beginsWith]

/-- Every record of a category has the lines of it once, and no other record has them. -/
theorem filter_lines_values {c : Category} {entry : Label × (Record → String)}
    (hentry : entry ∈ c.values) (r : Record) : r.lines.filter (Text.beginsWith entry.1.start) =
      if r.category = c then [entry.1.text ++ entry.2 r] else [] := by
  rw [filter_lines, filter_values hentry]
  split <;> rfl

/-- Every video that is shown has its lines once, and nothing else has them. -/
theorem filter_lines_video {entry : Label × (Video → String)} (hentry : entry ∈ videoValues)
    (r : Record) : r.lines.filter (Text.beginsWith entry.1.start) =
      r.shownVideo?.toList.map fun v => entry.1.text ++ entry.2 v := by
  rw [filter_lines, filter_video hentry, List.map_map]
  rfl

/-- None of the lines of a record begins like a header. -/
theorem filter_lines_header (r : Record) :
    r.lines.filter (Text.beginsWith Label.header.start) = [] := by
  rw [filter_lines, List.map_eq_nil_iff, List.filter_eq_nil_iff]
  intro f hf
  simpa using label_ne_header hf

end Record

/-- A poll has one line that begins like a header. -/
theorem filter_pollLines_header (time : Moment) (records : List Record) :
    (pollLines time records).filter (Text.beginsWith Label.header.start) =
      [Field.line ⟨.header, time.text⟩] := by
  rw [pollLines_eq, List.filter_cons_of_pos (beginsWith_header time), List.filter_flatMap]
  simp [Record.filter_lines_header]

/-- The lines of a poll with another start are those of its records. -/
theorem filter_pollLines {l : Label} (hl : l ≠ .header) (time : Moment) (records : List Record) :
    (pollLines time records).filter (Text.beginsWith l.start) =
      records.flatMap fun r => r.lines.filter (Text.beginsWith l.start) := by
  rw [pollLines_eq, List.filter_cons_of_neg, List.filter_flatMap]
  simpa [Field.beginsWith_line] using hl.symm

/-- A poll has a line with a label of a category for each of its records of that category. -/
theorem filter_pollLines_values {c : Category} {entry : Label × (Record → String)}
    (hentry : entry ∈ c.values) (time : Moment) (records : List Record) :
    (pollLines time records).filter (Text.beginsWith entry.1.start) =
      (records.filter (·.category = c)).map fun r => entry.1.text ++ entry.2 r := by
  have hl : entry.1 ≠ .header := fun h => by
    have hpart := part_values entry hentry
    simp [h, Label.part] at hpart
  rw [filter_pollLines hl]
  simp only [Record.filter_lines_values hentry]
  induction records with
  | nil => rfl
  | cons r rest ih => by_cases hcategory : r.category = c <;> simp [hcategory, ih]

/-- A poll has a line with a label of the video for each video that it shows. -/
theorem filter_pollLines_video {entry : Label × (Video → String)} (hentry : entry ∈ videoValues)
    (time : Moment) (records : List Record) :
    (pollLines time records).filter (Text.beginsWith entry.1.start) =
      (records.filterMap Record.shownVideo?).map fun v => entry.1.text ++ entry.2 v := by
  have hl : entry.1 ≠ .header := fun h => by
    have hpart := part_videoValues entry hentry
    simp [h, Label.part] at hpart
  rw [filter_pollLines hl, List.filterMap_eq_flatMap_toList, List.map_flatMap]
  simp only [Record.filter_lines_video hentry]

/-! ## The text as a whole -/

/-- Scripts can read the text of a poll. It has one header, at its beginning, and none of its lines
is broken. The lines after the header can be taken for blocks in one way only, one for each record
in order, and the blocks tell the category of each record and whether it shows a video. Every record
has the lines of its category once, and those of a video once if it shows one; no other record has
lines that begin like them. -/
theorem pollLines_readable (time : Moment) (records : List Record) :
    let lines := pollLines time records
    let header := "PeerConnection Stats Report received, timestamp: " ++ time.text
    (lines.head? = some header ∧ lines.filter (Text.beginsWith Label.header.start) = [header]) ∧
    (∀ line ∈ lines, Unbroken line) ∧
    (∀ blocks : List (List String),
      (blocks.flatten = lines.tail ∧ ∀ b ∈ blocks, IsBlock b) ↔ blocks = records.map Record.lines) ∧
    readPoll? lines = some (records.map fun r => (r.category, r.shownVideo?.isSome)) ∧
    (∀ (c : Category), ∀ entry ∈ c.values,
      (∀ r : Record, r.lines.filter (Text.beginsWith entry.1.start) =
        if r.category = c then [entry.1.text ++ entry.2 r] else []) ∧
      lines.filter (Text.beginsWith entry.1.start) =
        (records.filter (·.category = c)).map fun r => entry.1.text ++ entry.2 r) ∧
    (∀ entry ∈ videoValues,
      (∀ r : Record, r.lines.filter (Text.beginsWith entry.1.start) =
        r.shownVideo?.toList.map fun v => entry.1.text ++ entry.2 v) ∧
      lines.filter (Text.beginsWith entry.1.start) =
        (records.filterMap Record.shownVideo?).map fun v => entry.1.text ++ entry.2 v) := by
  intro lines header
  have hheader : Field.line ⟨.header, time.text⟩ = header := by
    simp [header, Field.line, Label.text, Label.start, Label.gap]
  refine ⟨⟨rfl, ?_⟩, ?_, ?_, ?_, ?_, ?_⟩
  · rw [← hheader]
    exact filter_pollLines_header time records
  · exact fun line hline => unbroken_of_mem_pollLines hline
  · exact fun blocks => eq_map_lines_iff
  · exact readPoll?_pollLines time records
  · exact fun c entry hentry => ⟨Record.filter_lines_values hentry,
      filter_pollLines_values hentry time records⟩
  · exact fun entry hentry => ⟨Record.filter_lines_video hentry,
      filter_pollLines_video hentry time records⟩

end PeerCall.Metrics
