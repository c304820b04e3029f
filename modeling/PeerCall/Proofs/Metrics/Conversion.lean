import Mathlib.Data.List.Induction
import Mathlib.Data.List.Nodup
import Mathlib.Data.List.TakeWhile
import PeerCall.Metrics.Conversion
import PeerCall.Proofs.Lists

/-!
# Conversion and the spelling of keys

A report does not depend on how the keys of its record are spelled: what counts of a key is its
spelling without underscores. That spelling is the name of an attribute, and it decides whether a
number is a time.
-/

namespace PeerCall

open Json

/-! ## Names -/

namespace Text

/-- A number that stands for a character, but for zero, is its code. -/
theorem eq_toNat_of_ofNat_eq {n : Nat} {c : Char} (h : Char.ofNat n = c) (hc : 0 < c.toNat) :
    n = c.toNat := by
  by_cases hvalid : n.isValidChar
  · rw [← h, Char.ofNat, dif_pos hvalid]
    rfl
  · rw [← h, Char.ofNat, dif_neg hvalid] at hc
    exact absurd hc (by decide)

/-- The underscore is no letter's capital. -/
theorem capitalNumber_ne_underscore {n : Nat} (hn : n ≠ '_'.toNat) :
    capitalNumber n ≠ '_'.toNat := by
  have hruns : ∀ run ∈ capitalRuns, run.covers ('_'.toNat - run.shift).toNat = false := by
    decide +kernel
  unfold capitalNumber
  split
  · next run hrun =>
    intro h
    have hcovers : run.covers n = true := by simpa using List.find?_some hrun
    have hn : n = ('_'.toNat - run.shift).toNat := by
      simp only [Char.reduceToNat] at h ⊢
      omega
    rw [hn, hruns run (List.mem_of_find?_eq_some hrun)] at hcovers
    cases hcovers
  · exact hn

/-- The capital of a letter has no underscore. -/
theorem underscore_notMem_uppercase {c : Char} (hc : c ≠ '_') : '_' ∉ uppercase c := by
  have hlong : ∀ entry ∈ longCapitals, '_' ∉ entry.2.map Char.ofNat := by decide +kernel
  unfold uppercase
  split
  · next numbers hnumbers =>
    obtain ⟨before, after, hentries, -⟩ := List.lookup_eq_some_iff.mp hnumbers
    exact hlong (c.toNat, numbers) (by rw [hentries]; simp)
  · intro hmem
    have hcapital : Char.ofNat (capitalNumber c.toNat) = '_' := (List.mem_singleton.mp hmem).symm
    refine capitalNumber_ne_underscore (fun h => hc ?_) (eq_toNat_of_ofNat_eq hcapital (by decide))
    rw [← Char.ofNat_toNat c, h]
    rfl

end Text

namespace Metrics

/-- No part of a name has an underscore. -/
theorem underscore_notMem_camelFrom (capital : Bool) (cs : List Char) :
    '_' ∉ camelFrom capital cs := by
  induction cs generalizing capital with
  | nil => exact List.not_mem_nil
  | cons c rest ih =>
    rw [camelFrom]
    split
    · exact ih true
    · next hc =>
      split
      · rw [List.mem_append]
        exact not_or.mpr ⟨Text.underscore_notMem_uppercase hc, ih false⟩
      · rw [List.mem_cons]
        exact not_or.mpr ⟨Ne.symm hc, ih false⟩

/-- Characters without an underscore stay as they are. -/
theorem camelFrom_of_notMem {cs : List Char} (h : '_' ∉ cs) : camelFrom false cs = cs := by
  induction cs with
  | nil => rfl
  | cons c rest ih =>
    rw [List.mem_cons, not_or] at h
    rw [camelFrom, if_neg (Ne.symm h.1), if_neg (by decide), ih h.2]

/-- A name has no underscore. -/
theorem underscore_notMem_camelCase (key : String) : '_' ∉ (camelCase key).toList := by
  rw [camelCase, String.toList_ofList]
  exact underscore_notMem_camelFrom false key.toList

/-- A name stays as it is. -/
theorem camelCase_camelCase (key : String) : camelCase (camelCase key) = camelCase key := by
  rw [camelCase, camelFrom_of_notMem (underscore_notMem_camelCase key), String.ofList_toList]

end Metrics

/-! ## Records as maps -/

namespace Json.Tree

/-- Values that differ in their spelling only: in that of numbers, and in the order of the members
of records and in those that are covered by later ones. -/
inductive Alike : Tree → Tree → Prop
  | null : Alike .null .null
  | bool (b : Bool) : Alike (.bool b) (.bool b)
  | number {m n : Numeral} : m.number = n.number → Alike (.number m) (.number n)
  | text (s : String) : Alike (.text s) (.text s)
  | list {items others : List Tree} : List.Forall₂ Alike items others →
    Alike (.list items) (.list others)
  | record {members others : List (String × Tree)} :
    (∀ key, Option.Rel Alike ((record members).get? key) ((record others).get? key)) →
      Alike (.record members) (.record others)

/-- What is found under a key is the value of a member. -/
theorem mem_of_get? {members : List (String × Tree)} {key : String} {t : Tree}
    (h : (record members).get? key = some t) : (key, t) ∈ members := by
  obtain ⟨before, after, hsplit, -⟩ := List.lookup_eq_some_iff.mp h
  rw [← List.mem_reverse, hsplit]
  simp

/-- A value differs from itself in nothing. -/
theorem Alike.refl (t : Tree) : Alike t t := by
  cases t with
  | null => exact .null
  | bool b => exact .bool b
  | number n => exact .number rfl
  | text s => exact .text s
  | list items => exact .list (List.forall₂_same.mpr fun item _ => Alike.refl item)
  | record members =>
    refine .record fun key => ?_
    cases hvalue : (Tree.record members).get? key with
    | none => exact .none
    | some value => exact .some (Alike.refl value)
termination_by sizeOf t
decreasing_by
  · decreasing_tactic
  · have hmem := List.sizeOf_lt_of_mem (mem_of_get? ‹_›)
    simp only [Prod.mk.sizeOf_spec, Tree.record.sizeOf_spec] at hmem ⊢
    omega

/-- The last of several members with a key counts. -/
theorem get?_concat (members : List (String × Tree)) (m : String × Tree) (key : String) :
    (record (members ++ [m])).get? key =
      if key = m.1 then some m.2 else (record members).get? key := by
  obtain ⟨other, value⟩ := m
  by_cases hkey : key = other
  · simp [get?, hkey]
  · simp [get?, List.lookup_cons, beq_eq_false_iff_ne.mpr hkey, hkey]

end Json.Tree

namespace Metrics

/-- One more member takes the place of those with its key. -/
theorem sortedMembers_concat (members : List (String × Tree)) (m : String × Tree) :
    (sortedMembers (members ++ [m])).Perm (m :: (sortedMembers members).filter (·.1 ≠ m.1)) := by
  have hsorted : sortedMembers (members ++ [m]) =
      (sortedMembers members).takeWhile (·.1 < m.1) ++
        m :: ((sortedMembers members).dropWhile (·.1 < m.1)).filter (·.1 ≠ m.1) := by
    simp only [sortedMembers, List.foldl_append, List.foldl_cons, List.foldl_nil]
  generalize sortedMembers members = sorted at hsorted ⊢
  have hsmaller : (sorted.takeWhile (·.1 < m.1)).filter (·.1 ≠ m.1) =
      sorted.takeWhile (·.1 < m.1) := by
    refine List.filter_eq_self.mpr fun other hother => ?_
    have hlt : other.1 < m.1 := by simpa using List.mem_takeWhile_imp hother
    have hne : other.1 ≠ m.1 := fun heq => String.lt_irrefl m.1 (heq ▸ hlt)
    simpa using hne
  rw [hsorted]
  refine List.perm_middle.trans (List.Perm.cons m ?_)
  rw [← hsmaller, ← List.filter_append, List.takeWhile_append_dropWhile]

/-- The members of a record as a map: each key once, with its last value. -/
theorem mem_sortedMembers_iff (members : List (String × Tree)) :
    ((sortedMembers members).map (·.1)).Nodup ∧
      ∀ m, m ∈ sortedMembers members ↔ (Tree.record members).get? m.1 = some m.2 := by
  induction members using List.reverseRecOn with
  | nil => simp [sortedMembers, Tree.get?]
  | append_singleton members m ih =>
    obtain ⟨hnodup, hmem⟩ := ih
    have hperm := sortedMembers_concat members m
    constructor
    · rw [(hperm.map _).nodup_iff, List.map_cons, List.nodup_cons]
      refine ⟨by simp, hnodup.sublist (List.filter_sublist.map _)⟩
    · intro other
      obtain ⟨key, value⟩ := other
      rw [hperm.mem_iff, Tree.get?_concat, List.mem_cons, List.mem_filter, hmem]
      by_cases hkey : key = m.1
      · simp [hkey, Prod.ext_iff, eq_comm]
      · simp [hkey, Prod.ext_iff]

/-! ## Attributes -/

/-- An inserted value stands under its name, and the others stay. -/
theorem lookup_insert (attributes : Attributes) (name other : String) (value : Option Value) :
    (attributes.insert other value).lookup name =
      if name = other then some value else attributes.lookup name := by
  rw [Attributes.insert, List.lookup_append, lookup_filter_key (· ≠ other)]
  by_cases hname : name = other
  · simp [hname]
  · simp [hname, List.lookup_cons, beq_eq_false_iff_ne.mpr hname]

/-- After several insertions a name has the value that came last. -/
theorem lookup_foldl_insert (given attributes : Attributes) (name : String) :
    (given.foldl (fun found a => Attributes.insert a.1 a.2 found) attributes).lookup name =
      (given.reverse.lookup name).or (attributes.lookup name) := by
  induction given generalizing attributes with
  | nil => rfl
  | cons a given ih =>
    obtain ⟨other, value⟩ := a
    rw [List.foldl_cons, ih, List.reverse_cons, List.lookup_append, lookup_insert, Option.or_assoc]
    by_cases hname : name = other
    · simp [hname]
    · simp [hname, List.lookup_cons, beq_eq_false_iff_ne.mpr hname]

/-- What a member gives under its name. -/
def given (m : String × Tree) : Option (String × Option Value) :=
  if reserved.contains m.1 then none
  else (attribute? (camelCase m.1) m.2).map (camelCase m.1, ·)

/-- A member adds what it gives. -/
theorem addMember_eq (attributes : Attributes) (m : String × Tree) :
    addMember attributes m =
      match given m with
      | some a => Attributes.insert a.1 a.2 attributes
      | none => attributes := by
  unfold addMember given
  split
  · rfl
  · dsimp only
    cases attribute? (camelCase m.1) m.2 <;> rfl

/-- The attributes of a report are what the members give, one after another. -/
theorem foldl_addMember (members : List (String × Tree)) (attributes : Attributes) :
    members.foldl addMember attributes =
      (members.filterMap given).foldl (fun found a => Attributes.insert a.1 a.2 found)
        attributes := by
  induction members generalizing attributes with
  | nil => rfl
  | cons m members ih =>
    rw [List.foldl_cons, ih, List.filterMap_cons, addMember_eq]
    cases given m <;> rfl

/-- What a value says under a name: null that the name is there, a number a time in seconds if the
name is that of a time, and a record the seconds and nanoseconds of a clock. -/
inductive Conveys (name : String) : Tree → Option Value → Prop
  | null : Conveys name .null none
  | flag (b : Bool) : Conveys name (.bool b) (some (.flag b))
  | text (s : String) : Conveys name (.text s) (some (.text s))
  | time {n : Numeral} : name = "timestamp" ∨ "Timestamp".toList <:+ name.toList →
    Conveys name (.number n) (some (.float (n.number.toFloat * 1000.0)))
  | number {n : Numeral} : ¬(name = "timestamp" ∨ "Timestamp".toList <:+ name.toList) →
    Conveys name (.number n) (some (.ofNumber n.number))
  | clock {members : List (String × Tree)} {seconds nanos : Numeral} :
    (Tree.record members).get? "secs_since_epoch" = some (.number seconds) →
    (Tree.record members).get? "nanos_since_epoch" = some (.number nanos) →
      Conveys name (.record members)
        (some (.float (seconds.number.toFloat * 1000.0 + nanos.number.toFloat / 1e6)))

/-- The names of times are "timestamp" and those that end in "Timestamp". -/
theorem isTimeName_iff {name : String} :
    isTimeName name = true ↔ name = "timestamp" ∨ "Timestamp".toList <:+ name.toList := by
  simp [isTimeName, Text.endsWith_iff]

/-- A clock is a record of seconds and nanoseconds. -/
theorem clockMs?_eq_some_iff {t : Tree} {ms : Float} :
    clockMs? t = some ms ↔ ∃ seconds nanos, t.get? "secs_since_epoch" = some (.number seconds) ∧
      t.get? "nanos_since_epoch" = some (.number nanos) ∧
        seconds.number.toFloat * 1000.0 + nanos.number.toFloat / 1e6 = ms := by
  unfold clockMs?
  constructor
  · intro h
    split at h
    · next seconds nanos hseconds hnanos =>
      exact ⟨seconds, nanos, hseconds, hnanos, Option.some.inj h⟩
    · cases h
  · rintro ⟨seconds, nanos, hseconds, hnanos, rfl⟩
    rw [hseconds, hnanos]

/-- An attribute is what the value of the member says. -/
theorem attribute?_eq_some_iff {name : String} {t : Tree} {value : Option Value} :
    attribute? name t = some value ↔ Conveys name t value := by
  constructor
  · intro h
    cases t with
    | null => cases h; exact .null
    | bool b => cases h; exact .flag b
    | text s => cases h; exact .text s
    | number n =>
      rw [attribute?] at h
      split at h
      · next htime => cases h; exact .time (isTimeName_iff.mp htime)
      · next htime => cases h; exact .number fun hname => htime (isTimeName_iff.mpr hname)
    | record members =>
      obtain ⟨ms, hms, rfl⟩ := Option.map_eq_some_iff.mp h
      obtain ⟨seconds, nanos, hseconds, hnanos, rfl⟩ := clockMs?_eq_some_iff.mp hms
      exact .clock hseconds hnanos
    | list items => cases h
  · rintro (_ | _ | _ | htime | htime | ⟨hseconds, hnanos⟩)
    · rfl
    · rfl
    · rfl
    · exact if_pos (isTimeName_iff.mpr htime)
    · exact if_neg fun hname => htime (isTimeName_iff.mp hname)
    · exact Option.map_eq_some_iff.mpr
        ⟨_, clockMs?_eq_some_iff.mpr ⟨_, _, hseconds, hnanos, rfl⟩, rfl⟩

/-- A record has a number under a key. -/
def HasNumber (members : List (String × Tree)) (key : String) (value : Number) : Prop :=
  ∃ n : Numeral, (Tree.record members).get? key = some (.number n) ∧ n.number = value

/-- Values that differ in their spelling only are the same number. -/
theorem number_iff_of_rel {x y : Option Tree} (h : Option.Rel Tree.Alike x y) {value : Number} :
    (∃ n : Numeral, x = some (.number n) ∧ n.number = value) ↔
      ∃ n : Numeral, y = some (.number n) ∧ n.number = value := by
  cases h with
  | none => simp
  | some halike => cases halike <;> simp_all

/-- Records with the same numbers convey the same. -/
theorem Conveys.of_hasNumber {name : String} {members others : List (String × Tree)}
    {value : Option Value}
    (h : ∀ key number, HasNumber members key number → HasNumber others key number) :
    Conveys name (.record members) value → Conveys name (.record others) value
  | .clock hseconds hnanos => by
    obtain ⟨seconds, hotherSeconds, hsame⟩ := h _ _ ⟨_, hseconds, rfl⟩
    obtain ⟨nanos, hotherNanos, hsameNanos⟩ := h _ _ ⟨_, hnanos, rfl⟩
    rw [← hsame, ← hsameNanos]
    exact .clock hotherSeconds hotherNanos

/-- Numbers of the same value convey the same. -/
theorem Conveys.of_number_eq {name : String} {m n : Numeral} {value : Option Value}
    (h : m.number = n.number) : Conveys name (.number m) value → Conveys name (.number n) value
  | .time htime => by
    rw [h]
    exact .time htime
  | .number htime => by
    rw [h]
    exact .number htime

/-- Values that differ in their spelling only convey the same. -/
theorem conveys_iff_of_alike {name : String} {t other : Tree} {value : Option Value}
    (h : t.Alike other) : Conveys name t value ↔ Conveys name other value := by
  cases h with
  | null | bool _ | text _ => exact Iff.rfl
  | number hnumber => exact ⟨.of_number_eq hnumber, .of_number_eq hnumber.symm⟩
  | list => exact ⟨nofun, nofun⟩
  | record hkeys =>
    exact ⟨.of_hasNumber fun key _ => (number_iff_of_rel (hkeys key)).mp,
      .of_hasNumber fun key _ => (number_iff_of_rel (hkeys key)).mpr⟩

/-! ## Reports -/

/-- The members of a record that may give attributes, each key once, in any order. -/
structure Others (members entries : List (String × Tree)) : Prop where
  nodup : (entries.map (·.1)).Nodup
  mem_iff : ∀ m, m ∈ entries ↔
    m.1 ∉ reserved ∧ (Tree.record members).get? m.1 = some m.2

/-- The names of members. -/
def names (entries : List (String × Tree)) : List String := entries.map (camelCase ·.1)

/-- Two reports that say the same. -/
structure Report.Same (r other : Report) : Prop where
  id : r.id = other.id
  type : r.type = other.type
  attributes : ∀ name, r.attributes.lookup name = other.attributes.lookup name

/-- Every record has such members. -/
theorem others_sortedMembers (members : List (String × Tree)) :
    Others members ((sortedMembers members).filter (·.1 ∉ reserved)) := by
  obtain ⟨hnodup, hmem⟩ := mem_sortedMembers_iff members
  refine ⟨hnodup.sublist (List.filter_sublist.map _), fun m => ?_⟩
  rw [List.mem_filter, hmem, decide_eq_true_iff, and_comm]

/-- If each key stands once, they are the members that are not reserved. -/
theorem others_filter {members : List (String × Tree)} (hnodup : (members.map (·.1)).Nodup) :
    Others members (members.filter (·.1 ∉ reserved)) := by
  refine ⟨hnodup.sublist (List.filter_sublist.map _), fun m => ?_⟩
  have hreverse : (members.reverse.map (·.1)).Nodup := by
    rwa [List.map_reverse, (List.reverse_perm _).nodup_iff]
  rw [List.mem_filter, decide_eq_true_iff, and_comm, Tree.get?, lookup_eq_some_iff_mem hreverse,
    List.mem_reverse]

/-- Such members are those of the sorted record that are not reserved, in some order. -/
theorem Others.perm {members entries : List (String × Tree)} (h : Others members entries) :
    entries.Perm ((sortedMembers members).filter (·.1 ∉ reserved)) := by
  have hsorted := others_sortedMembers members
  refine (List.perm_ext_iff_of_nodup (List.Nodup.of_map _ h.nodup)
    (List.Nodup.of_map _ hsorted.nodup)).mpr fun m => ?_
  rw [h.mem_iff, hsorted.mem_iff]

/-- A member that is not reserved gives what it conveys under its name. -/
theorem given_eq_some_iff {m : String × Tree} {name : String} {value : Option Value} :
    given m = some (name, value) ↔
      m.1 ∉ reserved ∧ camelCase m.1 = name ∧ Conveys name m.2 value := by
  by_cases hreserved : m.1 ∈ reserved
  · simp [given, hreserved]
  · simp only [given, List.contains_eq_mem, hreserved, decide_false, Bool.false_eq_true, if_false,
      Option.map_eq_some_iff, Prod.mk.injEq, not_false_eq_true, true_and]
    constructor
    · rintro ⟨_, hvalue, rfl, rfl⟩
      exact ⟨rfl, attribute?_eq_some_iff.mp hvalue⟩
    · rintro ⟨rfl, hconveys⟩
      exact ⟨value, attribute?_eq_some_iff.mpr hconveys, rfl, rfl⟩

/-- What the members of a record give. -/
theorem mem_filterMap_given_iff {members entries : List (String × Tree)}
    (h : Others members entries) {name : String} {value : Option Value} :
    (name, value) ∈ (sortedMembers members).filterMap given ↔
      ∃ m ∈ entries, camelCase m.1 = name ∧ Conveys name m.2 value := by
  simp only [List.mem_filterMap, given_eq_some_iff, (mem_sortedMembers_iff members).2, h.mem_iff]
  constructor
  · rintro ⟨m, hget, hreserved, hgiven⟩
    exact ⟨m, ⟨hreserved, hget⟩, hgiven⟩
  · rintro ⟨m, ⟨hreserved, hget⟩, hgiven⟩
    exact ⟨m, hget, hreserved, hgiven⟩

/-- The names of what is given are among those of the members. -/
theorem sublist_names (members : List (String × Tree)) :
    ((members.filterMap given).map (·.1)).Sublist
      (names (members.filter (·.1 ∉ reserved))) := by
  induction members with
  | nil => exact .slnil
  | cons m members ih =>
    cases hgiven : given m with
    | none =>
      rw [List.filterMap_cons_none hgiven]
      exact ih.trans (((List.sublist_cons_self m members).filter _).map _)
    | some a =>
      obtain ⟨hreserved, hname, -⟩ := given_eq_some_iff.mp hgiven
      rw [List.filterMap_cons_some hgiven, List.filter_cons_of_pos (by simpa using hreserved),
        names, List.map_cons, List.map_cons, hname]
      exact ih.cons_cons a.1

/-- If no two members have the same name, none is given twice. -/
theorem nodup_filterMap_given {members entries : List (String × Tree)}
    (h : Others members entries) (hnames : (names entries).Nodup) :
    (((sortedMembers members).filterMap given).map (·.1)).Nodup :=
  ((h.perm.map _).nodup_iff.mp hnames).sublist (sublist_names _)

/-- The report of a record. -/
theorem ofTree?_eq_some_iff {id : String} {members : List (String × Tree)} {r : Report} :
    Report.ofTree? id (.record members) = some r ↔
      ∃ type, typeOf? (.record members) = some type ∧
        r = ⟨id, type, (sortedMembers members).foldl addMember []⟩ := by
  rw [Report.ofTree?, Option.map_eq_some_iff]
  simp only [eq_comm]

section Report

variable {id : String} {members entries : List (String × Tree)} {r : Report}

/-- What is under a name of a report is the last that was given under it. -/
theorem lookup_ofTree? (h : Report.ofTree? id (.record members) = some r) (name : String) :
    r.attributes.lookup name = ((sortedMembers members).filterMap given).reverse.lookup name := by
  obtain ⟨type, -, rfl⟩ := ofTree?_eq_some_iff.mp h
  rw [foldl_addMember, lookup_foldl_insert, List.lookup_nil, Option.or_none]

/-- The names in a report are those of the members that convey something. -/
theorem isSome_lookup_iff (h : Report.ofTree? id (.record members) = some r)
    (hothers : Others members entries) {name : String} :
    (r.attributes.lookup name).isSome = true ↔
      ∃ m ∈ entries, camelCase m.1 = name ∧ ∃ value, Conveys name m.2 value := by
  rw [lookup_ofTree? h, List.lookup_isSome_iff]
  constructor
  · rintro ⟨⟨other, value⟩, hmem, hname⟩
    obtain rfl : name = other := by simpa using hname
    obtain ⟨m, hm, hkey, hconveys⟩ :=
      (mem_filterMap_given_iff hothers).mp (List.mem_reverse.mp hmem)
    exact ⟨m, hm, hkey, value, hconveys⟩
  · rintro ⟨m, hm, hkey, value, hconveys⟩
    refine ⟨(name, value), List.mem_reverse.mpr ?_, by simp⟩
    exact (mem_filterMap_given_iff hothers).mpr ⟨m, hm, hkey, hconveys⟩

/-- If no two members have the same name, what is under a name is what the member conveys. -/
theorem lookup_eq_some_iff_conveys (h : Report.ofTree? id (.record members) = some r)
    (hothers : Others members entries) (hnames : (names entries).Nodup) {name : String}
    {value : Option Value} :
    r.attributes.lookup name = some value ↔
      ∃ m ∈ entries, camelCase m.1 = name ∧ Conveys name m.2 value := by
  rw [lookup_ofTree? h, lookup_eq_some_iff_mem, List.mem_reverse, mem_filterMap_given_iff hothers]
  rw [List.map_reverse, (List.reverse_perm _).nodup_iff]
  exact nodup_filterMap_given hothers hnames

end Report

/-- The first of two values that differ in their spelling only do so, too. -/
theorem rel_or {x y first second : Option Tree} (h : Option.Rel Tree.Alike x y)
    (hrest : Option.Rel Tree.Alike first second) :
    Option.Rel Tree.Alike (x.or first) (y.or second) := by
  cases h with
  | none => exact hrest
  | some halike => exact .some halike

/-- Records that agree about what says the type have the same. -/
theorem typeOf?_eq_of_rel {members others : List (String × Tree)}
    (hagree : ∀ key ∈ reserved,
      Option.Rel Tree.Alike ((Tree.record members).get? key) ((Tree.record others).get? key)) :
    typeOf? (.record members) = typeOf? (.record others) := by
  have hrel := rel_or (hagree "type" (by decide)) (hagree "stats_type" (by decide))
  unfold typeOf?
  generalize ((Tree.record members).get? "type").or _ = x at hrel ⊢
  generalize ((Tree.record others).get? "type").or _ = y at hrel ⊢
  cases hrel with
  | none => rfl
  | some halike => cases halike <;> rfl

/-- Members with the same names and values convey the same. -/
theorem exists_conveys_iff {entries others : List (String × Tree)}
    (h : List.Forall₂ (fun m other => camelCase m.1 = camelCase other.1 ∧ m.2.Alike other.2)
      entries others) {name : String} {value : Option Value} :
    (∃ m ∈ entries, camelCase m.1 = name ∧ Conveys name m.2 value) ↔
      ∃ m ∈ others, camelCase m.1 = name ∧ Conveys name m.2 value := by
  induction h with
  | nil => simp
  | cons hfirst _ ih =>
    obtain ⟨hname, halike⟩ := hfirst
    simp only [List.exists_mem_cons_iff, hname, conveys_iff_of_alike halike, ih]

/-- The names of members with the same names are the same. -/
theorem names_eq {entries others : List (String × Tree)}
    (h : List.Forall₂ (fun m other => camelCase m.1 = camelCase other.1 ∧ m.2.Alike other.2)
      entries others) : names entries = names others := by
  induction h with
  | nil => rfl
  | cons hfirst _ ih => exact congrArg₂ List.cons hfirst.1 ih

/-- Records whose members have the same names and values give the same report. -/
theorem same_ofTree? (id : String) {members others entries otherEntries : List (String × Tree)}
    (hentries : Others members entries) (hothers : Others others otherEntries)
    (hsame : List.Forall₂ (fun m other => camelCase m.1 = camelCase other.1 ∧ m.2.Alike other.2)
      entries otherEntries) (hnames : (names entries).Nodup)
    (hagree : ∀ key ∈ reserved,
      Option.Rel Tree.Alike ((Tree.record members).get? key) ((Tree.record others).get? key)) :
    Option.Rel Report.Same (Report.ofTree? id (.record members))
      (Report.ofTree? id (.record others)) := by
  have htypes := typeOf?_eq_of_rel hagree
  cases htype : typeOf? (.record members) with
  | none =>
    rw [Report.ofTree?, Report.ofTree?, ← htypes, htype]
    exact .none
  | some type =>
    have hr : Report.ofTree? id (.record members) = some _ :=
      ofTree?_eq_some_iff.mpr ⟨type, htype, rfl⟩
    have hother : Report.ofTree? id (.record others) = some _ :=
      ofTree?_eq_some_iff.mpr ⟨type, htypes ▸ htype, rfl⟩
    rw [hr, hother]
    refine .some ⟨rfl, rfl, fun name => Option.ext fun value => ?_⟩
    rw [lookup_eq_some_iff_conveys hr hentries hnames,
      lookup_eq_some_iff_conveys hother hothers (names_eq hsame ▸ hnames), exists_conveys_iff hsame]

/-- Conversion goes by the names of members and by their values. Two records whose members have the
same names and values give the same report, whatever keys the names come from. What stands in a
report are the names of the members that convey something, without underscores, and under each
name what its member conveys; and the name of a name is that name. -/
theorem conversion_spelling (id : String) :
    (∀ members others entries otherEntries : List (String × Tree),
      Others members entries → Others others otherEntries →
      List.Forall₂ (fun m other => camelCase m.1 = camelCase other.1 ∧ m.2.Alike other.2)
        entries otherEntries →
      (names entries).Nodup →
      (∀ key ∈ reserved,
        Option.Rel Tree.Alike ((Tree.record members).get? key) ((Tree.record others).get? key)) →
        Option.Rel Report.Same (Report.ofTree? id (.record members))
          (Report.ofTree? id (.record others))) ∧
    (∀ (members entries : List (String × Tree)) (r : Report), Others members entries →
      Report.ofTree? id (.record members) = some r →
        (∀ name, (r.attributes.lookup name).isSome = true → '_' ∉ name.toList) ∧
        (∀ name, (r.attributes.lookup name).isSome = true ↔
          ∃ m ∈ entries, camelCase m.1 = name ∧ ∃ value, Conveys name m.2 value) ∧
        ((names entries).Nodup → ∀ name value, r.attributes.lookup name = some value ↔
          ∃ m ∈ entries, camelCase m.1 = name ∧ Conveys name m.2 value)) ∧
    ∀ key, camelCase (camelCase key) = camelCase key := by
  refine ⟨fun members others entries otherEntries hentries hothers hsame hnames hagree => ?_,
    fun members entries r hothers hr => ⟨fun name hname => ?_,
      fun name => isSome_lookup_iff hr hothers, fun hnames name value =>
        lookup_eq_some_iff_conveys hr hothers hnames⟩, camelCase_camelCase⟩
  · exact same_ofTree? id hentries hothers hsame hnames hagree
  · obtain ⟨m, -, rfl, -⟩ := (isSome_lookup_iff hr hothers).mp hname
    exact underscore_notMem_camelCase m.1

/-- The same report from keys in two spellings, in another order. -/
theorem conversion_respelled :
    let sent : Numeral := ⟨false, 15, -1, false⟩
    let entries : List (String × Tree) :=
      [("packet__sent_timestamp", .number sent), ("_jitter", .null)]
    let otherEntries : List (String × Tree) :=
      [("packetSentTimestamp", .number sent), ("Jitter_", .null)]
    let members := ("type", .text "InboundRTP") :: entries
    let others := otherEntries ++ [("type", .text "InboundRTP")]
    (names entries).Nodup ∧
      Option.Rel Report.Same (Report.ofTree? "r" (.record members))
        (Report.ofTree? "r" (.record others)) ∧
      ∃ r, Report.ofTree? "r" (.record others) = some r ∧
        r.attributes.lookup "Jitter" = some none ∧
        r.attributes.lookup "packetSentTimestamp" =
          some (some (.float (sent.number.toFloat * 1000.0))) := by
  intro sent entries otherEntries members others
  have hentries : Others members entries := others_filter (by decide)
  have hothers : Others others otherEntries := others_filter (by decide)
  have hsame : List.Forall₂ (fun m other => camelCase m.1 = camelCase other.1 ∧ m.2.Alike other.2)
      entries otherEntries :=
    .cons ⟨by decide, .refl _⟩ (.cons ⟨by decide, .refl _⟩ .nil)
  have hagree : ∀ key ∈ reserved, Option.Rel Tree.Alike ((Tree.record members).get? key)
      ((Tree.record others).get? key) :=
    List.forall_mem_cons.mpr ⟨.some (.refl (.text "InboundRTP")), List.forall_mem_cons.mpr
      ⟨.none, List.forall_mem_cons.mpr ⟨.none, nofun⟩⟩⟩
  obtain ⟨r, hr⟩ : ∃ r, Report.ofTree? "r" (.record others) = some r := ⟨_, rfl⟩
  have hvalues := ((conversion_spelling "r").2.1 others otherEntries r hothers hr).2.2 (by decide)
  refine ⟨by decide, (conversion_spelling "r").1 members others entries otherEntries hentries
    hothers hsame (by decide) hagree, r, hr, (hvalues _ _).mpr ?_, (hvalues _ _).mpr ?_⟩
  · exact ⟨("Jitter_", .null), by simp [otherEntries], by decide, .null⟩
  · exact ⟨("packetSentTimestamp", .number sent), by simp [otherEntries], by decide,
      .time (Or.inr (by decide))⟩

/-! ## Batches -/

/-- A report has the id that its record goes by. -/
theorem id_ofTree? {id : String} {t : Tree} {r : Report} (h : Report.ofTree? id t = some r) :
    r.id = id := by
  cases t with
  | record members =>
    obtain ⟨type, -, rfl⟩ := ofTree?_eq_some_iff.mp h
    rfl
  | _ => simp [Report.ofTree?] at h

/-- A batch has one report for each id whose entry can be written and converted, and no others. -/
theorem mem_reportsOfEntries_iff (entries : List (String × Tree)) (unwritten : List String) :
    ((reportsOfEntries entries unwritten).map (·.id)).Nodup ∧
      ∀ r, r ∈ reportsOfEntries entries unwritten ↔ r.id ∉ unwritten ∧
        ∃ entry, (Tree.record entries).get? r.id = some entry ∧
          Report.ofTree? r.id entry = some r := by
  obtain ⟨hnodup, hmem⟩ := mem_sortedMembers_iff entries
  have hconverted {m : String × Tree} {r : Report} :
      (if unwritten.contains m.1 then none else Report.ofTree? m.1 m.2) = some r ↔
        m.1 ∉ unwritten ∧ Report.ofTree? m.1 m.2 = some r := by
    by_cases hm : m.1 ∈ unwritten <;> simp [hm]
  constructor
  · refine List.pairwise_map.mpr ((List.pairwise_map.mp hnodup).filterMap _ ?_)
    intro m other hother r hr r' hr'
    rwa [id_ofTree? (hconverted.mp hr).2, id_ofTree? (hconverted.mp hr').2]
  · intro r
    rw [reportsOfEntries, List.mem_filterMap]
    constructor
    · rintro ⟨m, hm, hr⟩
      obtain ⟨hwritten, hr⟩ := hconverted.mp hr
      rw [id_ofTree? hr]
      exact ⟨hwritten, m.2, (hmem m).mp hm, hr⟩
    · rintro ⟨hwritten, entry, hget, hr⟩
      have hr : (if unwritten.contains r.id then none else Report.ofTree? r.id entry) = some r :=
        hconverted (m := (r.id, entry)).mpr ⟨hwritten, hr⟩
      exact ⟨(r.id, entry), (hmem _).mpr hget, hr⟩

end Metrics

end PeerCall
