import PeerCall.Proofs.Json.RoundTrip
import PeerCall.Settings.Read

/-!
# Writing settings and reading them

Settings are read from their own text, and from any record of some of their members, in any order:
what it leaves out has its default. The same holds for the servers in it, which may leave out a
name or a credential that they lack.
-/

namespace PeerCall

open Json

/-- The members of a record are read in order, if each leads from one state to the next. The states
are given by the fields that have been read, newest first. -/
theorem Settings.readMembers_eq {β κ : Type} {reader : FieldReader β} {state : List κ → β}
    {key : κ → String} {value : κ → Tree}
    (hstep : ∀ (done : List κ) (k : κ), k ∉ done → ∃ read,
      reader (state done) (key k) = some read ∧ read (value k).draft = .ok (state (k :: done)))
    (coming done : List κ) (hnodup : (coming.reverse ++ done).Nodup) :
    readMembers reader (state done)
        (Tree.memberDrafts (coming.map fun k => (key k, value k))) =
      .ok (state (coming.reverse ++ done)) := by
  induction coming generalizing done with
  | nil => rfl
  | cons k coming ih =>
    have hshift : (k :: coming).reverse ++ done = coming.reverse ++ k :: done := by simp
    rw [hshift] at hnodup ⊢
    have hnew : k ∉ done := by
      have hlater := (List.nodup_append.mp hnodup).2.1
      exact (List.nodup_cons.mp hlater).1
    obtain ⟨read, hread, hvalue⟩ := hstep done k hnew
    simp only [List.map_cons, Tree.memberDrafts, readMembers, hread, hvalue]
    exact ih (k :: done) hnodup

/-! ## Servers -/

namespace Server

/-- The fields of a server. -/
inductive Field
  | id
  | type
  | url
  | username
  | credential
  deriving DecidableEq

/-- The key of a field. -/
def Field.key : Field → String
  | .id => "id"
  | .type => "type"
  | .url => "url"
  | .username => "username"
  | .credential => "credential"

/-- The value that a server has in a field. -/
def value (s : Server) : Field → Tree
  | .id => .text s.id
  | .type => .text s.type
  | .url => .text s.url
  | .username => .textOrNull s.username
  | .credential => .textOrNull s.credential

/-- The record of some fields, in the order given. -/
def record (s : Server) (fields : List Field) : Tree :=
  .record (fields.map fun f => (f.key, s.value f))

/-- The records of a server: its fields in any order, of which those that are null may be left
out. -/
def Written (s : Server) (t : Tree) : Prop :=
  ∃ fields : List Field, fields.Nodup ∧ (∀ f, f ∉ fields → s.value f = .null) ∧
    t = s.record fields

/-- The usual record of a server is one of its records. -/
theorem written_toTree (s : Server) : s.Written s.toTree :=
  ⟨[.id, .type, .url, .username, .credential], by decide, fun f hf => by cases f <;> simp at hf,
    rfl⟩

end Server

namespace Settings

/-- What is known of a server when some of its fields have been read. -/
def ServerFields.among (s : Server) (done : List Server.Field) : ServerFields where
  id := if .id ∈ done then some s.id else none
  type := if .type ∈ done then some s.type else none
  url := if .url ∈ done then some s.url else none
  username := if .username ∈ done then some s.username else none
  credential := if .credential ∈ done then some s.credential else none

/-- A text that may be lacking is read back. -/
theorem readOptionalText_textOrNull (s : Option String) :
    readOptionalText (Tree.textOrNull s).draft = .ok s := by
  cases s <;> rfl

/-- One more field of a server. -/
theorem ServerFields.field_among (s : Server) (done : List Server.Field) (f : Server.Field)
    (hf : f ∉ done) : ∃ read, field (among s done) f.key = some read ∧
      read (s.value f).draft = .ok (among s (f :: done)) := by
  cases f with
  | id | type | url =>
    refine ⟨_, rfl, ?_⟩
    simp [among, once, hf, Server.value, Tree.draft, readText]
  | username | credential =>
    refine ⟨_, rfl, ?_⟩
    simp [among, once, hf, Server.value, readOptionalText_textOrNull]

/-- A field that is null may be left out. -/
theorem join_among {f : Server.Field} {fields : List Server.Field} {s : Server}
    {value : Option String} (hvalue : s.value f = .textOrNull value)
    (hlacking : f ∉ fields → s.value f = .null) :
    (if f ∈ fields then some value else none).join = value := by
  by_cases hf : f ∈ fields
  · simp [hf]
  · have hnull := hlacking hf
    rw [hvalue] at hnull
    cases value with
    | none => simp [hf]
    | some _ => cases hnull

/-- A server is read from each of its records. -/
theorem readServer_of_written {s : Server} {t : Tree} (h : s.Written t) :
    readServer t.draft = .ok s := by
  obtain ⟨fields, hnodup, hlacking, rfl⟩ := h
  have hmembers := readMembers_eq (ServerFields.field_among s) fields []
    (by rwa [List.append_nil, (List.reverse_perm fields).nodup_iff])
  rw [List.append_nil] at hmembers
  have hgiven {f : Server.Field} (hvalue : s.value f ≠ .null) : f ∈ fields := by
    by_contra hf
    exact hvalue (hlacking f hf)
  have hid : .id ∈ fields := hgiven nofun
  have htype : .type ∈ fields := hgiven nofun
  have hurl : .url ∈ fields := hgiven nofun
  have hserver : (ServerFields.among s fields.reverse).server = .ok s := by
    simp [ServerFields.server, ServerFields.among, require, hid, htype, hurl,
      join_among (f := .username) rfl (hlacking _), join_among (f := .credential) rfl (hlacking _)]
    rfl
  have hdraft : (s.record fields).draft =
      .record (Tree.memberDrafts (fields.map fun f => (f.key, s.value f))) none := rfl
  rw [hdraft, readServer]
  exact (congrArg (· >>= _) hmembers).trans hserver

/-- A list of servers is read from their records. -/
theorem readServers_of_written {servers : List Server} {trees : List Tree}
    (h : List.Forall₂ Server.Written servers trees) :
    readServers (Tree.list trees).draft = .ok servers := by
  have hitems : (Tree.itemDrafts trees).mapM readServer = .ok servers := by
    induction h with
    | nil => rfl
    | cons hserver _ ih =>
      rw [Tree.itemDrafts, List.mapM_cons, readServer_of_written hserver, ih]
      rfl
  rw [Tree.draft, readServers, hitems]
  rfl

/-! ## Settings -/

/-- The fields of settings. -/
inductive Field
  | statsIntervalMs
  | servers
  | candidatePoolSize
  | autocall
  deriving DecidableEq

/-- The key of a field. -/
def Field.key : Field → String
  | .statsIntervalMs => "stats_interval_ms"
  | .servers => "ice_servers"
  | .candidatePoolSize => "ice_candidate_pool_size"
  | .autocall => "autocall"

/-- The value that settings have in a field, with the records of the servers given. -/
def value (s : Settings) (servers : List Tree) : Field → Tree
  | .statsIntervalMs => .natural s.statsIntervalMs.toNat
  | .servers => .list servers
  | .candidatePoolSize => .natural s.candidatePoolSize.toNat
  | .autocall => .bool s.autocall

/-- The record of some fields, in the order given. -/
def record (s : Settings) (servers : List Tree) (fields : List Field) : Tree :=
  .record (fields.map fun f => (f.key, s.value servers f))

/-- The settings with some of their fields, and the default in the others. -/
def only (s : Settings) (fields : List Field) : Settings where
  statsIntervalMs :=
    if .statsIntervalMs ∈ fields then s.statsIntervalMs else default.statsIntervalMs
  servers := if .servers ∈ fields then s.servers else default.servers
  candidatePoolSize :=
    if .candidatePoolSize ∈ fields then s.candidatePoolSize else default.candidatePoolSize
  autocall := if .autocall ∈ fields then s.autocall else default.autocall

/-- What is known of settings when some of their fields have been read. -/
def Fields.among (s : Settings) (done : List Field) : Fields where
  statsIntervalMs := if .statsIntervalMs ∈ done then some s.statsIntervalMs else none
  servers := if .servers ∈ done then some s.servers else none
  candidatePoolSize := if .candidatePoolSize ∈ done then some s.candidatePoolSize else none
  autocall := if .autocall ∈ done then some s.autocall else none

/-- The settings of the fields that have been read have the default in the others. -/
theorem Fields.settings_among (s : Settings) (fields : List Field) :
    (among s fields.reverse).settings = s.only fields := by
  simp only [settings, among, only, List.mem_reverse]
  congr 1 <;> split <;> rfl

/-- A number below the limit is read back. -/
theorem readNat_natural {limit n : Nat} (expected : Expected) (hlimit : limit ≤ UInt64.size)
    (hn : n < limit) : readNat limit expected (Tree.natural n).draft = .ok n := by
  have hsize : n < UInt64.size := Nat.lt_of_lt_of_le hn hlimit
  simp [Tree.natural, Tree.draft, readNat, Numeral.number_ofNat hsize,
    UInt64.toNat_ofNat_of_lt' hsize, hn]

/-- One more field of settings. -/
theorem Fields.field_among {s : Settings} {servers : List Tree}
    (hservers : List.Forall₂ Server.Written s.servers servers) (done : List Field) (f : Field)
    (hf : f ∉ done) : ∃ read, field (among s done) f.key = some read ∧
      read (s.value servers f).draft = .ok (among s (f :: done)) := by
  cases f with
  | statsIntervalMs =>
    have hread : readInterval (Tree.natural s.statsIntervalMs.toNat).draft =
        .ok s.statsIntervalMs := by
      rw [readInterval, readNat_natural .u64 (Nat.le_refl _) s.statsIntervalMs.toNat_lt]
      simp
    refine ⟨_, rfl, ?_⟩
    simp [among, once, hf, value, hread]
  | servers =>
    refine ⟨_, rfl, ?_⟩
    simp [among, once, hf, value, readServers_of_written hservers]
  | candidatePoolSize =>
    have hread : readPoolSize (Tree.natural s.candidatePoolSize.toNat).draft =
        .ok s.candidatePoolSize := by
      rw [readPoolSize, readNat_natural .u8 (by decide) s.candidatePoolSize.toNat_lt]
      simp
    refine ⟨_, rfl, ?_⟩
    simp [among, once, hf, value, hread]
  | autocall =>
    refine ⟨_, rfl, ?_⟩
    simp [among, once, hf, value, Tree.draft, readBool]

/-- Settings are read from the record of some of their fields. -/
theorem ofDraft_record {s : Settings} {servers : List Tree}
    (hservers : List.Forall₂ Server.Written s.servers servers) {fields : List Field}
    (hnodup : fields.Nodup) : ofDraft (s.record servers fields).draft = .ok (s.only fields) := by
  have hmembers := readMembers_eq (Fields.field_among hservers) fields []
    (by rwa [List.append_nil, (List.reverse_perm fields).nodup_iff])
  rw [List.append_nil] at hmembers
  have hdraft : (s.record servers fields).draft =
      .record (Tree.memberDrafts (fields.map fun f => (f.key, s.value servers f))) none := rfl
  rw [hdraft, ofDraft, ← Fields.settings_among]
  exact congrArg (· >>= _) hmembers

/-- Settings are valid if the interval is not zero and every server is valid. -/
theorem invalid?_eq_none_iff {s : Settings} :
    s.invalid? = none ↔ s.statsIntervalMs ≠ 0 ∧ ∀ server ∈ s.servers, server.invalid? = none := by
  by_cases hzero : s.statsIntervalMs = 0 <;> simp [invalid?, hzero]

/-- Valid settings stay valid when some fields have their default. -/
theorem invalid?_only {s : Settings} (hvalid : s.invalid? = none) (fields : List Field) :
    (s.only fields).invalid? = none := by
  obtain ⟨hinterval, hservers⟩ := invalid?_eq_none_iff.mp hvalid
  have hdefault : default.invalid? = none := by decide
  obtain ⟨hdefaultInterval, hdefaultServers⟩ := invalid?_eq_none_iff.mp hdefault
  refine invalid?_eq_none_iff.mpr ⟨?_, ?_⟩
  · show (if Field.statsIntervalMs ∈ fields then s.statsIntervalMs else default.statsIntervalMs) ≠ 0
    split
    · exact hinterval
    · exact hdefaultInterval
  · show ∀ server ∈ (if Field.servers ∈ fields then s.servers else default.servers),
      server.invalid? = none
    split
    · exact hservers
    · exact hdefaultServers

/-- A number fits any room. -/
theorem fits_natural {n : Nat} (hn : n < UInt64.size) (room : Nat) :
    (Tree.natural n).Fits room :=
  ⟨⟨n, rfl⟩, Numeral.inRange_ofNat hn⟩

/-- The record of a server is one deep. -/
theorem fits_of_written {s : Server} {t : Tree} (h : s.Written t) {room : Nat} :
    t.Fits (room + 1) := by
  obtain ⟨fields, -, -, rfl⟩ := h
  refine ⟨Nat.succ_pos room, Tree.membersFit_iff.mpr fun m hm => ?_⟩
  obtain ⟨f, -, rfl⟩ := List.mem_map.mp hm
  have hoptional (text : Option String) : (Tree.textOrNull text).Fits room := by
    cases text <;> trivial
  cases f with
  | id | type | url => trivial
  | username => exact hoptional s.username
  | credential => exact hoptional s.credential

/-- The records of servers are one deep. -/
theorem itemsFit_of_written {servers : List Server} {trees : List Tree}
    (h : List.Forall₂ Server.Written servers trees) {room : Nat} :
    Tree.ItemsFit (room + 1) trees := by
  induction h with
  | nil => trivial
  | cons hserver _ ih => exact ⟨fits_of_written hserver, ih⟩

/-- The records of settings can be written. -/
theorem fits_record {s : Settings} {servers : List Tree}
    (hservers : List.Forall₂ Server.Written s.servers servers) (fields : List Field) :
    (s.record servers fields).Fits Draft.maxDepth := by
  refine ⟨by decide, Tree.membersFit_iff.mpr fun m hm => ?_⟩
  obtain ⟨f, -, rfl⟩ := List.mem_map.mp hm
  cases f with
  | statsIntervalMs => exact fits_natural s.statsIntervalMs.toNat_lt _
  | servers => exact ⟨by decide, itemsFit_of_written hservers⟩
  | candidatePoolSize =>
    exact fits_natural (Nat.lt_trans s.candidatePoolSize.toNat_lt (by decide)) _
  | autocall => trivial

/-- Settings are read from every text that spells one of their records. -/
theorem read_of_spells {s : Settings} (hvalid : s.invalid? = none) {fields : List Field}
    {servers : List Tree} (hnodup : fields.Nodup)
    (hservers : List.Forall₂ Server.Written s.servers servers) {text : String}
    (hspells : (s.record servers fields).Spells text.toList) : read text = .ok (s.only fields) := by
  simp only [read, hspells.ofChars, ofDraft_record hservers hnodup]
  simp [invalid?_only hvalid fields, bind, Except.bind]

/-- In particular from what is written for the record. -/
theorem read_written {s : Settings} (hvalid : s.invalid? = none) {fields : List Field}
    {servers : List Tree} (hnodup : fields.Nodup)
    (hservers : List.Forall₂ Server.Written s.servers servers) :
    read (String.ofList (s.record servers fields).write) = .ok (s.only fields) := by
  have hspells := (fits_record hservers fields).spells_write
  exact read_of_spells hvalid hnodup hservers (by rwa [String.toList_ofList])

/-- What is written for valid settings is read back. -/
theorem read_write {s : Settings} (hvalid : s.invalid? = none) : read s.write = .ok s := by
  have hservers : List.Forall₂ Server.Written s.servers (s.servers.map Server.toTree) :=
    List.forall₂_map_right_iff.mpr (List.forall₂_same.mpr fun server _ => server.written_toTree)
  have hall : [Field.statsIntervalMs, .servers, .candidatePoolSize, .autocall].Nodup := by decide
  have hread := read_written hvalid hall hservers
  exact hread

/-- Settings are read from every record of some of their fields, in any order and however it is
spelled, with the defaults for the others; and so they are read from their own text. -/
theorem read_record {s : Settings} (hvalid : s.invalid? = none) :
    (∀ (fields : List Field) (servers : List Tree), fields.Nodup →
      List.Forall₂ Server.Written s.servers servers →
        read (String.ofList (s.record servers fields).write) = .ok (s.only fields) ∧
        ∀ text : String, (s.record servers fields).Spells text.toList →
          read text = .ok (s.only fields)) ∧
      read s.write = .ok s :=
  ⟨fun _ _ hnodup hservers =>
    ⟨read_written hvalid hnodup hservers, fun _ => read_of_spells hvalid hnodup hservers⟩,
    read_write hvalid⟩

/-- Two of the four fields, with two servers whose members are not in their usual order, and of
which the second leaves out the name that it lacks. -/
theorem read_two_servers :
    let first : Server := ⟨"\u0000\"\\", "turn", "turn:t", some "\u2028", some ""⟩
    let second : Server := ⟨"", "stun", "é", none, some "c"⟩
    let s : Settings := ⟨18446744073709551615, [first, second], 255, true⟩
    let servers : List Tree := [first.record [.credential, .url, .id, .username, .type],
      second.record [.url, .credential, .type, .id]]
    s.invalid? = none ∧ [Field.autocall, .servers].Nodup ∧
      List.Forall₂ Server.Written s.servers servers ∧
        read (String.ofList (s.record servers [.autocall, .servers]).write) =
          .ok ⟨1000, [first, second], 10, true⟩ ∧
        read s.write = .ok s := by
  intro first second s servers
  have hvalid : s.invalid? = none := by decide
  have hnodup : [Field.autocall, .servers].Nodup := by decide
  have hservers : List.Forall₂ Server.Written s.servers servers :=
    .cons ⟨_, by decide, by rintro (_ | _) <;> simp, rfl⟩
      (.cons ⟨_, by decide, by rintro (_ | _) <;> simp [Server.value, second, Tree.textOrNull], rfl⟩
        .nil)
  exact ⟨hvalid, hnodup, hservers, ((read_record hvalid).1 _ servers hnodup hservers).1,
    (read_record hvalid).2⟩

end Settings

end PeerCall
