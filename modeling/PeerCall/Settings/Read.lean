import PeerCall.Decimal.Layout
import PeerCall.Json.Draft
import PeerCall.Settings.Basic
import PeerCall.Text.Quoted

/-!
# Reading settings

Settings are read from a JSON record, or from a list with the fields in order. The text is walked
once from left to right, and what is wrong first is reported: a break of the grammar, a value of
the wrong type or range, a field that comes twice, or one that is missing when the record ends.
Members with other names are stepped over.
-/

namespace PeerCall.Settings

open Json

/-- What stands where something else is expected. -/
inductive Found
  | null
  | bool (value : Bool)
  | integer (value : Int)
  | float (value : Float)
  | text (value : String)
  | sequence
  | map

/-- Doubles in a complaint show that they are doubles, and take a power of ten if they are large
or small. -/
def complaintNumber : Decimal.Layout := ⟨.even, some (-5, 15), ".0"⟩

/-- How a complaint names what it found. -/
def Found.name : Found → String
  | .null => "null"
  | .bool b => s!"boolean `{b}`"
  | .integer i => s!"integer `{i}`"
  | .float f => "floating point `" ++ complaintNumber.write f ++ "`"
  | .text s => "string " ++ Text.quoted s
  | .sequence => "sequence"
  | .map => "map"

/-- What a place is for. -/
inductive Expected
  | u64
  | u8
  | boolean
  | text
  | sequence
  | settings
  | server
  deriving DecidableEq, Repr

/-- How a complaint names what it expected. -/
def Expected.name : Expected → String
  | .u64 => "u64"
  | .u8 => "u8"
  | .boolean => "a boolean"
  | .text => "a string"
  | .sequence => "a sequence"
  | .settings => "struct ConductorConfig"
  | .server => "struct ServerConfig"

/-- A well-formed text of the wrong shape. -/
inductive Mismatch
  | missingField (name : String)
  | duplicateField (name : String)
  | invalidType (found : Found) (expected : Expected)
  | invalidValue (found : Found) (expected : Expected)
  | tooShort (length : Nat)

/-- How a mismatch reads. -/
def Mismatch.message : Mismatch → String
  | .missingField name => s!"missing field `{name}`"
  | .duplicateField name => s!"duplicate field `{name}`"
  | .invalidType found expected => "invalid type: " ++ found.name ++ ", expected " ++ expected.name
  | .invalidValue found expected =>
    "invalid value: " ++ found.name ++ ", expected " ++ expected.name
  | .tooShort length => s!"invalid length {length}, expected struct ServerConfig with 5 elements"

/-- Why a text holds no settings. -/
inductive ReadError
  | notJson (fault : Fault)
  | mismatch (mismatch : Mismatch)
  | invalid (invalid : Invalid)

/-- A value or the first thing that is wrong. -/
abbrev Result (α : Type) := Except ReadError α

/-- A place that holds something else than expected; a break in it comes first. -/
def otherType {α : Type} (expected : Expected) (d : Draft) : Result α :=
  let wrong (found : Found) : Result α := .error (.mismatch (.invalidType found expected))
  match d with
  | .null => wrong .null
  | .bool b => wrong (.bool b)
  | .number n =>
    if n.inRange then
      match n.number with
      | .unsigned v => wrong (.integer v.toNat)
      | .signed v => wrong (.integer v.toInt)
      | .float f => wrong (.float f)
    else .error (.notJson .malformed)
  | .text (some s) => wrong (.text s)
  | .text none => .error (.notJson .malformed)
  | .list _ _ => wrong .sequence
  | .record _ _ => wrong .map
  | .broken flaw => .error (.notJson flaw.seen)

/-- A whole number below `limit`. -/
def readNat (limit : Nat) (expected : Expected) (d : Draft) : Result Nat :=
  match d with
  | .number n =>
    match n.number with
    | .unsigned v =>
      if v.toNat < limit then .ok v.toNat
      else .error (.mismatch (.invalidValue (.integer v.toNat) expected))
    | .signed v => .error (.mismatch (.invalidValue (.integer v.toInt) expected))
    | .float _ => otherType expected d
  | _ => otherType expected d

/-- A truth value. -/
def readBool : Draft → Result Bool
  | .bool b => .ok b
  | d => otherType .boolean d

/-- A text. -/
def readText : Draft → Result String
  | .text (some s) => .ok s
  | d => otherType .text d

/-- A text, or null for none. -/
def readOptionalText : Draft → Result (Option String)
  | .null => .ok none
  | d => some <$> readText d

/-- The end of a container. -/
def readEnding : Option Flaw → Result Unit
  | none => .ok ()
  | some flaw => .error (.notJson flaw.seen)

/-- The end of a list of which all wanted items have been taken. -/
def readListEnding (surplus : List Draft) (ending : Option Flaw) : Result Unit :=
  if surplus.isEmpty then readEnding ending else .error (.notJson .malformed)

/-- Reads one member into the fields read so far, or says that it has no such field. -/
abbrev FieldReader (β : Type) := β → String → Option (Draft → Result β)

/-- Reads the members of a record, in order. -/
def readMembers {β : Type} (field : FieldReader β) :
    β → List (Option String × Draft) → Result β
  | fields, [] => .ok fields
  | _, (none, _) :: _ => .error (.notJson .malformed)
  | fields, (some key, value) :: rest =>
    match field fields key with
    | some read => do
      let fields ← read value
      readMembers field fields rest
    | none => do
      match value.skip with
      | .ok () => readMembers field fields rest
      | .error fault => .error (.notJson fault)

/-- A field that has not come before. -/
def once {α β : Type} (name : String) (before : Option α) (read : Draft → Result α)
    (store : α → β) (d : Draft) : Result β :=
  match before with
  | some _ => .error (.mismatch (.duplicateField name))
  | none => store <$> read d

/-- A field that must have come. -/
def require {α : Type} (name : String) : Option α → Result α
  | some value => .ok value
  | none => .error (.mismatch (.missingField name))

/-! ## Servers -/

/-- The fields of a server read so far. -/
structure ServerFields where
  id : Option String := none
  type : Option String := none
  url : Option String := none
  username : Option (Option String) := none
  credential : Option (Option String) := none

/-- Reads a field of a server. -/
def ServerFields.field : FieldReader ServerFields := fun f key =>
  match key with
  | "id" => some (once key f.id readText fun v => { f with id := some v })
  | "type" => some (once key f.type readText fun v => { f with type := some v })
  | "url" => some (once key f.url readText fun v => { f with url := some v })
  | "username" =>
    some (once key f.username readOptionalText fun v => { f with username := some v })
  | "credential" =>
    some (once key f.credential readOptionalText fun v => { f with credential := some v })
  | _ => none

/-- The server of the fields of a record. -/
def ServerFields.server (f : ServerFields) : Result Server := do
  let id ← require "id" f.id
  let type ← require "type" f.type
  let url ← require "url" f.url
  return ⟨id, type, url, f.username.join, f.credential.join⟩

/-- The next item of a list that must have one; `before` items have been taken. -/
def nextItem (before : Nat) (ending : Option Flaw) : List Draft → Result (Draft × List Draft)
  | item :: rest => .ok (item, rest)
  | [] => do
    readEnding ending
    .error (.mismatch (.tooShort before))

/-- The next item of a list, read if there is one. -/
def optionalItem {α : Type} (read : Draft → Result α) (absent : α) (ending : Option Flaw) :
    List Draft → Result (α × List Draft)
  | item :: rest => (·, rest) <$> read item
  | [] => do
    readEnding ending
    return (absent, [])

/-- A server. -/
def readServer : Draft → Result Server
  | .record members ending => do
    let fields ← readMembers ServerFields.field {} members
    readEnding ending
    fields.server
  | .list items ending => do
    let (item, items) ← nextItem 0 ending items
    let id ← readText item
    let (item, items) ← nextItem 1 ending items
    let type ← readText item
    let (item, items) ← nextItem 2 ending items
    let url ← readText item
    let (username, items) ← optionalItem readOptionalText none ending items
    let (credential, items) ← optionalItem readOptionalText none ending items
    readListEnding items ending
    return ⟨id, type, url, username, credential⟩
  | d => otherType .server d

/-- A list of servers. -/
def readServers : Draft → Result (List Server)
  | .list items ending => do
    let servers ← items.mapM readServer
    readEnding ending
    return servers
  | d => otherType .sequence d

/-! ## Settings -/

/-- A number of milliseconds. -/
def readInterval (d : Draft) : Result UInt64 := UInt64.ofNat <$> readNat UInt64.size .u64 d

/-- A size below 256. -/
def readPoolSize (d : Draft) : Result UInt8 := UInt8.ofNat <$> readNat 256 .u8 d

/-- The fields of settings read so far. -/
structure Fields where
  statsIntervalMs : Option UInt64 := none
  servers : Option (List Server) := none
  candidatePoolSize : Option UInt8 := none
  autocall : Option Bool := none

/-- Reads a field of settings. -/
def Fields.field : FieldReader Fields := fun f key =>
  match key with
  | "stats_interval_ms" =>
    some (once key f.statsIntervalMs readInterval fun v => { f with statsIntervalMs := some v })
  | "ice_servers" => some (once key f.servers readServers fun v => { f with servers := some v })
  | "ice_candidate_pool_size" =>
    some (once key f.candidatePoolSize readPoolSize fun v =>
      { f with candidatePoolSize := some v })
  | "autocall" => some (once key f.autocall readBool fun v => { f with autocall := some v })
  | _ => none

/-- The settings of the fields of a record, with defaults for the others. -/
def Fields.settings (f : Fields) : Settings where
  statsIntervalMs := f.statsIntervalMs.getD default.statsIntervalMs
  servers := f.servers.getD default.servers
  candidatePoolSize := f.candidatePoolSize.getD default.candidatePoolSize
  autocall := f.autocall.getD default.autocall

/-- The settings of a draft. -/
def ofDraft : Draft → Result Settings
  | .record members ending => do
    let fields ← readMembers Fields.field {} members
    readEnding ending
    return fields.settings
  | .list items ending => do
    let (interval, items) ← optionalItem readInterval default.statsIntervalMs ending items
    let (servers, items) ← optionalItem readServers default.servers ending items
    let (poolSize, items) ← optionalItem readPoolSize default.candidatePoolSize ending items
    let (autocall, items) ← optionalItem readBool default.autocall ending items
    readListEnding items ending
    return ⟨interval, servers, poolSize, autocall⟩
  | d => otherType .settings d

/-- The settings of a text. They are checked once the whole text has been read. -/
def read (text : String) : Result Settings := do
  let (draft, trailing) := Draft.ofChars text.toList
  let settings ← ofDraft draft
  if trailing then .error (.notJson .malformed)
  else
    match settings.invalid? with
    | some invalid => .error (.invalid invalid)
    | none => .ok settings

end PeerCall.Settings
