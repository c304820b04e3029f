import PeerCall.Json.Tree
import PeerCall.Text.Part

/-!
# Settings

How often to poll, which servers help to find a path between the peers, and whether to call the
first peer that appears.
-/

namespace PeerCall

/-- A server that helps to find a path. -/
structure Server where
  id : String
  /-- `turn` for a relay, anything else for a server that only tells addresses. -/
  type : String
  url : String
  username : Option String
  credential : Option String
  deriving DecidableEq, Repr, Inhabited

/-- The settings of an agent. -/
structure Settings where
  statsIntervalMs : UInt64
  servers : List Server
  candidatePoolSize : UInt8
  autocall : Bool
  deriving DecidableEq, Repr

/-- The server that is asked in the absence of settings. -/
def Server.stun (id host : String) : Server := ⟨id, "stun", "stun:" ++ host, none, none⟩

namespace Settings

/-- The settings that hold for whatever a text leaves out. -/
def default : Settings where
  statsIntervalMs := 1000
  servers :=
    [.stun "default-stun" "stun.l.google.com:19302",
      .stun "default-stun-1" "stun1.l.google.com:19302"]
  candidatePoolSize := 10
  autocall := false

/-- The log filter of a build with checks. -/
def defaultLogFilter : String := "debug"

/-- What makes settings unusable. -/
inductive Invalid
  | zeroInterval
  | emptyUrl (server : String)
  | turnWithoutCredentials (server : String)
  deriving DecidableEq, Repr

/-- How an unusable setting reads. -/
def Invalid.message : Invalid → String
  | .zeroInterval => "stats_interval_ms must be greater than zero"
  | .emptyUrl server => "server " ++ server ++ " has an empty url"
  | .turnWithoutCredentials server =>
    "TURN server " ++ server ++ " requires username and credential"

end Settings

namespace Server

/-- What makes a server unusable. A relay asks for a name and a credential. -/
def invalid? (s : Server) : Option Settings.Invalid :=
  if s.url = "" then some (.emptyUrl s.id)
  else if s.type = "turn" ∧ (s.username.isNone ∨ s.credential.isNone) then
    some (.turnWithoutCredentials s.id)
  else none

/-- The URL of a server, with a scheme in front unless it has one. -/
def urlWithScheme (s : Server) : String :=
  if Text.beginsWith "turn:" s.url || Text.beginsWith "stun:" s.url then s.url
  else (if s.type = "turn" then "turn:" else "stun:") ++ s.url

/-- The record of a server. -/
def toTree (s : Server) : Json.Tree :=
  .record [("id", .text s.id), ("type", .text s.type), ("url", .text s.url),
    ("username", .textOrNull s.username), ("credential", .textOrNull s.credential)]

end Server

/-- A server as a connection is given it. -/
structure Relay where
  urls : List String
  username : String
  credential : String
  deriving DecidableEq, Repr

namespace Settings

/-- The first thing that makes settings unusable. -/
def invalid? (s : Settings) : Option Invalid :=
  if s.statsIntervalMs = 0 then some .zeroInterval else s.servers.findSome? Server.invalid?

/-- The servers as a connection is given them. -/
def relays (s : Settings) : List Relay :=
  s.servers.map fun server =>
    ⟨[server.urlWithScheme], server.username.getD "", server.credential.getD ""⟩

/-- The record of the settings. -/
def toTree (s : Settings) : Json.Tree :=
  .record [("stats_interval_ms", .natural s.statsIntervalMs.toNat),
    ("ice_servers", .list (s.servers.map Server.toTree)),
    ("ice_candidate_pool_size", .natural s.candidatePoolSize.toNat),
    ("autocall", .bool s.autocall)]

/-- The text of the settings. -/
def write (s : Settings) : String := String.ofList s.toTree.write

end Settings

end PeerCall
