import PeerCall.Proofs.Settings.RoundTrip

/-!
# The servers that a connection is given

Valid settings ask for a name and a credential where the type of a server says that it is a relay,
while a connection goes by the scheme of its URL. The two agree unless a URL begins with one of the
secure schemes, which is not taken for a scheme, or a URL of a relay stands at a server of another
type.
-/

namespace PeerCall

namespace Server

/-- The schemes that a URL of a server may have. -/
def schemes : List String := ["stun:", "stuns:", "turn:", "turns:"]

/-- The scheme that a URL without one is given. -/
def ownScheme (s : Server) : String := if s.type = "turn" then "turn:" else "stun:"

/-- A URL of a relay. -/
def IsRelayUrl (url : String) : Prop :=
  Text.beginsWith "turn:" url = true ∨ Text.beginsWith "turns:" url = true

/-- A server with a name and a credential. -/
def HasCredentials (s : Server) : Prop := s.username.isSome = true ∧ s.credential.isSome = true

instance (s : Server) : Decidable s.HasCredentials :=
  inferInstanceAs (Decidable (s.username.isSome = true ∧ s.credential.isSome = true))

/-- A connection is given a server as it should be: a URL with a scheme as it stands and any other
with the scheme of its type, and no URL of a relay without a name and a credential. -/
structure Served (s : Server) (relay : Relay) : Prop where
  urls : relay.urls =
    [if ∃ scheme ∈ schemes, Text.beginsWith scheme s.url = true then s.url
      else s.ownScheme ++ s.url]
  credentials : ∀ url ∈ relay.urls, IsRelayUrl url → s.HasCredentials

/-- What a connection is given of a server. Only the two plain schemes are taken for schemes, and a
URL of a relay may lack a name or a credential where the type of the server is another. -/
structure Given (s : Server) (relay : Relay) : Prop where
  urls : relay.urls =
    [if Text.beginsWith "turn:" s.url = true ∨ Text.beginsWith "stun:" s.url = true then s.url
      else s.ownScheme ++ s.url]
  credentials : ∀ url ∈ relay.urls, IsRelayUrl url →
    s.HasCredentials ∨ s.type ≠ "turn" ∧ Text.beginsWith "turn:" s.url = true
  username : relay.username = s.username.getD ""
  credential : relay.credential = s.credential.getD ""

/-- A server as a connection is given it. -/
def relay (s : Server) : Relay :=
  ⟨[s.urlWithScheme], s.username.getD "", s.credential.getD ""⟩

/-- A URL has no more than one of the schemes. -/
theorem beginsWith_unique {first second url : String} (hfirst : first ∈ schemes)
    (hsecond : second ∈ schemes) (h₁ : Text.beginsWith first url = true)
    (h₂ : Text.beginsWith second url = true) : first = second := by
  have hinitial : ∀ p ∈ schemes, ∀ q ∈ schemes, p.toList <+: q.toList → p = q := by decide
  rcases List.prefix_or_prefix_of_prefix (Text.beginsWith_iff.mp h₁) (Text.beginsWith_iff.mp h₂)
    with h | h
  · exact hinitial first hfirst second hsecond h
  · exact (hinitial second hsecond first hfirst h).symm

/-- The scheme of a type is one of the schemes. -/
theorem ownScheme_mem (s : Server) : s.ownScheme ∈ schemes := by
  unfold ownScheme
  split <;> decide

/-- With the scheme of its type in front, a URL begins with that and no other. -/
theorem beginsWith_ownScheme (s : Server) :
    Text.beginsWith s.ownScheme (s.ownScheme ++ s.url) = true := by
  rw [Text.beginsWith_iff, String.toList_append]
  exact List.prefix_append _ _

/-- A URL is not the same with a scheme in front. -/
theorem ownScheme_append_ne (s : Server) : s.ownScheme ++ s.url ≠ s.url := by
  intro h
  have hlength := congrArg (fun url => url.toList.length) h
  unfold ownScheme at hlength
  split at hlength <;> simp at hlength <;> omega

/-- A server is valid if it has a URL and, as a relay, a name and a credential. -/
theorem invalid?_eq_none_iff {s : Server} :
    s.invalid? = none ↔ s.url ≠ "" ∧ (s.type = "turn" → s.HasCredentials) := by
  unfold invalid? HasCredentials
  by_cases hurl : s.url = "" <;> by_cases htype : s.type = "turn" <;>
    cases s.username <;> cases s.credential <;> simp [hurl, htype]

/-- A URL that is given a scheme is that of a relay if its server is one. -/
theorem isRelayUrl_ownScheme_iff (s : Server) :
    IsRelayUrl (s.ownScheme ++ s.url) ↔ s.type = "turn" := by
  constructor
  · intro h
    have hmem := s.ownScheme_mem
    have hown := s.beginsWith_ownScheme
    have hscheme : s.ownScheme = "turn:" ∨ s.ownScheme = "turns:" :=
      h.imp (beginsWith_unique hmem (by decide) hown) (beginsWith_unique hmem (by decide) hown)
    by_contra htype
    simp [ownScheme, htype] at hscheme
  · intro htype
    have hscheme : s.ownScheme = "turn:" := if_pos htype
    have hown := s.beginsWith_ownScheme
    rw [hscheme] at hown ⊢
    exact Or.inl hown

/-- A relay has one URL, with the scheme of its type in front unless it has a plain one. -/
theorem relay_urls (s : Server) :
    s.relay.urls =
      [if Text.beginsWith "turn:" s.url = true ∨ Text.beginsWith "stun:" s.url = true then s.url
        else s.ownScheme ++ s.url] := by
  simp only [relay, urlWithScheme, ownScheme, Bool.or_eq_true]

/-- A URL with a plain scheme has no secure one. -/
theorem not_plain_of_secure {url scheme : String} (hsecure : scheme ∈ ["stuns:", "turns:"])
    (hbegins : Text.beginsWith scheme url = true) :
    ¬(Text.beginsWith "turn:" url = true ∨ Text.beginsWith "stun:" url = true) := by
  have hmem : scheme ∈ schemes := by
    have hsubset : ["stuns:", "turns:"] ⊆ schemes := by decide
    exact hsubset hsecure
  rintro (h | h) <;>
    · obtain rfl := beginsWith_unique hmem (by decide) hbegins h
      revert hsecure
      decide

/-- What a connection is given of a valid server. -/
theorem given_relay {s : Server} (hvalid : s.invalid? = none) : s.Given s.relay := by
  refine ⟨s.relay_urls, fun url hurl hrelayUrl => ?_, rfl, rfl⟩
  have hcredentials := (invalid?_eq_none_iff.mp hvalid).2
  rw [relay_urls, List.mem_singleton] at hurl
  by_cases hplain : Text.beginsWith "turn:" s.url = true ∨ Text.beginsWith "stun:" s.url = true
  · rw [if_pos hplain] at hurl
    subst hurl
    have hturn : Text.beginsWith "turn:" s.url = true :=
      hrelayUrl.resolve_right fun h => not_plain_of_secure (by decide) h hplain
    exact (em (s.type = "turn")).imp hcredentials fun htype => ⟨htype, hturn⟩
  · rw [if_neg hplain] at hurl
    rw [hurl, isRelayUrl_ownScheme_iff] at hrelayUrl
    exact Or.inl (hcredentials hrelayUrl)

/-- When a valid server is given to a connection as it should be. -/
theorem served_relay_iff {s : Server} (hvalid : s.invalid? = none) :
    s.Served s.relay ↔
      Text.beginsWith "stuns:" s.url = false ∧ Text.beginsWith "turns:" s.url = false ∧
        (Text.beginsWith "turn:" s.url = true → s.HasCredentials) := by
  constructor
  · intro hserved
    have hsecure (scheme : String) (hscheme : scheme ∈ ["stuns:", "turns:"])
        (hmem : scheme ∈ schemes) : Text.beginsWith scheme s.url = false := by
      refine Bool.eq_false_iff.mpr fun hbegins => ?_
      have hurls := hserved.urls
      rw [if_pos ⟨scheme, hmem, hbegins⟩, relay_urls,
        if_neg (not_plain_of_secure hscheme hbegins)] at hurls
      exact s.ownScheme_append_ne (List.cons.inj hurls).1
    refine ⟨hsecure _ (by decide) (by decide), hsecure _ (by decide) (by decide), fun hturn => ?_⟩
    refine hserved.credentials s.url ?_ (Or.inl hturn)
    rw [relay_urls, if_pos (Or.inl hturn)]
    exact List.mem_singleton_self _
  · rintro ⟨hstuns, hturns, hcredentials⟩
    have hscheme : (∃ scheme ∈ schemes, Text.beginsWith scheme s.url = true) ↔
        Text.beginsWith "turn:" s.url = true ∨ Text.beginsWith "stun:" s.url = true := by
      simp [schemes, hstuns, hturns, or_comm]
    refine ⟨by simp only [relay_urls, hscheme], fun url hurl hrelayUrl => ?_⟩
    exact ((given_relay hvalid).credentials url hurl hrelayUrl).elim (fun h => h) fun h =>
      hcredentials h.2

end Server

namespace Settings

/-- Settings that are read are valid. -/
theorem invalid?_of_read {text : String} {s : Settings} (hread : read text = .ok s) :
    s.invalid? = none := by
  simp only [read, bind, Except.bind] at hread
  split at hread
  · cases hread
  · next found _ =>
    split at hread
    · cases hread
    · split at hread
      · cases hread
      · next hinvalid =>
        cases hread
        exact hinvalid

/-- When all servers of valid settings are given to a connection as they should be. -/
theorem forall₂_served_iff {s : Settings} (hvalid : s.invalid? = none) :
    List.Forall₂ Server.Served s.servers s.relays ↔
      ∀ server ∈ s.servers, Text.beginsWith "stuns:" server.url = false ∧
        Text.beginsWith "turns:" server.url = false ∧
        (Text.beginsWith "turn:" server.url = true → server.HasCredentials) := by
  have hservers := (invalid?_eq_none_iff.mp hvalid).2
  have hrelays : s.relays = s.servers.map Server.relay := rfl
  rw [hrelays, List.forall₂_map_right_iff, List.forall₂_same]
  exact forall₂_congr fun server hserver => Server.served_relay_iff (hservers server hserver)

/-- Of every server of settings that are read, in order, a connection is given one URL, unchanged
if it has a plain scheme and otherwise with the scheme of the server's type. All is as it should be
if no URL has a secure scheme and every server with a URL of a relay has a name and a credential,
whatever its type. -/
theorem relays_served_iff {text : String} {s : Settings} (hread : read text = .ok s) :
    List.Forall₂ Server.Given s.servers s.relays ∧
      (List.Forall₂ Server.Served s.servers s.relays ↔
        ∀ server ∈ s.servers, Text.beginsWith "stuns:" server.url = false ∧
          Text.beginsWith "turns:" server.url = false ∧
          (Text.beginsWith "turn:" server.url = true → server.HasCredentials)) := by
  have hvalid := invalid?_of_read hread
  have hservers := (invalid?_eq_none_iff.mp hvalid).2
  have hgiven : List.Forall₂ Server.Given s.servers (s.servers.map Server.relay) :=
    List.forall₂_map_right_iff.mpr
      (List.forall₂_same.mpr fun server hserver => Server.given_relay (hservers server hserver))
  exact ⟨hgiven, forall₂_served_iff hvalid⟩

/-- Settings with a server of each kind that goes right. -/
theorem relays_served_two :
    let s : Settings :=
      ⟨1, [⟨"a", "stun", "turn:a", some "u", some "c"⟩, ⟨"b", "", "b", none, none⟩], 0, false⟩
    read s.write = .ok s ∧ List.Forall₂ Server.Served s.servers s.relays := by
  intro s
  have hread : read s.write = .ok s := read_write (by decide)
  exact ⟨hread, (relays_served_iff hread).2.mpr (by decide)⟩

/-- A URL with a secure scheme is given a second scheme, and a URL of a relay is given without a
name and a credential. -/
theorem relays_notServed :
    let settings (url : String) : Settings :=
      ⟨1000, [⟨"s", "stun", url, none, none⟩], 10, false⟩
    let text (url : String) : String :=
      "\x7b\"ice_servers\":[\x7b\"id\":\"s\",\"type\":\"stun\",\"url\":\"" ++ url ++ "\"\x7d]\x7d"
    (read (text "stuns:h") = .ok (settings "stuns:h") ∧
      ¬List.Forall₂ Server.Served (settings "stuns:h").servers (settings "stuns:h").relays) ∧
    read (text "turn:h") = .ok (settings "turn:h") ∧
      ¬List.Forall₂ Server.Served (settings "turn:h").servers (settings "turn:h").relays := by
  intro settings text
  have hread (url : String) (hvalid : (settings url).invalid? = none) :
      read (String.ofList ((settings url).record
        [Server.record ⟨"s", "stun", url, none, none⟩ [.id, .type, .url]] [.servers]).write) =
        .ok (settings url) := by
    refine read_written hvalid (by decide) (.cons ⟨_, by decide, fun f hf => ?_, rfl⟩ .nil)
    cases f <;> first | rfl | exact absurd hf (by decide)
  refine ⟨⟨hread "stuns:h" (by decide), ?_⟩, hread "turn:h" (by decide), ?_⟩
  · rw [forall₂_served_iff (by decide)]
    decide
  · rw [forall₂_served_iff (by decide)]
    decide

end Settings

end PeerCall
