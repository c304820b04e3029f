import PeerCall.Json.Lexeme
import PeerCall.Json.Tree

/-!
# Drafts

What can be made of a text that may break somewhere. A draft holds everything up to the first
break of the grammar and says where it breaks, so that a reader that walks it in the order of the
text meets its own complaints and those of the grammar in the right order. `Draft.tree` is the
reader that wants every value, `Draft.skip` the one that steps over them.
-/

namespace PeerCall.Json

/-- A value as far as the text gives it. -/
inductive Draft
  | null
  | bool (value : Bool)
  | number (value : Numeral)
  /-- A text, `none` if a surrogate in it has no partner. -/
  | text (content : Option String)
  /-- Items in order, and the flaw that stands in place of the closing bracket. -/
  | list (items : List Draft) (ending : Option Flaw)
  /-- Members in order, and the flaw that stands in place of the closing brace. -/
  | record (members : List (Option String × Draft)) (ending : Option Flaw)
  | broken (flaw : Flaw)
  deriving Repr, Inhabited

namespace Draft

/-- A container that is still open. Its parts stand newest first. -/
inductive Frame
  | list (items : List Draft)
  | record (members : List (Option String × Draft))
  /-- A record, and a key whose value is still to come. -/
  | member (members : List (Option String × Draft)) (key : Option String)

/-- What the grammar has a place for. -/
inductive Awaited
  | value
  | itemOrEnd
  | key
  | keyOrEnd
  | colon
  | separator

/-- Where one more lexeme leads. -/
inductive Progress
  | more (stack : List Frame) (awaited : Awaited)
  | whole (draft : Draft)
  /-- The text breaks here. -/
  | cut (draft : Draft)

/-- Ends all open containers at a break, `draft` being the last value. -/
def sealAll (flaw : Flaw) : Draft → List Frame → Draft
  | draft, [] => draft
  | draft, .list items :: stack => sealAll flaw (.list (draft :: items).reverse (some flaw)) stack
  | _, .record members :: stack => sealAll flaw (.record members.reverse (some flaw)) stack
  | draft, .member members key :: stack =>
    sealAll flaw (.record ((key, draft) :: members).reverse (some flaw)) stack

/-- A break where a value is awaited. -/
def cutValue (flaw : Flaw) (stack : List Frame) : Draft := sealAll flaw (.broken flaw) stack

/-- A break anywhere else. -/
def cutEnding (flaw : Flaw) : List Frame → Draft
  | .list items :: stack => sealAll flaw (.list items.reverse (some flaw)) stack
  | .record members :: stack => sealAll flaw (.record members.reverse (some flaw)) stack
  | stack => cutValue flaw stack

/-- Adds a finished value to the innermost container. -/
def put (draft : Draft) : List Frame → Progress
  | [] => .whole draft
  | .list items :: stack => .more (.list (draft :: items) :: stack) .separator
  | .member members key :: stack => .more (.record ((key, draft) :: members) :: stack) .separator
  | .record members :: stack => .cut (cutEnding (.both .malformed) (.record members :: stack))

/-- A lexeme where a value is awaited. -/
def putLexeme (stack : List Frame) : Lexeme → Progress
  | .leftBracket => .more (.list [] :: stack) .itemOrEnd
  | .leftBrace => .more (.record [] :: stack) .keyOrEnd
  | .null => put .null stack
  | .bool b => put (.bool b) stack
  | .number n => put (.number n) stack
  | .text s => put (.text s) stack
  | .brokenText flaw => .cut (cutValue flaw stack)
  | .broken flaw => .cut (cutValue flaw stack)
  | _ => .cut (cutValue (.both .malformed) stack)

/-- A lexeme where a key is awaited. -/
def putKey : List Frame → Lexeme → Progress
  | .record members :: stack, .text key => .more (.member members key :: stack) .colon
  | stack, .brokenText flaw => .cut (cutEnding flaw stack)
  | stack, _ => .cut (cutEnding (.both .malformed) stack)

/-- Closes the innermost container. -/
def close : List Frame → Lexeme → Progress
  | .list items :: stack, .rightBracket => put (.list items.reverse none) stack
  | .record members :: stack, .rightBrace => put (.record members.reverse none) stack
  | stack, _ => .cut (cutEnding (.both .malformed) stack)

/-- One lexeme. -/
def step (stack : List Frame) : Awaited → Lexeme → Progress
  | .value, lexeme => putLexeme stack lexeme
  | .itemOrEnd, .rightBracket => close stack .rightBracket
  | .itemOrEnd, lexeme => putLexeme stack lexeme
  | .key, lexeme => putKey stack lexeme
  | .keyOrEnd, .rightBrace => close stack .rightBrace
  | .keyOrEnd, lexeme => putKey stack lexeme
  | .colon, .colon => .more stack .value
  | .colon, _ => .cut (cutEnding (.both .malformed) stack)
  | .separator, .comma =>
    match stack with
    | .list _ :: _ => .more stack .value
    | _ => .more stack .key
  | .separator, lexeme => close stack lexeme

/-- The draft of the first value, and the lexemes that follow it. -/
def ofLexemes (stack : List Frame) (awaited : Awaited) : List Lexeme → Draft × List Lexeme
  | [] =>
    match awaited with
    | .value => (cutValue (.both .truncated) stack, [])
    | _ => (cutEnding (.both .truncated) stack, [])
  | lexeme :: rest =>
    match step stack awaited lexeme with
    | .more stack awaited => ofLexemes stack awaited rest
    | .whole draft => (draft, rest)
    | .cut draft => (draft, [])

/-- The draft of a text, and whether something follows the value. -/
def ofChars (cs : List Char) : Draft × Bool :=
  let (draft, rest) := ofLexemes [] .value (Lexeme.ofChars cs)
  (draft, !rest.isEmpty)

/-! ## Readers -/

/-- How deep containers may be nested where their values are wanted. -/
def maxDepth : Nat := 127

/-- The fault of an ending. -/
def endingFault (choose : Flaw → Fault) : Option Flaw → Except Fault Unit
  | none => .ok ()
  | some flaw => .error (choose flaw)

mutual

/-- The value, if it is whole, no deeper than `room`, without numerals beyond the doubles and
without lone surrogates. -/
def tree (room : Nat) : Draft → Except Fault Tree
  | .null => .ok .null
  | .bool b => .ok (.bool b)
  | .number n => if n.inRange then .ok (.number n) else .error .malformed
  | .text (some s) => .ok (.text s)
  | .text none => .error .malformed
  | .list items ending =>
    match room with
    | 0 => .error .malformed
    | room + 1 => do
      let items ← treeItems room items
      endingFault Flaw.seen ending
      return .list items
  | .record members ending =>
    match room with
    | 0 => .error .malformed
    | room + 1 => do
      let members ← treeMembers room members
      endingFault Flaw.seen ending
      return .record members
  | .broken flaw => .error flaw.seen

/-- The values of the items. -/
def treeItems (room : Nat) : List Draft → Except Fault (List Tree)
  | [] => .ok []
  | item :: rest => do
    let item ← tree room item
    let rest ← treeItems room rest
    return item :: rest

/-- The keys and values of the members. -/
def treeMembers (room : Nat) : List (Option String × Draft) → Except Fault (List (String × Tree))
  | [] => .ok []
  | (none, _) :: _ => .error .malformed
  | (some key, value) :: rest => do
    let value ← tree room value
    let rest ← treeMembers room rest
    return (key, value) :: rest

end

mutual

/-- Steps over a value: only its grammar counts. -/
def skip : Draft → Except Fault Unit
  | .list items ending => do
    skipItems items
    endingFault Flaw.skipped ending
  | .record members ending => do
    skipMembers members
    endingFault Flaw.skipped ending
  | .broken flaw => .error flaw.skipped
  | _ => .ok ()

/-- Steps over items. -/
def skipItems : List Draft → Except Fault Unit
  | [] => .ok ()
  | item :: rest => do
    skip item
    skipItems rest

/-- Steps over members. -/
def skipMembers : List (Option String × Draft) → Except Fault Unit
  | [] => .ok ()
  | (_, value) :: rest => do
    skip value
    skipMembers rest

end

end Draft

/-- The value of a text that holds nothing else. -/
def Tree.read (text : String) : Except Fault Tree := do
  let (draft, trailing) := Draft.ofChars text.toList
  let tree ← draft.tree Draft.maxDepth
  if trailing then .error .malformed else .ok tree

end PeerCall.Json
