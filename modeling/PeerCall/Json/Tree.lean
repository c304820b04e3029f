import PeerCall.Json.Numeral
import PeerCall.Json.Quoted

/-!
# Trees

JSON values. A record keeps its members in the order of the text, repetitions included; what a
repetition means is up to the reader of the record.
-/

namespace PeerCall.Json

/-- A JSON value. -/
inductive Tree
  | null
  | bool (value : Bool)
  | number (value : Numeral)
  | text (content : String)
  | list (items : List Tree)
  | record (members : List (String × Tree))
  deriving Repr, Inhabited

namespace Tree

/-- A whole number that is not negative. -/
def natural (n : Nat) : Tree := .number (.ofNat n)

/-- A text, or null in its absence. -/
def textOrNull : Option String → Tree
  | none => .null
  | some s => .text s

/-- The last value under a key. -/
def get? (key : String) : Tree → Option Tree
  | .record members => members.reverse.lookup key
  | _ => none

/-- The characters of a numeral. One that is not whole shows its power of ten. -/
def writeNumeral (n : Numeral) : List Char :=
  (if n.negative then ['-'] else []) ++ (toString n.digits).toList ++
    (if n.isWhole then [] else 'e' :: (toString n.exponent).toList)

mutual

/-- The text of a value, without layout. -/
def write : Tree → List Char
  | .null => ['n', 'u', 'l', 'l']
  | .bool true => ['t', 'r', 'u', 'e']
  | .bool false => ['f', 'a', 'l', 's', 'e']
  | .number n => writeNumeral n
  | .text s => quote s
  | .list items => '[' :: writeItems items ++ [']']
  | .record members => '\x7b' :: writeMembers members ++ ['\x7d']

/-- Items with commas between them. -/
def writeItems : List Tree → List Char
  | [] => []
  | [item] => item.write
  | item :: rest => item.write ++ ',' :: writeItems rest

/-- Members with commas between them. -/
def writeMembers : List (String × Tree) → List Char
  | [] => []
  | [(key, value)] => quote key ++ ':' :: value.write
  | (key, value) :: rest => quote key ++ ':' :: value.write ++ ',' :: writeMembers rest

end

end Tree

end PeerCall.Json
