/-!
# Parts of a text

Whether a text begins with another, ends with it, or holds it anywhere, character by character.
-/

namespace PeerCall.Text

/-- Whether a text begins with `part`. -/
def beginsWith (part s : String) : Bool := part.toList.isPrefixOf s.toList

/-- Whether a text ends with `part`. -/
def endsWith (part s : String) : Bool := part.toList.isSuffixOf s.toList

/-- Whether `part` stands somewhere in a list of characters. -/
def holdsChars (part : List Char) : List Char → Bool
  | [] => part.isEmpty
  | c :: rest => part.isPrefixOf (c :: rest) || holdsChars part rest

/-- Whether a text holds `part`. -/
def holds (part s : String) : Bool := holdsChars part.toList s.toList

/-- A text begins with a part if its characters do, -/
theorem beginsWith_iff {part s : String} : beginsWith part s ↔ part.toList <+: s.toList := by
  simp [beginsWith]

/-- and it ends with one if they do. -/
theorem endsWith_iff {part s : String} : endsWith part s ↔ part.toList <:+ s.toList := by
  simp [endsWith]

end PeerCall.Text
