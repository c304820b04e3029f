import PeerCall.Json.Numeral
import PeerCall.Json.Quoted

/-!
# Lexemes

The words of a JSON text. Splitting a text never fails: the first place that is no lexeme becomes
a last lexeme `brokenText` or `broken`, because the place where it stands decides what is wrong
with it.
-/

namespace PeerCall.Json

/-- A word of a JSON text. -/
inductive Lexeme
  | leftBrace
  | rightBrace
  | leftBracket
  | rightBracket
  | comma
  | colon
  | null
  | bool (value : Bool)
  | number (value : Numeral)
  /-- A quoted text, `none` if a surrogate in it has no partner. -/
  | text (content : Option String)
  /-- A quoted text that breaks. -/
  | brokenText (flaw : Flaw)
  /-- Any other word that breaks, or no word at all. -/
  | broken (flaw : Flaw)
  deriving Repr

namespace Lexeme

/-- The four characters that may stand between lexemes. -/
def isLayout (c : Char) : Bool := c == ' ' || c == '\n' || c == '\t' || c == '\r'

/-- A lexeme and what follows it; nothing follows a broken one. -/
abbrev Step := Lexeme × List Char

/-- The rest of a quoted text after its opening quote. -/
def afterQuote (cs : List Char) : Step :=
  match scanPieces [] cs with
  | (pieces, .ok rest) =>
    match joinPieces pieces with
    | .text content => (.text (some (String.ofList content)), rest)
    | _ => (.text none, rest)
  | (pieces, .error fault) =>
    match joinPieces pieces with
    | .unpaired => (.brokenText ⟨.malformed, fault⟩, [])
    | _ => (.brokenText (.both fault), [])

/-- The rest of a fixed word, of which `expected` is still to come. -/
def afterWord (found : Lexeme) : List Char → List Char → Step
  | [], rest => (found, rest)
  | _ :: _, [] => (.broken (.both .truncated), [])
  | e :: expected, c :: rest =>
    if e = c then afterWord found expected rest else (.broken (.both .malformed), [])

/-- The number that a run of decimal digits stands for. -/
def decimal (ds : List Char) : Nat := ds.foldl (fun n d => 10 * n + (d.toNat - '0'.toNat)) 0

/-- A place where a digit is missing. A reader that steps over a numeral does not tell the end of
the text from a wrong character. -/
def missingDigit (rest : List Char) : Step :=
  (.broken ⟨if rest.isEmpty then .truncated else .malformed, .malformed⟩, [])

/-- The exponent of a numeral, if it has one, after the digits before it. -/
def exponentOf (negative : Bool) (digits : Nat) (scale : Int) (isWhole : Bool)
    (cs : List Char) : Step :=
  match cs with
  | [] => (.number ⟨negative, digits, scale, isWhole⟩, [])
  | c :: rest =>
    if c = 'e' ∨ c = 'E' then
      let isSigned := rest.head? = some '+' ∨ rest.head? = some '-'
      let unsigned := if isSigned then rest.tail else rest
      let run := unsigned.takeWhile Char.isDigit
      if run.isEmpty then missingDigit unsigned
      else
        let amount : Int := decimal run
        let exponent := if rest.head? = some '-' then scale - amount else scale + amount
        (.number ⟨negative, digits, exponent, false⟩, unsigned.dropWhile Char.isDigit)
    else (.number ⟨negative, digits, scale, isWhole⟩, cs)

/-- A numeral after its sign. A zero in front is followed by no other digit. -/
def afterSign (negative : Bool) (cs : List Char) : Step :=
  let whole := cs.takeWhile Char.isDigit
  let rest := cs.dropWhile Char.isDigit
  if whole.isEmpty then missingDigit rest
  else if whole.head? = some '0' ∧ 1 < whole.length then (.broken (.both .malformed), [])
  else if rest.head? = some '.' then
    let fraction := rest.tail.takeWhile Char.isDigit
    if fraction.isEmpty then missingDigit rest.tail
    else exponentOf negative (decimal (whole ++ fraction)) (-(fraction.length : Int)) false
      (rest.tail.dropWhile Char.isDigit)
  else exponentOf negative (decimal whole) 0 true rest

/-- The marks of one character. -/
def mark? (c : Char) : Option Lexeme :=
  if c = '\x7b' then some .leftBrace
  else if c = '\x7d' then some .rightBrace
  else if c = '[' then some .leftBracket
  else if c = ']' then some .rightBracket
  else if c = ',' then some .comma
  else if c = ':' then some .colon
  else none

/-- The lexeme that begins with `c`. -/
def scan (c : Char) (rest : List Char) : Step :=
  match mark? c with
  | some mark => (mark, rest)
  | none =>
    if c = '"' then afterQuote rest
    else if c = 'n' then afterWord .null ['u', 'l', 'l'] rest
    else if c = 't' then afterWord (.bool true) ['r', 'u', 'e'] rest
    else if c = 'f' then afterWord (.bool false) ['a', 'l', 's', 'e'] rest
    else if c = '-' then afterSign true rest
    else if c.isDigit then afterSign false (c :: rest)
    else (.broken (.both .malformed), [])

/-! ## A lexeme takes at least its first character -/

/-- Reading never makes the text longer: not the pieces of a quoted text, -/
theorem scanPieces_length {acc : List Piece} {cs : List Char} {pieces : List Piece}
    {rest : List Char} (h : scanPieces acc cs = (pieces, .ok rest)) :
    rest.length ≤ cs.length := by
  fun_induction scanPieces acc cs <;> simp_all <;> omega

/-- not such a text as a whole, -/
theorem afterQuote_length (cs : List Char) : (afterQuote cs).2.length ≤ cs.length := by
  unfold afterQuote
  split
  · next pieces rest h => split <;> exact scanPieces_length h
  · split <;> simp

/-- nor a word. -/
theorem afterWord_length (found : Lexeme) (expected cs : List Char) :
    (afterWord found expected cs).2.length ≤ cs.length := by
  fun_induction afterWord found expected cs <;> simp_all
  omega

/-- A text is no longer without its first characters. -/
theorem length_dropWhile_le (p : Char → Bool) (cs : List Char) :
    (cs.dropWhile p).length ≤ cs.length :=
  (List.dropWhile_suffix p).length_le

/-- Nor is it longer after an exponent, -/
theorem exponentOf_length (negative : Bool) (digits : Nat) (scale : Int) (isWhole : Bool)
    (cs : List Char) : (exponentOf negative digits scale isWhole cs).2.length ≤ cs.length := by
  unfold exponentOf
  split
  · simp
  · next c rest =>
    have tail : rest.tail.length ≤ rest.length := by simp
    have drop := length_dropWhile_le Char.isDigit rest
    have dropTail := length_dropWhile_le Char.isDigit rest.tail
    simp only [missingDigit]
    split
    · split <;> split <;> simp <;> omega
    · simp

/-- or after a numeral. -/
theorem afterSign_length (negative : Bool) (cs : List Char) :
    (afterSign negative cs).2.length ≤ cs.length := by
  have drop := length_dropWhile_le Char.isDigit cs
  have tail : (cs.dropWhile Char.isDigit).tail.length ≤ (cs.dropWhile Char.isDigit).length := by
    simp
  have dropTail := length_dropWhile_le Char.isDigit (cs.dropWhile Char.isDigit).tail
  simp only [afterSign, missingDigit]
  split
  · simp
  · split
    · simp
    · split
      · split
        · simp
        · exact Nat.le_trans (exponentOf_length ..) (by omega)
      · exact Nat.le_trans (exponentOf_length ..) drop

/-- A numeral that starts with a digit takes that digit. -/
theorem afterSign_length_lt (negative : Bool) (c : Char) (rest : List Char)
    (h : c.isDigit = true) : (afterSign negative (c :: rest)).2.length ≤ rest.length := by
  have whole : (c :: rest).dropWhile Char.isDigit = rest.dropWhile Char.isDigit := by
    simp [List.dropWhile, h]
  have drop := length_dropWhile_le Char.isDigit rest
  have tail : (rest.dropWhile Char.isDigit).tail.length ≤ (rest.dropWhile Char.isDigit).length := by
    simp
  have dropTail := length_dropWhile_le Char.isDigit (rest.dropWhile Char.isDigit).tail
  simp only [afterSign, missingDigit, whole]
  split
  · simp
  · split
    · simp
    · split
      · split
        · simp
        · exact Nat.le_trans (exponentOf_length ..) (by omega)
      · exact Nat.le_trans (exponentOf_length ..) drop

/-- Whatever lexeme is read, the rest is no longer than what followed its first character. -/
theorem scan_length (c : Char) (rest : List Char) : (scan c rest).2.length ≤ rest.length := by
  unfold scan
  cases mark? c with
  | some mark => exact Nat.le_refl _
  | none =>
    let P : Step → Prop := fun step => step.2.length ≤ rest.length
    refine iteInduction (motive := P) (fun _ => afterQuote_length _) fun _ => ?_
    refine iteInduction (motive := P) (fun _ => afterWord_length ..) fun _ => ?_
    refine iteInduction (motive := P) (fun _ => afterWord_length ..) fun _ => ?_
    refine iteInduction (motive := P) (fun _ => afterWord_length ..) fun _ => ?_
    refine iteInduction (motive := P) (fun _ => afterSign_length ..) fun _ => ?_
    exact iteInduction (motive := P) (fun h => afterSign_length_lt _ _ _ h)
      fun _ => Nat.zero_le _

/-- The lexemes of a text. -/
def ofChars : List Char → List Lexeme
  | [] => []
  | c :: rest =>
    if isLayout c then ofChars rest
    else (scan c rest).1 :: ofChars (scan c rest).2
termination_by cs => cs.length
decreasing_by
  · simp
  · have := scan_length c rest
    simp only [List.length_cons]
    omega

end Lexeme

end PeerCall.Json
