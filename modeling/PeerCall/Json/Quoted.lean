import PeerCall.Json.Fault

/-!
# Quoted texts

Inside quotes a character stands for itself, is named by a letter after a backslash, or is given
by 16-bit units of four hexadecimal digits each. Scanning splits the text into such pieces;
joining pairs the surrogates among them. Writing escapes as little as the grammar allows.
-/

namespace PeerCall.Json

/-- A piece of a quoted text. -/
inductive Piece
  | char (c : Char)
  /-- A 16-bit unit given by its digits. -/
  | unit (n : Nat)
  deriving DecidableEq, Repr

/-- The value of a hexadecimal digit. -/
def hexDigit? (c : Char) : Option Nat :=
  if '0' ≤ c ∧ c ≤ '9' then some (c.toNat - '0'.toNat)
  else if 'a' ≤ c ∧ c ≤ 'f' then some (c.toNat - 'a'.toNat + 10)
  else if 'A' ≤ c ∧ c ≤ 'F' then some (c.toNat - 'A'.toNat + 10)
  else none

/-- The value of four hexadecimal digits. -/
def hexUnit? (a b c d : Char) : Option Nat :=
  match hexDigit? a, hexDigit? b, hexDigit? c, hexDigit? d with
  | some p, some q, some r, some s => some (((p * 16 + q) * 16 + r) * 16 + s)
  | _, _, _, _ => none

/-- What is wrong where four hexadecimal digits are missing: with less than four bytes to come the
text is too short. -/
def hexFault (rest : List Char) : Fault :=
  if ((rest.take 4).map Char.utf8Size).foldl (· + ·) 0 < 4 then .truncated else .malformed

/-- The character that a letter after a backslash names. -/
def named? : Char → Option Char
  | '"' => some '"'
  | '\\' => some '\\'
  | '/' => some '/'
  | 'b' => some '\x08'
  | 'f' => some '\x0c'
  | 'n' => some '\n'
  | 'r' => some '\r'
  | 't' => some '\t'
  | _ => none

/-- Splits a quoted text, after its opening quote, into pieces up to the closing quote, with what
follows it, or up to the place where it breaks. `acc` holds the pieces so far, newest first. -/
def scanPieces (acc : List Piece) : List Char → List Piece × Except Fault (List Char)
  | [] => (acc.reverse, .error .truncated)
  | '"' :: rest => (acc.reverse, .ok rest)
  | ['\\'] => (acc.reverse, .error .truncated)
  | '\\' :: 'u' :: a :: b :: c :: d :: rest =>
    match hexUnit? a b c d with
    | some n => scanPieces (.unit n :: acc) rest
    | none => (acc.reverse, .error (hexFault (a :: b :: c :: d :: rest)))
  | '\\' :: 'u' :: rest => (acc.reverse, .error (hexFault rest))
  | '\\' :: c :: rest =>
    match named? c with
    | some e => scanPieces (.char e :: acc) rest
    | none => (acc.reverse, .error .malformed)
  | c :: rest =>
    if c.toNat < 0x20 then (acc.reverse, .error .malformed) else scanPieces (.char c :: acc) rest

/-- Whether a unit opens a surrogate pair. -/
def isLeading (n : Nat) : Bool := 0xD800 ≤ n && n ≤ 0xDBFF

/-- Whether a unit closes a surrogate pair. -/
def isTrailing (n : Nat) : Bool := 0xDC00 ≤ n && n ≤ 0xDFFF

/-- The character of a surrogate pair. -/
def pairedChar (leading trailing : Nat) : Char :=
  Char.ofNat (0x10000 + (leading - 0xD800) * 0x400 + (trailing - 0xDC00))

/-- What a list of pieces amounts to. -/
inductive Joined
  | text (content : List Char)
  /-- All is well up to a leading surrogate at the very end. -/
  | dangling
  /-- A surrogate has no partner. -/
  | unpaired
  deriving DecidableEq, Repr

/-- Puts a character in front. -/
def Joined.cons (c : Char) : Joined → Joined
  | .text cs => .text (c :: cs)
  | joined => joined

/-- Joins pieces into a text by pairing the surrogates. -/
def joinPieces : List Piece → Joined
  | [] => .text []
  | .char c :: rest => (joinPieces rest).cons c
  | [.unit n] =>
    if isTrailing n then .unpaired
    else if isLeading n then .dangling
    else .text [Char.ofNat n]
  | .unit n :: .char c :: rest =>
    if isTrailing n || isLeading n then .unpaired
    else ((joinPieces rest).cons c).cons (Char.ofNat n)
  | .unit n :: .unit m :: rest =>
    if isTrailing n then .unpaired
    else if isLeading n then
      if isTrailing m then (joinPieces rest).cons (pairedChar n m) else .unpaired
    else (joinPieces (.unit m :: rest)).cons (Char.ofNat n)

/-- The digits of a number below sixteen, in lower case. -/
def hexDigit (n : Nat) : Char := (Nat.toDigits 16 n).headD '0'

/-- A character as it is written inside quotes. -/
def escape (c : Char) : List Char :=
  if c = '"' then ['\\', '"']
  else if c = '\\' then ['\\', '\\']
  else if c = '\x08' then ['\\', 'b']
  else if c = '\x0c' then ['\\', 'f']
  else if c = '\n' then ['\\', 'n']
  else if c = '\r' then ['\\', 'r']
  else if c = '\t' then ['\\', 't']
  else if c.toNat < 0x20 then
    ['\\', 'u', '0', '0', hexDigit (c.toNat / 16), hexDigit (c.toNat % 16)]
  else [c]

/-- A text in quotes. -/
def quote (s : String) : List Char := '"' :: s.toList.flatMap escape ++ ['"']

end PeerCall.Json
