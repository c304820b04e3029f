import Mathlib.Tactic.SplitIfs
import PeerCall.Proofs.Json.Grammar

/-!
# Writing a value and reading it

What is written for a value spells it: a text in quotes its characters, a whole number its digits,
and so, by induction on its parts, every value. Since the reader finds what a text spells, it gives
the value back.
-/

namespace PeerCall.Json

/-! ## Quoted texts -/

/-- The digits of a small unit are read as its value. -/
theorem hexUnit?_of_lt : ∀ n < 0x20,
    hexUnit? '0' '0' (hexDigit (n / 16)) (hexDigit (n % 16)) = some n := by
  decide

/-- A character is written by a letter after a backslash, by its unit, or as it is. -/
theorem escape_cases (c : Char) :
    (∃ letter, letter ≠ 'u' ∧ named? letter = some c ∧ escape c = ['\\', letter]) ∨
      (c.toNat < 0x20 ∧
        escape c = ['\\', 'u', '0', '0', hexDigit (c.toNat / 16), hexDigit (c.toNat % 16)]) ∨
      (0x20 ≤ c.toNat ∧ c ≠ '"' ∧ c ≠ '\\' ∧ escape c = [c]) := by
  unfold escape
  split_ifs with hquote hbackslash hb hf hn hr ht hcontrol
  · exact Or.inl ⟨'"', by decide, by rw [hquote]; rfl, rfl⟩
  · exact Or.inl ⟨'\\', by decide, by rw [hbackslash]; rfl, rfl⟩
  · exact Or.inl ⟨'b', by decide, by rw [hb]; rfl, rfl⟩
  · exact Or.inl ⟨'f', by decide, by rw [hf]; rfl, rfl⟩
  · exact Or.inl ⟨'n', by decide, by rw [hn]; rfl, rfl⟩
  · exact Or.inl ⟨'r', by decide, by rw [hr]; rfl, rfl⟩
  · exact Or.inl ⟨'t', by decide, by rw [ht]; rfl, rfl⟩
  · exact Or.inr (Or.inl ⟨hcontrol, rfl⟩)
  · exact Or.inr (Or.inr ⟨Nat.le_of_not_lt hcontrol, hquote, hbackslash, rfl⟩)

/-- What is written for a character spells it. -/
theorem charSpelled_escape (c : Char) : CharSpelled c (escape c) := by
  rcases escape_cases c with ⟨letter, _, hnamed, hescape⟩ | ⟨hcontrol, hescape⟩ |
    ⟨hvisible, hquote, hbackslash, hescape⟩
  · rw [hescape]
    exact .named hnamed
  · have hleading : isLeading c.toNat = false := by
      simp only [isLeading, Bool.and_eq_false_iff, decide_eq_false_iff_not]
      omega
    have hunit := CharSpelled.unit (hexUnit?_of_lt c.toNat hcontrol) hleading
      (by simp only [isTrailing, Bool.and_eq_false_iff, decide_eq_false_iff_not]; omega)
    rwa [Char.ofNat_toNat, ← hescape] at hunit
  · rw [hescape]
    exact .plain hvisible hquote hbackslash

/-- What is written for some characters spells them in turn. -/
theorem inTurn_escape (cs : List Char) : InTurn CharSpelled cs (cs.flatMap escape) := by
  induction cs with
  | nil => exact .nil
  | cons c cs ih => exact .cons (charSpelled_escape c) ih

/-- A text in quotes spells that text. -/
theorem Lexeme.spelled_quote (s : String) : (Lexeme.text (some s)).Spelled (quote s) := by
  simpa [quote] using Lexeme.Spelled.text (inTurn_escape s.toList)

/-! ## Numbers -/

/-- Of the ten digits only zero is written as one. -/
theorem digitChar_ne_zero : ∀ n < 10, 0 < n → n.digitChar ≠ '0' := by
  decide

/-- A number has no zero in front, unless it is zero. -/
theorem head?_toDigits {n : Nat} (hn : 0 < n) : (Nat.toDigits 10 n).head? ≠ some '0' := by
  induction n using Nat.strongRecOn with
  | ind n ih =>
    rcases Nat.lt_or_ge n 10 with hlt | hge
    · rw [Nat.toDigits_of_lt_base hlt]
      simpa using digitChar_ne_zero n hlt hn
    · have hdigits : Nat.toDigits 10 n = Nat.toDigits 10 (n / 10) ++ [(n % 10).digitChar] :=
        Nat.toDigits_of_base_le (by omega) hge
      have hsome : (Nat.toDigits 10 (n / 10)).head?.isSome = true := by simp
      rw [hdigits, List.head?_append, Option.or_of_isSome hsome]
      exact ih (n / 10) (by omega) (by omega)

/-- The digits of a whole number spell it. -/
theorem Numeral.spelled_toDigits (n : Nat) : (Numeral.ofNat n).Spelled (Nat.toDigits 10 n) := by
  have hwhole : IsWholePart (Nat.toDigits 10 n) := by
    refine ⟨Nat.toDigits_ne_nil, fun c hc => Nat.isDigit_of_mem_toDigits (by omega) (by omega) hc,
      fun hhead => ?_⟩
    rcases Nat.eq_zero_or_pos n with rfl | hpos
    · simp
    · exact absurd hhead (head?_toDigits hpos)
  have hvalue : Lexeme.decimal (Nat.toDigits 10 n) = n :=
    Nat.ofDigitChars_toDigits (by omega) (by omega)
  have hfraction : ∀ c ∈ ([] : List Char), c.isDigit = true := List.forall_mem_nil _
  have hspelled : Numeral.Spelled ⟨false, _, _, _⟩ _ := .unscaled hwhole hfraction
  simpa [hvalue, signMark, pointed, Numeral.ofNat] using hspelled

/-- A number below `2 ^ 64` is in the range of the doubles, and of its own class. -/
theorem Numeral.inRange_ofNat {n : Nat} (hn : n < UInt64.size) :
    (Numeral.ofNat n).inRange = true := by
  rcases Nat.eq_zero_or_pos n with rfl | hpos
  · rfl
  · have hlog : n.log2 < 64 := (Nat.log2_lt (by omega)).mpr hn
    have hmagnitude : (Numeral.ofNat n).magnitude < 300 := by
      simp only [Numeral.magnitude, Numeral.ofNat]
      omega
    simp [Numeral.inRange, hmagnitude]

/-- A number below `2 ^ 64` is read as an unsigned one. -/
theorem Numeral.number_ofNat {n : Nat} (hn : n < UInt64.size) :
    (Numeral.ofNat n).number = .unsigned (UInt64.ofNat n) :=
  if_pos ⟨rfl, by simp [Numeral.ofNat], hn⟩

/-! ## Values -/

/-- A lexeme alone is laid out by its spelling. -/
theorem Laid.single {lexeme : Lexeme} {cs : List Char} (h : lexeme.Spelled cs) :
    Laid [lexeme] cs := by
  simpa using Laid.next h .empty

namespace Tree

mutual

/-- A value that can be read again: it is nested no deeper than `room`, and its numbers are whole,
have no sign and are not too large. -/
def Fits (room : Nat) : Tree → Prop
  | .number n => (∃ k, n = .ofNat k) ∧ n.inRange = true
  | .list items => 0 < room ∧ ItemsFit (room - 1) items
  | .record members => 0 < room ∧ MembersFit (room - 1) members
  | _ => True

def ItemsFit (room : Nat) : List Tree → Prop
  | [] => True
  | item :: rest => item.Fits room ∧ ItemsFit room rest

def MembersFit (room : Nat) : List (String × Tree) → Prop
  | [] => True
  | (_, value) :: rest => value.Fits room ∧ MembersFit room rest

end

/-- The members of a record can be read again if the value of each of them can. -/
theorem membersFit_iff {room : Nat} {members : List (String × Tree)} :
    MembersFit room members ↔ ∀ m ∈ members, m.2.Fits room := by
  induction members with
  | nil => simp [MembersFit]
  | cons m members ih => simp [MembersFit, ih]

mutual

/-- A value that can be read again keeps the limits. -/
theorem Fits.bounded : ∀ {room : Nat} {t : Tree}, t.Fits room → t.Bounded room
  | _, .null, _ | _, .bool _, _ | _, .text _, _ => trivial
  | _, .number _, hfits => hfits.2
  | _, .list _, hfits => ⟨hfits.1, ItemsFit.bounded hfits.2⟩
  | _, .record _, hfits => ⟨hfits.1, MembersFit.bounded hfits.2⟩

/-- So do items that can be read again, -/
theorem ItemsFit.bounded : ∀ {room : Nat} {items : List Tree}, ItemsFit room items →
    ItemsBounded room items
  | _, [], _ => trivial
  | _, _ :: _, hfits => ⟨Fits.bounded hfits.1, ItemsFit.bounded hfits.2⟩

/-- and members. -/
theorem MembersFit.bounded : ∀ {room : Nat} {members : List (String × Tree)},
    MembersFit room members → MembersBounded room members
  | _, [], _ => trivial
  | _, (_, _) :: _, hfits => ⟨Fits.bounded hfits.1, MembersFit.bounded hfits.2⟩

end

mutual

/-- What is written for a value spells it. -/
theorem Fits.spells_write {room : Nat} : ∀ {t : Tree}, t.Fits room → t.Spells t.write
  | .null, _ => .single .null
  | .bool true, _ => .single .true
  | .bool false, _ => .single .false
  | .number n, hfits => by
    obtain ⟨⟨k, rfl⟩, -⟩ := hfits
    have hwrite : (Tree.number (.ofNat k)).write = Nat.toDigits 10 k := by
      simp [write, writeNumeral, Numeral.ofNat]
    rw [hwrite]
    exact .single (.number (Numeral.spelled_toDigits k))
  | .text s, _ => .single (Lexeme.spelled_quote s)
  | .list _, hfits =>
    .append (.next (.mark rfl) (laid_writeItems hfits.2)) (.single (.mark rfl))
  | .record _, hfits =>
    .append (.next (.mark rfl) (laid_writeMembers hfits.2)) (.single (.mark rfl))

/-- What is written for items is their lexemes laid out, -/
theorem laid_writeItems {room : Nat} : ∀ {items : List Tree}, ItemsFit room items →
    Laid (itemLexemes items) (writeItems items)
  | [], _ => .nil nofun
  | [_], hfits => Fits.spells_write hfits.1
  | _ :: _ :: _, hfits =>
    .append (Fits.spells_write hfits.1) (.next (.mark rfl) (laid_writeItems hfits.2))

/-- and so it is with members. -/
theorem laid_writeMembers {room : Nat} : ∀ {members : List (String × Tree)},
    MembersFit room members → Laid (memberLexemes members) (writeMembers members)
  | [], _ => .nil nofun
  | [(key, _)], hfits =>
    .next (Lexeme.spelled_quote key) (.next (.mark rfl) (Fits.spells_write hfits.1))
  | (key, _) :: _ :: _, hfits =>
    .append (.next (Lexeme.spelled_quote key) (.next (.mark rfl) (Fits.spells_write hfits.1)))
      (.next (.mark rfl) (laid_writeMembers hfits.2))

end

/-- A value that fits can be written and read again. -/
theorem read_write {t : Tree} (hfits : t.Fits Draft.maxDepth) :
    Tree.read (String.ofList t.write) = .ok t :=
  read_iff.mpr ⟨by simpa using hfits.spells_write, hfits.bounded⟩

end Tree

end PeerCall.Json
