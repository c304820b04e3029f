import Mathlib.Data.List.Chain
import PeerCall.Json.Lexeme

/-!
# Spellings

The ways to write a JSON text down: which characters spell a lexeme, and where layout may stand
between lexemes. Whatever way is taken, splitting the text gives back the lexemes.
-/

namespace PeerCall.Json

/-! ## What spells what -/

/-- Items that are spelled one right after another. -/
inductive InTurn {α : Type} (spells : α → List Char → Prop) : List α → List Char → Prop
  | nil : InTurn spells [] []
  | cons {item : α} {items : List α} {cs rest : List Char} :
    spells item cs → InTurn spells items rest → InTurn spells (item :: items) (cs ++ rest)

/-- The ways to spell a character inside quotes. -/
inductive CharSpelled : Char → List Char → Prop
  /-- As it is, unless it is a control, a quote or a backslash. -/
  | plain {c : Char} : 0x20 ≤ c.toNat → c ≠ '"' → c ≠ '\\' → CharSpelled c [c]
  /-- By the letter that names it. -/
  | named {letter c : Char} : named? letter = some c → CharSpelled c ['\\', letter]
  /-- By the digits of its unit. -/
  | unit {p q r s : Char} {n : Nat} :
    hexUnit? p q r s = some n → isLeading n = false → isTrailing n = false →
      CharSpelled (Char.ofNat n) ['\\', 'u', p, q, r, s]
  /-- By the digits of its two surrogates. -/
  | pair {p q r s t u v w : Char} {n m : Nat} :
    hexUnit? p q r s = some n → isLeading n = true →
      hexUnit? t u v w = some m → isTrailing m = true →
        CharSpelled (pairedChar n m) ['\\', 'u', p, q, r, s, '\\', 'u', t, u, v, w]

/-- The digits before the point: there are some, and no zero in front of another digit. -/
structure IsWholePart (digits : List Char) : Prop where
  ne_nil : digits ≠ []
  isDigit : ∀ c ∈ digits, c.isDigit = true
  leading : digits.head? = some '0' → digits.length ≤ 1

/-- The sign of a numeral. -/
def signMark (negative : Bool) : List Char := if negative then ['-'] else []

/-- Digits after the point, with the point if there are any. -/
def pointed (fraction : List Char) : List Char :=
  if fraction.isEmpty then [] else '.' :: fraction

/-- The ways to spell a numeral. -/
inductive Numeral.Spelled : Numeral → List Char → Prop
  /-- Without an exponent. -/
  | unscaled {negative : Bool} {whole fraction : List Char} :
    IsWholePart whole → (∀ c ∈ fraction, c.isDigit = true) →
      Spelled ⟨negative, Lexeme.decimal (whole ++ fraction), -(fraction.length : Int),
        fraction.isEmpty⟩ (signMark negative ++ (whole ++ pointed fraction))
  /-- With an exponent. -/
  | scaled {negative : Bool} {whole fraction sign amount : List Char} {mark : Char} :
    IsWholePart whole → (∀ c ∈ fraction, c.isDigit = true) → mark = 'e' ∨ mark = 'E' →
      sign = [] ∨ sign = ['+'] ∨ sign = ['-'] → amount ≠ [] →
      (∀ c ∈ amount, c.isDigit = true) →
      Spelled ⟨negative, Lexeme.decimal (whole ++ fraction),
        if sign = ['-'] then -(fraction.length : Int) - Lexeme.decimal amount
          else -(fraction.length : Int) + Lexeme.decimal amount,
        false⟩ (signMark negative ++ (whole ++ pointed fraction ++ mark :: sign ++ amount))

/-- The ways to spell a lexeme. -/
inductive Lexeme.Spelled : Lexeme → List Char → Prop
  | mark {c : Char} {mark : Lexeme} : Lexeme.mark? c = some mark → Spelled mark [c]
  | null : Spelled .null ['n', 'u', 'l', 'l']
  | true : Spelled (.bool true) ['t', 'r', 'u', 'e']
  | false : Spelled (.bool false) ['f', 'a', 'l', 's', 'e']
  | number {n : Numeral} {cs : List Char} : n.Spelled cs → Spelled (.number n) cs
  | text {content cs : List Char} : InTurn CharSpelled content cs →
    Spelled (.text (some (String.ofList content))) ('"' :: cs ++ ['"'])

/-- Lexemes in order, with layout before, between and after them. -/
inductive Laid : List Lexeme → List Char → Prop
  | nil {layout : List Char} : (∀ c ∈ layout, Lexeme.isLayout c = true) → Laid [] layout
  | cons {lexeme : Lexeme} {lexemes : List Lexeme} {layout cs rest : List Char} :
    (∀ c ∈ layout, Lexeme.isLayout c = true) → lexeme.Spelled cs → Laid lexemes rest →
      Laid (lexeme :: lexemes) (layout ++ (cs ++ rest))

/-- Layout may be put in front. -/
theorem Laid.layout {lexemes : List Lexeme} {layout cs : List Char}
    (hlayout : ∀ c ∈ layout, Lexeme.isLayout c = true) (h : Laid lexemes cs) :
    Laid lexemes (layout ++ cs) := by
  cases h with
  | nil hmore => exact .nil (List.forall_mem_append.mpr ⟨hlayout, hmore⟩)
  | cons hmore hlexeme hrest =>
    rw [← List.append_assoc]
    exact .cons (List.forall_mem_append.mpr ⟨hlayout, hmore⟩) hlexeme hrest

/-- Nothing is laid out as nothing. -/
theorem Laid.empty : Laid [] [] := by
  have hlayout : ∀ c ∈ ([] : List Char), Lexeme.isLayout c = true := nofun
  exact .nil hlayout

/-- A lexeme without layout before it. -/
theorem Laid.next {lexeme : Lexeme} {lexemes : List Lexeme} {cs rest : List Char}
    (hlexeme : lexeme.Spelled cs) (hrest : Laid lexemes rest) :
    Laid (lexeme :: lexemes) (cs ++ rest) := by
  have hlayout : ∀ c ∈ ([] : List Char), Lexeme.isLayout c = true := nofun
  exact .cons hlayout hlexeme hrest

/-- Lexemes that are laid out may follow each other. -/
theorem Laid.append {first second : List Lexeme} {cs ds : List Char} (hfirst : Laid first cs)
    (hsecond : Laid second ds) : Laid (first ++ second) (cs ++ ds) := by
  induction hfirst with
  | nil hlayout => exact hsecond.layout hlayout
  | cons hlayout hlexeme _ ih =>
    rw [List.append_assoc, List.append_assoc]
    exact .cons hlayout hlexeme ih

/-! ## Reading a quoted text -/

/-- One item is spelled by itself. -/
theorem InTurn.single {α : Type} {spells : α → List Char → Prop} {item : α} {cs : List Char}
    (h : spells item cs) : InTurn spells [item] cs := by
  simpa using InTurn.cons h .nil

/-- Items that are spelled in turn may follow each other. -/
theorem InTurn.append {α : Type} {spells : α → List Char → Prop} {first second : List α}
    {cs ds : List Char} (hfirst : InTurn spells first cs) (hsecond : InTurn spells second ds) :
    InTurn spells (first ++ second) (cs ++ ds) := by
  induction hfirst with
  | nil => exact hsecond
  | cons hitem _ ih =>
    rw [List.append_assoc]
    exact .cons hitem ih

/-- The ways to spell a piece of a quoted text. -/
inductive Piece.Spelled : Piece → List Char → Prop
  | plain {c : Char} : 0x20 ≤ c.toNat → c ≠ '"' → c ≠ '\\' → Spelled (.char c) [c]
  | named {letter c : Char} : named? letter = some c → Spelled (.char c) ['\\', letter]
  | unit {p q r s : Char} {n : Nat} :
    hexUnit? p q r s = some n → Spelled (.unit n) ['\\', 'u', p, q, r, s]

/-- A unit that is no surrogate stands for its own character. -/
theorem joinPieces_unit {n : Nat} (hleading : isLeading n = false)
    (htrailing : isTrailing n = false) (pieces : List Piece) :
    joinPieces (.unit n :: pieces) = (joinPieces pieces).cons (Char.ofNat n) := by
  cases pieces with
  | nil => simp [joinPieces, htrailing, hleading, Joined.cons]
  | cons piece pieces => cases piece <;> simp [joinPieces, htrailing, hleading]

/-- No unit is a leading and a trailing surrogate. -/
theorem isTrailing_of_isLeading {n : Nat} (h : isLeading n = true) : isTrailing n = false := by
  simp only [isLeading, Bool.and_eq_true, decide_eq_true_eq] at h
  simp only [isTrailing, Bool.and_eq_false_iff, decide_eq_false_iff_not]
  omega

/-- Two surrogates stand for one character. -/
theorem joinPieces_pair {n m : Nat} (hleading : isLeading n = true)
    (htrailing : isTrailing m = true) (pieces : List Piece) :
    joinPieces (.unit n :: .unit m :: pieces) = (joinPieces pieces).cons (pairedChar n m) := by
  rw [joinPieces]
  simp [isTrailing_of_isLeading hleading, hleading, htrailing]

/-- A spelled character is made of pieces that stand for it. -/
theorem CharSpelled.exists_pieces {c : Char} {cs : List Char} (h : CharSpelled c cs) :
    ∃ pieces, InTurn Piece.Spelled pieces cs ∧
      ∀ more, joinPieces (pieces ++ more) = (joinPieces more).cons c := by
  cases h with
  | plain hvisible hquote hbackslash =>
    exact ⟨[.char c], .single (.plain hvisible hquote hbackslash), fun _ => rfl⟩
  | named hnamed => exact ⟨[.char c], .single (.named hnamed), fun _ => rfl⟩
  | @unit p q r s n hunit hleading htrailing =>
    exact ⟨[.unit n], .single (.unit hunit), joinPieces_unit hleading htrailing⟩
  | @pair p q r s t u v w n m hfirst hleading hsecond htrailing =>
    have hunits : InTurn Piece.Spelled ([.unit n] ++ [.unit m])
        (['\\', 'u', p, q, r, s] ++ ['\\', 'u', t, u, v, w]) :=
      (InTurn.single (.unit hfirst)).append (.single (.unit hsecond))
    exact ⟨[.unit n, .unit m], hunits, joinPieces_pair hleading htrailing⟩

/-- So is a spelled text. -/
theorem exists_pieces {content cs : List Char} (h : InTurn CharSpelled content cs) :
    ∃ pieces, InTurn Piece.Spelled pieces cs ∧ joinPieces pieces = .text content := by
  induction h with
  | nil => exact ⟨[], .nil, rfl⟩
  | cons hchar _ ih =>
    obtain ⟨first, hfirst, hjoin⟩ := hchar.exists_pieces
    obtain ⟨others, hothers, hjoins⟩ := ih
    refine ⟨first ++ others, hfirst.append hothers, ?_⟩
    rw [hjoin, hjoins]
    rfl

/-- Pieces are found in any spelling of them. -/
theorem scanPieces_of_spelled {pieces : List Piece} {cs : List Char}
    (h : InTurn Piece.Spelled pieces cs) (acc : List Piece) (rest : List Char) :
    scanPieces acc (cs ++ '"' :: rest) = (acc.reverse ++ pieces, .ok rest) := by
  induction h generalizing acc with
  | nil => simp [scanPieces]
  | @cons piece pieces cs more hpiece _ ih =>
    have hnext : scanPieces acc (cs ++ (more ++ '"' :: rest)) =
        scanPieces (piece :: acc) (more ++ '"' :: rest) := by
      cases hpiece with
      | plain hvisible hquote hbackslash =>
        simp [scanPieces, hbackslash, Nat.not_lt.mpr hvisible]
      | @named letter c hnamed =>
        have hletter : letter ≠ 'u' := by
          rintro rfl
          nomatch hnamed
        simp [scanPieces, hletter, hnamed]
      | unit hunit => simp [scanPieces, hunit]
    rw [List.append_assoc, hnext, ih, List.reverse_cons, List.append_assoc, List.singleton_append]

/-! ## Reading a numeral -/

/-- What cannot go on a numeral. -/
def Stops (rest : List Char) : Prop :=
  ∀ c ∈ rest.head?, c.isDigit = false ∧ c ≠ '.' ∧ c ≠ 'e' ∧ c ≠ 'E'

namespace Lexeme

/-- A run of digits ends where no digit follows. -/
theorem digits_append {digits rest : List Char} (hdigits : ∀ c ∈ digits, c.isDigit = true)
    (hrest : ∀ c ∈ rest.head?, c.isDigit = false) :
    (digits ++ rest).takeWhile Char.isDigit = digits ∧
      (digits ++ rest).dropWhile Char.isDigit = rest := by
  have hstop : rest.takeWhile Char.isDigit = [] ∧ rest.dropWhile Char.isDigit = rest := by
    cases rest with
    | nil => exact ⟨rfl, rfl⟩
    | cons c rest => simp [hrest c rfl]
  rw [List.takeWhile_append_of_pos hdigits, List.dropWhile_append_of_pos hdigits, hstop.1,
    hstop.2, List.append_nil]
  exact ⟨rfl, rfl⟩

/-- The digits of a numeral are read up to its exponent. -/
theorem afterSign_digits (negative : Bool) {whole fraction rest : List Char}
    (hwhole : IsWholePart whole) (hfraction : ∀ c ∈ fraction, c.isDigit = true)
    (hrest : ∀ c ∈ rest.head?, c.isDigit = false ∧ c ≠ '.') :
    afterSign negative (whole ++ pointed fraction ++ rest) =
      exponentOf negative (decimal (whole ++ fraction)) (-(fraction.length : Int))
        fraction.isEmpty rest := by
  have hnext : ∀ c ∈ (pointed fraction ++ rest).head?, c.isDigit = false := by
    cases fraction with
    | nil => exact fun c hc => (hrest c hc).1
    | cons d fraction =>
      rintro _ ⟨⟩
      rfl
  have hzero : ¬(whole.head? = some '0' ∧ 1 < whole.length) := by
    rintro ⟨hhead, hlength⟩
    have := hwhole.leading hhead
    omega
  obtain ⟨htake, hdrop⟩ := digits_append hwhole.isDigit hnext
  simp only [afterSign, List.append_assoc, htake, hdrop]
  rw [if_neg (by simpa using hwhole.ne_nil), if_neg hzero]
  cases fraction with
  | nil =>
    have hpoint : rest.head? ≠ some '.' := fun h => (hrest '.' h).2 rfl
    simp [pointed, hpoint]
  | cons d fraction =>
    obtain ⟨htake, hdrop⟩ := digits_append hfraction fun c hc => (hrest c hc).1
    rw [List.cons_append] at htake hdrop
    simp [pointed, htake, hdrop]

/-- A numeral without an exponent ends at once. -/
theorem exponentOf_of_stops (negative : Bool) (digits : Nat) (scale : Int) (isWhole : Bool)
    {rest : List Char} (hrest : Stops rest) :
    exponentOf negative digits scale isWhole rest =
      (.number ⟨negative, digits, scale, isWhole⟩, rest) := by
  cases rest with
  | nil => rfl
  | cons c rest =>
    obtain ⟨-, -, hsmall, hlarge⟩ := hrest c rfl
    simp [exponentOf, hsmall, hlarge]

/-- What may stand between the mark of an exponent and its digits. -/
def IsSign (sign unsigned : List Char) : Prop :=
  (sign = [] ∧ unsigned.head? ≠ some '+' ∧ unsigned.head? ≠ some '-') ∨ sign = ['+'] ∨ sign = ['-']

/-- The exponent of a numeral by its sign and the digits after it. -/
theorem exponentOf_cons (negative : Bool) (digits : Nat) (scale : Int) (isWhole : Bool) (c : Char)
    {sign unsigned : List Char} (hsign : IsSign sign unsigned) :
    exponentOf negative digits scale isWhole (c :: (sign ++ unsigned)) =
      if c = 'e' ∨ c = 'E' then
        let amount := unsigned.takeWhile Char.isDigit
        if amount.isEmpty then missingDigit unsigned
        else (.number ⟨negative, digits,
          if sign = ['-'] then scale - decimal amount else scale + decimal amount, false⟩,
          unsigned.dropWhile Char.isDigit)
      else (.number ⟨negative, digits, scale, isWhole⟩, c :: (sign ++ unsigned)) := by
  rcases hsign with ⟨rfl, hplus, hminus⟩ | rfl | rfl
  · simp [exponentOf, hplus, hminus]
  · simp [exponentOf]
  · simp [exponentOf]

/-- An exponent is read up to its last digit. -/
theorem exponentOf_scaled (negative : Bool) (digits : Nat) (scale : Int) (isWhole : Bool)
    {mark : Char} {sign amount rest : List Char} (hmark : mark = 'e' ∨ mark = 'E')
    (hsign : sign = [] ∨ sign = ['+'] ∨ sign = ['-']) (hne : amount ≠ [])
    (hamount : ∀ c ∈ amount, c.isDigit = true) (hrest : ∀ c ∈ rest.head?, c.isDigit = false) :
    exponentOf negative digits scale isWhole (mark :: (sign ++ (amount ++ rest))) =
      (.number ⟨negative, digits,
        if sign = ['-'] then scale - decimal amount else scale + decimal amount, false⟩, rest) := by
  obtain ⟨htake, hdrop⟩ := digits_append hamount hrest
  have hunsigned : IsSign sign (amount ++ rest) := by
    refine hsign.imp_left fun h => ⟨h, ?_, ?_⟩
    all_goals
      obtain ⟨d, more, rfl⟩ := List.exists_cons_of_ne_nil hne
      rintro ⟨⟩
      nomatch hamount _ List.mem_cons_self
  rw [exponentOf_cons _ _ _ _ _ hunsigned, if_pos hmark]
  simp only [htake, hdrop]
  rw [if_neg (by simpa using hne)]

/-- A spelled numeral is read, whatever stops it. -/
theorem exists_scan_numeral {n : Numeral} {cs rest : List Char} (h : n.Spelled cs)
    (hrest : Stops rest) : ∃ whole, IsWholePart whole ∧ ∃ more,
      cs = signMark n.negative ++ (whole ++ more) ∧
        afterSign n.negative (whole ++ more ++ rest) = (.number n, rest) := by
  cases h with
  | @unscaled negative whole fraction hwhole hfraction =>
    refine ⟨whole, hwhole, pointed fraction, rfl, ?_⟩
    rw [afterSign_digits negative hwhole hfraction fun c hc => ⟨(hrest c hc).1, (hrest c hc).2.1⟩,
      exponentOf_of_stops _ _ _ _ hrest]
  | @scaled negative whole fraction sign amount mark hwhole hfraction hmark hsign hne hamount =>
    refine ⟨whole, hwhole, pointed fraction ++ mark :: sign ++ amount, by simp, ?_⟩
    have hexponent : ∀ c ∈ (mark :: (sign ++ (amount ++ rest))).head?,
        c.isDigit = false ∧ c ≠ '.' := by
      rintro _ ⟨⟩
      rcases hmark with rfl | rfl <;> exact ⟨rfl, by decide⟩
    have hdigits := afterSign_digits negative hwhole hfraction hexponent
    have hscaled := exponentOf_scaled negative (decimal (whole ++ fraction))
      (-(fraction.length : Int)) fraction.isEmpty hmark hsign hne hamount
      fun c hc => (hrest c hc).1
    rw [hscaled] at hdigits
    simpa using hdigits

/-! ## Reading lexemes -/

/-- A numeral ends where the next lexeme begins, unless that is a numeral too. -/
def Apart (first second : Lexeme) : Prop := ∀ m n, first = .number m → second ≠ .number n

/-- The rest of a fixed word has been read. -/
theorem afterWord_append (found : Lexeme) (word rest : List Char) :
    afterWord found word (word ++ rest) = (found, rest) := by
  induction word with
  | nil => rfl
  | cons c word ih => simpa [afterWord] using ih

/-- A quoted text is read from any spelling. -/
theorem afterQuote_of_spelled {content cs : List Char} (h : InTurn CharSpelled content cs)
    (rest : List Char) :
    afterQuote (cs ++ '"' :: rest) = (.text (some (String.ofList content)), rest) := by
  obtain ⟨pieces, hpieces, hjoin⟩ := exists_pieces h
  have hscan := scanPieces_of_spelled hpieces [] rest
  rw [List.reverse_nil, List.nil_append] at hscan
  simp [afterQuote, hscan, hjoin]

/-- A digit is neither layout nor the beginning of another lexeme. -/
theorem scan_digit {c : Char} (hc : c.isDigit = true) (rest : List Char) :
    isLayout c = false ∧ scan c rest = afterSign false (c :: rest) := by
  have hne (d : Char) (hd : d.isDigit = false) : c ≠ d := by
    rintro rfl
    simp [hd] at hc
  constructor
  · simp [isLayout, hne ' ' rfl, hne '\n' rfl, hne '\t' rfl, hne '\r' rfl]
  · have hmark : mark? c = none := by
      simp [mark?, hne '\x7b' rfl, hne '\x7d' rfl, hne '[' rfl, hne ']' rfl, hne ',' rfl,
        hne ':' rfl]
    simp [scan, hmark, hc, hne '"' rfl, hne 'n' rfl, hne 't' rfl, hne 'f' rfl, hne '-' rfl]

/-- The first character of a numeral is its sign or a digit. -/
theorem exists_scan_of_numeral {n : Numeral} {cs rest : List Char} (h : n.Spelled cs)
    (hrest : Stops rest) : ∃ c tail, cs = c :: tail ∧ isLayout c = false ∧
      scan c (tail ++ rest) = (.number n, rest) := by
  obtain ⟨whole, hwhole, more, rfl, hafter⟩ := exists_scan_numeral h hrest
  cases hsign : n.negative with
  | true =>
    refine ⟨'-', whole ++ more, rfl, rfl, ?_⟩
    rw [hsign] at hafter
    exact hafter
  | false =>
    obtain ⟨d, digits, rfl⟩ := List.exists_cons_of_ne_nil hwhole.ne_nil
    obtain ⟨hlayout, hscan⟩ :=
      scan_digit (hwhole.isDigit d List.mem_cons_self) (digits ++ more ++ rest)
    refine ⟨d, digits ++ more, rfl, hlayout, ?_⟩
    rw [hsign] at hafter
    exact hscan.trans hafter

/-- A mark is not layout. -/
theorem isLayout_of_mark {c : Char} {mark : Lexeme} (h : mark? c = some mark) :
    isLayout c = false := by
  unfold mark? at h
  split_ifs at h <;> simp_all [isLayout]

/-- A lexeme is read from any spelling of it. -/
theorem exists_scan {lexeme : Lexeme} {cs rest : List Char} (h : lexeme.Spelled cs)
    (hrest : ∀ n, lexeme = .number n → Stops rest) :
    ∃ c tail, cs = c :: tail ∧ isLayout c = false ∧ scan c (tail ++ rest) = (lexeme, rest) := by
  cases h with
  | @mark c _ hmark => exact ⟨c, [], rfl, isLayout_of_mark hmark, by simp [scan, hmark]⟩
  | null => exact ⟨'n', _, rfl, rfl, afterWord_append .null _ rest⟩
  | true => exact ⟨'t', _, rfl, rfl, afterWord_append (.bool true) _ rest⟩
  | false => exact ⟨'f', _, rfl, rfl, afterWord_append (.bool false) _ rest⟩
  | number hn => exact exists_scan_of_numeral hn (hrest _ rfl)
  | @text content cs hcontent =>
    refine ⟨'"', cs ++ ['"'], rfl, rfl, ?_⟩
    rw [List.append_assoc]
    exact afterQuote_of_spelled hcontent rest

/-! ### Splitting a text -/

/-- Layout in front is passed over. -/
theorem ofChars_layout {layout : List Char} (h : ∀ c ∈ layout, isLayout c = true)
    (rest : List Char) : ofChars (layout ++ rest) = ofChars rest := by
  induction layout with
  | nil => rfl
  | cons c layout ih =>
    rw [List.cons_append, ofChars, if_pos (h c List.mem_cons_self)]
    exact ih fun d hd => h d (List.mem_cons_of_mem c hd)

/-- Where no layout is, a lexeme begins. -/
theorem ofChars_cons {c : Char} {rest : List Char} (hc : isLayout c = false) :
    ofChars (c :: rest) = (scan c rest).1 :: ofChars (scan c rest).2 := by
  rw [ofChars, if_neg (by simp [hc])]

/-- A numeral ends before layout. -/
theorem stops_of_isLayout {c : Char} (h : isLayout c = true) (rest : List Char) :
    Stops (c :: rest) := by
  rintro _ ⟨⟩
  simp only [isLayout, Bool.or_eq_true, beq_iff_eq] at h
  rcases h with ((rfl | rfl) | rfl) | rfl <;> decide

/-- A numeral ends where another lexeme begins. -/
theorem stops_of_spelled {lexeme : Lexeme} {cs : List Char} (h : lexeme.Spelled cs)
    (hother : ∀ n, lexeme ≠ .number n) (rest : List Char) : Stops (cs ++ rest) := by
  cases h with
  | @mark c _ hmark =>
    rintro _ ⟨⟩
    unfold mark? at hmark
    split_ifs at hmark with h1 h2 h3 h4 h5 h6
    all_goals subst_vars; decide
  | null | true | false | text _ =>
    rintro _ ⟨⟩
    decide
  | number _ => exact absurd rfl (hother _)

/-- Nothing that goes on a numeral comes before the next lexeme. -/
theorem stops_of_laid {lexemes : List Lexeme} {cs : List Char} (h : Laid lexemes cs)
    (hother : ∀ n, lexemes.head? ≠ some (.number n)) : Stops cs := by
  cases h with
  | @nil layout hlayout =>
    cases cs with
    | nil => nofun
    | cons c layout => exact stops_of_isLayout (hlayout c List.mem_cons_self) layout
  | @cons lexeme lexemes layout cs rest hlayout hlexeme _ =>
    cases layout with
    | nil => exact stops_of_spelled hlexeme (fun n hn => hother n (by rw [hn]; rfl)) rest
    | cons c layout => exact stops_of_isLayout (hlayout c List.mem_cons_self) _

/-- A text is split into the lexemes that it spells. -/
theorem ofChars_of_laid {lexemes : List Lexeme} {cs : List Char} (h : Laid lexemes cs)
    (hapart : lexemes.IsChain Apart) : ofChars cs = lexemes := by
  induction h with
  | @nil layout hlayout => simpa [ofChars] using ofChars_layout hlayout []
  | @cons lexeme lexemes layout cs rest hlayout hlexeme hrest ih =>
    have hstops : ∀ n, lexeme = .number n → Stops rest := by
      rintro n rfl
      refine stops_of_laid hrest fun m hm => ?_
      obtain ⟨others, rfl⟩ := List.head?_eq_some_iff.mp hm
      exact (List.isChain_cons_cons.mp hapart).1 n m rfl rfl
    obtain ⟨c, tail, rfl, hc, hscan⟩ := exists_scan hlexeme hstops
    rw [ofChars_layout hlayout, List.cons_append, ofChars_cons hc, hscan, ih hapart.of_cons]

end Lexeme

end PeerCall.Json
