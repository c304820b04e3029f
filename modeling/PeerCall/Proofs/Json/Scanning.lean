import Mathlib.Data.List.TakeWhile
import PeerCall.Proofs.Json.Spelling

/-!
# What has been split is spelled

A text that can be split without a break is spelled by its lexemes: nothing that is no spelling is
taken for one.
-/

namespace PeerCall.Json

/-! ## Quoted texts -/

/-- What spells a piece that is a character spells the character. -/
theorem Piece.Spelled.char {c : Char} {cs : List Char} (h : Piece.Spelled (.char c) cs) :
    CharSpelled c cs := by
  cases h with
  | plain hvisible hquote hbackslash => exact .plain hvisible hquote hbackslash
  | named hnamed => exact .named hnamed

/-- What spells pieces begins with what spells the first of them, here a unit. -/
theorem exists_unit {n : Nat} {pieces : List Piece} {cs : List Char}
    (h : InTurn Piece.Spelled (.unit n :: pieces) cs) :
    ∃ p q r s more, hexUnit? p q r s = some n ∧ InTurn Piece.Spelled pieces more ∧
      cs = ['\\', 'u', p, q, r, s] ++ more := by
  cases h with
  | cons hpiece hpieces =>
    cases hpiece with
    | unit hunit => exact ⟨_, _, _, _, _, hunit, hpieces, rfl⟩

/-- And here a character. -/
theorem exists_char {c : Char} {pieces : List Piece} {cs : List Char}
    (h : InTurn Piece.Spelled (.char c :: pieces) cs) :
    ∃ front more, CharSpelled c front ∧ InTurn Piece.Spelled pieces more ∧ cs = front ++ more := by
  cases h with
  | cons hpiece hpieces => exact ⟨_, _, hpiece.char, hpieces, rfl⟩

/-- Only a text stays a text with a character in front. -/
theorem Joined.cons_eq_text {c : Char} {joined : Joined} {content : List Char}
    (h : joined.cons c = .text content) : ∃ rest, joined = .text rest ∧ content = c :: rest := by
  cases joined with
  | text rest =>
    injection h with h
    exact ⟨rest, rfl, h.symm⟩
  | dangling => nomatch h
  | unpaired => nomatch h

/-- Pieces that stand for a text spell it. -/
theorem charSpelled_of_joinPieces {pieces : List Piece} {content cs : List Char}
    (h : InTurn Piece.Spelled pieces cs) (hjoin : joinPieces pieces = .text content) :
    InTurn CharSpelled content cs := by
  fun_induction joinPieces pieces generalizing content cs with
  | case1 =>
    cases h
    cases hjoin
    exact .nil
  | case2 c rest ih =>
    obtain ⟨others, hrest, rfl⟩ := Joined.cons_eq_text hjoin
    obtain ⟨front, more, hchar, hmore, rfl⟩ := exists_char h
    exact .cons hchar (ih hmore hrest)
  | case5 n htrailing hleading =>
    cases hjoin
    obtain ⟨p, q, r, s, more, hunit, hmore, rfl⟩ := exists_unit h
    cases hmore
    exact .single (.unit hunit (by simpa using hleading) (by simpa using htrailing))
  | case7 n c rest hplain ih =>
    have hsurrogate : isLeading n = false ∧ isTrailing n = false := by
      simpa [and_comm] using hplain
    obtain ⟨_, hchars, rfl⟩ := Joined.cons_eq_text hjoin
    obtain ⟨others, hrest, rfl⟩ := Joined.cons_eq_text hchars
    obtain ⟨p, q, r, s, after, hunit, hafter, rfl⟩ := exists_unit h
    obtain ⟨front, more, hchar, hmore, rfl⟩ := exists_char hafter
    exact .cons (.unit hunit hsurrogate.1 hsurrogate.2) (.cons hchar (ih hmore hrest))
  | case9 n m rest _ hleading htrailing ih =>
    obtain ⟨others, hrest, rfl⟩ := Joined.cons_eq_text hjoin
    obtain ⟨p, q, r, s, after, hunit, hafter, rfl⟩ := exists_unit h
    obtain ⟨t, u, v, w, more, hpartner, hmore, rfl⟩ := exists_unit hafter
    rw [← List.append_assoc]
    exact .cons (.pair hunit hleading hpartner htrailing) (ih hmore hrest)
  | case11 n m rest htrailing hleading ih =>
    obtain ⟨others, hrest, rfl⟩ := Joined.cons_eq_text hjoin
    obtain ⟨p, q, r, s, more, hunit, hmore, rfl⟩ := exists_unit h
    exact .cons (.unit hunit (by simpa using hleading) (by simpa using htrailing)) (ih hmore hrest)
  | case3 | case4 | case6 | case8 | case10 => nomatch hjoin

/-- The characters up to a closing quote spell the pieces that come after those in `acc`. -/
def Scanned (acc pieces : List Piece) (cs rest : List Char) : Prop :=
  ∃ more inner, pieces = acc.reverse ++ more ∧ cs = inner ++ '"' :: rest ∧
    InTurn Piece.Spelled more inner

/-- A piece that has been scanned may count with those that come after it. -/
theorem Scanned.cons {acc pieces : List Piece} {piece : Piece} {front cs rest : List Char}
    (hpiece : piece.Spelled front) (h : Scanned (piece :: acc) pieces cs rest) :
    Scanned acc pieces (front ++ cs) rest := by
  obtain ⟨more, inner, rfl, rfl, hmore⟩ := h
  exact ⟨piece :: more, front ++ inner, by simp, by simp, .cons hpiece hmore⟩

/-- What has been scanned spells the pieces that were found. -/
theorem scanned_of_scanPieces {acc pieces : List Piece} {cs rest : List Char}
    (h : scanPieces acc cs = (pieces, .ok rest)) : Scanned acc pieces cs rest := by
  fun_induction scanPieces acc cs with
  | case2 acc rest =>
    cases h
    exact ⟨[], [], by simp, rfl, .nil⟩
  | case4 acc p q r s cs n hunit ih => exact (ih h).cons (.unit hunit)
  | case7 acc letter cs _ _ c hnamed ih => exact (ih h).cons (.named hnamed)
  | case10 acc c cs hquote hend _ _ hescape hvisible ih =>
    have hbackslash : c ≠ '\\' := by
      intro hc
      cases cs with
      | nil => exact hend hc rfl
      | cons next cs => exact hescape next cs hc rfl
    exact (ih h).cons (.plain (Nat.le_of_not_lt hvisible) hquote hbackslash)
  | case1 | case3 | case5 | case6 | case8 | case9 => cases h

/-! ## Numerals -/

namespace Lexeme

/-- A lexeme that breaks nowhere. -/
def isIntact : Lexeme → Bool
  | .text none | .brokenText _ | .broken _ => false
  | _ => true

/-- The characters of an exponent begin with a sign, or with none. -/
theorem exists_sign (cs : List Char) : ∃ sign unsigned, cs = sign ++ unsigned ∧
    IsSign sign unsigned := by
  by_cases hplus : cs.head? = some '+'
  · obtain ⟨tail, rfl⟩ := List.head?_eq_some_iff.mp hplus
    exact ⟨['+'], tail, rfl, Or.inr (Or.inl rfl)⟩
  · by_cases hminus : cs.head? = some '-'
    · obtain ⟨tail, rfl⟩ := List.head?_eq_some_iff.mp hminus
      exact ⟨['-'], tail, rfl, Or.inr (Or.inr rfl)⟩
    · exact ⟨[], cs, rfl, Or.inl ⟨rfl, hplus, hminus⟩⟩

/-- What has been read after the digits of a numeral is nothing or an exponent. -/
theorem exponent_cases {negative isWhole : Bool} {digits : Nat} {scale : Int}
    {cs rest : List Char} {lexeme : Lexeme}
    (h : exponentOf negative digits scale isWhole cs = (lexeme, rest))
    (hintact : lexeme.isIntact = true) :
    (lexeme = .number ⟨negative, digits, scale, isWhole⟩ ∧ cs = rest) ∨
      ∃ mark sign amount, (mark = 'e' ∨ mark = 'E') ∧
        (sign = [] ∨ sign = ['+'] ∨ sign = ['-']) ∧ amount ≠ [] ∧
          (∀ c ∈ amount, c.isDigit = true) ∧ cs = mark :: sign ++ amount ++ rest ∧
            lexeme = .number ⟨negative, digits,
              if sign = ['-'] then scale - decimal amount else scale + decimal amount, false⟩ := by
  cases cs with
  | nil =>
    cases h
    exact Or.inl ⟨rfl, rfl⟩
  | cons c cs =>
    obtain ⟨sign, unsigned, rfl, hsign⟩ := exists_sign cs
    rw [exponentOf_cons _ _ _ _ _ hsign] at h
    by_cases hmark : c = 'e' ∨ c = 'E'
    · rw [if_pos hmark] at h
      by_cases hempty : (unsigned.takeWhile Char.isDigit).isEmpty
      · rw [if_pos hempty] at h
        cases h
        cases hintact
      · rw [if_neg hempty] at h
        cases h
        exact Or.inr ⟨c, sign, unsigned.takeWhile Char.isDigit, hmark, hsign.imp_left And.left,
          by simpa using hempty, fun _ => List.mem_takeWhile_imp, by simp, rfl⟩
    · rw [if_neg hmark] at h
      cases h
      exact Or.inl ⟨rfl, rfl⟩

/-- The digits of a numeral and what has been read after them spell it. -/
theorem spelled_of_exponentOf {negative : Bool} {whole fraction cs rest : List Char}
    {lexeme : Lexeme} (hwhole : IsWholePart whole) (hfraction : ∀ c ∈ fraction, c.isDigit = true)
    (h : exponentOf negative (decimal (whole ++ fraction)) (-(fraction.length : Int))
      fraction.isEmpty cs = (lexeme, rest)) (hintact : lexeme.isIntact = true) :
    ∃ spelled, signMark negative ++ (whole ++ pointed fraction ++ cs) = spelled ++ rest ∧
      lexeme.Spelled spelled := by
  rcases exponent_cases h hintact with
    ⟨rfl, rfl⟩ | ⟨mark, sign, amount, hmark, hsign, hne, hamount, rfl, rfl⟩
  · exact ⟨_, by simp, .number (.unscaled hwhole hfraction)⟩
  · exact ⟨_, by simp, .number (.scaled hwhole hfraction hmark hsign hne hamount)⟩

/-- What has been read as a numeral spells it, or it breaks. -/
theorem spelled_of_afterSign {negative : Bool} {cs rest : List Char} {lexeme : Lexeme}
    (h : afterSign negative cs = (lexeme, rest)) (hintact : lexeme.isIntact = true) :
    ∃ spelled, signMark negative ++ cs = spelled ++ rest ∧ lexeme.Spelled spelled := by
  obtain ⟨whole, after, hdigits, hcs, hwhole, hafter⟩ : ∃ whole after,
      (∀ c ∈ whole, c.isDigit = true) ∧ cs = whole ++ after ∧
        cs.takeWhile Char.isDigit = whole ∧ cs.dropWhile Char.isDigit = after :=
    ⟨_, _, fun _ => List.mem_takeWhile_imp, List.takeWhile_append_dropWhile.symm, rfl, rfl⟩
  simp only [afterSign, hwhole, hafter] at h
  by_cases hempty : whole.isEmpty = true
  · rw [if_pos hempty] at h
    cases h
    cases hintact
  rw [if_neg hempty] at h
  by_cases hzero : whole.head? = some '0' ∧ 1 < whole.length
  · rw [if_pos hzero] at h
    cases h
    cases hintact
  rw [if_neg hzero] at h
  have hpart : IsWholePart whole :=
    ⟨by simpa using hempty, hdigits, fun hhead => Nat.le_of_not_lt fun hlt => hzero ⟨hhead, hlt⟩⟩
  by_cases hpoint : after.head? = some '.'
  · obtain ⟨tail, rfl⟩ := List.head?_eq_some_iff.mp hpoint
    rw [if_pos hpoint] at h
    change (if (tail.takeWhile Char.isDigit).isEmpty = true then _ else _) = _ at h
    by_cases hnone : (tail.takeWhile Char.isDigit).isEmpty = true
    · rw [if_pos hnone] at h
      cases h
      cases hintact
    · have hsome : (tail.takeWhile Char.isDigit).isEmpty = false := by simpa using hnone
      rw [if_neg hnone, ← hsome, List.tail_cons] at h
      obtain ⟨spelled, hspelled, hlexeme⟩ :=
        spelled_of_exponentOf hpart (fun _ => List.mem_takeWhile_imp) h hintact
      refine ⟨spelled, ?_, hlexeme⟩
      rw [← hspelled, hcs, pointed, if_neg hnone]
      simp
  · rw [if_neg hpoint] at h
    have hfraction : ∀ c ∈ ([] : List Char), c.isDigit = true := List.forall_mem_nil _
    obtain ⟨spelled, hspelled, hlexeme⟩ :=
      spelled_of_exponentOf hpart hfraction (by simpa using h) hintact
    exact ⟨spelled, by simpa [hcs, pointed] using hspelled, hlexeme⟩

/-! ## Lexemes -/

/-- The rest of a fixed word has been found, or it breaks. -/
theorem eq_append_of_afterWord {found lexeme : Lexeme} {word cs rest : List Char}
    (h : afterWord found word cs = (lexeme, rest)) (hintact : lexeme.isIntact = true) :
    lexeme = found ∧ cs = word ++ rest := by
  fun_induction afterWord found word cs with
  | case1 rest =>
    cases h
    exact ⟨rfl, rfl⟩
  | case2 =>
    cases h
    cases hintact
  | case3 word c cs ih =>
    obtain ⟨hlexeme, rfl⟩ := ih h
    exact ⟨hlexeme, rfl⟩
  | case4 =>
    cases h
    cases hintact

/-- What has been read after a quote spells the text that was found, or it breaks. -/
theorem spelled_of_afterQuote {lexeme : Lexeme} {cs rest : List Char}
    (h : afterQuote cs = (lexeme, rest)) (hintact : lexeme.isIntact = true) :
    ∃ spelled, '"' :: cs = spelled ++ rest ∧ lexeme.Spelled spelled := by
  unfold afterQuote at h
  split at h
  · next pieces after hscan =>
    split at h
    · next content hjoin =>
      cases h
      obtain ⟨more, inner, rfl, rfl, hpieces⟩ := scanned_of_scanPieces hscan
      exact ⟨_, by simp, .text (charSpelled_of_joinPieces hpieces hjoin)⟩
    · cases h
      cases hintact
  · split at h <;> cases h <;> cases hintact

/-- What has been read as a lexeme spells it, or it breaks. -/
theorem spelled_of_scan {c : Char} {cs rest : List Char} {lexeme : Lexeme}
    (h : scan c cs = (lexeme, rest)) (hintact : lexeme.isIntact = true) :
    ∃ spelled, c :: cs = spelled ++ rest ∧ lexeme.Spelled spelled := by
  have word {found : Lexeme} {expected : List Char} (hfound : found.Spelled (c :: expected))
      (h : afterWord found expected cs = (lexeme, rest)) :
      ∃ spelled, c :: cs = spelled ++ rest ∧ lexeme.Spelled spelled := by
    obtain ⟨rfl, rfl⟩ := eq_append_of_afterWord h hintact
    exact ⟨c :: expected, rfl, hfound⟩
  unfold scan at h
  split at h
  · next mark hmark =>
    cases h
    exact ⟨[c], rfl, .mark hmark⟩
  · split_ifs at h with hquote hnull htrue hfalse hminus hdigit
    · subst hquote
      exact spelled_of_afterQuote h hintact
    · subst hnull
      exact word .null h
    · subst htrue
      exact word .true h
    · subst hfalse
      exact word .false h
    · subst hminus
      exact spelled_of_afterSign h hintact
    · obtain ⟨spelled, hspelled, hlexeme⟩ := spelled_of_afterSign h hintact
      exact ⟨spelled, hspelled, hlexeme⟩
    · cases h
      cases hintact

/-- A text that can be split without a break is spelled by its lexemes. -/
theorem laid_ofChars (cs : List Char) (hintact : ∀ lexeme ∈ ofChars cs, lexeme.isIntact = true) :
    Laid (ofChars cs) cs := by
  fun_induction ofChars cs with
  | case1 => exact .empty
  | case2 c cs hlayout ih =>
    have hfront : ∀ d ∈ [c], isLayout d = true := by simpa using hlayout
    exact Laid.layout hfront (ih hintact)
  | case3 c cs _ ih =>
    obtain ⟨hfirst, hothers⟩ := List.forall_mem_cons.mp hintact
    have hscan : scan c cs = ((scan c cs).1, (scan c cs).2) := rfl
    obtain ⟨spelled, hcs, hspelled⟩ := spelled_of_scan hscan hfirst
    rw [hcs]
    exact .next hspelled (ih hothers)

end Lexeme

end PeerCall.Json
