import TouchAutomata.Json.Reader
import TouchAutomata.Json.Writer
import Mathlib.Tactic.SplitIfs

/-!
# Strings that were written

A character is written as it is, behind a backslash, or by its number; each of these is read as one
piece (`readPieces_escape`), and the pieces of a text give the text (`chars?_map_piece`). So a
string is read back whatever its characters are, and so is one without a text (`readString_quoted`).
-/

set_option autoImplicit false

namespace TouchAutomata.Json

variable {c : Char} {rest : List Char}

/-- Whether a character is written by its number. -/
def isNumbered (c : Char) : Bool :=
  c.toNat < 0x20 && !(c = '\x08' || c = '\t' || c = '\n' || c = '\x0c' || c = '\r')

/-- What a written character is read as. -/
def piece (c : Char) : Piece := if isNumbered c then .codeUnit c.toNat else .char c

/-- A hexadecimal digit is read as its value. -/
theorem hexValue?_hexDigit {n : Nat} (h : n < 16) : hexValue? (hexDigit n) = some n := by
  have hall : ∀ n < 16, hexValue? (hexDigit n) = some n := by decide
  exact hall n h

/-- A character that is written behind a backslash is read as itself. -/
theorem readPieces_backslash (d e : Char) (hd : d ≠ 'u') (he : unescape? d = some e) :
    readPieces .outside ('\\' :: d :: rest) =
      (readPieces .outside rest).map (consPiece (.char e)) := by
  simp [readPieces, hd, he]

/-- A control character that is written by its number is read as a code unit. -/
theorem readPieces_numbered {n : Nat} (h : n < 0x20) :
    readPieces .outside
        ('\\' :: 'u' :: '0' :: '0' :: hexDigit (n / 16) :: hexDigit (n % 16) :: rest) =
      (readPieces .outside rest).map (consPiece (.codeUnit n)) := by
  have hzero : hexValue? '0' = some 0 := by decide
  have hvalue : 16 * (n / 16) + n % 16 = n := Nat.div_add_mod n 16
  simp [readPieces, hzero, hexValue?_hexDigit (show n / 16 < 16 by omega),
    hexValue?_hexDigit (show n % 16 < 16 by omega), hvalue]

/-- A written character is read as one piece. -/
theorem readPieces_escape (c : Char) (rest : List Char) :
    readPieces .outside (escape c ++ rest) =
      (readPieces .outside rest).map (consPiece (piece c)) := by
  by_cases hnumbered : isNumbered c = true
  · simp only [isNumbered, Bool.and_eq_true, Bool.not_eq_true', Bool.or_eq_false_iff,
      decide_eq_true_eq, decide_eq_false_iff_not] at hnumbered
    obtain ⟨hsmall, hnone⟩ := hnumbered
    have hquote : c ≠ '"' := by
      rintro rfl
      exact absurd hsmall (by decide)
    have hbackslash : c ≠ '\\' := by
      rintro rfl
      exact absurd hsmall (by decide)
    have hpiece : piece c = .codeUnit c.toNat := by simp [piece, isNumbered, hsmall, hnone]
    have hescape : escape c =
        ['\\', 'u', '0', '0', hexDigit (c.toNat / 16), hexDigit (c.toNat % 16)] := by
      simp [escape, hquote, hbackslash, hnone, hsmall]
    rw [hpiece, hescape]
    exact readPieces_numbered hsmall
  · have hpiece : piece c = .char c := if_neg hnumbered
    rw [hpiece]
    unfold escape
    split_ifs with hquote hbackslash hb ht hn hf hr hsmall
    · subst hquote
      exact readPieces_backslash '"' '"' (by decide) rfl
    · subst hbackslash
      exact readPieces_backslash '\\' '\\' (by decide) rfl
    · subst hb
      exact readPieces_backslash 'b' '\x08' (by decide) rfl
    · subst ht
      exact readPieces_backslash 't' '\t' (by decide) rfl
    · subst hn
      exact readPieces_backslash 'n' '\n' (by decide) rfl
    · subst hf
      exact readPieces_backslash 'f' '\x0c' (by decide) rfl
    · subst hr
      exact readPieces_backslash 'r' '\r' (by decide) rfl
    · exact absurd (by simp [isNumbered, hsmall, hb, ht, hn, hf, hr]) hnumbered
    · simp [readPieces, hquote, hbackslash, hsmall]

/-- Written characters are read as one piece each, up to the closing quote. -/
theorem readPieces_flatMap_escape (cs rest : List Char) :
    readPieces .outside (cs.flatMap escape ++ '"' :: rest) = some (cs.map piece, rest) := by
  induction cs with
  | nil => simp [readPieces]
  | cons c cs ih =>
    rw [List.flatMap_cons, List.append_assoc, readPieces_escape, ih]
    rfl

/-- A code unit that is no half of a surrogate pair gives the character with its number. -/
theorem chars?_codeUnit {n : Nat} (hlow : isLowSurrogate n = false)
    (hhigh : isHighSurrogate n = false) (ps : List Piece) :
    chars? (.codeUnit n :: ps) = (chars? ps).map (Char.ofNat n :: ·) := by
  rw [chars?.eq_def]
  simp [hlow, hhigh]

/-- The pieces of a text give the text: none of them is half of a surrogate pair. -/
theorem chars?_map_piece (cs : List Char) : chars? (cs.map piece) = some cs := by
  induction cs with
  | nil => rfl
  | cons c cs ih =>
    rw [List.map_cons]
    by_cases hnumbered : isNumbered c = true
    · have hpiece : piece c = .codeUnit c.toNat := if_pos hnumbered
      simp only [isNumbered, Bool.and_eq_true, decide_eq_true_eq] at hnumbered
      have hlow : isLowSurrogate c.toNat = false := by
        rw [isLowSurrogate, Bool.and_eq_false_iff, decide_eq_false_iff_not]
        omega
      have hhigh : isHighSurrogate c.toNat = false := by
        rw [isHighSurrogate, Bool.and_eq_false_iff, decide_eq_false_iff_not]
        omega
      rw [hpiece, chars?_codeUnit hlow hhigh, ih, Char.ofNat_toNat]
      rfl
    · have hpiece : piece c = .char c := if_neg hnumbered
      rw [hpiece, chars?, ih]
      rfl

/-- What follows the opening quote of a written string. -/
def quotedTail : Option String → List Char
  | some s => s.toList.flatMap escape ++ ['"']
  | none => ['\\', 'u', 'd', '8', '0', '0', '"']

/-- A written string begins with a quote. -/
theorem quoted_eq_cons (t : Option String) : quoted t = '"' :: quotedTail t := by
  cases t with
  | none => exact String.toList_ofList
  | some s => rfl

/-- A written string is read back. -/
theorem readString_quoted (t : Option String) (rest : List Char) :
    readString (quotedTail t ++ rest) = some (t, rest) := by
  cases t with
  | none => rfl
  | some s =>
    rw [quotedTail, List.append_assoc, List.singleton_append, readString,
      readPieces_flatMap_escape]
    simp [chars?_map_piece]

end TouchAutomata.Json
