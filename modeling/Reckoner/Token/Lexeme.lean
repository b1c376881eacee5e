import Reckoner.Letter.Basic

/-!
# Lexemes

The text of an expression is first brought to its **normal form** (`Lexeme.normalForm`): blanks are
dropped, wherever they stand, and a comma is a decimal point. The normal form is then **cut** into
lexemes (`Lexeme.cut`): the longest possible runs of digits and points, the longest possible runs of
letters, and all other characters one by one.
-/

namespace Reckoner

/-- A piece of text that becomes one token. -/
inductive Lexeme where
  /-- a character that is part of no run -/
  | symbol (c : Char)
  /-- a run of digits and points -/
  | numeral (run : List Char)
  /-- a run of letters -/
  | word (run : List Char)
  deriving DecidableEq, Repr

namespace Lexeme

/-! ## Normal form -/

/-- The characters that carry no meaning. -/
def isBlank (c : Char) : Bool :=
  c = ' ' || c = '\t' || c = '\n' || c = '\x0B' || c = '\x0C' || c = '\r'

/-- The text without blanks and with points for commas. -/
def normalForm (text : List Char) : List Char :=
  (text.filter (! isBlank ·)).map fun c => if c = ',' then '.' else c

/-! ## Cutting -/

/-- The characters of numerals. -/
def isNumeral (c : Char) : Bool := c.isDigit || c = '.'

/-- The lexeme of a single character. -/
def ofChar (c : Char) : Lexeme :=
  if isNumeral c then numeral [c] else if Letter.isLetter c then word [c] else symbol c

/-- Puts a character in front of a text that has been cut already: it joins the first lexeme if the
two are parts of one run. -/
def attach (c : Char) (lexemes : List Lexeme) : List Lexeme :=
  match ofChar c, lexemes with
  | numeral _, numeral run :: rest => numeral (c :: run) :: rest
  | word _, word run :: rest => word (c :: run) :: rest
  | lexeme, rest => lexeme :: rest

/-- The lexemes of a text in normal form. -/
def cut (text : List Char) : List Lexeme := text.foldr attach []

/-- The characters of a lexeme. -/
def chars : Lexeme → List Char
  | symbol c => [c]
  | numeral run => run
  | word run => run

@[simp] theorem chars_ofChar (c : Char) : (ofChar c).chars = [c] := by
  unfold ofChar
  split
  · rfl
  · split <;> rfl

theorem flatMap_chars_attach (c : Char) (lexemes : List Lexeme) :
    (attach c lexemes).flatMap chars = c :: lexemes.flatMap chars := by
  have single := chars_ofChar c
  unfold attach
  split <;> simp_all [chars]

/-- **Nothing is lost**: the lexemes of a text, put together again, are the text. -/
theorem flatMap_chars_cut (text : List Char) : (cut text).flatMap chars = text := by
  induction text with
  | nil => rfl
  | cons c rest ih => rw [cut, List.foldr_cons, flatMap_chars_attach, ← cut, ih]

end Lexeme

end Reckoner
