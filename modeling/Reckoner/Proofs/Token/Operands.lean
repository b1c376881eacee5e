import Reckoner.Proofs.Decimal.Notation
import Reckoner.Proofs.Letter.Lowering
import Reckoner.Proofs.Token.Scans
import Reckoner.Proofs.Token.Spelling
import Reckoner.Proofs.Yard.Conservation

/-!
# Tokens of operands

What the operands of a scanned text can be, and how operands scan.

* A number token is a text of digits and points, and a variable is a **name**: a letter that is its
  own lower-case form and names neither a function nor a constant (`Token.IsName`). So the leaves of
  an expression that has been parsed from a text are numbers without a sign and names
  (`Expr.isScanned_of_mem_leaves`).
* Names scan as themselves, and so do texts in digits (`Token.scans_name`, `Token.scans_plain`). A
  text in scientific notation does not: its exponent mark scans as the **constant** `e`, and its
  exponent is subtracted from it (`Token.scans_scientific`).
-/

namespace Reckoner

/-! ## What scanned operands are -/

namespace Token

open Lexeme

/-- The name of a variable. -/
def IsName (name : String) : Prop :=
  ∃ c, name = String.ofList [c] ∧ Letter.isLetter c ∧ Letter.lowerCase [c] = [c] ∧
    UnaryOp.function? name = none ∧ Constant.ofName? name = none

/-- The text of an operand token is what scanning gives it. -/
def IsSpelt (t : Token) : Prop :=
  match t.kind with
  | .number => ∀ c ∈ t.text.toList, isNumeral c
  | .letter => IsName t.text
  | _ => True

variable {lexeme : Lexeme} {tokens : List Token}

/-- What a lexeme becomes is spelt as it should be. -/
theorem isSpelt_of_isToken (h : lexeme.IsToken) (previous : Option Kind) :
    IsSpelt ⟨lexeme.kind previous, lexeme.text⟩ := by
  cases lexeme with
  | symbol c =>
    rw [Lexeme.kind]
    split_ifs <;> trivial
  | numeral run => simpa [IsSpelt, Lexeme.kind, Lexeme.text, isNumeral] using h.1
  | word run =>
    rw [Lexeme.kind]
    split_ifs with hfunction hconstant
    · trivial
    · trivial
    · -- only a name that is neither a function nor a constant is left
      obtain ⟨hrun, hname⟩ := h
      have hlength := (hname.resolve_left hfunction).resolve_left hconstant
      rw [Lexeme.text, String.length_ofList] at hlength
      obtain ⟨c, hc⟩ := List.length_eq_one_iff.mp hlength
      obtain ⟨hletter, hsettled⟩ := Letter.lowerCase_settled hrun hc
      refine ⟨c, by rw [Lexeme.text, hc], hletter, hsettled, ?_, ?_⟩
      · simpa [← isSome_function?_iff] using hfunction
      · simpa [← isSome_ofName?_iff] using hconstant

/-- The operand tokens of a text are texts in digits and names. -/
theorem isSpelt_of_scan {text : String} (h : scan text = .ok tokens) : ∀ t ∈ tokens, t.IsSpelt := by
  intro t ht
  obtain ⟨lexeme, previous, -, htoken, rfl⟩ := exists_lexeme_of_scan h t ht
  exact isSpelt_of_isToken htoken previous

end Token

/-- A leaf that a token of a text can stand for. -/
def Leaf.IsScanned : Leaf → Prop
  | number value => 0 ≤ value.unscaled ∧ 0 ≤ value.scale ∧ value.scale < 2 ^ 63
  | letter name => Token.IsName name

theorem Token.isScanned_leaf? {t : Token} {leaf : Leaf} (hspelt : t.IsSpelt)
    (h : t.leaf? = some leaf) : leaf.IsScanned := by
  obtain ⟨kind, text⟩ := t
  cases kind with
  | number =>
    obtain ⟨value, hvalue, rfl⟩ := Option.map_eq_some_iff.mp h
    refine Decimal.nonnegative_of_ofChars? (fun c hc => ?_) hvalue
    simpa [Lexeme.isNumeral] using hspelt c hc
  | constant =>
    obtain ⟨constant, -, rfl⟩ := Option.map_eq_some_iff.mp h
    cases constant <;> exact ⟨by decide, by decide, by decide⟩
  | letter =>
    cases h
    exact hspelt
  | _ => cases h

/-- The leaves of an expression that has been parsed from a text. -/
theorem Expr.isScanned_of_mem_leaves {text : String} {tokens : List Token} {e : Expr}
    (hscan : Token.scan text = .ok tokens) (hparse : Expr.ofTokens tokens = .ok e) :
    ∀ leaf ∈ e.leaves, leaf.IsScanned := by
  intro leaf hleaf
  rw [(Expr.conserved_of_ofTokens hparse).1, List.mem_filterMap] at hleaf
  obtain ⟨t, ht, hleaf⟩ := hleaf
  exact Token.isScanned_leaf? (Token.isSpelt_of_scan hscan t ht) hleaf

/-! ## How operands scan -/

namespace Token

open Lexeme

/-- Letters are neither blanks nor commas. -/
theorem keeps_of_isLetter {c : Char} (h : Letter.isLetter c) : isBlank c = false ∧ c ≠ ',' := by
  have hother (d : Char) (hd : d.toNat < 'A'.toNat) : c ≠ d := ne_of_isLetter h hd
  refine ⟨?_, hother ',' (by decide)⟩
  simp [isBlank, hother ' ' (by decide), hother '\t' (by decide), hother '\n' (by decide),
    hother '\x0B' (by decide), hother '\x0C' (by decide), hother '\r' (by decide)]

/-- A letter by itself is cut off as a word. -/
theorem cut_letter {c : Char} (h : Letter.isLetter c) : cut (normalForm [c]) = [.word [c]] := by
  have hnormal : normalForm [c] = [c] := by
    refine normalForm_eq_self fun d hd => ?_
    obtain rfl := List.mem_singleton.mp hd
    exact keeps_of_isLetter h
  rw [hnormal, cut_cons, ← ofChar_of_isLetter h]
  exact attach_nil c

/-- A name scans as the variable that it names. -/
theorem scans_name {name : String} (h : IsName name) (due : Bool) :
    Scans due name.toList [⟨.letter, name⟩] := by
  obtain ⟨c, rfl, hletter, hsettled, hfunction, hconstant⟩ := h
  have hword (position : Nat) : ofWord position [c] = .ok ⟨.letter, String.ofList [c]⟩ := by
    simp only [ofWord, hsettled, hfunction, hconstant]
    rfl
  intro position
  rw [String.toList_ofList, cut_letter hletter, ofLexemes, ofLexeme, hword]
  rfl

/-- The characters of a text in digits. -/
theorem isNumeral_of_isPlain {run : List Char} (h : Decimal.IsPlain run) :
    (∀ c ∈ run, isNumeral c) ∧ run.count '.' ≤ 1 ∧ run.any Char.isDigit := by
  have hnumeral : ∀ c ∈ run, isNumeral c := by
    intro c hc
    simpa [isNumeral] using h.digits_or_point c hc
  have hcount {row : List Char} (hrow : Decimal.IsRow row) : row.count '.' = 0 := by
    rw [List.count_eq_zero]
    intro hpoint
    exact absurd (hrow '.' hpoint) Bool.false_ne_true
  have hany {row : List Char} (hrow : Decimal.IsRow row) (hne : row ≠ []) :
      row.any Char.isDigit := by
    obtain ⟨c, rest, rfl⟩ := List.exists_cons_of_ne_nil hne
    simp [hrow c (List.mem_cons_self ..)]
  refine ⟨hnumeral, ?_⟩
  cases h with
  | row hrow hne => exact ⟨by rw [hcount hrow]; decide, hany hrow hne⟩
  | point hwhole hfraction hne =>
    refine ⟨?_, ?_⟩
    · simp [hcount hwhole, hcount hfraction]
    · rw [List.any_append, hany hwhole hne]
      rfl

/-- Digits and points are neither blanks nor commas. -/
theorem keeps_of_isNumeral {c : Char} (h : isNumeral c) : isBlank c = false ∧ c ≠ ',' := by
  rw [isNumeral, Bool.or_eq_true, decide_eq_true_eq] at h
  rcases h with hdigit | rfl
  · have hne (d : Char) (hd : d.isDigit = false) : c ≠ d := Decimal.ne_of_isDigit hdigit hd
    simp [isBlank, hne ' ' rfl, hne '\t' rfl, hne '\n' rfl, hne '\x0B' rfl, hne '\x0C' rfl,
      hne '\r' rfl, hne ',' rfl]
  · decide

/-- Digits and points are their own normal form. -/
theorem normalForm_numeral {run : List Char} (h : ∀ c ∈ run, isNumeral c) :
    normalForm run = run := normalForm_eq_self fun c hc => keeps_of_isNumeral (h c hc)

/-- A run of digits and points scans as a number if it is a text in digits. -/
theorem ofNumeral_plain {run : List Char} (h : Decimal.IsPlain run) (position : Nat) :
    ofNumeral position run = .ok ⟨.number, String.ofList run⟩ := by
  obtain ⟨-, hcount, hany⟩ := isNumeral_of_isPlain h
  refine if_neg ?_
  rintro (hpoints | hdigits)
  · exact absurd hcount (Nat.not_le_of_lt hpoints)
  · exact hdigits hany

/-- A text in digits scans as a number. -/
theorem scans_plain {run : List Char} (h : Decimal.IsPlain run) (due : Bool) :
    Scans due run [⟨.number, String.ofList run⟩] := by
  obtain ⟨hnumeral, -, -⟩ := isNumeral_of_isPlain h
  have hcut : cut run = [.numeral run] := by
    have happend : cut (run ++ []) = .numeral run :: cut [] :=
      cut_run_append (.inl rfl) (fun c hc => ofChar_of_isNumeral (hnumeral c hc)) h.ne_nil nofun
    rwa [List.append_nil] at happend
  intro position
  rw [normalForm_numeral hnumeral, hcut, ofLexemes, ofLexeme, ofNumeral_plain h]
  rfl

/-- A text in scientific notation scans as a difference. -/
theorem scans_scientific {mantissa exponent : List Char} (hmantissa : Decimal.IsPlain mantissa)
    (hexponent : Decimal.IsPlain exponent) (due : Bool) :
    Scans due (mantissa ++ 'E' :: '-' :: exponent)
      [⟨.number, String.ofList mantissa⟩, ⟨.constant, "e"⟩, ⟨.binary, "-"⟩,
        ⟨.number, String.ofList exponent⟩] := by
  obtain ⟨hnumeral, -, -⟩ := isNumeral_of_isPlain hmantissa
  have hcut : cut (mantissa ++ ['E']) = [.numeral mantissa, .word ['E']] :=
    cut_run_append (.inl rfl) (fun c hc => ofChar_of_isNumeral (hnumeral c hc)) hmantissa.ne_nil
      (by rintro _ ⟨⟩; exact Bool.false_ne_true)
  have hmark : Scans due (mantissa ++ ['E'])
      [⟨.number, String.ofList mantissa⟩, ⟨.constant, "e"⟩] := by
    intro position
    rw [normalForm_append, normalForm_numeral hnumeral, show normalForm ['E'] = ['E'] from rfl, hcut,
      ofLexemes, ofLexeme, ofNumeral_plain hmantissa]
    rfl
  -- behind the constant no operand is due, so the minus sign subtracts
  have hexponent : Scans true exponent [⟨.number, String.ofList exponent⟩] :=
    scans_plain hexponent true
  have hminus := hmark.symbol (c := '-') ⟨rfl, rfl⟩ rfl hexponent
  simpa using hminus

end Token

end Reckoner
