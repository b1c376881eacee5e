import Mathlib.Data.String.Basic
import Reckoner.Formula.Basic
import Reckoner.Proofs.Decimal.Notation
import Reckoner.Proofs.Token.Spelling
import Reckoner.Proofs.Yard.Failure

/-!
# What is scanned stands for something

Scanning and parsing look at the text of a token with different definitions. Scanning counts the digits
and the points of a number, parsing reads it as a literal; scanning knows functions by their names and
operators by their characters, parsing looks both up by their symbols. The two agree.

* Each token that a lexeme becomes **resolves** (`Token.resolves_of_isToken`), and a number as the
  decimal that its digits write, as long as its scale can be stored (`Token.numberOf_numeral`).
* So no text fails to compile because parsing finds nothing that a token stands for, or no tokens at all
  (`Formula.compile_resolved`).
-/

namespace Reckoner

/-! ## Tokens that lexemes become -/

namespace Token

open Lexeme

variable {lexeme : Lexeme} {run : List Char} {c : Char}

/-- The characters that are tokens by themselves are symbols of operators, or parentheses. -/
theorem resolves_symbol (h : (symbol c).IsToken) (previous : Option Kind) :
    Resolves ⟨(symbol c).kind previous, (symbol c).text⟩ := by
  simp only [IsToken, List.mem_cons, List.not_mem_nil, or_false] at h
  rcases h with rfl | rfl | rfl | rfl | rfl | rfl | rfl | rfl
  · trivial
  · trivial
  · exact ⟨.add, rfl⟩
  · -- a minus sign stands for an operator of either kind
    by_cases hdue : OperandDue previous
    · have hkind : (symbol '-').kind previous = .unary := by simp [Lexeme.kind, hdue]
      rw [hkind]
      exact ⟨.negate, rfl⟩
    · have hkind : (symbol '-').kind previous = .binary := by simp [Lexeme.kind, hdue]
      rw [hkind]
      exact ⟨.sub, rfl⟩
  · exact ⟨.mul, rfl⟩
  · exact ⟨.div, rfl⟩
  · exact ⟨.rem, rfl⟩
  · exact ⟨.pow, rfl⟩

/-- A number is read as the decimal that its digits write. -/
theorem numberOf_numeral (h : (numeral run).IsToken) (hlength : run.length < 2 ^ 63) :
    numberOf (numeral run).text = .ok (.inDigits (numeral run).text.toList) := by
  obtain ⟨hrun, hdigit, hpoints⟩ := h
  rw [numberOf_eq_ok, Decimal.ofString?, Lexeme.text, String.toList_ofList]
  exact Decimal.ofChars?_digits hrun hdigit hpoints hlength

/-- Names of functions and constants are found again. -/
theorem resolves_word (run : List Char) (previous : Option Kind) :
    Resolves ⟨(word run).kind previous, (word run).text⟩ := by
  rw [Lexeme.kind]
  split_ifs with hfunction hconstant
  · obtain ⟨op, hop⟩ := Option.isSome_iff_exists.mp (isSome_function?_iff.mpr hfunction)
    by_cases hminus : (word run).text = "-"
    · exact ⟨.negate, unaryOf_eq_ok.mpr (if_pos hminus)⟩
    · exact ⟨op, unaryOf_eq_ok.mpr ((if_neg hminus).trans hop)⟩
  · obtain ⟨constant, hc⟩ := Option.isSome_iff_exists.mp (isSome_ofName?_iff.mpr hconstant)
    exact ⟨constant.value, constantOf_eq_ok.mpr ⟨constant, hc, rfl⟩⟩
  · trivial

/-- **Every token resolves** that a lexeme becomes. -/
theorem resolves_of_isToken (h : lexeme.IsToken) (hlength : lexeme.chars.length < 2 ^ 63)
    (previous : Option Kind) : Resolves ⟨lexeme.kind previous, lexeme.text⟩ := by
  cases lexeme with
  | symbol c => exact resolves_symbol h previous
  | numeral run => exact ⟨_, numberOf_numeral h hlength⟩
  | word run => exact resolves_word run previous

/-- Number tokens are made of numerals. -/
theorem eq_numeral_of_kind {previous : Option Kind} (h : lexeme.kind previous = .number) :
    ∃ run, lexeme = numeral run := by
  cases lexeme with
  | symbol c =>
    rw [Lexeme.kind] at h
    split_ifs at h
  | numeral run => exact ⟨run, rfl⟩
  | word run =>
    rw [Lexeme.kind] at h
    split_ifs at h

/-! ## Tokens of a text -/

variable {text : String} {tokens : List Token}

/-- There are no more characters than bytes. -/
theorem length_le_utf8ByteSize (text : String) : text.toList.length ≤ text.utf8ByteSize := by
  rw [← String.utf8Len_toList]
  induction text.toList with
  | nil => exact Nat.le_refl 0
  | cons c rest ih =>
    have hsize := c.utf8Size_pos
    rw [List.length_cons, String.utf8Len_cons]
    omega

theorem scan_ne_nil (h : scan text = .ok tokens) : tokens ≠ [] := by
  obtain ⟨hne, -, rfl⟩ := scan_eq_ok_iff_cut.mp h
  rcases hcut : cut (normalForm text.toList) with _ | ⟨lexeme, rest⟩
  · exact absurd (cut_eq_nil_iff.mp hcut) hne
  · exact List.cons_ne_nil _ _

/-- The tokens of a text resolve, its numbers as the decimals that their digits write. -/
theorem resolves_of_scan (hsize : text.utf8ByteSize < 2 ^ 63) (h : scan text = .ok tokens) :
    ∀ t ∈ tokens, t.Resolves ∧
      (t.kind = .number → numberOf t.text = .ok (.inDigits t.text.toList)) := by
  intro t ht
  obtain ⟨lexeme, previous, hlexeme, htoken, rfl⟩ := exists_lexeme_of_scan h t ht
  have hlength : lexeme.chars.length < 2 ^ 63 :=
    calc
      lexeme.chars.length ≤ (normalForm text.toList).length := length_chars_le_of_mem_cut hlexeme
      _ ≤ text.toList.length := length_normalForm_le _
      _ ≤ text.utf8ByteSize := length_le_utf8ByteSize text
      _ < 2 ^ 63 := hsize
  refine ⟨resolves_of_isToken htoken hlength previous, fun hkind => ?_⟩
  obtain ⟨run, rfl⟩ := eq_numeral_of_kind hkind
  exact numberOf_numeral htoken hlength

/-! ## Errors -/

variable {due : Bool} {position : Nat} {lexemes : List Lexeme} {error : ParseError}

/-- A lexeme that is no token is a fault of the text. -/
theorem not_isUnresolved_of_ofLexeme (h : ofLexeme due position lexeme = .error error) :
    ¬ error.IsUnresolved := by
  cases lexeme with
  | symbol c =>
    rw [ofLexeme, ofSymbol] at h
    split_ifs at h
    cases h
    exact id
  | numeral run =>
    rw [ofLexeme, ofNumeral] at h
    split_ifs at h
    cases h
    exact id
  | word run =>
    simp only [ofLexeme, ofWord] at h
    split_ifs at h
    cases h
    exact id

theorem not_isUnresolved_of_ofLexemes (h : ofLexemes due position lexemes = .error error) :
    ¬ error.IsUnresolved := by
  induction lexemes generalizing due position with
  | nil => cases h
  | cons lexeme rest ih =>
    rcases bind_eq_error.mp h with hlexeme | ⟨t, -, hrest⟩
    · exact not_isUnresolved_of_ofLexeme hlexeme
    · rcases bind_eq_error.mp hrest with hrest | ⟨others, -, htokens⟩
      · exact ih hrest
      · cases htokens

theorem not_isUnresolved_of_scan (h : scan text = .error error) : ¬ error.IsUnresolved := by
  rw [scan] at h
  split at h
  · cases h
    exact id
  · exact not_isUnresolved_of_ofLexemes h

end Token

/-- Tokens that resolve are refused for how they are put together. -/
theorem Expr.not_isUnresolved_of_ofTokens {tokens : List Token} {error : ParseError}
    (hne : tokens ≠ []) (hresolves : ∀ t ∈ tokens, t.Resolves) (h : ofTokens tokens = .error error) :
    ¬ error.IsUnresolved := by
  rcases ofTokens_eq_error_cases hne hresolves h with ⟨operator, rfl⟩ | ⟨position, rfl⟩ | ⟨count, rfl⟩
  · exact id
  · exact id
  · exact id

namespace Formula

/-- **Scanning and parsing agree**: no text fails to compile for want of tokens or because a token
stands for nothing. What is scanned is not empty, and all of it resolves, numbers as the decimals that
their digits write. -/
theorem compile_resolved (text : String) (hsize : text.utf8ByteSize < 2 ^ 63) :
    (∀ error, compile text = .error error → ¬ error.IsUnresolved) ∧
    ∀ tokens, Token.scan text = .ok tokens → tokens ≠ [] ∧ ∀ t ∈ tokens, t.Resolves ∧
      (t.kind = .number → Token.numberOf t.text = .ok (.inDigits t.text.toList)) := by
  constructor
  · intro error h
    rcases bind_eq_error.mp h with hscan | ⟨tokens, hscan, hrest⟩
    · exact Token.not_isUnresolved_of_scan hscan
    · have hresolves := Token.resolves_of_scan hsize hscan
      rcases bind_eq_error.mp hrest with hparse | ⟨root, -, hformula⟩
      · exact Expr.not_isUnresolved_of_ofTokens (Token.scan_ne_nil hscan)
          (fun t ht => (hresolves t ht).1) hparse
      · cases hformula
  · intro tokens hscan
    exact ⟨Token.scan_ne_nil hscan, Token.resolves_of_scan hsize hscan⟩

/-- Zeros in front of a number and a point at either end of it are read as they are written. -/
theorem compile_resolved_points :
    "007.50+.5*sqrt(5.)-e".utf8ByteSize < 2 ^ 63 ∧ Token.numberOf "007.50" = .ok ⟨750, 2⟩ ∧
      Token.numberOf ".5" = .ok ⟨5, 1⟩ ∧ Token.numberOf "5." = .ok ⟨5, 0⟩ := by
  have hsize : "007.50+.5*sqrt(5.)-e".utf8ByteSize < 2 ^ 63 := by decide
  have hscan : Token.scan "007.50+.5*sqrt(5.)-e" = .ok [⟨.number, "007.50"⟩, ⟨.binary, "+"⟩,
      ⟨.number, ".5"⟩, ⟨.binary, "*"⟩, ⟨.unary, "sqrt"⟩, ⟨.opening, "("⟩, ⟨.number, "5."⟩,
      ⟨.closing, ")"⟩, ⟨.binary, "-"⟩, ⟨.constant, "e"⟩] := by decide
  obtain ⟨-, hresolves⟩ := (compile_resolved _ hsize).2 _ hscan
  refine ⟨hsize, ?_, ?_, ?_⟩
  · exact (hresolves ⟨.number, "007.50"⟩ (by decide)).2 rfl
  · exact (hresolves ⟨.number, ".5"⟩ (by decide)).2 rfl
  · exact (hresolves ⟨.number, "5."⟩ (by decide)).2 rfl

end Formula

end Reckoner
