import Reckoner.Proofs.Token.Parentheses
import Reckoner.Proofs.Yard.Failure

/-!
# What the errors of a run say

The errors about parentheses and about operands that are left over say something about the tokens
alone, whatever operators have acted before the error was found, and whatever the texts of the
tokens stand for (`Expr.ofTokens_diagnosis`).

* The groups that are pending are the parentheses that are open, so a parenthesis that is closed
  while no group is pending has no partner, and it is the **first** of its kind, or the run would have
  ended before (`Yard.readFrom_eq_error_cases`).
* A group that is found pending at the end is the **newest** one, so it is the last that has no
  partner.
* If operands are left over, every operator has acted, and the operands are **counted off** against
  the binary operators (`Yard.length_add_binaries`).
-/

namespace Reckoner

variable {tokens : List Token} {t : Token} {error : ParseError}

namespace Yard

variable {index : Nat} {yard : Yard}

/-! ## Where a run ends -/

/-- A token that stands for nothing is refused for that. -/
theorem isUnresolved_of_read (hno : ¬ t.Resolves) (h : yard.read index t = .error error) :
    error.IsUnresolved := by
  obtain ⟨kind, text⟩ := t
  cases kind with
  | letter => exact absurd trivial hno
  | opening => exact absurd trivial hno
  | closing => exact absurd trivial hno
  | number =>
    rcases bind_eq_error.mp h with hfault | ⟨value, hvalue, -⟩
    · rw [Token.numberOf] at hfault
      split at hfault <;> cases hfault
      trivial
    · exact absurd ⟨value, hvalue⟩ hno
  | constant =>
    rcases bind_eq_error.mp h with hfault | ⟨value, hvalue, -⟩
    · rw [Token.constantOf] at hfault
      split at hfault <;> cases hfault
      trivial
    · exact absurd ⟨value, hvalue⟩ hno
  | unary =>
    rcases bind_eq_error.mp h with hfault | ⟨op, hop, -⟩
    · rw [Token.unaryOf] at hfault
      split at hfault <;> cases hfault
      trivial
    · exact absurd ⟨op, hop⟩ hno
  | binary =>
    rcases bind_eq_error.mp h with hfault | ⟨op, hop, -⟩
    · rw [Token.binaryOf] at hfault
      split at hfault <;> cases hfault
      trivial
    · exact absurd ⟨op, hop⟩ hno

/-- **Reading fails** for want of operands, for a text that stands for nothing, or at the first
parenthesis that closes while none is open. -/
theorem readFrom_eq_error_cases (h : yard.readFrom index tokens = .error error) :
    error.IsShortage ∨ error.IsUnresolved ∨
      ∃ front t back, tokens = front ++ t :: back ∧ t.kind = .closing ∧
        error = .unmatchedParenthesis (index + front.length) ∧
        Token.unclosed index (openings yard.pending) front = some [] := by
  induction tokens generalizing yard index with
  | nil => cases h
  | cons t rest ih =>
    rcases bind_eq_error.mp h with ht | ⟨between, ht, hrest⟩
    · by_cases hresolves : t.Resolves
      · refine (read_eq_error hresolves ht).imp_right fun hclosing => .inr ?_
        obtain ⟨rfl, hnone⟩ := hclosing
        obtain ⟨hkind, hopen⟩ := Token.openAfter_eq_none hnone
        exact ⟨[], t, rest, rfl, hkind, rfl, congrArg some hopen⟩
      · exact .inr (.inl (isUnresolved_of_read hresolves ht))
    · refine (ih hrest).imp_right (.imp_right ?_)
      rintro ⟨front, last, back, rfl, hkind, rfl, hopen⟩
      refine ⟨t :: front, last, back, rfl, hkind, ?_, ?_⟩
      · rw [List.length_cons, Nat.add_assoc, Nat.add_comm 1]
      · rwa [Token.unclosed, openAfter_of_step (step_of_read ht), Option.bind_some]

end Yard

namespace Expr

/-! ## What the errors say -/

/-- A run that is refused ends while it reads or with its result. -/
theorem ofTokens_eq_error_run (hne : tokens ≠ []) (h : ofTokens tokens = .error error) :
    Yard.empty.readFrom 0 tokens = .error error ∨
      ∃ yard, Yard.empty.readFrom 0 tokens = .ok yard ∧ yard.result = .error error := by
  obtain ⟨t, rest, rfl⟩ := List.exists_cons_of_ne_nil hne
  exact bind_eq_error.mp h

/-- An error about a parenthesis points at the first one that closes without a partner, or else at the
last one that opens without a partner. -/
theorem unpaired_of_ofTokens {position : Nat}
    (h : ofTokens tokens = .error (.unmatchedParenthesis position)) :
    Token.FirstUnopened tokens position ∨ Token.LastUnclosed tokens position := by
  have hne : tokens ≠ [] := by
    rintro rfl
    cases h
  rcases ofTokens_eq_error_run hne h with hread | ⟨yard, hread, hresult⟩
  · rcases Yard.readFrom_eq_error_cases hread with
      ⟨operator, hshort⟩ | hunresolved | ⟨front, t, back, rfl, hkind, hposition, hopen⟩
    · cases hshort
    · cases hunresolved
    · have hfront : Token.Nested front := Token.nested_iff_balanced.mpr hopen
      obtain rfl : position = front.length := by simpa using hposition
      exact .inl (hfront.firstUnopened hkind back)
  · rcases Yard.result_eq_error hresult with
      ⟨operator, hshort⟩ | ⟨newest, older, hnewest, hopen⟩ | ⟨operators, operands, -, -, -, hleft⟩
    · cases hshort
    · cases hnewest
      have hunclosed := Yard.unclosed_of_readFrom hread
      rw [hopen] at hunclosed
      exact .inr (Token.leavesOpen_of_unclosed hunclosed).lastUnclosed
    · cases hleft

/-- Where operands are left over, the parentheses have partners, and the operands are as many more
than the binary operators as are left over. -/
theorem counted_of_ofTokens {count : Nat} (h : ofTokens tokens = .error (.leftoverOperands count)) :
    Token.Nested tokens ∧ count ≠ 1 ∧
      (count : Int) = tokens.countP (·.kind.isLeaf) - tokens.countP (·.kind = .binary) := by
  have hne : tokens ≠ [] := by
    rintro rfl
    cases h
  rcases ofTokens_eq_error_run hne h with hread | ⟨yard, hread, hresult⟩
  · rcases Yard.readFrom_eq_error_cases hread with
      ⟨operator, hshort⟩ | hunresolved | ⟨front, t, back, -, -, hposition, -⟩
    · cases hshort
    · cases hunresolved
    · cases hposition
  · rcases Yard.result_eq_error hresult with
      ⟨operator, hshort⟩ | ⟨newest, older, hnewest, -⟩ | ⟨operators, operands, hrow, hs, hone, hleft⟩
    · cases hshort
    · cases hnewest
    · cases hleft
      have hcount := Yard.length_add_binaries hread hrow hs
      have hopen := Yard.unclosed_of_readFrom hread
      rw [hrow, ← List.append_nil (Yard.row operators), Yard.openings_row] at hopen
      exact ⟨Token.nested_iff_balanced.mpr hopen, hone, by omega⟩

/-- **Errors tell the truth.** If a parenthesis is reported, it is the first that closes without a
partner, or, where all that close have partners, the last that opens without one. If operands are
reported to be left over, then all parentheses have partners, and so many operands more than binary
operators are there, other than one. And without a partner for every parenthesis there is an
error. -/
theorem ofTokens_diagnosis (tokens : List Token) :
    (∀ position, ofTokens tokens = .error (.unmatchedParenthesis position) →
      Token.FirstUnopened tokens position ∨ Token.LastUnclosed tokens position) ∧
    (∀ count, ofTokens tokens = .error (.leftoverOperands count) →
      Token.Nested tokens ∧ count ≠ 1 ∧
        (count : Int) = tokens.countP (·.kind.isLeaf) - tokens.countP (·.kind = .binary)) ∧
    (¬ Token.Nested tokens → ∃ error, ofTokens tokens = .error error) := by
  refine ⟨fun _ => unpaired_of_ofTokens, fun _ => counted_of_ofTokens, fun hunpaired => ?_⟩
  rcases hparse : ofTokens tokens with error | e
  · exact ⟨error, rfl⟩
  · exact absurd (Token.nested_iff_balanced.mpr (balanced_of_ofTokens hparse)) hunpaired

/-- Of three groups the innermost is closed, so the one around it is reported; a group that is closed
but not opened is reported before one that is opened behind it; two operands without an operator are
counted; and a group that is not closed is an error. -/
theorem ofTokens_diagnosis_inner :
    Token.LastUnclosed [⟨.opening, "("⟩, ⟨.opening, "("⟩, ⟨.opening, "("⟩, ⟨.number, "2"⟩,
        ⟨.closing, ")"⟩] 1 ∧
      Token.FirstUnopened [⟨.number, "2"⟩, ⟨.closing, ")"⟩, ⟨.closing, ")"⟩, ⟨.opening, "("⟩] 1 ∧
      Token.Nested [⟨.letter, "x"⟩, ⟨.opening, "("⟩, ⟨.letter, "y"⟩, ⟨.closing, ")"⟩] ∧
      ∃ error, ofTokens [⟨.opening, "("⟩, ⟨.letter, "x"⟩] = .error error := by
  refine ⟨?_, ?_, ?_, ?_⟩
  · refine ((ofTokens_diagnosis _).1 1 (by decide)).resolve_left fun h => ?_
    obtain ⟨t, ht, hkind⟩ := h.closing
    cases ht
    cases hkind
  · refine ((ofTokens_diagnosis _).1 1 (by decide)).resolve_right fun h => ?_
    obtain ⟨t, ht, hkind⟩ := h.opening
    cases ht
    cases hkind
  · exact ((ofTokens_diagnosis _).2.1 2 (by decide)).1
  · exact (ofTokens_diagnosis _).2.2 (by decide)

end Expr

end Reckoner
