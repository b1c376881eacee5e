import Reckoner.Proofs.Yard.Operators

/-!
# How parsing fails

Tokens whose texts stand for something are refused for three reasons only
(`Expr.ofTokens_eq_error_cases`).

* An operator acts and finds **too few operands** (`ParseError.IsShortage`).
* A parenthesis has **no partner**. The groups that are pending are those that are open
  (`Yard.openAfter_of_step`), so this happens only to tokens whose parentheses are not balanced.
* Other than **one operand** is left at the end.

For tokens whose parentheses are balanced, the second reason falls away (`Expr.ofTokens_eq_error`).
-/

namespace Reckoner

/-- An operator has found too few operands. -/
def ParseError.IsShortage (error : ParseError) : Prop :=
  ∃ operator, error = .missingOperand operator

/-- The errors of tokens whose texts stand for nothing, and of a list without tokens. -/
def ParseError.IsUnresolved : ParseError → Prop
  | noTokens => True
  | invalidNumber _ => True
  | unknownOperator _ => True
  | unknownConstant _ => True
  | _ => False

/-- The position of the parenthesis that is pending. -/
def Pending.group? : Pending → Option Nat
  | group token => some token
  | operator _ => none

namespace Yard

variable {seen index token : Nat} {next : BinaryOp} {operator : Operator}
  {operators : List Operator} {pending rest : List Pending} {operands : List Expr}
  {error : ParseError} {yard after : Yard} {t : Token} {tokens : List Token}

/-! ## Open groups -/

/-- The positions of the parentheses that are pending, the newest first. -/
def openings (pending : List Pending) : List Nat := pending.filterMap Pending.group?

@[simp] theorem openings_group (token : Nat) (pending : List Pending) :
    openings (.group token :: pending) = token :: openings pending := rfl

@[simp] theorem openings_row (operators : List Operator) (pending : List Pending) :
    openings (row operators ++ pending) = openings pending := by
  induction operators with
  | nil => rfl
  | cons operator operators ih => exact ih

/-- **The groups that are pending are those that are open.** -/
theorem openAfter_of_step (h : Step yard index t after) :
    t.openAfter index (openings yard.pending) = some (openings after.pending) := by
  cases h with
  | opening text => exact Token.openAfter_opening rfl
  | closing front above settled unfronted fronted =>
    rw [above, openings_row, openings_group, openings_row]
    rfl
  | binary reads above binds stops settled =>
    rw [above, openings_row]
    rfl
  | _ => rfl

theorem unclosed_of_readFrom (h : yard.readFrom index tokens = .ok after) :
    Token.unclosed index (openings yard.pending) tokens = some (openings after.pending) := by
  induction tokens generalizing yard index with
  | nil =>
    cases h
    rfl
  | cons t rest ih =>
    obtain ⟨between, ht, hrest⟩ := bind_eq_ok.mp h
    rw [Token.unclosed, openAfter_of_step (step_of_read ht), Option.bind_some, ih hrest]

/-! ## Why one token is refused -/

theorem act_eq_error (h : act seen operator operands = .error error) : error.IsShortage := by
  rcases operator with op | op
  · rcases operands with _ | ⟨operand, rest⟩
    · cases h
      exact ⟨_, rfl⟩
    · cases h
  · rcases operands with _ | ⟨right, _ | ⟨left, rest⟩⟩
    · cases h
      exact ⟨_, rfl⟩
    · cases h
      exact ⟨_, rfl⟩
    · cases h

theorem actBefore_eq_error (h : actBefore seen next pending operands = .error error) :
    error.IsShortage := by
  induction pending generalizing operands with
  | nil => cases h
  | cons first pending ih =>
    rcases first with token | operator
    · cases h
    · rw [actBefore] at h
      split at h
      · rcases bind_eq_error.mp h with ha | ⟨between, -, hrest⟩
        · exact act_eq_error ha
        · exact ih hrest
      · cases h

theorem actOnGroup_eq_error (h : actOnGroup seen pending operands = .error error) :
    error.IsShortage := by
  rcases pending with _ | ⟨token | op | op, rest⟩
  · cases h
  · cases h
  · rcases bind_eq_error.mp h with ha | ⟨between, -, hrest⟩
    · exact act_eq_error ha
    · cases hrest
  · cases h

/-- A closing parenthesis has no partner only if no group is pending. -/
theorem close_eq_error (h : close seen token pending operands = .error error) :
    error.IsShortage ∨ error = .unmatchedParenthesis token ∧ openings pending = [] := by
  induction pending generalizing operands with
  | nil =>
    cases h
    exact .inr ⟨rfl, rfl⟩
  | cons first pending ih =>
    rcases first with partner | operator
    · exact .inl (actOnGroup_eq_error h)
    · rcases bind_eq_error.mp h with ha | ⟨between, -, hrest⟩
      · exact .inl (act_eq_error ha)
      · exact ih hrest

/-- A parenthesis is left at the end only if its group is pending, and it is the newest of them. -/
theorem finish_eq_error (h : finish seen pending operands = .error error) :
    error.IsShortage ∨
      ∃ newest older, error = .unmatchedParenthesis newest ∧ openings pending = newest :: older := by
  induction pending generalizing operands with
  | nil => cases h
  | cons first pending ih =>
    rcases first with token | operator
    · cases h
      exact .inr ⟨token, openings pending, rfl, rfl⟩
    · rcases bind_eq_error.mp h with ha | ⟨between, -, hrest⟩
      · exact .inl (act_eq_error ha)
      · exact ih hrest

theorem read_eq_error (hresolves : t.Resolves) (h : yard.read index t = .error error) :
    error.IsShortage ∨ error = .unmatchedParenthesis index ∧
      t.openAfter index (openings yard.pending) = none := by
  obtain ⟨kind, text⟩ := t
  cases kind with
  | letter => cases h
  | opening => cases h
  | number =>
    obtain ⟨value, reads⟩ := hresolves
    simp [read, reads] at h
  | constant =>
    obtain ⟨value, reads⟩ := hresolves
    simp [read, reads] at h
  | unary =>
    obtain ⟨op, reads⟩ := hresolves
    simp [read, reads] at h
  | binary =>
    obtain ⟨op, reads⟩ := hresolves
    simp only [read, reads, ok_bind] at h
    rcases bind_eq_error.mp h with ha | ⟨between, -, hrest⟩
    · exact .inl (actBefore_eq_error ha)
    · cases hrest
  | closing =>
    rcases bind_eq_error.mp h with hc | ⟨between, -, hrest⟩
    · refine (close_eq_error hc).imp_right ?_
      rintro ⟨rfl, hopen⟩
      rw [hopen]
      exact ⟨rfl, rfl⟩
    · cases hrest

/-! ## Why a run is refused -/

/-- Reading fails for want of operands, or where a parenthesis is closed that is not open. -/
theorem readFrom_eq_error (hresolves : ∀ t ∈ tokens, t.Resolves)
    (h : yard.readFrom index tokens = .error error) :
    error.IsShortage ∨ ∃ position, error = .unmatchedParenthesis position ∧
      Token.unclosed index (openings yard.pending) tokens = none := by
  induction tokens generalizing yard index with
  | nil => cases h
  | cons t rest ih =>
    rcases bind_eq_error.mp h with ht | ⟨between, ht, hrest⟩
    · refine (read_eq_error (hresolves t (List.mem_cons_self ..)) ht).imp_right ?_
      rintro ⟨rfl, hclosed⟩
      refine ⟨index, rfl, ?_⟩
      rw [Token.unclosed, hclosed, Option.bind_none]
    · rw [Token.unclosed, openAfter_of_step (step_of_read ht), Option.bind_some]
      exact ih (fun t ht => hresolves t (List.mem_cons_of_mem _ ht)) hrest

/-- There is no result for want of operands, where a group is still open, or where other than one
operand is left. -/
theorem result_eq_error (h : yard.result = .error error) :
    error.IsShortage ∨
      (∃ newest older, error = .unmatchedParenthesis newest ∧
        openings yard.pending = newest :: older) ∨
      ∃ operators operands, yard.pending = row operators ∧
        settle yard.known.count operators yard.operands = .ok operands ∧ operands.length ≠ 1 ∧
        error = .leftoverOperands operands.length := by
  rcases bind_eq_error.mp h with hf | ⟨operands, hf, hleft⟩
  · exact (finish_eq_error hf).imp_right .inl
  · obtain ⟨operators, hrow, hs⟩ := finish_eq_ok hf
    refine .inr (.inr ⟨operators, operands, hrow, hs, ?_⟩)
    rcases operands with _ | ⟨e, _ | ⟨another, rest⟩⟩
    · cases hleft
      exact ⟨by simp, rfl⟩
    · cases hleft
    · cases hleft
      exact ⟨by simp, rfl⟩

end Yard

namespace Expr

variable {tokens : List Token} {e : Expr} {error : ParseError}

/-- The parentheses of what has been parsed are balanced. -/
theorem balanced_of_ofTokens (h : ofTokens tokens = .ok e) : Token.Balanced tokens := by
  obtain ⟨yard, operators, hread, hrow, -⟩ := Yard.run_of_ofTokens h
  have hopen := Yard.unclosed_of_readFrom hread
  rw [hrow, ← List.append_nil (Yard.row operators), Yard.openings_row] at hopen
  exact hopen

/-- **Three reasons**: tokens whose texts stand for something are refused because an operator finds too
few operands, because a parenthesis has no partner, or because other than one operand is left. -/
theorem ofTokens_eq_error_cases (hne : tokens ≠ []) (hresolves : ∀ t ∈ tokens, t.Resolves)
    (h : ofTokens tokens = .error error) :
    error.IsShortage ∨ (∃ position, error = .unmatchedParenthesis position) ∨
      ∃ count, error = .leftoverOperands count := by
  obtain ⟨t, rest, rfl⟩ := List.exists_cons_of_ne_nil hne
  rcases bind_eq_error.mp h with hread | ⟨yard, hread, hresult⟩
  · refine (Yard.readFrom_eq_error hresolves hread).imp_right ?_
    rintro ⟨position, hposition, -⟩
    exact .inl ⟨position, hposition⟩
  · refine (Yard.result_eq_error hresult).imp_right (.imp ?_ ?_)
    · rintro ⟨newest, older, hnewest, -⟩
      exact ⟨newest, hnewest⟩
    · rintro ⟨operators, operands, -, -, -, hleft⟩
      exact ⟨operands.length, hleft⟩

/-- **Why tokens are refused** whose texts stand for something and whose parentheses are balanced:
an operator finds too few operands, or other than one operand is left. -/
theorem ofTokens_eq_error (hne : tokens ≠ []) (hresolves : ∀ t ∈ tokens, t.Resolves)
    (hbalanced : Token.Balanced tokens) (h : ofTokens tokens = .error error) :
    error.IsShortage ∨ ∃ yard operators operands, Yard.empty.readFrom 0 tokens = .ok yard ∧
      yard.pending = Yard.row operators ∧
      Yard.settle yard.known.count operators yard.operands = .ok operands ∧
      operands.length ≠ 1 ∧ error = .leftoverOperands operands.length := by
  obtain ⟨t, rest, rfl⟩ := List.exists_cons_of_ne_nil hne
  rcases bind_eq_error.mp h with hread | ⟨yard, hread, hresult⟩
  · refine (Yard.readFrom_eq_error hresolves hread).imp_right ?_
    rintro ⟨position, -, hunclosed⟩
    exact absurd (hbalanced.symm.trans hunclosed) (Option.some_ne_none _)
  · rcases Yard.result_eq_error hresult with
      hshort | ⟨newest, older, -, hopen⟩ | ⟨operators, operands, hleft⟩
    · exact .inl hshort
    · have hclosed := Yard.unclosed_of_readFrom hread
      rw [hopen] at hclosed
      exact absurd (Option.some.inj (hbalanced.symm.trans hclosed)) nofun
    · exact .inr ⟨yard, operators, operands, hread, hleft⟩

end Expr

end Reckoner
