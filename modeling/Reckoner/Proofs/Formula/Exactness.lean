import Reckoner.Proofs.Decimal.Rounding
import Reckoner.Proofs.Formula.Inputs

/-!
# Exact arithmetic

Expressions over opposites, absolute values, sums, differences, products, quotients and remainders have
a value among the rational numbers (`Expr.exactValue`): everything is exact but quotients, which are
rounded once, to the nearest multiple of the unit that the division scale gives. This **reference**
knows no scales, and computes operands from left to right before their operator, the first failure
being the failure of the whole.

Evaluation agrees with the reference at every node (`Expr.agrees_value`): what it gives denotes the
exact value, and it divides by zero only where the reference does. The notations that decimals get on
the way cannot matter then, nor those of the inputs.
-/

namespace Reckoner

/-! ## The reference -/

/-- Why an expression has no exact value. -/
inductive ExactError where
  /-- a quotient or a remainder by zero -/
  | zeroDivisor
  /-- a variable without an input -/
  | missingInput
  /-- an operator that leaves the rational numbers -/
  | irrational
  deriving DecidableEq, Repr

/-- The operators of one operand that stay among the rational numbers. -/
def UnaryOp.IsRational (op : UnaryOp) : Prop := op = .negate ∨ op = .abs

/-- The operators of two operands that stay among the rational numbers. -/
def BinaryOp.IsRational (op : BinaryOp) : Prop := op ≠ .pow

/-- All operators of the expression stay among the rational numbers. -/
def Expr.IsRational : Expr → Prop
  | number _ => True
  | var _ _ => True
  | unary op operand => op.IsRational ∧ operand.IsRational
  | binary op left right _ => op.IsRational ∧ left.IsRational ∧ right.IsRational

/-- The exact value of a unary operator. -/
def UnaryOp.exact (op : UnaryOp) (x : ℚ) : Except ExactError ℚ :=
  match op with
  | negate => .ok (-x)
  | abs => .ok |x|
  | _ => .error .irrational

/-- The exact value of a binary operator, where quotients are rounded at the division scale. -/
def BinaryOp.exact (divisionScale : ℤ) (op : BinaryOp) (x y : ℚ) : Except ExactError ℚ :=
  match op with
  | add => .ok (x + y)
  | sub => .ok (x - y)
  | mul => .ok (x * y)
  | div => if y = 0 then .error .zeroDivisor else .ok (Decimal.roundAt divisionScale (x / y))
  | rem => if y = 0 then .error .zeroDivisor else .ok (x - y * Decimal.truncate (x / y))
  | pow => .error .irrational

/-- The exact value of an expression for the given inputs. -/
def Expr.exactValue (divisionScale : ℤ) (inputs : List ℚ) : Expr → Except ExactError ℚ
  | number value => .ok value.toRat
  | var _ index =>
    match inputs[index]? with
    | some x => .ok x
    | none => .error .missingInput
  | unary op operand => do op.exact (← operand.exactValue divisionScale inputs)
  | binary op left right _ => do
    let x ← left.exactValue divisionScale inputs
    let y ← right.exactValue divisionScale inputs
    op.exact divisionScale x y

/-! ## Agreement -/

/-- An outcome agrees with an exact one: a value denotes the exact value, and a division by zero or a
missing input is one there. Nothing is said of the other errors, such as a quotient that is out of
range. -/
def Agrees : Except EvalError Decimal → Except ExactError ℚ → Prop
  | .ok value, exact => exact = .ok value.toRat
  | .error .divisionByZero, exact => exact = .error .zeroDivisor
  | .error (.missingInput _ _ _), exact => exact = .error .missingInput
  | .error _, _ => True

variable {outcome : Except EvalError Decimal} {exact : Except ExactError ℚ}

/-- Agreement goes on: where an outcome agrees and what follows agrees, the whole agrees. -/
theorem Agrees.bind {f : Decimal → Except EvalError Decimal} {g : ℚ → Except ExactError ℚ}
    (h : Agrees outcome exact) (hnext : ∀ value, Agrees (f value) (g value.toRat)) :
    Agrees (outcome >>= f) (exact >>= g) := by
  rcases outcome with error | value
  · rw [error_bind]
    cases error with
    | divisionByZero =>
      obtain rfl : exact = .error .zeroDivisor := h
      rfl
    | missingInput name index count =>
      obtain rfl : exact = .error .missingInput := h
      rfl
    | _ => trivial
  · -- both go on, with a value and with the number that it denotes
    obtain rfl : exact = .ok value.toRat := h
    rw [ok_bind, ok_bind]
    exact hnext value

namespace Expr

theorem agrees_unary {op : UnaryOp} (hop : op.IsRational) (value : Decimal) :
    Agrees (op.apply value) (op.exact value.toRat) := by
  rcases hop with rfl | rfl
  · exact congrArg _ (Decimal.toRat_neg value).symm
  · exact congrArg _ (Decimal.toRat_abs value).symm

theorem agrees_binary {op : BinaryOp} (hop : op.IsRational) (divisionScale : ℤ)
    (a b : Decimal) : Agrees (op.apply divisionScale a b) (op.exact divisionScale a.toRat b.toRat) := by
  cases op with
  | add => exact congrArg _ (Decimal.toRat_add a b).symm
  | sub => exact congrArg _ (Decimal.toRat_sub a b).symm
  | mul => exact congrArg _ (Decimal.toRat_mul a b).symm
  | div =>
    rw [BinaryOp.apply, BinaryOp.exact]
    by_cases hzero : b.IsZero
    · rw [if_pos hzero, if_pos (Decimal.toRat_of_isZero hzero)]
      rfl
    · -- a quotient out of range is an error of its own, of which nothing is said
      rw [if_neg hzero, if_neg (mt Decimal.toRat_eq_zero_iff.mp hzero)]
      rcases hquotient : Decimal.quotient? divisionScale a b with _ | quotient
      · trivial
      · exact congrArg _ (Decimal.toRat_quotient hquotient).symm
  | rem =>
    rw [BinaryOp.apply, BinaryOp.exact]
    by_cases hzero : b.IsZero
    · rw [if_pos hzero, if_pos (Decimal.toRat_of_isZero hzero)]
      rfl
    · rw [if_neg hzero, if_neg (mt Decimal.toRat_eq_zero_iff.mp hzero)]
      exact congrArg _ (Decimal.toRat_rem a b).symm
  | pow => exact absurd rfl hop

/-- **Evaluation agrees with the reference** at every node. -/
theorem agrees_value {e : Expr} (h : e.IsRational) (divisionScale : ℤ) (inputs : List Decimal) :
    Agrees (e.value divisionScale inputs)
      (e.exactValue divisionScale (inputs.map Decimal.toRat)) := by
  induction e with
  | number value => rfl
  | var name index =>
    rw [value, exactValue, inputAt, List.getElem?_map]
    rcases inputs[index]? with _ | value
    · rfl
    · rfl
  | unary op operand ih =>
    obtain ⟨hop, hoperand⟩ := h
    exact (ih hoperand).bind (agrees_unary hop)
  | binary op left right seen ihl ihr =>
    obtain ⟨hop, hl, hr⟩ := h
    exact (ihl hl).bind fun a => (ihr hr).bind fun b => agrees_binary hop divisionScale a b

end Expr

namespace Formula

variable {formula : Formula} {inputs inputs' : List Decimal}

/-- Inputs of equal value are equal to the reference. -/
theorem map_toRat_eq (h : List.Forall₂ (fun a b => a.sameValue b) inputs inputs') :
    inputs.map Decimal.toRat = inputs'.map Decimal.toRat := by
  induction h with
  | nil => rfl
  | cons hvalue _ ih => rw [List.map_cons, List.map_cons, Decimal.sameValue_iff.mp hvalue, ih]

/-- **Exactness**: what a formula over rational operations gives denotes its exact value, it divides by
zero only if that is the first failure of the reference, and inputs of equal value give values that
are equal. -/
theorem evaluate_exact (h : formula.root.IsRational) (inputs : List Decimal) :
    (∀ d, formula.evaluate inputs = .ok d →
      formula.root.exactValue formula.options.divisionScale (inputs.map Decimal.toRat) =
        .ok d.toRat) ∧
    (formula.evaluate inputs = .error .divisionByZero →
      formula.root.exactValue formula.options.divisionScale (inputs.map Decimal.toRat) =
        .error .zeroDivisor) ∧
    ∀ inputs' d d', List.Forall₂ (fun a b => a.sameValue b) inputs inputs' →
      formula.evaluate inputs = .ok d → formula.evaluate inputs' = .ok d' → d.sameValue d' := by
  have hagrees (inputs : List Decimal) : Agrees (formula.evaluate inputs)
      (formula.root.exactValue formula.options.divisionScale (inputs.map Decimal.toRat)) := by
    rw [evaluate_eq_value]
    exact Expr.agrees_value h formula.options.divisionScale inputs
  have hvalue (inputs : List Decimal) (d : Decimal) (hd : formula.evaluate inputs = .ok d) :
      formula.root.exactValue formula.options.divisionScale (inputs.map Decimal.toRat) =
        .ok d.toRat := by
    have houtcome := hagrees inputs
    rwa [hd] at houtcome
  refine ⟨hvalue inputs, ?_, ?_⟩
  · intro herror
    have houtcome := hagrees inputs
    rwa [herror] at houtcome
  · intro inputs' d d' hinputs hd hd'
    have hexact := hvalue inputs d hd
    rw [map_toRat_eq hinputs, hvalue inputs' d' hd'] at hexact
    exact Decimal.sameValue_iff.mpr (Except.ok.inj hexact).symm

/-- The reciprocal at two digits, of three in two notations and of zero. -/
theorem evaluate_exact_reciprocal :
    let reciprocal : Formula := ⟨.binary .div (.number ⟨1, 0⟩) (.var "x" 0) 1, ⟨2⟩⟩
    reciprocal.evaluate [⟨3, 0⟩] = .ok ⟨33, 2⟩ ∧
      reciprocal.root.exactValue 2 [Decimal.toRat ⟨3, 0⟩] = .ok (Decimal.toRat ⟨33, 2⟩) ∧
      reciprocal.root.exactValue 2 [Decimal.toRat ⟨0, 4⟩] = .error .zeroDivisor ∧
      ∀ d, reciprocal.evaluate [⟨30, 1⟩] = .ok d → (⟨33, 2⟩ : Decimal).sameValue d := by
  intro reciprocal
  have hrational : reciprocal.root.IsRational := ⟨nofun, trivial, trivial⟩
  have hthree : reciprocal.evaluate [⟨3, 0⟩] = .ok ⟨33, 2⟩ := by
    rw [evaluate_eq_value]
    rfl
  have hzero : reciprocal.evaluate [⟨0, 4⟩] = .error .divisionByZero := by
    rw [evaluate_eq_value]
    rfl
  obtain ⟨hexact, -, hequal⟩ := evaluate_exact hrational [⟨3, 0⟩]
  have hsame : List.Forall₂ (fun a b : Decimal => a.sameValue b) [⟨3, 0⟩] [⟨30, 1⟩] :=
    .cons (by decide) .nil
  exact ⟨hthree, hexact _ hthree, (evaluate_exact hrational [⟨0, 4⟩]).2.1 hzero,
    fun d hd => hequal _ _ d hsame hthree hd⟩

end Formula

end Reckoner
