import Reckoner.Proofs.Formula.Inputs
import Reckoner.Proofs.Yard.Group

/-!
# Texts put together

Two texts that compile can be put together with parentheses, and the formula of the whole is made of
the formulas of the parts, from the characters down to the values.

* The tokens of the whole are those of the parts between parentheses (`Token.Scans.group`), since a
  parenthesis closes every run of characters.
* A group is read as on its own (`Expr.ofTokens_grouped` and its companions), up to the **numbers** of
  its variables, which depend on what has been seen before.
* These numbers do not matter where values are assigned to names (`Expr.valueUnder_bare`).
-/

namespace Reckoner

namespace Formula

/-- A text in parentheses. -/
def grouped (text : String) : String := "(" ++ text ++ ")"

/-- Two texts in parentheses with a binary operator between them. -/
def combined (op : BinaryOp) (left right : String) : String :=
  grouped left ++ op.symbol ++ grouped right

/-- A text in parentheses with a unary operator before it. -/
def applied (op : UnaryOp) (text : String) : String := op.symbol ++ grouped text

variable {text left right : String} {tokens leftTokens rightTokens : List Token}
  {formula leftFormula rightFormula : Formula}

@[simp] theorem toList_grouped (text : String) :
    (grouped text).toList = '(' :: text.toList ++ [')'] := by
  simp [grouped]

/-! ## Their tokens -/

theorem scan_grouped (h : Token.scan text = .ok tokens) :
    Token.scan (grouped text) = .ok (Token.grouped tokens) := by
  obtain ⟨-, hscans⟩ := Token.scan_eq_ok.mp h
  refine Token.scan_eq_ok.mpr ⟨List.cons_ne_nil _ _, ?_⟩
  rw [toList_grouped]
  exact hscans.group true

theorem scan_applied (op : UnaryOp) (h : Token.scan text = .ok tokens) :
    Token.scan (applied op text) = .ok (⟨.unary, op.symbol⟩ :: Token.grouped tokens) := by
  obtain ⟨-, hscans⟩ := Token.scan_eq_ok.mp h
  refine Token.scan_eq_ok.mpr ⟨List.cons_ne_nil _ _, ?_⟩
  have happlied : (applied op text).toList =
      op.symbol.toList ++ '(' :: text.toList ++ [')'] := by
    simp [applied]
  rw [happlied]
  exact hscans.unary op

theorem scan_combined (op : BinaryOp) (hl : Token.scan left = .ok leftTokens)
    (hr : Token.scan right = .ok rightTokens) :
    Token.scan (combined op left right) =
      .ok (Token.grouped leftTokens ++ ⟨.binary, op.symbol⟩ :: Token.grouped rightTokens) := by
  obtain ⟨-, hleft⟩ := Token.scan_eq_ok.mp hl
  obtain ⟨-, hright⟩ := Token.scan_eq_ok.mp hr
  refine Token.scan_eq_ok.mpr
    ⟨List.append_ne_nil_of_right_ne_nil _ (List.cons_ne_nil _ _), ?_⟩
  have hcombined : (combined op left right).toList =
      (grouped left).toList ++ op.symbol.toList ++ (grouped right).toList := by
    simp [combined]
  rw [hcombined, toList_grouped, toList_grouped]
  -- after a closing parenthesis no operand is due, so that a minus sign subtracts
  exact (hleft.group true).binary (Token.dueAfter_concat ..) (hright.group true) op

/-! ## Their formulas -/

theorem compile_grouped (h : compile text = .ok formula) :
    compile (grouped text) = .ok formula := by
  obtain ⟨tokens, hscan, hparse, hoptions⟩ := compile_eq_ok.mp h
  exact compile_eq_ok.mpr ⟨_, scan_grouped hscan, Expr.ofTokens_grouped hparse, hoptions⟩

theorem compile_applied (op : UnaryOp) (h : compile text = .ok formula) :
    ∃ whole, compile (applied op text) = .ok whole ∧
      whole.root.bare = .unary op formula.root.bare := by
  obtain ⟨tokens, hscan, hparse, -⟩ := compile_eq_ok.mp h
  obtain ⟨root, hroot, hbare⟩ := Expr.ofTokens_unary_grouped hparse op
  exact ⟨{ root }, compile_eq_ok.mpr ⟨_, scan_applied op hscan, hroot, rfl⟩, hbare⟩

theorem compile_combined (op : BinaryOp) (hl : compile left = .ok leftFormula)
    (hr : compile right = .ok rightFormula) :
    ∃ whole, compile (combined op left right) = .ok whole ∧
      whole.root.bare = .binary op leftFormula.root.bare rightFormula.root.bare 0 := by
  obtain ⟨leftTokens, hleftScan, hleftParse, -⟩ := compile_eq_ok.mp hl
  obtain ⟨rightTokens, hrightScan, hrightParse, -⟩ := compile_eq_ok.mp hr
  obtain ⟨root, hroot, hbare⟩ := Expr.ofTokens_binary_grouped hleftParse hrightParse op
  exact ⟨{ root }, compile_eq_ok.mpr ⟨_, scan_combined op hleftScan hrightScan, hroot, rfl⟩,
    hbare⟩

/-! ## Their values -/

/-- What compiles is computed with the options that hold by default. -/
theorem evaluate_of_compile (h : compile text = .ok formula) (assignment : String → Decimal) :
    formula.evaluate (inputsFor assignment text) =
      formula.root.bare.valueUnder ({} : Options).divisionScale assignment := by
  obtain ⟨tokens, -, -, hoptions⟩ := compile_eq_ok.mp h
  rw [evaluate_inputsFor h, Expr.valueUnder_bare, hoptions]

/-- **Compositionality**: of two texts that compile, a text in parentheses is the same formula; a
binary operator between both in parentheses and a unary operator before one in parentheses compile,
and where values are assigned to names they compute the operator from the values of the parts, the
left one first, or else give the first error of a part. -/
theorem compositional (hl : compile left = .ok leftFormula) (hr : compile right = .ok rightFormula)
    (assignment : String → Decimal) :
    compile (grouped left) = .ok leftFormula ∧
    (∀ op : BinaryOp, ∃ whole, compile (combined op left right) = .ok whole ∧
      whole.evaluate (inputsFor assignment (combined op left right)) = (do
        let a ← leftFormula.evaluate (inputsFor assignment left)
        let b ← rightFormula.evaluate (inputsFor assignment right)
        op.apply ({} : Options).divisionScale a b)) ∧
    ∀ op : UnaryOp, ∃ whole, compile (applied op left) = .ok whole ∧
      whole.evaluate (inputsFor assignment (applied op left)) = (do
        let a ← leftFormula.evaluate (inputsFor assignment left)
        op.apply a) := by
  refine ⟨compile_grouped hl, fun op => ?_, fun op => ?_⟩
  · obtain ⟨whole, hwhole, hbare⟩ := compile_combined op hl hr
    refine ⟨whole, hwhole, ?_⟩
    rw [evaluate_of_compile hwhole, evaluate_of_compile hl, evaluate_of_compile hr, hbare]
    rfl
  · obtain ⟨whole, hwhole, hbare⟩ := compile_applied op hl
    refine ⟨whole, hwhole, ?_⟩
    rw [evaluate_of_compile hwhole, evaluate_of_compile hl, hbare]
    rfl

/-- Both parts mention `x`, and the second one mentions `y` first. -/
theorem compositional_shared :
    let assignment : String → Decimal := fun name => if name = "x" then ⟨2, 0⟩ else ⟨3, 0⟩
    let difference : Formula := ⟨.binary .sub (.var "x" 0) (.number ⟨5, 1⟩) 1, {}⟩
    let remainder : Formula := ⟨.binary .rem (.var "y" 0) (.var "x" 1) 2, {}⟩
    compile "x-.5" = .ok difference ∧ compile "y % X" = .ok remainder ∧
      compile (grouped "x-.5") = .ok difference ∧
      ∃ whole, compile (combined .sub "x-.5" "y % X") = .ok whole ∧
        whole.evaluate (inputsFor assignment (combined .sub "x-.5" "y % X")) =
          .ok ⟨5, 1⟩ := by
  intro assignment difference remainder
  have hl : compile "x-.5" = .ok difference := rfl
  have hr : compile "y % X" = .ok remainder := rfl
  obtain ⟨hgrouped, hcombined, -⟩ := compositional hl hr assignment
  obtain ⟨whole, hwhole, hvalue⟩ := hcombined .sub
  refine ⟨hl, hr, hgrouped, whole, hwhole, ?_⟩
  have hx : inputsFor assignment "x-.5" = [⟨2, 0⟩] := rfl
  have hyx : inputsFor assignment "y % X" = [⟨3, 0⟩, ⟨2, 0⟩] := rfl
  rw [hvalue, evaluate_eq_value, evaluate_eq_value, hx, hyx]
  rfl

end Formula

end Reckoner
