import Reckoner.Formula.Evaluation
import Reckoner.Proofs.Token.Scans
import Reckoner.Proofs.Yard.Conservation

/-!
# Inputs by name

A formula takes its inputs in the order in which its text first mentions their names. If values are
assigned to **names** instead (`Formula.inputsFor`), the indices in the tree no longer matter: the value
of an expression is found by looking up names (`Expr.valueUnder`), and is therefore a function of the
bare tree (`Expr.valueUnder_bare`).

* Indexing agrees with looking up: where the inputs are those of names that begin with all the names
  an expression has seen, each of its variables finds the value of its own name
  (`Expr.value_indexed`).
* A text that compiles gives its formula exactly the inputs it needs, so evaluation under an
  assignment is looking up (`Formula.evaluate_inputsFor`).
-/

namespace Reckoner

/-! ## Names of variables -/

/-- The name of a token that is a variable. -/
def Token.name? (t : Token) : Option String := if t.kind = .letter then some t.text else none

/-- The names of the variables that a text mentions, each once, in the order of their first use. -/
def Formula.variableNames (text : String) : List String :=
  match Token.scan text with
  | .ok tokens => (tokens.filterMap Token.name?).eraseDups
  | .error _ => []

/-- The inputs of the formula that a text writes, where values are assigned to names. -/
def Formula.inputsFor (assignment : String → Decimal) (text : String) : List Decimal :=
  (Formula.variableNames text).map assignment

/-- The variables among the leaves are the tokens that name variables, if every operand token has a
leaf. -/
theorem Token.name?_leaf? (t : Token) : t.leaf?.bind Leaf.name? = t.name? := by
  obtain ⟨kind, text⟩ := t
  cases kind with
  | number => rcases h : Decimal.ofString? text <;> simp [leaf?, name?, h, Leaf.name?]
  | constant => rcases h : Constant.ofName? text <;> simp [leaf?, name?, h, Leaf.name?]
  | letter => rfl
  | _ => rfl

namespace Expr

variable (divisionScale : Int) (assignment : String → Decimal)

/-! ## Looking up names -/

/-- The value of an expression where values are assigned to names. -/
def valueUnder : Expr → Except EvalError Decimal
  | number value => .ok value
  | var name _ => .ok (assignment name)
  | unary op operand => do op.apply (← operand.valueUnder)
  | binary op left right _ => do
    let a ← left.valueUnder
    let b ← right.valueUnder
    op.apply divisionScale a b

/-- Indices and counts do not matter where names are looked up. -/
@[simp] theorem valueUnder_bare (e : Expr) :
    e.bare.valueUnder divisionScale assignment = e.valueUnder divisionScale assignment := by
  induction e with
  | number value => rfl
  | var name index => rfl
  | unary op operand ih => rw [bare, valueUnder, valueUnder, ih]
  | binary op left right seen ihl ihr => rw [bare, valueUnder, valueUnder, ihl, ihr]

/-- What has been seen before an expression has been seen at its end. -/
theorem names_prefix_indexed (e : Expr) (known : Variables) :
    known.names <+: (e.indexed known).2.names := by
  rw [indexed_snd, Variables.names_seeAll_eq]
  exact List.prefix_append _ _

/-- Numbering keeps the indices of the variables dense. -/
theorem dense_indexed {known : Variables} (hknown : known.Dense) (e : Expr) :
    (e.indexed known).2.Dense := by
  rw [indexed_snd]
  exact hknown.seeAll _

/-- The input at the index of a name is the value of the name. -/
theorem inputAt_index {known : Variables} {name : String} {names : List String}
    (hknown : known.Dense) (h : (known.see name).names <+: names) :
    inputAt (names.map assignment) name (known.index name).1 = .ok (assignment name) := by
  have hplace : (known.see name).names[(known.index name).1]? = some name :=
    (hknown.see name).index?_eq_some_iff.mp (known.index?_see name)
  obtain ⟨others, rfl⟩ := h
  rw [inputAt, List.getElem?_map,
    List.getElem?_append_left (List.getElem?_eq_some_iff.mp hplace).1, hplace]
  rfl

/-- **Indexing agrees with looking up**, whatever has been seen before and whatever is seen later. -/
theorem value_indexed (e : Expr) {known : Variables} {names : List String} (hknown : known.Dense)
    (h : (e.indexed known).2.names <+: names) :
    (e.indexed known).1.value divisionScale (names.map assignment) =
      e.valueUnder divisionScale assignment := by
  induction e generalizing known with
  | number value => rfl
  | var name index => exact inputAt_index assignment hknown h
  | unary op operand ih =>
    have hoperand := ih hknown h
    simp only [indexed, value, valueUnder, hoperand]
  | binary op left right seen ihl ihr =>
    -- the right operand sees all that the left one has seen
    have hright := ihr (dense_indexed hknown left) h
    have hleft := ihl hknown ((names_prefix_indexed right _).trans h)
    simp only [indexed, value, valueUnder, hleft, hright]

end Expr

namespace Formula

variable {text : String} {formula : Formula}

/-! ## Formulas under an assignment -/

theorem compile_eq_ok : compile text = .ok formula ↔
    ∃ tokens, Token.scan text = .ok tokens ∧ Expr.ofTokens tokens = .ok formula.root ∧
      formula.options = {} := by
  constructor
  · intro h
    obtain ⟨tokens, hscan, hparse⟩ := bind_eq_ok.mp h
    obtain ⟨root, hroot, hformula⟩ := bind_eq_ok.mp hparse
    cases hformula
    exact ⟨tokens, hscan, hroot, rfl⟩
  · rintro ⟨tokens, hscan, hroot, hoptions⟩
    rw [compile, hscan, ok_bind, hroot, ok_bind, ← hoptions]
    rfl

/-- The machine finds the value along the tree. -/
theorem evaluate_eq_value (formula : Formula) (inputs : List Decimal) :
    formula.evaluate inputs = formula.root.value formula.options.divisionScale inputs := by
  simp [evaluate, Machine.run_root]

/-- The names at the leaves of an expression are those among its tokens. -/
theorem names_of_ofTokens {tokens : List Token} {e : Expr} (hparse : Expr.ofTokens tokens = .ok e) :
    e.leaves.filterMap Leaf.name? = tokens.filterMap Token.name? := by
  rw [(Expr.conserved_of_ofTokens hparse).1, List.filterMap_filterMap, funext Token.name?_leaf?]

/-- The names that a text mentions are those that its expression has seen. -/
theorem variableNames_eq {tokens : List Token} {e : Expr} (hscan : Token.scan text = .ok tokens)
    (hparse : Expr.ofTokens tokens = .ok e) :
    variableNames text = (e.indexed Variables.empty).2.names := by
  rw [variableNames, hscan, Expr.indexed_snd, Variables.names_seeAll, names_of_ofTokens hparse]

/-- **Evaluation under an assignment** is looking up names, so no input is ever missing. -/
theorem evaluate_inputsFor (h : compile text = .ok formula) (assignment : String → Decimal) :
    formula.evaluate (inputsFor assignment text) =
      formula.root.valueUnder formula.options.divisionScale assignment := by
  obtain ⟨tokens, hscan, hparse, -⟩ := compile_eq_ok.mp h
  obtain ⟨-, known, hnumbered⟩ := Expr.conserved_of_ofTokens hparse
  have hroot : formula.root = (formula.root.indexed Variables.empty).1 := hnumbered.fst_eq.symm
  have hvalue := formula.root.value_indexed formula.options.divisionScale assignment
    Variables.dense_empty (List.prefix_refl (formula.root.indexed Variables.empty).2.names)
  rw [← hroot] at hvalue
  rw [evaluate_eq_value, inputsFor, variableNames_eq hscan hparse, hvalue]

end Formula

end Reckoner
