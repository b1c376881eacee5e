import Reckoner.Arithmetic
import Reckoner.Formula.Basic

/-!
# Evaluation

The **value** of an expression (`Expr.value`) is defined along its tree: operands come before their
operator, the left one first, and the first error is the error of the whole.

Formulas are computed by a **machine** with two stacks (`Machine.run`), which needs no deeper recursion
for a deeper tree: one stack holds what is still to be done, the other the values found so far.
`Machine.run_visit` says that visiting an expression puts its value onto the values and goes on, or
else stops with its error, whatever lies on the two stacks; so the machine never runs out of values and
ends with exactly one (`Machine.run_root`).
-/

namespace Reckoner

/-! ## Values along the tree -/

/-- The value of the variable with the given name and index. -/
def inputAt (inputs : List Decimal) (name : String) (index : Nat) : Except EvalError Decimal :=
  match inputs[index]? with
  | some value => .ok value
  | none => .error (.missingInput name index inputs.length)

/-- The value of an expression for the given inputs. -/
def Expr.value (divisionScale : Int) (inputs : List Decimal) : Expr → Except EvalError Decimal
  | .number value => .ok value
  | .var name index => inputAt inputs name index
  | .unary op operand => do op.apply (← operand.value divisionScale inputs)
  | .binary op left right _ => do
    let a ← left.value divisionScale inputs
    let b ← right.value divisionScale inputs
    op.apply divisionScale a b

/-! ## The machine -/

namespace Machine

/-- What is still to be done. -/
inductive Task where
  /-- find the value of an expression -/
  | visit (e : Expr)
  /-- apply a unary operator to the newest value -/
  | unary (op : UnaryOp)
  /-- apply a binary operator to the two newest values, the right operand being the newest -/
  | binary (op : BinaryOp)
  deriving DecidableEq, Repr

/-- A bound on the steps that a task takes. -/
def Task.weight : Task → Nat
  | visit e => 2 * e.size
  | unary _ => 1
  | binary _ => 1

/-- A bound on the steps that a row of tasks takes. -/
def weight : List Task → Nat
  | [] => 0
  | task :: tasks => task.weight + weight tasks

/-- Goes on with a value that an operator or an input has given, or stops with its error. -/
def proceed (outcome : Except EvalError Decimal)
    (next : Decimal → Option (Except EvalError Decimal)) : Option (Except EvalError Decimal) :=
  match outcome with
  | .ok value => next value
  | .error error => some (.error error)

/-- Does all tasks and gives the one value that is left. There is no outcome if an operator finds too
few values, or if other than one value is left. -/
def run (divisionScale : Int) (inputs : List Decimal) :
    List Task → List Decimal → Option (Except EvalError Decimal)
  | [], [value] => some (.ok value)
  | .visit (.number value) :: tasks, values => run divisionScale inputs tasks (value :: values)
  | .visit (.var name index) :: tasks, values =>
    proceed (inputAt inputs name index) fun value =>
      run divisionScale inputs tasks (value :: values)
  | .visit (.unary op operand) :: tasks, values =>
    run divisionScale inputs (.visit operand :: .unary op :: tasks) values
  | .visit (.binary op left right _) :: tasks, values =>
    run divisionScale inputs (.visit left :: .visit right :: .binary op :: tasks) values
  | .unary op :: tasks, value :: values =>
    proceed (op.apply value) fun result => run divisionScale inputs tasks (result :: values)
  | .binary op :: tasks, right :: left :: values =>
    proceed (op.apply divisionScale left right) fun result =>
      run divisionScale inputs tasks (result :: values)
  | _, _ => none
termination_by tasks => weight tasks
decreasing_by all_goals simp [weight, Task.weight, Expr.size]; try omega

/-- **Visiting** an expression puts its value onto the values, or stops with its error. -/
theorem run_visit (divisionScale : Int) (inputs : List Decimal) (e : Expr) (tasks : List Task)
    (values : List Decimal) :
    run divisionScale inputs (.visit e :: tasks) values =
      proceed (e.value divisionScale inputs) fun value =>
        run divisionScale inputs tasks (value :: values) := by
  induction e generalizing tasks values with
  | number value => simp [run, Expr.value, proceed]
  | var name index => simp [run, Expr.value]
  | unary op operand ih =>
    rw [run, ih, Expr.value]
    cases operand.value divisionScale inputs with
    | error error => rfl
    | ok value => simp [proceed, run, bind, Except.bind]
  | binary op left right seen ihl ihr =>
    rw [run, ihl, Expr.value]
    cases left.value divisionScale inputs with
    | error error => rfl
    | ok a =>
      simp only [proceed, ihr, bind, Except.bind]
      cases right.value divisionScale inputs with
      | error error => rfl
      | ok b => simp [proceed, run]

/-- The machine, started on an expression, ends with the value of the expression. -/
theorem run_root (divisionScale : Int) (inputs : List Decimal) (e : Expr) :
    run divisionScale inputs [.visit e] [] = some (e.value divisionScale inputs) := by
  rw [run_visit]
  cases e.value divisionScale inputs <;> simp [proceed, run]

end Machine

/-! ## Formulas -/

/-- The value of a formula for the given inputs, found by the machine. Inputs beyond those that the
variables name are ignored. -/
def Formula.evaluate (formula : Formula) (inputs : List Decimal) : Except EvalError Decimal :=
  (Machine.run formula.options.divisionScale inputs [.visit formula.root] []).get
    (by rw [Machine.run_root]; rfl)

/-- The value of the formula that a text writes. -/
def evaluate (text : String) (inputs : List Decimal) : Except Error Decimal := do
  let formula ← (Formula.compile text).mapError Error.parse
  (formula.evaluate inputs).mapError Error.eval

end Reckoner
