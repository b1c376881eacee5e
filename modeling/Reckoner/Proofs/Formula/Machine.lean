import Reckoner.Proofs.Formula.Inputs
import Reckoner.Proofs.Rounds

/-!
# The machine, round by round

The machine works in **rounds**, each of which takes the newest task (`Machine.round`). It would be
**stuck** at a task that finds too few values, or with other than one value at the end.

* A run does what its rounds do (`run_eq_runAfter`), so all states of one run have the same outcome
  (`run_of_reaches`).
* Every round lowers the weight of the tasks (`weight_lt_of_round`), so no run goes on forever, and where
  there is an outcome the rounds end with it (`exists_last_of_run`).

Visiting an expression on any two stacks gives its value (`Machine.run_visit`). From there the
rounds of a formula are known as a whole: none is stuck, and the last one ends with the value along
the tree (`Formula.evaluate_refines`).
-/

namespace Reckoner

namespace Machine

/-! ## Rounds -/

/-- What lies on the two stacks of the machine. -/
structure State where
  /-- what is still to be done, the next task first -/
  tasks : List Task
  /-- the values found so far, the newest first -/
  values : List Decimal
  deriving DecidableEq, Repr

/-- A round puts the value of an operator or of an input onto the values, or ends with its error. -/
def push (tasks : List Task) (values : List Decimal) (outcome : Except EvalError Decimal) :
    Round State (Except EvalError Decimal) :=
  .resume (fun value => ⟨tasks, value :: values⟩) outcome

/-- The round that begins with the given stacks. -/
def round (divisionScale : Int) (inputs : List Decimal) :
    State → Round State (Except EvalError Decimal)
  | ⟨[], [value]⟩ => .ends (.ok value)
  | ⟨.visit (.number value) :: tasks, values⟩ => .goesOn ⟨tasks, value :: values⟩
  | ⟨.visit (.var name index) :: tasks, values⟩ => push tasks values (inputAt inputs name index)
  | ⟨.visit (.unary op operand) :: tasks, values⟩ =>
    .goesOn ⟨.visit operand :: .unary op :: tasks, values⟩
  | ⟨.visit (.binary op left right _) :: tasks, values⟩ =>
    .goesOn ⟨.visit left :: .visit right :: .binary op :: tasks, values⟩
  | ⟨.unary op :: tasks, value :: values⟩ => push tasks values (op.apply value)
  | ⟨.binary op :: tasks, right :: left :: values⟩ =>
    push tasks values (op.apply divisionScale left right)
  | _ => .stuck

variable {divisionScale : Int} {inputs : List Decimal} {s next : State}
  {outcome : Except EvalError Decimal}

theorem tasks_of_push {tasks : List Task} {values : List Decimal}
    (h : push tasks values outcome = .goesOn next) : next.tasks = tasks := by
  obtain ⟨value, -, rfl⟩ := Round.resume_eq_goesOn h
  rfl

/-- The outcome of a run that begins with a certain round. -/
def runAfter (divisionScale : Int) (inputs : List Decimal) :
    Round State (Except EvalError Decimal) → Option (Except EvalError Decimal)
  | .goesOn next => run divisionScale inputs next.tasks next.values
  | .ends outcome => some outcome
  | .stuck => none

theorem runAfter_push (tasks : List Task) (values : List Decimal)
    (outcome : Except EvalError Decimal) :
    runAfter divisionScale inputs (push tasks values outcome) =
      proceed outcome fun value => run divisionScale inputs tasks (value :: values) := by
  rcases outcome with error | value
  · rfl
  · rfl

/-- **A run does what its rounds do.** -/
theorem run_eq_runAfter (s : State) :
    run divisionScale inputs s.tasks s.values =
      runAfter divisionScale inputs (round divisionScale inputs s) := by
  obtain ⟨tasks, values⟩ := s
  rcases tasks with _ | ⟨e | op | op, tasks⟩
  · rcases values with _ | ⟨value, _ | ⟨another, rest⟩⟩ <;> simp [run, round, runAfter]
  · cases e with
    | var name index => rw [round, runAfter_push, run]
    | _ => simp [run, round, runAfter]
  · rcases values with _ | ⟨value, values⟩
    · simp [run, round, runAfter]
    · rw [round, runAfter_push, run]
  · rcases values with _ | ⟨right, _ | ⟨left, values⟩⟩
    · simp [run, round, runAfter]
    · simp [run, round, runAfter]
    · rw [round, runAfter_push, run]

/-! ## Runs -/

/-- All states of a run have one outcome. -/
theorem run_of_reaches (h : Round.Reaches (round divisionScale inputs) s next) :
    run divisionScale inputs next.tasks next.values =
      run divisionScale inputs s.tasks s.values := by
  refine h.keeps (I := fun t => run divisionScale inputs t.tasks t.values = _) ?_ rfl
  intro between next hround hbetween
  rw [← hbetween, run_eq_runAfter between, hround, runAfter]

/-- A run that has an outcome is nowhere stuck. -/
theorem round_ne_stuck (hrun : run divisionScale inputs s.tasks s.values = some outcome)
    (h : Round.Reaches (round divisionScale inputs) s next) :
    round divisionScale inputs next ≠ .stuck := by
  intro hstuck
  rw [← run_of_reaches h, run_eq_runAfter, hstuck] at hrun
  cases hrun

/-- Every round lowers the weight of the tasks. -/
theorem weight_lt_of_round (s next : State) (h : round divisionScale inputs s = .goesOn next) :
    weight next.tasks < weight s.tasks := by
  obtain ⟨tasks, values⟩ := s
  rcases tasks with _ | ⟨e | op | op, tasks⟩
  · rcases values with _ | ⟨value, _ | ⟨another, rest⟩⟩ <;> cases h
  · cases e with
    | number value =>
      cases h
      simp [weight, Task.weight, Expr.size]
    | var name index => simp [weight, tasks_of_push h, Task.weight, Expr.size]
    | unary op operand =>
      cases h
      simp [weight, Task.weight, Expr.size]
      omega
    | binary op left right seen =>
      cases h
      simp [weight, Task.weight, Expr.size]
      omega
  · rcases values with _ | ⟨value, values⟩
    · cases h
    · simp [weight, tasks_of_push h, Task.weight]
  · rcases values with _ | ⟨right, _ | ⟨left, values⟩⟩
    · cases h
    · cases h
    · simp [weight, tasks_of_push h, Task.weight]

/-- The rounds of a run end with its outcome. -/
theorem exists_last_of_run (hrun : run divisionScale inputs s.tasks s.values = some outcome) :
    ∃ last, Round.Reaches (round divisionScale inputs) s last ∧
      round divisionScale inputs last = .ends outcome := by
  obtain ⟨last, hreaches, hstops⟩ := Round.exists_last weight_lt_of_round s
  refine ⟨last, hreaches, ?_⟩
  rw [← run_of_reaches hreaches, run_eq_runAfter] at hrun
  rcases hround : round divisionScale inputs last with next | ended | _
  · exact absurd hround (hstops next)
  · rw [hround] at hrun
    cases hrun
    rfl
  · rw [hround] at hrun
    cases hrun

/-- A run ends with a value where no task and no other value is left. -/
theorem eq_of_ends_ok {value : Decimal} (h : round divisionScale inputs s = .ends (.ok value)) :
    s = ⟨[], [value]⟩ := by
  obtain ⟨tasks, values⟩ := s
  rcases tasks with _ | ⟨e | op | op, tasks⟩
  · rcases values with _ | ⟨last, _ | ⟨another, rest⟩⟩ <;> cases h
    rfl
  · cases e with
    | var name index => exact absurd h (Round.resume_ne_ends_ok _ _ _)
    | _ => cases h
  · rcases values with _ | ⟨operand, values⟩
    · cases h
    · exact absurd h (Round.resume_ne_ends_ok _ _ _)
  · rcases values with _ | ⟨right, _ | ⟨left, values⟩⟩
    · cases h
    · cases h
    · exact absurd h (Round.resume_ne_ends_ok _ _ _)

end Machine

/-! ## Formulas -/

/-- **The machine refines the value along the tree**: a formula evaluates to the value of its tree,
or to the first error there. No state of its run is stuck, so no operator finds too few values; the
run does not go on forever, and its last round ends with that value, where it is the only one that
is left, or with that error. -/
theorem Formula.evaluate_refines (formula : Formula) (inputs : List Decimal) :
    let divisionScale := formula.options.divisionScale
    let value := formula.root.value divisionScale inputs
    let start : Machine.State := ⟨[.visit formula.root], []⟩
    formula.evaluate inputs = value ∧
      (∀ s, Round.Reaches (Machine.round divisionScale inputs) start s →
        Machine.round divisionScale inputs s ≠ .stuck) ∧
      (∀ states : Nat → Machine.State,
        ¬ ∀ n, Machine.round divisionScale inputs (states n) = .goesOn (states (n + 1))) ∧
      ∃ last, Round.Reaches (Machine.round divisionScale inputs) start last ∧
        Machine.round divisionScale inputs last = .ends value ∧
        ∀ v, value = .ok v → last = ⟨[], [v]⟩ := by
  intro divisionScale value start
  have hrun : Machine.run divisionScale inputs start.tasks start.values = some value :=
    Machine.run_root divisionScale inputs formula.root
  obtain ⟨last, hreaches, hlast⟩ := Machine.exists_last_of_run hrun
  refine ⟨formula.evaluate_eq_value inputs, fun s => Machine.round_ne_stuck hrun,
    Round.not_endless Machine.weight_lt_of_round, last, hreaches, hlast, ?_⟩
  intro v hv
  rw [hv] at hlast
  exact Machine.eq_of_ends_ok hlast

end Reckoner
