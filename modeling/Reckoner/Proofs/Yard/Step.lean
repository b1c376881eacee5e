import Reckoner.Expr.OfTokens

/-!
# What reading a token can do

Whatever acts on the operands of a yard, it is a row of operators from the front of what is pending,
one after the other (`Yard.settle`): those that bind before an incoming operator, those of a
group that is closed, or all that are left at the end. Which row that is, is said once here.

* From the row to the run: `actBefore_row`, `close_row` and `finish_row`.
* From the run to the row: `actBefore_eq_ok`, `close_eq_ok` and `finish_eq_ok`.
* `Yard.Step` lists what one token can do to a yard, and **nothing else can happen**
  (`Yard.step_of_read`).

What `act` preserves is therefore preserved by every row (`settle_preserves`), and what the rows and
the new operands preserve is preserved by every run (`readFrom_preserves`).
-/

namespace Reckoner

/-! ## What tokens stand for -/

namespace Token

variable {text : String}

theorem numberOf_eq_ok {value : Decimal} :
    numberOf text = .ok value ↔ Decimal.ofString? text = some value := by
  rcases h : Decimal.ofString? text with _ | read <;> simp [numberOf, h]

theorem constantOf_eq_ok {value : Decimal} :
    constantOf text = .ok value ↔
      ∃ constant, Constant.ofName? text = some constant ∧ constant.value = value := by
  rcases h : Constant.ofName? text with _ | constant <;> simp [constantOf, h]

theorem unaryOf_eq_ok {op : UnaryOp} : unaryOf text = .ok op ↔ UnaryOp.ofSymbol? text = some op := by
  rcases h : UnaryOp.ofSymbol? text with _ | read <;> simp [unaryOf, h]

theorem binaryOf_eq_ok {op : BinaryOp} :
    binaryOf text = .ok op ↔ BinaryOp.ofSymbol? text = some op := by
  rcases h : BinaryOp.ofSymbol? text with _ | read <;> simp [binaryOf, h]

end Token

/-- The expression under a stack of unary operators, the first of which acts first. -/
def Expr.under (front : List UnaryOp) (e : Expr) : Expr := front.foldl (fun e op => .unary op e) e

@[simp] theorem Expr.under_nil (e : Expr) : e.under [] = e := rfl

namespace Yard

/-! ## One operator -/

/-- Inversion for `act`: an operator takes the newest operands. -/
theorem act_eq_ok {seen : Nat} {operator : Operator} {operands result : List Expr}
    (h : act seen operator operands = .ok result) :
    (∃ op operand rest, operator = .unary op ∧ operands = operand :: rest ∧
      result = .unary op operand :: rest) ∨
    (∃ op right left rest, operator = .binary op ∧ operands = right :: left :: rest ∧
      result = .binary op left right seen :: rest) := by
  rcases operator with op | op
  · rcases operands with _ | ⟨operand, rest⟩
    · cases h
    · cases h
      exact .inl ⟨op, operand, rest, rfl, rfl, rfl⟩
  · rcases operands with _ | ⟨right, _ | ⟨left, rest⟩⟩
    · cases h
    · cases h
    · cases h
      exact .inr ⟨op, right, left, rest, rfl, rfl, rfl⟩

/-! ## Rows of operators -/

/-- The operators act one after the other, the first of them first. -/
def settle (seen : Nat) : List Operator → List Expr → Except ParseError (List Expr)
  | [], operands => .ok operands
  | operator :: rest, operands => do settle seen rest (← act seen operator operands)

/-- A row of pending operators. -/
abbrev row (operators : List Operator) : List Pending := operators.map .operator

theorem row_append (front back : List Operator) : row (front ++ back) = row front ++ row back :=
  List.map_append

/-- No operator at the front of what is pending binds before `next`. -/
def Stops (next : BinaryOp) (pending : List Pending) : Prop :=
  ∀ operator, pending.head? = some (.operator operator) → operator.bindsBefore next = false

/-- No unary operator is at the front of what is pending. -/
def NoUnary (pending : List Pending) : Prop :=
  ∀ op, pending.head? ≠ some (.operator (.unary op))

variable {seen token : Nat} {next : BinaryOp} {operators : List Operator}
  {pending rest : List Pending} {operands result : List Expr}

@[simp] theorem settle_nil : settle seen [] operands = .ok operands := rfl

@[simp] theorem settle_cons (operator : Operator) :
    settle seen (operator :: operators) operands =
      act seen operator operands >>= settle seen operators := rfl

theorem settle_append (front back : List Operator) (operands : List Expr) :
    settle seen (front ++ back) operands = settle seen front operands >>= settle seen back := by
  induction front generalizing operands with
  | nil => rfl
  | cons operator front ih =>
    rw [List.cons_append, settle_cons, settle_cons]
    rcases act seen operator operands with error | between
    · rfl
    · exact ih between

/-- What every operator preserves, a row of operators preserves. -/
theorem settle_preserves {Q : List Expr → Prop}
    (hact : ∀ operator operands result, act seen operator operands = .ok result →
      Q operands → Q result)
    (h : settle seen operators operands = .ok result) (hQ : Q operands) : Q result := by
  induction operators generalizing operands with
  | nil =>
    cases h
    exact hQ
  | cons operator operators ih =>
    obtain ⟨between, ha, hs⟩ := bind_eq_ok.mp h
    exact ih hs (hact _ _ _ ha hQ)

theorem stops_nil (next : BinaryOp) : Stops next [] := by
  intro operator h
  cases h

theorem stops_group (next : BinaryOp) (token : Nat) (rest : List Pending) :
    Stops next (.group token :: rest) := by
  intro operator h
  cases h

theorem stops_operator_iff {operator : Operator} :
    Stops next (.operator operator :: rest) ↔ operator.bindsBefore next = false := by
  simp [Stops]

/-- Unary operators that wait for an operand on top act on it. -/
theorem settle_front (seen : Nat) (front : List UnaryOp) (e : Expr) (before : List Expr) :
    settle seen (front.map .unary) (e :: before) = .ok (e.under front :: before) := by
  induction front generalizing e with
  | nil => rfl
  | cons op front ih => exact ih (.unary op e)

/-! ## From the row to the run -/

/-- An incoming operator lets a row act whose operators all bind before it, if what lies behind the
row does not. -/
theorem actBefore_row (hbinds : ∀ operator ∈ operators, operator.bindsBefore next)
    (hstops : Stops next rest) :
    actBefore seen next (row operators ++ rest) operands =
      settle seen operators operands >>= fun settled => .ok (rest, settled) := by
  induction operators generalizing operands with
  | nil =>
    rcases rest with _ | ⟨_ | operator, rest⟩
    · rfl
    · rfl
    · have hfree := stops_operator_iff.mp hstops
      simp [actBefore, hfree]
  | cons operator operators ih =>
    have hop : operator.bindsBefore next := hbinds _ (List.mem_cons_self ..)
    simp only [row, List.map_cons, List.cons_append, actBefore, hop, if_true, settle_cons]
    rcases act seen operator operands with error | between
    · rfl
    · exact ih fun o ho => hbinds o (List.mem_cons_of_mem _ ho)

/-- A closing parenthesis lets the row act that lies above its partner. -/
theorem close_row (partner : Nat) (operators : List Operator) (rest : List Pending)
    (operands : List Expr) :
    close seen token (row operators ++ .group partner :: rest) operands =
      settle seen operators operands >>= actOnGroup seen rest := by
  induction operators generalizing operands with
  | nil => rfl
  | cons operator operators ih =>
    simp only [row, List.map_cons, List.cons_append, close, settle_cons]
    rcases act seen operator operands with error | between
    · rfl
    · exact ih between

/-- At the end the whole row acts. -/
theorem finish_row (operators : List Operator) (operands : List Expr) :
    finish seen (row operators) operands = settle seen operators operands := by
  induction operators generalizing operands with
  | nil => rfl
  | cons operator operators ih =>
    simp only [row, List.map_cons, finish, settle_cons]
    rcases act seen operator operands with error | between
    · rfl
    · exact ih between

/-! ## From the run to the row -/

theorem actBefore_eq_ok {after : List Pending}
    (h : actBefore seen next pending operands = .ok (after, result)) :
    ∃ operators, pending = row operators ++ after ∧
      (∀ operator ∈ operators, operator.bindsBefore next) ∧ Stops next after ∧
      settle seen operators operands = .ok result := by
  induction pending generalizing operands with
  | nil =>
    cases h
    exact ⟨[], rfl, fun _ ho => absurd ho List.not_mem_nil, stops_nil _, rfl⟩
  | cons first pending ih =>
    rcases first with token | operator
    · cases h
      exact ⟨[], rfl, fun _ ho => absurd ho List.not_mem_nil, stops_group next token pending, rfl⟩
    · rw [actBefore] at h
      by_cases hop : operator.bindsBefore next
      · rw [if_pos hop] at h
        obtain ⟨between, ha, hrest⟩ := bind_eq_ok.mp h
        obtain ⟨operators, rfl, hbinds, hstops, hs⟩ := ih hrest
        refine ⟨operator :: operators, rfl, ?_, hstops, ?_⟩
        · intro o ho
          rcases List.mem_cons.mp ho with rfl | ho
          · exact hop
          · exact hbinds o ho
        · rw [settle_cons, ha]
          exact hs
      · rw [if_neg hop] at h
        cases h
        exact ⟨[], rfl, fun _ ho => absurd ho List.not_mem_nil,
          stops_operator_iff.mpr (by simpa using hop), rfl⟩

theorem close_eq_ok {after : List Pending}
    (h : close seen token pending operands = .ok (after, result)) :
    ∃ operators partner rest between, pending = row operators ++ .group partner :: rest ∧
      settle seen operators operands = .ok between ∧
      actOnGroup seen rest between = .ok (after, result) := by
  induction pending generalizing operands with
  | nil => cases h
  | cons first pending ih =>
    rcases first with partner | operator
    · exact ⟨[], partner, pending, operands, rfl, rfl, h⟩
    · rw [close] at h
      obtain ⟨between, ha, hrest⟩ := bind_eq_ok.mp h
      obtain ⟨operators, partner, rest, settled, rfl, hs, hgroup⟩ := ih hrest
      refine ⟨operator :: operators, partner, rest, settled, rfl, ?_, hgroup⟩
      rw [settle_cons, ha]
      exact hs

theorem finish_eq_ok (h : finish seen pending operands = .ok result) :
    ∃ operators, pending = row operators ∧ settle seen operators operands = .ok result := by
  induction pending generalizing operands with
  | nil => exact ⟨[], rfl, h⟩
  | cons first pending ih =>
    rcases first with token | operator
    · cases h
    · rw [finish] at h
      obtain ⟨between, ha, hrest⟩ := bind_eq_ok.mp h
      obtain ⟨operators, rfl, hs⟩ := ih hrest
      refine ⟨operator :: operators, rfl, ?_⟩
      rw [settle_cons, ha]
      exact hs

/-! ## One token -/

/-- What reading the token with the given index can do to a yard. -/
inductive Step (yard : Yard) (index : Nat) : Token → Yard → Prop where
  /-- a number is put onto the operands -/
  | number {text : String} {value : Decimal} (reads : Token.numberOf text = .ok value) :
      Step yard index ⟨.number, text⟩ (yard.pushOperand (.number value))
  /-- the number that a constant stands for is put onto the operands -/
  | constant {text : String} {value : Decimal} (reads : Token.constantOf text = .ok value) :
      Step yard index ⟨.constant, text⟩ (yard.pushOperand (.number value))
  /-- a variable is put onto the operands, with the index of its name -/
  | letter (name : String) : Step yard index ⟨.letter, name⟩ (yard.pushVariable name)
  /-- a unary operator is pending -/
  | unary {text : String} {op : UnaryOp} (reads : Token.unaryOf text = .ok op) :
      Step yard index ⟨.unary, text⟩ (yard.pushPending (.operator (.unary op)))
  /-- an opening parenthesis is pending -/
  | opening (text : String) : Step yard index ⟨.opening, text⟩ (yard.pushPending (.group index))
  /-- a row of operators acts before a binary operator, which is pending then itself -/
  | binary {text : String} {op : BinaryOp} {operators : List Operator} {rest : List Pending}
      {operands : List Expr} (reads : Token.binaryOf text = .ok op)
      (above : yard.pending = row operators ++ rest)
      (binds : ∀ operator ∈ operators, operator.bindsBefore op) (stops : Stops op rest)
      (settled : settle yard.known.count operators yard.operands = .ok operands) :
      Step yard index ⟨.binary, text⟩
        ⟨operands, .operator (.binary op) :: rest, yard.known⟩
  /-- the row of operators in a group acts, and the group is closed; `front` is the unary operator
  directly in front of the group, if there is one, and acts then -/
  | closing {text : String} {partner : Nat} {operators : List Operator} {rest : List Pending}
      {between operands : List Expr} (front : Option UnaryOp)
      (above : yard.pending =
        row operators ++ .group partner :: (row (front.toList.map .unary) ++ rest))
      (settled : settle yard.known.count operators yard.operands = .ok between)
      (unfronted : front = none → NoUnary rest)
      (fronted : settle yard.known.count (front.toList.map .unary) between = .ok operands) :
      Step yard index ⟨.closing, text⟩ ⟨operands, rest, yard.known⟩

theorem actOnGroup_of_noUnary (h : NoUnary pending) :
    actOnGroup seen pending operands = .ok (pending, operands) := by
  rcases pending with _ | ⟨token | op | op, rest⟩
  · rfl
  · rfl
  · exact absurd rfl (h op)
  · rfl

theorem actOnGroup_eq_ok {after : List Pending}
    (h : actOnGroup seen pending operands = .ok (after, result)) :
    ∃ front : Option UnaryOp, pending = row (front.toList.map .unary) ++ after ∧
      (front = none → NoUnary after) ∧
      settle seen (front.toList.map .unary) operands = .ok result := by
  by_cases hfree : NoUnary pending
  · rw [actOnGroup_of_noUnary hfree] at h
    cases h
    exact ⟨none, rfl, fun _ => hfree, rfl⟩
  · obtain ⟨op, hhead⟩ : ∃ op, pending.head? = some (.operator (.unary op)) := by
      simpa [NoUnary] using hfree
    obtain ⟨rest, rfl⟩ := List.head?_eq_some_iff.mp hhead
    obtain ⟨settled, ha, hr⟩ := bind_eq_ok.mp h
    cases hr
    refine ⟨some op, rfl, nofun, ?_⟩
    simp [ha]

/-- **Nothing else can happen** when a token is read. -/
theorem step_of_read {yard after : Yard} {index : Nat} {t : Token}
    (h : yard.read index t = .ok after) : Step yard index t after := by
  obtain ⟨kind, text⟩ := t
  cases kind with
  | number =>
    obtain ⟨value, hv, hr⟩ := bind_eq_ok.mp h
    cases hr
    exact .number hv
  | constant =>
    obtain ⟨value, hv, hr⟩ := bind_eq_ok.mp h
    cases hr
    exact .constant hv
  | letter =>
    cases h
    exact .letter text
  | unary =>
    obtain ⟨op, hop, hr⟩ := bind_eq_ok.mp h
    cases hr
    exact .unary hop
  | opening =>
    cases h
    exact .opening text
  | binary =>
    obtain ⟨op, hop, hr⟩ := bind_eq_ok.mp h
    obtain ⟨⟨rest, operands⟩, hstacks, hr⟩ := bind_eq_ok.mp hr
    cases hr
    obtain ⟨operators, habove, hbinds, hstops, hs⟩ := actBefore_eq_ok hstacks
    exact .binary hop habove hbinds hstops hs
  | closing =>
    obtain ⟨⟨rest, operands⟩, hstacks, hr⟩ := bind_eq_ok.mp h
    cases hr
    obtain ⟨operators, partner, behind, between, habove, hs, hgroup⟩ := close_eq_ok hstacks
    obtain ⟨front, rfl, hunfronted, hfronted⟩ := actOnGroup_eq_ok hgroup
    exact .closing front habove hs hunfronted hfronted

/-- Whatever is listed does happen. -/
theorem read_of_step {yard after : Yard} {index : Nat} {t : Token}
    (h : Step yard index t after) : yard.read index t = .ok after := by
  cases h with
  | number reads => simp [read, reads]
  | constant reads => simp [read, reads]
  | letter name => rfl
  | unary reads => simp [read, reads]
  | opening text => rfl
  | binary reads above binds stops settled =>
    simp [read, reads, above, actBefore_row binds stops, settled, withStacks, pushPending]
  | @closing text partner operators rest between operands front above settled unfronted fronted =>
    have hgroup : actOnGroup yard.known.count (row (front.toList.map .unary) ++ rest) between =
        .ok (rest, operands) := by
      rcases front with _ | op
      · cases fronted
        exact actOnGroup_of_noUnary (unfronted rfl)
      · rw [Option.toList, List.map_singleton, settle_cons] at fronted
        obtain ⟨settled, ha, hs⟩ := bind_eq_ok.mp fronted
        cases hs
        simp [actOnGroup, ha]
    simp only [read, above, close_row, settled, ok_bind, hgroup]
    rfl

/-! ## Runs -/

/-- What every token preserves, a run preserves. The invariant may speak about the tokens that have
been read. -/
theorem readFrom_preserves {I : List Token → Yard → Prop}
    (hstep : ∀ read yard index t after, Step yard index t after → I read yard →
      I (read ++ [t]) after)
    {tokens : List Token} : ∀ {read : List Token} {yard after : Yard} {index : Nat},
      yard.readFrom index tokens = .ok after → I read yard → I (read ++ tokens) after := by
  induction tokens with
  | nil =>
    intro read yard after index h hI
    cases h
    rwa [List.append_nil]
  | cons t rest ih =>
    intro read yard after index h hI
    obtain ⟨between, ht, hrest⟩ := bind_eq_ok.mp h
    have hI' := hstep _ _ _ _ _ (step_of_read ht) hI
    simpa using ih hrest hI'

theorem readFrom_cons (yard : Yard) (index : Nat) (t : Token) (rest : List Token) :
    yard.readFrom index (t :: rest) =
      yard.read index t >>= fun after => after.readFrom (index + 1) rest := rfl

@[simp] theorem readFrom_singleton (yard : Yard) (index : Nat) (t : Token) :
    yard.readFrom index [t] = yard.read index t := by
  rw [readFrom_cons]
  rcases yard.read index t with error | after <;> rfl

theorem readFrom_append {yard : Yard} {index : Nat} (front back : List Token) :
    yard.readFrom index (front ++ back) =
      yard.readFrom index front >>= fun after => after.readFrom (index + front.length) back := by
  induction front generalizing yard index with
  | nil => rfl
  | cons t front ih =>
    simp only [List.cons_append, readFrom]
    rcases yard.read index t with error | between
    · rfl
    · have hindex : index + (t :: front).length = index + 1 + front.length := by
        rw [List.length_cons]
        omega
      rw [hindex]
      exact ih

/-- The result is what is left when the whole row of pending operators has acted. -/
theorem result_eq_ok {yard : Yard} {e : Expr} :
    yard.result = .ok e ↔ ∃ operators, yard.pending = row operators ∧
      settle yard.known.count operators yard.operands = .ok [e] := by
  constructor
  · intro h
    obtain ⟨left, hf, hr⟩ := bind_eq_ok.mp h
    obtain ⟨operators, hrow, hs⟩ := finish_eq_ok hf
    refine ⟨operators, hrow, ?_⟩
    split at hr
    · cases hr
      exact hs
    · cases hr
  · rintro ⟨operators, hrow, hs⟩
    rw [result, hrow, finish_row, hs]
    rfl

/-- A list of tokens writes an expression if it is not empty and its run ends with that result. -/
theorem ofTokens_eq_ok {tokens : List Token} {e : Expr} :
    Expr.ofTokens tokens = .ok e ↔
      tokens ≠ [] ∧ ∃ yard, empty.readFrom 0 tokens = .ok yard ∧ yard.result = .ok e := by
  rcases tokens with _ | ⟨t, rest⟩
  · simp [Expr.ofTokens]
  · rw [Expr.ofTokens.eq_def]
    simp [bind_eq_ok]

/-- The run that writes an expression ends with operators alone pending, and when these have acted, the
expression is all that is left. -/
theorem run_of_ofTokens {tokens : List Token} {e : Expr} (h : Expr.ofTokens tokens = .ok e) :
    ∃ yard operators, empty.readFrom 0 tokens = .ok yard ∧ yard.pending = row operators ∧
      settle yard.known.count operators yard.operands = .ok [e] := by
  obtain ⟨-, yard, hread, hresult⟩ := ofTokens_eq_ok.mp h
  obtain ⟨operators, hrow, hs⟩ := result_eq_ok.mp hresult
  exact ⟨yard, operators, hread, hrow, hs⟩

end Yard

end Reckoner
