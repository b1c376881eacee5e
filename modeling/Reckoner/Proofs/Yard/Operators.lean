import Mathlib.Algebra.BigOperators.Group.Multiset.Basic
import Reckoner.Proofs.Token.Arrangement
import Reckoner.Proofs.Yard.Conservation

/-!
# Every operator acts once

Whatever the order of the tokens is, an operator is pending from the token that writes it until it
acts, and is the root of an operand from then on. So the operators of the operands and those that
are pending are together the operators that have been read (`Yard.Employs`), each as often as it was
read.

When all operators have acted, the operands that are left are made of all leaves and all operators
(`Yard.conserved_of_settled`). A tree has one leaf more than it has binary operators, which gives
their **number** (`Yard.length_add_binaries`).
-/

namespace Reckoner

/-! ## Operators of trees, tokens and stacks -/

/-- The operator has two operands. -/
def Operator.isBinary : Operator → Bool
  | unary _ => false
  | binary _ => true

/-- The operators of an expression, each as often as it occurs. -/
def Expr.operators : Expr → Multiset Operator
  | number _ => 0
  | var _ _ => 0
  | unary op operand => .unary op ::ₘ operand.operators
  | binary op left right _ => .binary op ::ₘ (left.operators + right.operators)

/-- The operator that a token stands for. -/
def Token.operator? (t : Token) : Option Operator :=
  match t.kind with
  | .unary => (UnaryOp.ofSymbol? t.text).map .unary
  | .binary => (BinaryOp.ofSymbol? t.text).map .binary
  | _ => none

/-- The operator that is pending. -/
def Pending.operator? : Pending → Option Operator
  | group _ => none
  | operator o => some o

/-- A tree has one leaf more than it has binary operators. -/
theorem Expr.length_leaves (e : Expr) :
    e.leaves.length = e.operators.countP (·.isBinary) + 1 := by
  induction e with
  | number value => rfl
  | var name index => rfl
  | unary op operand ih =>
    rw [leaves, operators, Multiset.countP_cons, ih]
    rfl
  | binary op left right seen ihl ihr =>
    have hroot : (Operator.binary op).isBinary = true := rfl
    rw [leaves, operators, Multiset.countP_cons, Multiset.countP_add, List.length_append, ihl, ihr,
      if_pos hroot]
    omega

namespace Token

variable {text : String}

theorem operator?_unary {op : UnaryOp} (reads : unaryOf text = .ok op) :
    operator? ⟨.unary, text⟩ = some (.unary op) := by
  simp [operator?, unaryOf_eq_ok.mp reads]

theorem operator?_binary {op : BinaryOp} (reads : binaryOf text = .ok op) :
    operator? ⟨.binary, text⟩ = some (.binary op) := by
  simp [operator?, binaryOf_eq_ok.mp reads]

/-- The operators of some tokens, each as often as it occurs. -/
def operators (tokens : List Token) : Multiset Operator := tokens.filterMap operator?

theorem operators_concat {t : Token} {o : Operator} (h : t.operator? = some o)
    (tokens : List Token) : operators (tokens ++ [t]) = o ::ₘ operators tokens := by
  simp [operators, h, ← Multiset.coe_add, add_comm _ {o}]

theorem operators_concat_none {t : Token} (h : t.operator? = none) (tokens : List Token) :
    operators (tokens ++ [t]) = operators tokens := by
  simp [operators, h]

end Token

namespace Yard

/-- The operators of all operands. -/
def operatorsOf (operands : List Expr) : Multiset Operator := (operands.map Expr.operators).sum

/-- The operators that are pending. -/
def waiting (pending : List Pending) : Multiset Operator := pending.filterMap Pending.operator?

@[simp] theorem operatorsOf_cons (e : Expr) (operands : List Expr) :
    operatorsOf (e :: operands) = e.operators + operatorsOf operands := by
  simp [operatorsOf]

@[simp] theorem waiting_operator (o : Operator) (pending : List Pending) :
    waiting (.operator o :: pending) = o ::ₘ waiting pending := by
  simp [waiting, Pending.operator?]

@[simp] theorem waiting_group (token : Nat) (pending : List Pending) :
    waiting (.group token :: pending) = waiting pending := rfl

@[simp] theorem waiting_row (operators : List Operator) (pending : List Pending) :
    waiting (row operators ++ pending) = operators + waiting pending := by
  simp [waiting, List.filterMap_map, Function.comp_def, Pending.operator?]

variable {seen : Nat} {operands result : List Expr} {operator : Operator}
  {operators : List Operator} {tokens : List Token} {yard after : Yard} {index : Nat}

/-! ## An operator acts -/

/-- An operator that acts is the root of an operand. -/
theorem operatorsOf_act (h : act seen operator operands = .ok result) :
    operatorsOf result = operator ::ₘ operatorsOf operands := by
  rcases act_eq_ok h with ⟨op, operand, rest, rfl, rfl, rfl⟩ | ⟨op, right, left, rest, rfl, rfl, rfl⟩
  · simp [Expr.operators]
  · simp [Expr.operators, add_assoc, add_left_comm]

theorem operatorsOf_settle (h : settle seen operators operands = .ok result) :
    operatorsOf result = operators + operatorsOf operands := by
  induction operators generalizing operands with
  | nil =>
    cases h
    simp
  | cons operator operators ih =>
    obtain ⟨between, ha, hs⟩ := bind_eq_ok.mp h
    rw [ih hs, operatorsOf_act ha]
    simp [← Multiset.cons_coe]

/-! ## Every state of a run -/

/-- The operators that have been read either have acted or are pending. -/
def Employs (tokens : List Token) (yard : Yard) : Prop :=
  operatorsOf yard.operands + waiting yard.pending = Token.operators tokens

theorem employs_empty : Employs [] empty := rfl

/-- One token keeps what holds. -/
theorem Employs.step {t : Token} (hstep : Step yard index t after) (h : Employs tokens yard) :
    Employs (tokens ++ [t]) after := by
  rw [Employs] at h ⊢
  cases hstep with
  | number reads =>
    rw [Token.operators_concat_none rfl, ← h]
    simp [pushOperand, Expr.operators]
  | constant reads =>
    rw [Token.operators_concat_none rfl, ← h]
    simp [pushOperand, Expr.operators]
  | letter name =>
    rw [Token.operators_concat_none rfl, ← h]
    simp [pushVariable, Expr.operators]
  | unary reads =>
    rw [Token.operators_concat (Token.operator?_unary reads), ← h]
    simp [pushPending]
  | opening text =>
    rw [Token.operators_concat_none rfl, ← h]
    simp [pushPending]
  | binary reads above binds stops settled =>
    rw [Token.operators_concat (Token.operator?_binary reads), ← h, above, waiting_row,
      waiting_operator, operatorsOf_settle settled]
    simp [add_assoc, add_left_comm]
  | closing front above settled unfronted fronted =>
    rw [Token.operators_concat_none rfl, ← h, above, waiting_row, waiting_group, waiting_row,
      operatorsOf_settle fronted, operatorsOf_settle settled]
    simp [add_assoc, add_left_comm]

theorem employs_readFrom (h : empty.readFrom 0 tokens = .ok yard) : Employs tokens yard :=
  readFrom_preserves (fun _ _ _ _ _ hstep hI => hI.step hstep) h employs_empty

/-- **Conservation**: when everything that is pending has acted, the operands have the leaves and
the operators that have been read. -/
theorem conserved_of_settled (hread : empty.readFrom 0 tokens = .ok yard)
    (hrow : yard.pending = row operators)
    (hs : settle yard.known.count operators yard.operands = .ok result) :
    leavesOf result = tokens.filterMap Token.leaf? ∧ operatorsOf result = Token.operators tokens := by
  refine ⟨(leavesOf_settle hs).trans (keeps_readFrom hread).leaves, ?_⟩
  rw [operatorsOf_settle hs, ← employs_readFrom hread, hrow, ← List.append_nil (row operators),
    waiting_row]
  simp [waiting, add_comm]

end Yard

/-! ## Counting -/

namespace Token

variable {tokens : List Token}

/-- The text of the token stands for something, where the kind of the token asks for it. -/
def Resolves (t : Token) : Prop :=
  match t.kind with
  | .number => ∃ value, numberOf t.text = .ok value
  | .constant => ∃ value, constantOf t.text = .ok value
  | .unary => ∃ op, unaryOf t.text = .ok op
  | .binary => ∃ op, binaryOf t.text = .ok op
  | _ => True

theorem Resolves.isSome_leaf? {t : Token} (h : t.Resolves) : t.leaf?.isSome = t.kind.isLeaf := by
  obtain ⟨kind, text⟩ := t
  cases kind with
  | number =>
    obtain ⟨value, reads⟩ := h
    rw [leaf?_number reads]
    rfl
  | constant =>
    obtain ⟨value, reads⟩ := h
    rw [leaf?_constant reads]
    rfl
  | _ => rfl

theorem Resolves.isBinary_operator? {t : Token} (h : t.Resolves) :
    (t.operator?.map (·.isBinary)).getD false = decide (t.kind = .binary) := by
  obtain ⟨kind, text⟩ := t
  cases kind with
  | unary =>
    obtain ⟨op, reads⟩ := h
    rw [operator?_unary reads]
    rfl
  | binary =>
    obtain ⟨op, reads⟩ := h
    rw [operator?_binary reads]
    rfl
  | _ => rfl

theorem Resolves.any_isBinary {t : Token} (h : t.Resolves) :
    t.operator?.any (·.isBinary) = decide (t.kind = .binary) := by
  rw [← h.isBinary_operator?]
  cases t.operator? <;> rfl

theorem Resolves.any_not_isBinary {t : Token} (h : t.Resolves) :
    t.operator?.any (!·.isBinary) = decide (t.kind = .unary) := by
  obtain ⟨kind, text⟩ := t
  cases kind with
  | unary =>
    obtain ⟨op, reads⟩ := h
    rw [operator?_unary reads]
    rfl
  | binary =>
    obtain ⟨op, reads⟩ := h
    rw [operator?_binary reads]
    rfl
  | _ => rfl

/-- All tokens but parentheses stand for a leaf or for an operator. -/
theorem Resolves.isParenthesis {t : Token} (h : t.Resolves) (hleaf : t.leaf? = none)
    (hoperator : t.operator? = none) : t.kind = .opening ∨ t.kind = .closing := by
  have hnoLeaf := h.isSome_leaf?
  rw [hleaf] at hnoLeaf
  obtain ⟨kind, text⟩ := t
  cases kind with
  | opening => exact .inl rfl
  | closing => exact .inr rfl
  | number | letter | constant => cases hnoLeaf
  | unary =>
    obtain ⟨op, reads⟩ := h
    rw [operator?_unary reads] at hoperator
    cases hoperator
  | binary =>
    obtain ⟨op, reads⟩ := h
    rw [operator?_binary reads] at hoperator
    cases hoperator

theorem length_leaves_of_resolves (h : ∀ t ∈ tokens, t.Resolves) :
    (tokens.filterMap leaf?).length = tokens.countP (·.kind.isLeaf) := by
  rw [List.length_filterMap_eq_countP]
  exact List.countP_congr fun t ht => by rw [(h t ht).isSome_leaf?]

theorem countP_operators_of_resolves (h : ∀ t ∈ tokens, t.Resolves) :
    (operators tokens).countP (·.isBinary) = tokens.countP (·.kind = .binary) := by
  rw [operators, Multiset.coe_countP]
  simp only [Bool.decide_eq_true, List.countP_filterMap]
  exact List.countP_congr fun t ht => by rw [(h t ht).isBinary_operator?]

end Token

namespace Yard

variable {tokens : List Token} {yard after : Yard} {index : Nat} {operators : List Operator}
  {operands : List Expr}

theorem resolves_of_step {t : Token} (h : Step yard index t after) : t.Resolves := by
  cases h with
  | number reads => exact ⟨_, reads⟩
  | constant reads => exact ⟨_, reads⟩
  | unary reads => exact ⟨_, reads⟩
  | binary reads => exact ⟨_, reads⟩
  | _ => trivial

/-- Tokens that can be read all stand for something. -/
theorem resolves_of_readFrom (h : yard.readFrom index tokens = .ok after) :
    ∀ t ∈ tokens, t.Resolves := by
  induction tokens generalizing yard index with
  | nil => exact fun t ht => absurd ht List.not_mem_nil
  | cons first rest ih =>
    obtain ⟨between, hfirst, hrest⟩ := bind_eq_ok.mp h
    intro t ht
    rcases List.mem_cons.mp ht with rfl | ht
    · exact resolves_of_step (step_of_read hfirst)
    · exact ih hrest t ht

theorem length_leavesOf (operands : List Expr) :
    (leavesOf operands).length = (operatorsOf operands).countP (·.isBinary) + operands.length := by
  induction operands with
  | nil => rfl
  | cons e rest ih =>
    rw [leavesOf_cons, operatorsOf_cons, Multiset.countP_add, List.length_append, List.length_cons,
      ih, e.length_leaves]
    omega

/-- **Counting**: when everything that is pending has acted, the operands that are left and the
binary operators that have been read are together as many as the operands that have been read. -/
theorem length_add_binaries (hread : empty.readFrom 0 tokens = .ok yard)
    (hrow : yard.pending = row operators)
    (hs : settle yard.known.count operators yard.operands = .ok operands) :
    operands.length + tokens.countP (·.kind = .binary) = tokens.countP (·.kind.isLeaf) := by
  have hresolves := resolves_of_readFrom hread
  obtain ⟨hleaves, hoperators⟩ := conserved_of_settled hread hrow hs
  have hlength := length_leavesOf operands
  rw [hleaves, hoperators, Token.length_leaves_of_resolves hresolves,
    Token.countP_operators_of_resolves hresolves] at hlength
  omega

end Yard

/-! ## What has been parsed -/

namespace Expr

variable {tokens : List Token} {e : Expr}

theorem resolves_of_ofTokens (h : ofTokens tokens = .ok e) : ∀ t ∈ tokens, t.Resolves := by
  obtain ⟨yard, -, hread, -, -⟩ := Yard.run_of_ofTokens h
  exact Yard.resolves_of_readFrom hread

/-- The operators of what has been parsed are those that have been read. -/
theorem operators_of_ofTokens (h : ofTokens tokens = .ok e) : e.operators = Token.operators tokens := by
  obtain ⟨yard, operators, hread, hrow, hs⟩ := Yard.run_of_ofTokens h
  have hoperators := (Yard.conserved_of_settled hread hrow hs).2
  simpa [Yard.operatorsOf] using hoperators

/-- **In what has been parsed, an operand is missing as often as one stands beside another.** -/
theorem missing_eq_adjacent (h : ofTokens tokens = .ok e) :
    Token.missing true tokens = Token.adjacent true tokens := by
  obtain ⟨yard, operators, hread, hrow, hs⟩ := Yard.run_of_ofTokens h
  have hcount := Yard.length_add_binaries hread hrow hs
  have hequation := Token.missing_add_leaves true tokens
  rw [List.length_singleton] at hcount
  rw [Bool.toNat_true] at hequation
  omega

end Expr

end Reckoner
