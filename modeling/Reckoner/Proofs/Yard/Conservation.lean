import Reckoner.Proofs.Expr.Numbering
import Reckoner.Proofs.Yard.Step

/-!
# What a run keeps

Operators build trees on trees, so what a run puts together are the leaves that it has read. Whatever
the order of the tokens is, infix or not, the following holds in every state of a run.

* The **leaves** of the operands, from the oldest operand to the newest, are the operand tokens that
  have been read, in their order.
* The operands are **numbered** one after the other, and the newest ends with the variables that the
  yard has seen (`Yard.Stacked`): whatever acts takes the newest operand, so the count that it
  records is the number of variables seen up to its last leaf.

An expression that has been parsed is therefore numbered from its own leaves, and these are the
operand tokens.
-/

namespace Reckoner

/-! ## Leaves -/

/-- An operand without its place among the inputs. -/
inductive Leaf where
  /-- a number -/
  | number (value : Decimal)
  /-- a variable -/
  | letter (name : String)
  deriving DecidableEq, Repr

/-- The leaves of an expression from left to right. -/
def Expr.leaves : Expr → List Leaf
  | number value => [.number value]
  | var name _ => [.letter name]
  | unary _ operand => operand.leaves
  | binary _ left right _ => left.leaves ++ right.leaves

/-- The name of a leaf that is a variable. -/
def Leaf.name? : Leaf → Option String
  | number _ => none
  | letter name => some name

/-- The leaf that a token stands for. -/
def Token.leaf? (t : Token) : Option Leaf :=
  match t.kind with
  | .number => (Decimal.ofString? t.text).map .number
  | .constant => (Constant.ofName? t.text).map fun constant => .number constant.value
  | .letter => some (.letter t.text)
  | _ => none

namespace Token

variable {text : String} {value : Decimal}

theorem leaf?_number (reads : numberOf text = .ok value) :
    leaf? ⟨.number, text⟩ = some (.number value) := by
  simp [leaf?, numberOf_eq_ok.mp reads]

theorem leaf?_constant (reads : constantOf text = .ok value) :
    leaf? ⟨.constant, text⟩ = some (.number value) := by
  obtain ⟨constant, hc, rfl⟩ := constantOf_eq_ok.mp reads
  simp [leaf?, hc]

theorem leaf?_letter (name : String) : leaf? ⟨.letter, name⟩ = some (.letter name) := rfl

theorem filterMap_leaf?_concat {t : Token} {leaf : Leaf} (h : t.leaf? = some leaf)
    (tokens : List Token) :
    (tokens ++ [t]).filterMap leaf? = tokens.filterMap leaf? ++ [leaf] := by
  simp [h]

theorem filterMap_leaf?_concat_none {t : Token} (h : t.leaf? = none) (tokens : List Token) :
    (tokens ++ [t]).filterMap leaf? = tokens.filterMap leaf? := by
  simp [h]

end Token

/-- Numbering sees the names of the leaves. -/
theorem Expr.indexed_snd (e : Expr) (known : Variables) :
    (e.indexed known).2 = known.seeAll (e.leaves.filterMap Leaf.name?) := by
  induction e generalizing known with
  | number value => rfl
  | var name index => rfl
  | unary op operand ih => exact ih known
  | binary op left right seen ihl ihr =>
    simp only [indexed, leaves, List.filterMap_append, ihl, ihr, Variables.seeAll,
      List.foldl_append]

namespace Yard

open Token

/-- The leaves of all operands, from the oldest operand to the newest. -/
def leavesOf (operands : List Expr) : List Leaf := operands.reverse.flatMap Expr.leaves

@[simp] theorem leavesOf_cons (e : Expr) (operands : List Expr) :
    leavesOf (e :: operands) = leavesOf operands ++ e.leaves := by
  simp [leavesOf]

variable {seen : Nat} {operands result : List Expr} {operator : Operator}
  {operators : List Operator}

/-! ## The leaves stay -/

theorem leavesOf_act (h : act seen operator operands = .ok result) :
    leavesOf result = leavesOf operands := by
  rcases act_eq_ok h with ⟨op, operand, rest, rfl, rfl, rfl⟩ | ⟨op, right, left, rest, rfl, rfl, rfl⟩
  · simp [Expr.leaves]
  · simp [Expr.leaves]

theorem leavesOf_settle (h : settle seen operators operands = .ok result) :
    leavesOf result = leavesOf operands :=
  settle_preserves (Q := fun e => leavesOf e = leavesOf operands)
    (fun _ _ _ ha hQ => (leavesOf_act ha).trans hQ) h rfl

/-! ## The numbers stay -/

/-- The operands are numbered from the oldest to the newest, and `known` have been seen at the end
of the newest. -/
def Stacked : List Expr → Variables → Prop
  | [], known => known = Variables.empty
  | e :: rest, known => ∃ before, e.Numbered before known ∧ Stacked rest before

theorem Stacked.act {known : Variables} (h : act known.count operator operands = .ok result)
    (hstacked : Stacked operands known) : Stacked result known := by
  rcases act_eq_ok h with ⟨op, operand, rest, rfl, rfl, rfl⟩ | ⟨op, right, left, rest, rfl, rfl, rfl⟩
  · obtain ⟨before, hoperand, hrest⟩ := hstacked
    exact ⟨before, hoperand.unary op, hrest⟩
  · obtain ⟨between, hright, before, hleft, hrest⟩ := hstacked
    exact ⟨before, hleft.binary hright op, hrest⟩

theorem Stacked.settle {known : Variables}
    (h : settle known.count operators operands = .ok result)
    (hstacked : Stacked operands known) : Stacked result known :=
  settle_preserves (Q := fun e => Stacked e known) (fun _ _ _ ha hQ => hQ.act ha) h hstacked

/-! ## Every state of a run -/

/-- What holds of a yard when certain tokens have been read. -/
structure Keeps (tokens : List Token) (yard : Yard) : Prop where
  /-- the leaves of the operands are the operand tokens -/
  leaves : leavesOf yard.operands = tokens.filterMap Token.leaf?
  /-- the operands are numbered -/
  stacked : Stacked yard.operands yard.known

theorem keeps_empty : Keeps [] empty := ⟨rfl, rfl⟩

/-- One token keeps what holds. -/
theorem Keeps.step {tokens : List Token} {yard after : Yard} {index : Nat} {t : Token}
    (hstep : Step yard index t after) (h : Keeps tokens yard) : Keeps (tokens ++ [t]) after := by
  obtain ⟨hleaves, hstacked⟩ := h
  cases hstep with
  | number reads =>
    refine ⟨?_, _, Expr.numbered_number .., hstacked⟩
    rw [filterMap_leaf?_concat (Token.leaf?_number reads), ← hleaves]
    exact leavesOf_cons ..
  | constant reads =>
    refine ⟨?_, _, Expr.numbered_number .., hstacked⟩
    rw [filterMap_leaf?_concat (Token.leaf?_constant reads), ← hleaves]
    exact leavesOf_cons ..
  | letter name =>
    refine ⟨?_, _, Expr.numbered_var .., hstacked⟩
    rw [filterMap_leaf?_concat (Token.leaf?_letter name), ← hleaves]
    exact leavesOf_cons ..
  | unary reads => exact ⟨hleaves.trans (filterMap_leaf?_concat_none rfl tokens).symm, hstacked⟩
  | opening text => exact ⟨hleaves.trans (filterMap_leaf?_concat_none rfl tokens).symm, hstacked⟩
  | binary reads above binds stops settled =>
    refine ⟨?_, hstacked.settle settled⟩
    rw [filterMap_leaf?_concat_none rfl, ← hleaves]
    exact leavesOf_settle settled
  | closing front above settled unfronted fronted =>
    refine ⟨?_, (hstacked.settle settled).settle fronted⟩
    rw [filterMap_leaf?_concat_none rfl, ← hleaves]
    exact (leavesOf_settle fronted).trans (leavesOf_settle settled)

/-- A run keeps what holds. -/
theorem keeps_readFrom {tokens : List Token} {yard : Yard}
    (h : empty.readFrom 0 tokens = .ok yard) : Keeps tokens yard :=
  readFrom_preserves (fun _ _ _ _ _ hstep hI => hI.step hstep) h keeps_empty

end Yard

/-! ## What has been parsed -/

namespace Expr

variable {tokens : List Token} {e : Expr}

/-- **Conservation**: the leaves of what has been parsed are the operand tokens, in their order, and
its numbers are those that its leaves give. -/
theorem conserved_of_ofTokens (h : ofTokens tokens = .ok e) :
    e.leaves = tokens.filterMap Token.leaf? ∧ ∃ known, e.Numbered Variables.empty known := by
  obtain ⟨yard, operators, hread, -, hs⟩ := Yard.run_of_ofTokens h
  obtain ⟨hleaves, hstacked⟩ := Yard.keeps_readFrom hread
  obtain ⟨before, hnumbered, rfl⟩ := hstacked.settle hs
  refine ⟨?_, _, hnumbered⟩
  rw [← hleaves, ← Yard.leavesOf_settle hs]
  simp [Yard.leavesOf]

end Expr

end Reckoner
