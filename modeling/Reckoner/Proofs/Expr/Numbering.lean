import Reckoner.Expr.Basic
import Reckoner.Proofs.Variables

/-!
# Numbered trees

The indices of variables and the counts at binary nodes are not free: reading the leaves of a tree
from left to right, after some variables have been seen, fixes all of them. `Expr.indexed` is the
tree with these numbers, together with the variables that have been seen at its end, and
`Expr.bare` is the tree without them.

* A tree **is numbered** if `indexed` leaves it alone (`Expr.Numbered`), and so the numbers of a
  numbered tree depend on nothing but its bare form.
* The variables seen are the names of the leaves, each at its **first occurrence**
  (`Variables.names_seeAll`), so that the index of a name counts the names that were seen before it
  (`Variables.index_seeAll`).
-/

namespace Reckoner

/-! ## Bare trees and numbered trees -/

namespace Expr

/-- The tree without indices and counts. -/
def bare : Expr → Expr
  | number value => number value
  | var name _ => var name 0
  | unary op operand => unary op operand.bare
  | binary op left right _ => binary op left.bare right.bare 0

/-- The tree as it is numbered after `known` have been seen, and the variables seen at its end. A
variable gets the index of its name, a binary node the number of variables seen up to its last
leaf. -/
def indexed (known : Variables) : Expr → Expr × Variables
  | number value => (number value, known)
  | var name _ => (var name (known.index name).1, known.see name)
  | unary op operand =>
    let (operand, known) := operand.indexed known
    (unary op operand, known)
  | binary op left right _ =>
    let (left, known) := left.indexed known
    let (right, known) := right.indexed known
    (binary op left right known.count, known)

/-- The tree carries the numbers that it gets after `before`, and `after` has been seen at its
end. -/
def Numbered (before : Variables) (e : Expr) (after : Variables) : Prop :=
  e.indexed before = (e, after)

theorem Numbered.fst_eq {before after : Variables} {e : Expr} (h : Numbered before e after) :
    (e.indexed before).1 = e := congrArg Prod.fst h

theorem Numbered.snd_eq {before after : Variables} {e : Expr} (h : Numbered before e after) :
    (e.indexed before).2 = after := congrArg Prod.snd h

/-- Numbering changes nothing but the numbers. -/
@[simp] theorem bare_indexed (e : Expr) (known : Variables) :
    (e.indexed known).1.bare = e.bare := by
  induction e generalizing known with
  | number value => rfl
  | var name index => rfl
  | unary op operand ih => simp [indexed, bare, ih]
  | binary op left right seen ihl ihr => simp [indexed, bare, ihl, ihr]

/-- Numbering does not look at the numbers that are there. -/
@[simp] theorem indexed_bare (e : Expr) (known : Variables) :
    e.bare.indexed known = e.indexed known := by
  induction e generalizing known with
  | number value => rfl
  | var name index => rfl
  | unary op operand ih => simp [indexed, bare, ih]
  | binary op left right seen ihl ihr => simp [indexed, bare, ihl, ihr]

theorem numbered_indexed (e : Expr) (known : Variables) :
    Numbered known (e.indexed known).1 (e.indexed known).2 := by
  rw [Numbered, ← indexed_bare, bare_indexed, indexed_bare]

/-- A numbered tree is known from its bare form. -/
theorem Numbered.eq_indexed {before after : Variables} {e : Expr}
    (h : Numbered before e after) : e = (e.bare.indexed before).1 := by
  rw [indexed_bare, h.fst_eq]

/-! ## Numbered trees, node by node -/

theorem numbered_number (known : Variables) (value : Decimal) :
    Numbered known (number value) known := rfl

theorem numbered_var (known : Variables) (name : String) :
    Numbered known (var name (known.index name).1) (known.see name) := rfl

theorem Numbered.unary {before after : Variables} {operand : Expr}
    (h : Numbered before operand after) (op : UnaryOp) :
    Numbered before (.unary op operand) after := by
  rw [Numbered] at h ⊢
  simp only [indexed, h]

theorem Numbered.binary {before between after : Variables} {left right : Expr}
    (hl : Numbered before left between) (hr : Numbered between right after) (op : BinaryOp) :
    Numbered before (.binary op left right after.count) after := by
  rw [Numbered] at hl hr ⊢
  simp only [indexed, hl, hr]

end Expr

end Reckoner
