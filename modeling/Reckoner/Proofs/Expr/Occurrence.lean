import Reckoner.Proofs.Formula.Inputs
import Reckoner.Proofs.Yard.Failure

/-!
# What the nodes of a parsed tree record

Parsing neither loses nor invents anything: the leaves of a tree are the operand tokens in their order,
and its operators are the operator tokens, each as often as it was written. What is left to say is what
the numbers in the tree count.

A subtree **occurs** in a tree behind certain leaves (`Expr.Occurs`). In a numbered tree it is numbered
from the names of these leaves (`Expr.Numbered.of_occurs`), so that its numbers can be read off the
operand tokens (`Expr.ofTokens_exact`):

* the index of a variable counts the names before the **first** occurrence of its own name;
* the number at a binary node counts the names up to the **last** leaf of the node, however many of
  them stand in other parts of the tree.
-/

namespace Reckoner

/-! ## Selected tokens -/

/-- Selecting elements by what a partial function gives for them. -/
theorem map_filter_of_any {α β : Type} {f : α → Option β} {selects : α → Bool} {keeps : β → Bool}
    {list : List α} (h : ∀ a ∈ list, selects a = (f a).any keeps) :
    (list.filter selects).map f = ((list.filterMap f).filter keeps).map some := by
  induction list with
  | nil => rfl
  | cons a rest ih =>
    obtain ⟨ha, hrest⟩ := List.forall_mem_cons.mp h
    rcases hf : f a with _ | b
    · have hskip : selects a = false := by rw [ha, hf, Option.any_none]
      simp [hf, hskip, ih hrest]
    · rw [hf, Option.any_some] at ha
      cases hb : keeps b <;> simp [hf, ha, hb, ih hrest]

namespace Token

variable {tokens : List Token}

/-- The names among the first operand tokens are those of the first leaves. -/
theorem names_take_leaves {leaves : List Leaf}
    (h : (tokens.filter (·.kind.isLeaf)).map leaf? = leaves.map some) (count : Nat) :
    ((tokens.filter (·.kind.isLeaf)).take count).filterMap name? =
      (leaves.take count).filterMap Leaf.name? := by
  have hname (t : Token) : t.name? = t.leaf?.bind Leaf.name? := (name?_leaf? t).symm
  calc
    _ = (((tokens.filter (·.kind.isLeaf)).take count).map leaf?).filterMap (·.bind Leaf.name?) := by
      rw [List.filterMap_map, funext hname]
      rfl
    _ = ((leaves.take count).map some).filterMap (·.bind Leaf.name?) := by
      rw [List.map_take, h, List.map_take]
    _ = _ := by
      rw [List.filterMap_map]
      rfl

end Token

namespace Expr

/-! ## Where a subtree stands -/

/-- The tree has the part as a subtree, behind the given leaves. -/
inductive Occurs (part : Expr) : List Leaf → Expr → Prop where
  /-- the whole tree stands behind no leaves -/
  | root : Occurs part [] part
  /-- in the only operand -/
  | operand {front : List Leaf} {operand : Expr} (op : UnaryOp) (h : Occurs part front operand) :
      Occurs part front (.unary op operand)
  /-- in the left operand -/
  | left {front : List Leaf} {left : Expr} (op : BinaryOp) (right : Expr) (seen : Nat)
      (h : Occurs part front left) : Occurs part front (.binary op left right seen)
  /-- in the right operand, where all leaves of the left one stand before it -/
  | right {front : List Leaf} {right : Expr} (op : BinaryOp) (left : Expr) (seen : Nat)
      (h : Occurs part front right) : Occurs part (left.leaves ++ front) (.binary op left right seen)

variable {part e left right operand : Expr} {front : List Leaf} {before after : Variables}
  {op : BinaryOp} {seen : Nat}

/-- The leaves of a subtree follow those before it. -/
theorem Occurs.leaves_prefix (h : Occurs part front e) : front ++ part.leaves <+: e.leaves := by
  induction h with
  | root => exact List.prefix_refl _
  | operand op h ih => exact ih
  | left op right seen h ih => exact ih.trans (List.prefix_append _ _)
  | right op left seen h ih =>
    rw [List.append_assoc]
    exact (List.prefix_append_right_inj _).mpr ih

/-! ## Numbered subtrees -/

theorem Numbered.after_eq (h : Numbered before e after) :
    after = before.seeAll (e.leaves.filterMap Leaf.name?) :=
  h.snd_eq.symm.trans (e.indexed_snd before)

theorem Numbered.of_unary {op : UnaryOp} (h : Numbered before (.unary op operand) after) :
    Numbered before operand after := by
  simpa [Numbered, indexed, Prod.ext_iff] using h

/-- A numbered node has numbered operands, one after the other, and counts what they have seen. -/
theorem Numbered.of_binary (h : Numbered before (.binary op left right seen) after) :
    Numbered before left (before.seeAll (left.leaves.filterMap Leaf.name?)) ∧
      Numbered (before.seeAll (left.leaves.filterMap Leaf.name?)) right after ∧
      seen = after.count := by
  rw [Numbered, indexed, Prod.mk.injEq, binary.injEq] at h
  rw [← indexed_snd]
  obtain ⟨⟨-, hleft, hright, hseen⟩, hafter⟩ := h
  exact ⟨Prod.ext hleft rfl, Prod.ext hright hafter, hafter ▸ hseen.symm⟩

/-- **A subtree of a numbered tree** is numbered from the names of the leaves before it. -/
theorem Numbered.of_occurs (h : Numbered before e after) (hpart : Occurs part front e) :
    ∃ between, Numbered (before.seeAll (front.filterMap Leaf.name?)) part between := by
  induction hpart generalizing before after with
  | root => exact ⟨after, h⟩
  | operand op hpart ih => exact ih h.of_unary
  | left op right seen hpart ih => exact ih h.of_binary.1
  | right op left seen hpart ih =>
    rw [List.filterMap_append, Variables.seeAll_append]
    exact ih h.of_binary.2.1

/-! ## What has been parsed -/

variable {tokens : List Token}

/-- The leaves are the operand tokens, one each. -/
theorem map_leaf?_of_ofTokens (h : ofTokens tokens = .ok e) :
    (tokens.filter (·.kind.isLeaf)).map Token.leaf? = e.leaves.map some := by
  have hresolves := resolves_of_ofTokens h
  have hselect : ∀ t ∈ tokens, t.kind.isLeaf = t.leaf?.any fun _ => true := by
    intro t ht
    rw [← (hresolves t ht).isSome_leaf?]
    cases t.leaf? <;> rfl
  rw [map_filter_of_any hselect, List.filter_true, (conserved_of_ofTokens h).1]

/-- A variable has the index that the names before its first occurrence give it. -/
theorem index_of_occurs {name : String} {index : Nat} (h : Numbered .empty e after)
    (hpart : Occurs (.var name index) front e) :
    index = ((e.leaves.filterMap Leaf.name?).takeWhile (· ≠ name)).toFinset.card := by
  obtain ⟨between, hvar⟩ := h.of_occurs hpart
  rw [Numbered, indexed, Prod.mk.injEq, var.injEq] at hvar
  obtain ⟨⟨-, hindex⟩, -⟩ := hvar
  obtain ⟨back, hback⟩ := hpart.leaves_prefix
  have hnames : e.leaves.filterMap Leaf.name? =
      front.filterMap Leaf.name? ++ name :: back.filterMap Leaf.name? := by
    simp [← hback, leaves, Leaf.name?]
  rw [← hindex, Variables.index_seeAll _ (back.filterMap Leaf.name?), hnames]

/-- A binary node counts the names up to its last leaf. -/
theorem seen_of_occurs (h : Numbered .empty e after)
    (hpart : Occurs (.binary op left right seen) front e) :
    seen = ((e.leaves.take (front ++ (binary op left right seen).leaves).length).filterMap
      Leaf.name?).toFinset.card := by
  obtain ⟨between, hnode⟩ := h.of_occurs hpart
  have hseen := hnode.of_binary.2.2
  rw [hnode.after_eq, ← Variables.seeAll_append, Variables.count_seeAll] at hseen
  rw [← List.prefix_iff_eq_take.mp hpart.leaves_prefix, List.filterMap_append]
  exact hseen

/-- **Conservation**, whatever the order of the tokens is: the leaves are the operand tokens in their
order, the unary and the binary operators are those that are written, each as often, and the parentheses
are balanced. The index of a variable is the number of different names before the first occurrence of its
own, and a binary node has recorded the number of different names up to its last leaf. -/
theorem ofTokens_exact {tokens : List Token} {e : Expr} (h : ofTokens tokens = .ok e) :
    (tokens.filter (·.kind.isLeaf)).map Token.leaf? = e.leaves.map some ∧
    ((tokens.filter (·.kind = .unary)).map Token.operator? : Multiset (Option Operator)) =
      (e.operators.filter (!·.isBinary)).map some ∧
    ((tokens.filter (·.kind = .binary)).map Token.operator? : Multiset (Option Operator)) =
      (e.operators.filter (·.isBinary)).map some ∧
    Token.Balanced tokens ∧
    (∀ front name index, Occurs (.var name index) front e →
      index = ((tokens.filterMap Token.name?).takeWhile (· ≠ name)).toFinset.card) ∧
    ∀ front op left right seen, Occurs (.binary op left right seen) front e →
      seen = (((tokens.filter (·.kind.isLeaf)).take
        (front ++ (binary op left right seen).leaves).length).filterMap Token.name?).toFinset.card := by
  have hleaves := map_leaf?_of_ofTokens h
  have hresolves := resolves_of_ofTokens h
  obtain ⟨-, known, hnumbered⟩ := conserved_of_ofTokens h
  refine ⟨hleaves, ?_, ?_, balanced_of_ofTokens h, ?_, ?_⟩
  · rw [map_filter_of_any fun t ht => ((hresolves t ht).any_not_isBinary).symm,
      operators_of_ofTokens h, Token.operators, Multiset.filter_coe, Multiset.map_coe]
    simp only [Bool.decide_eq_true]
  · rw [map_filter_of_any fun t ht => ((hresolves t ht).any_isBinary).symm,
      operators_of_ofTokens h, Token.operators, Multiset.filter_coe, Multiset.map_coe]
    simp only [Bool.decide_eq_true]
  · intro front name index hpart
    rw [← Formula.names_of_ofTokens h]
    exact index_of_occurs hnumbered hpart
  · intro front op left right seen hpart
    rw [Token.names_take_leaves hleaves]
    exact seen_of_occurs hnumbered hpart

/-- Where the operators are written last, the indices still count the names in front. -/
theorem ofTokens_exact_postfix :
    ofTokens [⟨.letter, "b"⟩, ⟨.number, "3"⟩, ⟨.letter, "a"⟩, ⟨.binary, "-"⟩, ⟨.binary, "*"⟩] =
      .ok (.binary .sub (.var "b" 0) (.binary .mul (.number ⟨3, 0⟩) (.var "a" 1) 2) 2) ∧
    ∀ front name index,
      Occurs (.var name index) front
        (.binary .sub (.var "b" 0) (.binary .mul (.number ⟨3, 0⟩) (.var "a" 1) 2) 2) →
      index = (["b", "a"].takeWhile (· ≠ name)).toFinset.card := by
  have hparse : ofTokens [⟨.letter, "b"⟩, ⟨.number, "3"⟩, ⟨.letter, "a"⟩, ⟨.binary, "-"⟩,
      ⟨.binary, "*"⟩] =
        .ok (.binary .sub (.var "b" 0) (.binary .mul (.number ⟨3, 0⟩) (.var "a" 1) 2) 2) := by decide
  obtain ⟨-, -, -, -, hindex, -⟩ := ofTokens_exact hparse
  exact ⟨hparse, hindex⟩

end Expr

end Reckoner
