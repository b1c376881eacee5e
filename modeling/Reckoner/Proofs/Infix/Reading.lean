import Reckoner.Proofs.Infix.Derivation
import Reckoner.Proofs.Yard.Step

/-!
# Reading infix notation

Tokens in infix notation are read as the expression that they mean. The argument follows a derivation
through the yard.

* When the tokens of a derivation have been read, its expression need not lie on the operands yet:
  a **row** of its operators may still be pending. `Yard.Holds` says that the yard holds the
  expression up to such a row, and that every operator which can follow the derivation in the grammar
  lets the whole row act (`Tier.followers`).
* What was pending before must not act while the derivation is read: none of it binds before an
  operator that the derivation may contain outside its groups (`Tier.Admits`).
* Unary operators are the exception. Those in front of an operand wait for it, and if it is a group,
  **the first of them acts** when the group is closed, before anything follows. The induction
  therefore also speaks about the unary operators `front` that are pending when an operand is begun.
-/

namespace Reckoner

/-! ## Operators around a derivation -/

namespace Tier

/-- The binary operators that a derivation may contain outside its groups, or that may take it as
their left operand. -/
def operators : Tier → List BinaryOp
  | sum => BinaryOp.all
  | product => [.mul, .div, .rem, .pow]
  | power | operand | atom => [.pow]

/-- The binary operators that may follow a derivation. -/
def followers : Tier → List BinaryOp
  | sum => [.add, .sub]
  | product | power => [.mul, .div, .rem, .add, .sub]
  | operand | atom => BinaryOp.all

/-- Nothing that is pending binds before an operator of the derivation. -/
def Admits (tier : Tier) (pending : List Pending) : Prop :=
  ∀ next ∈ tier.operators, Yard.Stops next pending

/-- The operator acts before whatever follows the derivation. -/
abbrev Closes (tier : Tier) (operator : Operator) : Prop :=
  ∀ next ∈ tier.followers, operator.bindsBefore next

/-- Every derivation of the inner tier is all of one of the outer tier. -/
abbrev Within (inner tier : Tier) : Prop :=
  inner.operators ⊆ tier.operators ∧ tier.followers ⊆ inner.followers

/-- Unary operators can stand directly in front of a derivation. -/
abbrev TakesFront (tier : Tier) : Prop := tier = .operand ∨ tier = .atom

theorem Admits.mono {tier inner : Tier} {pending : List Pending} (h : tier.Admits pending)
    (hsub : inner.operators ⊆ tier.operators) : inner.Admits pending :=
  fun next hnext => h next (hsub hnext)

theorem admits_nil (tier : Tier) : tier.Admits [] := fun next _ => Yard.stops_nil next

theorem admits_group (tier : Tier) (token : Nat) (rest : List Pending) :
    tier.Admits (.group token :: rest) := fun next _ => Yard.stops_group next token rest

/-- A binary operator lets a derivation be read as its right operand if it is looser than all that
the derivation contains. -/
theorem admits_binary {tier : Tier} {op : BinaryOp}
    (h : ∀ next ∈ tier.operators, (Operator.binary op).bindsBefore next = false)
    (rest : List Pending) : tier.Admits (.operator (.binary op) :: rest) :=
  fun next hnext => Yard.stops_operator_iff.mpr (h next hnext)

/-- No unary operator is pending directly before a derivation. -/
theorem Admits.noUnary {tier : Tier} {pending : List Pending} (h : tier.Admits pending) :
    Yard.NoUnary pending := by
  intro op hhead
  have hpow : BinaryOp.pow ∈ tier.operators := by cases tier <;> decide
  exact absurd (h _ hpow _ hhead) Bool.noConfusion

theorem closes_unary (tier : Tier) (op : UnaryOp) : tier.Closes (.unary op) := fun _ _ => rfl

end Tier

/-! ## What a yard holds -/

namespace Yard

/-- The yard holds `e` on top of the operands `before`, once the row of operators above `rest` has
acted. -/
def Holds (tier : Tier) (before : List Expr) (rest : List Pending) (e : Expr) (yard : Yard) :
    Prop :=
  ∃ operators, yard.pending = row operators ++ rest ∧ (∀ o ∈ operators, tier.Closes o) ∧
    settle yard.known.count operators yard.operands = .ok (e :: before)

variable {tier inner : Tier} {before : List Expr} {rest : List Pending} {e left : Expr}
  {yard : Yard} {op : BinaryOp} {text : String}

theorem Holds.mono (h : Holds inner before rest e yard)
    (hsub : tier.followers ⊆ inner.followers) : Holds tier before rest e yard := by
  obtain ⟨operators, hrow, hcloses, hs⟩ := h
  exact ⟨operators, hrow, fun o ho next hnext => hcloses o ho next (hsub hnext), hs⟩

/-- An operand that has just been put on top is held. -/
theorem holds_operand (tier : Tier) (front : List UnaryOp) (rest : List Pending) (e : Expr)
    (before : List Expr) (known : Variables) :
    Holds tier before rest (e.under front) ⟨e :: before, row (front.map .unary) ++ rest, known⟩ := by
  refine ⟨front.map .unary, rfl, ?_, settle_front _ front e before⟩
  intro o ho
  obtain ⟨op, -, rfl⟩ := List.mem_map.mp ho
  exact tier.closes_unary op

/-- A binary operator that follows takes what is held as its left operand. -/
theorem Holds.read_binary (h : Holds tier before rest e yard)
    (reads : BinaryOp.ofSymbol? text = some op) (hop : op ∈ tier.followers)
    (hstops : Stops op rest) (index : Nat) :
    yard.read index ⟨.binary, text⟩ =
      .ok ⟨e :: before, .operator (.binary op) :: rest, yard.known⟩ := by
  obtain ⟨operators, hrow, hcloses, hs⟩ := h
  exact read_of_step (.binary (Token.binaryOf_eq_ok.mpr reads) hrow
    (fun o ho => hcloses o ho op hop) hstops hs)

/-- With its right operand on top, a binary operator is one operator more in the row. -/
theorem Holds.binary
    (h : Holds inner (left :: before) (.operator (.binary op) :: rest) e yard)
    (hsub : tier.followers ⊆ inner.followers) (hop : tier.Closes (.binary op)) :
    Holds tier before rest (.binary op left e yard.known.count) yard := by
  obtain ⟨operators, hrow, hcloses, hs⟩ := h.mono hsub
  refine ⟨operators ++ [.binary op], ?_, ?_, ?_⟩
  · rw [hrow]
    simp
  · intro o ho
    rcases List.mem_append.mp ho with ho | ho
    · exact hcloses o ho
    · obtain rfl := List.mem_singleton.mp ho
      exact hop
  · rw [settle_append, hs]
    rfl

/-- A closing parenthesis puts what is held on top, under the first of the unary operators in front
of the group. -/
theorem Holds.read_closing {partner : Nat} {front : List UnaryOp} (text : String)
    (h : Holds inner before (.group partner :: (row (front.map .unary) ++ rest)) e yard)
    (hadmits : tier.Admits rest) (index : Nat) :
    ∃ after, yard.read index ⟨.closing, text⟩ = .ok after ∧
      after.known = yard.known ∧ Holds tier before rest (e.under front) after := by
  obtain ⟨operators, hrow, -, hs⟩ := h
  rcases front with _ | ⟨op, front⟩
  · -- nothing stands in front of the group, and what was pending before is no unary operator
    have hread : yard.read index ⟨.closing, text⟩ = .ok ⟨e :: before, rest, yard.known⟩ :=
      read_of_step (.closing none hrow hs (fun _ => hadmits.noUnary) rfl)
    exact ⟨_, hread, rfl, holds_operand tier [] rest e before yard.known⟩
  · have hread : yard.read index ⟨.closing, text⟩ =
        .ok ⟨.unary op e :: before, row (front.map .unary) ++ rest, yard.known⟩ :=
      read_of_step (.closing (some op) hrow hs nofun rfl)
    exact ⟨_, hread, rfl, holds_operand tier front rest (.unary op e) before yard.known⟩

end Yard

/-! ## Reading derivations -/

namespace Yard

/-- The tokens can be read wherever nothing that is pending gets in the way, and then the yard holds
the tree, numbered from where the tokens begin. The unary operators `front` may only wait for an
operand or an atom. -/
def ReadsAs (tier : Tier) (tokens : List Token) (tree : Expr) : Prop :=
  ∀ (yard : Yard) (front : List UnaryOp) (rest : List Pending) (index : Nat),
    front = [] ∨ tier.TakesFront → tier.Admits rest →
    yard.pending = row (front.map .unary) ++ rest →
    ∃ after, yard.readFrom index tokens = .ok after ∧
      after.known = (tree.indexed yard.known).2 ∧
      Holds tier yard.operands rest ((tree.indexed yard.known).1.under front) after

variable {tier inner outer : Tier} {tokens leftTokens rightTokens : List Token}
  {tree left right : Expr} {text : String} {op : BinaryOp}

/-- A derivation that is all of a looser one. -/
theorem ReadsAs.mono (h : ReadsAs inner tokens tree) (hwithin : inner.Within tier)
    (htakes : tier.TakesFront → inner.TakesFront) : ReadsAs tier tokens tree := by
  intro yard front rest index hfront hadmits hpending
  obtain ⟨after, hread, hvars, hholds⟩ :=
    h yard front rest index (hfront.imp_right htakes) (hadmits.mono hwithin.1) hpending
  exact ⟨after, hread, hvars, hholds.mono hwithin.2⟩

theorem ReadsAs.number {value : Decimal} (reads : Token.numberOf text = .ok value) :
    ReadsAs .atom [⟨.number, text⟩] (.number value) := by
  rintro ⟨operands, _, known⟩ front rest index - - rfl
  refine ⟨_, ?_, rfl, holds_operand .atom front rest (.number value) operands known⟩
  exact (readFrom_singleton ..).trans (read_of_step (.number reads))

theorem ReadsAs.constant {value : Decimal} (reads : Token.constantOf text = .ok value) :
    ReadsAs .atom [⟨.constant, text⟩] (.number value) := by
  rintro ⟨operands, _, known⟩ front rest index - - rfl
  refine ⟨_, ?_, rfl, holds_operand .atom front rest (.number value) operands known⟩
  exact (readFrom_singleton ..).trans (read_of_step (.constant reads))

theorem ReadsAs.letter (name : String) : ReadsAs .atom [⟨.letter, name⟩] (.var name 0) := by
  rintro ⟨operands, _, known⟩ front rest index - - rfl
  exact ⟨_, rfl, rfl, holds_operand .atom front rest
    (.var name (known.index name).1) operands (known.see name)⟩

/-- Inside a group its own parenthesis is on top, so nothing gets in the way there. -/
theorem ReadsAs.group (h : ReadsAs .sum tokens tree) (opening closing : String) :
    ReadsAs .atom (⟨.opening, opening⟩ :: tokens ++ [⟨.closing, closing⟩]) tree := by
  rintro yard front rest index - hadmits hpending
  obtain ⟨between, hread, hvars, hholds⟩ :=
    h (yard.pushPending (.group index)) [] (.group index :: yard.pending) (index + 1) (.inl rfl)
      (Tier.admits_group .sum index yard.pending) rfl
  rw [hpending] at hholds
  obtain ⟨after, hclose, hvars', hholds'⟩ :=
    hholds.read_closing closing hadmits (index + 1 + tokens.length)
  refine ⟨after, ?_, hvars'.trans hvars, hholds'⟩
  rw [List.cons_append, readFrom_cons, read_of_step (.opening opening), ok_bind, readFrom_append, hread, ok_bind,
    readFrom_singleton, hclose]

/-- A unary operator joins those that wait for the operand. -/
theorem ReadsAs.unary {op : UnaryOp} (h : ReadsAs .operand tokens tree)
    (reads : Token.unaryOf text = .ok op) :
    ReadsAs .operand (⟨.unary, text⟩ :: tokens) (.unary op tree) := by
  rintro yard front rest index - hadmits hpending
  obtain ⟨after, hread, hvars, hholds⟩ :=
    h (yard.pushPending (.operator (.unary op))) (op :: front) rest (index + 1)
      (.inr (.inl rfl)) hadmits (by rw [pushPending, hpending]; rfl)
  refine ⟨after, ?_, hvars, hholds⟩
  rw [readFrom_cons, read_of_step (.unary reads), ok_bind, hread]

/-- A binary operator lets all of its left operand act, and waits for its right operand until
something looser follows. -/
theorem ReadsAs.binary (hl : ReadsAs inner leftTokens left) (hr : ReadsAs outer rightTokens right)
    (reads : BinaryOp.ofSymbol? text = some op) (htier : ¬ tier.TakesFront)
    (hinner : inner.operators ⊆ tier.operators) (hfollows : op ∈ inner.followers)
    (hcontains : op ∈ tier.operators)
    (hlooser : ∀ next ∈ outer.operators, (Operator.binary op).bindsBefore next = false)
    (hfollowers : tier.followers ⊆ outer.followers) (hcloses : tier.Closes (.binary op)) :
    ReadsAs tier (leftTokens ++ ⟨.binary, text⟩ :: rightTokens) (.binary op left right 0) := by
  intro yard front rest index hfront hadmits hpending
  obtain rfl : front = [] := hfront.resolve_right htier
  obtain ⟨between, hread, hvars, hholds⟩ :=
    hl yard [] rest index (.inl rfl) (hadmits.mono hinner) hpending
  rw [Expr.under_nil] at hholds
  have hop := hholds.read_binary reads hfollows (hadmits op hcontains)
    (index + leftTokens.length)
  obtain ⟨after, hread', hvars', hholds'⟩ :=
    hr ⟨(left.indexed yard.known).1 :: yard.operands, .operator (.binary op) :: rest,
        between.known⟩ [] _ (index + leftTokens.length + 1) (.inl rfl)
      (Tier.admits_binary hlooser rest) rfl
  refine ⟨after, ?_, ?_, ?_⟩
  · rw [readFrom_append, hread, ok_bind, readFrom_cons, hop, ok_bind, hread']
  · rw [hvars', hvars]
    rfl
  · have := hholds'.binary hfollowers hcloses
    rwa [hvars', hvars] at this

end Yard

namespace Derivation

open Yard

/-- **Every derivation can be read**, and is read as its tree. -/
theorem readsAs {tier : Tier} (d : Derivation tier) : ReadsAs tier d.tokens d.tree := by
  induction d with
  | number text value reads => exact .number (Token.numberOf_eq_ok.mpr reads)
  | letter name => exact .letter name
  | constant name value reads => exact .constant reads
  | group opening inner closing ih => exact ih.group opening closing
  | ofAtom atom ih => exact ih.mono (by decide) (by decide)
  | unary text op reads operand ih => exact ih.unary (Token.unaryOf_eq_ok.mpr reads)
  | ofOperand operand ih => exact ih.mono (by decide) (by decide)
  | raise base text reads exponent ihb ihe =>
    exact ihb.binary ihe reads (by decide) (by decide) (by decide) (by decide) (by decide)
      (by decide) (by decide)
  | ofPower power ih => exact ih.mono (by decide) (by decide)
  | multiply left text op reads mem right ihl ihr =>
    have sides : ∀ op ∈ [BinaryOp.mul, .div, .rem],
        op ∈ Tier.product.followers ∧ op ∈ Tier.product.operators ∧
        (∀ next ∈ Tier.power.operators, (Operator.binary op).bindsBefore next = false) ∧
        Tier.product.Closes (.binary op) := by decide
    obtain ⟨hfollows, hcontains, hlooser, hcloses⟩ := sides op mem
    exact ihl.binary ihr reads (by decide) (by decide) hfollows hcontains hlooser (by decide) hcloses
  | ofProduct product ih => exact ih.mono (by decide) (by decide)
  | add left text op reads mem right ihl ihr =>
    have sides : ∀ op ∈ [BinaryOp.add, .sub],
        op ∈ Tier.sum.followers ∧ op ∈ Tier.sum.operators ∧
        (∀ next ∈ Tier.product.operators, (Operator.binary op).bindsBefore next = false) ∧
        Tier.sum.Closes (.binary op) := by decide
    obtain ⟨hfollows, hcontains, hlooser, hcloses⟩ := sides op mem
    exact ihl.binary ihr reads (by decide) (by decide) hfollows hcontains hlooser (by decide) hcloses

/-- The tokens of a sum are parsed as its tree, numbered from the start. -/
theorem ofTokens_tokens (d : Derivation .sum) :
    Expr.ofTokens d.tokens = .ok (d.tree.indexed Variables.empty).1 := by
  obtain ⟨after, hread, hvars, operators, hrow, -, hs⟩ :=
    d.readsAs empty [] [] 0 (.inl rfl) (Tier.admits_nil .sum) rfl
  refine ofTokens_eq_ok.mpr ⟨d.tokens_ne_nil, after, hread, ?_⟩
  refine result_eq_ok.mpr ⟨operators, ?_, hs⟩
  rw [hrow, List.append_nil]

/-- **Infix notation is parsed by its grammar**: the tokens of a derivation of any sum are an
expression that has the structure of the derivation, and whose variables and counts are numbered in
the order of reading. -/
theorem exists_ofTokens_eq_ok (d : Derivation .sum) :
    ∃ e, Expr.ofTokens d.tokens = .ok e ∧ e.bare = d.tree ∧
      ∃ known, e.Numbered Variables.empty known := by
  refine ⟨_, d.ofTokens_tokens, ?_, _, d.tree.numbered_indexed Variables.empty⟩
  rw [Expr.bare_indexed, bare_tree]

end Derivation

end Reckoner
