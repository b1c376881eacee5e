import Reckoner.Proofs.Formula.Inputs
import Reckoner.Proofs.Infix.Sentence
import Reckoner.Proofs.Yard.Failure

/-!
# Which tokens are parsed

Parsing never looks at what stands beside a token, it only counts operands when operators act. For
tokens that are not **loose**, where no operand stands beside another one and no group is empty,
this comes to the same: they are parsed exactly if they are a sentence of the grammar
(`Expr.parses_iff_derives`).

* If they are parsed, then no operand is missing, because one is missing only as often as one stands
  beside another (`Expr.missing_eq_adjacent`). So they alternate, and are a sentence.
* If they are no sentence and their parentheses are balanced, an operator finds too few operands.
  The only other failure would be that no operand at all is left (`Yard.eq_nil_of_tight`), but then
  the tokens are nothing but parentheses.

Multiplication has to be written, so `2x` is no formula. But two operands side by side are refused only
because one operand is **left over** at the end, unless an operator elsewhere takes it, which is one
that has no operand of its own to take. So what compiles although operands stand side by side misses
**as many** operands elsewhere (`Formula.compile_adjacent`), as in `2x+`.
-/

namespace Reckoner

variable {tokens : List Token}

theorem Token.adjacent_eq_zero (htight : ¬ Loose tokens) : adjacent true tokens = 0 :=
  Nat.eq_zero_of_not_pos fun hpos => htight (.inl (adjacent_pos_iff.mp hpos))

/-- Of tokens that are not loose at most one operand is left. -/
theorem Yard.eq_nil_of_tight {yard : Yard} {operators : List Operator} {operands : List Expr}
    (htight : ¬ Token.Loose tokens) (hread : empty.readFrom 0 tokens = .ok yard)
    (hrow : yard.pending = row operators)
    (hs : settle yard.known.count operators yard.operands = .ok operands)
    (hone : operands.length ≠ 1) : operands = [] := by
  have hcount := length_add_binaries hread hrow hs
  have hequation := Token.missing_add_leaves true tokens
  rw [Token.adjacent_eq_zero htight, Bool.toNat_true] at hequation
  exact List.eq_nil_of_length_eq_zero (by omega)

/-- If no operand is left, there was nothing but parentheses. -/
theorem Yard.parentheses_of_nothing_left {yard : Yard} {operators : List Operator}
    (hread : empty.readFrom 0 tokens = .ok yard) (hrow : yard.pending = row operators)
    (hs : settle yard.known.count operators yard.operands = .ok []) :
    ∀ t ∈ tokens, t.kind = .opening ∨ t.kind = .closing := by
  obtain ⟨hleaves, hoperators⟩ := conserved_of_settled hread hrow hs
  have hnoLeaf := List.filterMap_eq_nil_iff.mp hleaves.symm
  have hnoOperator := List.filterMap_eq_nil_iff.mp (Multiset.coe_eq_zero _ |>.mp hoperators.symm)
  exact fun t ht =>
    (resolves_of_readFrom hread t ht).isParenthesis (hnoLeaf t ht) (hnoOperator t ht)

/-! ## Sentences -/

namespace Expr

/-- What is parsed and not loose is a sentence. -/
theorem derives_of_ofTokens {e : Expr} (htight : ¬ Token.Loose tokens)
    (h : ofTokens tokens = .ok e) : Tier.sum.Derives tokens := by
  have hadjacent := Token.adjacent_eq_zero htight
  have halternating : Alternating true 0 [] tokens :=
    { resolves := resolves_of_ofTokens h
      missing := (missing_eq_adjacent h).trans hadjacent
      adjacent := hadjacent
      closed := balanced_of_ofTokens h }
  exact halternating.derives

/-- **Recognition**: tokens that stand for something and are not loose are parsed exactly if they
are a sentence of the grammar. If they are none although their parentheses are balanced, an operator
is short of operands. -/
theorem parses_iff_derives (hne : tokens ≠ []) (htight : ¬ Token.Loose tokens)
    (hresolves : ∀ t ∈ tokens, t.Resolves) :
    ((∃ e, ofTokens tokens = .ok e) ↔ Tier.sum.Derives tokens) ∧
      (Token.Balanced tokens → ¬ Tier.sum.Derives tokens →
        ∃ operator, ofTokens tokens = .error (.missingOperand operator)) := by
  refine ⟨⟨fun ⟨e, h⟩ => derives_of_ofTokens htight h, ?_⟩, fun hbalanced hno => ?_⟩
  · rintro ⟨d, rfl⟩
    exact ⟨_, d.ofTokens_tokens⟩
  · rcases hparse : ofTokens tokens with error | e
    · rcases ofTokens_eq_error hne hresolves hbalanced hparse with
        ⟨operator, rfl⟩ | ⟨yard, operators, operands, hread, hrow, hs, hone, -⟩
      · exact ⟨operator, rfl⟩
      · obtain rfl := Yard.eq_nil_of_tight htight hread hrow hs hone
        have hgroup := Token.hasEmptyGroup_of_balanced
          (Yard.parentheses_of_nothing_left hread hrow hs) hne hbalanced
        exact absurd (.inr hgroup) htight
    · exact absurd (derives_of_ofTokens htight hparse) hno

/-- A minus sign alone in a group takes the operand before the group, which the sum then misses. -/
theorem parses_iff_derives_stray_sign :
    let tokens : List Token := [⟨.number, "2"⟩, ⟨.binary, "+"⟩, ⟨.opening, "("⟩, ⟨.unary, "-"⟩,
      ⟨.closing, ")"⟩, ⟨.binary, "*"⟩, ⟨.number, "3"⟩]
    ¬ Token.Loose tokens ∧ Token.Balanced tokens ∧ ¬ Tier.sum.Derives tokens ∧
      ∃ operator, ofTokens tokens = .error (.missingOperand operator) := by
  intro tokens
  have htight : ¬ Token.Loose tokens := by decide
  have hbalanced : Token.Balanced tokens := by decide
  have hresolves : ∀ t ∈ tokens, t.Resolves := by
    simp only [tokens, List.forall_mem_cons, List.not_mem_nil, false_imp_iff, implies_true, and_true]
    exact ⟨⟨_, rfl⟩, ⟨_, rfl⟩, trivial, ⟨_, rfl⟩, trivial, ⟨_, rfl⟩, ⟨_, rfl⟩⟩
  obtain ⟨hiff, hshort⟩ := parses_iff_derives (List.cons_ne_nil _ _) htight hresolves
  have hno : ¬ Tier.sum.Derives tokens := by
    rw [← hiff]
    rintro ⟨e, he⟩
    cases he
  exact ⟨htight, hbalanced, hno, hshort hbalanced hno⟩

end Expr

/-! ## Operands side by side -/

namespace Formula

variable {text : String}

/-- **Operands side by side are refused**, wherever they stand, unless exactly as many operands are
missing elsewhere in the text. -/
theorem compile_adjacent (hscan : Token.scan text = .ok tokens) (hadjacent : Token.Adjacent tokens) :
    (∃ error, compile text = .error error) ∨
      0 < Token.missing true tokens ∧ Token.missing true tokens = Token.adjacent true tokens := by
  rcases hcompile : compile text with error | formula
  · exact .inl ⟨error, rfl⟩
  · obtain ⟨tokens', hscan', hparse, -⟩ := compile_eq_ok.mp hcompile
    obtain rfl : tokens' = tokens := Except.ok.inj (hscan'.symm.trans hscan)
    have hcount := Expr.missing_eq_adjacent hparse
    exact .inr ⟨hcount ▸ Token.adjacent_pos_iff.mpr hadjacent, hcount⟩

/-- A sum sign behind two operands takes both of them. -/
theorem compile_adjacent_trailing :
    let tokens : List Token := [⟨.number, "2"⟩, ⟨.letter, "x"⟩, ⟨.binary, "+"⟩]
    let sum : Formula := ⟨.binary .add (.number ⟨2, 0⟩) (.var "x" 0) 1, {}⟩
    Token.scan "2x+" = .ok tokens ∧ Token.Adjacent tokens ∧ compile "2x+" = .ok sum ∧
      Token.missing true tokens = Token.adjacent true tokens := by
  intro tokens sum
  have hscan : Token.scan "2x+" = .ok tokens := rfl
  have hadjacent : Token.Adjacent tokens := by decide
  have hcompile : compile "2x+" = .ok sum := rfl
  refine ⟨hscan, hadjacent, hcompile, ?_⟩
  rcases compile_adjacent hscan hadjacent with ⟨error, herror⟩ | ⟨-, hcount⟩
  · rw [hcompile] at herror
    cases herror
  · exact hcount

end Formula

end Reckoner
