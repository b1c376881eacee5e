import Reckoner.Expr.Basic
import Reckoner.Proofs.Infix.Reading
import Reckoner.Proofs.Token.Operands

/-!
# Reading expressions again

An expression that has been parsed from a text is written in infix notation, and read again. The
notation scans as the tokens that it is made of (`Expr.scans_toChars`), and there are two cases.

* If no number is written in scientific notation, the tokens are those of a **derivation** in the
  grammar of infix notation (`Expr.exists_derivation`), so they are parsed as the same tree, and
  numbered as it was.
* A number in scientific notation scans as two numbers and a constant, so the tokens have **more
  operands** than the tree has leaves (`Expr.length_leaves_le`), and no tree that is parsed from them
  can be the same.
-/

namespace Reckoner

open Token

/-! ## The tokens of the notation -/

/-- The tokens that the notation of a decimal without a sign scans as. -/
def Decimal.tokens (d : Decimal) : List Token :=
  if d.IsScientific then
    let mantissa := d.toChars.takeWhile (· ≠ 'E')
    let exponent := d.toChars.drop (mantissa.length + 2)
    [⟨.number, String.ofList mantissa⟩, ⟨.constant, "e"⟩, ⟨.binary, "-"⟩,
      ⟨.number, String.ofList exponent⟩]
  else [⟨.number, d.toText⟩]

namespace Expr

/-- The tokens that the notation of an expression scans as. -/
def tokens : Expr → List Token
  | number value => value.tokens
  | var name _ => [⟨.letter, name⟩]
  | unary op operand => ⟨.unary, op.symbol⟩ :: grouped operand.tokens
  | binary op left right _ => grouped (left.tokens ++ ⟨.binary, op.symbol⟩ :: right.tokens)

end Expr

/-- After its digits a number is complete, and no operand is due. -/
theorem Decimal.dueAfter_tokens (d : Decimal) (due : Bool) : dueAfter due d.tokens = false := by
  rw [Decimal.tokens]
  split <;> rfl

/-- In scientific notation the tokens are those of its parts. -/
theorem Decimal.tokens_of_isScientific {d : Decimal} (hunscaled : 0 ≤ d.unscaled)
    (h : d.IsScientific) :
    ∃ mantissa exponent, d.toChars = mantissa ++ 'E' :: '-' :: exponent ∧
      Decimal.IsPlain mantissa ∧ Decimal.IsRow exponent ∧ exponent ≠ [] ∧
      d.tokens = [⟨.number, String.ofList mantissa⟩, ⟨.constant, "e"⟩, ⟨.binary, "-"⟩,
        ⟨.number, String.ofList exponent⟩] := by
  obtain ⟨mantissa, exponent, htext, hmantissa, hexponent, hne⟩ :=
    Decimal.exists_scientific hunscaled h
  have htake : d.toChars.takeWhile (· ≠ 'E') = mantissa := by
    have hall : ∀ c ∈ mantissa, decide (c ≠ 'E') := by
      intro c hc
      rcases hmantissa.digits_or_point c hc with hdigit | rfl
      · exact decide_eq_true (Decimal.ne_of_isDigit hdigit rfl)
      · decide
    rw [htext, List.takeWhile_append_of_pos hall]
    simp
  have hdrop : d.toChars.drop (mantissa.length + 2) = exponent := by
    rw [htext]
    simp
  refine ⟨mantissa, exponent, htext, hmantissa, hexponent, hne, ?_⟩
  rw [Decimal.tokens, if_pos h]
  simp only [htake, hdrop]

/-- The notation of a number that a text can denote. -/
theorem Decimal.scans_toChars {d : Decimal} (h : (Leaf.number d).IsScanned) (due : Bool) :
    Scans due d.toChars d.tokens := by
  obtain ⟨hunscaled, hscale, hrange⟩ := h
  by_cases hscientific : d.IsScientific
  · obtain ⟨mantissa, exponent, htext, hmantissa, hexponent, hne, htokens⟩ :=
      Decimal.tokens_of_isScientific hunscaled hscientific
    rw [htext, htokens]
    exact scans_scientific hmantissa (.row hexponent hne) due
  · rw [Decimal.tokens, if_neg hscientific]
    exact scans_plain (Decimal.ofChars?_toChars hunscaled hscale hrange hscientific).1 due

namespace Expr

/-- A notation ends with an operand, and no operand is due behind it. -/
theorem dueAfter_tokens (e : Expr) (due : Bool) : dueAfter due e.tokens = false := by
  cases e with
  | number value => exact value.dueAfter_tokens due
  | var name index => rfl
  | unary op operand => rw [tokens, grouped, dueAfter_cons, dueAfter_concat]; rfl
  | binary op left right seen => rw [tokens, grouped, dueAfter_concat]; rfl

/-- **The notation scans as its tokens**, where an operand is due. -/
theorem scans_toChars {e : Expr} (h : ∀ leaf ∈ e.leaves, leaf.IsScanned) :
    Scans true e.toChars e.tokens := by
  induction e with
  | number value => exact Decimal.scans_toChars (h _ (List.mem_singleton_self _)) true
  | var name index => exact scans_name (h _ (List.mem_singleton_self _)) true
  | unary op operand ih =>
    have hunary := (ih h).unary op
    simpa [toChars, tokens] using hunary
  | binary op left right seen ihl ihr =>
    obtain ⟨hl, hr⟩ := List.forall_mem_append.mp h
    -- the blanks on both sides of the operator are put in afterwards
    have hbinary := (ihl hl).binary (left.dueAfter_tokens true) (ihr hr) op
    have hright : Scans true (left.toChars ++ op.symbol.toList ++ ' ' :: right.toChars) _ :=
      hbinary.skip
    rw [List.append_assoc] at hright
    have hgroup := hright.skip.group true
    simpa [toChars, tokens] using hgroup

end Expr

/-- In plain notation a number is read back. -/
theorem Decimal.ofString?_toText {d : Decimal} (h : (Leaf.number d).IsScanned)
    (hplain : ¬ d.IsScientific) : Decimal.ofString? d.toText = some d.rewritten := by
  obtain ⟨hunscaled, hscale, hrange⟩ := h
  rw [Decimal.ofString?, Decimal.toText, String.toList_ofList]
  exact (Decimal.ofChars?_toChars hunscaled hscale hrange hplain).2

/-! ## Plain notations are derived -/

namespace Derivation

/-- An operand as a sum of one operand. -/
def ofSumOperand (operand : Derivation .operand) : Derivation .sum :=
  .ofProduct (.ofPower (.ofOperand operand))

/-- A binary operator between two operands. -/
def between (op : BinaryOp) (left right : Derivation .operand) : Derivation .sum :=
  match op with
  | .add => .add (ofSumOperand left) "+" .add rfl (by simp) (.ofPower (.ofOperand right))
  | .sub => .add (ofSumOperand left) "-" .sub rfl (by simp) (.ofPower (.ofOperand right))
  | .mul =>
    .ofProduct (.multiply (.ofPower (.ofOperand left)) "*" .mul rfl (by simp) (.ofOperand right))
  | .div =>
    .ofProduct (.multiply (.ofPower (.ofOperand left)) "/" .div rfl (by simp) (.ofOperand right))
  | .rem =>
    .ofProduct (.multiply (.ofPower (.ofOperand left)) "%" .rem rfl (by simp) (.ofOperand right))
  | .pow => .ofProduct (.ofPower (.raise left "^" rfl (.ofOperand right)))

theorem tokens_between (op : BinaryOp) (left right : Derivation .operand) :
    (between op left right).tokens = left.tokens ++ ⟨.binary, op.symbol⟩ :: right.tokens := by
  cases op <;> rfl

theorem tree_between (op : BinaryOp) (left right : Derivation .operand) :
    (between op left right).tree = .binary op left.tree right.tree 0 := by
  cases op <;> rfl

end Derivation

/-- The leaf is a number that is written in scientific notation. -/
def Leaf.IsScientific : Leaf → Prop
  | number value => value.IsScientific
  | letter _ => False

instance : DecidablePred Leaf.IsScientific
  | .number value => inferInstanceAs (Decidable value.IsScientific)
  | .letter _ => inferInstanceAs (Decidable False)

namespace Expr

/-- No number of the expression is written in scientific notation. -/
def IsPlain (e : Expr) : Prop := ∀ leaf ∈ e.leaves, ¬ leaf.IsScientific

/-- **A plain notation is derived**: its tokens are those of a derivation of the same tree. -/
theorem exists_derivation {e : Expr} (h : ∀ leaf ∈ e.leaves, leaf.IsScanned) (hplain : e.IsPlain) :
    ∃ d : Derivation .operand, d.tokens = e.tokens ∧ d.tree.same e.bare := by
  induction e with
  | number value =>
    have hvalue : ¬ value.IsScientific := hplain _ (List.mem_singleton_self _)
    have hread := Decimal.ofString?_toText (h _ (List.mem_singleton_self _)) hvalue
    refine ⟨.ofAtom (.number value.toText value.rewritten hread), ?_, ?_⟩
    · rw [tokens, Decimal.tokens, if_neg hvalue]
      rfl
    · exact value.sameValue_rewritten
  | var name index => exact ⟨.ofAtom (.letter name), rfl, by simp [Derivation.tree, bare]⟩
  | unary op operand ih =>
    obtain ⟨d, hd, hsame⟩ := ih h hplain
    have hop : UnaryOp.ofSymbol? op.symbol = some op := by cases op <;> rfl
    refine ⟨.unary op.symbol op hop (.ofAtom (.group "(" d.ofSumOperand ")")), ?_, ?_⟩
    · rw [tokens, ← hd]
      rfl
    · show (unary op d.tree).same (unary op operand.bare)
      simp [same, hsame]
  | binary op left right seen ihl ihr =>
    obtain ⟨hl, hr⟩ := List.forall_mem_append.mp h
    obtain ⟨dl, hdl, hsamel⟩ := ihl hl fun leaf hleaf => hplain leaf (List.mem_append_left _ hleaf)
    obtain ⟨dr, hdr, hsamer⟩ := ihr hr fun leaf hleaf => hplain leaf (List.mem_append_right _ hleaf)
    refine ⟨.ofAtom (.group "(" (.between op dl dr) ")"), ?_, ?_⟩
    · rw [tokens, ← hdl, ← hdr, ← Derivation.tokens_between]
      rfl
    · show (Derivation.between op dl dr).tree.same (binary op left.bare right.bare 0)
      simp [Derivation.tree_between, same, hsamel, hsamer]

/-! ## The same trees -/

theorem same_number_iff {value : Decimal} {e : Expr} :
    (number value).same e ↔ ∃ value', e = number value' ∧ value.sameValue value' := by
  rcases e with value' | _ | _ | _ <;> simp [same]

theorem same_var_iff {name : String} {index : Nat} {e : Expr} :
    (var name index).same e ↔ e = var name index := by
  constructor
  · intro h
    rcases e with _ | ⟨name', index'⟩ | _ | _
    · cases h
    · simp only [same, Bool.and_eq_true, beq_iff_eq] at h
      rw [h.1, h.2]
    · cases h
    · cases h
  · rintro rfl
    exact same_self _

theorem same_unary_iff {op : UnaryOp} {operand e : Expr} :
    (unary op operand).same e ↔ ∃ operand', e = unary op operand' ∧ operand.same operand' := by
  constructor
  · intro h
    rcases e with _ | _ | ⟨op', operand'⟩ | _
    · cases h
    · cases h
    · simp only [same, Bool.and_eq_true, beq_iff_eq] at h
      exact ⟨operand', by rw [h.1], h.2⟩
    · cases h
  · rintro ⟨operand', rfl, hoperand⟩
    simp [same, hoperand]

theorem same_binary_iff {op : BinaryOp} {left right e : Expr} {seen : Nat} :
    (binary op left right seen).same e ↔
      ∃ left' right', e = binary op left' right' seen ∧ left.same left' ∧ right.same right' := by
  constructor
  · intro h
    rcases e with _ | _ | _ | ⟨op', left', right', seen'⟩
    · cases h
    · cases h
    · cases h
    · simp only [same, Bool.and_eq_true, beq_iff_eq] at h
      obtain ⟨⟨⟨rfl, hl⟩, hr⟩, rfl⟩ := h
      exact ⟨left', right', rfl, hl, hr⟩
  · rintro ⟨left', right', rfl, hl, hr⟩
    simp [same, hl, hr]

/-- Trees that are the same are numbered alike. -/
theorem same_indexed {a b : Expr} (h : a.same b) (known : Variables) :
    (a.indexed known).1.same (b.indexed known).1 ∧
      (a.indexed known).2 = (b.indexed known).2 := by
  induction a generalizing b known with
  | number value =>
    obtain ⟨value', rfl, hvalue⟩ := same_number_iff.mp h
    exact ⟨hvalue, rfl⟩
  | var name index =>
    obtain rfl := same_var_iff.mp h
    exact ⟨same_self _, rfl⟩
  | unary op operand ih =>
    obtain ⟨operand', rfl, hoperand⟩ := same_unary_iff.mp h
    obtain ⟨hsame, hseen⟩ := ih hoperand known
    exact ⟨same_unary_iff.mpr ⟨_, rfl, hsame⟩, hseen⟩
  | binary op left right seen ihl ihr =>
    obtain ⟨left', right', rfl, hl, hr⟩ := same_binary_iff.mp h
    obtain ⟨hsamel, hseenl⟩ := ihl hl known
    obtain ⟨hsamer, hseenr⟩ := ihr hr (left'.indexed known).2
    simp only [indexed, hseenl, hseenr]
    exact ⟨same_binary_iff.mpr ⟨_, _, rfl, hsamel, hsamer⟩, trivial⟩

/-- Trees that are the same have the same number of leaves. -/
theorem length_leaves_of_same {a b : Expr} (h : a.same b) :
    a.leaves.length = b.leaves.length := by
  induction a generalizing b with
  | number value =>
    obtain ⟨value', rfl, -⟩ := same_number_iff.mp h
    rfl
  | var name index =>
    obtain rfl := same_var_iff.mp h
    rfl
  | unary op operand ih =>
    obtain ⟨operand', rfl, hoperand⟩ := same_unary_iff.mp h
    simp [leaves, ih hoperand]
  | binary op left right seen ihl ihr =>
    obtain ⟨left', right', rfl, hl, hr⟩ := same_binary_iff.mp h
    simp [leaves, ihl hl, ihr hr]

/-! ## Scientific notations have too many operands -/

theorem filterMap_leaf?_grouped (tokens : List Token) :
    (grouped tokens).filterMap leaf? = tokens.filterMap leaf? := by
  rw [grouped, List.cons_append, List.filterMap_cons_none rfl, filterMap_leaf?_concat_none rfl]

/-- Of the three operands of a scientific notation the constant and the exponent can be read for
certain. -/
theorem two_le_of_isScientific {value : Decimal} (hunscaled : 0 ≤ value.unscaled)
    (h : value.IsScientific) : 2 ≤ (value.tokens.filterMap leaf?).length := by
  obtain ⟨mantissa, exponent, -, -, hexponent, hne, htokens⟩ :=
    Decimal.tokens_of_isScientific hunscaled h
  have hconstant : leaf? ⟨.constant, "e"⟩ = some (.number Constant.e.value) := rfl
  have hnumber : leaf? ⟨.number, String.ofList exponent⟩ =
      some (.number ⟨Decimal.digitsValue exponent, 0⟩) := by
    simp [leaf?, Decimal.ofString?, Decimal.ofChars?_row hexponent hne]
  have hback : [⟨.constant, "e"⟩, ⟨.binary, "-"⟩, ⟨.number, String.ofList exponent⟩].filterMap leaf? =
      [.number Constant.e.value, .number ⟨Decimal.digitsValue exponent, 0⟩] := by
    rw [List.filterMap_cons_some hconstant, List.filterMap_cons_none rfl,
      List.filterMap_cons_some hnumber]
    rfl
  rw [htokens, ← List.singleton_append, List.filterMap_append, List.length_append, hback]
  exact Nat.le_add_left _ _

/-- The tokens of a notation have an operand for every leaf, and at least one more for a number in
scientific notation. -/
theorem length_leaves_le {e : Expr} (h : ∀ leaf ∈ e.leaves, leaf.IsScanned) :
    e.leaves.length + e.leaves.countP (·.IsScientific) ≤ (e.tokens.filterMap leaf?).length := by
  induction e with
  | number value =>
    have hscanned : (Leaf.number value).IsScanned := h _ (List.mem_singleton_self _)
    by_cases hscientific : (Leaf.number value).IsScientific
    · simpa [leaves, tokens, hscientific] using two_le_of_isScientific hscanned.1 hscientific
    · have hread := Decimal.ofString?_toText hscanned hscientific
      have hplain : value.tokens = [⟨.number, value.toText⟩] := if_neg hscientific
      simp [leaves, tokens, hscientific, hplain, leaf?, hread]
  | var name index =>
    have hletter : ¬ (Leaf.letter name).IsScientific := id
    simp [leaves, tokens, hletter, leaf?_letter]
  | unary op operand ih =>
    rw [tokens, leaves, List.filterMap_cons_none rfl, filterMap_leaf?_grouped]
    exact ih h
  | binary op left right seen ihl ihr =>
    obtain ⟨hl, hr⟩ := List.forall_mem_append.mp h
    have hleft := ihl hl
    have hright := ihr hr
    rw [tokens, leaves, filterMap_leaf?_grouped, List.filterMap_append,
      List.filterMap_cons_none rfl, List.length_append, List.length_append, List.countP_append]
    omega

theorem tokens_ne_nil (e : Expr) : e.tokens ≠ [] := by
  intro h
  have hdue := e.dueAfter_tokens true
  rw [h] at hdue
  cases hdue

/-- **Rereading**: an expression that has been parsed from a text is parsed as the same expression
from its own notation, exactly if none of its numbers is written in scientific notation; these are
the numbers that show an exponent. -/
theorem rereads_iff {text : String} {tokens : List Token} {e : Expr}
    (hscan : Token.scan text = .ok tokens) (hparse : ofTokens tokens = .ok e) :
    ((∃ tokens' e', Token.scan e.toText = .ok tokens' ∧ ofTokens tokens' = .ok e' ∧ e'.same e) ↔
      e.IsPlain) ∧
    ∀ value, .number value ∈ e.leaves →
      ((∃ c ∈ value.toChars, Decimal.isExponentMark c) ↔ value.IsScientific) := by
  have hleaves := isScanned_of_mem_leaves hscan hparse
  have hagain : Token.scan e.toText = .ok e.tokens := by
    refine scan_eq_ok.mpr ⟨e.tokens_ne_nil, ?_⟩
    rw [toText, String.toList_ofList]
    exact scans_toChars hleaves
  refine ⟨⟨?_, ?_⟩, ?_⟩
  · -- too many operands have been read for the tree to be the same
    rintro ⟨tokens', e', hscan', hparse', hsame⟩ leaf hleaf hscientific
    obtain rfl : e.tokens = tokens' := Except.ok.inj (hagain.symm.trans hscan')
    have hlength : e'.leaves.length = (e.tokens.filterMap leaf?).length := by
      rw [(conserved_of_ofTokens hparse').1]
    have hcount : 0 < e.leaves.countP (·.IsScientific) :=
      List.countP_pos_iff.mpr ⟨leaf, hleaf, decide_eq_true hscientific⟩
    have hle := length_leaves_le hleaves
    have hequal := length_leaves_of_same hsame
    omega
  · intro hplain
    obtain ⟨d, hd, hsame⟩ := exists_derivation hleaves hplain
    obtain ⟨-, known, hnumbered⟩ := conserved_of_ofTokens hparse
    refine ⟨e.tokens, (d.ofSumOperand.tree.indexed Variables.empty).1, hagain, ?_, ?_⟩
    · rw [← hd]
      exact d.ofSumOperand.ofTokens_tokens
    · -- the tree of the derivation is numbered as the expression is
      rw [hnumbered.eq_indexed]
      exact (same_indexed hsame Variables.empty).1
  · intro value hvalue
    obtain ⟨hunscaled, hscale, hrange⟩ := hleaves _ hvalue
    exact Decimal.exists_exponentMark_iff hunscaled hscale hrange

/-- Five zeros behind the point can be read again, and six cannot. -/
theorem rereads_up_to_five_zeros :
    let five : Expr := .binary .add (.var "x" 0) (.number ⟨1, 6⟩) 1
    let six : Expr := .binary .add (.var "x" 0) (.number ⟨1, 7⟩) 1
    (∃ tokens e, Token.scan five.toText = .ok tokens ∧ ofTokens tokens = .ok e ∧ e.same five) ∧
      ¬ ∃ tokens e, Token.scan six.toText = .ok tokens ∧ ofTokens tokens = .ok e ∧ e.same six := by
  intro five six
  have hfive : Token.scan "X + ,000001" =
      .ok [⟨.letter, "x"⟩, ⟨.binary, "+"⟩, ⟨.number, ".000001"⟩] := rfl
  have hsix : Token.scan "X + ,0000001" =
      .ok [⟨.letter, "x"⟩, ⟨.binary, "+"⟩, ⟨.number, ".0000001"⟩] := rfl
  have hplain : ∀ leaf ∈ five.leaves, ¬ leaf.IsScientific := by decide
  have hscientific : ¬ ∀ leaf ∈ six.leaves, ¬ leaf.IsScientific := by decide
  exact ⟨(rereads_iff hfive rfl).1.mpr hplain,
    fun h => hscientific ((rereads_iff hsix rfl).1.mp h)⟩

end Expr

end Reckoner
