import Reckoner.Proofs.Infix.Reading
import Reckoner.Proofs.Yard.Operators

/-!
# Sentences of the grammar

The grammar speaks about precedence, but whether some tokens are a sentence does not depend on it:
it is enough that operands and operators **alternate** and that the parentheses are balanced. What
makes this work is that every derivation can be extended **at its front**: an operand and a binary
operator before a sum are a sum again, however tightly the operator binds
(`Derivation.derives_binary`), and so is a unary operator before a sum (`Derivation.derives_unary`).

Tokens that alternate are therefore read from the left (`Alternating.split`). Where an operand is
due they begin with a sum, after an operand they begin with what continues a sum, and either ends at
the end of the tokens or at a parenthesis that closes a group from before.
-/

namespace Reckoner

/-- The tokens are derived from the nonterminal. -/
def Tier.Derives (tier : Tier) (tokens : List Token) : Prop :=
  ∃ d : Derivation tier, d.tokens = tokens

/-! ## Extending derivations at the front -/

namespace Derivation

variable {tier : Tier} {text : String}

/-- A unary operator may stand in front of all but an atom: it belongs to the first operand. -/
theorem derives_unary {op : UnaryOp} (d : Derivation tier)
    (reads : UnaryOp.ofSymbol? text = some op) (htier : tier ≠ .atom) :
    tier.Derives (⟨.unary, text⟩ :: d.tokens) := by
  induction d with
  | number | letter | constant | group => exact absurd rfl htier
  | ofAtom atom => exact ⟨.unary text op reads (.ofAtom atom), rfl⟩
  | unary inner innerOp readsInner operand =>
    exact ⟨.unary text op reads (.unary inner innerOp readsInner operand), rfl⟩
  | ofOperand operand ih =>
    obtain ⟨d, hd⟩ := ih (by decide)
    exact ⟨.ofOperand d, hd⟩
  | raise base power readsPower exponent ihb =>
    obtain ⟨d, hd⟩ := ihb (by decide)
    exact ⟨.raise d power readsPower exponent, by rw [tokens, hd]; rfl⟩
  | ofPower power ih =>
    obtain ⟨d, hd⟩ := ih (by decide)
    exact ⟨.ofPower d, hd⟩
  | multiply left times timesOp readsTimes mem right ihl =>
    obtain ⟨d, hd⟩ := ihl (by decide)
    exact ⟨.multiply d times timesOp readsTimes mem right, by rw [tokens, hd]; rfl⟩
  | ofProduct product ih =>
    obtain ⟨d, hd⟩ := ih (by decide)
    exact ⟨.ofProduct d, hd⟩
  | add left plus plusOp readsPlus mem right ihl =>
    obtain ⟨d, hd⟩ := ihl (by decide)
    exact ⟨.add d plus plusOp readsPlus mem right, by rw [tokens, hd]; rfl⟩

/-- An operand and a binary operator may stand in front of every derivation that may contain the
operator: the operator takes as much of the derivation as it binds. -/
theorem derives_binary {op : BinaryOp} (operand : Derivation .operand)
    (reads : BinaryOp.ofSymbol? text = some op) (d : Derivation tier) (htier : ¬ tier.TakesFront)
    (hop : op ∈ tier.operators) : tier.Derives (operand.tokens ++ ⟨.binary, text⟩ :: d.tokens) := by
  induction d with
  | number | letter | constant | group => exact absurd (.inr rfl) htier
  | ofAtom | unary => exact absurd (.inl rfl) htier
  | ofOperand exponent =>
    obtain rfl := List.mem_singleton.mp hop
    exact ⟨.raise operand text reads (.ofOperand exponent), rfl⟩
  | raise base power readsPower exponent =>
    obtain rfl := List.mem_singleton.mp hop
    exact ⟨.raise operand text reads (.raise base power readsPower exponent), rfl⟩
  | ofPower power ih =>
    by_cases hpow : op = .pow
    · obtain ⟨d, hd⟩ := ih (by decide) (List.mem_singleton.mpr hpow)
      exact ⟨.ofPower d, hd⟩
    · have hmem : op ∈ [.mul, .div, .rem] := by
        simpa [Tier.operators, hpow] using hop
      exact ⟨.multiply (.ofPower (.ofOperand operand)) text op reads hmem power, rfl⟩
  | multiply left times timesOp readsTimes mem right ihl =>
    obtain ⟨d, hd⟩ := ihl htier hop
    exact ⟨.multiply d times timesOp readsTimes mem right, by simp [tokens, hd]⟩
  | ofProduct product ih =>
    by_cases hloose : op ∈ [.add, .sub]
    · exact ⟨.add (.ofProduct (.ofPower (.ofOperand operand))) text op reads hloose product, rfl⟩
    · have hmem : op ∈ Tier.product.operators := by
        cases op with
        | add | sub => exact absurd (by decide) hloose
        | _ => decide
      obtain ⟨d, hd⟩ := ih (by decide) hmem
      exact ⟨.ofProduct d, hd⟩
  | add left plus plusOp readsPlus mem right ihl =>
    obtain ⟨d, hd⟩ := ihl htier hop
    exact ⟨.add d plus plusOp readsPlus mem right, by simp [tokens, hd]⟩

end Derivation

/-- A token that is an operand by itself is derived from the grammar's operand. -/
theorem Token.Resolves.derives_leaf {t : Token} (h : t.Resolves) (hleaf : t.kind.isLeaf) :
    Tier.operand.Derives [t] := by
  obtain ⟨kind, text⟩ := t
  cases kind with
  | number =>
    obtain ⟨value, reads⟩ := h
    exact ⟨.ofAtom (.number text value (Token.numberOf_eq_ok.mp reads)), rfl⟩
  | letter => exact ⟨.ofAtom (.letter text), rfl⟩
  | constant =>
    obtain ⟨value, reads⟩ := h
    exact ⟨.ofAtom (.constant text value reads), rfl⟩
  | _ => cases hleaf

/-! ## Alternating tokens -/

/-- Operands and operators alternate in the tokens, before which an operand is due or not and some
groups are open, and all of these are closed. -/
structure Alternating (due : Bool) (position : Nat) (opened : List Nat) (tokens : List Token) :
    Prop where
  /-- all tokens stand for something -/
  resolves : ∀ t ∈ tokens, t.Resolves
  /-- no operand is missing -/
  missing : Token.missing due tokens = 0
  /-- no operand stands beside another one -/
  adjacent : Token.adjacent due tokens = 0
  /-- the groups are closed -/
  closed : Token.unclosed position opened tokens = some []

/-- The tokens are a sum where an operand is due, and make an operand a sum where none is due. -/
def Completes : Bool → List Token → Prop
  | true, tokens => Tier.sum.Derives tokens
  | false, tokens => ∀ operand : Derivation .operand, Tier.sum.Derives (operand.tokens ++ tokens)

theorem completes_nil : Completes false [] :=
  fun operand => ⟨.ofProduct (.ofPower (.ofOperand operand)), (List.append_nil _).symm⟩

/-- What continues an operand makes it a sum. -/
theorem Completes.operand {operandTokens tokens : List Token} (h : Completes false tokens)
    (hoperand : Tier.operand.Derives operandTokens) : Completes true (operandTokens ++ tokens) := by
  obtain ⟨operand, rfl⟩ := hoperand
  exact h operand

/-- The tokens are at their end, or they begin with the parenthesis that closes the newest group. -/
def EndsGroup (opened : List Nat) (tokens : List Token) : Prop :=
  (opened = [] ∧ tokens = []) ∨ ∃ text rest position newest older,
    tokens = ⟨.closing, text⟩ :: rest ∧ opened = newest :: older ∧
      Alternating false position older rest

namespace Alternating

variable {due : Bool} {position : Nat} {opened : List Nat} {t : Token} {tokens rest : List Token}

theorem eq_nil (h : Alternating due position opened []) : due = false ∧ opened = [] := by
  refine ⟨?_, Option.some.inj h.closed⟩
  have hmissing := h.missing
  cases due with
  | false => rfl
  | true => cases hmissing

/-- The first token begins an operand exactly if one is due, and the rest alternates behind it. -/
theorem cons (h : Alternating due position opened (t :: rest)) :
    t.Resolves ∧ t.kind.beginsOperand = due ∧ ∃ after, t.openAfter position opened = some after ∧
      Alternating (!t.kind.endsOperand) (position + 1) after rest := by
  obtain ⟨hresolves, hmissing, hadjacent, hclosed⟩ := h
  obtain ⟨after, hafter, hrest⟩ := Option.bind_eq_some_iff.mp hclosed
  obtain ⟨hfirst, hmissing⟩ := Nat.add_eq_zero_iff.mp hmissing
  obtain ⟨hsecond, hadjacent⟩ := Nat.add_eq_zero_iff.mp hadjacent
  refine ⟨hresolves t (List.mem_cons_self ..), ?_, after, hafter,
    fun t ht => hresolves t (List.mem_cons_of_mem _ ht), hmissing, hadjacent, hrest⟩
  cases due <;> simpa using And.intro hfirst hsecond

/-- **Reading from the left.** Alternating tokens begin with what completes a sum, and behind it
they end or a group is closed. -/
theorem split (h : Alternating due position opened tokens) :
    ∃ front back, tokens = front ++ back ∧ Completes due front ∧ EndsGroup opened back := by
  induction hlength : tokens.length using Nat.strong_induction_on
    generalizing due position opened tokens with
  | _ length ih =>
    rcases tokens with _ | ⟨t, rest⟩
    · obtain ⟨rfl, hopened⟩ := h.eq_nil
      exact ⟨[], [], rfl, completes_nil, .inl ⟨hopened, rfl⟩⟩
    · obtain ⟨hresolves, hbegins, after, hafter, hrest⟩ := h.cons
      have hshorter : rest.length < length := hlength ▸ Nat.lt_succ_self rest.length
      obtain ⟨front, back, rfl, hfront, hback⟩ := ih rest.length hshorter hrest rfl
      obtain ⟨kind, text⟩ := t
      cases kind with
      | number | letter | constant =>
        cases hbegins
        cases hafter
        exact ⟨_ :: front, back, rfl, hfront.operand (hresolves.derives_leaf rfl), hback⟩
      | unary =>
        cases hbegins
        cases hafter
        obtain ⟨op, reads⟩ := hresolves
        obtain ⟨sum, rfl⟩ := hfront
        exact ⟨_ :: sum.tokens, back, rfl,
          sum.derives_unary (Token.unaryOf_eq_ok.mp reads) (by decide), hback⟩
      | binary =>
        cases hbegins
        cases hafter
        obtain ⟨op, reads⟩ := hresolves
        obtain ⟨sum, rfl⟩ := hfront
        have hop : op ∈ Tier.sum.operators := by cases op <;> decide
        exact ⟨_ :: sum.tokens, back, rfl, fun operand =>
          operand.derives_binary (Token.binaryOf_eq_ok.mp reads) sum (by decide) hop, hback⟩
      | closing =>
        cases hbegins
        obtain ⟨newest, hopened⟩ := Token.openAfter_closing_eq_some rfl hafter
        exact ⟨[], _, rfl, completes_nil,
          .inr ⟨text, front ++ back, position + 1, newest, after, rfl, hopened, hrest⟩⟩
      | opening =>
        -- the tokens up to the closing parenthesis are a sum, and what is behind it continues the group
        cases hbegins
        cases hafter
        obtain ⟨hnone, -⟩ | ⟨closing, behind, position', newest, older, rfl, hopened, hbehind⟩ :=
          hback
        · cases hnone
        · cases hopened
          have hshorter' : behind.length < length := by
            simp only [List.length_append, List.length_cons] at hshorter
            omega
          obtain ⟨front', back', rfl, hfront', hback'⟩ :=
            ih behind.length hshorter' hbehind rfl
          obtain ⟨inner, rfl⟩ := hfront
          have hgroup : Tier.operand.Derives
              (⟨.opening, text⟩ :: inner.tokens ++ [⟨.closing, closing⟩]) :=
            ⟨.ofAtom (.group text inner closing), rfl⟩
          exact ⟨_, back', by simp, hfront'.operand hgroup, hback'⟩

/-- **Alternating tokens are a sentence.** -/
theorem derives (h : Alternating true 0 [] tokens) : Tier.sum.Derives tokens := by
  obtain ⟨front, back, rfl, hfront, ⟨-, rfl⟩ | ⟨_, _, _, _, _, _, hopened, _⟩⟩ := h.split
  · rwa [List.append_nil]
  · cases hopened

end Alternating

end Reckoner
