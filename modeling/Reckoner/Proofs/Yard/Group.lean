import Reckoner.Proofs.Token.Scans
import Reckoner.Proofs.Yard.Conservation

/-!
# Groups

Between parentheses tokens are read as they are on their own, whatever lies on the stacks outside. A
run on its own and the same run inside a group differ in three ways only (`Yard.Within`): the stacks
inside stand on those outside, parentheses have other indices, and variables have other numbers. The
operators of the group find no operand outside, because on their own they found enough, and
nothing outside acts, because the parenthesis of the group stops it.

So if some tokens are parsed as an expression, a group of them puts **that expression**, up to its
numbers, onto the operands of any yard (`Yard.readFrom_group`). This holds for all tokens that are
parsed, those that are not in infix notation included. Expressions made of groups are parsed
accordingly (`Expr.ofTokens_grouped` and its companions).
-/

namespace Reckoner

/-- What is pending, without the index of its token. -/
def Pending.unplaced : Pending → Pending
  | group _ => group 0
  | operator o => .operator o

@[simp] theorem Expr.bare_under (front : List UnaryOp) (e : Expr) :
    (e.under front).bare = e.bare.under front := by
  induction front generalizing e with
  | nil => rfl
  | cons op front ih => exact ih (.unary op e)

namespace Yard

/-- The yard `inner` is `alone`, read inside a group with the operands `below` and what is pending in
`outer` outside. -/
structure Within (below : List Expr) (outer : List Pending) (alone inner : Yard) : Prop where
  /-- the operands inside stand on those outside -/
  operands : inner.operands.map Expr.bare = alone.operands.map Expr.bare ++ below
  /-- what is pending inside stands on the parenthesis of the group -/
  pending : inner.pending.map Pending.unplaced =
    alone.pending.map Pending.unplaced ++ .group 0 :: outer

variable {below : List Expr} {outer : List Pending} {alone inner after : Yard} {index : Nat}
  {seen : Nat} {operator : Operator} {operators : List Operator}
  {operands operands' result : List Expr} {pending rest tail : List Pending}

/-! ## Operators inside -/

theorem act_within (seen' : Nat) (h : act seen operator operands = .ok result)
    (hwithin : operands'.map Expr.bare = operands.map Expr.bare ++ below) :
    ∃ result', act seen' operator operands' = .ok result' ∧
      result'.map Expr.bare = result.map Expr.bare ++ below := by
  rcases act_eq_ok h with ⟨op, operand, rest, rfl, rfl, rfl⟩ | ⟨op, right, left, rest, rfl, rfl, rfl⟩
  · obtain ⟨operand', rest', rfl, hoperand, hrest⟩ := List.map_eq_cons_iff.mp hwithin
    refine ⟨.unary op operand' :: rest', rfl, ?_⟩
    simp [Expr.bare, hoperand, hrest]
  · obtain ⟨right', rest', rfl, hright, hrest⟩ := List.map_eq_cons_iff.mp hwithin
    obtain ⟨left', rest', rfl, hleft, hrest⟩ := List.map_eq_cons_iff.mp hrest
    refine ⟨.binary op left' right' seen' :: rest', rfl, ?_⟩
    simp [Expr.bare, hleft, hright, hrest]

theorem settle_within (seen' : Nat) (h : settle seen operators operands = .ok result)
    (hwithin : operands'.map Expr.bare = operands.map Expr.bare ++ below) :
    ∃ result', settle seen' operators operands' = .ok result' ∧
      result'.map Expr.bare = result.map Expr.bare ++ below := by
  induction operators generalizing operands operands' with
  | nil =>
    cases h
    exact ⟨operands', rfl, hwithin⟩
  | cons operator operators ih =>
    obtain ⟨between, ha, hs⟩ := bind_eq_ok.mp h
    obtain ⟨between', ha', hbetween⟩ := act_within seen' ha hwithin
    obtain ⟨result', hs', hresult⟩ := ih hs hbetween
    refine ⟨result', ?_, hresult⟩
    rw [settle_cons, ha']
    exact hs'

/-! ## What is pending inside -/

/-- A row of operators has no indices to lose. -/
theorem eq_row_of_unplaced (h : pending.map Pending.unplaced = row operators) :
    pending = row operators := by
  induction operators generalizing pending with
  | nil => exact List.map_eq_nil_iff.mp h
  | cons operator operators ih =>
    obtain ⟨first, rest, rfl, hfirst, hrest⟩ := List.map_eq_cons_iff.mp h
    rcases first with token | o
    · cases hfirst
    · cases hfirst
      rw [ih hrest]
      rfl

theorem exists_row_of_unplaced (h : pending.map Pending.unplaced = row operators ++ tail) :
    ∃ rest, pending = row operators ++ rest ∧ rest.map Pending.unplaced = tail := by
  obtain ⟨front, rest, rfl, hfront, hrest⟩ := List.map_eq_append_iff.mp h
  exact ⟨rest, by rw [eq_row_of_unplaced hfront], hrest⟩

theorem exists_group_of_unplaced {entry : Pending} {token : Nat}
    (h : entry.unplaced = .group token) : ∃ partner, entry = .group partner := by
  rcases entry with partner | o
  · exact ⟨partner, rfl⟩
  · cases h

@[simp] theorem unplaced_row (operators : List Operator) :
    (row operators).map Pending.unplaced = row operators := by
  simp [Pending.unplaced]

theorem unplaced_row_append (operators : List Operator) (rest : List Pending) :
    (row operators ++ rest).map Pending.unplaced = row operators ++ rest.map Pending.unplaced := by
  rw [List.map_append, unplaced_row]

/-- An operator at the front inside is at the front on its own: behind it comes the parenthesis. -/
theorem head?_of_within (h : rest.map Pending.unplaced =
      pending.map Pending.unplaced ++ .group 0 :: outer)
    (hhead : rest.head? = some (.operator operator)) :
    pending.head? = some (.operator operator) := by
  obtain ⟨behind, rfl⟩ := List.head?_eq_some_iff.mp hhead
  rcases pending with _ | ⟨token | o, pending⟩
  · cases h
  · cases h
  · obtain ⟨hfirst, -⟩ := List.cons.inj h
    cases hfirst
    rfl

/-! ## Tokens inside -/

/-- What a token does on its own, it does inside a group. -/
theorem Within.step {t : Token} (hstep : Step alone index t after)
    (h : Within below outer alone inner) (index' : Nat) :
    ∃ after', inner.read index' t = .ok after' ∧ Within below outer after after' := by
  obtain ⟨hoperands, hpending⟩ := h
  cases hstep with
  | number reads =>
    refine ⟨_, read_of_step (.number reads), ?_, hpending⟩
    simp [pushOperand, hoperands]
  | constant reads =>
    refine ⟨_, read_of_step (.constant reads), ?_, hpending⟩
    simp [pushOperand, hoperands]
  | letter name =>
    refine ⟨_, read_of_step (.letter name), ?_, hpending⟩
    simp [pushVariable, hoperands, Expr.bare]
  | unary reads =>
    refine ⟨_, read_of_step (.unary reads), hoperands, ?_⟩
    simp [pushPending, hpending]
  | opening text =>
    refine ⟨_, read_of_step (.opening text), hoperands, ?_⟩
    simp [pushPending, hpending, Pending.unplaced]
  | @binary text op operators rest operands reads above binds stops settled =>
    rw [above, unplaced_row_append, List.append_assoc] at hpending
    obtain ⟨rest', hrow, hrest⟩ := exists_row_of_unplaced hpending
    obtain ⟨result', hs, hresult⟩ := settle_within inner.known.count settled hoperands
    have hstops : Stops op rest' := fun o ho => stops o (head?_of_within hrest ho)
    refine ⟨_, read_of_step (.binary reads hrow binds hstops hs), hresult, ?_⟩
    simp [hrest, Pending.unplaced]
  | @closing text partner operators rest between operands front above settled unfronted fronted =>
    rw [above, unplaced_row_append, List.map_cons, unplaced_row_append, List.append_assoc,
      List.cons_append, List.append_assoc] at hpending
    obtain ⟨tail, hrow, htail⟩ := exists_row_of_unplaced hpending
    obtain ⟨first, behind, rfl, hfirst, hbehind⟩ := List.map_eq_cons_iff.mp htail
    obtain ⟨partner', rfl⟩ := exists_group_of_unplaced hfirst
    obtain ⟨rest', rfl, hrest⟩ := exists_row_of_unplaced hbehind
    obtain ⟨between', hs, hbetween⟩ := settle_within inner.known.count settled hoperands
    obtain ⟨result', hs', hresult⟩ := settle_within inner.known.count fronted hbetween
    have hfree : front = none → NoUnary rest' :=
      fun hnone op hhead => unfronted hnone op (head?_of_within hrest hhead)
    exact ⟨_, read_of_step (.closing front hrow hs hfree hs'), hresult, hrest⟩

/-- What a run does on its own, it does inside a group. -/
theorem Within.readFrom {tokens : List Token} (hread : alone.readFrom index tokens = .ok after)
    (h : Within below outer alone inner) (index' : Nat) :
    ∃ after', inner.readFrom index' tokens = .ok after' ∧ Within below outer after after' := by
  induction tokens generalizing alone inner index index' with
  | nil =>
    cases hread
    exact ⟨inner, rfl, h⟩
  | cons t rest ih =>
    obtain ⟨between, ht, hrest⟩ := bind_eq_ok.mp hread
    obtain ⟨between', ht', hbetween⟩ := h.step (step_of_read ht) index'
    obtain ⟨after', hrest', hafter⟩ := ih hrest hbetween (index' + 1)
    refine ⟨after', ?_, hafter⟩
    rw [readFrom_cons, ht']
    exact hrest'

/-- **A group is read as on its own**: it puts the expression that its tokens are parsed as, up to
numbers, onto the operands, under the unary operator in front of the group if there is one. -/
theorem readFrom_group {tokens : List Token} {e : Expr} (h : Expr.ofTokens tokens = .ok e)
    (yard : Yard) (front : Option UnaryOp) (operators : List Operator)
    (hpending : yard.pending = row (front.toList.map .unary) ++ row operators)
    (hfree : front = none → NoUnary (row operators)) (index : Nat) (opening closing : String) :
    ∃ after, yard.readFrom index (⟨.opening, opening⟩ :: tokens ++ [⟨.closing, closing⟩]) =
        .ok after ∧
      after.operands.map Expr.bare =
        e.bare.under front.toList :: yard.operands.map Expr.bare ∧
      after.pending = row operators := by
  obtain ⟨alone, inside, hread, hrow, hs⟩ := run_of_ofTokens h
  have hwithin : Within (yard.operands.map Expr.bare) (yard.pending.map Pending.unplaced) empty
      (yard.pushPending (.group index)) := ⟨rfl, rfl⟩
  obtain ⟨inner, hread', hoperands, hpending'⟩ := hwithin.readFrom hread (index + 1)
  -- the row that acts at the end of the tokens acts inside the group when it is closed
  rw [hrow, hpending, ← row_append, unplaced_row, unplaced_row] at hpending'
  obtain ⟨tail, hrow', htail⟩ := exists_row_of_unplaced hpending'
  obtain ⟨first, behind, rfl, hfirst, hbehind⟩ := List.map_eq_cons_iff.mp htail
  obtain ⟨partner, rfl⟩ := exists_group_of_unplaced hfirst
  obtain rfl : behind = row (front.toList.map .unary) ++ row operators := by
    rw [eq_row_of_unplaced hbehind, row_append]
  obtain ⟨result, hs', hresult⟩ := settle_within inner.known.count hs hoperands
  obtain ⟨e', below, rfl, he, hbelow⟩ := List.map_eq_cons_iff.mp hresult
  have hclose : inner.read (index + 1 + tokens.length) ⟨.closing, closing⟩ =
      .ok ⟨e'.under front.toList :: below, row operators, inner.known⟩ :=
    read_of_step (.closing front hrow' hs' hfree (settle_front _ front.toList e' below))
  refine ⟨⟨e'.under front.toList :: below, row operators, inner.known⟩, ?_, ?_, rfl⟩
  · rw [List.cons_append, readFrom_cons, read_of_step (.opening opening), ok_bind,
      readFrom_append, hread', ok_bind, readFrom_singleton, hclose]
  · simp [he, hbelow]

end Yard

/-! ## Expressions made of groups -/

namespace Expr

open Yard

variable {tokens leftTokens rightTokens : List Token} {e left right : Expr}

/-- A group is read as the expression inside it. -/
theorem ofTokens_grouped (h : ofTokens tokens = .ok e) :
    ofTokens (Token.grouped tokens) = .ok e := by
  obtain ⟨after, hread, hoperands, hpending⟩ :=
    readFrom_group h Yard.empty none [] rfl (fun _ => nofun) 0 "(" ")"
  obtain ⟨e', rest, hafter, he, hrest⟩ := List.map_eq_cons_iff.mp hoperands
  obtain rfl := List.map_eq_nil_iff.mp hrest
  have hgrouped : ofTokens (Token.grouped tokens) = .ok e' :=
    ofTokens_eq_ok.mpr ⟨List.cons_ne_nil _ _, after, hread,
      result_eq_ok.mpr ⟨[], hpending, by rw [hafter, settle_nil]⟩⟩
  -- both trees are numbered from the start, so they agree because their bare forms do
  obtain ⟨-, known, hnumbered⟩ := conserved_of_ofTokens h
  obtain ⟨-, known', hnumbered'⟩ := conserved_of_ofTokens hgrouped
  have hbare : e'.bare = e.bare := he
  rw [hgrouped, hnumbered'.eq_indexed, hbare, ← hnumbered.eq_indexed]

/-- A unary operator before a group acts on the expression in the group. -/
theorem ofTokens_unary_grouped (h : ofTokens tokens = .ok e) (op : UnaryOp) :
    ∃ applied, ofTokens (⟨.unary, op.symbol⟩ :: Token.grouped tokens) = .ok applied ∧
      applied.bare = .unary op e.bare := by
  have hop : Token.unaryOf op.symbol = .ok op := by cases op <;> rfl
  obtain ⟨after, hread, hoperands, hpending⟩ :=
    readFrom_group h (Yard.empty.pushPending (.operator (.unary op))) (some op) [] rfl nofun 1
      "(" ")"
  obtain ⟨e', rest, hafter, he, hrest⟩ := List.map_eq_cons_iff.mp hoperands
  obtain rfl := List.map_eq_nil_iff.mp hrest
  refine ⟨e', ofTokens_eq_ok.mpr ⟨List.cons_ne_nil _ _, after, ?_, ?_⟩, he⟩
  · rw [readFrom_cons, read_of_step (.unary hop), ok_bind]
    exact hread
  · exact result_eq_ok.mpr ⟨[], hpending, by rw [hafter, settle_nil]⟩

/-- A binary operator between two groups takes the expressions in the groups. -/
theorem ofTokens_binary_grouped (hl : ofTokens leftTokens = .ok left)
    (hr : ofTokens rightTokens = .ok right) (op : BinaryOp) :
    ∃ both, ofTokens (Token.grouped leftTokens ++
        ⟨.binary, op.symbol⟩ :: Token.grouped rightTokens) = .ok both ∧
      both.bare = .binary op left.bare right.bare 0 := by
  have hop : Token.binaryOf op.symbol = .ok op := by cases op <;> rfl
  obtain ⟨between, hread, hoperands, hpending⟩ :=
    readFrom_group hl Yard.empty none [] rfl (fun _ => nofun) 0 "(" ")"
  obtain ⟨after, hread', hoperands', hpending'⟩ :=
    readFrom_group hr ⟨between.operands, [.operator (.binary op)], between.known⟩ none
      [.binary op] rfl (fun _ => nofun) ((Token.grouped leftTokens).length + 1) "(" ")"
  obtain ⟨right', rest, hafter, hright, hrest⟩ := List.map_eq_cons_iff.mp (hoperands'.trans
    (congrArg _ hoperands))
  obtain ⟨left', rest, rfl, hleft, hnil⟩ := List.map_eq_cons_iff.mp hrest
  obtain rfl := List.map_eq_nil_iff.mp hnil
  have habove : between.pending = row [] ++ [] := hpending
  have hbetween : between.read (0 + (Token.grouped leftTokens).length) ⟨.binary, op.symbol⟩ =
      .ok ⟨between.operands, [.operator (.binary op)], between.known⟩ :=
    read_of_step (.binary hop habove (fun _ ho => absurd ho List.not_mem_nil) (stops_nil op) rfl)
  refine ⟨.binary op left' right' after.known.count, ofTokens_eq_ok.mpr
    ⟨List.append_ne_nil_of_right_ne_nil _ (List.cons_ne_nil _ _), after, ?_, ?_⟩, ?_⟩
  · rw [readFrom_append, Token.grouped, hread, ok_bind, readFrom_cons]
    rw [Token.grouped] at hbetween
    rw [hbetween, ok_bind, Nat.zero_add]
    exact hread'
  · exact result_eq_ok.mpr ⟨[.binary op], hpending', by rw [hafter]; rfl⟩
  · rw [bare, hleft, hright]
    rfl

end Expr

end Reckoner
