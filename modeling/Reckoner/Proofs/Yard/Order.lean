import Mathlib.Data.List.Chain
import Reckoner.Proofs.Token.Parentheses
import Reckoner.Proofs.Yard.Failure
import Reckoner.Proofs.Yard.Rounds

/-!
# The order of what is pending

An incoming operator looks at the newest entry only, and yet all operators act that have to. That
is because of the order in which entries are pending, from the oldest to the newest.

* A binary operator is never pending on a unary one, and on a binary one only if it binds more tightly
  or both are powers (`Pending.RestsOn`). These are the entries that do not act before it
  (`Pending.restsOn_iff`), so that the order is kept when it is put **on top**, and whatever
  acts is taken from the top.
* The parentheses that are pending are those that have been read and have no partner yet, in the order
  of their positions.

Every round keeps this (`Yard.Orderly.round`), so it holds in all states of a run, in those between
an operator's being taken and its acting too. No state is stuck (`Yard.orderly_run`).
-/

namespace Reckoner

/-! ## Neighbours -/

/-- The first entry may be pending directly on top of the second one. -/
def Pending.RestsOn : Pending → Pending → Prop
  | .operator (.binary _), .operator (.unary _) => False
  | .operator (.binary upper), .operator (.binary lower) =>
    lower.precedence < upper.precedence ∨ lower = .pow ∧ upper = .pow
  | _, _ => True

/-- A binary operator may be pending on what does not act before it. -/
theorem Pending.restsOn_iff {next : BinaryOp} {entry : Pending} :
    RestsOn (.operator (.binary next)) entry ↔ entry.bindsBefore next = false := by
  rcases entry with token | op | lower
  · exact ⟨fun _ => rfl, fun _ => trivial⟩
  · exact ⟨False.elim, nofun⟩
  · change (lower.precedence < next.precedence ∨ lower = .pow ∧ next = .pow) ↔ _
    cases lower <;> cases next <;> decide

namespace Yard

/-! ## Every state of a run -/

/-- The kind of the token at hand, where it is known. -/
def Activity.kind? : Activity → Option Token.Kind
  | admitting _ => some .binary
  | closing => some .closing
  | _ => none

/-- What holds in the states of a run that reads the tokens. -/
structure Orderly (tokens : List Token) (s : State) : Prop where
  /-- each entry may be pending on the next older one -/
  chain : s.yard.pending.IsChain Pending.RestsOn
  /-- the groups that are pending are those that are open -/
  opened : Token.unclosed 0 [] (tokens.take s.index) = some (openings s.yard.pending)
  /-- what is taken is no parenthesis -/
  operator : ∀ token, s.taken ≠ some (.group token)
  /-- the token at hand is what the activity is about -/
  hand : ∀ kind, s.activity.kind? = some kind → ∃ t, tokens[s.index]? = some t ∧ t.kind = kind

variable {tokens : List Token} {s next : State} {t : Token} {rest : List Pending} {after : Yard}

theorem orderly_start : Orderly tokens .start where
  chain := .nil
  opened := by rw [State.start, List.take_zero]; rfl
  operator := nofun
  hand := nofun

/-- An operator is taken from the top. -/
theorem Orderly.take {operator : Operator} (h : Orderly tokens s)
    (hpending : s.yard.pending = .operator operator :: rest) :
    Orderly tokens (s.take (.operator operator) rest s.activity) where
  chain := (List.isChain_cons.mp (hpending ▸ h.chain)).2
  opened := by
    rw [State.take, h.opened, hpending]
    rfl
  operator := nofun
  hand := h.hand

/-- One token more has been dealt with. -/
theorem Orderly.advance {activity : Activity} (h : Orderly tokens s) (hat : tokens[s.index]? = some t)
    (hchain : after.pending.IsChain Pending.RestsOn)
    (hopened : t.openAfter s.index (openings s.yard.pending) = some (openings after.pending))
    (hkind : activity.kind? = none) : Orderly tokens ⟨s.index + 1, activity, none, after⟩ where
  chain := hchain
  opened := by
    have hlength : (tokens.take s.index).length = s.index :=
      List.length_take_of_le (List.getElem?_eq_some_iff.mp hat).1.le
    rw [List.take_add_one, hat, Token.unclosed_append, h.opened, Option.bind_some, hlength,
      Option.toList_some, Token.unclosed, Nat.zero_add, hopened]
    rfl
  operator := nofun
  hand := fun kind hactivity => nomatch hkind.symm.trans hactivity

/-! ## Activities -/

variable {index : Nat} {yard : Yard} {activity activity' : Activity}

/-- Another activity goes on with the same stacks. -/
theorem Orderly.turn (h : Orderly tokens ⟨index, activity, none, yard⟩)
    (hhand : ∀ kind, activity'.kind? = some kind → ∃ t, tokens[index]? = some t ∧ t.kind = kind) :
    Orderly tokens ⟨index, activity', none, yard⟩ := ⟨h.chain, h.opened, h.operator, hhand⟩

/-- Tokens that make nothing act are put on top. -/
theorem Orderly.read (h : Orderly tokens s) (hat : tokens[s.index]? = some t)
    (hbinary : t.kind ≠ .binary) (hclosing : t.kind ≠ .closing)
    (hread : s.yard.read s.index t = .ok after) : Orderly tokens (s.advance after) := by
  have hstep := step_of_read hread
  refine h.advance hat ?_ (openAfter_of_step hstep) rfl
  cases hstep with
  | number reads => exact h.chain
  | constant reads => exact h.chain
  | letter name => exact h.chain
  | unary reads => exact List.isChain_cons.mpr ⟨fun _ _ => trivial, h.chain⟩
  | opening text => exact List.isChain_cons.mpr ⟨fun _ _ => trivial, h.chain⟩
  | binary reads above binds stops settled => exact absurd rfl hbinary
  | closing front above settled unfronted fronted => exact absurd rfl hclosing

theorem Orderly.reading (h : Orderly tokens ⟨index, .reading, none, yard⟩)
    (hround : round tokens ⟨index, .reading, none, yard⟩ = .goesOn next) : Orderly tokens next := by
  rcases hat : tokens[index]? with _ | t
  · simp only [Yard.round, hat] at hround
    cases hround
    refine h.turn ?_
    intro kind hkind
    cases hkind
  · by_cases hbinary : t.kind = .binary
    · simp only [Yard.round, hat, hbinary] at hround
      obtain ⟨op, -, rfl⟩ := Round.resume_eq_goesOn hround
      refine h.turn ?_
      intro kind hkind
      cases hkind
      exact ⟨t, hat, hbinary⟩
    · by_cases hclosing : t.kind = .closing
      · simp only [Yard.round, hat, hclosing] at hround
        cases hround
        refine h.turn ?_
        intro kind hkind
        cases hkind
        exact ⟨t, hat, hclosing⟩
      · simp only [Yard.round, hat] at hround
        obtain ⟨left, hread, rfl⟩ := Round.resume_eq_goesOn hround
        exact h.read hat hbinary hclosing hread

/-- A binary operator is put on top of what does not act before it. -/
theorem Orderly.admit {op : BinaryOp} (h : Orderly tokens ⟨index, .admitting op, none, yard⟩)
    (hstops : ∀ entry ∈ yard.pending.head?, entry.bindsBefore op = false) :
    Orderly tokens ⟨index + 1, .reading, none, yard.pushPending (.operator (.binary op))⟩ := by
  obtain ⟨t, hat, hkind⟩ := h.hand .binary rfl
  refine h.advance hat ?_ ?_ rfl
  · exact List.isChain_cons.mpr ⟨fun entry he => Pending.restsOn_iff.mpr (hstops entry he), h.chain⟩
  · rw [Token.openAfter_other (by rw [hkind]; exact nofun)]
    rfl

theorem Orderly.admitting {op : BinaryOp} (h : Orderly tokens ⟨index, .admitting op, none, yard⟩)
    (hround : round tokens ⟨index, .admitting op, none, yard⟩ = .goesOn next) :
    Orderly tokens next := by
  obtain ⟨operands, _ | ⟨token | operator, rest⟩, known⟩ := yard
  · cases hround
    exact h.admit nofun
  · cases hround
    refine h.admit ?_
    intro entry hentry
    cases hentry
    rfl
  · by_cases hbinds : operator.bindsBefore op
    · obtain rfl := Round.goesOn.inj ((if_pos hbinds).symm.trans hround)
      exact h.take rfl
    · obtain rfl := Round.goesOn.inj ((if_neg hbinds).symm.trans hround)
      refine h.admit ?_
      intro entry hentry
      cases hentry
      exact Bool.eq_false_iff.mpr hbinds

theorem Orderly.closing (h : Orderly tokens ⟨index, .closing, none, yard⟩)
    (hround : round tokens ⟨index, .closing, none, yard⟩ = .goesOn next) :
    Orderly tokens next := by
  obtain ⟨operands, _ | ⟨partner | operator, rest⟩, known⟩ := yard
  · cases hround
  · cases hround
    obtain ⟨t, hat, hkind⟩ := h.hand .closing rfl
    exact h.advance hat (List.isChain_cons.mp h.chain).2 (Token.openAfter_closing hkind partner) rfl
  · cases hround
    exact h.take rfl

theorem Orderly.fronting (h : Orderly tokens ⟨index, .fronting, none, yard⟩)
    (hround : round tokens ⟨index, .fronting, none, yard⟩ = .goesOn next) :
    Orderly tokens next := by
  have hread : Orderly tokens ⟨index, .reading, none, yard⟩ := by
    refine h.turn ?_
    intro kind hkind
    cases hkind
  obtain ⟨operands, _ | ⟨token | op | op, rest⟩, known⟩ := yard
  · cases hround
    exact hread
  · cases hround
    exact hread
  · cases hround
    exact hread.take rfl
  · cases hround
    exact hread

theorem Orderly.finishing (h : Orderly tokens ⟨index, .finishing, none, yard⟩)
    (hround : round tokens ⟨index, .finishing, none, yard⟩ = .goesOn next) :
    Orderly tokens next := by
  obtain ⟨operands, _ | ⟨token | operator, rest⟩, known⟩ := yard
  · rcases operands with _ | ⟨e, _ | ⟨another, operands⟩⟩ <;> cases hround
  · cases hround
  · cases hround
    exact h.take rfl

/-! ## Runs -/

/-- **Every round keeps the order.** -/
theorem Orderly.round (h : Orderly tokens s) (hround : round tokens s = .goesOn next) :
    Orderly tokens next := by
  obtain ⟨index, activity, taken, yard⟩ := s
  rcases taken with _ | token | operator
  · cases activity with
    | reading => exact h.reading hround
    | admitting op => exact h.admitting hround
    | closing => exact h.closing hround
    | fronting => exact h.fronting hround
    | finishing => exact h.finishing hround
  · exact absurd rfl (h.operator token)
  · obtain ⟨result, -, rfl⟩ := Round.resume_eq_goesOn hround
    exact ⟨h.chain, h.opened, nofun, h.hand⟩

theorem orderly_of_reaches (h : Round.Reaches (round tokens) .start s) : Orderly tokens s :=
  h.keeps (fun _ _ hround hs => hs.round hround) orderly_start

/-- **The order of what is pending**, in all states of a run. Rounds do what reading does: they reach
every yard that the first tokens leave, and end with what the tokens write. In every state that
they reach, with an operator about to act or not,

* an entry is pending on one that it may be pending on;
* the groups that are pending are the parentheses that have been read and have no partner among the
  tokens read, in the order of their positions;
* no parenthesis is about to act, and an operand that is given out is there. -/
theorem orderly_run (tokens : List Token) :
    (∀ count ≤ tokens.length, ∀ yard, empty.readFrom 0 (tokens.take count) = .ok yard →
      Round.Reaches (round tokens) .start ⟨count, .reading, none, yard⟩) ∧
    (tokens ≠ [] →
      ∃ last, Round.Reaches (round tokens) .start last ∧
        round tokens last = .ends (Expr.ofTokens tokens)) ∧
    ∀ s, Round.Reaches (round tokens) .start s →
      s.yard.pending.IsChain Pending.RestsOn ∧
      (openings s.yard.pending).reverse.Pairwise (· < ·) ∧
      (∀ position, position ∈ openings s.yard.pending ↔
        Token.Stands .opening (tokens.take s.index) position ∧
          ¬ Token.Paired (tokens.take s.index) position) ∧
      (∀ token, s.taken ≠ some (.group token)) ∧
      round tokens s ≠ .stuck := by
  refine ⟨fun count hcount yard => reaches_of_readFrom hcount, exists_last_of_ofTokens, ?_⟩
  intro s hs
  have horderly := orderly_of_reaches hs
  have hleaves := Token.leavesOpen_of_unclosed horderly.opened
  refine ⟨horderly.chain, ?_, ?_, horderly.operator, ?_⟩
  · exact List.pairwise_reverse.mpr hleaves.pairwise
  · exact fun position => hleaves.mem_iff
  · intro hstuck
    obtain ⟨token, htaken⟩ := taken_of_round_eq_stuck hstuck
    exact horderly.operator token htaken

/-- Powers are pending on powers, inside a group that is pending on a minus sign, which is pending on a
product. The powers find operands outside the group, which stays open and is reported at the end. -/
theorem orderly_run_powers :
    let tokens : List Token := [⟨.number, "3"⟩, ⟨.binary, "*"⟩, ⟨.unary, "-"⟩, ⟨.opening, "("⟩,
      ⟨.number, "2"⟩, ⟨.binary, "^"⟩, ⟨.letter, "x"⟩, ⟨.binary, "^"⟩]
    let pending : List Pending := [.operator (.binary .pow), .operator (.binary .pow), .group 3,
      .operator (.unary .negate), .operator (.binary .mul)]
    (∃ yard, empty.readFrom 0 tokens = .ok yard ∧ yard.pending = pending) ∧
      pending.IsChain Pending.RestsOn ∧
      Token.Stands .opening tokens 3 ∧ ¬ Token.Paired tokens 3 ∧
      ∃ last, Round.Reaches (round tokens) .start last ∧
        round tokens last = .ends (.error (.unmatchedParenthesis 3)) := by
  intro tokens pending
  obtain ⟨hreads, hends, hstates⟩ := orderly_run tokens
  have hread : empty.readFrom 0 tokens =
      .ok ⟨[.var "x" 0, .number ⟨2, 0⟩, .number ⟨3, 0⟩], pending, ⟨[("x", 0)], by decide⟩⟩ := by
    decide
  have hparse : Expr.ofTokens tokens = .error (.unmatchedParenthesis 3) := by decide
  obtain ⟨hchain, -, hopenings, -⟩ := hstates _ (hreads 8 (by decide) _ hread)
  obtain ⟨hstands, hunpaired⟩ := (hopenings 3).mp (by decide)
  exact ⟨⟨_, hread, rfl⟩, hchain, hstands, hunpaired, hparse ▸ hends (by decide)⟩

end Yard

end Reckoner
