import Reckoner.Proofs.Rounds
import Reckoner.Proofs.Yard.Step

/-!
# The yard, round by round

Reading a token may take several **rounds**, because operators act one at a time. A round takes
one entry from what is pending, or lets the entry that has been taken act, or goes on to the next
activity (`Yard.round`). It would be **stuck** where a parenthesis has been taken and has to act, and
at the end, if there is no operand to give out.

The rounds follow each of the computations that the yard is made of, to its result or to its error
(`Round.Follows`). So they reach the yard that the first tokens leave, if these can be read
(`Yard.reaches_of_readFrom`), and end with what all tokens write (`Yard.exists_last_of_ofTokens`).
-/

namespace Reckoner

/-- Whether what is pending acts before the binary operator `next`. -/
def Pending.bindsBefore (next : BinaryOp) : Pending → Bool
  | group _ => false
  | operator o => o.bindsBefore next

namespace Yard

/-! ## Rounds -/

/-- What is being done to a yard. -/
inductive Activity where
  /-- the next token is read -/
  | reading
  /-- operators act before a binary operator, which is the token at hand -/
  | admitting (next : BinaryOp)
  /-- the operators in a group act, and the token at hand closes it -/
  | closing
  /-- the group has been closed, and a unary operator in front of it acts -/
  | fronting
  /-- all tokens have been read, and everything acts -/
  | finishing
  deriving DecidableEq, Repr

/-- A yard in the middle of a run. -/
structure State where
  /-- how many tokens have been read, which is the index of the token at hand -/
  index : Nat
  /-- what is being done -/
  activity : Activity
  /-- what has been taken from what is pending, to act next -/
  taken : Option Pending
  /-- the yard -/
  yard : Yard
  deriving DecidableEq, Repr

namespace State

/-- Nothing has been read. -/
def start : State := ⟨0, .reading, none, empty⟩

/-- The token at hand has been read, and has left a yard. -/
def advance (s : State) (yard : Yard) : State := ⟨s.index + 1, .reading, none, yard⟩

/-- An entry is taken from what is pending, and `rest` is left. When the entry has acted, `activity`
goes on. -/
def take (s : State) (entry : Pending) (rest : List Pending) (activity : Activity) : State :=
  ⟨s.index, activity, some entry, { s.yard with pending := rest }⟩

end State

/-- The round that begins in the given state. -/
def round (tokens : List Token) (s : State) : Round State (Except ParseError Expr) :=
  match s.taken with
  | some (.group _) => .stuck
  | some (.operator operator) =>
    .resume (fun operands => { s with taken := none, yard := { s.yard with operands } })
      (act s.yard.known.count operator s.yard.operands)
  | none =>
    match s.activity, s.yard.pending with
    | .reading, _ =>
      match tokens[s.index]? with
      | none => .goesOn { s with activity := .finishing }
      | some t =>
        match t.kind with
        | .binary =>
          .resume (fun next => { s with activity := .admitting next }) (Token.binaryOf t.text)
        | .closing => .goesOn { s with activity := .closing }
        | _ => .resume s.advance (s.yard.read s.index t)
    | .admitting next, entry :: rest =>
      if entry.bindsBefore next then .goesOn (s.take entry rest (.admitting next))
      else .goesOn (s.advance (s.yard.pushPending (.operator (.binary next))))
    | .admitting next, [] =>
      .goesOn (s.advance (s.yard.pushPending (.operator (.binary next))))
    | .closing, [] => .ends (.error (.unmatchedParenthesis s.index))
    | .closing, .group _ :: rest =>
      .goesOn ⟨s.index + 1, .fronting, none, { s.yard with pending := rest }⟩
    | .closing, entry :: rest => .goesOn (s.take entry rest .closing)
    | .fronting, .operator (.unary op) :: rest =>
      .goesOn (s.take (.operator (.unary op)) rest .reading)
    | .fronting, _ => .goesOn { s with activity := .reading }
    | .finishing, .group token :: _ => .ends (.error (.unmatchedParenthesis token))
    | .finishing, entry :: rest => .goesOn (s.take entry rest .finishing)
    | .finishing, [] =>
      if s.yard.operands.length ≠ 1 then
        .ends (.error (.leftoverOperands s.yard.operands.length))
      else
        match s.yard.operands with
        | e :: _ => .ends (.ok e)
        | [] => .stuck

/-- A round is stuck only where a parenthesis has been taken: the operand that is given out at the end
has been counted. -/
theorem taken_of_round_eq_stuck {tokens : List Token} {s : State}
    (h : round tokens s = .stuck) : ∃ token, s.taken = some (.group token) := by
  obtain ⟨index, activity, taken, operands, pending, known⟩ := s
  rcases taken with _ | token | operator
  · cases activity with
    | reading =>
      simp only [round] at h
      split at h
      · cases h
      · split at h
        · exact absurd h (Round.resume_ne_stuck _ _)
        · cases h
        · exact absurd h (Round.resume_ne_stuck _ _)
    | admitting op =>
      rcases pending with _ | ⟨entry, rest⟩
      · cases h
      · simp only [round] at h
        split at h <;> cases h
    | closing => rcases pending with _ | ⟨partner | operator, rest⟩ <;> cases h
    | fronting => rcases pending with _ | ⟨token | op | op, rest⟩ <;> cases h
    | finishing =>
      rcases pending with _ | ⟨token | operator, rest⟩
      · rcases operands with _ | ⟨e, _ | ⟨another, rest⟩⟩ <;> cases h
      · cases h
      · cases h
  · exact ⟨token, rfl⟩
  · exact absurd h (Round.resume_ne_stuck _ _)

/-! ## What acts -/

open Round

variable {tokens : List Token} {index : Nat} {next : BinaryOp} {known : Variables}

/-- An operator that is taken acts. -/
theorem follows_act {s : State} {operator : Operator} {rest : List Pending} {activity : Activity}
    (hround : round tokens s = .goesOn (s.take (.operator operator) rest activity)) :
    Follows (round tokens)
      (fun operands last => last = ⟨s.index, activity, none, ⟨operands, rest, s.yard.known⟩⟩) s
      (act s.yard.known.count operator s.yard.operands) :=
  .head hround (follows_resume rfl)

/-- The rounds before a binary operator. -/
theorem follows_actBefore (pending : List Pending) (operands : List Expr) :
    Follows (round tokens)
      (fun new last => last =
        ⟨index + 1, .reading, none, ⟨new.2, .operator (.binary next) :: new.1, known⟩⟩)
      ⟨index, .admitting next, none, ⟨operands, pending, known⟩⟩
      (actBefore known.count next pending operands) := by
  induction pending generalizing operands with
  | nil => exact .head rfl (.ok rfl)
  | cons first pending ih =>
    rcases first with token | operator
    · exact .head rfl (.ok rfl)
    · rw [actBefore]
      by_cases hbinds : operator.bindsBefore next
      · rw [if_pos hbinds]
        have hround : round tokens
            ⟨index, .admitting next, none, ⟨operands, .operator operator :: pending, known⟩⟩ =
              .goesOn ⟨index, .admitting next, some (.operator operator),
                ⟨operands, pending, known⟩⟩ := if_pos hbinds
        refine (follows_act hround).bind ?_
        rintro between _ rfl
        exact ih between
      · rw [if_neg hbinds]
        exact .head (if_neg hbinds) (.ok rfl)

/-- The rounds behind a group. -/
theorem follows_actOnGroup (pending : List Pending) (operands : List Expr) :
    Follows (round tokens)
      (fun new last => last = ⟨index, .reading, none, ⟨new.2, new.1, known⟩⟩)
      ⟨index, .fronting, none, ⟨operands, pending, known⟩⟩
      (actOnGroup known.count pending operands) := by
  rcases pending with _ | ⟨token | op | op, rest⟩
  · exact .head rfl (.ok rfl)
  · exact .head rfl (.ok rfl)
  · refine Follows.bind (follows_act (s := ⟨index, .fronting, none, _⟩) rfl) ?_
    rintro result _ rfl
    exact .ok rfl
  · exact .head rfl (.ok rfl)

/-- The rounds of a group that is closed. -/
theorem follows_close (pending : List Pending) (operands : List Expr) :
    Follows (round tokens)
      (fun new last => last = ⟨index + 1, .reading, none, ⟨new.2, new.1, known⟩⟩)
      ⟨index, .closing, none, ⟨operands, pending, known⟩⟩
      (close known.count index pending operands) := by
  induction pending generalizing operands with
  | nil => exact .error rfl
  | cons first pending ih =>
    rcases first with partner | operator
    · exact .head rfl (follows_actOnGroup pending operands)
    · refine Follows.bind (follows_act (s := ⟨index, .closing, none, _⟩) rfl) ?_
      rintro between _ rfl
      exact ih between

theorem result_operator (operator : Operator) (pending : List Pending) (operands : List Expr) :
    result ⟨operands, .operator operator :: pending, known⟩ =
      act known.count operator operands >>= fun between => result ⟨between, pending, known⟩ := by
  rw [result, finish]
  rcases act known.count operator operands with error | between <;> rfl

/-- The rounds at the end. -/
theorem follows_result (pending : List Pending) (operands : List Expr) :
    Follows (round tokens) (fun e last => round tokens last = .ends (.ok e))
      ⟨index, .finishing, none, ⟨operands, pending, known⟩⟩
      (result ⟨operands, pending, known⟩) := by
  induction pending generalizing operands with
  | nil =>
    rcases operands with _ | ⟨e, _ | ⟨another, rest⟩⟩
    · exact .error rfl
    · exact .ok rfl
    · exact .error rfl
  | cons first pending ih =>
    rcases first with token | operator
    · exact .error rfl
    · rw [result_operator]
      refine Follows.bind (follows_act (s := ⟨index, .finishing, none, _⟩) rfl) ?_
      rintro between _ rfl
      exact ih between

/-! ## Runs -/

variable {yard : Yard} {t : Token}

/-- The rounds that read the token at hand. -/
theorem follows_read (hat : tokens[index]? = some t) :
    Follows (round tokens) (fun after last => last = ⟨index + 1, .reading, none, after⟩)
      ⟨index, .reading, none, yard⟩ (yard.read index t) := by
  obtain ⟨kind, text⟩ := t
  cases kind with
  | binary =>
    have hround : round tokens ⟨index, .reading, none, yard⟩ =
        .resume (fun next => ⟨index, .admitting next, none, yard⟩) (Token.binaryOf text) := by
      simp [round, hat]
    refine (follows_resume hround).bind ?_
    rintro next _ rfl
    refine (follows_actBefore yard.pending yard.operands).bind ?_
    rintro new _ rfl
    exact .ok rfl
  | closing =>
    have hround : round tokens ⟨index, .reading, none, yard⟩ =
        .goesOn ⟨index, .closing, none, yard⟩ := by
      simp [round, hat]
    refine .head hround ((follows_close yard.pending yard.operands).bind ?_)
    rintro new _ rfl
    exact .ok rfl
  | _ =>
    refine follows_resume (g := State.advance ⟨index, .reading, none, yard⟩) ?_
    simp [round, hat]

/-- The rounds that read some of the tokens. -/
theorem follows_readFrom (front rest back : List Token) (yard : Yard) :
    Follows (round (front ++ rest ++ back))
      (fun after last => last = ⟨front.length + rest.length, .reading, none, after⟩)
      ⟨front.length, .reading, none, yard⟩ (yard.readFrom front.length rest) := by
  induction rest generalizing front yard with
  | nil => exact .ok rfl
  | cons t rest ih =>
    have hat : (front ++ t :: rest ++ back)[front.length]? = some t := by simp
    have hlength : front.length + (t :: rest).length = (front ++ [t]).length + rest.length := by
      simp [Nat.add_comm, Nat.add_left_comm]
    refine (follows_read hat).bind ?_
    rintro after _ rfl
    rw [hlength]
    simpa using ih (front ++ [t]) after

/-- **If the first tokens can be read**, the rounds reach the yard that they leave. -/
theorem reaches_of_readFrom {count : Nat} (hcount : count ≤ tokens.length)
    (h : empty.readFrom 0 (tokens.take count) = .ok yard) :
    Reaches (round tokens) .start ⟨count, .reading, none, yard⟩ := by
  have hfollows := follows_readFrom [] (tokens.take count) (tokens.drop count) empty
  rw [List.nil_append, List.take_append_drop, List.length_nil, h] at hfollows
  obtain ⟨last, hreaches, rfl⟩ := hfollows
  rwa [List.length_take_of_le hcount, Nat.zero_add] at hreaches

/-- **The rounds end with what the tokens write**, an expression or an error. -/
theorem exists_last_of_ofTokens (hne : tokens ≠ []) :
    ∃ last, Reaches (round tokens) .start last ∧ round tokens last = .ends (Expr.ofTokens tokens) := by
  have hrun : Expr.ofTokens tokens = empty.readFrom 0 tokens >>= result := by
    obtain ⟨t, rest, rfl⟩ := List.exists_cons_of_ne_nil hne
    rfl
  have hfollows : Follows (round tokens) (fun e last => round tokens last = .ends (.ok e)) .start
      (empty.readFrom 0 tokens >>= result) := by
    have hread := follows_readFrom [] tokens [] empty
    rw [List.nil_append, List.append_nil] at hread
    refine hread.bind ?_
    rintro yard _ rfl
    have hround : round tokens ⟨0 + tokens.length, .reading, none, yard⟩ =
        .goesOn ⟨0 + tokens.length, .finishing, none, yard⟩ := by
      simp [round]
    exact .head hround (follows_result yard.pending yard.operands)
  rw [hrun]
  exact hfollows.exists_last

end Yard

end Reckoner
