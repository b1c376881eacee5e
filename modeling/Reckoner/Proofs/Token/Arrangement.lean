import Reckoner.Token.Basic

/-!
# How tokens stand side by side

In infix notation operands and operators alternate. Lists of tokens need not: operands may stand
**side by side** (`Token.Adjacent`), and an operand may be **missing** where one is due, at the
start and after an operator or an opening parenthesis.

Both are counted along the list (`Token.adjacent`, `Token.missing`), and the counts are tied to the
numbers of operands and of binary operators by one equation (`Token.missing_add_leaves`): what is
missing and the operands that are there are together as many as the operands side by side, the
binary operators and the operand that is due at the start.

Parentheses are matched by remembering those that are open (`Token.unclosed`).
-/

namespace Reckoner.Token

/-! ## Operands side by side -/

/-- The token is an operand by itself. -/
def Kind.isLeaf : Kind → Bool
  | .number | .letter | .constant => true
  | _ => false

/-- An operand begins with a token of this kind. -/
def Kind.beginsOperand : Kind → Bool
  | .number | .letter | .constant | .unary | .opening => true
  | .binary | .closing => false

/-- A complete operand ends with a token of this kind. After all other kinds an operand is due. -/
def Kind.endsOperand : Kind → Bool
  | .number | .letter | .constant | .closing => true
  | .unary | .binary | .opening => false

/-- Somewhere two tokens follow each other directly that are related. -/
def HasPair (R : Token → Token → Prop) (tokens : List Token) : Prop :=
  ∃ front a b back, tokens = front ++ a :: b :: back ∧ R a b

/-- Somewhere a complete operand is directly followed by the start of another one. -/
def Adjacent : List Token → Prop :=
  HasPair fun a b => a.kind.endsOperand ∧ b.kind.beginsOperand

/-- Somewhere there is nothing between two parentheses. -/
def HasEmptyGroup : List Token → Prop :=
  HasPair fun a b => a.kind = .opening ∧ b.kind = .closing

/-- Operands stand side by side, or there is nothing between two parentheses. -/
def Loose (tokens : List Token) : Prop := Adjacent tokens ∨ HasEmptyGroup tokens

variable {R : Token → Token → Prop} {a b : Token} {tokens rest : List Token}

theorem not_hasPair_nil : ¬ HasPair R [] := by
  rintro ⟨front, a, b, back, htokens, -⟩
  simp at htokens

theorem not_hasPair_singleton : ¬ HasPair R [a] := by
  rintro ⟨_ | ⟨first, front⟩, x, y, back, htokens, -⟩ <;> simp at htokens

theorem hasPair_cons_cons : HasPair R (a :: b :: rest) ↔ R a b ∨ HasPair R (b :: rest) := by
  constructor
  · rintro ⟨_ | ⟨first, front⟩, x, y, back, htokens, hR⟩
    · cases htokens
      exact .inl hR
    · exact .inr ⟨front, x, y, back, (List.cons.inj htokens).2, hR⟩
  · rintro (hR | ⟨front, x, y, back, htokens, hR⟩)
    · exact ⟨[], a, b, rest, rfl, hR⟩
    · exact ⟨a :: front, x, y, back, congrArg (a :: ·) htokens, hR⟩

/-- Pairs are looked for from the left. -/
instance decidableHasPair [DecidableRel R] : DecidablePred (HasPair R)
  | [] => isFalse not_hasPair_nil
  | [_] => isFalse not_hasPair_singleton
  | _ :: b :: rest =>
    have := decidableHasPair (b :: rest)
    decidable_of_iff' _ hasPair_cons_cons

instance : DecidablePred Adjacent := fun tokens =>
  inferInstanceAs (Decidable (HasPair (fun a b => a.kind.endsOperand ∧ b.kind.beginsOperand) tokens))

instance : DecidablePred HasEmptyGroup := fun tokens =>
  inferInstanceAs (Decidable (HasPair (fun a b => a.kind = .opening ∧ b.kind = .closing) tokens))

instance : DecidablePred Loose := fun tokens =>
  inferInstanceAs (Decidable (Adjacent tokens ∨ HasEmptyGroup tokens))

/-! ## Counting -/

/-- How often an operand is missing in the tokens, where one is due at their start or not. -/
def missing (due : Bool) : List Token → Nat
  | [] => due.toNat
  | t :: rest => (due && !t.kind.beginsOperand).toNat + missing (!t.kind.endsOperand) rest

/-- How often an operand begins in the tokens where none is due. -/
def adjacent (due : Bool) : List Token → Nat
  | [] => 0
  | t :: rest => (!due && t.kind.beginsOperand).toNat + adjacent (!t.kind.endsOperand) rest

/-- **Operands and operators are counted off against each other.** -/
theorem missing_add_leaves (due : Bool) (tokens : List Token) :
    missing due tokens + tokens.countP (·.kind.isLeaf) =
      adjacent due tokens + tokens.countP (·.kind = .binary) + due.toNat := by
  induction tokens generalizing due with
  | nil => simp [missing, adjacent]
  | cons t rest ih =>
    have hrest := ih (!t.kind.endsOperand)
    obtain ⟨kind, text⟩ := t
    -- one token changes both sides by the same number, whatever it is and whether one is due
    cases kind <;> cases due <;>
      simp [missing, adjacent, Kind.isLeaf, Kind.beginsOperand, Kind.endsOperand] at hrest ⊢ <;>
      omega

theorem adjacent_pos_iff_cons :
    0 < adjacent (!a.kind.endsOperand) rest ↔ Adjacent (a :: rest) := by
  induction rest generalizing a with
  | nil => exact iff_of_false (Nat.lt_irrefl 0) not_hasPair_singleton
  | cons b rest ih =>
    rw [Adjacent, hasPair_cons_cons, ← Adjacent, ← ih, adjacent, Nat.add_pos_iff_pos_or_pos]
    cases a.kind.endsOperand <;> cases b.kind.beginsOperand <;> simp

/-- Operands stand side by side exactly if there is something to count. -/
theorem adjacent_pos_iff : 0 < adjacent true tokens ↔ Adjacent tokens := by
  rcases tokens with _ | ⟨t, rest⟩
  · exact iff_of_false (Nat.lt_irrefl 0) not_hasPair_nil
  · rw [← adjacent_pos_iff_cons]
    simp [adjacent]

/-! ## Parentheses -/

/-- The positions of the parentheses that are open after a token, the newest first, where `opened`
are open before it. There are none if the token closes a parenthesis and none is open. -/
def openAfter (position : Nat) (opened : List Nat) (t : Token) : Option (List Nat) :=
  match t.kind, opened with
  | .opening, opened => some (position :: opened)
  | .closing, _ :: opened => some opened
  | .closing, [] => none
  | _, opened => some opened

/-- The positions of the parentheses that are open after the tokens, the first of which has the
given position. -/
def unclosed (position : Nat) (opened : List Nat) : List Token → Option (List Nat)
  | [] => some opened
  | t :: rest => (openAfter position opened t).bind fun opened => unclosed (position + 1) opened rest

/-- Every parenthesis that is opened is closed behind it, and no other one is closed. -/
def Balanced (tokens : List Token) : Prop := unclosed 0 [] tokens = some []

instance : DecidablePred Balanced := fun tokens =>
  inferInstanceAs (Decidable (unclosed 0 [] tokens = some []))

variable {position : Nat} {opened : List Nat}

theorem openAfter_opening (h : a.kind = .opening) :
    openAfter position opened a = some (position :: opened) := by
  simp [openAfter, h]

/-- A parenthesis can only be closed if one is open. -/
theorem openAfter_closing_eq_some {after : List Nat} (h : a.kind = .closing)
    (hafter : openAfter position opened a = some after) : ∃ first, opened = first :: after := by
  rcases opened with _ | ⟨first, opened⟩
  · simp [openAfter, h] at hafter
  · have hopened : opened = after := by simpa [openAfter, h] using hafter
    exact ⟨first, by rw [hopened]⟩

/-- Parentheses alone are not balanced without an empty group. -/
theorem hasEmptyGroup_of_unclosed
    (honly : ∀ t ∈ rest, t.kind = .opening ∨ t.kind = .closing) (ha : a.kind = .opening)
    (hne : opened ≠ []) (h : unclosed position opened rest = some []) :
    HasEmptyGroup (a :: rest) := by
  induction rest generalizing a position opened with
  | nil => exact absurd (Option.some.inj h) hne
  | cons b rest ih =>
    rw [HasEmptyGroup, hasPair_cons_cons, ← HasEmptyGroup]
    rcases honly b (List.mem_cons_self ..) with hb | hb
    · rw [unclosed, openAfter_opening hb] at h
      exact .inr (ih (fun t ht => honly t (List.mem_cons_of_mem _ ht)) hb (List.cons_ne_nil _ _) h)
    · exact .inl ⟨ha, hb⟩

theorem hasEmptyGroup_of_balanced (honly : ∀ t ∈ tokens, t.kind = .opening ∨ t.kind = .closing)
    (hne : tokens ≠ []) (h : Balanced tokens) : HasEmptyGroup tokens := by
  rcases tokens with _ | ⟨t, rest⟩
  · exact absurd rfl hne
  · obtain ⟨after, hafter, hrest⟩ := Option.bind_eq_some_iff.mp h
    rcases honly t (List.mem_cons_self ..) with ht | ht
    · rw [openAfter_opening ht] at hafter
      cases hafter
      exact hasEmptyGroup_of_unclosed (fun t ht => honly t (List.mem_cons_of_mem _ ht)) ht
        (List.cons_ne_nil _ _) hrest
    · obtain ⟨first, hfirst⟩ := openAfter_closing_eq_some ht hafter
      cases hfirst

end Reckoner.Token
