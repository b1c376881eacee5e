import Reckoner.Proofs.Token.Arrangement

/-!
# Partners of parentheses

Which parentheses belong together is said here without remembering any. Tokens are **nested**
(`Token.Nested`) if they are made of groups and of tokens that are no parentheses, and two
parentheses are **partners** (`Token.Partners`) if there are nested tokens between them.

Remembering the parentheses that are open, as in `Token.unclosed`, comes to the same: the tokens
behind each of them, up to the next one, are nested (`Token.LeavesOpen`). So tokens are balanced
exactly if they are nested (`Token.nested_iff_balanced`), and of the parentheses without a partner
two can be told.

* If a parenthesis is closed while none is open, it is the **first** one to close without a partner
  (`Token.Nested.firstUnopened`).
* If parentheses are open at the end, the newest of them is the **last** one without a partner
  (`Token.LeavesOpen.lastUnclosed`).
-/

namespace Reckoner.Token

/-! ## Nested tokens -/

/-- A parenthesis, which opens or closes. -/
abbrev Kind.IsParenthesis (kind : Kind) : Prop := kind = .opening ∨ kind = .closing

/-- The tokens are made of groups and of tokens that are no parentheses. -/
inductive Nested : List Token → Prop where
  /-- no tokens -/
  | nil : Nested []
  /-- a token that is no parenthesis, in front -/
  | other {t : Token} {rest : List Token} (apart : ¬ t.kind.IsParenthesis) (behind : Nested rest) :
      Nested (t :: rest)
  /-- a group in front -/
  | group {first last : Token} {inner rest : List Token} (opens : first.kind = .opening)
      (inside : Nested inner) (closes : last.kind = .closing) (behind : Nested rest) :
      Nested (first :: inner ++ last :: rest)

variable {t : Token} {tokens front back rest : List Token} {kind : Kind} {position i j : Nat}
  {opened older after : List Nat}

theorem Nested.append (h : Nested front) (hback : Nested back) : Nested (front ++ back) := by
  induction h with
  | nil => exact hback
  | other apart behind ih => exact .other apart ih
  | group opens inside closes behind _ ih =>
    rw [List.cons_append, List.cons_append, List.append_assoc]
    exact .group opens inside closes ih

/-! ## Remembering what is open -/

theorem openAfter_other (h : ¬ t.kind.IsParenthesis) : openAfter position opened t = some opened := by
  obtain ⟨kind, text⟩ := t
  cases kind with
  | opening => exact absurd (.inl rfl) h
  | closing => exact absurd (.inr rfl) h
  | _ => rfl

theorem openAfter_closing (h : t.kind = .closing) (newest : Nat) :
    openAfter position (newest :: older) t = some older := by
  simp [openAfter, h]

/-- Only a parenthesis that closes can find none open. -/
theorem openAfter_eq_none (h : openAfter position opened t = none) :
    t.kind = .closing ∧ opened = [] := by
  obtain ⟨kind, text⟩ := t
  cases kind with
  | closing =>
    rcases opened with _ | ⟨newest, older⟩
    · exact ⟨rfl, rfl⟩
    · cases h
  | _ => cases h

/-- One token opens a parenthesis, closes the newest one, or is no parenthesis. -/
theorem openAfter_cases (h : openAfter position opened t = some after) :
    (t.kind = .opening ∧ after = position :: opened) ∨
      (t.kind = .closing ∧ ∃ newest, opened = newest :: after) ∨
      (¬ t.kind.IsParenthesis ∧ after = opened) := by
  by_cases hopening : t.kind = .opening
  · rw [openAfter_opening hopening] at h
    exact .inl ⟨hopening, (Option.some.inj h).symm⟩
  · by_cases hclosing : t.kind = .closing
    · exact .inr (.inl ⟨hclosing, openAfter_closing_eq_some hclosing h⟩)
    · have hother : ¬ t.kind.IsParenthesis := not_or.mpr ⟨hopening, hclosing⟩
      rw [openAfter_other hother] at h
      exact .inr (.inr ⟨hother, (Option.some.inj h).symm⟩)

theorem unclosed_append (front back : List Token) :
    unclosed position opened (front ++ back) =
      (unclosed position opened front).bind fun between =>
        unclosed (position + front.length) between back := by
  induction front generalizing position opened with
  | nil => rfl
  | cons t front ih =>
    have hposition : position + 1 + front.length = position + (t :: front).length := by
      rw [List.length_cons]
      omega
    rw [List.cons_append, unclosed, unclosed]
    rcases openAfter position opened t with _ | between
    · rfl
    · rw [Option.bind_some, Option.bind_some, ih, hposition]

/-- **Nested tokens leave open what was open**, wherever they stand. -/
theorem Nested.unclosed_eq (h : Nested tokens) (position : Nat) (opened : List Nat) :
    unclosed position opened tokens = some opened := by
  induction h generalizing position opened with
  | nil => rfl
  | other apart behind ih => rw [unclosed, openAfter_other apart, Option.bind_some, ih]
  | group opens inside closes behind ihinside ihbehind =>
    rw [List.cons_append, unclosed, openAfter_opening opens, Option.bind_some, unclosed_append,
      ihinside, Option.bind_some, unclosed, openAfter_closing closes, Option.bind_some, ihbehind]

/-- The tokens are nested but for the parentheses that they leave open, which open at the given
positions, the newest first. -/
inductive LeavesOpen : List Token → List Nat → Prop where
  /-- nothing is left open -/
  | nested {tokens : List Token} (nested : Nested tokens) : LeavesOpen tokens []
  /-- the newest parenthesis that is left open, with nested tokens behind it -/
  | newest {front back : List Token} {t : Token} {older : List Nat} (before : LeavesOpen front older)
      (opens : t.kind = .opening) (behind : Nested back) :
      LeavesOpen (front ++ t :: back) (front.length :: older)

theorem LeavesOpen.append (h : LeavesOpen front opened) (hback : Nested back) :
    LeavesOpen (front ++ back) opened := by
  cases h with
  | nested nested => exact .nested (nested.append hback)
  | newest before opens behind =>
    rw [List.append_assoc]
    exact .newest before opens (behind.append hback)

theorem LeavesOpen.concat (h : LeavesOpen tokens opened)
    (ht : openAfter tokens.length opened t = some after) : LeavesOpen (tokens ++ [t]) after := by
  rcases openAfter_cases ht with ⟨hopening, rfl⟩ | ⟨hclosing, newest, rfl⟩ | ⟨hother, rfl⟩
  · exact .newest h hopening .nil
  · cases h with
    | newest before opens behind =>
      -- the newest parenthesis and the nested tokens behind it are a group now
      rw [List.append_assoc]
      exact before.append (.group opens behind hclosing .nil)
  · exact h.append (.other hother .nil)

theorem LeavesOpen.unclosed (h : LeavesOpen front opened)
    (hrest : unclosed front.length opened rest = some after) : LeavesOpen (front ++ rest) after := by
  induction rest generalizing front opened with
  | nil =>
    cases hrest
    rwa [List.append_nil]
  | cons t rest ih =>
    obtain ⟨between, ht, hrest⟩ := Option.bind_eq_some_iff.mp hrest
    have hlength : front.length + 1 = (front ++ [t]).length := by simp
    rw [hlength] at hrest
    simpa using ih (h.concat ht) hrest

theorem leavesOpen_of_unclosed (h : unclosed 0 [] tokens = some opened) : LeavesOpen tokens opened :=
  (LeavesOpen.nested .nil).unclosed h

theorem LeavesOpen.unclosed_eq (h : LeavesOpen tokens opened) :
    Token.unclosed 0 [] tokens = some opened := by
  induction h with
  | nested nested => exact nested.unclosed_eq 0 []
  | newest before opens behind ih =>
    rw [unclosed_append, ih, Option.bind_some, Token.unclosed, openAfter_opening opens,
      Option.bind_some, behind.unclosed_eq, Nat.zero_add]

/-- Tokens are balanced exactly if they are nested. -/
theorem nested_iff_balanced : Nested tokens ↔ Balanced tokens := by
  constructor
  · exact fun h => h.unclosed_eq 0 []
  · intro h
    cases leavesOpen_of_unclosed h with
    | nested nested => exact nested

instance : DecidablePred Nested := fun _ => decidable_of_iff' _ nested_iff_balanced

/-! ## Partners -/

/-- A token of the kind stands at the position. -/
def Stands (kind : Kind) (tokens : List Token) (position : Nat) : Prop :=
  ∃ t, tokens[position]? = some t ∧ t.kind = kind

/-- The parenthesis that opens at `i` closes at `j`. -/
def Partners (tokens : List Token) (i j : Nat) : Prop :=
  ∃ front first inner last back, tokens = front ++ first :: inner ++ last :: back ∧
    front.length = i ∧ (front ++ first :: inner).length = j ∧
    first.kind = .opening ∧ Nested inner ∧ last.kind = .closing

/-- The parenthesis at the position has a partner. -/
def Paired (tokens : List Token) (position : Nat) : Prop :=
  (∃ j, Partners tokens position j) ∨ ∃ i, Partners tokens i position

theorem not_stands_nil : ¬ Stands kind [] position := by
  rintro ⟨t, ht, -⟩
  cases ht

theorem stands_cons (h : Stands kind (t :: rest) position) :
    (position = 0 ∧ t.kind = kind) ∨ ∃ p, position = p + 1 ∧ Stands kind rest p := by
  obtain ⟨found, hfound, hkind⟩ := h
  rcases position with _ | p
  · cases hfound
    exact .inl ⟨rfl, hkind⟩
  · exact .inr ⟨p, rfl, found, hfound, hkind⟩

/-- A position is before a token, at it or behind it. -/
theorem stands_around (h : Stands kind (front ++ t :: back) position) :
    (position < front.length ∧ Stands kind front position) ∨
      (position = front.length ∧ t.kind = kind) ∨
      ∃ p, position = front.length + (p + 1) ∧ Stands kind back p := by
  obtain ⟨found, hfound, hkind⟩ := h
  by_cases hposition : position < front.length
  · rw [List.getElem?_append_left hposition] at hfound
    exact .inl ⟨hposition, found, hfound, hkind⟩
  · have hle := Nat.le_of_not_lt hposition
    rw [List.getElem?_append_right hle] at hfound
    rcases stands_cons ⟨found, hfound, hkind⟩ with ⟨hzero, hkind⟩ | ⟨p, hp, hback⟩
    · exact .inr (.inl ⟨by omega, hkind⟩)
    · exact .inr (.inr ⟨p, by omega, hback⟩)

theorem stands_at (front : List Token) (t : Token) (back : List Token) :
    Stands t.kind (front ++ t :: back) front.length := ⟨t, by simp, rfl⟩

/-- A position has one kind of token. -/
theorem Stands.kind_eq {kind' : Kind} (h : Stands kind tokens position)
    (h' : Stands kind' tokens position) : kind = kind' := by
  obtain ⟨t, ht, rfl⟩ := h
  obtain ⟨t', ht', rfl⟩ := h'
  rw [Option.some.inj (ht.symm.trans ht')]

theorem Partners.stands_opening (h : Partners tokens i j) : Stands .opening tokens i := by
  obtain ⟨front, first, inner, last, back, rfl, rfl, -, hopens, -⟩ := h
  rw [List.append_assoc, ← hopens]
  exact stands_at front first _

theorem Partners.stands_closing (h : Partners tokens i j) : Stands .closing tokens j := by
  obtain ⟨front, first, inner, last, back, rfl, -, rfl, -, -, hcloses⟩ := h
  rw [← hcloses]
  exact stands_at _ last back

/-- Partners stay partners among more tokens. -/
theorem Partners.within (h : Partners tokens i j) (front back : List Token) :
    Partners (front ++ tokens ++ back) (front.length + i) (front.length + j) := by
  obtain ⟨before, first, inner, last, behind, rfl, rfl, rfl, hopens, hinside, hcloses⟩ := h
  refine ⟨front ++ before, first, inner, last, behind ++ back, ?_, ?_, ?_, hopens, hinside, hcloses⟩
  · simp
  · simp
  · simp

theorem Paired.within (h : Paired tokens position) (front back : List Token) :
    Paired (front ++ tokens ++ back) (front.length + position) := by
  rcases h with ⟨j, h⟩ | ⟨i, h⟩
  · exact .inl ⟨_, h.within front back⟩
  · exact .inr ⟨_, h.within front back⟩

theorem Paired.append_left (h : Paired tokens position) (back : List Token) :
    Paired (tokens ++ back) position := by
  simpa using h.within [] back

theorem Paired.behind (h : Paired back position) (front : List Token) (t : Token) :
    Paired (front ++ t :: back) (front.length + (position + 1)) := by
  simpa [Nat.add_comm, Nat.add_left_comm] using h.within (front ++ [t]) []

theorem Paired.cons (h : Paired rest position) (t : Token) : Paired (t :: rest) (position + 1) := by
  simpa using h.behind [] t

/-- **All parentheses of nested tokens have partners.** -/
theorem Nested.paired (h : Nested tokens) (hkind : kind.IsParenthesis)
    (hstands : Stands kind tokens position) : Paired tokens position := by
  induction h generalizing position with
  | nil => exact absurd hstands not_stands_nil
  | other apart behind ih =>
    rcases stands_cons hstands with ⟨-, rfl⟩ | ⟨p, rfl, hp⟩
    · exact absurd hkind apart
    · exact (ih hp).cons _
  | @group first last inner rest opens inside closes behind ihinside ihbehind =>
    have hpartners : Partners (first :: inner ++ last :: rest) 0 (first :: inner).length :=
      ⟨[], first, inner, last, rest, rfl, rfl, rfl, opens, inside, closes⟩
    rcases stands_around hstands with ⟨-, hp⟩ | ⟨rfl, -⟩ | ⟨p, rfl, hp⟩
    · rcases stands_cons hp with ⟨rfl, -⟩ | ⟨p, rfl, hp⟩
      · exact .inl ⟨_, hpartners⟩
      · exact ((ihinside hp).cons first).append_left _
    · exact .inr ⟨_, hpartners⟩
    · exact (ihbehind hp).behind _ _

/-! ## Parentheses that are open -/

theorem Stands.append_left (h : Stands kind front position) (back : List Token) :
    Stands kind (front ++ back) position := by
  obtain ⟨t, ht, hkind⟩ := h
  exact ⟨t, List.getElem?_append_left (List.getElem?_eq_some_iff.mp ht).1 ▸ ht, hkind⟩

theorem Stands.lt_length (h : Stands kind tokens position) : position < tokens.length := by
  obtain ⟨t, ht, -⟩ := h
  exact (List.getElem?_eq_some_iff.mp ht).1

theorem LeavesOpen.stands (h : LeavesOpen tokens opened) (hmem : position ∈ opened) :
    Stands .opening tokens position := by
  induction h with
  | nested nested => cases hmem
  | @newest front back t older before opens behind ih =>
    rcases List.mem_cons.mp hmem with rfl | hmem
    · exact opens ▸ stands_at front t back
    · exact (ih hmem).append_left _

/-- What is open is remembered in the order of the positions, the last one first. -/
theorem LeavesOpen.pairwise (h : LeavesOpen tokens opened) : opened.Pairwise (· > ·) := by
  induction h with
  | nested nested => exact .nil
  | newest before opens behind ih =>
    exact .cons (fun _ hmem => (before.stands hmem).lt_length) ih

theorem LeavesOpen.paired_opening (h : LeavesOpen tokens opened) (hnot : position ∉ opened)
    (hstands : Stands .opening tokens position) : Paired tokens position := by
  induction h generalizing position with
  | nested nested => exact nested.paired (.inl rfl) hstands
  | newest before opens behind ih =>
    obtain ⟨hlast, holder⟩ := not_or.mp (mt List.mem_cons.mpr hnot)
    rcases stands_around hstands with ⟨-, hp⟩ | ⟨hp, -⟩ | ⟨p, rfl, hp⟩
    · exact (ih holder hp).append_left _
    · exact absurd hp hlast
    · exact (behind.paired (.inl rfl) hp).behind _ _

theorem mem_openAfter (h : openAfter position opened t = some after) (hmem : i ∈ after) :
    i ∈ opened ∨ i = position := by
  rcases openAfter_cases h with ⟨-, rfl⟩ | ⟨-, newest, rfl⟩ | ⟨-, rfl⟩
  · exact (List.mem_cons.mp hmem).symm
  · exact .inl (List.mem_cons_of_mem _ hmem)
  · exact .inl hmem

/-- What is open at the end was open before or opens at one of the tokens. -/
theorem mem_unclosed (h : unclosed position opened tokens = some after) (hmem : i ∈ after) :
    i ∈ opened ∨ position ≤ i := by
  induction tokens generalizing position opened with
  | nil =>
    cases h
    exact .inl hmem
  | cons t rest ih =>
    obtain ⟨between, ht, hrest⟩ := Option.bind_eq_some_iff.mp h
    rcases ih hrest with hbetween | hle
    · exact (mem_openAfter ht hbetween).imp_right fun heq => Nat.le_of_eq heq.symm
    · exact .inr (by omega)

/-- What is open has no partner yet: a group leaves open what was open in front of it. -/
theorem LeavesOpen.not_paired (h : LeavesOpen tokens opened) (hmem : position ∈ opened) :
    ¬ Paired tokens position := by
  rintro (⟨j, hpartners⟩ | ⟨i, hpartners⟩)
  · obtain ⟨front, first, inner, last, back, rfl, rfl, -, hfirst, hinside, hlast⟩ := hpartners
    have hgroup : Nested (first :: inner ++ [last]) := .group hfirst hinside hlast .nil
    have htokens : front ++ first :: inner ++ last :: back =
        front ++ (first :: inner ++ [last] ++ back) := by simp
    have hopened := h.unclosed_eq
    rw [htokens, unclosed_append] at hopened
    obtain ⟨before, hfront, hrest⟩ := Option.bind_eq_some_iff.mp hopened
    rw [unclosed_append, hgroup.unclosed_eq, Option.bind_some] at hrest
    rcases mem_unclosed hrest hmem with hbefore | hle
    · exact Nat.lt_irrefl _ ((leavesOpen_of_unclosed hfront).stands hbefore).lt_length
    · rw [List.length_append, List.length_cons] at hle
      omega
  · cases (h.stands hmem).kind_eq hpartners.stands_closing

/-- **What is open** are the parentheses that open and have no partner yet. -/
theorem LeavesOpen.mem_iff (h : LeavesOpen tokens opened) :
    position ∈ opened ↔ Stands .opening tokens position ∧ ¬ Paired tokens position := by
  constructor
  · exact fun hmem => ⟨h.stands hmem, h.not_paired hmem⟩
  · rintro ⟨hstands, hunpaired⟩
    exact Decidable.byContradiction fun hnot => hunpaired (h.paired_opening hnot hstands)

/-! ## Parentheses without partners -/

/-- The parenthesis at the position is the first that closes without a partner. -/
structure FirstUnopened (tokens : List Token) (position : Nat) : Prop where
  /-- it closes -/
  closing : Stands .closing tokens position
  /-- it has no partner -/
  unpaired : ¬ Paired tokens position
  /-- all that close before it have partners -/
  first : ∀ p < position, Stands .closing tokens p → Paired tokens p

/-- The parenthesis at the position is the last that opens without a partner, and all that close have
partners. -/
structure LastUnclosed (tokens : List Token) (position : Nat) : Prop where
  /-- it opens -/
  opening : Stands .opening tokens position
  /-- it has no partner -/
  unpaired : ¬ Paired tokens position
  /-- all that open behind it have partners -/
  last : ∀ p, position < p → Stands .opening tokens p → Paired tokens p
  /-- all that close have partners -/
  closed : ∀ p, Stands .closing tokens p → Paired tokens p

/-- A parenthesis that closes has no partner if nothing before it is left open. -/
theorem Nested.not_paired_closing (h : Nested front) (ht : t.kind = .closing) (back : List Token) :
    ¬ Paired (front ++ t :: back) front.length := by
  have hcloses : Stands .closing (front ++ t :: back) front.length := ht ▸ stands_at front t back
  rintro (⟨j, hpartners⟩ | ⟨i, hpartners⟩)
  · cases hpartners.stands_opening.kind_eq hcloses
  · obtain ⟨before, first, inner, last, behind, htokens, -, hlength, hopens, hinside, -⟩ := hpartners
    obtain ⟨rfl, -⟩ := List.append_inj htokens hlength.symm
    -- the partner would be open when the parenthesis is reached
    obtain ⟨between, -, hbetween⟩ := Option.bind_eq_some_iff.mp
      ((unclosed_append before (first :: inner)).symm.trans (h.unclosed_eq 0 []))
    rw [unclosed, openAfter_opening hopens, Option.bind_some, hinside.unclosed_eq] at hbetween
    cases hbetween

theorem Nested.firstUnopened (h : Nested front) (ht : t.kind = .closing) (back : List Token) :
    FirstUnopened (front ++ t :: back) front.length where
  closing := ht ▸ stands_at front t back
  unpaired := h.not_paired_closing ht back
  first := by
    intro p hp hstands
    rcases stands_around hstands with ⟨-, hstands⟩ | ⟨rfl, -⟩ | ⟨k, rfl, -⟩
    · exact (h.paired (.inr rfl) hstands).append_left _
    · omega
    · omega

/-- All parentheses that close have partners where others are left open. -/
theorem LeavesOpen.paired_closing (h : LeavesOpen tokens opened)
    (hstands : Stands .closing tokens position) : Paired tokens position := by
  induction h generalizing position with
  | nested nested => exact nested.paired (.inr rfl) hstands
  | newest before opens behind ih =>
    rcases stands_around hstands with ⟨-, hp⟩ | ⟨-, hkind⟩ | ⟨p, rfl, hp⟩
    · exact (ih hp).append_left _
    · cases opens.symm.trans hkind
    · exact (behind.paired (.inr rfl) hp).behind _ _

theorem LeavesOpen.lastUnclosed (h : LeavesOpen tokens (position :: older)) :
    LastUnclosed tokens position where
  opening := h.stands (List.mem_cons_self ..)
  unpaired := h.not_paired (List.mem_cons_self ..)
  last := by
    intro p hp hstands
    refine h.paired_opening ?_ hstands
    intro hmem
    rcases List.mem_cons.mp hmem with rfl | holder
    · exact Nat.lt_irrefl _ hp
    · have hbefore : p < position := (List.pairwise_cons.mp h.pairwise).1 p holder
      omega
  closed := fun _ hstands => h.paired_closing hstands

end Reckoner.Token
