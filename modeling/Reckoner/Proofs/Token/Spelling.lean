import Mathlib.Tactic.SplitIfs
import Reckoner.Proofs.Token.Lexemes
import Reckoner.Token.Scan

/-!
# Which texts spell which tokens

Scanning is specified without positions, errors or an order in which a text is read. A text spells some
tokens if its normal form can be **cut** into lexemes that can become tokens, such that no two
neighbours are runs of one kind (`Lexeme.IsCut`), and the tokens are those that the lexemes become
(`Lexeme.tokens`): their texts are the characters of the lexemes, and their kinds are read off the
lexemes, where a minus sign asks for the kind of the token before it (`Lexeme.kind`).

* Lexeme by lexeme, a token is made exactly of what can become one (`Token.ofLexeme_eq_ok_iff`).
* Scanning cuts a text in the only way there is, so that it succeeds exactly on the texts that spell
  tokens, and gives these tokens (`Token.scan_exact`).
-/

namespace Reckoner

namespace Lexeme

/-! ## Lexemes that become tokens -/

/-- The text of the token that a lexeme becomes. Words are read in lower case. -/
def text : Lexeme → String
  | symbol c => String.singleton c
  | numeral run => String.ofList run
  | word run => String.ofList (Letter.lowerCase run)

/-- The lexeme is read as the name of a function. -/
abbrev NamesFunction (lexeme : Lexeme) : Prop :=
  ∃ op ∈ UnaryOp.functions, op.symbol = lexeme.text

/-- The lexeme is read as the name of a constant. -/
abbrev NamesConstant (lexeme : Lexeme) : Prop :=
  ∃ constant ∈ Constant.all, constant.name = lexeme.text

theorem isSome_function?_iff {lexeme : Lexeme} :
    (UnaryOp.function? lexeme.text).isSome ↔ lexeme.NamesFunction := by
  simp [UnaryOp.function?, NamesFunction]

theorem isSome_ofName?_iff {lexeme : Lexeme} :
    (Constant.ofName? lexeme.text).isSome ↔ lexeme.NamesConstant := by
  simp [Constant.ofName?, NamesConstant]

/-- The lexeme can become a token: a parenthesis or an operator, a number, or a name. -/
def IsToken : Lexeme → Prop
  | symbol c => c ∈ ['(', ')', '+', '-', '*', '/', '%', '^']
  | numeral run =>
    (∀ c ∈ run, c.isDigit ∨ c = '.') ∧ (∃ c ∈ run, c.isDigit) ∧ run.count '.' ≤ 1
  | word run =>
    (∀ c ∈ run, Letter.isLetter c) ∧
      ((word run).NamesFunction ∨ (word run).NamesConstant ∨ (word run).text.length = 1)

-- The characters of the run are looked at one by one, not all the characters that there are.
instance : DecidablePred IsToken
  | symbol c => inferInstanceAs (Decidable (c ∈ _))
  | numeral run =>
    have : Decidable (∀ c ∈ run, c.isDigit ∨ c = '.') := List.decidableBAll _ run
    have : Decidable (∃ c ∈ run, c.isDigit) := List.decidableBEx _ run
    inferInstanceAs (Decidable (_ ∧ _ ∧ _))
  | word run =>
    have : Decidable (∀ c ∈ run, Letter.isLetter c) := List.decidableBAll _ run
    inferInstanceAs (Decidable (_ ∧ _))

/-- An operand is due at the start of a text, behind an opening parenthesis and behind a binary
operator. -/
abbrev OperandDue (previous : Option Token.Kind) : Prop :=
  previous = none ∨ previous = some .opening ∨ previous = some .binary

/-- The kind of the token that a lexeme becomes, for the kind of the token before it. -/
def kind (previous : Option Token.Kind) : Lexeme → Token.Kind
  | symbol c =>
    if c = '(' then .opening
    else if c = ')' then .closing
    else if c = '-' ∧ OperandDue previous then .unary
    else .binary
  | numeral _ => .number
  | word run =>
    if (word run).NamesFunction then .unary
    else if (word run).NamesConstant then .constant
    else .letter

/-- The tokens that some lexemes become, one each. -/
def tokens (previous : Option Token.Kind) : List Lexeme → List Token
  | [] => []
  | lexeme :: rest =>
    ⟨lexeme.kind previous, lexeme.text⟩ :: tokens (some (lexeme.kind previous)) rest

theorem exists_lexeme_of_mem_tokens {lexemes : List Lexeme} {previous : Option Token.Kind} {t : Token}
    (h : t ∈ tokens previous lexemes) :
    ∃ lexeme previous, lexeme ∈ lexemes ∧ t = ⟨lexeme.kind previous, lexeme.text⟩ := by
  induction lexemes generalizing previous with
  | nil => cases h
  | cons first rest ih =>
    rcases List.mem_cons.mp h with rfl | h
    · exact ⟨first, previous, List.mem_cons_self .., rfl⟩
    · obtain ⟨lexeme, previous, hlexeme, ht⟩ := ih h
      exact ⟨lexeme, previous, List.mem_cons_of_mem first hlexeme, ht⟩

/-- The text in normal form is cut into the lexemes. -/
structure IsCut (normal : List Char) (lexemes : List Lexeme) : Prop where
  /-- no character is lost or doubled -/
  whole : lexemes.flatMap chars = normal
  /-- no lexeme is empty -/
  nonempty : ∀ lexeme ∈ lexemes, lexeme.chars ≠ []
  /-- every lexeme can become a token -/
  proper : ∀ lexeme ∈ lexemes, lexeme.IsToken
  /-- no run is taken apart -/
  apart : lexemes.IsChain fun a b => ¬ a.joins b

/-! ## The cut of a text -/

variable {lexeme : Lexeme} {lexemes : List Lexeme} {normal : List Char}

theorem IsToken.wellFormed (h : lexeme.IsToken) : lexeme.WellFormed := by
  cases lexeme with
  | symbol c => trivial
  | numeral run => exact fun c hc => by simpa [isNumeral] using h.1 c hc
  | word run => exact h.1

/-- The characters of operators and parentheses are part of no run. -/
theorem IsToken.ofChar_symbol {c : Char} (h : (symbol c).IsToken) : ofChar c = symbol c := by
  simp only [IsToken, List.mem_cons, List.not_mem_nil, or_false] at h
  rcases h with rfl | rfl | rfl | rfl | rfl | rfl | rfl | rfl <;> rfl

/-- There is no token without a text. -/
theorem IsToken.chars_ne_nil (h : lexeme.IsToken) : lexeme.chars ≠ [] := by
  cases lexeme with
  | symbol c => exact List.cons_ne_nil c []
  | numeral run =>
    obtain ⟨-, ⟨c, hc, -⟩, -⟩ := h
    exact List.ne_nil_of_mem hc
  | word run =>
    rintro rfl
    obtain ⟨-, hname⟩ := h
    revert hname
    decide

/-- A cut is what cutting gives. -/
theorem IsCut.eq_cut (h : IsCut normal lexemes) : lexemes = cut normal := by
  rw [← h.whole, cut_flatMap_chars (fun l hl => (h.proper l hl).wellFormed) h.nonempty
    (fun c hc => (h.proper _ hc).ofChar_symbol) h.apart]

theorem isCut_cut (h : ∀ lexeme ∈ cut normal, lexeme.IsToken) : IsCut normal (cut normal) :=
  ⟨flatMap_chars_cut normal, fun l hl => (h l hl).chars_ne_nil, h, isChain_cut normal⟩

end Lexeme

namespace Token

open Lexeme

variable {due : Bool} {previous : Option Kind} {position : Nat} {lexeme : Lexeme}
  {lexemes : List Lexeme} {t : Token} {tokens : List Token}

/-! ## From lexemes to tokens -/

/-- An outcome that is a token, under a condition that holds. -/
theorem ok_eq_ok_iff {a b : Token} {P : Prop} (hP : P) (hab : a = b) :
    (.ok a : Except ParseError Token) = .ok t ↔ P ∧ t = b := by
  subst hab
  exact ⟨fun h => ⟨hP, (Except.ok.inj h).symm⟩, fun h => congrArg _ h.2.symm⟩

theorem isToken_symbol_iff {c : Char} :
    (symbol c).IsToken ↔ c = '(' ∨ c = ')' ∨ isOperator c := by
  simp [IsToken, isOperator, or_assoc]

theorem ofSymbol_eq_ok_iff {c : Char} (hdue : due ↔ OperandDue previous) :
    ofSymbol due position c = .ok t ↔
      (symbol c).IsToken ∧ t = ⟨(symbol c).kind previous, (symbol c).text⟩ := by
  rw [ofSymbol]
  split_ifs with hopening hclosing hminus hoperator
  · subst hopening
    exact ok_eq_ok_iff (isToken_symbol_iff.mpr (.inl rfl)) rfl
  · subst hclosing
    exact ok_eq_ok_iff (isToken_symbol_iff.mpr (.inr (.inl rfl))) rfl
  · obtain ⟨rfl, hminus⟩ := hminus
    refine ok_eq_ok_iff (isToken_symbol_iff.mpr (.inr (.inr rfl))) ?_
    rw [Lexeme.kind, if_neg hopening, if_neg hclosing, if_pos ⟨rfl, hdue.mp hminus⟩]
    rfl
  · refine ok_eq_ok_iff (isToken_symbol_iff.mpr (.inr (.inr hoperator))) ?_
    rw [hdue] at hminus
    rw [Lexeme.kind, if_neg hopening, if_neg hclosing, if_neg hminus, Lexeme.text]
  · refine iff_of_false nofun ?_
    rintro ⟨htoken, -⟩
    exact (isToken_symbol_iff.mp htoken).elim hopening (·.elim hclosing hoperator)

theorem ofNumeral_eq_ok_iff {run : List Char} (hrun : ∀ c ∈ run, isNumeral c) :
    ofNumeral position run = .ok t ↔
      (numeral run).IsToken ∧ t = ⟨(numeral run).kind previous, (numeral run).text⟩ := by
  rw [ofNumeral]
  split_ifs with hfault
  · refine iff_of_false nofun ?_
    rintro ⟨⟨-, ⟨c, hc, hdigit⟩, hpoints⟩, -⟩
    rcases hfault with hmany | hnone
    · exact absurd hpoints (Nat.not_le_of_lt hmany)
    · exact hnone (List.any_eq_true.mpr ⟨c, hc, hdigit⟩)
  · obtain ⟨hpoints, hdigit⟩ := not_or.mp hfault
    refine ok_eq_ok_iff ⟨fun c hc => ?_, List.any_eq_true.mp (not_not.mp hdigit),
      Nat.le_of_not_lt hpoints⟩ rfl
    simpa [isNumeral] using hrun c hc

theorem ofWord_eq_ok_iff {run : List Char} (hrun : ∀ c ∈ run, Letter.isLetter c) :
    ofWord position run = .ok t ↔
      (word run).IsToken ∧ t = ⟨(word run).kind previous, (word run).text⟩ := by
  have hfunction := @isSome_function?_iff (word run)
  have hconstant := @isSome_ofName?_iff (word run)
  have hlength : (Letter.lowerCase run).length = 1 ↔ (word run).text.length = 1 := by
    rw [Lexeme.text, String.length_ofList]
  rw [Lexeme.text] at hfunction hconstant hlength
  simp only [ofWord, hfunction, hconstant, hlength, Lexeme.kind]
  split_ifs with hf hc hl
  · exact ok_eq_ok_iff ⟨hrun, .inl hf⟩ rfl
  · exact ok_eq_ok_iff ⟨hrun, .inr (.inl hc)⟩ rfl
  · exact ok_eq_ok_iff ⟨hrun, .inr (.inr hl)⟩ rfl
  · refine iff_of_false nofun ?_
    rintro ⟨⟨-, hname⟩, -⟩
    exact hname.elim hf (·.elim hc hl)

/-- **A lexeme becomes a token** exactly if it can. -/
theorem ofLexeme_eq_ok_iff (hwell : lexeme.WellFormed) (hdue : due ↔ OperandDue previous) :
    ofLexeme due position lexeme = .ok t ↔
      lexeme.IsToken ∧ t = ⟨lexeme.kind previous, lexeme.text⟩ := by
  cases lexeme with
  | symbol c => exact ofSymbol_eq_ok_iff hdue
  | numeral run => exact ofNumeral_eq_ok_iff hwell
  | word run => exact ofWord_eq_ok_iff hwell

theorem awaitsOperand_iff (kind : Kind) : kind.awaitsOperand ↔ OperandDue (some kind) := by
  cases kind <;> simp [Kind.awaitsOperand, OperandDue]

theorem ofLexemes_eq_ok_iff (hwell : ∀ lexeme ∈ lexemes, lexeme.WellFormed)
    (hdue : due ↔ OperandDue previous) :
    ofLexemes due position lexemes = .ok tokens ↔
      (∀ lexeme ∈ lexemes, lexeme.IsToken) ∧ tokens = Lexeme.tokens previous lexemes := by
  induction lexemes generalizing due previous position tokens with
  | nil => simp [ofLexemes, Lexeme.tokens, eq_comm]
  | cons lexeme rest ih =>
    obtain ⟨hfirst, hrest⟩ := List.forall_mem_cons.mp hwell
    rw [ofLexemes, bind_eq_ok]
    constructor
    · rintro ⟨t, ht, hothers⟩
      obtain ⟨htoken, rfl⟩ := (ofLexeme_eq_ok_iff hfirst hdue).mp ht
      obtain ⟨others, hothers, htokens⟩ := bind_eq_ok.mp hothers
      obtain ⟨hproper, rfl⟩ := (ih hrest (awaitsOperand_iff _)).mp hothers
      cases htokens
      exact ⟨List.forall_mem_cons.mpr ⟨htoken, hproper⟩, rfl⟩
    · rintro ⟨hproper, rfl⟩
      obtain ⟨htoken, hproper⟩ := List.forall_mem_cons.mp hproper
      exact ⟨_, (ofLexeme_eq_ok_iff hfirst hdue).mpr ⟨htoken, rfl⟩,
        bind_eq_ok.mpr ⟨_, (ih hrest (awaitsOperand_iff _)).mpr ⟨hproper, rfl⟩, rfl⟩⟩

/-! ## From texts to tokens -/

variable {text : String}

/-- Scanning a text, lexeme by lexeme. -/
theorem scan_eq_ok_iff_cut : scan text = .ok tokens ↔
    normalForm text.toList ≠ [] ∧ (∀ lexeme ∈ cut (normalForm text.toList), lexeme.IsToken) ∧
      tokens = Lexeme.tokens none (cut (normalForm text.toList)) := by
  rw [← ofLexemes_eq_ok_iff (wellFormed_cut _) (iff_of_true rfl (.inl rfl)), scan]
  rcases normalForm text.toList with _ | ⟨c, rest⟩
  · exact iff_of_false nofun fun h => h.1 rfl
  · exact (and_iff_right (List.cons_ne_nil c rest)).symm

/-- Every token of a text is what one of its lexemes becomes. -/
theorem exists_lexeme_of_scan (h : scan text = .ok tokens) :
    ∀ t ∈ tokens, ∃ lexeme previous, lexeme ∈ cut (normalForm text.toList) ∧ lexeme.IsToken ∧
      t = ⟨lexeme.kind previous, lexeme.text⟩ := by
  obtain ⟨-, hproper, rfl⟩ := scan_eq_ok_iff_cut.mp h
  intro t ht
  obtain ⟨lexeme, previous, hlexeme, rfl⟩ := exists_lexeme_of_mem_tokens ht
  exact ⟨lexeme, previous, hlexeme, hproper lexeme hlexeme, rfl⟩

/-- **Scanning is exact**: a text is scanned as some tokens exactly if there is something in it, it can
be cut into lexemes, and these become the tokens. It cannot be cut in two ways. -/
theorem scan_exact (text : String) (tokens : List Token) :
    (scan text = .ok tokens ↔ normalForm text.toList ≠ [] ∧
      ∃ lexemes, IsCut (normalForm text.toList) lexemes ∧ tokens = Lexeme.tokens none lexemes) ∧
    ∀ lexemes lexemes', IsCut (normalForm text.toList) lexemes →
      IsCut (normalForm text.toList) lexemes' → lexemes = lexemes' := by
  refine ⟨⟨fun h => ?_, ?_⟩, fun lexemes lexemes' h h' => h.eq_cut.trans h'.eq_cut.symm⟩
  · obtain ⟨hne, hproper, htokens⟩ := scan_eq_ok_iff_cut.mp h
    exact ⟨hne, _, isCut_cut hproper, htokens⟩
  · rintro ⟨hne, lexemes, hcut, rfl⟩
    have hproper := hcut.proper
    rw [hcut.eq_cut] at hproper ⊢
    exact scan_eq_ok_iff_cut.mpr ⟨hne, hproper, rfl⟩

/-- Blanks end no run, a comma is a point, words are read in lower case, and of two minus signs behind a
number the second one is a sign. -/
theorem scan_exact_signs :
    scan "2 ,5- -SIN" = .ok [⟨.number, "2.5"⟩, ⟨.binary, "-"⟩, ⟨.unary, "-"⟩, ⟨.unary, "sin"⟩] ∧
    ∀ lexemes, IsCut (normalForm "2 ,5- -SIN".toList) lexemes →
      lexemes = [numeral ['2', '.', '5'], symbol '-', symbol '-', word ['S', 'I', 'N']] := by
  have hcut : IsCut (normalForm "2 ,5- -SIN".toList)
      [numeral ['2', '.', '5'], symbol '-', symbol '-', word ['S', 'I', 'N']] :=
    ⟨by decide, by decide, by decide, by decide⟩
  obtain ⟨hscan, hunique⟩ := scan_exact "2 ,5- -SIN"
    [⟨.number, "2.5"⟩, ⟨.binary, "-"⟩, ⟨.unary, "-"⟩, ⟨.unary, "sin"⟩]
  exact ⟨hscan.mpr ⟨by decide, _, hcut, by decide⟩, fun lexemes h => hunique _ _ h hcut⟩

end Token

end Reckoner
