import Reckoner.Proofs.Token.Spelling

/-!
# The leftmost fault

A text that is no row of tokens is refused for its **first lexeme that cannot become a token**: all
lexemes before it can (`Token.ofLexemes_eq_error`). The error carries the number of characters before
this lexeme, so it tells the fault from the text alone (`Token.scan_fault`).

* What stands before the position is scanned by itself, and a lexeme ends there.
* What stands behind it begins with the fault (`Token.Fault`): a character that is part of no token, a
  run of digits and points that is no number, or a run of letters that is no name. Runs are as long as
  they can be (`Lexeme.run_eq_takeWhile`), and a run of letters is reported in lower case.
-/

namespace Reckoner

namespace Lexeme

variable {lexeme : Lexeme} {text : List Char}

/-- The error for a lexeme at a position that cannot become a token. -/
def fault (position : Nat) : Lexeme → ParseError
  | symbol c => .unknownCharacter c position
  | numeral run => .malformedNumber (numeral run).text position
  | word run => .unknownName (word run).text position

theorem fault_ne_blankText (lexeme : Lexeme) (position : Nat) :
    lexeme.fault position ≠ .blankText := by
  intro h
  cases lexeme <;> cases h

/-- A lexeme ends where the first characters of the text do. -/
def IsBoundary (text : List Char) (position : Nat) : Prop :=
  cut (text.take position) ++ cut (text.drop position) = cut text

end Lexeme

namespace Token

open Lexeme

variable {due : Bool} {position : Nat} {lexeme : Lexeme} {lexemes : List Lexeme}
  {error : ParseError} {normal : List Char}

/-! ## The lexeme at fault -/

/-- What is wrong with a text whose rest begins at the position. -/
inductive Fault (position : Nat) (rest : List Char) : ParseError → Prop where
  /-- a character that is part of no token -/
  | character {c : Char} {behind : List Char} (found : rest = c :: behind)
      (letter : ¬ Letter.isLetter c) (digit : ¬ c.isDigit) (point : c ≠ '.')
      (symbol : c ∉ ['(', ')', '+', '-', '*', '/', '%', '^']) :
      Fault position rest (.unknownCharacter c position)
  /-- a run of digits and points with several points, or without a digit -/
  | numeral {run : List Char} (found : run = rest.takeWhile isNumeral) (nonempty : run ≠ [])
      (malformed : 1 < run.count '.' ∨ ¬ ∃ c ∈ run, c.isDigit) :
      Fault position rest (.malformedNumber (String.ofList run) position)
  /-- a run of letters that is several letters in lower case, and no function or constant -/
  | word {run : List Char} (found : run = rest.takeWhile Letter.isLetter) (nonempty : run ≠ [])
      (function : ¬ ∃ op ∈ UnaryOp.functions, op.symbol = String.ofList (Letter.lowerCase run))
      (constant : ¬ ∃ c ∈ Constant.all, c.name = String.ofList (Letter.lowerCase run))
      (several : (Letter.lowerCase run).length ≠ 1) :
      Fault position rest (.unknownName (String.ofList (Letter.lowerCase run)) position)

/-- There is one error for a lexeme. -/
theorem eq_fault_of_ofLexeme (h : ofLexeme due position lexeme = .error error) :
    error = lexeme.fault position := by
  cases lexeme with
  | symbol c =>
    rw [ofLexeme, ofSymbol] at h
    split_ifs at h
    cases h
    rfl
  | numeral run =>
    rw [ofLexeme, ofNumeral] at h
    split_ifs at h
    cases h
    rfl
  | word run =>
    simp only [ofLexeme, ofWord] at h
    split_ifs at h
    cases h
    rfl

/-- A lexeme that cannot become a token is refused, whether an operand is due or not. -/
theorem exists_ofLexeme_iff (hwell : lexeme.WellFormed) :
    (∃ t, ofLexeme due position lexeme = .ok t) ↔ lexeme.IsToken := by
  obtain ⟨previous, hdue⟩ : ∃ previous, due ↔ OperandDue previous := by
    cases due
    · exact ⟨some .number, by decide⟩
    · exact ⟨none, by decide⟩
  simp [ofLexeme_eq_ok_iff hwell hdue]

/-- **The first lexeme that cannot become a token** decides the error, and its position is the number of
characters before it. -/
theorem ofLexemes_eq_error (hwell : ∀ lexeme ∈ lexemes, lexeme.WellFormed)
    (h : ofLexemes due position lexemes = .error error) :
    ∃ front lexeme back, lexemes = front ++ lexeme :: back ∧ (∀ l ∈ front, l.IsToken) ∧
      ¬ lexeme.IsToken ∧ error = lexeme.fault (position + (front.flatMap chars).length) := by
  induction lexemes generalizing due position with
  | nil => cases h
  | cons first rest ih =>
    obtain ⟨hfirst, hrest⟩ := List.forall_mem_cons.mp hwell
    rcases bind_eq_error.mp h with herror | ⟨t, ht, hothers⟩
    · refine ⟨[], first, rest, rfl, nofun, fun htoken => ?_, eq_fault_of_ofLexeme herror⟩
      obtain ⟨t, ht⟩ := (exists_ofLexeme_iff hfirst).mpr htoken
      cases herror.symm.trans ht
    · rcases bind_eq_error.mp hothers with hothers | ⟨others, -, htokens⟩
      · obtain ⟨front, lexeme, back, rfl, hfront, hno, rfl⟩ := ih hrest hothers
        refine ⟨first :: front, lexeme, back, rfl, ?_, hno, ?_⟩
        · exact List.forall_mem_cons.mpr ⟨(exists_ofLexeme_iff hfirst).mp ⟨t, ht⟩, hfront⟩
        · rw [List.flatMap_cons, List.length_append, Nat.add_assoc]
      · cases htokens

/-- What is at the start of a text and cannot become a token is a fault of the text. -/
theorem fault_of_cut {rest : List Char} (h : cut rest = lexeme :: lexemes) (hno : ¬ lexeme.IsToken)
    (position : Nat) : Fault position rest (lexeme.fault position) := by
  have hmem : lexeme ∈ cut rest := h ▸ List.mem_cons_self ..
  have hwell := wellFormed_cut rest lexeme hmem
  have hne := chars_ne_nil_of_mem_cut hmem
  cases lexeme with
  | symbol c =>
    have hc := ofChar_of_symbol_mem_cut hmem
    have hnumeral : ¬ isNumeral c := fun hnumeral => by cases hc.symm.trans (ofChar_of_isNumeral hnumeral)
    have hletter : ¬ Letter.isLetter c := fun hletter => by cases hc.symm.trans (ofChar_of_isLetter hletter)
    have hrest : rest = c :: lexemes.flatMap chars := by
      rw [← flatMap_chars_cut rest, h]
      rfl
    rw [isNumeral, Bool.or_eq_true, decide_eq_true_eq, not_or] at hnumeral
    exact .character hrest hletter hnumeral.1 hnumeral.2 hno
  | numeral run =>
    have hfound := run_eq_takeWhile (.inl rfl) (fun _ => ofChar_of_isNumeral) hwell h
    refine .numeral hfound hne ?_
    by_contra hproper
    obtain ⟨hpoints, hdigit⟩ := not_or.mp hproper
    exact hno ⟨fun c hc => by simpa [isNumeral] using hwell c hc, not_not.mp hdigit,
      Nat.le_of_not_lt hpoints⟩
  | word run =>
    have hfound := run_eq_takeWhile (.inr rfl) (fun _ => ofChar_of_isLetter) hwell h
    refine .word hfound hne (fun hfunction => hno ⟨hwell, .inl hfunction⟩)
      (fun hconstant => hno ⟨hwell, .inr (.inl hconstant)⟩) (fun hlength => hno ⟨hwell, .inr (.inr ?_)⟩)
    rwa [Lexeme.text, String.length_ofList]

/-! ## Positions -/

/-- The first characters of a text that scans up to a lexeme scan by themselves. -/
theorem scan_take {front back : List Lexeme} (hnormal : ∀ c ∈ normal, isBlank c = false ∧ c ≠ ',')
    (hcut : cut normal = front ++ back) (hfront : ∀ l ∈ front, l.IsToken) (hne : front ≠ []) :
    ∃ tokens, scan (String.ofList (front.flatMap chars)) = .ok tokens := by
  have hself : normalForm (front.flatMap chars) = front.flatMap chars := by
    refine normalForm_eq_self fun c hc => hnormal c ?_
    rw [← flatMap_chars_cut normal, hcut, List.flatMap_append]
    exact List.mem_append_left _ hc
  have hfrontCut := (cut_append_of_cut hcut).1
  refine ⟨_, scan_eq_ok_iff_cut.mpr ⟨?_, ?_, rfl⟩⟩
  · rw [String.toList_ofList, hself]
    exact fun hnil => hne (hfrontCut.symm.trans (cut_eq_nil_iff.mpr hnil))
  · rwa [String.toList_ofList, hself, hfrontCut]

/-- **Errors point at the leftmost fault.** The error of a text in which there is something carries a
position in its normal form. What stands before it is nothing or scanned by itself, a lexeme ends
there, and what stands behind it begins with the fault that is reported. -/
theorem scan_fault {text : String} {error : ParseError} (h : scan text = .error error) :
    (error = .blankText ↔ normalForm text.toList = []) ∧
    (normalForm text.toList ≠ [] → ∃ position,
      (position = 0 ∨ ∃ tokens,
        scan (String.ofList ((normalForm text.toList).take position)) = .ok tokens) ∧
      IsBoundary (normalForm text.toList) position ∧
      Fault position ((normalForm text.toList).drop position) error) := by
  have hkept (c : Char) (hc : c ∈ normalForm text.toList) := of_mem_normalForm hc
  rw [scan] at h
  generalize normalForm text.toList = normal at h hkept ⊢
  rcases normal with _ | ⟨c, rest⟩
  · cases h
    exact ⟨iff_of_true rfl rfl, fun hne => absurd rfl hne⟩
  · obtain ⟨front, lexeme, back, hcut, hfront, hno, rfl⟩ := ofLexemes_eq_error (wellFormed_cut _) h
    have hwhole : front.flatMap chars ++ (lexeme :: back).flatMap chars = c :: rest := by
      rw [← List.flatMap_append, ← hcut, flatMap_chars_cut]
    obtain ⟨hfrontCut, hbackCut⟩ := cut_append_of_cut hcut
    rw [Nat.zero_add]
    refine ⟨iff_of_false (fault_ne_blankText lexeme _) (List.cons_ne_nil c rest),
      fun _ => ⟨(front.flatMap chars).length, ?_, ?_, ?_⟩⟩
    · rcases front with _ | ⟨first, front⟩
      · exact .inl rfl
      · rw [← hwhole, List.take_left]
        exact .inr (scan_take hkept hcut hfront (List.cons_ne_nil first front))
    · rw [IsBoundary, ← hwhole, List.take_left, List.drop_left, hfrontCut, hbackCut, hwhole, hcut]
    · rw [← hwhole, List.drop_left]
      exact fault_of_cut hbackCut hno _

/-- Positions count characters, in a text without blanks, and names are reported in lower case. -/
theorem scan_fault_behind_letters :
    scan "π + x * ÿZ" = .error (.unknownName "ÿz" 4) ∧ (∃ tokens, scan "π+x*" = .ok tokens) ∧
      Fault 4 ['ÿ', 'Z'] (.unknownName "ÿz" 4) := by
  have hscan : scan "π + x * ÿZ" = .error (.unknownName "ÿz" 4) := by decide
  obtain ⟨position, hbefore, -, hfault⟩ := (scan_fault hscan).2 (by decide)
  obtain rfl : position = 4 := by
    generalize "ÿz" = name at hfault
    cases hfault
    rfl
  exact ⟨hscan, hbefore.resolve_left (by decide), hfault⟩

end Token

end Reckoner
