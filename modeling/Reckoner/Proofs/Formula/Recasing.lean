import Mathlib.Data.List.Forall2
import Reckoner.Formula.Evaluation
import Reckoner.Proofs.Token.Lexemes

/-!
# Case does not matter

A text whose ASCII letters change their case (`Recased`) has the same tokens, or the same error in the
same place, and so it is the same formula (`Formula.compile_recased`).

Two such texts are the same when all their ASCII letters are made small, so it is enough that nothing
that is asked of a character sees a difference between a capital and its small letter
(`Letter.CaseBlind`).

* **Lexemes** are cut at the same places and are of the same kinds (`Lexeme.cut_small`).
* **Words** have the same lower-case form (`Letter.lowerCase_small`). For a sigma this depends on the
  letters beside it, but only on whether they have a case, and a letter keeps that when its case changes.
* Everything that is **reported** about a word is its lower-case form, and no other lexeme that is
  reported has a letter.
-/

namespace Reckoner

/-! ## Characters -/

namespace Letter

/-- Changing a capital ASCII letter into its small letter changes nothing. -/
def CaseBlind {α : Type} (f : Char → α) : Prop := ∀ c, f c.toLower = f c

/-- The capital ASCII letters. -/
def capitals : List Char := (List.range 26).map fun n => Char.ofNat ('A'.toNat + n)

/-- All characters but the capitals stay as they are. -/
theorem toLower_eq_self_or_mem (c : Char) : c.toLower = c ∨ c ∈ capitals := by
  by_cases hcapital : c.val ≥ 'A'.val ∧ c.val ≤ 'Z'.val
  · right
    have hlow : 'A'.toNat ≤ c.toNat := UInt32.le_iff_toNat_le.mp hcapital.1
    have hhigh : c.toNat ≤ 'Z'.toNat := UInt32.le_iff_toNat_le.mp hcapital.2
    refine List.mem_map.mpr ⟨c.toNat - 'A'.toNat, List.mem_range.mpr ?_, ?_⟩
    · exact Nat.lt_of_le_of_lt (Nat.sub_le_sub_right hhigh _) (by decide)
    · rw [Nat.add_sub_cancel' hlow, Char.ofNat_toNat]
  · exact .inl (dif_neg hcapital)

/-- What cannot tell any of the twenty-six capitals from its small letter is blind to case. -/
theorem caseBlind_of_capitals {α : Type} [DecidableEq α] {f : Char → α}
    (h : capitals.all fun c => f c.toLower = f c) : CaseBlind f := by
  intro c
  rcases toLower_eq_self_or_mem c with hself | hcapital
  · rw [hself]
  · exact of_decide_eq_true (List.all_eq_true.mp h c hcapital)

theorem caseBlind_small : CaseBlind Char.toLower := caseBlind_of_capitals (by decide)

theorem caseBlind_isBlank : CaseBlind Lexeme.isBlank := caseBlind_of_capitals (by decide)

theorem caseBlind_isLetter : CaseBlind isLetter := caseBlind_of_capitals (by decide)

theorem caseBlind_isModifier : CaseBlind (inRanges ·.toNat modifierRanges) :=
  caseBlind_of_capitals (by decide)

theorem caseBlind_isCased : CaseBlind (inRanges ·.toNat casedRanges) :=
  caseBlind_of_capitals (by decide)

theorem caseBlind_toLower : CaseBlind toLower := caseBlind_of_capitals (by decide)

/-- A character that is no ASCII letter is told from all others as before. -/
theorem toLower_eq_iff {d : Char} (h : capitals.all fun c => c.toLower ≠ d ∧ c ≠ d) (c : Char) :
    c.toLower = d ↔ c = d := by
  rcases toLower_eq_self_or_mem c with hself | hcapital
  · rw [hself]
  · have hne := of_decide_eq_true (List.all_eq_true.mp h c hcapital)
    exact iff_of_false hne.1 hne.2

/-- What is no letter has no case. -/
theorem toLower_of_not_isLetter {c : Char} (h : isLetter c = false) : c.toLower = c := by
  refine (toLower_eq_self_or_mem c).resolve_right fun hcapital => ?_
  have hall : capitals.all isLetter := by decide
  rw [List.all_eq_true.mp hall c hcapital] at h
  cases h

/-! ## Words -/

theorem toList_toLower (text : String) : text.toLower.toList = text.toList.map Char.toLower :=
  String.toList_map

theorem casedBeside_small (neighbours : List Char) :
    casedBeside (neighbours.map Char.toLower) = casedBeside neighbours := by
  induction neighbours with
  | nil => rfl
  | cons c rest ih =>
    have hmodifier : inRanges c.toLower.toNat modifierRanges = inRanges c.toNat modifierRanges :=
      caseBlind_isModifier c
    rw [casedBeside, casedBeside, List.map_cons, List.dropWhile_cons, List.dropWhile_cons, hmodifier]
    by_cases hskipped : inRanges c.toNat modifierRanges
    · rw [if_pos hskipped, if_pos hskipped]
      exact ih
    · rw [if_neg hskipped, if_neg hskipped]
      exact caseBlind_isCased c

/-- The lower-case form of a letter is the same beside letters of another case. -/
theorem lowerBetween_small (before : List Char) (c : Char) (after : List Char) :
    lowerBetween (before.map Char.toLower) c.toLower (after.map Char.toLower) =
      lowerBetween before c after := by
  have hdotted : c.toLower = 'İ' ↔ c = 'İ' := toLower_eq_iff (by decide) c
  have hsigma : c.toLower = 'Σ' ↔ c = 'Σ' := toLower_eq_iff (by decide) c
  rw [lowerBetween, lowerBetween, endsWord, endsWord, casedBeside_small, casedBeside_small,
    caseBlind_toLower c, if_congr hdotted rfl (if_congr hsigma rfl rfl)]

/-- **Words** have the same lower-case form. -/
theorem lowerCase_small (word : List Char) :
    lowerCase (word.map Char.toLower) = lowerCase word := by
  have hfrom (before word : List Char) :
      lowerFrom (before.map Char.toLower) (word.map Char.toLower) = lowerFrom before word := by
    induction word generalizing before with
    | nil => rfl
    | cons c after ih =>
      rw [List.map_cons, lowerFrom, lowerFrom, lowerBetween_small, ← List.map_cons, ih]
  exact hfrom [] word

end Letter

/-! ## Lexemes -/

namespace Lexeme

open Letter

/-- The lexeme with all its ASCII letters made small. -/
def small : Lexeme → Lexeme
  | word run => word (run.map Char.toLower)
  | lexeme => lexeme

theorem length_chars_small (lexeme : Lexeme) : lexeme.small.chars.length = lexeme.chars.length := by
  cases lexeme with
  | word run => exact List.length_map ..
  | _ => rfl

theorem normalForm_small (text : List Char) :
    normalForm (text.map Char.toLower) = (normalForm text).map Char.toLower := by
  have hblank : (fun c => ! isBlank c) ∘ Char.toLower = (! isBlank ·) :=
    funext fun c => congrArg not (caseBlind_isBlank c)
  have hcomma (c : Char) : (if c.toLower = ',' then '.' else c.toLower) =
      (if c = ',' then '.' else c).toLower := by
    simp only [toLower_eq_iff (d := ',') (by decide) c]
    split <;> rfl
  simp only [normalForm, List.filter_map, hblank, List.map_map]
  exact List.map_congr_left fun c _ => hcomma c

theorem ofChar_small (c : Char) : ofChar c.toLower = (ofChar c).small := by
  by_cases hletter : isLetter c
  · have hsmall : isLetter c.toLower := by rwa [caseBlind_isLetter c]
    rw [ofChar_of_isLetter hsmall, ofChar_of_isLetter hletter]
    rfl
  · rw [toLower_of_not_isLetter (Bool.eq_false_iff.mpr hletter), ofChar, if_neg hletter]
    split <;> rfl

/-- A letter joins the same runs in either case. -/
theorem attach_small (c : Char) (lexemes : List Lexeme) :
    attach c.toLower (lexemes.map small) = (attach c lexemes).map small := by
  by_cases hletter : isLetter c
  · unfold attach
    rw [ofChar_small, ofChar_of_isLetter hletter]
    rcases lexemes with _ | ⟨first, rest⟩
    · rfl
    · cases first <;> rfl
  · -- a character of another kind is its own small letter
    rw [toLower_of_not_isLetter (Bool.eq_false_iff.mpr hletter)]
    unfold attach
    rw [ofChar, if_neg hletter]
    rcases lexemes with _ | ⟨first, rest⟩
    · split_ifs <;> rfl
    · split_ifs <;> cases first <;> rfl

/-- **Texts are cut** at the same places. -/
theorem cut_small (text : List Char) : cut (text.map Char.toLower) = (cut text).map small := by
  induction text with
  | nil => rfl
  | cons c rest ih => rw [List.map_cons, cut_cons, cut_cons, ih, attach_small]

end Lexeme

/-! ## Texts -/

namespace Token

open Lexeme

/-- Tokens and errors show words in lower case only. -/
theorem ofLexeme_small (operandDue : Bool) (position : Nat) (lexeme : Lexeme) :
    ofLexeme operandDue position lexeme.small = ofLexeme operandDue position lexeme := by
  cases lexeme with
  | word run => simp only [small, ofLexeme, ofWord, Letter.lowerCase_small]
  | _ => rfl

theorem ofLexemes_small (operandDue : Bool) (position : Nat) (lexemes : List Lexeme) :
    ofLexemes operandDue position (lexemes.map small) = ofLexemes operandDue position lexemes := by
  induction lexemes generalizing operandDue position with
  | nil => rfl
  | cons lexeme rest ih =>
    simp only [List.map_cons, ofLexemes, ofLexeme_small, length_chars_small, ih]

/-- A text has the tokens, or the error, that it has when all its ASCII letters are made small. -/
theorem scan_toLower (text : String) : scan text.toLower = scan text := by
  rw [scan, scan, Letter.toList_toLower, normalForm_small]
  rcases normalForm text.toList with _ | ⟨c, rest⟩
  · rfl
  · change ofLexemes true 0 (cut ((c :: rest).map Char.toLower)) = _
    rw [cut_small, ofLexemes_small]

end Token

/-- The other text is the text with the case of some of its ASCII letters changed: where they differ, one
has the small letter of the other. -/
def Recased (text other : String) : Prop :=
  List.Forall₂ (fun c d => d = c ∨ d = c.toLower ∨ c = d.toLower) text.toList other.toList

/-- The two texts are the same when all their ASCII letters are made small. -/
theorem Recased.toLower_eq {text other : String} (h : Recased text other) :
    other.toLower = text.toLower := by
  have hletters {letters others : List Char}
      (h : List.Forall₂ (fun c d => d = c ∨ d = c.toLower ∨ c = d.toLower) letters others) :
      others.map Char.toLower = letters.map Char.toLower := by
    induction h with
    | nil => rfl
    | @cons c d _ _ hc _ ih =>
      have hsmall : d.toLower = c.toLower := by
        rcases hc with rfl | rfl | rfl
        · rfl
        · exact Letter.caseBlind_small c
        · exact (Letter.caseBlind_small d).symm
      rw [List.map_cons, List.map_cons, hsmall, ih]
  rw [← String.toList_inj, Letter.toList_toLower, Letter.toList_toLower, hletters h]

namespace Formula

variable {text other : String}

/-- **Case does not matter**: texts that differ in the case of ASCII letters only have the same tokens
or the same error, in the same place and with the same text in it. So they compile to the same formula
and have the same values. -/
theorem compile_recased (h : Recased text other) :
    Token.scan other = Token.scan text ∧ compile other = compile text ∧
      ∀ inputs, Reckoner.evaluate other inputs = Reckoner.evaluate text inputs := by
  have hscan : Token.scan other = Token.scan text := by
    rw [← Token.scan_toLower, h.toLower_eq, Token.scan_toLower]
  have hcompile : compile other = compile text := by rw [compile, compile, hscan]
  refine ⟨hscan, hcompile, fun inputs => ?_⟩
  rw [Reckoner.evaluate, Reckoner.evaluate, hcompile]

/-- The sigma that ends a word is final whatever the case of the letter before it, and so it is shown in
the error; a name of a function is known in any case. -/
theorem compile_recased_sigma :
    Token.scan "sin(x)*A\u03A3" = .error (.unknownName "a\u03C2" 7) ∧
      Recased "sin(x)*A\u03A3" "SiN(X)*a\u03A3" ∧
      Token.scan "SiN(X)*a\u03A3" = .error (.unknownName "a\u03C2" 7) := by
  have hscan : Token.scan "sin(x)*A\u03A3" = .error (.unknownName "a\u03C2" 7) := by
    decide
  have hrecased : Recased "sin(x)*A\u03A3" "SiN(X)*a\u03A3" := by
    simp [Recased]
  exact ⟨hscan, hrecased, (compile_recased hrecased).1.trans hscan⟩

end Formula

end Reckoner
