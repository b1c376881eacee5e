import Mathlib.Tactic.SplitIfs
import Reckoner.Proofs.Token.Lexemes
import Reckoner.Token.Scan

/-!
# Texts that scan

Where a text is scanned as some tokens, the position at which it stands plays no part: positions are
only ever shown in errors. So scanning is a relation between a text, its tokens, and whether an
operand is due at its start (`Token.Scans`), and this relation is **put together** from the parts of
a text.

* Where a text scans, and with it the text behind it, so do both together if a symbol stands between
  them (`Scans.symbol`), since symbols separate (`Lexeme.cut_append_symbol`).
* Blanks vanish (`Scans.skip`), and groups, applied functions and binary operations scan as the
  tokens of their parts with the tokens of their symbols around and between them (`Scans.group`,
  `Scans.unary`, `Scans.binary`).
-/

namespace Reckoner

namespace Token

open Lexeme

/-! ## Positions play no part -/

variable {due : Bool} {position : Nat} {lexeme : Lexeme} {lexemes : List Lexeme} {t : Token}
  {text front back : List Char} {tokens frontTokens backTokens : List Token}

theorem ofLexeme_anywhere (h : ofLexeme due position lexeme = .ok t) (position' : Nat) :
    ofLexeme due position' lexeme = .ok t := by
  cases lexeme with
  | symbol c =>
    rw [ofLexeme, ofSymbol] at h ⊢
    split_ifs at h ⊢ <;> exact h
  | numeral run =>
    rw [ofLexeme, ofNumeral] at h ⊢
    split_ifs at h ⊢
    exact h
  | word run =>
    simp only [ofLexeme, ofWord] at h ⊢
    split_ifs at h ⊢ <;> exact h

theorem ofLexemes_anywhere (h : ofLexemes due position lexemes = .ok tokens) (position' : Nat) :
    ofLexemes due position' lexemes = .ok tokens := by
  induction lexemes generalizing due position position' tokens with
  | nil => exact h
  | cons lexeme rest ih =>
    obtain ⟨t, ht, hrest⟩ := bind_eq_ok.mp h
    obtain ⟨others, hothers, htokens⟩ := bind_eq_ok.mp hrest
    rw [ofLexemes, ofLexeme_anywhere ht position', ok_bind,
      ih hothers (position' + lexeme.chars.length), ok_bind]
    exact htokens

/-- Each lexeme becomes one token. -/
theorem length_ofLexemes (h : ofLexemes due position lexemes = .ok tokens) :
    tokens.length = lexemes.length := by
  induction lexemes generalizing due position tokens with
  | nil =>
    cases h
    rfl
  | cons lexeme rest ih =>
    obtain ⟨t, -, hrest⟩ := bind_eq_ok.mp h
    obtain ⟨others, hothers, htokens⟩ := bind_eq_ok.mp hrest
    cases htokens
    rw [List.length_cons, List.length_cons, ih hothers]

/-! ## Scanning as a relation -/

/-- Whether an operand has to begin after some tokens. -/
def dueAfter (due : Bool) (tokens : List Token) : Bool :=
  (tokens.getLast?.map (·.kind.awaitsOperand)).getD due

@[simp] theorem dueAfter_cons (due : Bool) (t : Token) (tokens : List Token) :
    dueAfter due (t :: tokens) = dueAfter t.kind.awaitsOperand tokens := by
  rcases tokens with _ | ⟨first, rest⟩
  · rfl
  · simp [dueAfter, List.getLast?_cons]

@[simp] theorem dueAfter_concat (due : Bool) (tokens : List Token) (t : Token) :
    dueAfter due (tokens ++ [t]) = t.kind.awaitsOperand := by
  simp [dueAfter]

/-- The text is scanned as the tokens, wherever it stands. -/
def Scans (due : Bool) (text : List Char) (tokens : List Token) : Prop :=
  ∀ position, ofLexemes due position (cut (normalForm text)) = .ok tokens

/-- Texts with the same normal form scan alike. -/
theorem Scans.congr (h : Scans due text tokens) {text' : List Char}
    (hnormal : normalForm text' = normalForm text) : Scans due text' tokens := by
  intro position
  rw [hnormal]
  exact h position

/-- Scanning a text means that it scans, and that there is something to scan. -/
theorem scan_eq_ok {text : String} :
    scan text = .ok tokens ↔ tokens ≠ [] ∧ Scans true text.toList tokens := by
  have hlength (h : ofLexemes true 0 (cut (normalForm text.toList)) = .ok tokens) :
      tokens = [] ↔ normalForm text.toList = [] := by
    rw [← List.length_eq_zero_iff, length_ofLexemes h, List.length_eq_zero_iff, cut_eq_nil_iff]
  rw [scan]
  rcases hnormal : normalForm text.toList with _ | ⟨c, rest⟩
  · -- a blank text is refused, and the relation gives it no tokens
    constructor
    · intro h
      cases h
    · rintro ⟨hne, h⟩
      exact absurd ((hlength (h 0)).mpr hnormal) hne
  · rw [hnormal] at hlength
    constructor
    · intro h
      refine ⟨fun hnil => ?_, fun position => ?_⟩
      · cases (hlength h).mp hnil
      · rw [hnormal]
        exact ofLexemes_anywhere h position
    · rintro ⟨-, h⟩
      have := h 0
      rwa [hnormal] at this

/-! ## Composed texts -/

theorem scans_nil (due : Bool) : Scans due [] [] := fun _ => rfl

/-- The tokens of some lexemes and of those behind them. -/
theorem ofLexemes_append (h : ofLexemes due position lexemes = .ok frontTokens)
    {others : List Lexeme}
    (hback : ∀ position, ofLexemes (dueAfter due frontTokens) position others = .ok backTokens) :
    ofLexemes due position (lexemes ++ others) = .ok (frontTokens ++ backTokens) := by
  induction lexemes generalizing due position frontTokens with
  | nil =>
    cases h
    exact hback position
  | cons lexeme rest ih =>
    obtain ⟨t, ht, hrest⟩ := bind_eq_ok.mp h
    obtain ⟨tokens, htokens, hfront⟩ := bind_eq_ok.mp hrest
    cases hfront
    rw [dueAfter_cons] at hback
    rw [List.cons_append, ofLexemes, ht, ok_bind, ih htokens hback]
    rfl

/-- The character is part of no run, and neither a blank nor a comma. -/
def Separates (c : Char) : Prop := normalForm [c] = [c] ∧ ofChar c = symbol c

/-- A symbol between two parts of a text. -/
theorem Scans.symbol {c : Char} (hf : Scans due front frontTokens) (hc : Separates c)
    (ht : ofSymbol (dueAfter due frontTokens) 0 c = .ok t)
    (hb : Scans t.kind.awaitsOperand back backTokens) :
    Scans due (front ++ c :: back) (frontTokens ++ t :: backTokens) := by
  intro position
  have hnormal : normalForm (front ++ c :: back) =
      normalForm front ++ c :: normalForm back := by
    rw [← List.singleton_append, normalForm_append, normalForm_append, hc.1, List.singleton_append]
  rw [hnormal, cut_append_symbol hc.2]
  -- behind the front the symbol stands elsewhere than at the start, where `ht` is about it
  refine ofLexemes_append (hf position) fun position' => ?_
  have hfirst : ofLexeme (dueAfter due frontTokens) 0 (.symbol c) = .ok t := ht
  rw [ofLexemes, ofLexeme_anywhere hfirst, ok_bind, hb, ok_bind]
  rfl

/-- A blank between two parts of a text. -/
theorem Scans.skip (h : Scans due (front ++ back) tokens) :
    Scans due (front ++ ' ' :: back) tokens := by
  refine h.congr ?_
  have hblank : normalForm [' '] = [] := rfl
  rw [← List.singleton_append, normalForm_append, normalForm_append, normalForm_append, hblank,
    List.nil_append]

/-- Some tokens between parentheses. -/
def grouped (tokens : List Token) : List Token :=
  ⟨.opening, "("⟩ :: tokens ++ [⟨.closing, ")"⟩]

/-- A text in parentheses behind another one. -/
theorem Scans.enclose (hf : Scans due front frontTokens) (h : Scans true text tokens) :
    Scans due (front ++ '(' :: text ++ [')']) (frontTokens ++ grouped tokens) := by
  have hopening : Scans due (front ++ '(' :: text) (frontTokens ++ ⟨.opening, "("⟩ :: tokens) :=
    hf.symbol ⟨rfl, rfl⟩ rfl h
  rw [grouped, ← List.append_assoc]
  exact hopening.symbol ⟨rfl, rfl⟩ rfl (scans_nil false)

/-- A text in parentheses. -/
theorem Scans.group (h : Scans true text tokens) (due : Bool) :
    Scans due ('(' :: text ++ [')']) (grouped tokens) := (scans_nil due).enclose h

/-- A unary operator before a text in parentheses, where an operand is due. -/
theorem Scans.unary (h : Scans true text tokens) (op : UnaryOp) :
    Scans true (op.symbol.toList ++ '(' :: text ++ [')'])
      (⟨.unary, op.symbol⟩ :: grouped tokens) := by
  have hop : Scans true op.symbol.toList [⟨.unary, op.symbol⟩] := by
    have hfirst : ofLexemes true 0 (cut (normalForm op.symbol.toList)) =
        .ok [⟨.unary, op.symbol⟩] := by
      cases op <;> rfl
    exact ofLexemes_anywhere hfirst
  exact hop.enclose h

/-- A binary operator between two texts, where no operand is due. -/
theorem Scans.binary (hf : Scans due front frontTokens) (hdue : dueAfter due frontTokens = false)
    (hb : Scans true back backTokens) (op : BinaryOp) :
    Scans due (front ++ op.symbol.toList ++ back)
      (frontTokens ++ ⟨.binary, op.symbol⟩ :: backTokens) := by
  obtain ⟨c, hsymbol, hc, ht⟩ : ∃ c, op.symbol.toList = [c] ∧ Separates c ∧
      ofSymbol false 0 c = .ok ⟨.binary, op.symbol⟩ := by
    cases op <;> exact ⟨_, rfl, ⟨rfl, rfl⟩, rfl⟩
  rw [hsymbol, List.append_assoc]
  exact hf.symbol hc (by rw [hdue]; exact ht) hb

end Token

end Reckoner
