import Reckoner.Proofs.Token.Operands

/-!
# Spelling tokens again

The texts of the tokens of a text, put side by side with nothing between them, are scanned as the same
tokens (`Token.scan_join`). Blanks are gone and words are in lower case, so what is scanned is another
text, but it is cut at the same places.

* A word that is a token is **settled** in lower case: it is a word of letters still, and its own
  lower-case form (`Lexeme.lowerCase_settled_of_isToken`). So each lexeme becomes the same token when it
  is spelt with the text of its token (`Lexeme.respelt`).
* A lexeme keeps its kind when it is spelt again, so **no two neighbours join** that did not join before
  (`Lexeme.joins_respelt`), and a minus sign finds the same token before it.
-/

namespace Reckoner

namespace Lexeme

variable {lexeme other : Lexeme} {lexemes : List Lexeme} {run : List Char}

/-- The lexeme, spelt with the text of the token that it becomes. -/
def respelt : Lexeme → Lexeme
  | symbol c => symbol c
  | numeral run => numeral run
  | word run => word (Letter.lowerCase run)

@[simp] theorem chars_respelt (lexeme : Lexeme) : lexeme.respelt.chars = lexeme.text.toList := by
  cases lexeme <;> simp [respelt, chars, text]

theorem joins_respelt (lexeme other : Lexeme) :
    lexeme.respelt.joins other.respelt = lexeme.joins other := by
  cases lexeme <;> cases other <;> rfl

/-! ## Settled words -/

/-- The names of functions are letters in lower case. -/
theorem lowerCase_symbol {op : UnaryOp} (h : op ∈ UnaryOp.functions) :
    (∀ c ∈ op.symbol.toList, Letter.isLetter c) ∧
      Letter.lowerCase op.symbol.toList = op.symbol.toList := by
  have hall : UnaryOp.functions.all fun op => op.symbol.toList.all Letter.isLetter &&
      Letter.lowerCase op.symbol.toList == op.symbol.toList := by decide
  simpa using List.all_eq_true.mp hall op h

/-- The names of constants are letters in lower case. -/
theorem lowerCase_name (constant : Constant) :
    (∀ c ∈ constant.name.toList, Letter.isLetter c) ∧
      Letter.lowerCase constant.name.toList = constant.name.toList := by
  have hall : Constant.all.all fun c => c.name.toList.all Letter.isLetter &&
      Letter.lowerCase c.name.toList == c.name.toList := by decide
  simpa using List.all_eq_true.mp hall constant (by cases constant <;> decide)

/-- **Words that are tokens are settled** in lower case. -/
theorem lowerCase_settled_of_isToken (h : (word run).IsToken) :
    (∀ c ∈ Letter.lowerCase run, Letter.isLetter c) ∧
      Letter.lowerCase (Letter.lowerCase run) = Letter.lowerCase run := by
  obtain ⟨hletters, ⟨op, hop, hname⟩ | ⟨constant, -, hname⟩ | hlength⟩ := h
  · have hlower : Letter.lowerCase run = op.symbol.toList := by simp [hname, text]
    rw [hlower]
    exact lowerCase_symbol hop
  · have hlower : Letter.lowerCase run = constant.name.toList := by simp [hname, text]
    rw [hlower]
    exact lowerCase_name constant
  · rw [text, String.length_ofList] at hlength
    obtain ⟨c, hc⟩ := List.length_eq_one_iff.mp hlength
    obtain ⟨hletter, hsettled⟩ := Letter.lowerCase_settled hletters hc
    rw [hc]
    exact ⟨by simpa using hletter, hsettled⟩

theorem text_respelt (h : lexeme.IsToken) : lexeme.respelt.text = lexeme.text := by
  cases lexeme with
  | symbol c => rfl
  | numeral run => rfl
  | word run => exact congrArg String.ofList (lowerCase_settled_of_isToken h).2

/-- What a word names is read off its text. -/
theorem kind_respelt (h : lexeme.IsToken) (previous : Option Token.Kind) :
    lexeme.respelt.kind previous = lexeme.kind previous := by
  have htext := text_respelt h
  cases lexeme with
  | symbol c => rfl
  | numeral run => rfl
  | word run =>
    rw [respelt] at htext ⊢
    simp only [kind, NamesFunction, NamesConstant, htext]

theorem IsToken.respelt (h : lexeme.IsToken) : lexeme.respelt.IsToken := by
  have htext := text_respelt h
  cases lexeme with
  | symbol c => exact h
  | numeral run => exact h
  | word run =>
    rw [Lexeme.respelt] at htext ⊢
    refine ⟨(lowerCase_settled_of_isToken h).1, ?_⟩
    simpa only [NamesFunction, NamesConstant, htext] using h.2

/-- There are no blanks and commas in a token. -/
theorem IsToken.keeps (h : lexeme.IsToken) : ∀ c ∈ lexeme.chars, isBlank c = false ∧ c ≠ ',' := by
  intro c hc
  cases lexeme with
  | symbol d =>
    obtain rfl := List.mem_singleton.mp hc
    simp only [IsToken, List.mem_cons, List.not_mem_nil, or_false] at h
    rcases h with rfl | rfl | rfl | rfl | rfl | rfl | rfl | rfl <;> decide
  | numeral run => exact Token.keeps_of_isNumeral (h.wellFormed c hc)
  | word run => exact Token.keeps_of_isLetter (h.wellFormed c hc)

/-! ## Texts spelt again -/

/-- The same tokens become of lexemes that are spelt again. -/
theorem tokens_respelt (h : ∀ lexeme ∈ lexemes, lexeme.IsToken) (previous : Option Token.Kind) :
    tokens previous (lexemes.map respelt) = tokens previous lexemes := by
  induction lexemes generalizing previous with
  | nil => rfl
  | cons lexeme rest ih =>
    obtain ⟨hfirst, hrest⟩ := List.forall_mem_cons.mp h
    rw [List.map_cons, tokens, tokens, kind_respelt hfirst, text_respelt hfirst, ih hrest]

theorem flatMap_text_tokens (previous : Option Token.Kind) (lexemes : List Lexeme) :
    (tokens previous lexemes).flatMap (·.text.toList) = (lexemes.map respelt).flatMap chars := by
  induction lexemes generalizing previous with
  | nil => rfl
  | cons lexeme rest ih => simp [tokens, ih]

/-- The texts of the tokens are cut into the lexemes, spelt again. -/
theorem isCut_respelt (h : ∀ lexeme ∈ lexemes, lexeme.IsToken)
    (hapart : lexemes.IsChain fun a b => ¬ a.joins b) :
    IsCut ((lexemes.map respelt).flatMap chars) (lexemes.map respelt) where
  whole := rfl
  nonempty := List.forall_mem_map.mpr fun l hl => (h l hl).respelt.chars_ne_nil
  proper := List.forall_mem_map.mpr fun l hl => (h l hl).respelt
  apart := by
    rw [List.isChain_map]
    simpa only [joins_respelt] using hapart

end Lexeme

namespace Token

open Lexeme

/-- **Spelling again**: the texts of the tokens of a text, put together, are scanned as the same
tokens. -/
theorem scan_join {text : String} {tokens : List Token} (h : scan text = .ok tokens) :
    scan (String.join (tokens.map (·.text))) = .ok tokens := by
  obtain ⟨hne, hproper, rfl⟩ := scan_eq_ok_iff_cut.mp h
  have hcut := isCut_respelt hproper (isChain_cut _)
  have hnormal : normalForm (String.join ((Lexeme.tokens none (cut (normalForm text.toList))).map
      (·.text))).toList = ((cut (normalForm text.toList)).map respelt).flatMap chars := by
    rw [String.toList_join, List.flatMap_map, flatMap_text_tokens]
    refine normalForm_eq_self fun c hc => ?_
    obtain ⟨lexeme, hlexeme, hc⟩ := List.mem_flatMap.mp hc
    exact (hcut.proper lexeme hlexeme).keeps c hc
  rw [scan_eq_ok_iff_cut, hnormal, ← hcut.eq_cut]
  refine ⟨fun hnil => ?_, hcut.proper, (tokens_respelt hproper none).symm⟩
  have hlexemes := hcut.eq_cut
  rw [hnil, cut_eq_nil_iff.mpr rfl, List.map_eq_nil_iff, cut_eq_nil_iff] at hlexemes
  exact hne hlexemes

/-- Without the blanks between them two minus signs still are an operator and a sign, and a unit of
temperature stays the letter that it is in lower case. -/
theorem scan_join_signs :
    scan "2 ,5 - -SIN(\u212A)" = scan "2.5--sin(k)" := by
  have hscan : scan "2 ,5 - -SIN(\u212A)" = .ok [⟨.number, "2.5"⟩, ⟨.binary, "-"⟩, ⟨.unary, "-"⟩,
      ⟨.unary, "sin"⟩, ⟨.opening, "("⟩, ⟨.letter, "k"⟩, ⟨.closing, ")"⟩] := by decide +kernel
  have hagain := scan_join hscan
  rw [hscan, ← hagain]
  rfl

end Token

end Reckoner
