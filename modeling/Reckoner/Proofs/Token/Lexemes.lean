import Mathlib.Data.List.Chain
import Reckoner.Token.Lexeme

/-!
# The one way to cut a text

A text in normal form falls apart into lexemes. Cutting is defined from the right, one character at a
time, and what it makes is known from the lexemes alone.

* Runs hold characters of their kind (`Lexeme.wellFormed_cut`), and they are **as long as possible**:
  no two lexemes side by side would be one run (`Lexeme.isChain_cut`).
* There is **no other way** to take the text apart like this (`Lexeme.cut_flatMap_chars`), because a
  lexeme is cut off as a whole wherever no run of its kind follows (`Lexeme.cut_chars_append`).
-/

namespace Reckoner.Lexeme

variable {c : Char} {lexeme first : Lexeme} {lexemes : List Lexeme} {text run rest : List Char}
  {ofRun : List Char → Lexeme}

/-! ## Normal forms -/

theorem normalForm_append (front back : List Char) :
    normalForm (front ++ back) = normalForm front ++ normalForm back := by
  simp [normalForm]

theorem length_normalForm_le (text : List Char) : (normalForm text).length ≤ text.length := by
  rw [normalForm, List.length_map]
  exact List.length_filter_le ..

/-- Neither a blank nor a comma is left. -/
theorem of_mem_normalForm (h : c ∈ normalForm text) : isBlank c = false ∧ c ≠ ',' := by
  obtain ⟨original, horiginal, hc⟩ := List.mem_map.mp h
  have hblank : isBlank original = false := by simpa using (List.mem_filter.mp horiginal).2
  by_cases hcomma : original = ','
  · rw [if_pos hcomma] at hc
    subst hc
    exact ⟨rfl, by decide⟩
  · rw [if_neg hcomma] at hc
    subst hc
    exact ⟨hblank, hcomma⟩

/-- A text without blanks and commas is its own normal form. -/
theorem normalForm_eq_self (h : ∀ c ∈ text, isBlank c = false ∧ c ≠ ',') : normalForm text = text := by
  have hfilter : text.filter (! isBlank ·) = text := by
    rw [List.filter_eq_self]
    intro c hc
    rw [(h c hc).1]
    rfl
  rw [normalForm, hfilter]
  exact (List.map_congr_left fun c hc => if_neg (h c hc).2).trans text.map_id

/-! ## Characters as lexemes -/

/-- Letters stand behind the digits, the blanks, the point and the comma. -/
theorem le_toNat_of_isLetter (h : Letter.isLetter c) : 'A'.toNat ≤ c.toNat := by
  rw [Letter.isLetter, Letter.letterRanges, Letter.inRanges, Bool.and_eq_true] at h
  exact of_decide_eq_true h.1

theorem ne_of_isLetter (h : Letter.isLetter c) {d : Char} (hd : d.toNat < 'A'.toNat) : c ≠ d := by
  rintro rfl
  exact absurd (le_toNat_of_isLetter h) (Nat.not_le_of_lt hd)

theorem ofChar_of_isNumeral (h : isNumeral c) : ofChar c = numeral [c] := if_pos h

/-- No letter is part of a numeral. -/
theorem ofChar_of_isLetter (h : Letter.isLetter c) : ofChar c = word [c] := by
  have hdigit : c.isDigit = false := by
    rw [Bool.eq_false_iff]
    intro hc
    have hbelow : c.toNat ≤ '9'.toNat := (Char.isDigit_iff_toNat.mp hc).2
    exact absurd (Nat.le_trans (le_toNat_of_isLetter h) hbelow) (by decide)
  have hpoint : c ≠ '.' := ne_of_isLetter h (by decide)
  simp [ofChar, isNumeral, hdigit, hpoint, h]

/-! ## Neighbours -/

/-- The lexemes are runs of one kind: side by side they would be one run. -/
def joins : Lexeme → Lexeme → Bool
  | numeral _, numeral _ => true
  | word _, word _ => true
  | _, _ => false

/-- The lexemes that are made of runs of one kind. -/
def MakesRuns (ofRun : List Char → Lexeme) : Prop := ofRun = numeral ∨ ofRun = word

theorem MakesRuns.chars_eq (h : MakesRuns ofRun) (run : List Char) : (ofRun run).chars = run := by
  rcases h with rfl | rfl <;> rfl

theorem MakesRuns.joins_eq (h : MakesRuns ofRun) (run run' : List Char) :
    (ofRun run).joins = (ofRun run').joins := by
  funext other
  rcases h with rfl | rfl <;> cases other <;> rfl

theorem MakesRuns.attach_eq (h : MakesRuns ofRun) (hc : ofChar c = ofRun [c]) (run : List Char)
    (rest : List Lexeme) : attach c (ofRun run :: rest) = ofRun (c :: run) :: rest := by
  rcases h with rfl | rfl <;> simp [attach, hc]

theorem attach_nil (c : Char) : attach c [] = [ofChar c] := by
  unfold attach
  cases ofChar c <;> rfl

/-- A character that joins no run begins a lexeme. -/
theorem attach_of_apart (h : ∀ first ∈ lexemes.head?, ¬ (ofChar c).joins first) :
    attach c lexemes = ofChar c :: lexemes := by
  rcases lexemes with _ | ⟨first, rest⟩
  · exact attach_nil c
  · have hfirst := h first rfl
    unfold attach
    cases hc : ofChar c <;> cases first <;> first | rfl | exact absurd (by rw [hc]; rfl) hfirst

/-- What a character joins is a run of its kind. -/
theorem exists_run_of_joins (h : (ofChar c).joins first) :
    ∃ ofRun run, MakesRuns ofRun ∧ ofChar c = ofRun [c] ∧ first = ofRun run := by
  have hsingle := chars_ofChar c
  cases hc : ofChar c with
  | symbol d =>
    rw [hc] at h
    cases first <;> cases h
  | numeral single =>
    rw [hc] at h hsingle
    obtain rfl : single = [c] := hsingle
    cases first with
    | numeral run => exact ⟨numeral, run, .inl rfl, rfl, rfl⟩
    | _ => cases h
  | word single =>
    rw [hc] at h hsingle
    obtain rfl : single = [c] := hsingle
    cases first with
    | word run => exact ⟨word, run, .inr rfl, rfl, rfl⟩
    | _ => cases h

/-- A character in front either begins a lexeme or makes the first run longer. -/
theorem attach_cases (c : Char) (lexemes : List Lexeme) :
    (attach c lexemes = ofChar c :: lexemes ∧
      ∀ first ∈ lexemes.head?, ¬ (ofChar c).joins first) ∨
    ∃ ofRun run rest, MakesRuns ofRun ∧ ofChar c = ofRun [c] ∧ lexemes = ofRun run :: rest ∧
      attach c lexemes = ofRun (c :: run) :: rest := by
  by_cases hjoins : ∃ first ∈ lexemes.head?, (ofChar c).joins first
  · obtain ⟨first, hfirst, hjoins⟩ := hjoins
    obtain ⟨rest, rfl⟩ := List.head?_eq_some_iff.mp hfirst
    obtain ⟨ofRun, run, hruns, hc, rfl⟩ := exists_run_of_joins hjoins
    exact .inr ⟨ofRun, run, rest, hruns, hc, rfl, hruns.attach_eq hc run rest⟩
  · have hapart : ∀ first ∈ lexemes.head?, ¬ (ofChar c).joins first :=
      fun first hfirst hc => hjoins ⟨first, hfirst, hc⟩
    exact .inl ⟨attach_of_apart hapart, hapart⟩

/-! ## What cutting makes -/

theorem cut_cons (c : Char) (text : List Char) : cut (c :: text) = attach c (cut text) := rfl

theorem cut_eq_nil_iff : cut text = [] ↔ text = [] := by
  constructor
  · intro h
    rw [← flatMap_chars_cut text, h]
    rfl
  · rintro rfl
    rfl

/-- No lexeme is longer than its text. -/
theorem length_chars_le_of_mem_cut (h : lexeme ∈ cut text) : lexeme.chars.length ≤ text.length := by
  obtain ⟨front, back, hcut⟩ := List.append_of_mem h
  have hwhole := flatMap_chars_cut text
  rw [hcut, List.flatMap_append, List.flatMap_cons] at hwhole
  rw [← hwhole]
  simp only [List.length_append]
  omega

/-- A run holds the characters of its kind. -/
def WellFormed : Lexeme → Prop
  | symbol _ => True
  | numeral run => ∀ c ∈ run, isNumeral c
  | word run => ∀ c ∈ run, Letter.isLetter c

theorem wellFormed_ofChar (c : Char) : (ofChar c).WellFormed := by
  unfold ofChar
  split
  · next hc => simpa [WellFormed] using hc
  · split
    · next hc => simpa [WellFormed] using hc
    · trivial

theorem MakesRuns.wellFormed_cons (h : MakesRuns ofRun) (hc : (ofRun [c]).WellFormed)
    (hrun : (ofRun run).WellFormed) : (ofRun (c :: run)).WellFormed := by
  rcases h with rfl | rfl <;>
    exact List.forall_mem_cons.mpr ⟨hc c (List.mem_singleton_self c), hrun⟩

/-- Cutting makes runs of one kind. -/
theorem wellFormed_cut (text : List Char) : ∀ lexeme ∈ cut text, lexeme.WellFormed := by
  induction text with
  | nil =>
    intro lexeme h
    cases h
  | cons c text ih =>
    rw [cut_cons]
    rcases attach_cases c (cut text) with ⟨hattach, -⟩ | ⟨ofRun, run, rest, hruns, hc, hcut, hattach⟩
    · rw [hattach]
      exact List.forall_mem_cons.mpr ⟨wellFormed_ofChar c, ih⟩
    · rw [hcut] at ih
      obtain ⟨hrun, hrest⟩ := List.forall_mem_cons.mp ih
      rw [hattach]
      exact List.forall_mem_cons.mpr
        ⟨hruns.wellFormed_cons (hc ▸ wellFormed_ofChar c) hrun, hrest⟩

/-- A lexeme has a character. -/
theorem chars_ne_nil_of_mem_cut (h : lexeme ∈ cut text) : lexeme.chars ≠ [] := by
  induction text generalizing lexeme with
  | nil => cases h
  | cons c text ih =>
    rw [cut_cons] at h
    rcases attach_cases c (cut text) with ⟨hattach, -⟩ | ⟨ofRun, run, rest, hruns, -, hcut, hattach⟩
    · rw [hattach] at h
      rcases List.mem_cons.mp h with rfl | h
      · rw [chars_ofChar]
        exact List.cons_ne_nil c []
      · exact ih h
    · rw [hattach] at h
      rcases List.mem_cons.mp h with rfl | h
      · rw [hruns.chars_eq]
        exact List.cons_ne_nil c run
      · exact ih (hcut ▸ List.mem_cons_of_mem _ h)

/-- A symbol is part of no run. -/
theorem ofChar_of_symbol_mem_cut (h : symbol c ∈ cut text) : ofChar c = symbol c := by
  induction text with
  | nil => cases h
  | cons first text ih =>
    rw [cut_cons] at h
    rcases attach_cases first (cut text) with
      ⟨hattach, -⟩ | ⟨ofRun, run, rest, hruns, -, hcut, hattach⟩
    · rw [hattach] at h
      rcases List.mem_cons.mp h with hfirst | h
      · have hchars := chars_ofChar first
        rw [← hfirst] at hchars
        rw [hfirst, ← List.head_eq_of_cons_eq hchars]
      · exact ih h
    · rw [hattach] at h
      rcases List.mem_cons.mp h with hfirst | h
      · rcases hruns with rfl | rfl <;> cases hfirst
      · exact ih (hcut ▸ List.mem_cons_of_mem _ h)

/-- **Runs are as long as possible**: no two lexemes side by side would be one run. -/
theorem isChain_cut (text : List Char) : (cut text).IsChain fun a b => ¬ a.joins b := by
  induction text with
  | nil => exact List.isChain_nil
  | cons c text ih =>
    rw [cut_cons]
    rcases attach_cases c (cut text) with ⟨hattach, hapart⟩ | ⟨ofRun, run, rest, hruns, -, hcut, hattach⟩
    · rw [hattach]
      exact List.isChain_cons.mpr ⟨hapart, ih⟩
    · -- a longer run joins what the run has joined before
      rw [hcut] at ih
      rw [hattach, List.isChain_cons, hruns.joins_eq _ run]
      exact List.isChain_cons.mp ih

/-! ## Lexemes are cut off as a whole -/

/-- A run is cut off as a whole where no run of its kind follows. -/
theorem cut_run_append (hruns : MakesRuns ofRun) (hrun : ∀ c ∈ run, ofChar c = ofRun [c])
    (hne : run ≠ []) (hrest : ∀ first ∈ (cut rest).head?, ¬ (ofRun run).joins first) :
    cut (run ++ rest) = ofRun run :: cut rest := by
  induction run with
  | nil => exact absurd rfl hne
  | cons c run ih =>
    have hc : ofChar c = ofRun [c] := hrun c (List.mem_cons_self ..)
    rw [List.cons_append, cut_cons]
    rcases run with _ | ⟨d, run⟩
    · -- the last character of the run begins a new lexeme
      rw [List.nil_append, attach_of_apart (hc ▸ hrest), hc]
    · rw [hruns.joins_eq _ (d :: run)] at hrest
      rw [ih (fun x hx => hrun x (List.mem_cons_of_mem _ hx)) (List.cons_ne_nil d run) hrest,
        hruns.attach_eq hc]

theorem cut_chars_append (hwell : lexeme.WellFormed) (hne : lexeme.chars ≠ [])
    (hsymbol : ∀ c, lexeme = symbol c → ofChar c = symbol c)
    (hrest : ∀ first ∈ (cut rest).head?, ¬ lexeme.joins first) :
    cut (lexeme.chars ++ rest) = lexeme :: cut rest := by
  cases lexeme with
  | symbol c =>
    have hc := hsymbol c rfl
    rw [chars, List.singleton_append, cut_cons, attach_of_apart (by rwa [hc]), hc]
  | numeral run =>
    exact cut_run_append (.inl rfl) (fun c hc => ofChar_of_isNumeral (hwell c hc)) hne hrest
  | word run =>
    exact cut_run_append (.inr rfl) (fun c hc => ofChar_of_isLetter (hwell c hc)) hne hrest

/-- **There is one way to cut**: lexemes of which no two side by side would be one run are what their
characters are cut into. -/
theorem cut_flatMap_chars (hwell : ∀ lexeme ∈ lexemes, lexeme.WellFormed)
    (hne : ∀ lexeme ∈ lexemes, lexeme.chars ≠ [])
    (hsymbol : ∀ c, symbol c ∈ lexemes → ofChar c = symbol c)
    (hapart : lexemes.IsChain fun a b => ¬ a.joins b) :
    cut (lexemes.flatMap chars) = lexemes := by
  induction lexemes with
  | nil => rfl
  | cons lexeme rest ih =>
    obtain ⟨hnext, hrest⟩ := List.isChain_cons.mp hapart
    have hcut : cut (rest.flatMap chars) = rest :=
      ih (fun l hl => hwell l (List.mem_cons_of_mem _ hl))
        (fun l hl => hne l (List.mem_cons_of_mem _ hl))
        (fun c hc => hsymbol c (List.mem_cons_of_mem _ hc)) hrest
    rw [List.flatMap_cons, cut_chars_append (hwell _ (List.mem_cons_self ..))
      (hne _ (List.mem_cons_self ..)) (fun c hc => hsymbol c (hc ▸ List.mem_cons_self ..))
      (by rwa [hcut]), hcut]

/-! ## Parts of a cut -/

/-- Where one lexeme ends and the next one begins, the text can be cut in two, and the parts are cut
as the whole is. -/
theorem cut_append_of_cut {front back : List Lexeme} (h : cut text = front ++ back) :
    cut (front.flatMap chars) = front ∧ cut (back.flatMap chars) = back := by
  have hwell := wellFormed_cut text
  have hchain := isChain_cut text
  have hne (lexeme : Lexeme) := @chars_ne_nil_of_mem_cut lexeme text
  have hsymbol (c : Char) := @ofChar_of_symbol_mem_cut c text
  rw [h] at hwell hchain hne hsymbol
  constructor
  · exact cut_flatMap_chars (fun l hl => hwell l (List.mem_append_left back hl))
      (fun l hl => hne l (List.mem_append_left back hl))
      (fun c hc => hsymbol c (List.mem_append_left back hc)) hchain.left_of_append
  · exact cut_flatMap_chars (fun l hl => hwell l (List.mem_append_right front hl))
      (fun l hl => hne l (List.mem_append_right front hl))
      (fun c hc => hsymbol c (List.mem_append_right front hc)) hchain.right_of_append

/-- The first lexeme of a text is of the kind of its first character. -/
theorem joins_of_head_cut (hruns : MakesRuns ofRun) (hc : ofChar c = ofRun [c])
    (hfirst : first ∈ (cut (c :: rest)).head?) : (ofRun run).joins first := by
  rw [hruns.joins_eq run [c], ← hc]
  rw [cut_cons] at hfirst
  rcases attach_cases c (cut rest) with ⟨hattach, -⟩ | ⟨ofRun', run', others, hruns', hc', -, hattach⟩
  · rw [hattach] at hfirst
    cases hfirst
    rw [hc]
    rcases hruns with rfl | rfl <;> rfl
  · rw [hattach] at hfirst
    cases hfirst
    rw [hc']
    rcases hruns' with rfl | rfl <;> rfl

/-- The run at the start of a text goes on as long as its characters do. -/
theorem run_eq_takeWhile (hruns : MakesRuns ofRun) {p : Char → Bool}
    (hp : ∀ c, p c → ofChar c = ofRun [c]) (hrun : ∀ c ∈ run, p c)
    (h : cut text = ofRun run :: lexemes) : run = text.takeWhile p := by
  have hsplit : cut text = [ofRun run] ++ lexemes := h
  have hcut : cut (lexemes.flatMap chars) = lexemes := (cut_append_of_cut hsplit).2
  have hapart := (List.isChain_cons.mp (h ▸ isChain_cut text)).1
  have htext : text = run ++ lexemes.flatMap chars := by
    rw [← flatMap_chars_cut text, h, List.flatMap_cons, hruns.chars_eq]
  rw [htext, List.takeWhile_append_of_pos hrun]
  rcases hrest : lexemes.flatMap chars with _ | ⟨c, rest⟩
  · rw [List.takeWhile_nil, List.append_nil]
  · have hc : ¬ p c := by
      intro hc
      rw [hrest] at hcut
      rcases hlexemes : lexemes with _ | ⟨first, others⟩
      · rw [hlexemes] at hrest
        cases hrest
      · rw [hlexemes] at hcut hapart
        exact hapart first rfl (joins_of_head_cut hruns (hp c hc) (by rw [hcut]; rfl))
    rw [List.takeWhile_cons_of_neg hc, List.append_nil]

/-! ## Symbols separate -/

/-- A symbol closes the last run before it. -/
theorem attach_append_symbol (c d : Char) (front back : List Lexeme) :
    attach c (front ++ symbol d :: back) = attach c front ++ symbol d :: back := by
  rcases front with _ | ⟨first, front⟩
  · -- next to the symbol itself there is no run to join
    unfold attach
    cases ofChar c <;> rfl
  · unfold attach
    cases ofChar c <;> cases first <;> rfl

/-- **A symbol separates** what stands before it from what stands behind it. -/
theorem cut_append_symbol (h : ofChar c = symbol c) (front back : List Char) :
    cut (front ++ c :: back) = cut front ++ symbol c :: cut back := by
  induction front with
  | nil =>
    rw [List.nil_append, cut_cons]
    simp [attach, h, cut]
  | cons first front ih =>
    rw [List.cons_append, cut_cons, ih, attach_append_symbol, cut_cons]

end Reckoner.Lexeme
