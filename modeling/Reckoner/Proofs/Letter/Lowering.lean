import Reckoner.Letter.Case

/-!
# Lower-case letters

Lower case is settled after one step: the lower-case form of a letter is a letter, and is its own
lower-case form. Both are facts about the tables, which are checked **run by run** instead of letter by
letter.

* The lower-case forms of a run lie in one range of letters (`CaseRun.lands`).
* They are not among the letters of any run (`CaseRun.avoids`): they lie beside it, or else between its
  letters, which are spaced by two.

So where a word has a single character in lower case, this character is a letter in lower case, and a
variable that is named by it keeps its name when it is read again (`lowerCase_settled`).
-/

namespace Reckoner.Letter

/-! ## Checking runs -/

/-- All code points from `low` to `high` lie in one of some ranges. -/
def spanInRanges (low high : Nat) : List (Nat × Nat) → Bool
  | [] => false
  | (first, last) :: rest => first.ble low && (high.ble last || spanInRanges low high rest)

theorem inRanges_of_span {low high code : Nat} {ranges : List (Nat × Nat)}
    (h : spanInRanges low high ranges) (hlow : low ≤ code) (hhigh : code ≤ high) :
    inRanges code ranges := by
  induction ranges with
  | nil => cases h
  | cons range rest ih =>
    obtain ⟨first, last⟩ := range
    simp only [spanInRanges, Bool.and_eq_true, Bool.or_eq_true, Nat.ble_eq] at h
    obtain ⟨hfirst, hlast | hrest⟩ := h
    · simp [inRanges, Nat.le_trans hfirst hlow, Nat.le_trans hhigh hlast]
    · simp [inRanges, Nat.le_trans hfirst hlow, ih hrest]

namespace CaseRun

/-- The lower-case form of the last letter of the run. -/
def lowerLast (run : CaseRun) : Nat := run.lower + (run.last - run.first)

/-- The lower-case forms of the run are characters, and letters. -/
def lands (run : CaseRun) : Bool :=
  (run.lowerLast.blt 0xd800 || (Nat.blt 0xdfff run.lower && run.lowerLast.blt 0x110000)) &&
    spanInRanges run.lower run.lowerLast letterRanges

/-- No lower-case form of the run is a letter of the other run. -/
def avoids (run other : CaseRun) : Bool :=
  run.lowerLast.blt other.first || other.last.blt run.lower ||
    ((run.step.beq 2 || run.lowerLast.beq run.lower) && other.step.beq 2 &&
      ((run.lower + other.first) % 2).beq 1)

/-- The capital i with a dot, as a run of its own. -/
def dottedI : CaseRun := ⟨'İ'.toNat, 'İ'.toNat, 1, 'i'.toNat⟩

theorem lands_of_mem {run : CaseRun} (h : run ∈ caseRuns) : run.lands := by
  have hall : caseRuns.all lands := by decide +kernel
  exact List.all_eq_true.mp hall run h

theorem avoids_of_mem {run other : CaseRun} (h : run ∈ caseRuns)
    (hother : other ∈ dottedI :: caseRuns) : run.avoids other := by
  have hall : caseRuns.all fun run => (dottedI :: caseRuns).all run.avoids := by decide +kernel
  exact List.all_eq_true.mp (List.all_eq_true.mp hall run h) other hother

variable {run other : CaseRun} {code : Nat}

theorem covers_iff : run.covers code ↔
    run.first ≤ code ∧ code ≤ run.last ∧ (code - run.first) % run.step = 0 := by
  simp [covers, and_assoc]

/-- The lower-case form of a letter of the run is no letter of a run that the run avoids. -/
theorem covers_lower (havoids : run.avoids other) (hcovers : run.covers code) :
    other.covers (run.lower + (code - run.first)) = false := by
  obtain ⟨hfirst, hlast, hstep⟩ := covers_iff.mp hcovers
  rw [Bool.eq_false_iff]
  intro hother
  obtain ⟨hfirst', hlast', hstep'⟩ := covers_iff.mp hother
  simp only [avoids, lowerLast, Bool.or_eq_true, Bool.and_eq_true, Nat.blt_eq, Nat.beq_eq]
    at havoids
  rcases havoids with (hbelow | habove) | ⟨⟨hspaced, hother⟩, hparity⟩
  · omega
  · omega
  · -- both are spaced by two, or there is but one letter, and the two rows never meet
    rw [hother] at hstep'
    have heven : (code - run.first) % 2 = 0 := by
      rcases hspaced with htwo | hsingle
      · rw [htwo] at hstep
        exact hstep
      · omega
    omega

/-- The lower-case form of a letter of the run is a character. -/
theorem isValidChar_lower (hlands : run.lands) (hcovers : run.covers code) :
    (run.lower + (code - run.first)).isValidChar := by
  obtain ⟨hfirst, hlast, -⟩ := covers_iff.mp hcovers
  simp only [lands, lowerLast, Bool.and_eq_true, Bool.or_eq_true, Nat.blt_eq] at hlands
  obtain ⟨hbelow | ⟨habove, hmax⟩, -⟩ := hlands
  · exact .inl (by omega)
  · exact .inr ⟨by omega, by omega⟩

/-- The lower-case form of a letter of the run is a letter. -/
theorem inRanges_lower (hlands : run.lands) (hcovers : run.covers code) :
    inRanges (run.lower + (code - run.first)) letterRanges := by
  obtain ⟨hfirst, hlast, -⟩ := covers_iff.mp hcovers
  rw [lands, Bool.and_eq_true] at hlands
  exact inRanges_of_span hlands.2 (Nat.le_add_right ..)
    (Nat.add_le_add_left (Nat.sub_le_sub_right hlast _) _)

end CaseRun

/-! ## Single letters -/

/-- The character is its own lower-case form, and no capital i with a dot. -/
def IsLower (c : Char) : Prop := ∀ run ∈ CaseRun.dottedI :: caseRuns, run.covers c.toNat = false

/-- What no run covers is its own lower-case form. -/
theorem toLower_of_isLower {c : Char} (h : IsLower c) : toLower c = c := by
  have hnone : caseRuns.find? (·.covers c.toNat) = none := by
    rw [List.find?_eq_none]
    intro run hrun
    rw [h run (List.mem_cons_of_mem _ hrun)]
    exact Bool.false_ne_true
  rw [toLower, hnone]

/-- **One step settles**: the lower-case form of a letter is a letter that is its own lower-case
form. -/
theorem isLower_toLower {c : Char} (hletter : isLetter c) (hdotted : c ≠ 'İ') :
    isLetter (toLower c) ∧ IsLower (toLower c) := by
  rcases hfind : caseRuns.find? (·.covers c.toNat) with _ | run
  · -- no run has the letter, so it is its own lower-case form
    rw [toLower, hfind]
    refine ⟨hletter, ?_⟩
    intro run hrun
    rcases List.mem_cons.mp hrun with rfl | hrun
    · rw [Bool.eq_false_iff]
      intro hcovers
      obtain ⟨hfirst, hlast, -⟩ := CaseRun.covers_iff.mp hcovers
      exact hdotted (Char.toNat_inj.mp (Nat.le_antisymm hlast hfirst))
    · exact Bool.eq_false_iff.mpr (List.find?_eq_none.mp hfind run hrun)
  · have hmem := List.mem_of_find?_eq_some hfind
    have hcovers : run.covers c.toNat := by simpa using List.find?_some hfind
    have hlands := CaseRun.lands_of_mem hmem
    have hcode : (toLower c).toNat = run.lower + (c.toNat - run.first) := by
      rw [toLower, hfind]
      exact congrArg Char.toNat (dif_pos (CaseRun.isValidChar_lower hlands hcovers))
    refine ⟨?_, ?_⟩
    · rw [isLetter, hcode]
      exact CaseRun.inRanges_lower hlands hcovers
    · intro other hother
      rw [hcode]
      exact CaseRun.covers_lower (CaseRun.avoids_of_mem hmem hother) hcovers

/-! ## Words -/

/-- A letter that is its own lower-case form is so as a word. -/
theorem lowerCase_of_isLower {c : Char} (h : IsLower c) : lowerCase [c] = [c] := by
  have hdotted : c ≠ 'İ' := by
    rintro rfl
    exact absurd (h _ (List.mem_cons_self ..)) (by decide)
  have hsigma : c ≠ 'Σ' := by
    rintro rfl
    have hany : caseRuns.any (·.covers 'Σ'.toNat) := by decide
    obtain ⟨run, hrun, hcovers⟩ := List.any_eq_true.mp hany
    exact absurd hcovers (Bool.eq_false_iff.mp (h run (List.mem_cons_of_mem _ hrun)))
  simp [lowerCase, lowerFrom, lowerBetween, hdotted, hsigma, toLower_of_isLower h]

/-- Every letter has a lower-case form. -/
theorem lowerBetween_ne_nil (before after : List Char) (c : Char) :
    lowerBetween before c after ≠ [] := by
  unfold lowerBetween
  split
  · exact List.cons_ne_nil _ _
  · split <;> exact List.cons_ne_nil _ _

/-- **Names are settled**: a word of letters that is a single letter in lower case is read again as
that letter. -/
theorem lowerCase_settled {word : List Char} (hletters : ∀ c ∈ word, isLetter c) {c : Char}
    (h : lowerCase word = [c]) : isLetter c ∧ lowerCase [c] = [c] := by
  rcases word with _ | ⟨first, rest⟩
  · cases h
  · have hfirst : isLetter first := hletters first (List.mem_cons_self ..)
    rw [lowerCase, lowerFrom, List.append_eq_singleton_iff] at h
    rcases h with ⟨hnil, -⟩ | ⟨hlower, hrest⟩
    · exact absurd hnil (lowerBetween_ne_nil _ _ _)
    · obtain rfl : rest = [] := by
        rcases rest with _ | ⟨second, rest⟩
        · rfl
        · rw [lowerFrom, List.append_eq_nil_iff] at hrest
          exact absurd hrest.1 (lowerBetween_ne_nil _ _ _)
      rw [lowerBetween] at hlower
      -- the capital i with a dot has two characters, and a sigma by itself is no final one
      split at hlower
      · cases hlower
      · next hdotted =>
        split at hlower
        · cases hlower
          exact ⟨by decide, by decide⟩
        · cases hlower
          obtain ⟨hletter, hsettled⟩ := isLower_toLower hfirst hdotted
          exact ⟨hletter, lowerCase_of_isLower hsettled⟩

end Reckoner.Letter
