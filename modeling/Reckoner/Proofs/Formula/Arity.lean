import Reckoner.Proofs.Formula.Inputs

/-!
# How many inputs a formula needs

The count that a formula gives (`Formula.variableCount`) is not taken from its leaves: it is the
number that was recorded in its outermost binary node, or one more than the index of its only
variable. For a formula that has been compiled it is nevertheless exact.

* A tree that is numbered from the start records **all variables seen** at its end
  (`Expr.variableCount_indexed`), wherever the outermost binary node is.
* Its indices are **dense**: they are exactly the numbers below that count
  (`Expr.Numbered.mem_indices_iff`).
* Evaluation **visits every leaf**, so it succeeds only where all indices have inputs
  (`Expr.lt_length_of_value`). Where they have, no input is missing (`Expr.supplied_value`), and
  what lies beyond them is not looked at (`Expr.value_take`).
-/

namespace Reckoner

/-! ## Outcomes that miss no input -/

/-- The outcome is no failure for want of an input. -/
def Supplied {α : Type} (outcome : Except EvalError α) : Prop :=
  ∀ name index provided, outcome ≠ .error (.missingInput name index provided)

theorem supplied_ok {α : Type} (a : α) : Supplied (.ok a) := fun _ _ _ => nofun

theorem Supplied.bind {α β : Type} {outcome : Except EvalError α} {f : α → Except EvalError β}
    (h : Supplied outcome) (hnext : ∀ a, Supplied (f a)) : Supplied (outcome >>= f) := by
  rcases outcome with error | a
  · intro name index provided hmissing
    cases hmissing
    exact h name index provided rfl
  · exact hnext a

theorem Operator.supplied_toBinary64 (operator : Operator) (value : Decimal) :
    Supplied (operator.toBinary64 value) := by
  unfold toBinary64
  split <;> exact fun _ _ _ => nofun

theorem Operator.supplied_ofBinary64 (operator : Operator) (result : Option Binary64) :
    Supplied (operator.ofBinary64 result) := by
  unfold ofBinary64
  split <;> exact fun _ _ _ => nofun

theorem UnaryOp.supplied_throughBinary64 (op : UnaryOp) (f : Binary64 → Option Binary64)
    (value : Decimal) : Supplied (op.throughBinary64 f value) :=
  (Operator.supplied_toBinary64 _ value).bind fun x => Operator.supplied_ofBinary64 _ (f x)

theorem UnaryOp.supplied_logarithm (op : UnaryOp) (f : Binary64 → Option Binary64)
    (value : Decimal) : Supplied (op.logarithm f value) := by
  unfold logarithm
  split
  · exact op.supplied_throughBinary64 f value
  · exact fun _ _ _ => nofun

/-- A unary operator has its operand. -/
theorem UnaryOp.supplied_apply (op : UnaryOp) (value : Decimal) : Supplied (op.apply value) := by
  cases op with
  | negate => exact supplied_ok _
  | abs => exact supplied_ok _
  | acatan => exact fun _ _ _ => nofun
  | sqrt =>
    rw [apply]
    split
    · exact fun _ _ _ => nofun
    · exact supplied_throughBinary64 sqrt _ value
  | ln => exact supplied_logarithm ln _ value
  | lg => exact supplied_logarithm lg _ value
  | _ => exact supplied_throughBinary64 _ _ value

theorem BinaryOp.supplied_power (base exponent : Decimal) : Supplied (power base exponent) := by
  refine (Operator.supplied_toBinary64 _ base).bind fun b =>
    (Operator.supplied_toBinary64 _ exponent).bind fun e => ?_
  split
  · exact fun _ _ _ => nofun
  · exact Operator.supplied_ofBinary64 _ (b.pow? e)

/-- A binary operator has its operands. -/
theorem BinaryOp.supplied_apply (divisionScale : Int) (op : BinaryOp) (left right : Decimal) :
    Supplied (op.apply divisionScale left right) := by
  cases op with
  | pow => exact supplied_power left right
  | div =>
    rw [apply]
    split
    · exact fun _ _ _ => nofun
    · split <;> exact fun _ _ _ => nofun
  | rem =>
    rw [apply]
    split <;> exact fun _ _ _ => nofun
  | _ => exact supplied_ok _

/-! ## The indices of a tree -/

namespace Expr

/-- The indices of the variables from left to right. -/
def indices : Expr → List Nat
  | number _ => []
  | var _ index => [index]
  | unary _ operand => operand.indices
  | binary _ left right _ => left.indices ++ right.indices

/-- Numbering an expression never makes the count smaller. -/
theorem count_le_indexed (e : Expr) (known : Variables) :
    known.count ≤ (e.indexed known).2.count := by
  rw [← Variables.length_names, ← Variables.length_names]
  exact (names_prefix_indexed e known).length_le

/-- Every index of a numbered tree is the index of a variable that has been seen at its end. -/
theorem lt_of_mem_indices (e : Expr) {known : Variables} {i : Nat} (hknown : known.Dense)
    (h : i ∈ (e.indexed known).1.indices) : i < (e.indexed known).2.count := by
  induction e generalizing known with
  | number value => cases h
  | var name index =>
    obtain rfl := List.mem_singleton.mp h
    exact (hknown.see name).lt_count (known.index?_see name)
  | unary op operand ih => exact ih hknown h
  | binary op left right seen ihl ihr =>
    rcases List.mem_append.mp h with h | h
    · exact (ihl hknown h).trans_le (count_le_indexed right _)
    · exact ihr (dense_indexed hknown left) h

/-- Every variable that is seen in a tree for the first time gives its index to a leaf. -/
theorem mem_indices_of_lt (e : Expr) {known : Variables} {i : Nat} (hnew : known.count ≤ i)
    (h : i < (e.indexed known).2.count) : i ∈ (e.indexed known).1.indices := by
  induction e generalizing known with
  | number value => exact absurd hnew (Nat.not_le_of_lt h)
  | var name index =>
    by_cases hname : name ∈ known.names
    · have hsame : known.see name = known := Variables.see_of_mem hname
      exact absurd hnew (Nat.not_le_of_lt (hsame ▸ h))
    · -- a new name gets the first free index
      have hindex : (known.index name).1 = known.count := Variables.index_of_notMem hname
      have hcount : (known.see name).count = known.count + 1 := by
        rw [Variables.see_of_notMem hname, Variables.count_insert_of_notMem hname]
      have hlt : i < (known.see name).count := h
      have heq : i = (known.index name).1 := by omega
      exact List.mem_singleton.mpr heq
  | unary op operand ih => exact ih hnew h
  | binary op left right seen ihl ihr =>
    refine List.mem_append.mpr ?_
    by_cases hleft : i < (left.indexed known).2.count
    · exact .inl (ihl hnew hleft)
    · exact .inr (ihr (Nat.le_of_not_lt hleft) h)

/-- **The count of a tree that is numbered from the start** is the number of variables in it. -/
theorem variableCount_indexed (e : Expr) :
    (e.indexed Variables.empty).1.variableCount = (e.indexed Variables.empty).2.count := by
  induction e with
  | number value => rfl
  | var name index => rfl
  | unary op operand ih => exact ih
  | binary op left right seen ihl ihr => rfl

theorem Numbered.variableCount_eq {e : Expr} {known : Variables}
    (h : e.Numbered Variables.empty known) : e.variableCount = known.count := by
  have hcount := e.variableCount_indexed
  rwa [h.fst_eq, h.snd_eq] at hcount

/-- **The indices of a tree that is numbered from the start** are the numbers below its count. -/
theorem Numbered.mem_indices_iff {e : Expr} {known : Variables} {i : Nat}
    (h : e.Numbered Variables.empty known) : i ∈ e.indices ↔ i < e.variableCount := by
  have hindexed : i ∈ (e.indexed Variables.empty).1.indices ↔
      i < (e.indexed Variables.empty).2.count :=
    ⟨e.lt_of_mem_indices Variables.dense_empty, e.mem_indices_of_lt (Nat.zero_le i)⟩
  rw [h.variableCount_eq]
  rwa [h.fst_eq, h.snd_eq] at hindexed

/-! ## Values and indices -/

variable {divisionScale : Int} {inputs : List Decimal} {e : Expr} {d : Decimal} {n : Nat}

/-- Where all indices have inputs, none is missing. -/
theorem supplied_value (h : ∀ i ∈ e.indices, i < inputs.length) :
    Supplied (e.value divisionScale inputs) := by
  induction e with
  | number value => exact supplied_ok value
  | var name index =>
    have hlt : index < inputs.length := h index (List.mem_singleton.mpr rfl)
    rw [value, inputAt, List.getElem?_eq_getElem hlt]
    exact supplied_ok _
  | unary op operand ih => exact (ih h).bind op.supplied_apply
  | binary op left right seen ihl ihr =>
    have hleft := ihl fun i hi => h i (List.mem_append_left _ hi)
    have hright := ihr fun i hi => h i (List.mem_append_right _ hi)
    exact hleft.bind fun a => hright.bind fun b => op.supplied_apply divisionScale a b

/-- Inputs beyond all indices are not looked at. -/
theorem value_take (h : ∀ i ∈ e.indices, i < n) (hn : n ≤ inputs.length) :
    e.value divisionScale (inputs.take n) = e.value divisionScale inputs := by
  induction e with
  | number value => rfl
  | var name index =>
    have hlt : index < n := h index (List.mem_singleton.mpr rfl)
    simp only [value, inputAt, List.getElem?_take_of_lt hlt,
      List.getElem?_eq_getElem (hlt.trans_le hn)]
  | unary op operand ih => rw [value, value, ih h]
  | binary op left right seen ihl ihr =>
    rw [value, value, ihl fun i hi => h i (List.mem_append_left _ hi),
      ihr fun i hi => h i (List.mem_append_right _ hi)]

/-- **Evaluation visits every leaf**: where there is a value, all indices have inputs. -/
theorem lt_length_of_value (h : e.value divisionScale inputs = .ok d) :
    ∀ i ∈ e.indices, i < inputs.length := by
  induction e generalizing d with
  | number value => exact fun i hi => absurd hi List.not_mem_nil
  | var name index =>
    intro i hi
    obtain rfl := List.mem_singleton.mp hi
    by_contra hge
    rw [value, inputAt, List.getElem?_eq_none (Nat.le_of_not_lt hge)] at h
    cases h
  | unary op operand ih =>
    obtain ⟨a, ha, -⟩ := bind_eq_ok.mp h
    exact ih ha
  | binary op left right seen ihl ihr =>
    obtain ⟨a, ha, hrest⟩ := bind_eq_ok.mp h
    obtain ⟨b, hb, -⟩ := bind_eq_ok.mp hrest
    intro i hi
    rcases List.mem_append.mp hi with hi | hi
    · exact ihl ha i hi
    · exact ihr hb i hi

end Expr

namespace Formula

variable {text : String} {formula : Formula}

/-- **Arity**: the count of a formula that has been compiled is the number of distinct names among
the tokens of its text. With at least that many inputs no input is missing, and those beyond it do
not matter; with fewer inputs there is no value. -/
theorem arity_exact (h : compile text = .ok formula) :
    (∃ tokens, Token.scan text = .ok tokens ∧
      formula.variableCount = (tokens.filterMap Token.name?).toFinset.card) ∧
    ∀ inputs : List Decimal,
      (formula.variableCount ≤ inputs.length →
        (∀ name index provided,
          formula.evaluate inputs ≠ .error (.missingInput name index provided)) ∧
        formula.evaluate inputs = formula.evaluate (inputs.take formula.variableCount)) ∧
      (inputs.length < formula.variableCount → ∀ d, formula.evaluate inputs ≠ .ok d) := by
  obtain ⟨tokens, hscan, hparse, -⟩ := compile_eq_ok.mp h
  obtain ⟨-, known, hnumbered⟩ := Expr.conserved_of_ofTokens hparse
  have hcount : formula.variableCount = known.count := hnumbered.variableCount_eq
  have hindices : ∀ i, i ∈ formula.root.indices ↔ i < formula.variableCount := fun _ =>
    hnumbered.mem_indices_iff
  refine ⟨⟨tokens, hscan, ?_⟩, fun inputs => ⟨fun henough => ⟨?_, ?_⟩, fun hfew d hd => ?_⟩⟩
  · rw [Expr.Numbered] at hnumbered
    rw [hcount, ← names_of_ofTokens hparse, ← Variables.count_seeAll, ← Expr.indexed_snd, hnumbered]
  · rw [evaluate_eq_value]
    exact Expr.supplied_value fun i hi => ((hindices i).mp hi).trans_le henough
  · rw [evaluate_eq_value, evaluate_eq_value,
      Expr.value_take (fun i => (hindices i).mp) henough]
  · -- the first index that has no input is the index of some leaf
    rw [evaluate_eq_value] at hd
    have hleaf := (hindices inputs.length).mpr hfew
    exact absurd (Expr.lt_length_of_value hd _ hleaf) (Nat.lt_irrefl _)

/-- Both operators stand behind all operands, and `a` is not in the operand that the outermost one
takes first. -/
theorem arity_exact_postfix :
    let formula : Formula :=
      ⟨.binary .sub (.var "b" 0) (.binary .mul (.number ⟨3, 0⟩) (.var "a" 1) 2) 2, {}⟩
    compile "b3a-*" = .ok formula ∧
      formula.evaluate [⟨7, 0⟩, ⟨2, 0⟩, ⟨9, 0⟩] = formula.evaluate [⟨7, 0⟩, ⟨2, 0⟩] ∧
      ∀ d, formula.evaluate [⟨7, 0⟩] ≠ .ok d := by
  intro formula
  have hcompile : compile "b3a-*" = .ok formula := rfl
  obtain ⟨-, hinputs⟩ := arity_exact hcompile
  exact ⟨hcompile, ((hinputs [⟨7, 0⟩, ⟨2, 0⟩, ⟨9, 0⟩]).1 (by decide)).2,
    (hinputs [⟨7, 0⟩]).2 (by decide)⟩

end Formula

end Reckoner
