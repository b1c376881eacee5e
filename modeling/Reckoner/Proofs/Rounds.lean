import Mathlib.Logic.Relation
import Mathlib.Order.OrderIsoNat

/-!
# Rounds

A computation on a state may work in **rounds**. A round goes on with another state, or ends the run
with an outcome, or is **stuck**, because it does not find what it needs.

* What every round keeps, holds in all states of a run (`Round.Reaches.keeps`).
* Rounds that lower a weight do not go on forever (`Round.not_endless`), and so a run comes to a last
  state (`Round.exists_last`).
* Rounds **follow** another computation if they reach a state that its result marks, or end with its
  error (`Round.Follows`). This can be shown part by part, along the sequence of the other computation
  (`Round.Follows.bind`).
-/

namespace Reckoner

/-- What a round leads to. -/
inductive Round (State Outcome : Type) where
  /-- the run goes on in this state -/
  | goesOn (next : State)
  /-- the run ends with an outcome -/
  | ends (outcome : Outcome)
  /-- the round does not find what it needs -/
  | stuck

namespace Round

variable {State Outcome ε α β γ : Type}

/-! ## Rounds that compute -/

/-- A round goes on with the result of a computation, or ends with its error. -/
def resume (next : α → State) : Except ε α → Round State (Except ε γ)
  | .ok a => .goesOn (next a)
  | .error error => .ends (.error error)

section Resume

variable {g : α → State} {computed : Except ε α}

theorem resume_eq_goesOn {next : State}
    (h : (resume g computed : Round State (Except ε γ)) = .goesOn next) :
    ∃ a, computed = .ok a ∧ next = g a := by
  rcases computed with error | a
  · cases h
  · cases h
    exact ⟨a, rfl, rfl⟩

theorem resume_ne_stuck (g : α → State) (computed : Except ε α) :
    (resume g computed : Round State (Except ε γ)) ≠ .stuck := by
  rcases computed with error | a <;> exact nofun

theorem resume_ne_ends_ok (g : α → State) (computed : Except ε α) (outcome : γ) :
    resume g computed ≠ .ends (.ok outcome) := by
  rcases computed with error | a <;> exact nofun

end Resume

/-! ## Runs -/

/-- Some rounds lead from the first state to the second one. -/
def Reaches (round : State → Round State Outcome) : State → State → Prop :=
  Relation.ReflTransGen fun s next => round s = .goesOn next

section Runs

variable {round : State → Round State Outcome} {s next : State}

/-- **What every round keeps** holds in all states of a run. -/
theorem Reaches.keeps {I : State → Prop}
    (hround : ∀ s next, round s = .goesOn next → I s → I next) (h : Reaches round s next)
    (hs : I s) : I next := by
  induction h with
  | refl => exact hs
  | tail _ hnext ih => exact hround _ _ hnext ih

variable {weight : State → Nat}

/-- **Rounds that lower a weight do not go on forever.** -/
theorem not_endless (hlower : ∀ s next, round s = .goesOn next → weight next < weight s)
    (states : Nat → State) : ¬ ∀ n, round (states n) = .goesOn (states (n + 1)) :=
  fun h => not_strictAnti_of_wellFoundedLT (fun n => weight (states n))
    (strictAnti_nat_of_succ_lt fun n => hlower _ _ (h n))

/-- A run whose rounds lower a weight comes to a last state. -/
theorem exists_last (hlower : ∀ s next, round s = .goesOn next → weight next < weight s)
    (s : State) : ∃ last, Reaches round s last ∧ ∀ next, round last ≠ .goesOn next := by
  induction hweight : weight s using Nat.strong_induction_on generalizing s with
  | _ bound ih =>
    by_cases hstops : ∀ next, round s ≠ .goesOn next
    · exact ⟨s, .refl, hstops⟩
    · obtain ⟨next, hround⟩ := not_forall_not.mp hstops
      obtain ⟨last, hreaches, hlast⟩ := ih (weight next) (hweight ▸ hlower s next hround) next rfl
      exact ⟨last, .head hround hreaches, hlast⟩

end Runs

/-! ## Rounds that follow a computation -/

/-- The rounds from a state follow a computation: they reach a state that its result marks, or end with
its error. -/
def Follows (round : State → Round State (Except ε γ)) (marks : α → State → Prop) (s : State) :
    Except ε α → Prop
  | .ok a => ∃ last, Reaches round s last ∧ marks a last
  | .error error => ∃ last, Reaches round s last ∧ round last = .ends (.error error)

section Follows

variable {round : State → Round State (Except ε γ)} {marks : α → State → Prop}
  {marks' : β → State → Prop} {s next : State} {computed : Except ε α}

theorem Follows.ok {a : α} (h : marks a s) : Follows round marks s (.ok a) := ⟨s, .refl, h⟩

theorem Follows.error {error : ε} (h : round s = .ends (.error error)) :
    Follows round marks s (.error error) := ⟨s, .refl, h⟩

theorem Follows.of_reaches (hreaches : Reaches round s next)
    (h : Follows round marks next computed) : Follows round marks s computed := by
  rcases computed with error | a
  · obtain ⟨last, hlast, hends⟩ := h
    exact ⟨last, hreaches.trans hlast, hends⟩
  · obtain ⟨last, hlast, hmarks⟩ := h
    exact ⟨last, hreaches.trans hlast, hmarks⟩

theorem Follows.head (hround : round s = .goesOn next) (h : Follows round marks next computed) :
    Follows round marks s computed :=
  h.of_reaches (.single hround)

/-- **Rounds that follow one computation and then another one** follow both. -/
theorem Follows.bind {f : α → Except ε β} (h : Follows round marks s computed)
    (hf : ∀ a last, marks a last → Follows round marks' last (f a)) :
    Follows round marks' s (computed >>= f) := by
  rcases computed with error | a
  · exact h
  · obtain ⟨last, hreaches, hmarks⟩ := h
    exact (hf a last hmarks).of_reaches hreaches

/-- Rounds that follow a computation up to the round that ends with its result end with its outcome. -/
theorem Follows.exists_last {computed : Except ε γ}
    (h : Follows round (fun a last => round last = .ends (.ok a)) s computed) :
    ∃ last, Reaches round s last ∧ round last = .ends computed := by
  rcases computed with error | a
  · exact h
  · exact h

/-- A round that computes follows what it computes. -/
theorem follows_resume {g : α → State} (hround : round s = .resume g computed) :
    Follows round (fun a last => last = g a) s computed := by
  rcases computed with error | a
  · exact .error hround
  · exact .head hround (.ok rfl)

end Follows

end Round

end Reckoner
