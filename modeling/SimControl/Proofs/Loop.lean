/-
Loops that are given by their bodies.

A pass through the body of a loop goes round again with a new state, or leaves the loop with a
result.  Nothing in this says that a loop comes to an end.
-/
import Mathlib.Logic.Relation

namespace SimControl

/-- What one pass through the body of a loop comes to. -/
inductive Round (σ ρ : Type) where
  | again (state : σ)
  | exit (result : ρ)

namespace Round

variable {σ ρ : Type} {body : σ → Round σ ρ} {s t : σ} {r : ρ}

/-- Going round, or not even once, leads from one state to the other. -/
def Reaches (body : σ → Round σ ρ) : σ → σ → Prop :=
  Relation.ReflTransGen fun s t => body s = .again t

/-- From `s` the loop comes to a state where it is left with `r`. -/
def Ends (body : σ → Round σ ρ) (s : σ) (r : ρ) : Prop :=
  ∃ t, Reaches body s t ∧ body t = .exit r

/-- From `s` the loop comes to no state where it is left. -/
def Forever (body : σ → Round σ ρ) (s : σ) : Prop :=
  ∀ t, Reaches body s t → ∃ u, body t = .again u

/-- What holds at first and is kept by every round holds of all states that are reached. -/
theorem Reaches.invariant {P : σ → Prop} (hreach : Reaches body s t) (hs : P s)
    (hround : ∀ u v, P u → body u = .again v → P v) : P t := by
  induction hreach with
  | refl => exact hs
  | tail _ hagain ih => exact hround _ _ ih hagain

theorem Ends.of_exit (h : body s = .exit r) : Ends body s r := ⟨s, .refl, h⟩

theorem Ends.of_again (h : body s = .again t) (ht : Ends body t r) : Ends body s r := by
  obtain ⟨u, hreach, hexit⟩ := ht
  exact ⟨u, .head h hreach, hexit⟩

theorem Forever.of_again (h : body s = .again t) (ht : Forever body t) : Forever body s := by
  intro u hu
  rcases Relation.ReflTransGen.cases_head hu with rfl | ⟨v, hv, hreach⟩
  · exact ⟨t, h⟩
  · rw [h] at hv
    obtain rfl := Round.again.inj hv
    exact ht u hreach

theorem Forever.not_ends (h : Forever body s) : ¬ Ends body s r := by
  rintro ⟨t, hreach, hexit⟩
  obtain ⟨u, hagain⟩ := h t hreach
  rw [hexit] at hagain
  cases hagain

/-- A loop that comes to a state from where it goes round for ever does so from the start. -/
theorem Reaches.forever (hreach : Reaches body s t) (ht : Forever body t) : Forever body s := by
  induction hreach using Relation.ReflTransGen.head_induction_on with
  | refl => exact ht
  | head hagain _ ih => exact ih.of_again hagain

end Round

end SimControl
