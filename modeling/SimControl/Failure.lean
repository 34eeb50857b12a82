/-
What stopped a parser, and where.

Several failures compete for being reported: those of the branches of a choice,
and those that an optional part or a repetition has recovered from.  They are
ranked by their offset alone, and of two failures at one offset the earlier one
is kept.
-/
import SimControl.Cursor
import SimControl.Objection

namespace SimControl

inductive Problem where
  /-- The token, or the end of the input, is not what was expected here. -/
  | uninterpretable (expected : String) (actual : Option Token)
  /-- The token was understood and refused. -/
  | objection (reason : Objection)
  /-- Tokens are left over after everything expected was read. -/
  | leftover (tokens : List Token)
  deriving DecidableEq, Repr

/-- The sentence that tells a user of the problem. -/
def Problem.message : Problem → String
  | .uninterpretable expected (some token) =>
      "Could not interpret '" ++ token ++ "' as " ++ expected ++ "."
  | .uninterpretable expected none =>
      "Could not interpret the end of input as " ++ expected ++ "."
  | .objection reason => reason.message
  | .leftover tokens => "Unconsumed input: " ++ " ".intercalate tokens ++ "."

/-- A problem and the index of the token that it is about. -/
structure Failure where
  problem : Problem
  offset : Nat
  deriving DecidableEq, Repr

namespace Failure

/-- The failure that got further, `a` if neither did. -/
def furthest (a b : Failure) : Failure := if a.offset < b.offset then b else a

/-- The failure to report for `f` when `recovered` was passed over before it: a
recovered failure is the better diagnosis only if it got further. -/
def orRecovered (f : Failure) : Option Failure → Failure
  | some recovered => f.furthest recovered
  | none => f

/-- The further of two failures either of which may be absent. -/
def deepest : Option Failure → Option Failure → Option Failure
  | some a, some b => some (a.furthest b)
  | some a, none => some a
  | none, b => b

theorem offset_furthest (a b : Failure) : (a.furthest b).offset = max a.offset b.offset := by
  unfold furthest
  split <;> omega

theorem furthest_assoc (a b c : Failure) :
    (a.furthest b).furthest c = a.furthest (b.furthest c) := by
  simp only [furthest]
  grind

/-- A failure is kept where what was recovered from did not get further. -/
theorem orRecovered_eq_self {f : Failure} {recovered : Option Failure}
    (h : ∀ g ∈ recovered, g.offset ≤ f.offset) : f.orRecovered recovered = f := by
  cases recovered with
  | none => rfl
  | some g => exact if_neg (Nat.not_lt.mpr (h g rfl))

/-! What is kept of several failures is one of them. -/

section Kept

variable {P : Failure → Prop} {f g : Failure} {a b : Option Failure}

theorem furthest_of (hf : P f) (hg : P g) : P (f.furthest g) := by
  unfold furthest
  by_cases h : f.offset < g.offset
  · rw [if_pos h]
    exact hg
  · rw [if_neg h]
    exact hf

theorem orRecovered_of (hf : P f) (ha : ∀ g ∈ a, P g) : P (f.orRecovered a) := by
  cases a with
  | none => exact hf
  | some g => exact furthest_of hf (ha g rfl)

theorem forall_mem_none : ∀ f ∈ (none : Option Failure), P f := fun _ h => nomatch h

theorem forall_mem_some (hf : P f) : ∀ g ∈ some f, P g := by
  intro g hg
  obtain rfl := Option.some.inj hg
  exact hf

theorem forall_mem_deepest (ha : ∀ f ∈ a, P f) (hb : ∀ f ∈ b, P f) : ∀ f ∈ deepest a b, P f := by
  cases a with
  | none => exact hb
  | some f =>
    cases b with
    | none => exact ha
    | some g => exact forall_mem_some (furthest_of (ha f rfl) (hb g rfl))

end Kept

@[simp] theorem deepest_none_right (a : Option Failure) : deepest a none = a := by
  cases a <;> rfl

@[simp] theorem deepest_none_left (a : Option Failure) : deepest none a = a := rfl

/-- Passing over several failures in turn keeps the same one however they are
grouped. -/
theorem deepest_assoc (a b c : Option Failure) :
    deepest (deepest a b) c = deepest a (deepest b c) := by
  cases a <;> cases b <;> cases c <;> simp [deepest, furthest_assoc]

end Failure
end SimControl
