/-
The result of running a parser.

Beside success and failure there is a third outcome.  A separated repetition
whose separator and item both match without taking a token goes round for ever;
`Outcome.endless` says so, and every parser built around such a repetition hands
it on.  It keeps the parsers total without inventing an answer for a run that has
none.
-/
import SimControl.Failure

namespace SimControl

inductive Outcome (α : Type) where
  | done (result : α)
  | failed (failure : Failure)
  | endless
  deriving DecidableEq, Repr

namespace Outcome

variable {α β : Type}

/-- Go on with the result of a run that succeeded. -/
def bind (o : Outcome α) (f : α → Outcome β) : Outcome β :=
  match o with
  | done a => f a
  | failed e => failed e
  | endless => endless

def map (f : α → β) (o : Outcome α) : Outcome β := o.bind fun a => done (f a)

/-- Replace the failure of a run that failed. -/
def mapFailure (f : Failure → Failure) : Outcome α → Outcome α
  | failed e => failed (f e)
  | o => o

/-- The outcome of a run that is known to end. -/
def toExcept (o : Outcome α) (ends : o ≠ endless) : Except Failure α :=
  match o, ends with
  | done a, _ => .ok a
  | failed e, _ => .error e

@[simp] theorem bind_done (a : α) (f : α → Outcome β) : (done a).bind f = f a := rfl

@[simp] theorem bind_failed (e : Failure) (f : α → Outcome β) :
    (failed e : Outcome α).bind f = failed e := rfl

@[simp] theorem bind_endless (f : α → Outcome β) : (endless : Outcome α).bind f = endless := rfl

theorem bind_eq_done_iff {o : Outcome α} {f : α → Outcome β} {b : β} :
    o.bind f = done b ↔ ∃ a, o = done a ∧ f a = done b := by
  cases o <;> simp

theorem bind_eq_endless_iff {o : Outcome α} {f : α → Outcome β} :
    o.bind f = endless ↔ o = endless ∨ ∃ a, o = done a ∧ f a = endless := by
  cases o <;> simp

@[simp] theorem map_done (f : α → β) (a : α) : (done a).map f = done (f a) := rfl

@[simp] theorem map_failed (f : α → β) (e : Failure) :
    (failed e : Outcome α).map f = failed e := rfl

@[simp] theorem map_endless (f : α → β) : (endless : Outcome α).map f = endless := rfl

theorem map_eq_failed_iff {o : Outcome α} {f : α → β} {e : Failure} :
    o.map f = failed e ↔ o = failed e := by
  cases o <;> simp

@[simp] theorem mapFailure_done (f : Failure → Failure) (a : α) :
    (done a).mapFailure f = done a := rfl

@[simp] theorem mapFailure_failed (f : Failure → Failure) (e : Failure) :
    (failed e : Outcome α).mapFailure f = failed (f e) := rfl

@[simp] theorem mapFailure_endless (f : Failure → Failure) :
    (endless : Outcome α).mapFailure f = endless := rfl

theorem mapFailure_eq_done_iff {f : Failure → Failure} {o : Outcome α} {a : α} :
    o.mapFailure f = done a ↔ o = done a := by
  cases o <;> simp

theorem mapFailure_eq_endless_iff {f : Failure → Failure} {o : Outcome α} :
    o.mapFailure f = endless ↔ o = endless := by
  cases o <;> simp

theorem toExcept_eq_ok_iff {o : Outcome α} {ends : o ≠ endless} {a : α} :
    o.toExcept ends = .ok a ↔ o = done a := by
  cases o with
  | done b => simp [toExcept]
  | failed e => simp [toExcept]
  | endless => exact absurd rfl ends

theorem toExcept_eq_error_iff {o : Outcome α} {ends : o ≠ endless} {e : Failure} :
    o.toExcept ends = .error e ↔ o = failed e := by
  cases o with
  | done b => simp [toExcept]
  | failed e => simp [toExcept]
  | endless => exact absurd rfl ends

end Outcome

/-- A success: what was read, where it ended, and the furthest failure passed over
on the way. -/
structure Match (α : Type) where
  value : α
  cursor : Cursor
  recovered : Option Failure
  deriving DecidableEq, Repr

namespace Match

variable {α β γ : Type}

def map (f : α → β) (m : Match α) : Match β := ⟨f m.value, m.cursor, m.recovered⟩

/-- Record that `failure` was passed over as well. -/
def recovering (m : Match α) (failure : Option Failure) : Match α :=
  { m with recovered := Failure.deepest m.recovered failure }

/-- Follow `m` by `n`, which started where `m` ended. -/
def andThen (m : Match α) (n : Match β) (f : α → β → γ) : Match γ :=
  ⟨f m.value n.value, n.cursor, Failure.deepest m.recovered n.recovered⟩

/-- Follow a list of values by one more. -/
def push (m : Match (List α)) (n : Match α) : Match (List α) :=
  m.andThen n fun values value => values ++ [value]

end Match
end SimControl
