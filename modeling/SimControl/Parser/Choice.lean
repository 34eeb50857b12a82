/-
Ordered choice: the first parser that matches.

`Parser.attempt` is one pass over the branches at one cursor.  It keeps the
furthest failure of the branches that were tried in vain also when a later branch
matches, because a repetition of choices reports it.
-/
import SimControl.Parser.Basic

namespace SimControl

/-- The end of one pass over the branches of a choice. -/
inductive Attempt (α : Type) where
  /-- A branch matched; `missed` is the furthest failure of those before it. -/
  | hit (m : Match α) (missed : Option Failure)
  /-- No branch matched. -/
  | miss (missed : Option Failure)
  | endless
  deriving DecidableEq, Repr

namespace Parser

variable {α : Type}

/-- Try `branches` in turn at `c`, where `missed` is the furthest failure so far. -/
def attempt (branches : List (Parser α)) (c : Cursor) (missed : Option Failure) : Attempt α :=
  match branches with
  | [] => .miss missed
  | p :: branches =>
      match p.run c with
      | .done m => .hit m missed
      | .failed failure => attempt branches c (Failure.deepest missed (some failure))
      | .endless => .endless

/-- The first of `branches` that matches.  If none does, the failure that got
furthest is reported, the first listed of those that got equally far. -/
def oneOf (branches : List (Parser α)) : Parser α :=
  let description := " | ".intercalate (branches.map Parser.description)
  { description := description
    run := fun c =>
      match attempt branches c none with
      | .hit m _ => .done m
      | .miss (some failure) => .failed failure
      | .miss none => .failed ⟨.uninterpretable description c.peek, c.position⟩
      | .endless => .endless }

theorem oneOf_singleton_run (q : Parser α) (c : Cursor) : (oneOf [q]).run c = q.run c := by
  simp only [oneOf, attempt]
  cases q.run c <;> rfl

end Parser
end SimControl
