/-
How the parts of a sequence are grouped.

A sequence of any number of parts is read by a loop over a list, and a sequence of two, three or
four by pairs within pairs.  Each of the two adds up what its parts recovered from in its own way.
A part at the end of a list is read as the second half of a pair, and from this one step the loop
and the pairs agree on every outcome, the problem of a failure included.

Pairs may also be nested the other way round.  A match is the same then, because `Failure.deepest`
is associative.  A failure is weighed first against what the parts of its own pair recovered from,
so that of two recovered failures at one place the grouping decides which is reported.  The place
is not affected, as the main statement `sequence_regrouped` says.
-/
import SimControl.Parser.Sequence

namespace SimControl

variable {α β γ δ : Type}

/-! ## Outcomes -/

namespace Outcome

theorem bind_assoc (o : Outcome α) (f : α → Outcome β) (g : β → Outcome γ) :
    (o.bind f).bind g = o.bind fun a => (f a).bind g := by
  cases o <;> rfl

theorem bind_map (o : Outcome α) (f : α → β) (g : β → Outcome γ) :
    (o.map f).bind g = o.bind fun a => g (f a) := by
  cases o <;> rfl

theorem map_bind (o : Outcome α) (f : α → Outcome β) (g : β → γ) :
    (o.bind f).map g = o.bind fun a => (f a).map g := by
  cases o <;> rfl

theorem bind_done_self (o : Outcome α) : o.bind .done = o := by
  cases o <;> rfl

/-- The two runs come to the same, except that they may give different problems at one place. -/
inductive SameUpToProblem : Outcome α → Outcome α → Prop
  | done (a : α) : SameUpToProblem (.done a) (.done a)
  | failed {f g : Failure} (offset : f.offset = g.offset) :
      SameUpToProblem (.failed f) (.failed g)
  | endless : SameUpToProblem .endless .endless

end Outcome

/-- Where a failure is reported does not depend on how the failures before it are grouped. -/
theorem Failure.offset_orRecovered_orRecovered (f : Failure) (a b : Option Failure) :
    ((f.orRecovered b).orRecovered a).offset = (f.orRecovered (deepest a b)).offset := by
  cases a with
  | none => rfl
  | some g =>
    cases b with
    | none => rfl
    | some h =>
      simp only [orRecovered, deepest, offset_furthest]
      omega

namespace Parser

/-! ## Pairs of converted values -/

theorem map_continueWith (m : Match α) (p : Parser β) (f : α → β → γ) (g : γ → δ) :
    (continueWith m p f).map (Match.map g) = continueWith m p fun a b => g (f a b) := by
  simp only [continueWith]
  cases p.run m.cursor <;> rfl

theorem pair_run (p : Parser α) (q : Parser β) (c : Cursor) :
    (p.pair q).run c = (p.run c).bind fun m => continueWith m q Prod.mk := rfl

theorem map_pair_run (p : Parser α) (q : Parser β) (f : α × β → γ) (c : Cursor) :
    ((p.pair q).map f).run c = (p.run c).bind fun m => continueWith m q fun a b => f (a, b) := by
  show ((p.pair q).run c).map (Match.map f) = _
  rw [pair_run, Outcome.map_bind]
  simp only [map_continueWith]

theorem map_map_run (p : Parser α) (f : α → β) (g : β → γ) :
    ((p.map f).map g).run = (p.map fun a => g (f a)).run := by
  funext c
  show ((p.run c).map (Match.map f)).map (Match.map g) = (p.run c).map _
  cases p.run c <;> rfl

/-- What is done with the value of the first half can be done with the pair. -/
theorem map_pair_run_of_map {p : Parser α} {p' : Parser β} {g : β → α}
    (h : p.run = (p'.map g).run) (q : Parser γ) (f : α × γ → δ) :
    ((p.pair q).map f).run = ((p'.pair q).map fun (b, x) => f (g b, x)).run := by
  funext c
  rw [map_pair_run, map_pair_run, h]
  show ((p'.run c).map (Match.map g)).bind _ = _
  rw [Outcome.bind_map]
  rfl

/-! ## Lists of parts -/

theorem sequenceFrom_append (m : Match (List α)) (parts more : List (Parser α)) :
    sequenceFrom m (parts ++ more) = (sequenceFrom m parts).bind (sequenceFrom · more) := by
  induction parts generalizing m with
  | nil => rfl
  | cons p parts ih =>
    rw [List.cons_append, sequenceFrom, sequenceFrom, Outcome.bind_assoc]
    simp only [ih]

/-- The last part of a list is the second half of a pair. -/
theorem sequence_concat_run (parts : List (Parser α)) (p : Parser α) :
    (sequence (parts ++ [p])).run =
      (((sequence parts).pair p).map fun (values, value) => values ++ [value]).run := by
  funext c
  rw [map_pair_run]
  show sequenceFrom ⟨[], c, none⟩ (parts ++ [p]) = (sequenceFrom ⟨[], c, none⟩ parts).bind _
  rw [sequenceFrom_append]
  refine congrArg _ (funext fun m => ?_)
  exact Outcome.bind_done_self _

theorem sequence_singleton_run (p : Parser α) :
    (sequence [p]).run = (p.map fun value => [value]).run := by
  funext c
  show (continueWith ⟨[], c, none⟩ p fun values value => values ++ [value]).bind .done =
    (p.run c).map _
  rw [Outcome.bind_done_self, continueWith]
  cases p.run c <;> rfl

theorem sequence_two_run (p q : Parser α) :
    (sequence [p, q]).run = ((p.pair q).map fun (a, b) => [a, b]).run := by
  rw [show [p, q] = [p] ++ [q] from rfl, sequence_concat_run,
    map_pair_run_of_map (sequence_singleton_run p)]
  rfl

theorem sequence_three_run (p q r : Parser α) :
    (sequence [p, q, r]).run = ((triple p q r).map fun (a, b, c) => [a, b, c]).run := by
  rw [show [p, q, r] = [p, q] ++ [r] from rfl, sequence_concat_run,
    map_pair_run_of_map (sequence_two_run p q), triple, map_map_run]
  rfl

theorem sequence_four_run (p q r s : Parser α) :
    (sequence [p, q, r, s]).run =
      ((quadruple p q r s).map fun (a, b, c, d) => [a, b, c, d]).run := by
  rw [show [p, q, r, s] = [p, q, r] ++ [s] from rfl, sequence_concat_run,
    map_pair_run_of_map (sequence_three_run p q r), quadruple, map_map_run]
  rfl

/-! ## Pairs within pairs -/

theorem pair_pair_run_sameUpToProblem (p : Parser α) (q : Parser β) (r : Parser γ) (c : Cursor) :
    (((p.pair q).pair r).run c).SameUpToProblem
      (((p.pair (q.pair r)).map fun (x, y, z) => ((x, y), z)).run c) := by
  rw [map_pair_run, pair_run, pair_run, Outcome.bind_assoc]
  cases p.run c with
  | endless => exact .endless
  | failed f => exact .failed rfl
  | done m =>
    simp only [Outcome.bind_done, continueWith, pair_run]
    cases q.run m.cursor with
    | endless => exact .endless
    | failed f => exact .failed rfl
    | done n =>
      simp only [Outcome.bind_done, Outcome.map_done, Outcome.mapFailure_done, Match.andThen]
      cases r.run n.cursor with
      | endless => exact .endless
      | failed f =>
        -- The one place where the problems may differ: two recovered failures and one that ends.
        exact .failed (f.offset_orRecovered_orRecovered m.recovered n.recovered).symm
      | done o =>
        simp only [Outcome.map_done, Outcome.mapFailure_done, Failure.deepest_assoc]
        exact .done _

/-- A list of three or four parts is read as the nested pairs read them, up to the form of the
value.  Three parts in two pairs are read alike however the pairs are nested, up to the problem
that is reported at the place of a failure. -/
theorem sequence_regrouped (a b c d : Parser α) (p : Parser β) (q : Parser γ) (r : Parser δ)
    (cursor : Cursor) :
    (sequence [a, b, c]).run cursor =
        ((triple a b c).map fun (x, y, z) => [x, y, z]).run cursor ∧
      (sequence [a, b, c, d]).run cursor =
        ((quadruple a b c d).map fun (x, y, z, w) => [x, y, z, w]).run cursor ∧
      (((p.pair q).pair r).run cursor).SameUpToProblem
        (((p.pair (q.pair r)).map fun (x, y, z) => ((x, y), z)).run cursor) :=
  ⟨congrFun (sequence_three_run a b c) cursor, congrFun (sequence_four_run a b c d) cursor,
    pair_pair_run_sameUpToProblem p q r cursor⟩

/-- Two optional parts give up at one place.  The pair of the first two reports the first of them,
the pair of the last two the second. -/
example :
    (((keyword "x" (literal "a" 1)).optional.pair (keyword "x" (literal "b" 2)).optional).pair
        (literal "z" 3)).run (.start ["x", "y"]) =
      .failed ⟨.uninterpretable "'a'" (some "y"), 1⟩ ∧
    ((keyword "x" (literal "a" 1)).optional.pair
        ((keyword "x" (literal "b" 2)).optional.pair (literal "z" 3))).run (.start ["x", "y"]) =
      .failed ⟨.uninterpretable "'b'" (some "y"), 1⟩ := by
  decide +kernel

end Parser
end SimControl
