/-
What a minimum does to a repetition.

A repetition does not look at its minimum before it has come to its end, and then it only
refuses.  So the matches of a repetition with a minimum are those of the repetition without one
that are long enough, and they are the same in all: in the values, in the place where they end
and in what was recovered from.  That the refusal is decided at several exits and with different
failures does not matter to them.

The main statement is `minimum_filters`.  It holds of the recursions whatever the parser does; that
these are the loops which ask for the place takes a parser that does not move back
(`ends_repeatRound`, `ends_scanRound`, `ends_separatedRound`).
-/
import SimControl.Parser.Gather
import SimControl.Proofs.Interleaved

namespace SimControl
namespace Parser

variable {α β γ : Type} {p : Parser α} {separator : Parser β} {minimum fewer : Nat} {c : Cursor}

theorem atLeast_run_eq_done_iff_many {r : Match (List α)} :
    (atLeast minimum p).run c = .done r ↔
      (many p).run c = .done r ∧ minimum ≤ r.value.length := by
  rw [many, atLeast_run_eq_done_iff, atLeast_run_eq_done_iff]
  constructor
  · rintro ⟨found, stopped, hfound, henough, hvalue, hrecovered⟩
    refine ⟨⟨found, stopped, hfound, Nat.zero_le _, hvalue, hrecovered⟩, ?_⟩
    rw [hvalue, List.length_map]
    exact henough
  · rintro ⟨⟨found, stopped, hfound, _, hvalue, hrecovered⟩, henough⟩
    rw [hvalue, List.length_map] at henough
    exact ⟨found, stopped, hfound, henough, hvalue, hrecovered⟩

theorem separated_run_eq_done_iff_zero {r : Match (List α)} :
    (separated minimum p separator).run c = .done r ↔
      (separated 0 p separator).run c = .done r ∧ minimum ≤ r.value.length := by
  rw [separated_run_eq_done_iff_items, separated_run_eq_done_iff_items]
  constructor
  · rintro ⟨items, separators, stopped, hitems, henough, hvalue, hrecovered⟩
    refine ⟨⟨items, separators, stopped, hitems, Nat.zero_le _, hvalue, hrecovered⟩, ?_⟩
    rw [hvalue, List.length_map]
    exact henough
  · rintro ⟨⟨items, separators, stopped, hitems, _, hvalue, hrecovered⟩, henough⟩
    rw [hvalue, List.length_map] at henough
    exact ⟨items, separators, stopped, hitems, henough, hvalue, hrecovered⟩

section Gather

variable [Accumulator γ] {parts : List (Parser γ)} {r : Match γ}

theorem gather_run_eq_done_iff :
    (gather minimum parts).run c = .done r ↔
      ∃ s, scan parts c = some s ∧ minimum ≤ s.count ∧ s.found.recovering s.missed = r := by
  simp only [gather]
  cases scan parts c with
  | none => simp
  | some s =>
    by_cases hfew : s.count < minimum
    · simp [hfew]
    · simp [hfew, Nat.not_lt.mp hfew]

/-- The scan is the same for every minimum, and it counts what it has found. -/
theorem gather_run_of_le (h : (gather minimum parts).run c = .done r) (hfewer : fewer ≤ minimum) :
    (gather fewer parts).run c = .done r := by
  obtain ⟨s, hs, henough, hr⟩ := gather_run_eq_done_iff.mp h
  exact gather_run_eq_done_iff.mpr ⟨s, hs, Nat.le_trans hfewer henough, hr⟩

end Gather

/-- With a minimum the repetitions have the matches that they have without it and that hold as
many values.  What is gathered with a minimum is gathered with every smaller one too. -/
theorem minimum_filters [Accumulator γ] (p : Parser α) (separator : Parser β)
    (parts : List (Parser γ)) (minimum : Nat) (c : Cursor) :
    (∀ r, (atLeast minimum p).run c = .done r ↔
        (atLeast 0 p).run c = .done r ∧ minimum ≤ r.value.length) ∧
      (∀ r, (separated minimum p separator).run c = .done r ↔
        (separated 0 p separator).run c = .done r ∧ minimum ≤ r.value.length) ∧
      ∀ r, (gather minimum parts).run c = .done r →
        ∀ fewer ≤ minimum, (gather fewer parts).run c = .done r :=
  ⟨fun _ => atLeast_run_eq_done_iff_many, fun _ => separated_run_eq_done_iff_zero,
    fun _ h _ hfewer => gather_run_of_le h hfewer⟩

/-- Two values in front of a token that is none, by each of the three. -/
theorem minimum_filters_two :
    ∃ m n r, (atLeast 2 (literal "a" 1)).run (.start ["a", "a", "x"]) = .done m ∧
      (separated 2 (literal "a" 1) (literal "," ()).optional).run (.start ["a", "a", "x"]) =
        .done n ∧
      (gather 2 [literal "a" ["a"]]).run (.start ["a", "a", "x"]) = .done r ∧ 1 ≤ 2 ∧
      (atLeast 0 (literal "a" 1)).run (.start ["a", "a", "x"]) = .done m ∧
      (separated 0 (literal "a" 1) (literal "," ()).optional).run (.start ["a", "a", "x"]) =
        .done n ∧
      (gather 1 [literal "a" ["a"]]).run (.start ["a", "a", "x"]) = .done r := by
  have hm : (atLeast 2 (literal "a" 1)).run (.start ["a", "a", "x"]) =
      .done ⟨[1, 1], ⟨2, ["x"]⟩, some ⟨.uninterpretable "'a'" (some "x"), 2⟩⟩ := by
    decide +kernel
  have hn : (separated 2 (literal "a" 1) (literal "," ()).optional).run
      (.start ["a", "a", "x"]) =
        .done ⟨[1, 1], ⟨2, ["x"]⟩, some ⟨.uninterpretable "'a'" (some "x"), 2⟩⟩ := by
    decide +kernel
  have hr : (gather 2 [literal "a" ["a"]]).run (.start ["a", "a", "x"]) =
      .done ⟨["a", "a"], ⟨2, ["x"]⟩, some ⟨.uninterpretable "'a'" (some "x"), 2⟩⟩ := by
    decide +kernel
  obtain ⟨hrepeated, hseparated, hgathered⟩ := minimum_filters (literal "a" 1)
    (literal "," ()).optional [literal "a" ["a"]] 2 (.start ["a", "a", "x"])
  have hle : 1 ≤ 2 := by decide
  exact ⟨_, _, _, hm, hn, hr, hle, ((hrepeated _).mp hm).1, ((hseparated _).mp hn).1,
    hgathered _ hr 1 hle⟩

end Parser
end SimControl
