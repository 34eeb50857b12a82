/-
Gathering is repeated choice, folded.

A scan keeps what it has put together and how many parts matched.  A repetition of the choice
between the parts keeps the values one by one.  Round for round the one holds the fold of what
the other holds, as long as every match takes a token: then the guard of neither loop stops it.
No law of the accumulator is needed.

The scan does not try its parts where no token is left, and the repetition does.  A part that
gives no answer there tells the two apart (`gather_outlasts_atLeast`).  Else they agree, which
is the main statement, `gather_folds_atLeast`.
-/
import SimControl.Proofs.Rounds

namespace SimControl

variable {α : Type}

/-! ## Scans and what they hold -/

/-- The scan has put together what the repetition has collected, up to the same place. -/
structure Scan.Holds [Accumulator α] (s : Scan α) (m : Match (List α)) : Prop where
  value : s.found.value = Accumulator.foldAll m.value
  cursor : s.found.cursor = m.cursor
  count : s.count = m.value.length

namespace Scan.Holds

variable [Accumulator α] {s : Scan α} {m : Match (List α)}

theorem start (c : Cursor) : (Scan.start c : Scan α).Holds ⟨[], c, none⟩ := ⟨rfl, rfl, rfl⟩

theorem next (h : s.Holds m) (n : Match α) (missed : Option Failure) :
    Scan.Holds ⟨s.found.andThen n Accumulator.append, s.count + 1, missed⟩ (m.push n) where
  value := by
    show Accumulator.append s.found.value n.value = Accumulator.foldAll (m.value ++ [n.value])
    rw [Accumulator.foldAll_concat, h.value]
  cursor := rfl
  count := by
    show s.count + 1 = (m.value ++ [n.value]).length
    rw [List.length_append, List.length_singleton, h.count]

end Scan.Holds

/-- How a scan and a repetition may end together: without an answer, with too few values, or
with enough of them, and then the one holds what the other holds. -/
inductive EndAlike [Accumulator α] (minimum : Nat) :
    Option (Scan α) → Outcome (Match (List α)) → Prop
  | endless : EndAlike minimum none .endless
  | few {s : Scan α} {f : Failure} (hfew : s.count < minimum) :
      EndAlike minimum (some s) (.failed f)
  | enough {s : Scan α} {m : Match (List α)} (henough : minimum ≤ s.count) (hholds : s.Holds m) :
      EndAlike minimum (some s) (.done m)

namespace Parser

variable {parts : List (Parser α)} {c : Cursor} {minimum : Nat}

/-! ## A round of each -/

/-- Where no token is left, parts that take one and give an answer all fail. -/
theorem oneOf_run_at_end (htake : ∀ q ∈ parts, q.Consuming)
    (hends : ∀ q ∈ parts, ∀ position, q.run ⟨position, []⟩ ≠ .endless) (hc : c.rest = []) :
    ∃ f, (oneOf parts).run c = .failed f := by
  obtain ⟨position, rest⟩ := c
  obtain rfl : rest = [] := hc
  cases hrun : (oneOf parts).run ⟨position, []⟩ with
  | failed f => exact ⟨f, rfl⟩
  | done m =>
    obtain ⟨q, hq, hm⟩ := exists_mem_of_oneOf hrun
    exact absurd (htake q hq _ m hm) (Nat.not_lt_zero _)
  | endless =>
    obtain ⟨q, hq, hend⟩ := exists_mem_of_attempt_endless (oneOf_run_eq_endless_iff.mp hrun)
    exact absurd hend (hends q hq position)

variable [Accumulator α]

/-- A repetition stops where its choice fails. -/
theorem endAlike_of_failed {s : Scan α} {m : Match (List α)} (h : s.Holds m) {f : Failure}
    (hfail : (oneOf parts).run m.cursor = .failed f) :
    EndAlike minimum (some s) (repeatFrom minimum (oneOf parts) m) := by
  rw [repeatFrom, hfail]
  dsimp only
  split
  · next hfew => exact .few (h.count ▸ hfew)
  · next henough => exact .enough (h.count ▸ Nat.not_lt.mp henough) ⟨h.value, h.cursor, h.count⟩

/-- Round for round the scan holds what the repetition has collected. -/
theorem endAlike_scanFrom (htake : ∀ q ∈ parts, q.Consuming)
    (hends : ∀ q ∈ parts, ∀ position, q.run ⟨position, []⟩ ≠ .endless) (s : Scan α) :
    ∀ m, s.Holds m →
      EndAlike minimum (scanFrom parts s) (repeatFrom minimum (oneOf parts) m) := by
  fun_induction scanFrom parts s with
  | case1 s hend =>
    intro m h
    rw [h.cursor] at hend
    obtain ⟨f, hfail⟩ := oneOf_run_at_end htake hends hend
    exact endAlike_of_failed h hfail
  | case2 s hrest hendless =>
    intro m h
    rw [h.cursor] at hendless
    rw [repeatFrom, oneOf_run_eq_endless_iff.mpr hendless]
    exact .endless
  | case3 s hrest missed hmiss =>
    intro m h
    rw [h.cursor] at hmiss
    obtain ⟨f, hfail⟩ := oneOf_run_eq_failed_iff.mpr ⟨missed, hmiss⟩
    exact endAlike_of_failed ⟨h.value, h.cursor, h.count⟩ hfail
  | case4 s hrest next missed hhit found hless ih =>
    intro m h
    rw [h.cursor] at hhit hless
    rw [repeatFrom, oneOf_run_eq_done_iff.mpr ⟨missed, hhit⟩]
    dsimp only
    rw [if_pos hless]
    exact ih _ (h.next next missed)
  | case5 s hrest next missed hhit found hmore =>
    obtain ⟨q, hq, hrun⟩ := exists_mem_of_attempt hhit
    exact absurd (htake q hq _ next hrun) hmore

/-! ## The whole run -/

/-- Let no part match without a token, and each give an answer where no token is left.  Then
`minimum` parts can be gathered where their choice can be repeated `minimum` times, and what is
gathered is the fold of the values, up to the same place. -/
theorem gather_folds_atLeast (htake : ∀ q ∈ parts, q.Consuming)
    (hends : ∀ q ∈ parts, ∀ position, q.run ⟨position, []⟩ ≠ .endless) (minimum : Nat)
    (c : Cursor) :
    ((∃ m, (gather minimum parts).run c = .done m) ↔
        ∃ n, (atLeast minimum (oneOf parts)).run c = .done n) ∧
      ∀ m n, (gather minimum parts).run c = .done m →
        (atLeast minimum (oneOf parts)).run c = .done n →
        m.value = Accumulator.foldAll n.value ∧ m.cursor = n.cursor := by
  have halike : EndAlike minimum (scan parts c) ((atLeast minimum (oneOf parts)).run c) :=
    endAlike_scanFrom htake hends (.start c) _ (.start c)
  simp only [gather]
  generalize scan parts c = gathered at halike ⊢
  generalize (atLeast minimum (oneOf parts)).run c = repeated at halike ⊢
  cases halike with
  | endless => simp
  | few hfew => simp [hfew]
  | @enough s n henough hholds =>
    dsimp only
    rw [if_neg (Nat.not_lt.mpr henough)]
    refine ⟨⟨fun _ => ⟨n, rfl⟩, fun _ => ⟨_, rfl⟩⟩, fun m n' hm hn => ?_⟩
    obtain rfl := Outcome.done.inj hm
    obtain rfl := Outcome.done.inj hn
    exact ⟨hholds.value, hholds.cursor⟩

/-- Three tokens of which the third is no part. -/
theorem gather_folds_atLeast_two :
    (∀ q ∈ [literal "a" ["a"], literal "b" ["b"]], q.Consuming) ∧
      (∀ q ∈ [literal "a" ["a"], literal "b" ["b"]], ∀ position,
        q.run ⟨position, []⟩ ≠ .endless) ∧
      ∃ m n, (gather 2 [literal "a" ["a"], literal "b" ["b"]]).run (.start ["b", "a", "x"]) =
          .done m ∧
        (atLeast 2 (oneOf [literal "a" ["a"], literal "b" ["b"]])).run (.start ["b", "a", "x"]) =
          .done n ∧
        n.value = [["b"], ["a"]] ∧ m.value = Accumulator.foldAll n.value ∧ m.cursor = n.cursor := by
  have htake : ∀ q ∈ [literal "a" ["a"], literal "b" ["b"]], q.Consuming := by
    intro q hq
    simp only [List.mem_cons, List.not_mem_nil, or_false] at hq
    rcases hq with rfl | rfl <;> exact consuming_literal _ _
  have hends : ∀ q ∈ [literal "a" ["a"], literal "b" ["b"]], ∀ position,
      q.run ⟨position, []⟩ ≠ .endless := by
    intro q hq position
    simp only [List.mem_cons, List.not_mem_nil, or_false] at hq
    rcases hq with rfl | rfl <;> exact (steady_literal _ _).ends _
  obtain ⟨hiff, hagree⟩ := gather_folds_atLeast htake hends 2 (.start ["b", "a", "x"])
  have hn : (atLeast 2 (oneOf [literal "a" ["a"], literal "b" ["b"]])).run
      (.start ["b", "a", "x"]) =
        .done ⟨[["b"], ["a"]], ⟨2, ["x"]⟩, some ⟨.uninterpretable "'a'" (some "x"), 2⟩⟩ := by
    decide +kernel
  obtain ⟨m, hm⟩ := hiff.mpr ⟨_, hn⟩
  obtain ⟨hvalue, hcursor⟩ := hagree m _ hm hn
  exact ⟨htake, hends, m, _, hm, hn, rfl, hvalue, hcursor⟩

/-- An item and a separator that take nothing are repeated for ever. -/
theorem separated_succeed_run {β γ : Type} (value : β) (between : γ) (c : Cursor) :
    (separated 0 (succeed value) (succeed between)).run c = .endless := by
  simp [separated, succeed, separatedFrom]

/-- The part gives no answer where no `a` is left.  That is found out by the repetition, behind
the `a`, and not by the scan, which stops with the tokens. -/
theorem gather_outlasts_atLeast :
    ∃ parts : List (Parser (List Token)), (∀ q ∈ parts, q.Consuming) ∧
      ¬ ((∃ m, (gather 0 parts).run (.start ["a"]) = .done m) ↔
        ∃ n, (atLeast 0 (oneOf parts)).run (.start ["a"]) = .done n) := by
  refine ⟨[oneOf [literal "a" ["a"], separated 0 (succeed "1") (succeed ())]], ?_, ?_⟩
  · intro q hq c m hm
    obtain rfl := List.mem_singleton.mp hq
    obtain ⟨r, hr, hrun⟩ := exists_mem_of_oneOf hm
    simp only [List.mem_cons, List.not_mem_nil, or_false] at hr
    rcases hr with rfl | rfl
    · exact consuming_literal "a" ["a"] c m hrun
    · rw [separated_succeed_run] at hrun
      cases hrun
  · intro hiff
    have hscan : (gather 0 [oneOf [literal "a" ["a"],
        separated 0 (succeed "1") (succeed ())]]).run (.start ["a"]) =
          .done ⟨["a"], ⟨1, []⟩, none⟩ := by decide +kernel
    have hrepeat : (atLeast 0 (oneOf [oneOf [literal "a" ["a"],
        separated 0 (succeed "1") (succeed ())]])).run (.start ["a"]) = .endless := by
      decide +kernel
    obtain ⟨n, hn⟩ := hiff.mp ⟨_, hscan⟩
    rw [hrepeat] at hn
    cases hn

end Parser
end SimControl
