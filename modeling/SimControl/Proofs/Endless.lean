/-
When a separated repetition goes round for ever.

A round of it is a separator and an item behind that, and it goes on after every round that
matches.  So the rounds are strides until one takes no token, and from there on all rounds are
the same.  Nothing else keeps the repetition from its end: it gives an answer unless some
strides lead to such a round (`separated_endless`).

The other repetitions ask whether the place has changed and leave the loop if it has not.
-/
import SimControl.Proofs.Strides

namespace SimControl
namespace Parser

variable {α β : Type} {p : Parser α} {separator : Parser β} {c d : Cursor}

theorem preceded_run_eq_done_iff {m : Match α} :
    (preceded separator p).run c = .done m ↔
      ∃ between next, separator.run c = .done between ∧ p.run between.cursor = .done next ∧
        between.andThen next (fun _ value => value) = m := by
  simp only [preceded, map_run_eq_done_iff, pair_run_eq_done_iff]
  constructor
  · rintro ⟨_, ⟨between, next, hbetween, hnext, rfl⟩, rfl⟩
    exact ⟨between, next, hbetween, hnext, rfl⟩
  · rintro ⟨between, next, hbetween, hnext, rfl⟩
    exact ⟨_, ⟨between, next, hbetween, hnext, rfl⟩, rfl⟩

/-- Strides over separators with their items lead from `c` to a place where the next ones match
and take no token. -/
def Stalls (p : Parser α) (separator : Parser β) (c : Cursor) : Prop :=
  ∃ values d stuck, (preceded separator p).Strides c values d ∧
    (preceded separator p).run d = .done stuck ∧ stuck.cursor = d

/-! ## Rounds and strides -/

section Round

variable {between : Match β} {next : Match α}

theorem preceded_run_of_done (hbetween : separator.run c = .done between)
    (hnext : p.run between.cursor = .done next) :
    (preceded separator p).run c = .done (between.andThen next fun _ value => value) :=
  preceded_run_eq_done_iff.mpr ⟨between, next, hbetween, hnext, rfl⟩

theorem Onward.leads_of_round (hp : p.Onward) (hs : separator.Onward)
    (hbetween : separator.run c = .done between) (hnext : p.run between.cursor = .done next) :
    c.Leads next.cursor := (hs.forward _ _ hbetween).trans (hp.forward _ _ hnext)

/-- A round that takes tokens is the first of the strides. -/
theorem Strides.of_round (hp : p.Onward) (hs : separator.Onward)
    (hbetween : separator.run c = .done between) (hnext : p.run between.cursor = .done next)
    (hless : next.cursor.rest.length < c.rest.length) {values : List α}
    (h : (preceded separator p).Strides next.cursor values d) :
    (preceded separator p).Strides c (next.value :: values) d := by
  have hmoved := (hp.leads_of_round hs hbetween hnext).position_lt_iff.mpr hless
  have hcons := Strides.cons (preceded_run_of_done hbetween hnext) hmoved h
  exact hcons

end Round

section Rounds

variable {m : Match (List α)}

/-- Where a separator and an item take no token, they are found again in every later round. -/
theorem forever_of_stuck {between : Match β} {next : Match α}
    (hbetween : separator.run c = .done between) (hnext : p.run between.cursor = .done next)
    (hstuck : next.cursor = c) (hm : m.cursor = c) :
    Round.Forever (separatedRound p separator) m := by
  intro n hreach
  have hround (k : Match (List α)) (hk : k.cursor = c) :
      separatedRound p separator k = .again (k.push next) := by
    refine separatedRound_of_done ?_ hnext
    rw [hk]
    exact hbetween
  have hn : n.cursor = c := by
    refine hreach.invariant (P := fun k => k.cursor = c) hm fun k l hk hagain => ?_
    rw [hround k hk] at hagain
    obtain rfl := Round.again.inj hagain
    exact hstuck
  exact ⟨n.push next, hround n hn⟩

/-- The loop makes all the strides there are. -/
theorem Strides.reaches {values : List α} (h : (preceded separator p).Strides c values d)
    (hm : m.cursor = c) :
    ∃ n, Round.Reaches (separatedRound p separator) m n ∧ n.cursor = d := by
  induction h with
  | start => exact ⟨m, .refl, hm⟩
  | next _ hrun _ ih =>
    obtain ⟨n, hreach, hn⟩ := ih
    obtain ⟨between, next, hbetween, hnext, rfl⟩ := preceded_run_eq_done_iff.mp hrun
    rw [← hn] at hbetween
    exact ⟨n.push next, hreach.tail (separatedRound_of_done hbetween hnext), rfl⟩

theorem Stalls.forever (h : p.Stalls separator m.cursor) :
    Round.Forever (separatedRound p separator) m := by
  obtain ⟨values, d, stuck, hstrides, hrun, hstuck⟩ := h
  obtain ⟨n, hreach, hn⟩ := hstrides.reaches rfl
  obtain ⟨between, next, hbetween, hnext, rfl⟩ := preceded_run_eq_done_iff.mp hrun
  exact hreach.forever (forever_of_stuck hbetween hnext hstuck hn)

/-- A round that matches is a stride, unless it takes no token. -/
theorem stalls_of_separatedFrom (hp : p.Onward) (hs : separator.Onward)
    (h : separatedFrom p separator m = .endless) : p.Stalls separator m.cursor := by
  fun_induction separatedFrom p separator m with
  | case1 m hend => exact absurd hend (hs.ends _)
  | case2 m failure hfail => cases h
  | case3 m between hbetween hend => exact absurd hend (hp.ends _)
  | case4 m between hbetween failure hfail => cases h
  | case5 m between hbetween next hnext hless ih =>
    obtain ⟨values, d, stuck, hstrides, hrun, hstuck⟩ := ih h
    exact ⟨_, d, stuck, .of_round hp hs hbetween hnext hless hstrides, hrun, hstuck⟩
  | case6 m between hbetween next hnext hmore =>
    have hleads := hp.leads_of_round hs hbetween hnext
    have hsame := hleads.eq_of_position_eq (hleads.position_eq_iff.mpr hmore)
    exact ⟨[], m.cursor, _, .start, preceded_run_of_done hbetween hnext, hsame⟩

/-- The recursion gives no answer exactly where the loop comes to a round that takes no token. -/
theorem separatedFrom_eq_endless_iff (hp : p.Onward) (hs : separator.Onward) :
    separatedFrom p separator m = .endless ↔ p.Stalls separator m.cursor := by
  constructor
  · exact stalls_of_separatedFrom hp hs
  · intro h
    refine Classical.byContradiction fun hanswer => ?_
    exact h.forever.not_ends (ends_separatedRound hanswer)

/-- An answer holds what the loop read by strides. -/
theorem strides_of_separatedFrom (hp : p.Onward) (hs : separator.Onward)
    {r : Match (List α) × Option Failure} (h : separatedFrom p separator m = .done r) :
    ∃ values, (preceded separator p).Strides m.cursor values r.1.cursor ∧
      r.1.value = m.value ++ values := by
  fun_induction separatedFrom p separator m with
  | case1 m hend => cases h
  | case2 m failure hfail =>
    obtain rfl := Outcome.done.inj h
    exact ⟨[], .start, (List.append_nil _).symm⟩
  | case3 m between hbetween hend => cases h
  | case4 m between hbetween failure hfail =>
    obtain rfl := Outcome.done.inj h
    exact ⟨[], .start, (List.append_nil _).symm⟩
  | case5 m between hbetween next hnext hless ih =>
    obtain ⟨values, hstrides, hvalue⟩ := ih h
    refine ⟨next.value :: values, hstrides.of_round hp hs hbetween hnext hless, ?_⟩
    rw [hvalue]
    exact List.append_assoc m.value [next.value] values
  | case6 m between hbetween next hnext hmore => cases h

end Rounds

/-! ## The repetition -/

theorem separated_run_eq_endless_iff (hp : p.Onward) {minimum : Nat} :
    (separated minimum p separator).run c = .endless ↔
      ∃ first, p.run c = .done first ∧
        separatedFrom p separator (first.map ([·])) = .endless := by
  simp only [separated]
  cases hfirst : p.run c with
  | endless => exact absurd hfirst (hp.ends c)
  | failed failure =>
    by_cases hzero : minimum = 0
    · simp [hzero]
    · simp [hzero]
  | done first =>
    rw [Outcome.bind_eq_endless_iff]
    constructor
    · rintro (h | ⟨r, _, h⟩)
      · exact ⟨first, rfl, h⟩
      · split at h <;> cases h
    · rintro ⟨_, hsame, h⟩
      obtain rfl := Outcome.done.inj hsame
      exact .inl h

/-- There is one item more than there are separators, and each separator with its item has
taken a token. -/
theorem length_le_of_separated (hp : p.Onward) (hs : separator.Onward) {minimum : Nat}
    {m : Match (List α)} (h : (separated minimum p separator).run c = .done m) :
    c.position + m.value.length ≤ m.cursor.position + 1 := by
  simp only [separated] at h
  cases hfirst : p.run c with
  | endless => exact absurd hfirst (hp.ends c)
  | failed failure =>
    simp only [hfirst] at h
    split at h
    · obtain rfl := Outcome.done.inj h
      exact Nat.le_succ _
    · cases h
  | done first =>
    simp only [hfirst] at h
    obtain ⟨r, hr, h⟩ := Outcome.bind_eq_done_iff.mp h
    split at h
    · cases h
    · obtain rfl := Outcome.done.inj h
      obtain ⟨values, hstrides, hvalue⟩ := strides_of_separatedFrom hp hs hr
      have hle : c.position ≤ first.cursor.position := (hp.forward _ _ hfirst).position_le
      have hstrides : first.cursor.position + values.length ≤ r.1.cursor.position :=
        hstrides.length_le
      have hlength : r.1.value.length = 1 + values.length := by
        rw [hvalue, List.length_append]
        rfl
      show c.position + r.1.value.length ≤ r.1.cursor.position + 1
      omega

/-- Without a first item the repetition has an answer.  Behind one, it has none exactly if it
stalls: then the loop goes round for ever, and else it comes to its end.  An answer has at most
one value more than it took tokens. -/
theorem separated_endless (hp : p.Onward) (hs : separator.Onward) (minimum : Nat) (c : Cursor) :
    ((separated minimum p separator).run c = .endless ↔
        ∃ first, p.run c = .done first ∧ p.Stalls separator first.cursor) ∧
      (∀ first, p.run c = .done first →
        p.Stalls separator first.cursor ∧
            Round.Forever (separatedRound p separator) (first.map ([·])) ∨
          ¬ p.Stalls separator first.cursor ∧
            ∃ r, Round.Ends (separatedRound p separator) (first.map ([·])) (.done r)) ∧
      ∀ m, (separated minimum p separator).run c = .done m →
        c.position + m.value.length ≤ m.cursor.position + 1 := by
  refine ⟨?_, fun first _ => ?_, fun m => length_le_of_separated hp hs⟩
  · rw [separated_run_eq_endless_iff hp]
    simp only [separatedFrom_eq_endless_iff hp hs]
    rfl
  · by_cases h : p.Stalls separator first.cursor
    · exact .inl ⟨h, Stalls.forever h⟩
    · have hanswer := mt (separatedFrom_eq_endless_iff (m := first.map ([·])) hp hs).mp h
      have hends := ends_separatedRound hanswer
      refine .inr ⟨h, ?_⟩
      cases hr : separatedFrom p separator (first.map ([·])) with
      | endless => exact absurd hr hanswer
      | failed failure => exact absurd hr (separatedFrom_ne_failed p separator _ failure)
      | done r =>
        rw [hr] at hends
        exact ⟨r, hends⟩

/-- Between two items that are not there stands one separator: two values and one token. -/
theorem separated_endless_comma :
    (literal "a" 1).optional.Onward ∧ (literal "," ()).Onward ∧
      ∃ m, (separated 0 (literal "a" 1).optional (literal "," ())).run (.start [","]) = .done m ∧
        m.value = [none, none] ∧ m.cursor = ⟨1, []⟩ ∧
        (Cursor.start [","]).position + m.value.length ≤ m.cursor.position + 1 := by
  have hp : (literal "a" 1).optional.Onward := onward_optional_literal "a" 1
  have hs : (literal "," ()).Onward := onward_literal "," ()
  have hm : (separated 0 (literal "a" 1).optional (literal "," ())).run (.start [","]) =
      .done ⟨[none, none], ⟨1, []⟩, some ⟨.uninterpretable "'a'" none, 1⟩⟩ := by
    decide +kernel
  obtain ⟨_, _, hlength⟩ := separated_endless hp hs 0 (.start [","])
  exact ⟨hp, hs, _, hm, rfl, rfl, hlength _ hm⟩

/-- Where the separator need not be there either, the repetition does not come to an end. -/
theorem separated_forever_optional :
    (literal "a" 1).optional.Onward ∧ (literal "," ()).optional.Onward ∧
      (separated 0 (literal "a" 1).optional (literal "," ()).optional).run (.start []) = .endless ∧
      ∃ first, (literal "a" 1).optional.run (.start []) = .done first ∧
        Round.Forever (separatedRound (literal "a" 1).optional (literal "," ()).optional)
          (first.map ([·])) := by
  have hitem : (literal "a" 1).optional.run (.start []) =
      .done ⟨none, .start [], some ⟨.uninterpretable "'a'" none, 0⟩⟩ := by decide +kernel
  have hseparator : (literal "," ()).optional.run (.start []) =
      .done ⟨none, .start [], some ⟨.uninterpretable "','" none, 0⟩⟩ := by decide +kernel
  refine ⟨onward_optional_literal "a" 1, onward_optional_literal "," (), by decide +kernel, ?_⟩
  exact ⟨_, hitem, forever_of_stuck hseparator hitem rfl rfl⟩

end Parser
end SimControl
