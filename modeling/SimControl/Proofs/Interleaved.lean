/-
What a separated repetition reads, and which failures it keeps.

It reads items with separators between them, and stops behind an item: at the next separator,
or at the item behind that.  From these all of its answer follows
(`separated_run_eq_done_iff_items`).  The failures that its items recovered from are weighed in
it, and so is that of the item which was sought in vain at the end.  Those that a separator
recovered from are not.  One of them can therefore be lost though it got further than all that
are weighed (`separated_loses_separator`); the main statement, `separated_keeps_items`, says when.

The repetition is its recursion here, for every parser.  Where no match moves back it is the loop
that goes on as long as a separator and an item follow (`ends_separatedRound`).
-/
import SimControl.Proofs.Ranked

namespace SimControl

namespace Failure

/-- If a failure was passed over, one that got as far is kept. -/
def Covers (kept passed : Option Failure) : Prop :=
  ∀ f ∈ passed, ∃ g ∈ kept, f.offset ≤ g.offset

theorem covers_foremost_iff {failures : List Failure} {passed : Option Failure} :
    Covers (foremost failures) passed ↔
      ∀ f ∈ passed, ∃ g ∈ failures, f.offset ≤ g.offset := by
  constructor
  · intro h f hf
    obtain ⟨g, hg, hle⟩ := h f hf
    exact ⟨g, List.argmax_mem hg, hle⟩
  · intro h f hf
    obtain ⟨g, hg, hle⟩ := h f hf
    have hne : foremost failures ≠ none := by
      intro hnone
      rw [List.argmax_eq_none.mp hnone] at hg
      cases hg
    obtain ⟨first, hfirst⟩ := Option.ne_none_iff_exists'.mp hne
    exact ⟨first, hfirst, Nat.le_trans hle (List.le_of_mem_argmax hg hfirst)⟩

end Failure

namespace Parser

variable {α β : Type}

/-- Separators from `c` to `d`, each with the item behind it, and each takes a token with it. -/
inductive Links (p : Parser α) (separator : Parser β) :
    Cursor → List (Match β × Match α) → Cursor → Prop
  | nil (c : Cursor) : Links p separator c [] c
  | cons {c d : Cursor} {between : Match β} {next : Match α} {links : List (Match β × Match α)}
      (hbetween : separator.run c = .done between) (hnext : p.run between.cursor = .done next)
      (hless : next.cursor.rest.length < c.rest.length)
      (h : Links p separator next.cursor links d) :
      Links p separator c ((between, next) :: links) d

/-- No separator with an item behind it is at `d`.  Where it is the item that is missing, its
failure is given. -/
inductive BreaksOff (p : Parser α) (separator : Parser β) (d : Cursor) : Option Failure → Prop
  | separator {f : Failure} (h : separator.run d = .failed f) : BreaksOff p separator d none
  | item {between : Match β} {f : Failure} (hbetween : separator.run d = .done between)
      (h : p.run between.cursor = .failed f) : BreaksOff p separator d (some f)

/-- Items with separators between any two, as many as there are from `c` on.  The last item ends
at `d`, and `stopped` is the failure of the item that was sought in vain, if one was. -/
inductive Interleaved (p : Parser α) (separator : Parser β) (c : Cursor) :
    List (Match α) → List (Match β) → Option Failure → Cursor → Prop
  | empty {f : Failure} (h : p.run c = .failed f) : Interleaved p separator c [] [] (some f) c
  | first {first : Match α} {links : List (Match β × Match α)} {stopped : Option Failure}
      {d : Cursor} (hfirst : p.run c = .done first)
      (hlinks : Links p separator first.cursor links d) (hstop : BreaksOff p separator d stopped) :
      Interleaved p separator c (first :: links.map Prod.snd) (links.map Prod.fst) stopped d

section Run

variable {p : Parser α} {separator : Parser β} {minimum : Nat} {c d : Cursor}
  {m n : Match (List α)} {links : List (Match β × Match α)} {items : List (Match α)}
  {separators : List (Match β)} {stopped : Option Failure}

theorem Links.cursor_pushAll (h : Links p separator c links d) (hm : m.cursor = c) :
    (m.pushAll (links.map Prod.snd)).cursor = d := by
  induction h generalizing m with
  | nil c => exact hm
  | cons _ _ _ _ ih => exact ih rfl

/-- Separators with their items are read, and the repetition goes on from there. -/
theorem Links.separatedFrom_eq (h : Links p separator c links d) (hm : m.cursor = c) :
    separatedFrom p separator m = separatedFrom p separator (m.pushAll (links.map Prod.snd)) := by
  induction h generalizing m with
  | nil c => rfl
  | cons hbetween hnext hless _ ih =>
    rw [separatedFrom, hm, hbetween]
    dsimp only
    rw [hnext]
    dsimp only
    rw [if_pos hless]
    exact ih rfl

theorem BreaksOff.separatedFrom_eq (h : BreaksOff p separator m.cursor stopped) :
    separatedFrom p separator m = .done (m, stopped) := by
  rw [separatedFrom]
  cases h with
  | separator h => rw [h]
  | item hbetween h =>
    rw [hbetween]
    dsimp only
    rw [h]

theorem exists_links {r : Match (List α) × Option Failure}
    (h : separatedFrom p separator m = .done r) :
    ∃ links d, Links p separator m.cursor links d ∧ BreaksOff p separator d r.2 := by
  fun_induction separatedFrom p separator m with
  | case1 m hend => cases h
  | case2 m f hf =>
    obtain rfl := Outcome.done.inj h
    exact ⟨[], _, .nil _, .separator hf⟩
  | case3 m between hbetween hend => cases h
  | case4 m between hbetween f hf =>
    obtain rfl := Outcome.done.inj h
    exact ⟨[], _, .nil _, .item hbetween hf⟩
  | case5 m between hbetween next hnext hless ih =>
    obtain ⟨links, d, hlinks, hstop⟩ := ih h
    exact ⟨(between, next) :: links, d, .cons hbetween hnext hless hlinks, hstop⟩
  | case6 m between hbetween next hnext hmore => cases h

theorem Interleaved.separated_run (h : p.Interleaved separator c items separators stopped d) :
    (separated minimum p separator).run c = concluded minimum p (.inRow items d) stopped := by
  cases h with
  | empty h =>
    simp only [separated, h]
    cases minimum <;> rfl
  | @first first links _ _ hfirst hlinks hstop =>
    have hcursor : (Match.pushAll ⟨[], c, none⟩ (first :: links.map Prod.snd)).cursor = d :=
      hlinks.cursor_pushAll (m := first.map ([·])) rfl
    have hrow : (first.map ([·])).pushAll (links.map Prod.snd) =
        .inRow (first :: links.map Prod.snd) d := Match.pushAll_start hcursor
    simp only [separated, hfirst]
    rw [hlinks.separatedFrom_eq rfl, hrow, BreaksOff.separatedFrom_eq hstop]
    rfl

theorem exists_interleaved (h : (separated minimum p separator).run c = .done m) :
    ∃ items separators stopped d, p.Interleaved separator c items separators stopped d := by
  simp only [separated] at h
  cases hfirst : p.run c with
  | endless => simp [hfirst] at h
  | failed f => exact ⟨[], [], some f, c, .empty hfirst⟩
  | done first =>
    simp only [hfirst] at h
    obtain ⟨r, hr, _⟩ := Outcome.bind_eq_done_iff.mp h
    obtain ⟨links, d, hlinks, hstop⟩ := exists_links hr
    exact ⟨_, _, _, d, .first hfirst hlinks hstop⟩

/-- All of an answer follows from the items, where they end and what stopped the repetition. -/
theorem separated_run_eq_done_iff_items :
    (separated minimum p separator).run c = .done m ↔
      ∃ items separators stopped, p.Interleaved separator c items separators stopped m.cursor ∧
        minimum ≤ items.length ∧ m.value = items.map Match.value ∧
        m.recovered = Failure.foremost (items.filterMap Match.recovered ++ stopped.toList) := by
  constructor
  · intro h
    obtain ⟨items, separators, stopped, d, hitems⟩ := exists_interleaved h
    rw [hitems.separated_run, concluded_inRow_eq_done_iff] at h
    obtain ⟨henough, hvalue, rfl, hrecovered⟩ := h
    exact ⟨items, separators, stopped, hitems, henough, hvalue, hrecovered⟩
  · rintro ⟨items, separators, stopped, hitems, henough, hvalue, hrecovered⟩
    rw [hitems.separated_run, concluded_inRow_eq_done_iff]
    exact ⟨henough, hvalue, rfl, hrecovered⟩

/-- A success is read as items with separators between them.  It keeps the foremost failure of
those that the items recovered from and of the item that was sought in vain behind the last.  So
it covers every item.  It covers every separator too if, and only if, whatever a separator
recovered from did not get further than all of these. -/
theorem separated_keeps_items (h : (separated minimum p separator).run c = .done m) :
    ∃ items separators stopped, p.Interleaved separator c items separators stopped m.cursor ∧
      m.value = items.map Match.value ∧
      m.recovered = Failure.foremost (items.filterMap Match.recovered ++ stopped.toList) ∧
      (∀ item ∈ items, Failure.Covers m.recovered item.recovered) ∧
      ((∀ between ∈ separators, Failure.Covers m.recovered between.recovered) ↔
        ∀ between ∈ separators, ∀ f ∈ between.recovered,
          ∃ g ∈ items.filterMap Match.recovered ++ stopped.toList, f.offset ≤ g.offset) := by
  obtain ⟨items, separators, stopped, hitems, _, hvalue, hrecovered⟩ :=
    separated_run_eq_done_iff_items.mp h
  refine ⟨items, separators, stopped, hitems, hvalue, hrecovered, ?_, ?_⟩
  · intro item hitem
    rw [hrecovered, Failure.covers_foremost_iff]
    intro f hf
    have hmem : f ∈ items.filterMap Match.recovered := List.mem_filterMap.mpr ⟨item, hitem, hf⟩
    exact ⟨f, List.mem_append_left _ hmem, Nat.le_refl _⟩
  · rw [hrecovered]
    simp only [Failure.covers_foremost_iff]

end Run

/-- The separator recovers from a failure at the first `;`, and the item that is sought behind
the second gets further. -/
theorem separated_keeps_items_stopped :
    ∃ m, (separated 0 (literal "a" 1) (preceded (literal "," ()).optional (literal ";" ()))).run
        (.start ["a", ";", "a", ";", "b"]) = .done m ∧
      m.recovered = some ⟨.uninterpretable "'a'" (some "b"), 4⟩ ∧
      ∃ items separators stopped,
        (literal "a" 1).Interleaved (preceded (literal "," ()).optional (literal ";" ()))
          (.start ["a", ";", "a", ";", "b"]) items separators stopped m.cursor ∧
        m.value = items.map Match.value ∧
        m.recovered = Failure.foremost (items.filterMap Match.recovered ++ stopped.toList) ∧
        (∀ item ∈ items, Failure.Covers m.recovered item.recovered) ∧
        ((∀ between ∈ separators, Failure.Covers m.recovered between.recovered) ↔
          ∀ between ∈ separators, ∀ f ∈ between.recovered,
            ∃ g ∈ items.filterMap Match.recovered ++ stopped.toList, f.offset ≤ g.offset) := by
  have hrun : (separated 0 (literal "a" 1)
      (preceded (literal "," ()).optional (literal ";" ()))).run
        (.start ["a", ";", "a", ";", "b"]) =
      .done ⟨[1, 1], ⟨3, [";", "b"]⟩, some ⟨.uninterpretable "'a'" (some "b"), 4⟩⟩ := by
    decide +kernel
  exact ⟨_, hrun, rfl, separated_keeps_items hrun⟩

/-- The separator takes the `;`, looks for `a b` behind it, finds `a c` and reads neither.  That
the `c` is no `b` is the one failure that was recovered from, and the repetition does not keep
it.  All that is reported is that the `c` is left over. -/
theorem separated_loses_separator :
    ∃ items between m,
      (separated 0 (literal "a" 1)
          (preceded (literal ";" ()) ((literal "a" 1).pair (literal "b" 1)).optional)).run
        (.start ["a", ";", "a", "c"]) = .done m ∧
      (literal "a" 1).Interleaved
        (preceded (literal ";" ()) ((literal "a" 1).pair (literal "b" 1)).optional)
        (.start ["a", ";", "a", "c"]) items [between] none m.cursor ∧
      between.recovered = some ⟨.uninterpretable "'b'" (some "c"), 3⟩ ∧
      m.recovered = none ∧ ¬ Failure.Covers m.recovered between.recovered ∧
      (separated 0 (literal "a" 1)
          (preceded (literal ";" ()) ((literal "a" 1).pair (literal "b" 1)).optional)).parse
        ["a", ";", "a", "c"] = .failed ⟨.leftover ["c"], 3⟩ := by
  have hfirst : (literal "a" 1).run (.start ["a", ";", "a", "c"]) =
      .done ⟨1, ⟨1, [";", "a", "c"]⟩, none⟩ := by decide +kernel
  have hbetween : (preceded (literal ";" ()) ((literal "a" 1).pair (literal "b" 1)).optional).run
      ⟨1, [";", "a", "c"]⟩ =
        .done ⟨none, ⟨2, ["a", "c"]⟩, some ⟨.uninterpretable "'b'" (some "c"), 3⟩⟩ := by
    decide +kernel
  have hnext : (literal "a" 1).run ⟨2, ["a", "c"]⟩ = .done ⟨1, ⟨3, ["c"]⟩, none⟩ := by
    decide +kernel
  have hstop : (preceded (literal ";" ()) ((literal "a" 1).pair (literal "b" 1)).optional).run
      ⟨3, ["c"]⟩ = .failed ⟨.uninterpretable "';'" (some "c"), 3⟩ := by decide +kernel
  have hitems := Interleaved.first hfirst
    (.cons hbetween hnext (by decide) (.nil _)) (.separator hstop)
  refine ⟨_, _, ⟨[1, 1], ⟨3, ["c"]⟩, none⟩, by decide +kernel, hitems, rfl, rfl, ?_,
    by decide +kernel⟩
  intro hcovers
  obtain ⟨g, hg, _⟩ := hcovers _ rfl
  cases hg

end Parser
end SimControl
