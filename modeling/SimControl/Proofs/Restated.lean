/-
The separated repetition restated without a loop of its own.

A first item, and then as many separators with an item behind each as there are: this is what
`many` reads of the separator before the item.  The loop of the separated repetition does not
read it so.  It keeps the place behind the last item, looks for a separator and an item from
there, and comes back to it if the item is missing.  Yet both read the same links, as long as
each takes a token, and both stop where the next link breaks off.  The main statement is
`separated_restated`.
-/
import SimControl.Proofs.Endless
import SimControl.Proofs.Interleaved

namespace SimControl
namespace Parser

variable {α β : Type} {p : Parser α} {separator : Parser β} {minimum : Nat} {c d : Cursor}
  {links : List (Match β × Match α)} {items : List (Match α)} {separators : List (Match β)}
  {stopped : Option Failure} {values : List α}

/-! ## Links as matches -/

/-- A separator with the item behind it, as one match. -/
def joined (link : Match β × Match α) : Match α := link.1.andThen link.2 fun _ value => value

theorem map_value_joined (links : List (Match β × Match α)) :
    (links.map joined).map Match.value = (links.map Prod.snd).map Match.value := by
  rw [List.map_map, List.map_map]
  rfl

theorem Links.trail (h : Links p separator c links d) :
    (preceded separator p).Trail (fun _ => True) c (links.map joined) d := by
  induction h with
  | nil c => exact .nil c
  | cons hbetween hnext hless _ ih =>
    exact .cons trivial (preceded_run_of_done hbetween hnext) hless ih

theorem exists_links_of_trail {goes : Cursor → Prop} {found : List (Match α)}
    (h : (preceded separator p).Trail goes c found d) :
    ∃ links, Links p separator c links d ∧ found = links.map joined := by
  induction h with
  | nil c => exact ⟨[], .nil c, rfl⟩
  | cons _ hm hless _ ih =>
    obtain ⟨between, next, hbetween, hnext, rfl⟩ := preceded_run_eq_done_iff.mp hm
    obtain ⟨links, hlinks, rfl⟩ := ih
    exact ⟨(between, next) :: links, .cons hbetween hnext hless hlinks, rfl⟩

theorem exists_breaksOff_iff :
    (∃ stopped, BreaksOff p separator d stopped) ↔
      ∃ f, (preceded separator p).run d = .failed f := by
  simp only [preceded, map_run_eq_failed_iff, pair_run_eq_failed_iff]
  constructor
  · rintro ⟨stopped, hstop⟩
    cases hstop with
    | separator h => exact ⟨_, .inl h⟩
    | item hbetween h => exact ⟨_, .inr ⟨_, _, hbetween, h, rfl⟩⟩
  · rintro ⟨f, h | ⟨between, e, hbetween, h, _⟩⟩
    · exact ⟨none, .separator h⟩
    · exact ⟨some e, .item hbetween h⟩

/-- What is repeated takes a token each time, so that only a failure stops it. -/
theorem exists_many_preceded_iff (htake : (preceded separator p).Consuming) :
    (∃ n, (many (preceded separator p)).run c = .done n ∧ n.value = values ∧ n.cursor = d) ↔
      ∃ links stopped, Links p separator c links d ∧ BreaksOff p separator d stopped ∧
        values = (links.map Prod.snd).map Match.value := by
  constructor
  · rintro ⟨n, hn, rfl, rfl⟩
    obtain ⟨found, stopped, hfound, _, hvalue, _⟩ := atLeast_run_eq_done_iff.mp hn
    rw [hvalue]
    generalize n.cursor = d at hfound
    cases hfound with
    | failed h _ hf =>
      obtain ⟨links, hlinks, rfl⟩ := exists_links_of_trail h
      obtain ⟨stopped, hstop⟩ := exists_breaksOff_iff.mpr ⟨_, hf⟩
      exact ⟨links, stopped, hlinks, hstop, map_value_joined links⟩
    | still _ _ hm hmore => exact absurd (htake _ _ hm) hmore
    | halted _ hhalts => exact hhalts.elim
  · rintro ⟨links, stopped, hlinks, hstop, rfl⟩
    obtain ⟨f, hf⟩ := exists_breaksOff_iff.mp ⟨stopped, hstop⟩
    have hfound : (preceded separator p).Repeated c (links.map joined) (some f) d :=
      .failed hlinks.trail trivial hf
    refine ⟨⟨_, d, _⟩, atLeast_run_eq_done_iff.mpr
      ⟨_, _, hfound, Nat.zero_le _, (map_value_joined links).symm, rfl⟩, rfl, rfl⟩

/-! ## The last item -/

theorem Links.exists_last (h : Links p separator c links d) :
    links.map Prod.snd = [] ∧ d = c ∨
      ∃ e last, p.run e = .done last ∧ d = last.cursor ∧
        (links.map Prod.snd).getLast? = some last := by
  induction h with
  | nil c => exact .inl ⟨rfl, rfl⟩
  | @cons c d between next links hbetween hnext hless hlinks ih =>
    refine .inr ?_
    rcases ih with ⟨hnil, rfl⟩ | ⟨e, last, hlast, hd, hmem⟩
    · refine ⟨between.cursor, next, hnext, rfl, ?_⟩
      rw [List.map_cons, hnil]
      rfl
    · refine ⟨e, last, hlast, hd, ?_⟩
      rw [List.map_cons, List.getLast?_cons, hmem]
      rfl

/-- Where a first item was read, the repetition ends behind an item. -/
theorem Interleaved.exists_last (h : p.Interleaved separator c items separators stopped d) :
    items = [] ∧ d = c ∨
      ∃ e last, p.run e = .done last ∧ d = last.cursor ∧ items.getLast? = some last := by
  cases h with
  | empty h => exact .inl ⟨rfl, rfl⟩
  | @first first links _ _ hfirst hlinks hstop =>
    refine .inr ?_
    rcases hlinks.exists_last with ⟨hnil, rfl⟩ | ⟨e, last, hlast, hd, hmem⟩
    · refine ⟨c, first, hfirst, rfl, ?_⟩
      rw [hnil]
      rfl
    · refine ⟨e, last, hlast, hd, ?_⟩
      rw [List.getLast?_cons, hmem]
      rfl

/-! ## The repetition -/

theorem exists_separated_iff :
    (∃ m, (separated minimum p separator).run c = .done m ∧ m.value = values ∧ m.cursor = d) ↔
      minimum ≤ values.length ∧
        ((∃ f, p.run c = .failed f) ∧ values = [] ∧ d = c ∨
          ∃ first, p.run c = .done first ∧
            ∃ links stopped, Links p separator first.cursor links d ∧
              BreaksOff p separator d stopped ∧
              values = first.value :: (links.map Prod.snd).map Match.value) := by
  constructor
  · rintro ⟨m, hm, rfl, rfl⟩
    obtain ⟨items, separators, stopped, hitems, henough, hvalue, _⟩ :=
      separated_run_eq_done_iff_items.mp hm
    rw [hvalue, List.length_map]
    refine ⟨henough, ?_⟩
    generalize m.cursor = d at hitems
    cases hitems with
    | empty h => exact .inl ⟨⟨_, h⟩, rfl, rfl⟩
    | @first first links _ _ hfirst hlinks hstop =>
      exact .inr ⟨first, hfirst, links, stopped, hlinks, hstop, rfl⟩
  · rintro ⟨henough, ⟨⟨f, hf⟩, rfl, rfl⟩ | ⟨first, hfirst, links, stopped, hlinks, hstop, rfl⟩⟩
    · exact ⟨⟨_, d, _⟩, separated_run_eq_done_iff_items.mpr
        ⟨[], [], some f, .empty hf, henough, rfl, rfl⟩, rfl, rfl⟩
    · refine ⟨⟨_, d, _⟩, separated_run_eq_done_iff_items.mpr
        ⟨_, _, stopped, .first hfirst hlinks hstop, ?_, rfl, rfl⟩, rfl, rfl⟩
      rw [List.length_cons, List.length_map] at henough
      exact henough

/-- Let a separator with an item behind it take a token.  Then the repetition reads a first item
and as many separators with their items as there are, and it comes to the same values and the
same place.  It is content with no item only if none is asked for.  The place is behind an item,
the one of the last value. -/
theorem separated_restated (htake : (preceded separator p).Consuming) (minimum : Nat)
    (c : Cursor) :
    (∀ values d,
      (∃ m, (separated minimum p separator).run c = .done m ∧ m.value = values ∧ m.cursor = d) ↔
        (∃ n, (p.pair (many (preceded separator p))).run c = .done n ∧
            minimum ≤ values.length ∧ n.value.1 :: n.value.2 = values ∧ n.cursor = d) ∨
          minimum = 0 ∧ (∃ f, p.run c = .failed f) ∧ values = [] ∧ d = c) ∧
      ∀ m, (separated minimum p separator).run c = .done m →
        m.value = [] ∧ m.cursor = c ∨
          ∃ e last, p.run e = .done last ∧ m.cursor = last.cursor ∧
            m.value.getLast? = some last.value := by
  refine ⟨fun values d => ?_, fun m hm => ?_⟩
  · rw [exists_separated_iff]
    constructor
    · rintro ⟨henough, ⟨hf, rfl, rfl⟩ | ⟨first, hfirst, hlinks⟩⟩
      · exact .inr ⟨Nat.le_zero.mp henough, hf, rfl, rfl⟩
      · obtain ⟨links, stopped, hlinks, hstop, rfl⟩ := hlinks
        obtain ⟨n, hn, hvalue, rfl⟩ :=
          (exists_many_preceded_iff htake).mpr ⟨links, stopped, hlinks, hstop, rfl⟩
        refine .inl ⟨_, pair_run_eq_done_iff.mpr ⟨first, n, hfirst, hn, rfl⟩, henough, ?_, rfl⟩
        exact congrArg _ hvalue
    · rintro (⟨_, hrun, henough, rfl, rfl⟩ | ⟨rfl, hf, rfl, rfl⟩)
      · obtain ⟨first, n, hfirst, hn, rfl⟩ := pair_run_eq_done_iff.mp hrun
        obtain ⟨links, stopped, hlinks, hstop, hvalue⟩ :=
          (exists_many_preceded_iff htake).mp ⟨n, hn, rfl, rfl⟩
        exact ⟨henough, .inr ⟨first, hfirst, links, stopped, hlinks, hstop, congrArg _ hvalue⟩⟩
      · exact ⟨Nat.zero_le _, .inl ⟨hf, rfl, rfl⟩⟩
  · obtain ⟨items, separators, stopped, hitems, _, hvalue, _⟩ :=
      separated_run_eq_done_iff_items.mp hm
    rw [hvalue]
    rcases hitems.exists_last with ⟨rfl, hc⟩ | ⟨e, last, hlast, hd, hmem⟩
    · exact .inl ⟨rfl, hc⟩
    · refine .inr ⟨e, last, hlast, hd, ?_⟩
      rw [List.getLast?_map, hmem]
      rfl

theorem Consuming.preceded (hp : p.Consuming) (hs : separator.Steady) :
    (preceded separator p).Consuming := by
  intro c m hm
  obtain ⟨between, next, hbetween, hnext, rfl⟩ := preceded_run_eq_done_iff.mp hm
  have hless : next.cursor.rest.length < between.cursor.rest.length := hp _ _ hnext
  exact Nat.lt_of_lt_of_le hless (hs.forward hbetween)

/-- The comma may be left out.  The last one is not read, since no item is behind it. -/
theorem separated_restated_optional :
    (preceded (literal "," ()).optional (literal "a" 1)).Consuming ∧
      ∃ m n, (separated 2 (literal "a" 1) (literal "," ()).optional).run
          (.start ["a", "a", ",", "a", ","]) = .done m ∧
        ((literal "a" 1).pair (many (preceded (literal "," ()).optional (literal "a" 1)))).run
          (.start ["a", "a", ",", "a", ","]) = .done n ∧
        m.value = [1, 1, 1] ∧ m.cursor = ⟨4, [","]⟩ ∧ n.value.1 :: n.value.2 = m.value ∧
        n.cursor = m.cursor := by
  have htake : (preceded (literal "," ()).optional (literal "a" 1)).Consuming :=
    (consuming_literal "a" 1).preceded (steady_literal "," ()).optional
  have hm : (separated 2 (literal "a" 1) (literal "," ()).optional).run
      (.start ["a", "a", ",", "a", ","]) =
        .done ⟨[1, 1, 1], ⟨4, [","]⟩, some ⟨.uninterpretable "'a'" none, 5⟩⟩ := by
    decide +kernel
  obtain ⟨hiff, _⟩ := separated_restated htake 2 (.start ["a", "a", ",", "a", ","])
  rcases (hiff _ _).mp ⟨_, hm, rfl, rfl⟩ with ⟨n, hn, _, hvalue, hcursor⟩ | ⟨hzero, _⟩
  · exact ⟨htake, _, n, hm, hn, rfl, rfl, hvalue, hcursor⟩
  · cases hzero

end Parser
end SimControl
