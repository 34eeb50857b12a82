/-
What a repetition collects, and that it comes to an end.

A stride is a match that takes a token.  A repetition goes on from a stride and stops after a
match that is none, so what it has collected are strides, and at most one value more.  Each
stride uses up a token.  Hence the repetition ends whatever it repeats, as long as that gives an
answer and does not move back, and its values outnumber the tokens it took by one at most.

The main statement is `repetitions_finish`.
-/
import SimControl.Proofs.Rounds

namespace SimControl
namespace Parser

variable {α β γ : Type} {p : Parser α} {stop : Parser β} {c d : Cursor}

/-- From `c` to `d`, `p` reads the values one after another and takes a token for each. -/
inductive Strides (p : Parser α) (c : Cursor) : List α → Cursor → Prop
  | start : Strides p c [] c
  | next {values : List α} {d : Cursor} {m : Match α} (hstrides : Strides p c values d)
      (hm : p.run d = .done m) (hless : d.position < m.cursor.position) :
      Strides p c (values ++ [m.value]) m.cursor

theorem Strides.length_le {values : List α} (h : p.Strides c values d) :
    c.position + values.length ≤ d.position := by
  induction h with
  | start => exact Nat.le_refl _
  | next _ _ hless ih =>
    rw [List.length_append, List.length_singleton]
    omega

theorem Strides.cons {values : List α} {m : Match α} (hm : p.run c = .done m)
    (hless : c.position < m.cursor.position) (h : p.Strides m.cursor values d) :
    p.Strides c (m.value :: values) d := by
  induction h with
  | start => exact .next .start hm hless
  | next _ hn hless' ih => exact .next ih hn hless'

/-- What `m` holds was read from `c` by strides.  They end where `halt` holds, or where `p`
reads the last value and takes no token. -/
def ReadsUntil (p : Parser α) (halt : Cursor → Prop) (c : Cursor) (m : Match (List α)) : Prop :=
  ∃ values, p.Strides c values m.cursor ∧
    (halt m.cursor ∧ m.value = values ∨
      ∃ last, p.run m.cursor = .done last ∧ last.cursor = m.cursor ∧
        m.value = values ++ [last.value])

theorem ReadsUntil.length_le {halt : Cursor → Prop} {m : Match (List α)}
    (h : p.ReadsUntil halt c m) : c.position + m.value.length ≤ m.cursor.position + 1 := by
  obtain ⟨values, hstrides, hvalue⟩ := h
  have hlength := hstrides.length_le
  rcases hvalue with ⟨_, hvalue⟩ | ⟨last, _, _, hvalue⟩
  · rw [hvalue]
    omega
  · rw [hvalue, List.length_append, List.length_singleton]
    omega

/-! ## Loops that collect -/

/-- The loop that collects what `p` reads from `c` ends with the answer `o`.  In all its states
it has collected strides, and a match that it ends with holds no more than one value beside
them. -/
structure Finishes (p : Parser α) (halt : Cursor → Prop)
    (body : Match (List α) → Round (Match (List α)) (Outcome (Match (List α)))) (c : Cursor)
    (o : Outcome (Match (List α))) : Prop where
  ends : Round.Ends body ⟨[], c, none⟩ o
  answers : o ≠ .endless
  strides {m : Match (List α)} :
    Round.Reaches body ⟨[], c, none⟩ m → p.Strides c m.value m.cursor
  reads {m : Match (List α)} : o = .done m → p.ReadsUntil halt c m
  length_le {m : Match (List α)} :
    o = .done m → c.position + m.value.length ≤ m.cursor.position + 1

/-- A loop that goes round only after a match that has moved makes strides.  It leaves where
`halt` holds, or after a match that has not moved. -/
theorem Forward.finishes {body : Match (List α) → Round (Match (List α)) (Outcome (Match (List α)))}
    (hp : p.Forward) {halt : Cursor → Prop} {o : Outcome (Match (List α))}
    (hagain : ∀ m n, body m = .again n → ∃ next, p.run m.cursor = .done next ∧
      next.cursor.position ≠ m.cursor.position ∧ m.push next = n)
    (hexit : ∀ m n, body m = .exit (.done n) →
      halt m.cursor ∧ n.value = m.value ∧ n.cursor = m.cursor ∨
        ∃ next, p.run m.cursor = .done next ∧ next.cursor.position = m.cursor.position ∧
          m.push next = n)
    (hends : Round.Ends body ⟨[], c, none⟩ o) (hanswers : o ≠ .endless) :
    p.Finishes halt body c o := by
  have hstrides {m : Match (List α)} (hreach : Round.Reaches body ⟨[], c, none⟩ m) :
      p.Strides c m.value m.cursor := by
    refine hreach.invariant (P := fun m => p.Strides c m.value m.cursor) .start ?_
    intro m n hm hround
    obtain ⟨next, hnext, hmoved, rfl⟩ := hagain m n hround
    have hle := (hp _ _ hnext).position_le
    exact hm.next hnext (by omega)
  have hreads {n : Match (List α)} (hn : o = .done n) : p.ReadsUntil halt c n := by
    subst hn
    obtain ⟨m, hreach, hround⟩ := hends
    rcases hexit m n hround with ⟨hhalt, hvalue, hcursor⟩ | ⟨last, hlast, hsame, rfl⟩
    · refine ⟨m.value, ?_, .inl ⟨?_, hvalue⟩⟩
      · rw [hcursor]
        exact hstrides hreach
      · rw [hcursor]
        exact hhalt
    · have hcursor : last.cursor = m.cursor := (hp _ _ hlast).eq_of_position_eq hsame
      have hpush : (m.push last).cursor = m.cursor := hcursor
      refine ⟨m.value, ?_, .inr ⟨last, ?_, ?_, rfl⟩⟩
      · rw [hpush]
        exact hstrides hreach
      · rw [hpush]
        exact hlast
      · rw [hpush]
        exact hcursor
  exact ⟨hends, hanswers, hstrides, hreads, fun hn => (hreads hn).length_le⟩

theorem finishes_atLeast (hp : p.Onward) (minimum : Nat) (c : Cursor) :
    p.Finishes (fun d => ∃ failure, p.run d = .failed failure) (repeatRound minimum p) c
      ((atLeast minimum p).run c) := by
  refine hp.forward.finishes (fun _ _ => repeatRound_eq_again) (fun m n hround => ?_)
    (ends_repeatRound hp.forward minimum _) ((steady_atLeast minimum hp.steady).ends c)
  rcases repeatRound_eq_exit hround with ⟨failure, hfail, rfl⟩ | hlast
  · exact .inl ⟨⟨failure, hfail⟩, rfl, rfl⟩
  · exact .inr hlast

theorem finishes_upTo (hstop : ∀ c, stop.run c ≠ .endless) (hp : p.Onward) (c : Cursor) :
    p.Finishes (fun d => d.rest = [] ∨ ∃ stopped, stop.run d = .done stopped) (upToRound stop p) c
      ((upTo stop p).run c) := by
  refine hp.forward.finishes (fun _ _ => upToRound_eq_again) (fun m n hround => ?_)
    (ends_upToRound hp.forward stop _) (upToFrom_ne_endless hstop hp.steady _)
  rcases upToRound_eq_exit hround with ⟨hhalt, rfl⟩ | hlast
  · exact .inl ⟨hhalt, rfl, rfl⟩
  · exact .inr hlast

/-- The three guarded repetitions come to an end with an answer, whatever they repeat: it may
match without taking a token.  What the first two collect are strides, of which the one stops
where `p` fails and the other at the end or at `stop`, and perhaps one value more. -/
theorem repetitions_finish [Accumulator γ] {parts : List (Parser γ)} (hp : p.Onward)
    (hstop : ∀ c, stop.run c ≠ .endless) (hparts : ∀ q ∈ parts, q.Onward) (minimum : Nat)
    (c : Cursor) :
    p.Finishes (fun d => ∃ failure, p.run d = .failed failure) (repeatRound minimum p) c
        ((atLeast minimum p).run c) ∧
      p.Finishes (fun d => d.rest = [] ∨ ∃ stopped, stop.run d = .done stopped)
        (upToRound stop p) c ((upTo stop p).run c) ∧
      (∃ s, Round.Ends (scanRound parts) (.start c) (some s) ∧ scan parts c = some s) ∧
      (gather minimum parts).run c ≠ .endless := by
  have hsteady : ∀ q ∈ parts, q.Steady := fun q hq => (hparts q hq).steady
  refine ⟨finishes_atLeast hp minimum c, finishes_upTo hstop hp c, ?_,
    (steady_gather minimum hsteady).ends c⟩
  have hends := ends_scanRound (fun q hq => (hparts q hq).forward) (.start c)
  obtain ⟨s, hs⟩ := Option.ne_none_iff_exists'.mp (scanFrom_ne_none hsteady (.start c))
  rw [hs] at hends
  exact ⟨s, hends, hs⟩

/-- A value that takes no token is collected once: there are two values and one token. -/
theorem repetitions_finish_optional :
    (literal "a" 1).optional.Onward ∧ (∀ c, (literal "," ()).run c ≠ .endless) ∧
      (∀ q ∈ [(literal "v" true).optional.map (·.getD false)], q.Onward) ∧
      (∃ m, (atLeast 0 (literal "a" 1).optional).run (.start ["a", "b"]) = .done m ∧
        m.value = [some 1, none] ∧ m.cursor.position = 1 ∧
        (literal "a" 1).optional.ReadsUntil
          (fun d => ∃ failure, (literal "a" 1).optional.run d = .failed failure)
          (.start ["a", "b"]) m) ∧
      (gather 1 [(literal "v" true).optional.map (·.getD false)]).run (.start ["a", "b"]) ≠
        .endless := by
  have hp : (literal "a" 1).optional.Onward := onward_optional_literal "a" 1
  have hstop : ∀ c, (literal "," ()).run c ≠ .endless := (steady_literal "," ()).ends
  have hparts : ∀ q ∈ [(literal "v" true).optional.map (·.getD false)], q.Onward := by
    intro q hq
    obtain rfl := List.mem_singleton.mp hq
    exact ((steady_literal "v" true).optional.map _).onward
      ((Composed.literal "v" true).optional.map _).bounded
  obtain ⟨hrepeat, _, _, hgather⟩ := repetitions_finish hp hstop hparts 0 (.start ["a", "b"])
  refine ⟨hp, hstop, hparts, ?_, ?_⟩
  · have hm : (atLeast 0 (literal "a" 1).optional).run (.start ["a", "b"]) =
        .done ⟨[some 1, none], ⟨1, ["b"]⟩, some ⟨.uninterpretable "'a'" (some "b"), 1⟩⟩ := by
      decide +kernel
    exact ⟨_, hm, rfl, rfl, hrepeat.reads hm⟩
  · exact (repetitions_finish hp hstop hparts 1 (.start ["a", "b"])).2.2.2

end Parser
end SimControl
