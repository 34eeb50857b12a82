/-
Which of several failures is kept, and which is reported.

A run passes over failures: those that its parts recovered from, and that of the attempt which
stopped a repetition.  The parsers weigh them two at a time, as they come.  Taken together, the
one that is kept is the furthest of all, the earliest of those that got equally far.  A failure
that ends the run gives way to it only if it got strictly further.

The rule is stated for what a parser reads: the matches of its parts, one behind another, and
what stopped it.  The four parsers that follow it are the sequence, the two repetitions with a
guard and the conversion of a value, and the main statement is `failures_ranked`.  A repetition is
its recursion here, for every parser; it is the loop which asks for the place where no match moves
back (`ends_repeatRound`, `ends_upToRound`).
-/
import Mathlib.Data.List.MinMax
import SimControl.Parser.Repeat
import SimControl.Parser.Sequence

namespace SimControl

/-! ## Many failures at once -/

namespace Failure

/-- The furthest of `failures`, the earliest of those that got equally far. -/
def foremost (failures : List Failure) : Option Failure := failures.argmax offset

/-- The failure to report for `f` where `passed` were passed over before it: the foremost of
these if that got strictly further, and else `f`. -/
def reportedBehind (f : Failure) (passed : List Failure) : Failure :=
  match foremost passed with
  | some g => if f.offset < g.offset then g else f
  | none => f

theorem foremost_cons (f : Failure) (failures : List Failure) :
    foremost (f :: failures) = deepest (some f) (foremost failures) := by
  unfold foremost
  rw [List.argmax_cons]
  cases List.argmax offset failures with
  | none => rfl
  | some g =>
    simp only [deepest, furthest]
    split <;> rfl

theorem foremost_append (failures more : List Failure) :
    foremost (failures ++ more) = deepest (foremost failures) (foremost more) := by
  induction failures with
  | nil => rfl
  | cons f failures ih => rw [List.cons_append, foremost_cons, foremost_cons, ih, deepest_assoc]

theorem foremost_toList (a : Option Failure) : foremost a.toList = a := by
  cases a <;> rfl

theorem foremost_append_toList (failures : List Failure) (a : Option Failure) :
    foremost (failures ++ a.toList) = deepest (foremost failures) a := by
  rw [foremost_append, foremost_toList]

theorem orRecovered_foremost (f : Failure) (passed : List Failure) :
    f.orRecovered (foremost passed) = f.reportedBehind passed := by
  unfold reportedBehind
  cases foremost passed <;> rfl

end Failure

/-! ## Many matches in a row -/

namespace Match

variable {α : Type}

/-- Follow a list of values by those of `found`. -/
def pushAll (m : Match (List α)) (found : List (Match α)) : Match (List α) :=
  found.foldl Match.push m

/-- What `found` come to, the last of which ended at `d`. -/
def inRow (found : List (Match α)) (d : Cursor) : Match (List α) :=
  ⟨found.map Match.value, d, Failure.foremost (found.filterMap Match.recovered)⟩

theorem value_pushAll (m : Match (List α)) (found : List (Match α)) :
    (m.pushAll found).value = m.value ++ found.map Match.value := by
  induction found generalizing m with
  | nil => exact (List.append_nil _).symm
  | cons n found ih =>
    show ((m.push n).pushAll found).value = m.value ++ (n.value :: found.map Match.value)
    rw [ih]
    exact List.append_assoc m.value [n.value] _

theorem foremost_filterMap_cons (n : Match α) (found : List (Match α)) :
    Failure.foremost ((n :: found).filterMap Match.recovered) =
      Failure.deepest n.recovered (Failure.foremost (found.filterMap Match.recovered)) := by
  cases h : n.recovered with
  | none => rw [List.filterMap_cons_none h, Failure.deepest_none_left]
  | some f => rw [List.filterMap_cons_some h, Failure.foremost_cons]

theorem recovered_pushAll (m : Match (List α)) (found : List (Match α)) :
    (m.pushAll found).recovered =
      Failure.deepest m.recovered (Failure.foremost (found.filterMap Match.recovered)) := by
  induction found generalizing m with
  | nil => exact (Failure.deepest_none_right _).symm
  | cons n found ih =>
    show ((m.push n).pushAll found).recovered = _
    rw [ih, foremost_filterMap_cons, ← Failure.deepest_assoc]
    rfl

theorem pushAll_concat (m : Match (List α)) (found : List (Match α)) (n : Match α) :
    m.pushAll (found ++ [n]) = (m.pushAll found).push n := by
  unfold pushAll
  rw [List.foldl_append, List.foldl_cons, List.foldl_nil]

/-- Where nothing was read before, it is the matches of the run that are put in a row. -/
theorem pushAll_start {c d : Cursor} {found : List (Match α)}
    (h : (pushAll ⟨[], c, none⟩ found).cursor = d) :
    pushAll ⟨[], c, none⟩ found = inRow found d := by
  have hvalue := value_pushAll ⟨[], c, none⟩ found
  have hrecovered := recovered_pushAll ⟨[], c, none⟩ found
  generalize pushAll ⟨[], c, none⟩ found = m at h hvalue hrecovered ⊢
  obtain ⟨value, cursor, recovered⟩ := m
  subst h
  exact congr (congrArg (Match.mk · cursor) hvalue) hrecovered

theorem inRow_eq_iff {m : Match (List α)} {found : List (Match α)} :
    inRow found m.cursor = m ↔ m.value = found.map Match.value ∧
      m.recovered = Failure.foremost (found.filterMap Match.recovered) := by
  obtain ⟨value, cursor, recovered⟩ := m
  simp only [inRow, Match.mk.injEq, true_and]
  exact and_congr eq_comm eq_comm

theorem recovering_none (m : Match α) : m.recovering none = m := by
  unfold recovering
  rw [Failure.deepest_none_right]

end Match

namespace Parser

variable {α β γ : Type}

/-! ## Sequences -/

/-- The matches of `parts`, one behind another from `c` to `d`. -/
inductive InTurn : List (Parser α) → Cursor → List (Match α) → Cursor → Prop
  | nil (c : Cursor) : InTurn [] c [] c
  | cons {p : Parser α} {parts : List (Parser α)} {c d : Cursor} {m : Match α}
      {found : List (Match α)} (hm : p.run c = .done m) (h : InTurn parts m.cursor found d) :
      InTurn (p :: parts) c (m :: found) d

section Sequence

variable {parts : List (Parser α)} {c d : Cursor} {m n : Match (List α)} {found : List (Match α)}
  {g : Failure}

theorem InTurn.cursor_pushAll (h : InTurn parts c found d) (hm : m.cursor = c) :
    (m.pushAll found).cursor = d := by
  induction h generalizing m with
  | nil c => exact hm
  | cons hn _ ih => exact ih rfl

theorem continueWith_push_of_done {p : Parser α} {next : Match α}
    (h : p.run m.cursor = .done next) :
    continueWith m p (fun values value => values ++ [value]) = .done (m.push next) := by
  rw [continueWith, h]
  rfl

theorem continueWith_push_of_failed {p : Parser α} {f : Failure}
    (h : p.run m.cursor = .failed f) :
    continueWith m p (fun values value => values ++ [value]) =
      .failed (f.orRecovered m.recovered) := by
  rw [continueWith, h]
  rfl

/-- Parts that match one behind another are read, and the others are read from there. -/
theorem InTurn.sequenceFrom_append (h : InTurn parts c found d) (hm : m.cursor = c)
    (more : List (Parser α)) :
    sequenceFrom m (parts ++ more) = sequenceFrom (m.pushAll found) more := by
  induction h generalizing m with
  | nil c => rfl
  | cons hn _ ih =>
    rw [List.cons_append, sequenceFrom, continueWith_push_of_done (hm ▸ hn), Outcome.bind_done,
      ih rfl]
    rfl

theorem exists_inTurn_of_done (h : sequenceFrom m parts = .done n) :
    ∃ found, InTurn parts m.cursor found n.cursor ∧ m.pushAll found = n := by
  induction parts generalizing m with
  | nil =>
    obtain rfl := Outcome.done.inj h
    exact ⟨[], .nil _, rfl⟩
  | cons p parts ih =>
    rw [sequenceFrom] at h
    cases hp : p.run m.cursor with
    | endless => simp [continueWith, hp] at h
    | failed f =>
      rw [continueWith_push_of_failed hp] at h
      cases h
    | done next =>
      rw [continueWith_push_of_done hp] at h
      obtain ⟨found, hfound, hn⟩ := ih h
      exact ⟨next :: found, .cons hp hfound, hn⟩

theorem exists_inTurn_of_failed (h : sequenceFrom m parts = .failed g) :
    ∃ before p after found d f, parts = before ++ p :: after ∧ InTurn before m.cursor found d ∧
      p.run d = .failed f ∧ f.orRecovered (m.pushAll found).recovered = g := by
  induction parts generalizing m with
  | nil => cases h
  | cons p parts ih =>
    rw [sequenceFrom] at h
    cases hp : p.run m.cursor with
    | endless => simp [continueWith, hp] at h
    | failed f =>
      rw [continueWith_push_of_failed hp] at h
      exact ⟨[], p, parts, [], _, f, rfl, .nil _, hp, Outcome.failed.inj h⟩
    | done next =>
      rw [continueWith_push_of_done hp] at h
      obtain ⟨before, q, after, found, d, f, rfl, hfound, hq, hg⟩ := ih h
      exact ⟨p :: before, q, after, next :: found, d, f, rfl, .cons hp hfound, hq, hg⟩

theorem sequence_run_eq_done_iff :
    (sequence parts).run c = .done n ↔
      ∃ found, InTurn parts c found n.cursor ∧ n.value = found.map Match.value ∧
        n.recovered = Failure.foremost (found.filterMap Match.recovered) := by
  constructor
  · intro h
    obtain ⟨found, hfound, hn⟩ := exists_inTurn_of_done h
    rw [Match.pushAll_start (hfound.cursor_pushAll rfl)] at hn
    exact ⟨found, hfound, Match.inRow_eq_iff.mp hn⟩
  · rintro ⟨found, hfound, hn⟩
    rw [← Match.inRow_eq_iff] at hn
    have happend := hfound.sequenceFrom_append (m := ⟨[], c, none⟩) rfl []
    rw [List.append_nil, Match.pushAll_start (hfound.cursor_pushAll rfl), hn] at happend
    exact happend

theorem sequence_run_eq_failed_iff :
    (sequence parts).run c = .failed g ↔
      ∃ before p after found d f, parts = before ++ p :: after ∧ InTurn before c found d ∧
        p.run d = .failed f ∧ g = f.reportedBehind (found.filterMap Match.recovered) := by
  constructor
  · intro h
    obtain ⟨before, p, after, found, d, f, hparts, hfound, hp, rfl⟩ := exists_inTurn_of_failed h
    rw [Match.pushAll_start (hfound.cursor_pushAll rfl)]
    exact ⟨before, p, after, found, d, f, hparts, hfound, hp, Failure.orRecovered_foremost _ _⟩
  · rintro ⟨before, p, after, found, d, f, rfl, hfound, hp, rfl⟩
    have happend := hfound.sequenceFrom_append (m := ⟨[], c, none⟩) rfl (p :: after)
    rw [Match.pushAll_start (hfound.cursor_pushAll rfl)] at happend
    rw [← Failure.orRecovered_foremost]
    show sequenceFrom ⟨[], c, none⟩ (before ++ p :: after) = _
    rw [happend, sequenceFrom, continueWith_push_of_failed hp]
    rfl

end Sequence

/-! ## Repetitions -/

/-- `p` matches again and again from `c` to `d`, each time where `goes` holds, and each match
takes a token. -/
inductive Trail (p : Parser α) (goes : Cursor → Prop) : Cursor → List (Match α) → Cursor → Prop
  | nil (c : Cursor) : Trail p goes c [] c
  | cons {c d : Cursor} {m : Match α} {found : List (Match α)} (hgoes : goes c)
      (hm : p.run c = .done m) (hless : m.cursor.rest.length < c.rest.length)
      (h : Trail p goes m.cursor found d) : Trail p goes c (m :: found) d

/-- A repetition of `p` that starts at `c` ends at `d`, after the matches `found`.  What stopped
it is a failure of `p`, a match that took no token and is the last of `found`, or that `halts`
holds. -/
inductive Ending (p : Parser α) (goes halts : Cursor → Prop) (c : Cursor) :
    List (Match α) → Option Failure → Cursor → Prop
  | failed {found : List (Match α)} {d : Cursor} {f : Failure} (h : p.Trail goes c found d)
      (hgoes : goes d) (hf : p.run d = .failed f) : Ending p goes halts c found (some f) d
  | still {found : List (Match α)} {d : Cursor} {m : Match α} (h : p.Trail goes c found d)
      (hgoes : goes d) (hm : p.run d = .done m)
      (hmore : ¬ m.cursor.rest.length < d.rest.length) :
      Ending p goes halts c (found ++ [m]) none m.cursor
  | halted {found : List (Match α)} {d : Cursor} (h : p.Trail goes c found d) (hhalts : halts d) :
      Ending p goes halts c found none d

/-- The end of a repetition that nothing but its item stops. -/
def Repeated (p : Parser α) : Cursor → List (Match α) → Option Failure → Cursor → Prop :=
  p.Ending (fun _ => True) (fun _ => False)

/-- The end of a repetition that goes on while tokens are left and `stop` fails. -/
def RepeatedUpTo (stop : Parser β) (p : Parser α) :
    Cursor → List (Match α) → Option Failure → Cursor → Prop :=
  p.Ending (fun d => d.rest ≠ [] ∧ ∃ f, stop.run d = .failed f)
    (fun d => d.rest = [] ∨ ∃ m, stop.run d = .done m)

/-- The answer of a repetition with the values of `m` that `stopped` has brought to its end. -/
def concluded (minimum : Nat) (p : Parser α) (m : Match (List α)) (stopped : Option Failure) :
    Outcome (Match (List α)) :=
  if m.value.length < minimum then
    .failed ((stopped.getD (tooFew p m.value.length minimum m.cursor)).orRecovered m.recovered)
  else .done (m.recovering stopped)

/-- The answer of a repetition that has come to its stop, or that `stopped` has kept from it. -/
def broken (m : Match (List α)) : Option Failure → Outcome (Match (List α))
  | some f => .failed (f.orRecovered m.recovered)
  | none => .done m

section Concluded

variable {p : Parser α} {minimum : Nat} {found : List (Match α)} {stopped : Option Failure}
  {d : Cursor} {n : Match (List α)} {g : Failure}

theorem concluded_inRow_eq_done_iff :
    concluded minimum p (.inRow found d) stopped = .done n ↔
      minimum ≤ found.length ∧ n.value = found.map Match.value ∧ n.cursor = d ∧
        n.recovered = Failure.foremost (found.filterMap Match.recovered ++ stopped.toList) := by
  have hlength : (Match.inRow found d).value.length = found.length := List.length_map ..
  rw [concluded, hlength, Failure.foremost_append_toList]
  by_cases hfew : found.length < minimum
  · rw [if_pos hfew]
    constructor
    · intro h
      cases h
    · rintro ⟨henough, _⟩
      omega
  · rw [if_neg hfew]
    constructor
    · intro h
      obtain rfl := Outcome.done.inj h
      exact ⟨Nat.not_lt.mp hfew, rfl, rfl, rfl⟩
    · obtain ⟨value, cursor, recovered⟩ := n
      rintro ⟨_, rfl, rfl, rfl⟩
      rfl

theorem concluded_inRow_eq_failed_iff :
    concluded minimum p (.inRow found d) stopped = .failed g ↔
      found.length < minimum ∧
        g = (stopped.getD (tooFew p found.length minimum d)).reportedBehind
          (found.filterMap Match.recovered) := by
  have hlength : (Match.inRow found d).value.length = found.length := List.length_map ..
  rw [concluded, hlength, ← Failure.orRecovered_foremost]
  by_cases hfew : found.length < minimum
  · rw [if_pos hfew, Outcome.failed.injEq]
    exact ⟨fun h => ⟨hfew, h.symm⟩, fun h => h.2.symm⟩
  · rw [if_neg hfew]
    constructor
    · intro h
      cases h
    · rintro ⟨hless, _⟩
      exact absurd hless hfew

end Concluded

section Repetition

variable {p : Parser α} {stop : Parser β} {goes halts : Cursor → Prop} {minimum : Nat}
  {c d : Cursor} {m n : Match (List α)} {found : List (Match α)} {stopped : Option Failure}
  {g : Failure}

theorem Trail.cursor_pushAll (h : p.Trail goes c found d) (hm : m.cursor = c) :
    (m.pushAll found).cursor = d := by
  induction h generalizing m with
  | nil c => exact hm
  | cons _ _ _ _ ih => exact ih rfl

theorem Ending.cursor_pushAll (h : p.Ending goes halts c found stopped d) (hm : m.cursor = c) :
    (m.pushAll found).cursor = d := by
  cases h with
  | failed h _ _ => exact h.cursor_pushAll hm
  | still h _ _ _ =>
    rw [Match.pushAll_concat]
    rfl
  | halted h _ => exact h.cursor_pushAll hm

theorem Ending.cons {next : Match α} (hgoes : goes c) (hnext : p.run c = .done next)
    (hless : next.cursor.rest.length < c.rest.length)
    (h : p.Ending goes halts next.cursor found stopped d) :
    p.Ending goes halts c (next :: found) stopped d := by
  cases h with
  | failed h hd hf => exact .failed (h.cons hgoes hnext hless) hd hf
  | still h hd hm hmore => exact .still (h.cons hgoes hnext hless) hd hm hmore
  | halted h hd => exact .halted (h.cons hgoes hnext hless) hd

/-! ### As often as possible -/

theorem Trail.repeatFrom_eq (h : p.Trail goes c found d) (hm : m.cursor = c) :
    repeatFrom minimum p m = repeatFrom minimum p (m.pushAll found) := by
  induction h generalizing m with
  | nil c => rfl
  | cons _ hn hless _ ih =>
    rw [repeatFrom, hm, hn]
    dsimp only
    rw [if_pos hless]
    exact ih rfl

theorem Repeated.repeatFrom_eq (h : p.Repeated c found stopped d) (hm : m.cursor = c) :
    repeatFrom minimum p m = concluded minimum p (m.pushAll found) stopped := by
  cases h with
  | failed h _ hf =>
    rw [h.repeatFrom_eq hm, repeatFrom, h.cursor_pushAll hm, hf]
    rfl
  | still h _ hn hmore =>
    rw [h.repeatFrom_eq hm, repeatFrom, h.cursor_pushAll hm, hn, Match.pushAll_concat, concluded,
      Match.recovering_none]
    exact if_neg hmore
  | halted _ hhalts => exact hhalts.elim

theorem exists_repeated (h : repeatFrom minimum p m ≠ .endless) :
    ∃ found stopped d, p.Repeated m.cursor found stopped d := by
  fun_induction repeatFrom minimum p m with
  | case1 m hend => exact absurd rfl h
  | case2 m f hf hfew => exact ⟨[], some f, _, .failed (.nil _) trivial hf⟩
  | case3 m f hf henough => exact ⟨[], some f, _, .failed (.nil _) trivial hf⟩
  | case4 m next hnext hless ih =>
    obtain ⟨found, stopped, d, hfound⟩ := ih h
    exact ⟨next :: found, stopped, d, hfound.cons trivial hnext hless⟩
  | case5 m next hnext hmore hfew => exact ⟨[next], none, _, .still (.nil _) trivial hnext hmore⟩
  | case6 m next hnext hmore henough =>
    exact ⟨[next], none, _, .still (.nil _) trivial hnext hmore⟩

theorem Repeated.atLeast_run (h : p.Repeated c found stopped d) :
    (atLeast minimum p).run c = concluded minimum p (.inRow found d) stopped := by
  rw [← Match.pushAll_start (h.cursor_pushAll rfl)]
  exact h.repeatFrom_eq rfl

/-- Any answer but none is that of an end of the repetition. -/
theorem atLeast_run_eq_iff {o : Outcome (Match (List α))} (ho : o ≠ .endless) :
    (atLeast minimum p).run c = o ↔
      ∃ found stopped d, p.Repeated c found stopped d ∧
        concluded minimum p (.inRow found d) stopped = o := by
  constructor
  · rintro rfl
    obtain ⟨found, stopped, d, hfound⟩ := exists_repeated ho
    exact ⟨found, stopped, d, hfound, hfound.atLeast_run.symm⟩
  · rintro ⟨found, stopped, d, hfound, h⟩
    exact hfound.atLeast_run.trans h

theorem atLeast_run_eq_done_iff :
    (atLeast minimum p).run c = .done n ↔
      ∃ found stopped, p.Repeated c found stopped n.cursor ∧ minimum ≤ found.length ∧
        n.value = found.map Match.value ∧
        n.recovered = Failure.foremost (found.filterMap Match.recovered ++ stopped.toList) := by
  rw [atLeast_run_eq_iff (o := .done n) nofun]
  constructor
  · rintro ⟨found, stopped, d, hfound, h⟩
    obtain ⟨henough, hvalue, rfl, hrecovered⟩ := concluded_inRow_eq_done_iff.mp h
    exact ⟨found, stopped, hfound, henough, hvalue, hrecovered⟩
  · rintro ⟨found, stopped, hfound, henough, hvalue, hrecovered⟩
    exact ⟨found, stopped, n.cursor, hfound,
      concluded_inRow_eq_done_iff.mpr ⟨henough, hvalue, rfl, hrecovered⟩⟩

theorem atLeast_run_eq_failed_iff :
    (atLeast minimum p).run c = .failed g ↔
      ∃ found stopped d, p.Repeated c found stopped d ∧ found.length < minimum ∧
        g = (stopped.getD (tooFew p found.length minimum d)).reportedBehind
          (found.filterMap Match.recovered) := by
  rw [atLeast_run_eq_iff (o := .failed g) nofun]
  simp only [concluded_inRow_eq_failed_iff]

/-! ### Up to a stop -/

theorem Trail.upToFrom_eq
    (h : p.Trail (fun d => d.rest ≠ [] ∧ ∃ f, stop.run d = .failed f) c found d)
    (hm : m.cursor = c) : upToFrom stop p m = upToFrom stop p (m.pushAll found) := by
  induction h generalizing m with
  | nil c => rfl
  | cons hgoes hn hless _ ih =>
    obtain ⟨hrest, f, hf⟩ := hgoes
    rw [upToFrom, hm, if_neg hrest, hf, hn]
    dsimp only
    rw [if_pos hless]
    exact ih rfl

theorem RepeatedUpTo.upToFrom_eq (h : RepeatedUpTo stop p c found stopped d) (hm : m.cursor = c) :
    upToFrom stop p m = broken (m.pushAll found) stopped := by
  cases h with
  | failed h hgoes hf =>
    obtain ⟨hrest, e, he⟩ := hgoes
    rw [h.upToFrom_eq hm, upToFrom, h.cursor_pushAll hm, if_neg hrest, he, hf]
    rfl
  | still h hgoes hn hmore =>
    obtain ⟨hrest, e, he⟩ := hgoes
    rw [h.upToFrom_eq hm, upToFrom, h.cursor_pushAll hm, if_neg hrest, he, hn,
      Match.pushAll_concat]
    exact if_neg hmore
  | halted h hhalts =>
    rw [h.upToFrom_eq hm, upToFrom, h.cursor_pushAll hm]
    rcases hhalts with hend | ⟨e, he⟩
    · exact if_pos hend
    · rw [he]
      exact ite_self _

theorem exists_repeatedUpTo (h : upToFrom stop p m ≠ .endless) :
    ∃ found stopped d, RepeatedUpTo stop p m.cursor found stopped d := by
  fun_induction upToFrom stop p m with
  | case1 m hend => exact ⟨[], none, _, .halted (.nil _) (.inl hend)⟩
  | case2 m hrest hend => exact absurd rfl h
  | case3 m hrest e he => exact ⟨[], none, _, .halted (.nil _) (.inr ⟨e, he⟩)⟩
  | case4 m hrest e he hend => exact absurd rfl h
  | case5 m hrest e he f hf => exact ⟨[], some f, _, .failed (.nil _) ⟨hrest, e, he⟩ hf⟩
  | case6 m hrest e he next hnext hless ih =>
    obtain ⟨found, stopped, d, hfound⟩ := ih h
    exact ⟨next :: found, stopped, d, hfound.cons ⟨hrest, e, he⟩ hnext hless⟩
  | case7 m hrest e he next hnext hmore =>
    exact ⟨[next], none, _, .still (.nil _) ⟨hrest, e, he⟩ hnext hmore⟩

theorem RepeatedUpTo.upTo_run (h : RepeatedUpTo stop p c found stopped d) :
    (upTo stop p).run c = broken (.inRow found d) stopped := by
  rw [← Match.pushAll_start (h.cursor_pushAll rfl)]
  exact h.upToFrom_eq rfl

theorem upTo_run_eq_iff {o : Outcome (Match (List α))} (ho : o ≠ .endless) :
    (upTo stop p).run c = o ↔
      ∃ found stopped d, RepeatedUpTo stop p c found stopped d ∧
        broken (.inRow found d) stopped = o := by
  constructor
  · rintro rfl
    obtain ⟨found, stopped, d, hfound⟩ := exists_repeatedUpTo ho
    exact ⟨found, stopped, d, hfound, hfound.upTo_run.symm⟩
  · rintro ⟨found, stopped, d, hfound, h⟩
    exact hfound.upTo_run.trans h

theorem upTo_run_eq_done_iff :
    (upTo stop p).run c = .done n ↔
      ∃ found, RepeatedUpTo stop p c found none n.cursor ∧ n.value = found.map Match.value ∧
        n.recovered = Failure.foremost (found.filterMap Match.recovered) := by
  rw [upTo_run_eq_iff (o := .done n) nofun]
  constructor
  · rintro ⟨found, stopped, d, hfound, h⟩
    cases stopped with
    | some f => cases h
    | none =>
      obtain rfl := Outcome.done.inj h
      exact ⟨found, hfound, rfl, rfl⟩
  · rintro ⟨found, hfound, hn⟩
    exact ⟨found, none, n.cursor, hfound, congrArg Outcome.done (Match.inRow_eq_iff.mpr hn)⟩

theorem upTo_run_eq_failed_iff :
    (upTo stop p).run c = .failed g ↔
      ∃ found f d, RepeatedUpTo stop p c found (some f) d ∧
        g = f.reportedBehind (found.filterMap Match.recovered) := by
  rw [upTo_run_eq_iff (o := .failed g) nofun]
  constructor
  · rintro ⟨found, stopped, d, hfound, h⟩
    cases stopped with
    | some f =>
      obtain rfl := Outcome.failed.inj h
      exact ⟨found, f, d, hfound, Failure.orRecovered_foremost _ _⟩
    | none => cases h
  · rintro ⟨found, f, d, hfound, rfl⟩
    exact ⟨found, some f, d, hfound, congrArg Outcome.failed (Failure.orRecovered_foremost _ _)⟩

end Repetition

/-! ## Conversions -/

section Refine

variable {p : Parser α} {convert : α → Except Problem β} {c : Cursor} {m : Match β} {g : Failure}

theorem refine_run_eq_done_iff :
    (p.refine convert).run c = .done m ↔
      ∃ n, p.run c = .done n ∧ convert n.value = .ok m.value ∧ m.cursor = n.cursor ∧
        m.recovered = n.recovered := by
  simp only [refine, Outcome.bind_eq_done_iff]
  constructor
  · rintro ⟨n, hn, h⟩
    split at h
    · next value hvalue =>
      obtain rfl := Outcome.done.inj h
      exact ⟨n, hn, hvalue, rfl, rfl⟩
    · cases h
  · rintro ⟨n, hn, hvalue, hcursor, hrecovered⟩
    refine ⟨n, hn, ?_⟩
    rw [hvalue, ← hcursor, ← hrecovered]

theorem refine_run_eq_failed_iff :
    (p.refine convert).run c = .failed g ↔
      p.run c = .failed g ∨
        ∃ n problem, p.run c = .done n ∧ convert n.value = .error problem ∧
          g = Failure.reportedBehind ⟨problem, c.position⟩ n.recovered.toList := by
  simp only [refine]
  cases hp : p.run c with
  | endless => simp
  | failed f => simp
  | done n =>
    rw [Outcome.bind_done]
    cases hconvert : convert n.value with
    | ok value => simp [hconvert]
    | error problem =>
      simp only [Outcome.failed.injEq, reduceCtorEq, false_or, Outcome.done.injEq,
        ← Failure.orRecovered_foremost, Failure.foremost_toList]
      constructor
      · rintro rfl
        exact ⟨n, problem, rfl, hconvert, rfl⟩
      · rintro ⟨_, _, rfl, hproblem, rfl⟩
        rw [hconvert] at hproblem
        obtain rfl := Except.error.inj hproblem
        rfl

end Refine

/-! ## The rule -/

/-- A success keeps the foremost of the failures that its matches recovered from; for a
repetition the failure that stopped it is the last of them.  A failure is that of the part that
failed, of the attempt that stopped too early, of the match that was one too few or of the
conversion, unless the foremost of those that were recovered from before it got further. -/
theorem failures_ranked (parts : List (Parser α)) (p : Parser α) (stop : Parser β)
    (convert : α → Except Problem γ) (minimum : Nat) (c : Cursor) :
    ((∀ m, (sequence parts).run c = .done m ↔
        ∃ found, InTurn parts c found m.cursor ∧ m.value = found.map Match.value ∧
          m.recovered = Failure.foremost (found.filterMap Match.recovered)) ∧
      ∀ g, (sequence parts).run c = .failed g ↔
        ∃ before q after found d f, parts = before ++ q :: after ∧ InTurn before c found d ∧
          q.run d = .failed f ∧ g = f.reportedBehind (found.filterMap Match.recovered)) ∧
    ((∀ m, (atLeast minimum p).run c = .done m ↔
        ∃ found stopped, p.Repeated c found stopped m.cursor ∧ minimum ≤ found.length ∧
          m.value = found.map Match.value ∧
          m.recovered = Failure.foremost (found.filterMap Match.recovered ++ stopped.toList)) ∧
      ∀ g, (atLeast minimum p).run c = .failed g ↔
        ∃ found stopped d, p.Repeated c found stopped d ∧ found.length < minimum ∧
          g = (stopped.getD (tooFew p found.length minimum d)).reportedBehind
            (found.filterMap Match.recovered)) ∧
    ((∀ m, (upTo stop p).run c = .done m ↔
        ∃ found, RepeatedUpTo stop p c found none m.cursor ∧ m.value = found.map Match.value ∧
          m.recovered = Failure.foremost (found.filterMap Match.recovered)) ∧
      ∀ g, (upTo stop p).run c = .failed g ↔
        ∃ found f d, RepeatedUpTo stop p c found (some f) d ∧
          g = f.reportedBehind (found.filterMap Match.recovered)) ∧
    (∀ m, (p.refine convert).run c = .done m ↔
        ∃ n, p.run c = .done n ∧ convert n.value = .ok m.value ∧ m.cursor = n.cursor ∧
          m.recovered = n.recovered) ∧
      ∀ g, (p.refine convert).run c = .failed g ↔
        p.run c = .failed g ∨
          ∃ n problem, p.run c = .done n ∧ convert n.value = .error problem ∧
            g = Failure.reportedBehind ⟨problem, c.position⟩ n.recovered.toList :=
  ⟨⟨fun _ => sequence_run_eq_done_iff, fun _ => sequence_run_eq_failed_iff⟩,
    ⟨fun _ => atLeast_run_eq_done_iff, fun _ => atLeast_run_eq_failed_iff⟩,
    ⟨fun _ => upTo_run_eq_done_iff, fun _ => upTo_run_eq_failed_iff⟩,
    fun _ => refine_run_eq_done_iff, fun _ => refine_run_eq_failed_iff⟩

/-- Two failures at one place: the one that is kept is that of the part in front. -/
example :
    (sequence [(literal "a" 1).optional, (literal "b" 2).optional]).run (.start ["x"]) =
      .done ⟨[none, none], ⟨0, ["x"]⟩, some ⟨.uninterpretable "'a'" (some "x"), 0⟩⟩ := by
  decide +kernel

end Parser
end SimControl
