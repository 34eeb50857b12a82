/-
Loops, round by round.

The repetitions are defined by recursion on the tokens that are left, and such a definition
ends whatever the parsers do.  What a repetition is meant to do is a loop: a pass through its
body goes round again, or leaves the loop with a result.  Here the four loops are given by
their bodies alone.  A body knows no measure.  It asks, at most, whether the place has changed.

The recursion computes the loop.  Where no match moves back, each of the guarded loops ends
with the result of the recursion (`ends_repeatRound`, `ends_upToRound`, `ends_scanRound`).
The separated repetition has no guard, and its loop ends with the result of the recursion if
there is one (`ends_separatedRound`).
-/
import SimControl.Proofs.Extent
import SimControl.Proofs.Heads
import SimControl.Proofs.Loop

namespace SimControl

namespace Cursor

variable {c d : Cursor}

theorem Leads.length_add (h : c.Leads d) :
    d.position + d.rest.length = c.position + c.rest.length := h.sourceLength_eq

/-- Where nothing moves back, moving on is to have fewer tokens ahead. -/
theorem Leads.position_lt_iff (h : c.Leads d) :
    c.position < d.position ↔ d.rest.length < c.rest.length := by
  have hlength := h.length_add
  omega

/-- The place stays the same if no token was taken. -/
theorem Leads.position_eq_iff (h : c.Leads d) :
    d.position = c.position ↔ ¬ d.rest.length < c.rest.length := by
  have hlength := h.length_add
  have hle := h.position_le
  omega

theorem Leads.eq_of_position_eq (h : c.Leads d) (hposition : d.position = c.position) : d = c := by
  obtain ⟨passed, hrest, hpassed⟩ := h
  have hnil : passed = [] := List.eq_nil_of_length_eq_zero (by omega)
  obtain ⟨position, rest⟩ := d
  obtain ⟨position', rest'⟩ := c
  subst hnil
  obtain rfl : position = position' := hposition
  obtain rfl : rest' = rest := hrest
  rfl

end Cursor

/-- The state of a scan that has found nothing yet. -/
def Scan.start {α : Type} [Accumulator α] (c : Cursor) : Scan α :=
  ⟨⟨Accumulator.identity, c, none⟩, 0, none⟩

namespace Parser

variable {α β : Type} {p : Parser α} {separator stop : Parser β} {c : Cursor}

/-- A match ends ahead of where the run started. -/
def Forward (p : Parser α) : Prop :=
  ∀ (c : Cursor) (m : Match α), p.run c = .done m → c.Leads m.cursor

/-- Every run gives an answer, and a match ends ahead of where the run started. -/
structure Onward (p : Parser α) : Prop where
  ends (c : Cursor) : p.run c ≠ .endless
  forward : p.Forward

theorem Onward.steady (hp : p.Onward) : p.Steady where
  ends := hp.ends
  forward {c m} h := by
    have hlength := (hp.forward c m h).length_add
    have hle := (hp.forward c m h).position_le
    omega

theorem Bounded.forward (hp : p.Bounded) : p.Forward := fun _ _ h => (hp.done h).leads

theorem Steady.onward (hp : p.Steady) (hbounded : p.Bounded) : p.Onward :=
  ⟨hp.ends, hbounded.forward⟩

theorem onward_literal (text : Token) (value : α) : (literal text value).Onward :=
  (steady_literal text value).onward (Composed.literal text value).bounded

theorem onward_optional_literal (text : Token) (value : α) :
    (literal text value).optional.Onward :=
  (steady_literal text value).optional.onward (Composed.literal text value).optional.bounded

theorem leads_of_attempt {parts : List (Parser α)} (hp : ∀ q ∈ parts, q.Forward)
    {m : Match α} {missed missed' : Option Failure}
    (h : attempt parts c missed = .hit m missed') : c.Leads m.cursor := by
  obtain ⟨q, hmem, hrun⟩ := exists_mem_of_attempt h
  exact hp q hmem c m hrun

/-! ## As often as possible -/

section Repeat

variable {minimum : Nat} {m n : Match (List α)}

/-- One more `p`, until it fails or the place stays the same. -/
def repeatRound (minimum : Nat) (p : Parser α) (m : Match (List α)) :
    Round (Match (List α)) (Outcome (Match (List α))) :=
  match p.run m.cursor with
  | .endless => .exit .endless
  | .failed failure =>
      .exit (if m.value.length < minimum then .failed (failure.orRecovered m.recovered)
        else .done (m.recovering (some failure)))
  | .done next =>
      if next.cursor.position = m.cursor.position then
        .exit (if (m.push next).value.length < minimum then
            .failed ((tooFew p (m.push next).value.length minimum next.cursor).orRecovered
              (m.push next).recovered)
          else .done (m.push next))
      else .again (m.push next)

theorem ends_repeatRound (hp : p.Forward) (minimum : Nat) (m : Match (List α)) :
    Round.Ends (repeatRound minimum p) m (repeatFrom minimum p m) := by
  fun_induction repeatFrom minimum p m with
  | case1 m h =>
    refine .of_exit ?_
    simp only [repeatRound, h]
  | case2 m failure h hfew =>
    refine .of_exit ?_
    simp only [repeatRound, h, if_pos hfew]
  | case3 m failure h hfew =>
    refine .of_exit ?_
    simp only [repeatRound, h, if_neg hfew]
  | case4 m next h hless ih =>
    have hmoved := mt (hp _ _ h).position_eq_iff.mp (not_not_intro hless)
    refine .of_again ?_ ih
    simp only [repeatRound, h, if_neg hmoved]
  | case5 m next h hless hfew =>
    have hsame := (hp _ _ h).position_eq_iff.mpr hless
    refine .of_exit ?_
    simp only [repeatRound, h, if_pos hsame, if_pos hfew]
  | case6 m next h hless hfew =>
    have hsame := (hp _ _ h).position_eq_iff.mpr hless
    refine .of_exit ?_
    simp only [repeatRound, h, if_pos hsame, if_neg hfew]

theorem repeatRound_eq_again (h : repeatRound minimum p m = .again n) :
    ∃ next, p.run m.cursor = .done next ∧ next.cursor.position ≠ m.cursor.position ∧
      m.push next = n := by
  unfold repeatRound at h
  split at h
  · cases h
  · cases h
  · next next hrun =>
    split at h
    · cases h
    · next hmoved => exact ⟨next, hrun, hmoved, Round.again.inj h⟩

theorem repeatRound_eq_exit (h : repeatRound minimum p m = .exit (.done n)) :
    (∃ failure, p.run m.cursor = .failed failure ∧ m.recovering (some failure) = n) ∨
      ∃ next, p.run m.cursor = .done next ∧ next.cursor.position = m.cursor.position ∧
        m.push next = n := by
  unfold repeatRound at h
  split at h
  · cases h
  · next failure hrun =>
    split at h
    · cases h
    · exact .inl ⟨failure, hrun, Outcome.done.inj (Round.exit.inj h)⟩
  · next next hrun =>
    split at h
    · next hsame =>
      split at h
      · cases h
      · exact .inr ⟨next, hrun, hsame, Outcome.done.inj (Round.exit.inj h)⟩
    · cases h

end Repeat

/-! ## Up to a stop -/

section UpTo

variable {m n : Match (List α)}

/-- One more `p`, unless the tokens have ended or `stop` matches. -/
def upToRound (stop : Parser β) (p : Parser α) (m : Match (List α)) :
    Round (Match (List α)) (Outcome (Match (List α))) :=
  if m.cursor.rest = [] then .exit (.done m)
  else
    match stop.run m.cursor with
    | .endless => .exit .endless
    | .done _ => .exit (.done m)
    | .failed _ =>
        match p.run m.cursor with
        | .endless => .exit .endless
        | .failed failure => .exit (.failed (failure.orRecovered m.recovered))
        | .done next =>
            if next.cursor.position = m.cursor.position then .exit (.done (m.push next))
            else .again (m.push next)

theorem ends_upToRound (hp : p.Forward) (stop : Parser β) (m : Match (List α)) :
    Round.Ends (upToRound stop p) m (upToFrom stop p m) := by
  fun_induction upToFrom stop p m with
  | case1 m hend =>
    refine .of_exit ?_
    simp only [upToRound, if_pos hend]
  | case2 m hrest h =>
    refine .of_exit ?_
    simp only [upToRound, if_neg hrest, h]
  | case3 m hrest stopped h =>
    refine .of_exit ?_
    simp only [upToRound, if_neg hrest, h]
  | case4 m hrest failure hfail h =>
    refine .of_exit ?_
    simp only [upToRound, if_neg hrest, hfail, h]
  | case5 m hrest failure hfail failure' h =>
    refine .of_exit ?_
    simp only [upToRound, if_neg hrest, hfail, h]
  | case6 m hrest failure hfail next h hless ih =>
    have hmoved := mt (hp _ _ h).position_eq_iff.mp (not_not_intro hless)
    refine .of_again ?_ ih
    simp only [upToRound, if_neg hrest, hfail, h, if_neg hmoved]
  | case7 m hrest failure hfail next h hless =>
    have hsame := (hp _ _ h).position_eq_iff.mpr hless
    refine .of_exit ?_
    simp only [upToRound, if_neg hrest, hfail, h, if_pos hsame]

theorem upToRound_eq_again (h : upToRound stop p m = .again n) :
    ∃ next, p.run m.cursor = .done next ∧ next.cursor.position ≠ m.cursor.position ∧
      m.push next = n := by
  unfold upToRound at h
  split at h
  · cases h
  · split at h
    · cases h
    · cases h
    · split at h
      · cases h
      · cases h
      · next next hrun =>
        split at h
        · cases h
        · next hmoved => exact ⟨next, hrun, hmoved, Round.again.inj h⟩

theorem upToRound_eq_exit (h : upToRound stop p m = .exit (.done n)) :
    ((m.cursor.rest = [] ∨ ∃ stopped, stop.run m.cursor = .done stopped) ∧ m = n) ∨
      ∃ next, p.run m.cursor = .done next ∧ next.cursor.position = m.cursor.position ∧
        m.push next = n := by
  unfold upToRound at h
  split at h
  · next hend => exact .inl ⟨.inl hend, Outcome.done.inj (Round.exit.inj h)⟩
  · split at h
    · cases h
    · next stopped hstop =>
      exact .inl ⟨.inr ⟨stopped, hstop⟩, Outcome.done.inj (Round.exit.inj h)⟩
    · split at h
      · cases h
      · cases h
      · next next hrun =>
        split at h
        · next hsame => exact .inr ⟨next, hrun, hsame, Outcome.done.inj (Round.exit.inj h)⟩
        · cases h

end UpTo

/-! ## Gathering -/

section Gather

variable [Accumulator α] {parts : List (Parser α)} {s t : Scan α}

/-- One more of `parts`, until the tokens end, none matches or the place stays the same. -/
def scanRound (parts : List (Parser α)) (s : Scan α) : Round (Scan α) (Option (Scan α)) :=
  if s.found.cursor.rest = [] then .exit (some s)
  else
    match attempt parts s.found.cursor none with
    | .endless => .exit none
    | .miss missed => .exit (some { s with missed := missed })
    | .hit next missed =>
        let found := s.found.andThen next Accumulator.append
        if next.cursor.position = s.found.cursor.position then
          .exit (some ⟨found, s.count + 1, missed⟩)
        else .again ⟨found, s.count + 1, missed⟩

theorem ends_scanRound (hp : ∀ q ∈ parts, q.Forward) (s : Scan α) :
    Round.Ends (scanRound parts) s (scanFrom parts s) := by
  fun_induction scanFrom parts s with
  | case1 s hend =>
    refine .of_exit ?_
    simp only [scanRound, if_pos hend]
  | case2 s hrest h =>
    refine .of_exit ?_
    simp only [scanRound, if_neg hrest, h]
  | case3 s hrest missed h =>
    refine .of_exit ?_
    simp only [scanRound, if_neg hrest, h]
  | case4 s hrest next missed h found hless ih =>
    have hmoved := mt (leads_of_attempt hp h).position_eq_iff.mp (not_not_intro hless)
    refine .of_again ?_ ih
    simp only [scanRound, if_neg hrest, h, if_neg hmoved, found]
  | case5 s hrest next missed h found hless =>
    have hsame := (leads_of_attempt hp h).position_eq_iff.mpr hless
    refine .of_exit ?_
    simp only [scanRound, if_neg hrest, h, if_pos hsame, found]

end Gather

/-! ## With separators -/

section Separated

variable {m n : Match (List α)}

/-- One more `p` behind a `separator`, until one of the two fails.  That the place has changed
is not asked. -/
def separatedRound (p : Parser α) (separator : Parser β) (m : Match (List α)) :
    Round (Match (List α)) (Outcome (Match (List α) × Option Failure)) :=
  match separator.run m.cursor with
  | .endless => .exit .endless
  | .failed _ => .exit (.done (m, none))
  | .done between =>
      match p.run between.cursor with
      | .endless => .exit .endless
      | .failed failure => .exit (.done (m, some failure))
      | .done next => .again (m.push next)

theorem separatedRound_of_done {between : Match β} {next : Match α}
    (hbetween : separator.run m.cursor = .done between)
    (hnext : p.run between.cursor = .done next) :
    separatedRound p separator m = .again (m.push next) := by
  simp only [separatedRound, hbetween, hnext]

theorem ends_separatedRound (h : separatedFrom p separator m ≠ .endless) :
    Round.Ends (separatedRound p separator) m (separatedFrom p separator m) := by
  fun_induction separatedFrom p separator m with
  | case1 m hend => exact absurd rfl h
  | case2 m failure hfail =>
    refine .of_exit ?_
    simp only [separatedRound, hfail]
  | case3 m between hbetween hend => exact absurd rfl h
  | case4 m between hbetween failure hfail =>
    refine .of_exit ?_
    simp only [separatedRound, hbetween, hfail]
  | case5 m between hbetween next hnext hless ih =>
    exact .of_again (separatedRound_of_done hbetween hnext) (ih h)
  | case6 m between hbetween next hnext hless => exact absurd rfl h

end Separated

end Parser
end SimControl
