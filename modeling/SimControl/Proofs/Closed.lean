/-
Parsers for which a token is as good as the end of the tokens.

`ClosedBy t p` compares two runs of `p`: over some tokens, and over the same tokens with
`t` and anything else behind them.  They succeed or fail together, and a success has the
same value at the same place.  So `p` never takes a `t` that stands behind the tokens, and
it never needs one.

Failures are not compared, and neither is what a match recovered from: at the end of the
tokens they are about a missing token, and elsewhere about `t`.
-/
import SimControl.Proofs.Heads

namespace SimControl

/-- The cursor with `tail` behind all the tokens ahead. -/
def Cursor.followedBy (c : Cursor) (tail : List Token) : Cursor := ⟨c.position, c.rest ++ tail⟩

theorem Cursor.rest_followedBy (c : Cursor) (tail : List Token) :
    (c.followedBy tail).rest = c.rest ++ tail := rfl

theorem Cursor.length_followedBy (c : Cursor) (tail : List Token) :
    (c.followedBy tail).rest.length = c.rest.length + tail.length := List.length_append

/-- The same value, read from the same tokens, with `tail` left behind by `n` only. -/
structure Match.Agrees {α : Type} (tail : List Token) (m n : Match α) : Prop where
  value : n.value = m.value
  cursor : n.cursor = m.cursor.followedBy tail

namespace Match.Agrees

variable {α β γ : Type} {tail : List Token}

theorem map {m n : Match α} (h : m.Agrees tail n) (f : α → β) : (m.map f).Agrees tail (n.map f) :=
  ⟨congrArg f h.value, h.cursor⟩

theorem andThen {m m' : Match α} {n n' : Match β} (hm : m.Agrees tail m') (hn : n.Agrees tail n')
    (f : α → β → γ) : (m.andThen n f).Agrees tail (m'.andThen n' f) where
  value := by
    show f m'.value n'.value = f m.value n.value
    rw [hm.value, hn.value]
  cursor := hn.cursor

theorem push {m m' : Match (List α)} {n n' : Match α} (hm : m.Agrees tail m')
    (hn : n.Agrees tail n') : (m.push n).Agrees tail (m'.push n') := hm.andThen hn _

/-- Progress is the same on both sides. -/
theorem length_lt_iff {m m' : Match α} {n n' : Match β} (hm : m.Agrees tail m')
    (hn : n.Agrees tail n') : n'.cursor.rest.length < m'.cursor.rest.length ↔
      n.cursor.rest.length < m.cursor.rest.length := by
  rw [hm.cursor, hn.cursor, Cursor.length_followedBy, Cursor.length_followedBy]
  omega

end Match.Agrees

inductive Outcome.Agrees {α : Type} (tail : List Token) :
    Outcome (Match α) → Outcome (Match α) → Prop
  | done {m n : Match α} (h : m.Agrees tail n) : Agrees tail (.done m) (.done n)
  | failed (f g : Failure) : Agrees tail (.failed f) (.failed g)
  | endless : Agrees tail .endless .endless

namespace Outcome.Agrees

variable {α : Type} {tail : List Token} {o o' : Outcome (Match α)}

theorem of_done (h : o.Agrees tail o') {m : Match α} (ho : o = .done m) :
    ∃ n, o' = .done n ∧ m.Agrees tail n := by
  subst ho
  cases h with
  | done hm => exact ⟨_, rfl, hm⟩

theorem of_failed (h : o.Agrees tail o') {f : Failure} (ho : o = .failed f) :
    ∃ g, o' = .failed g := by
  subst ho
  cases h with
  | failed f g => exact ⟨g, rfl⟩

theorem of_endless (h : o.Agrees tail o') (ho : o = .endless) : o' = .endless := by
  subst ho
  cases h
  rfl

end Outcome.Agrees

namespace Parser

variable {α β γ : Type} {t : Token}

/-- `p` does the same in front of `t` as at the end of the tokens. -/
def ClosedBy (t : Token) (p : Parser α) : Prop :=
  ∀ (tail : List Token) (c : Cursor),
    (p.run c).Agrees (t :: tail) (p.run (c.followedBy (t :: tail)))

theorem ClosedBy.run_at {p : Parser α} (hp : p.ClosedBy t) {tail : List Token} {m n : Match β}
    (hm : m.Agrees (t :: tail) n) : (p.run m.cursor).Agrees (t :: tail) (p.run n.cursor) := by
  rw [hm.cursor]
  exact hp tail m.cursor

/-! ## Single parsers -/

/-- A parser of one token looks no further than that token. -/
theorem agrees_single (description : String) (read : Token → Except Problem α) (tail : List Token)
    {c : Cursor} (hrest : c.rest ≠ []) :
    ((single description read).run c).Agrees tail
      ((single description read).run (c.followedBy tail)) := by
  obtain ⟨position, rest⟩ := c
  cases rest with
  | nil => exact absurd rfl hrest
  | cons token rest =>
    simp only [single, Cursor.followedBy, List.cons_append]
    cases read token with
    | ok value => exact .done ⟨rfl, rfl⟩
    | error problem => exact .failed ..

/-- To be closed by `t`, a parser of one token has to refuse it. -/
theorem closedBy_single {description : String} {read : Token → Except Problem α}
    (h : ∃ problem, read t = .error problem) : (single description read).ClosedBy t := by
  intro tail c
  by_cases hrest : c.rest = []
  · obtain ⟨problem, hread⟩ := h
    simp only [single, Cursor.followedBy, hrest, List.nil_append, hread]
    exact .failed ..
  · exact agrees_single description read _ hrest

theorem closedBy_reading {description : String} {read : Token → Option α} (h : read t = none) :
    (reading description read).ClosedBy t :=
  closedBy_single ⟨.uninterpretable description (some t), by rw [h]⟩

theorem closedBy_literal {text : Token} (value : α) (h : t ≠ text) :
    (literal text value).ClosedBy t := closedBy_reading (if_neg h)

theorem ClosedBy.described {p : Parser α} (hp : p.ClosedBy t) (description : String) :
    (p.described description).ClosedBy t := hp

theorem ClosedBy.map {p : Parser α} (hp : p.ClosedBy t) (f : α → β) : (p.map f).ClosedBy t := by
  intro tail c
  have hrun := hp tail c
  simp only [Parser.map]
  generalize p.run c = o, p.run (c.followedBy (t :: tail)) = o' at hrun
  cases hrun with
  | done h => exact .done (h.map f)
  | failed => exact .failed ..
  | endless => exact .endless

theorem ClosedBy.refine {p : Parser α} (hp : p.ClosedBy t) (f : α → Except Problem β) :
    (p.refine f).ClosedBy t := by
  intro tail c
  have hrun := hp tail c
  simp only [Parser.refine]
  generalize p.run c = o, p.run (c.followedBy (t :: tail)) = o' at hrun
  cases hrun with
  | failed => exact .failed ..
  | endless => exact .endless
  | @done m n h =>
    simp only [Outcome.bind_done, h.value]
    cases f m.value with
    | ok value => exact .done ⟨rfl, h.cursor⟩
    | error problem => exact .failed ..

theorem ClosedBy.withDefault {p : Parser α} (hp : p.ClosedBy t) (default : α) :
    (p.withDefault default).ClosedBy t := by
  intro tail c
  have hrun := hp tail c
  simp only [Parser.withDefault]
  generalize p.run c = o, p.run (c.followedBy (t :: tail)) = o' at hrun
  cases hrun with
  | done h => exact .done h
  | failed => exact .done ⟨rfl, rfl⟩
  | endless => exact .endless

theorem ClosedBy.optional {p : Parser α} (hp : p.ClosedBy t) : p.optional.ClosedBy t :=
  (hp.map some).withDefault none

/-! ## Choice -/

/-- One pass over closed branches takes the same branch on both sides. -/
inductive AgreesAttempt (tail : List Token) : Attempt α → Attempt α → Prop
  | hit {m n : Match α} {a b : Option Failure} (h : m.Agrees tail n) :
      AgreesAttempt tail (.hit m a) (.hit n b)
  | miss (a b : Option Failure) : AgreesAttempt tail (.miss a) (.miss b)
  | endless : AgreesAttempt tail .endless .endless

theorem agrees_attempt {branches : List (Parser α)} (hp : ∀ p ∈ branches, p.ClosedBy t)
    (tail : List Token) (c : Cursor) (a b : Option Failure) :
    AgreesAttempt (t :: tail) (attempt branches c a)
      (attempt branches (c.followedBy (t :: tail)) b) := by
  induction branches generalizing a b with
  | nil => exact .miss ..
  | cons p branches ih =>
    have hrun := hp p List.mem_cons_self tail c
    rw [attempt, attempt]
    generalize p.run c = o, p.run (c.followedBy (t :: tail)) = o' at hrun
    cases hrun with
    | done h => exact .hit h
    | failed => exact ih (fun q hq => hp q (List.mem_cons_of_mem p hq)) _ _
    | endless => exact .endless

theorem closedBy_oneOf {branches : List (Parser α)} (hp : ∀ p ∈ branches, p.ClosedBy t) :
    (oneOf branches).ClosedBy t := by
  intro tail c
  have hpass := agrees_attempt hp tail c none none
  simp only [oneOf]
  generalize attempt branches c none = x,
    attempt branches (c.followedBy (t :: tail)) none = y at hpass
  cases hpass with
  | hit h => exact .done h
  | miss a b => cases a <;> cases b <;> exact .failed ..
  | endless => exact .endless

/-! ## Sequences -/

theorem agrees_continueWith {q : Parser β} (hq : q.ClosedBy t) {tail : List Token} {m n : Match α}
    (hm : m.Agrees (t :: tail) n) (f : α → β → γ) :
    (continueWith m q f).Agrees (t :: tail) (continueWith n q f) := by
  have hrun := hq.run_at hm
  unfold continueWith
  generalize q.run m.cursor = o, q.run n.cursor = o' at hrun
  cases hrun with
  | done h => exact .done (hm.andThen h f)
  | failed => exact .failed ..
  | endless => exact .endless

theorem ClosedBy.pair {p : Parser α} {q : Parser β} (hp : p.ClosedBy t) (hq : q.ClosedBy t) :
    (p.pair q).ClosedBy t := by
  intro tail c
  have hrun := hp tail c
  simp only [Parser.pair]
  generalize p.run c = o, p.run (c.followedBy (t :: tail)) = o' at hrun
  cases hrun with
  | done h => exact agrees_continueWith hq h _
  | failed => exact .failed ..
  | endless => exact .endless

theorem closedBy_triple {p : Parser α} {q : Parser β} {r : Parser γ} (hp : p.ClosedBy t)
    (hq : q.ClosedBy t) (hr : r.ClosedBy t) : (triple p q r).ClosedBy t :=
  ((hp.pair hq).pair hr).map _

theorem ClosedBy.keyword {p : Parser α} (hp : p.ClosedBy t) {text : Token} (h : t ≠ text) :
    (keyword text p).ClosedBy t := (((closedBy_literal () h).pair hp).map _).described _

/-! ## Repetitions -/

theorem agrees_repeatFrom {p : Parser α} (hp : p.ClosedBy t) (minimum : Nat) {tail : List Token}
    {m n : Match (List α)} (hm : m.Agrees (t :: tail) n) :
    (repeatFrom minimum p m).Agrees (t :: tail) (repeatFrom minimum p n) := by
  have hunfold := repeatFrom.eq_def minimum p
  fun_induction repeatFrom minimum p m generalizing n with
  | case1 m h =>
    rw [hunfold n, (hp.run_at hm).of_endless h]
    exact .endless
  | case2 m failure h hfew =>
    obtain ⟨g, hg⟩ := (hp.run_at hm).of_failed h
    rw [hunfold n, hg, hm.value]
    simp only [if_pos hfew]
    exact .failed ..
  | case3 m failure h hfew =>
    obtain ⟨g, hg⟩ := (hp.run_at hm).of_failed h
    rw [hunfold n, hg, hm.value]
    simp only [if_neg hfew]
    exact .done ⟨hm.value, hm.cursor⟩
  | case4 m next h hless ih =>
    obtain ⟨next', hnext', hnext⟩ := (hp.run_at hm).of_done h
    rw [hunfold n, hnext']
    simp only [hm.length_lt_iff hnext, if_pos hless]
    exact ih (hm.push hnext)
  | case5 m next h hless hfew =>
    obtain ⟨next', hnext', hnext⟩ := (hp.run_at hm).of_done h
    rw [hunfold n, hnext']
    simp only [hm.length_lt_iff hnext, if_neg hless, (hm.push hnext).value, if_pos hfew]
    exact .failed ..
  | case6 m next h hless hfew =>
    obtain ⟨next', hnext', hnext⟩ := (hp.run_at hm).of_done h
    rw [hunfold n, hnext']
    simp only [hm.length_lt_iff hnext, if_neg hless, (hm.push hnext).value, if_neg hfew]
    exact .done (hm.push hnext)

theorem closedBy_atLeast (minimum : Nat) {p : Parser α} (hp : p.ClosedBy t) :
    (atLeast minimum p).ClosedBy t := fun _ _ => agrees_repeatFrom hp minimum ⟨rfl, rfl⟩

/-- Up to `t`, the items may be such that would take a `t`, since none is tried there. -/
theorem agrees_upToFrom {description : String} {read : Token → Except Problem α} {value : β}
    {tail : List Token} {m n : Match (List α)} (hm : m.Agrees (t :: tail) n) :
    (upToFrom (literal t value) (single description read) m).Agrees (t :: tail)
      (upToFrom (literal t value) (single description read) n) := by
  have hunfold := upToFrom.eq_def (literal t value) (single description read)
  have hsome {m n : Match (List α)} (hm : m.Agrees (t :: tail) n) : n.cursor.rest ≠ [] := by
    simp [hm.cursor, Cursor.rest_followedBy]
  have hitem {m n : Match (List α)} (hm : m.Agrees (t :: tail) n) (hrest : m.cursor.rest ≠ []) :
      ((single description read).run m.cursor).Agrees (t :: tail)
        ((single description read).run n.cursor) := by
    rw [hm.cursor]
    exact agrees_single description read _ hrest
  have hstop {m n : Match (List α)} (hm : m.Agrees (t :: tail) n) (hrest : m.cursor.rest ≠ []) :
      ((literal t value).run m.cursor).Agrees (t :: tail) ((literal t value).run n.cursor) := by
    rw [hm.cursor]
    exact agrees_single _ _ _ hrest
  fun_induction upToFrom (literal t value) (single description read) m generalizing n with
  | case1 m hrest =>
    have hmatch : ∃ next, (literal t value).run n.cursor = .done next := by
      simp [literal, reading, single, hm.cursor, Cursor.rest_followedBy, hrest]
    obtain ⟨next, hnext⟩ := hmatch
    rw [hunfold n, if_neg (hsome hm), hnext]
    exact .done hm
  | case2 m hrest h =>
    rw [hunfold n, if_neg (hsome hm), (hstop hm hrest).of_endless h]
    exact .endless
  | case3 m hrest stopped h =>
    obtain ⟨next, hnext, _⟩ := (hstop hm hrest).of_done h
    rw [hunfold n, if_neg (hsome hm), hnext]
    exact .done hm
  | case4 m hrest failure hfail h =>
    obtain ⟨g, hg⟩ := (hstop hm hrest).of_failed hfail
    rw [hunfold n, if_neg (hsome hm), hg]
    dsimp only
    rw [(hitem hm hrest).of_endless h]
    exact .endless
  | case5 m hrest failure hfail failure' h =>
    obtain ⟨g, hg⟩ := (hstop hm hrest).of_failed hfail
    obtain ⟨g', hg'⟩ := (hitem hm hrest).of_failed h
    rw [hunfold n, if_neg (hsome hm), hg]
    dsimp only
    rw [hg']
    exact .failed ..
  | case6 m hrest failure hfail next h hless ih =>
    obtain ⟨g, hg⟩ := (hstop hm hrest).of_failed hfail
    obtain ⟨next', hnext', hnext⟩ := (hitem hm hrest).of_done h
    rw [hunfold n, if_neg (hsome hm), hg]
    dsimp only
    rw [hnext']
    simp only [hm.length_lt_iff hnext, if_pos hless]
    exact ih (hm.push hnext)
  | case7 m hrest failure hfail next h hless =>
    obtain ⟨g, hg⟩ := (hstop hm hrest).of_failed hfail
    obtain ⟨next', hnext', hnext⟩ := (hitem hm hrest).of_done h
    rw [hunfold n, if_neg (hsome hm), hg]
    dsimp only
    rw [hnext']
    simp only [hm.length_lt_iff hnext, if_neg hless]
    exact .done (hm.push hnext)

theorem closedBy_upTo (value : β) (description : String) (read : Token → Except Problem α) :
    (upTo (literal t value) (single description read)).ClosedBy t :=
  fun _ _ => agrees_upToFrom ⟨rfl, rfl⟩

/-! ## Gathering -/

/-- The same parts found, with `tail` left behind by `u` only. -/
structure AgreesScan (tail : List Token) (s u : Scan α) : Prop where
  found : s.found.Agrees tail u.found
  count : u.count = s.count

theorem agrees_scanFrom [Accumulator α] {parts : List (Parser α)}
    (hclosed : ∀ p ∈ parts, p.ClosedBy t) (hend : ∀ p ∈ parts, p.NeedsToken)
    {tail : List Token} {s u : Scan α} (hs : AgreesScan (t :: tail) s u) :
    (scanFrom parts s).Rel (AgreesScan (t :: tail)) (scanFrom parts u) := by
  have hunfold := scanFrom.eq_def parts
  have hround {s u : Scan α} (hs : AgreesScan (t :: tail) s u) :
      AgreesAttempt (t :: tail) (attempt parts s.found.cursor none)
        (attempt parts u.found.cursor none) := by
    rw [hs.found.cursor]
    exact agrees_attempt hclosed tail _ none none
  have hsome {s u : Scan α} (hs : AgreesScan (t :: tail) s u) : u.found.cursor.rest ≠ [] := by
    simp [hs.found.cursor, Cursor.rest_followedBy]
  fun_induction scanFrom parts s generalizing u with
  | case1 s hrest =>
    obtain ⟨missed, hmiss⟩ := attempt_of_needsToken hend s.found.cursor.position none
    rw [← Cursor.eq_of_rest hrest] at hmiss
    have hpass := hround hs
    rw [hmiss] at hpass
    rw [hunfold u, if_neg (hsome hs)]
    generalize attempt parts u.found.cursor none = x at hpass ⊢
    cases hpass
    exact .some ⟨hs.found, hs.count⟩
  | case2 s hrest h =>
    have hpass := hround hs
    rw [h] at hpass
    rw [hunfold u, if_neg (hsome hs)]
    generalize attempt parts u.found.cursor none = x at hpass ⊢
    cases hpass
    exact .none
  | case3 s hrest missed h =>
    have hpass := hround hs
    rw [h] at hpass
    rw [hunfold u, if_neg (hsome hs)]
    generalize attempt parts u.found.cursor none = x at hpass ⊢
    cases hpass
    exact .some ⟨hs.found, hs.count⟩
  | case4 s hrest next missed h found hless =>
    rename_i ih
    have hpass := hround hs
    rw [h] at hpass
    rw [hunfold u, if_neg (hsome hs)]
    generalize attempt parts u.found.cursor none = x at hpass ⊢
    cases hpass with
    | hit hnext =>
      simp only [hs.found.length_lt_iff hnext, if_pos hless, hs.count]
      exact ih ⟨hs.found.andThen hnext _, rfl⟩
  | case5 s hrest next missed h found =>
    rename_i hless
    have hpass := hround hs
    rw [h] at hpass
    rw [hunfold u, if_neg (hsome hs)]
    generalize attempt parts u.found.cursor none = x at hpass ⊢
    cases hpass with
    | hit hnext =>
      simp only [hs.found.length_lt_iff hnext, if_neg hless, hs.count]
      exact .some ⟨hs.found.andThen hnext _, rfl⟩

theorem closedBy_gather [Accumulator α] (minimum : Nat) {parts : List (Parser α)}
    (hclosed : ∀ p ∈ parts, p.ClosedBy t) (hend : ∀ p ∈ parts, p.NeedsToken) :
    (gather minimum parts).ClosedBy t := by
  intro tail c
  have hstart : AgreesScan (t :: tail) ⟨⟨(Accumulator.identity : α), c, none⟩, 0, none⟩
      ⟨⟨Accumulator.identity, c.followedBy (t :: tail), none⟩, 0, none⟩ := ⟨⟨rfl, rfl⟩, rfl⟩
  have hscan := agrees_scanFrom hclosed hend hstart
  simp only [gather, scan]
  generalize scanFrom parts ⟨⟨Accumulator.identity, c, none⟩, 0, none⟩ = x,
    scanFrom parts ⟨⟨Accumulator.identity, c.followedBy (t :: tail), none⟩, 0, none⟩ = y at hscan
  cases hscan with
  | none => exact .endless
  | @some s u hs =>
    simp only [hs.count]
    by_cases hfew : s.count < minimum
    · simp only [if_pos hfew]
      exact .failed ..
    · simp only [if_neg hfew]
      exact .done ⟨hs.found.value, hs.found.cursor⟩

/-! ## Words of an enumerated type -/

section Enumerated

variable [Enumerated α] {text : α → Token}

theorem closedBy_of_mem_literals (h : ∀ a, t ≠ text a) {p : Parser α} (hp : p ∈ literals text) :
    p.ClosedBy t := by
  obtain ⟨a, _, rfl⟩ := List.mem_map.mp hp
  exact closedBy_literal a (h a)

theorem closedBy_oneSpelled (h : ∀ a, t ≠ text a) : (oneSpelled text).ClosedBy t :=
  closedBy_oneOf fun _ hp => closedBy_of_mem_literals h hp

theorem closedBy_flagSet [DecidableEq α] (minimum : Nat) (h : ∀ a, t ≠ text a) :
    (flagSet minimum text).ClosedBy t := by
  refine closedBy_gather minimum (fun p hp => ?_) fun _ => needsToken_of_mem_flags
  obtain ⟨q, hq, rfl⟩ := List.mem_map.mp hp
  exact (closedBy_of_mem_literals h hq).map _

end Enumerated

end Parser
end SimControl
