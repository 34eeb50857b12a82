/-
Parsers that always answer.

A parser is steady if no run is endless and no match leaves more tokens ahead than
there were.  Every primitive is steady and every combinator keeps it, except that a
separated repetition needs a separator that takes a token.
-/
import SimControl.Parser.Enumerated
import SimControl.Parser.Repeat
import SimControl.Parser.Sequence

namespace SimControl
namespace Parser

variable {α β γ δ : Type}

/-- Every run gives an answer, and no match moves back. -/
structure Steady (p : Parser α) : Prop where
  ends (c : Cursor) : p.run c ≠ .endless
  forward {c : Cursor} {m : Match α} :
    p.run c = .done m → m.cursor.rest.length ≤ c.rest.length

/-- Every match takes a token. -/
def Consuming (p : Parser α) : Prop :=
  ∀ (c : Cursor) (m : Match α), p.run c = .done m → m.cursor.rest.length < c.rest.length

/-! ## Primitives -/

theorem consuming_single (description : String) (read : Token → Except Problem α) :
    (single description read).Consuming := by
  intro c m h
  simp only [single] at h
  split at h
  · cases h
  · next hrest =>
    split at h
    · obtain rfl := Outcome.done.inj h
      simp [hrest]
    · cases h

theorem steady_single (description : String) (read : Token → Except Problem α) :
    (single description read).Steady where
  ends c := by
    simp only [single]
    split
    · simp
    · split <;> simp
  forward h := Nat.le_of_lt (consuming_single description read _ _ h)

theorem steady_reading (description : String) (read : Token → Option α) :
    (reading description read).Steady := steady_single _ _

theorem consuming_literal (text : Token) (value : α) : (literal text value).Consuming :=
  consuming_single _ _

theorem steady_literal (text : Token) (value : α) : (literal text value).Steady :=
  steady_single _ _

/-! ## Adapting -/

theorem Steady.described {p : Parser α} (hp : p.Steady) (description : String) :
    (p.described description).Steady := ⟨hp.ends, hp.forward⟩

theorem Steady.map {p : Parser α} (hp : p.Steady) (f : α → β) : (p.map f).Steady where
  ends c h := by
    simp only [Parser.map, Outcome.map, Outcome.bind_eq_endless_iff] at h
    rcases h with h | ⟨m, _, h⟩
    · exact hp.ends c h
    · cases h
  forward h := by
    simp only [Parser.map, Outcome.map, Outcome.bind_eq_done_iff] at h
    obtain ⟨m, hm, h⟩ := h
    obtain rfl := Outcome.done.inj h
    exact hp.forward hm

theorem Steady.refine {p : Parser α} (hp : p.Steady) (f : α → Except Problem β) :
    (p.refine f).Steady where
  ends c h := by
    simp only [Parser.refine, Outcome.bind_eq_endless_iff] at h
    rcases h with h | ⟨m, _, h⟩
    · exact hp.ends c h
    · split at h <;> cases h
  forward h := by
    simp only [Parser.refine, Outcome.bind_eq_done_iff] at h
    obtain ⟨m, hm, h⟩ := h
    split at h
    · obtain rfl := Outcome.done.inj h
      exact hp.forward hm
    · cases h

theorem Steady.withDefault {p : Parser α} (hp : p.Steady) (default : α) :
    (p.withDefault default).Steady where
  ends c := by
    simp only [Parser.withDefault]
    split
    · simp
    · exact hp.ends c
  forward h := by
    simp only [Parser.withDefault] at h
    split at h
    · obtain rfl := Outcome.done.inj h
      exact Nat.le_refl _
    · exact hp.forward h

theorem Steady.optional {p : Parser α} (hp : p.Steady) : p.optional.Steady :=
  (hp.map some).withDefault none

theorem exhausted_ne_endless (m : Match α) : m.exhausted ≠ .endless := by
  unfold Match.exhausted
  split
  · simp
  · split
    · split <;> simp
    · simp

theorem Steady.exhaustive {p : Parser α} (hp : p.Steady) : p.exhaustive.Steady where
  ends c h := by
    simp only [Parser.exhaustive, Outcome.bind_eq_endless_iff] at h
    rcases h with h | ⟨m, _, h⟩
    · exact hp.ends c h
    · exact exhausted_ne_endless m h
  forward h := hp.forward (exhaustive_run_eq_done_iff.mp h).1

/-- A steady parser gives an answer for every token list. -/
theorem Steady.parse_ne_endless {p : Parser α} (hp : p.Steady) (tokens : List Token) :
    p.parse tokens ≠ .endless := by
  intro h
  simp only [parse, Outcome.map, Outcome.bind_eq_endless_iff] at h
  rcases h with h | ⟨m, _, h⟩
  · exact hp.exhaustive.ends _ h
  · cases h

/-! ## Choice -/

theorem exists_mem_of_attempt_endless {branches : List (Parser α)} {c : Cursor}
    {missed : Option Failure} (h : attempt branches c missed = .endless) :
    ∃ p ∈ branches, p.run c = .endless := by
  induction branches generalizing missed with
  | nil => cases h
  | cons p branches ih =>
    rw [attempt] at h
    split at h
    · cases h
    · obtain ⟨q, hq, hend⟩ := ih h
      exact ⟨q, List.mem_cons_of_mem p hq, hend⟩
    · next hend => exact ⟨p, List.mem_cons_self, hend⟩

theorem attempt_ne_endless {branches : List (Parser α)} (hp : ∀ p ∈ branches, p.Steady)
    (c : Cursor) (missed : Option Failure) : attempt branches c missed ≠ .endless := by
  intro h
  obtain ⟨p, hmem, hend⟩ := exists_mem_of_attempt_endless h
  exact (hp p hmem).ends c hend

theorem forward_of_attempt {branches : List (Parser α)} (hp : ∀ p ∈ branches, p.Steady)
    {c : Cursor} {missed missed' : Option Failure} {m : Match α}
    (h : attempt branches c missed = .hit m missed') :
    m.cursor.rest.length ≤ c.rest.length := by
  induction branches generalizing missed with
  | nil => simp [attempt] at h
  | cons p branches ih =>
    rw [attempt] at h
    split at h
    · next hm =>
      obtain ⟨rfl, _⟩ := Attempt.hit.inj h
      exact (hp p (List.mem_cons_self ..)).forward hm
    · exact ih (fun q hq => hp q (List.mem_cons_of_mem p hq)) h
    · cases h

theorem steady_oneOf {branches : List (Parser α)} (hp : ∀ p ∈ branches, p.Steady) :
    (oneOf branches).Steady where
  ends c := by
    simp only [oneOf]
    split
    · simp
    · simp
    · simp
    · next h => exact absurd h (attempt_ne_endless hp c none)
  forward h := by
    simp only [oneOf] at h
    split at h
    · next hm =>
      obtain rfl := Outcome.done.inj h
      exact forward_of_attempt hp hm
    · cases h
    · cases h
    · cases h

/-! ## Sequences -/

theorem continueWith_ne_endless {q : Parser β} (hq : q.Steady) (m : Match α) (f : α → β → γ) :
    continueWith m q f ≠ .endless := by
  intro h
  simp only [continueWith, Outcome.map, Outcome.bind_eq_endless_iff,
    Outcome.mapFailure_eq_endless_iff] at h
  rcases h with h | ⟨n, _, h⟩
  · exact hq.ends _ h
  · cases h

theorem forward_of_continueWith {q : Parser β} (hq : q.Steady) {m : Match α} {f : α → β → γ}
    {n : Match γ} (h : continueWith m q f = .done n) :
    n.cursor.rest.length ≤ m.cursor.rest.length := by
  simp only [continueWith, Outcome.map, Outcome.bind_eq_done_iff,
    Outcome.mapFailure_eq_done_iff] at h
  obtain ⟨k, hk, h⟩ := h
  obtain rfl := Outcome.done.inj h
  exact hq.forward hk

theorem Steady.pair {p : Parser α} {q : Parser β} (hp : p.Steady) (hq : q.Steady) :
    (p.pair q).Steady where
  ends c h := by
    simp only [Parser.pair, Outcome.bind_eq_endless_iff] at h
    rcases h with h | ⟨m, _, h⟩
    · exact hp.ends c h
    · exact continueWith_ne_endless hq m _ h
  forward h := by
    simp only [Parser.pair, Outcome.bind_eq_done_iff] at h
    obtain ⟨m, hm, h⟩ := h
    exact Nat.le_trans (forward_of_continueWith hq h) (hp.forward hm)

theorem Consuming.pair {p : Parser α} {q : Parser β} (hp : p.Consuming) (hq : q.Steady) :
    (p.pair q).Consuming := by
  intro c m h
  simp only [Parser.pair, Outcome.bind_eq_done_iff] at h
  obtain ⟨n, hn, h⟩ := h
  exact Nat.lt_of_le_of_lt (forward_of_continueWith hq h) (hp c n hn)

theorem steady_triple {p : Parser α} {q : Parser β} {r : Parser γ} (hp : p.Steady)
    (hq : q.Steady) (hr : r.Steady) : (triple p q r).Steady := ((hp.pair hq).pair hr).map _

theorem steady_quadruple {p : Parser α} {q : Parser β} {r : Parser γ} {s : Parser δ}
    (hp : p.Steady) (hq : q.Steady) (hr : r.Steady) (hs : s.Steady) :
    (quadruple p q r s).Steady := ((steady_triple hp hq hr).pair hs).map _

theorem Steady.keyword {p : Parser α} (hp : p.Steady) (text : Token) :
    (Parser.keyword text p).Steady :=
  (((steady_literal text ()).pair hp).map Prod.snd).described _

/-! ## Repetitions -/

theorem repeatFrom_ne_endless {p : Parser α} (hp : p.Steady) (minimum : Nat)
    (m : Match (List α)) : repeatFrom minimum p m ≠ .endless := by
  fun_induction repeatFrom minimum p m with
  | case1 m h => exact absurd h (hp.ends _)
  | case2 m failure h hfew => simp
  | case3 m failure h hfew => simp
  | case4 m next h hless ih => exact ih
  | case5 m next h hless hfew => simp
  | case6 m next h hless hfew => simp

theorem forward_of_repeatFrom {p : Parser α} (hp : p.Steady) {minimum : Nat}
    {m n : Match (List α)} (h : repeatFrom minimum p m = .done n) :
    n.cursor.rest.length ≤ m.cursor.rest.length := by
  fun_induction repeatFrom minimum p m with
  | case1 m hend => cases h
  | case2 m failure hfail hfew => cases h
  | case3 m failure hfail hfew =>
    obtain rfl := Outcome.done.inj h
    exact Nat.le_refl _
  | case4 m next hnext hless ih => exact Nat.le_trans (ih h) (Nat.le_of_lt hless)
  | case5 m next hnext hless hfew => cases h
  | case6 m next hnext hless hfew =>
    obtain rfl := Outcome.done.inj h
    exact hp.forward hnext

theorem steady_atLeast (minimum : Nat) {p : Parser α} (hp : p.Steady) :
    (atLeast minimum p).Steady where
  ends _ := repeatFrom_ne_endless hp minimum _
  forward h := forward_of_repeatFrom hp h

theorem separatedFrom_ne_endless {p : Parser α} {separator : Parser β} (hp : p.Steady)
    (hs : separator.Steady) (htake : separator.Consuming) (m : Match (List α)) :
    separatedFrom p separator m ≠ .endless := by
  fun_induction separatedFrom p separator m with
  | case1 m h => exact absurd h (hs.ends _)
  | case2 m failure h => simp
  | case3 m between hbetween h => exact absurd h (hp.ends _)
  | case4 m between hbetween failure h => simp
  | case5 m between hbetween next h hless ih => exact ih
  | case6 m between hbetween next h hless =>
    exact absurd (Nat.lt_of_le_of_lt (hp.forward h) (htake _ _ hbetween)) hless

theorem forward_of_separatedFrom {p : Parser α} {separator : Parser β}
    {m : Match (List α)} {n : Match (List α) × Option Failure}
    (h : separatedFrom p separator m = .done n) :
    n.1.cursor.rest.length ≤ m.cursor.rest.length := by
  fun_induction separatedFrom p separator m with
  | case1 m hend => cases h
  | case2 m failure hfail =>
    obtain rfl := Outcome.done.inj h
    exact Nat.le_refl _
  | case3 m between hbetween hend => cases h
  | case4 m between hbetween failure hfail =>
    obtain rfl := Outcome.done.inj h
    exact Nat.le_refl _
  | case5 m between hbetween next hnext hless ih =>
    exact Nat.le_trans (ih h) (Nat.le_of_lt hless)
  | case6 m between hbetween next hnext hless => cases h

theorem steady_separated (minimum : Nat) {p : Parser α} {separator : Parser β} (hp : p.Steady)
    (hs : separator.Steady) (htake : separator.Consuming) :
    (separated minimum p separator).Steady where
  ends c h := by
    simp only [separated] at h
    split at h
    · next hend => exact hp.ends c hend
    · split at h <;> cases h
    · next first hfirst =>
      rcases Outcome.bind_eq_endless_iff.mp h with h | ⟨n, _, h⟩
      · exact separatedFrom_ne_endless hp hs htake _ h
      · split at h <;> cases h
  forward h := by
    simp only [separated] at h
    split at h
    · cases h
    · split at h
      · obtain rfl := Outcome.done.inj h
        exact Nat.le_refl _
      · cases h
    · next first hfirst =>
      obtain ⟨n, hn, h⟩ := Outcome.bind_eq_done_iff.mp h
      split at h
      · cases h
      · obtain rfl := Outcome.done.inj h
        exact Nat.le_trans (forward_of_separatedFrom hn) (hp.forward hfirst)

theorem upToFrom_ne_endless {stop : Parser β} {p : Parser α} (hs : ∀ c, stop.run c ≠ .endless)
    (hp : p.Steady) (m : Match (List α)) : upToFrom stop p m ≠ .endless := by
  fun_induction upToFrom stop p m with
  | case1 m hend => simp
  | case2 m hrest h => exact absurd h (hs _)
  | case3 m hrest stopped h => simp
  | case4 m hrest failure hfail h => exact absurd h (hp.ends _)
  | case5 m hrest failure hfail failure' h => simp
  | case6 m hrest failure hfail next h hless ih => exact ih
  | case7 m hrest failure hfail next h hless => simp

theorem forward_of_upToFrom {stop : Parser β} {p : Parser α} (hp : p.Steady)
    {m n : Match (List α)} (h : upToFrom stop p m = .done n) :
    n.cursor.rest.length ≤ m.cursor.rest.length := by
  fun_induction upToFrom stop p m with
  | case1 m hend =>
    obtain rfl := Outcome.done.inj h
    exact Nat.le_refl _
  | case2 m hrest hend => cases h
  | case3 m hrest stopped hstop =>
    obtain rfl := Outcome.done.inj h
    exact Nat.le_refl _
  | case4 m hrest failure hfail hend => cases h
  | case5 m hrest failure hfail failure' hfail' => cases h
  | case6 m hrest failure hfail next hnext hless ih =>
    exact Nat.le_trans (ih h) (Nat.le_of_lt hless)
  | case7 m hrest failure hfail next hnext hless =>
    obtain rfl := Outcome.done.inj h
    exact hp.forward hnext

theorem steady_upTo {stop : Parser β} {p : Parser α} (hs : stop.Steady) (hp : p.Steady) :
    (upTo stop p).Steady where
  ends _ := upToFrom_ne_endless hs.ends hp _
  forward h := forward_of_upToFrom hp h

/-! ## Gathering -/

theorem scanFrom_ne_none [Accumulator α] {parts : List (Parser α)}
    (hp : ∀ p ∈ parts, p.Steady) (s : Scan α) : scanFrom parts s ≠ none := by
  fun_induction scanFrom parts s with
  | case1 s hend => simp
  | case2 s hrest h => exact absurd h (attempt_ne_endless hp _ _)
  | case3 s hrest missed h => simp
  | case4 s hrest next missed h found hless ih => exact ih
  | case5 s hrest next missed h found hless => simp

theorem forward_of_scanFrom [Accumulator α] {parts : List (Parser α)}
    (hp : ∀ p ∈ parts, p.Steady) {s t : Scan α} (h : scanFrom parts s = some t) :
    t.found.cursor.rest.length ≤ s.found.cursor.rest.length := by
  fun_induction scanFrom parts s with
  | case1 s hend =>
    obtain rfl := Option.some.inj h
    exact Nat.le_refl _
  | case2 s hrest hend => cases h
  | case3 s hrest missed hmiss =>
    obtain rfl := Option.some.inj h
    exact Nat.le_refl _
  | case4 s hrest next missed hhit found hless ih =>
    exact Nat.le_trans (ih h) (Nat.le_of_lt hless)
  | case5 s hrest next missed hhit found hless =>
    obtain rfl := Option.some.inj h
    have hnext := forward_of_attempt hp hhit
    exact hnext

theorem steady_gather [Accumulator α] (minimum : Nat) {parts : List (Parser α)}
    (hp : ∀ p ∈ parts, p.Steady) : (gather minimum parts).Steady where
  ends c h := by
    simp only [gather] at h
    split at h
    · next hnone => exact scanFrom_ne_none hp _ hnone
    · split at h <;> cases h
  forward h := by
    simp only [gather] at h
    split at h
    · cases h
    · next s hs =>
      split at h
      · cases h
      · obtain rfl := Outcome.done.inj h
        exact forward_of_scanFrom hp hs

/-! ## Words of an enumerated type -/

variable [Enumerated α]

theorem steady_of_mem_literals {text : α → Token} {p : Parser α} (hp : p ∈ literals text) :
    p.Steady := by
  obtain ⟨a, _, rfl⟩ := List.mem_map.mp hp
  exact steady_literal ..

theorem steady_oneSpelled (text : α → Token) : (oneSpelled text).Steady :=
  steady_oneOf fun _ hp => steady_of_mem_literals hp

theorem steady_named (description : String) (name : α → String) :
    (named description name).Steady := steady_reading ..

theorem steady_of_mem_flags [DecidableEq α] {text : α → Token} {p : Parser (EnumSet α)}
    (hp : p ∈ flags text) : p.Steady := by
  obtain ⟨q, hq, rfl⟩ := List.mem_map.mp hp
  exact (steady_of_mem_literals hq).map _

theorem steady_flagSet [DecidableEq α] (minimum : Nat) (text : α → Token) :
    (flagSet minimum text).Steady :=
  steady_gather minimum fun _ hp => steady_of_mem_flags hp

end Parser
end SimControl
