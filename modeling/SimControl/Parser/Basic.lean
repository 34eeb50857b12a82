/-
Parsers of token lists: one token at a time, and the ways to adapt one parser.

A parser is a description for the user and a run from a cursor.  The two are
independent: nothing that a run does looks at a description, except to quote it
in a problem.  `Parser.parse` is the entry point, a run from the first token that
has to reach the last one.
-/
import SimControl.Outcome

namespace SimControl

/-- How to read a value from the tokens at a cursor. -/
structure Parser (α : Type) where
  /-- What the parser reads, in the words that its problems use. -/
  description : String
  run : Cursor → Outcome (Match α)

/-- A match that is the whole input, or the reason why it is not.  Tokens left over
are blamed on the failure that the match recovered from, if that one lies among
them, since it tells why the match stopped where it did. -/
def Match.exhausted {α : Type} (m : Match α) : Outcome (Match α) :=
  if m.cursor.rest = [] then .done m
  else
    match m.recovered with
    | some failure =>
        if m.cursor.position ≤ failure.offset then .failed failure
        else .failed ⟨.leftover m.cursor.rest, m.cursor.position⟩
    | none => .failed ⟨.leftover m.cursor.rest, m.cursor.position⟩

section Exhausted

variable {α : Type} {m : Match α}

theorem Match.exhausted_of_rest_eq_nil (h : m.cursor.rest = []) : m.exhausted = .done m := if_pos h

theorem Match.exhausted_of_recovered (h : m.cursor.rest ≠ []) {f : Failure}
    (hf : m.recovered = some f) (hle : m.cursor.position ≤ f.offset) :
    m.exhausted = .failed f := by
  rw [Match.exhausted, if_neg h, hf]
  exact if_pos hle

theorem Match.exhausted_of_leftover (h : m.cursor.rest ≠ [])
    (hlt : ∀ f ∈ m.recovered, f.offset < m.cursor.position) :
    m.exhausted = .failed ⟨.leftover m.cursor.rest, m.cursor.position⟩ := by
  rw [Match.exhausted, if_neg h]
  cases hf : m.recovered with
  | none => rfl
  | some f => exact if_neg (Nat.not_le.mpr (hlt f hf))

end Exhausted

namespace Parser

variable {α β : Type}

/-! ## Primitives -/

/-- Take one token and read it. -/
def single (description : String) (read : Token → Except Problem α) : Parser α where
  description := description
  run c :=
    match c.rest with
    | [] => .failed ⟨.uninterpretable description none, c.position⟩
    | token :: rest =>
        match read token with
        | .ok value => .done ⟨value, ⟨c.position + 1, rest⟩, none⟩
        | .error problem => .failed ⟨problem, c.position⟩

/-- Take one token that `read` makes sense of. -/
def reading (description : String) (read : Token → Option α) : Parser α :=
  single description fun token =>
    match read token with
    | some value => .ok value
    | none => .error (.uninterpretable description (some token))

/-- Take the token `text`, which stands for `value`. -/
def literal (text : Token) (value : α) : Parser α :=
  reading ("'" ++ text ++ "'") fun token => if token = text then some value else none

/-- Read `value` from no tokens. -/
def succeed (value : α) : Parser α where
  description := "nothing"
  run c := .done ⟨value, c, none⟩

def fail (problem : Problem) : Parser α where
  description := problem.message
  run c := .failed ⟨problem, c.position⟩

/-! ## Adapting a parser -/

/-- Change the description and nothing else. -/
def described (p : Parser α) (description : String) : Parser α :=
  { p with description := description }

@[simp] theorem described_run (p : Parser α) (description : String) (c : Cursor) :
    (p.described description).run c = p.run c := rfl

def map (f : α → β) (p : Parser α) : Parser β where
  description := p.description
  run c := (p.run c).map (Match.map f)

theorem map_run_eq_done_iff {p : Parser α} {f : α → β} {c : Cursor} {m : Match β} :
    (p.map f).run c = .done m ↔ ∃ n, p.run c = .done n ∧ n.map f = m := by
  simp only [map, Outcome.map, Outcome.bind_eq_done_iff, Outcome.done.injEq]

theorem map_run_eq_failed_iff {p : Parser α} {f : α → β} {c : Cursor} {failure : Failure} :
    (p.map f).run c = .failed failure ↔ p.run c = .failed failure := Outcome.map_eq_failed_iff

/-- Read with `p` and convert or refuse its value.  A refusal is about the place
where `p` started. -/
def refine (p : Parser α) (f : α → Except Problem β) : Parser β where
  description := p.description
  run c := (p.run c).bind fun m =>
    match f m.value with
    | .ok value => .done ⟨value, m.cursor, m.recovered⟩
    | .error problem => .failed (Failure.orRecovered ⟨problem, c.position⟩ m.recovered)

/-- Read `default` from no tokens where `p` fails. -/
def withDefault (p : Parser α) (default : α) : Parser α where
  description := "[" ++ p.description ++ "]"
  run c :=
    match p.run c with
    | .failed failure => .done ⟨default, c, some failure⟩
    | outcome => outcome

/-- Read nothing where `p` fails. -/
def optional (p : Parser α) : Parser (Option α) :=
  (p.map some).withDefault none

/-- Demand that `p` reads all the tokens that are left. -/
def exhaustive (p : Parser α) : Parser α where
  description := p.description
  run c := (p.run c).bind Match.exhausted

theorem exhausted_eq_done_iff {m n : Match α} :
    m.exhausted = .done n ↔ m.cursor.rest = [] ∧ m = n := by
  unfold Match.exhausted
  split
  · simp [*]
  · split
    · split <;> simp [*]
    · simp [*]

theorem exhaustive_run_eq_done_iff {p : Parser α} {c : Cursor} {m : Match α} :
    p.exhaustive.run c = .done m ↔ p.run c = .done m ∧ m.cursor.rest = [] := by
  simp only [exhaustive, Outcome.bind_eq_done_iff, exhausted_eq_done_iff]
  constructor
  · rintro ⟨n, hn, hend, rfl⟩
    exact ⟨hn, hend⟩
  · rintro ⟨hm, hend⟩
    exact ⟨m, hm, hend, rfl⟩

/-! ## Reading a whole token list -/

def parse (p : Parser α) (tokens : List Token) : Outcome α :=
  (p.exhaustive.run (Cursor.start tokens)).map Match.value

theorem parse_eq_done_iff {p : Parser α} {tokens : List Token} {value : α} :
    p.parse tokens = .done value ↔
      ∃ m, p.run (Cursor.start tokens) = .done m ∧ m.cursor.rest = [] ∧ m.value = value := by
  simp only [parse, Outcome.map, Outcome.bind_eq_done_iff, Outcome.done.injEq,
    exhaustive_run_eq_done_iff, and_assoc]

/-! ## One token -/

section Single

variable {description : String} {read : Token → Except Problem α} {t : Token} {a : α}

theorem single_parse_singleton_iff :
    (single description read).parse [t] = .done a ↔ read t = .ok a := by
  rw [parse_eq_done_iff]
  cases h : read t <;> simp [single, Cursor.start, h]

/-- What is read from a token alone is read from it anywhere. -/
theorem single_run_of_parse (h : (single description read).parse [t] = .done a)
    (position : Nat) (rest : List Token) :
    (single description read).run ⟨position, t :: rest⟩ =
      .done ⟨a, ⟨position + 1, rest⟩, none⟩ := by
  simp only [single, single_parse_singleton_iff.mp h]

theorem single_run_of_parse_ne (h : ∀ a, (single description read).parse [t] ≠ .done a)
    (position : Nat) (rest : List Token) :
    ∃ problem, (single description read).run ⟨position, t :: rest⟩ =
      .failed ⟨problem, position⟩ := by
  cases hread : read t with
  | ok a => exact absurd (single_parse_singleton_iff.mpr hread) (h a)
  | error problem => exact ⟨problem, by simp only [single, hread]⟩

theorem reading_parse_singleton_iff {read : Token → Option α} :
    (reading description read).parse [t] = .done a ↔ read t = some a := by
  rw [reading, single_parse_singleton_iff]
  cases read t <;> simp

theorem reading_ite_parse_singleton_iff (accepts : Token → Bool) (value : Token → α) :
    (reading description fun token =>
        if accepts token then some (value token) else none).parse [t] = .done a ↔
      accepts t = true ∧ value t = a := by
  rw [reading_parse_singleton_iff]
  by_cases h : accepts t = true
  · simp [h]
  · simp [h]

end Single

end Parser
end SimControl
