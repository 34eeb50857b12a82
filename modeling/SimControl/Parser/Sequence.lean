/-
Parsers one after another.

A later part that fails may be at fault only because an earlier part stopped too
soon, so its failure is weighed against the one that the earlier parts recovered
from, and a sequence that succeeds carries the furthest failure of all its parts.
-/
import SimControl.Parser.Basic

namespace SimControl
namespace Parser

variable {α β γ δ : Type}

/-- Run `p` where `m` ended and combine the two. -/
def continueWith (m : Match α) (p : Parser β) (f : α → β → γ) : Outcome (Match γ) :=
  ((p.run m.cursor).mapFailure (·.orRecovered m.recovered)).map (m.andThen · f)

def pair (p : Parser α) (q : Parser β) : Parser (α × β) where
  description := p.description ++ " " ++ q.description
  run c := (p.run c).bind fun m => continueWith m q Prod.mk

theorem pair_run_eq_done_iff {p : Parser α} {q : Parser β} {c : Cursor} {m : Match (α × β)} :
    (p.pair q).run c = .done m ↔
      ∃ a b, p.run c = .done a ∧ q.run a.cursor = .done b ∧ a.andThen b Prod.mk = m := by
  simp only [pair, continueWith, Outcome.map, Outcome.bind_eq_done_iff,
    Outcome.mapFailure_eq_done_iff, Outcome.done.injEq]
  constructor
  · rintro ⟨a, ha, b, hb, h⟩
    exact ⟨a, b, ha, hb, h⟩
  · rintro ⟨a, b, ha, hb, h⟩
    exact ⟨a, ha, b, hb, h⟩

theorem pair_run_eq_failed_iff {p : Parser α} {q : Parser β} {c : Cursor} {f : Failure} :
    (p.pair q).run c = .failed f ↔
      p.run c = .failed f ∨
        ∃ m e, p.run c = .done m ∧ q.run m.cursor = .failed e ∧ e.orRecovered m.recovered = f := by
  simp only [pair]
  cases hp : p.run c with
  | endless => simp
  | failed e => simp
  | done m =>
    simp only [Outcome.bind_done, continueWith]
    cases hq : q.run m.cursor with
    | endless => simp [hq]
    | done n => simp [hq]
    | failed e => simp [hq]

def triple (p : Parser α) (q : Parser β) (r : Parser γ) : Parser (α × β × γ) :=
  ((p.pair q).pair r).map fun ((a, b), c) => (a, b, c)

def quadruple (p : Parser α) (q : Parser β) (r : Parser γ) (s : Parser δ) :
    Parser (α × β × γ × δ) :=
  ((triple p q r).pair s).map fun ((a, b, c), d) => (a, b, c, d)

theorem quadruple_run_eq_done_iff {p : Parser α} {q : Parser β} {r : Parser γ} {s : Parser δ}
    {c : Cursor} {m : Match (α × β × γ × δ)} :
    (quadruple p q r s).run c = .done m ↔
      ∃ k l n o, p.run c = .done k ∧ q.run k.cursor = .done l ∧ r.run l.cursor = .done n ∧
        s.run n.cursor = .done o ∧
          ⟨(k.value, l.value, n.value, o.value), o.cursor,
            Failure.deepest (Failure.deepest (Failure.deepest k.recovered l.recovered) n.recovered)
              o.recovered⟩ = m := by
  simp only [quadruple, triple, map_run_eq_done_iff, pair_run_eq_done_iff]
  constructor
  · rintro ⟨_, ⟨_, o, ⟨_, ⟨_, n, ⟨k, l, hk, hl, rfl⟩, hn, rfl⟩, rfl⟩, ho, rfl⟩, rfl⟩
    exact ⟨k, l, n, o, hk, hl, hn, ho, rfl⟩
  · rintro ⟨k, l, n, o, hk, hl, hn, ho, rfl⟩
    exact ⟨_, ⟨_, o, ⟨_, ⟨_, n, ⟨k, l, hk, hl, rfl⟩, hn, rfl⟩, rfl⟩, ho, rfl⟩, rfl⟩

/-- Run all of `parts` in order, starting from what `m` has read. -/
def sequenceFrom (m : Match (List α)) : List (Parser α) → Outcome (Match (List α))
  | [] => .done m
  | p :: parts =>
      (continueWith m p fun values value => values ++ [value]).bind (sequenceFrom · parts)

/-- All of `parts`, in order. -/
def sequence (parts : List (Parser α)) : Parser (List α) where
  description := " ".intercalate (parts.map Parser.description)
  run c := sequenceFrom ⟨[], c, none⟩ parts

/-- `q` after `p`, whose value is dropped. -/
def preceded (p : Parser α) (q : Parser β) : Parser β := (p.pair q).map Prod.snd

/-- `p` after the token `text`. -/
def keyword (text : Token) (p : Parser α) : Parser α :=
  (preceded (literal text ()) p).described (text ++ " " ++ p.description)

/-- Once its token is there, a keyword parser is the parser behind the token. -/
theorem keyword_run_cons (text : Token) (p : Parser α) (position : Nat) (rest : List Token) :
    (keyword text p).run ⟨position, text :: rest⟩ = p.run ⟨position + 1, rest⟩ := by
  have hliteral : (literal text ()).run ⟨position, text :: rest⟩ =
      .done ⟨(), ⟨position + 1, rest⟩, none⟩ := by
    simp [literal, reading, single]
  simp only [keyword, preceded, described_run, map, pair, hliteral, Outcome.bind_done,
    continueWith]
  cases p.run ⟨position + 1, rest⟩ <;> rfl

end Parser
end SimControl
