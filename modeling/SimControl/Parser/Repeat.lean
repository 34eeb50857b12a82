/-
Repetition: as often as possible, with separators, or up to a stop.

A repetition goes round only while the tokens ahead get fewer, and that is its
measure.  A round that takes nothing would be followed by the same round for ever:
`atLeast` and `upTo` stop after it, and `separated`, which has no such guard, is
endless.

The number of tokens ahead stands for the place.  As long as no match moves back, it
gets smaller exactly if the place changes (`Cursor.Leads.position_eq_iff`), and then
these recursions answer what the loops answer that ask for the place alone
(`ends_repeatRound`, `ends_upToRound`, `ends_separatedRound`).  No parser that is
built from the primitives moves back (`Composed.bounded`).  Behind a match that does, a loop
would go round again, and here the repetition stops or is endless.
-/
import SimControl.Parser.Choice

namespace SimControl
namespace Parser

variable {α β : Type}

/-- A repetition of `p` has `provided` values, fewer than `expected`, at `c`. -/
def tooFew (p : Parser α) (provided expected : Nat) (c : Cursor) : Failure :=
  ⟨.objection (.tooFew p.description provided expected), c.position⟩

/-! ## As often as possible -/

/-- Repeat `p` from where `m` ended. -/
def repeatFrom (minimum : Nat) (p : Parser α) (m : Match (List α)) : Outcome (Match (List α)) :=
  match p.run m.cursor with
  | .endless => .endless
  | .failed failure =>
      if m.value.length < minimum then .failed (failure.orRecovered m.recovered)
      else .done (m.recovering (some failure))
  | .done next =>
      if next.cursor.rest.length < m.cursor.rest.length then
        repeatFrom minimum p (m.push next)
      else if (m.push next).value.length < minimum then
        .failed ((tooFew p (m.push next).value.length minimum next.cursor).orRecovered
          (m.push next).recovered)
      else .done (m.push next)
termination_by m.cursor.rest.length

/-- `p` until it fails, `minimum` times or more. -/
def atLeast (minimum : Nat) (p : Parser α) : Parser (List α) where
  description := p.description ++ "\x7b" ++ toString minimum ++ ",\x7d"
  run c := repeatFrom minimum p ⟨[], c, none⟩

/-- `p` until it fails. -/
def many (p : Parser α) : Parser (List α) := atLeast 0 p

/-- Any of `branches`, `minimum` times or more. -/
def manyOf (minimum : Nat) (branches : List (Parser α)) : Parser (List α) :=
  atLeast minimum (oneOf branches)

/-! ## With separators -/

/-- Repeat `separator` and `p` from where `m` ended.  A separator that no item
follows is left unread; the failure of the item that was sought there is given
beside the match. -/
def separatedFrom (p : Parser α) (separator : Parser β) (m : Match (List α)) :
    Outcome (Match (List α) × Option Failure) :=
  match separator.run m.cursor with
  | .endless => .endless
  | .failed _ => .done (m, none)
  | .done between =>
      match p.run between.cursor with
      | .endless => .endless
      | .failed failure => .done (m, some failure)
      | .done next =>
          if next.cursor.rest.length < m.cursor.rest.length then
            separatedFrom p separator (m.push next)
          else .endless
termination_by m.cursor.rest.length

/-- `p`, `minimum` times or more, with `separator` between any two. -/
def separated (minimum : Nat) (p : Parser α) (separator : Parser β) : Parser (List α) where
  description :=
    p.description ++ " [" ++ separator.description ++ " " ++ p.description ++ " ...]"
  run c :=
    match p.run c with
    | .endless => .endless
    | .failed failure =>
        if minimum = 0 then .done ⟨[], c, some failure⟩ else .failed failure
    | .done first =>
        (separatedFrom p separator (first.map ([·]))).bind fun (m, stopped) =>
          if m.value.length < minimum then
            .failed ((stopped.getD (tooFew p m.value.length minimum m.cursor)).orRecovered
              m.recovered)
          else .done (m.recovering stopped)

/-! ## Up to a stop -/

/-- Repeat `p` from where `m` ended, as long as `stop` does not match. -/
def upToFrom (stop : Parser β) (p : Parser α) (m : Match (List α)) : Outcome (Match (List α)) :=
  if m.cursor.rest = [] then .done m
  else
    match stop.run m.cursor with
    | .endless => .endless
    | .done _ => .done m
    | .failed _ =>
        match p.run m.cursor with
        | .endless => .endless
        | .failed failure => .failed (failure.orRecovered m.recovered)
        | .done next =>
            if next.cursor.rest.length < m.cursor.rest.length then
              upToFrom stop p (m.push next)
            else .done (m.push next)
termination_by m.cursor.rest.length

/-- `p` until `stop` would match or the tokens end.  What stops it is not taken. -/
def upTo (stop : Parser β) (p : Parser α) : Parser (List α) where
  description := p.description ++ " ... [" ++ stop.description ++ "]"
  run c := upToFrom stop p ⟨[], c, none⟩

end Parser
end SimControl
