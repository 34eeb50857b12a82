/-
Parts in any order and any number, put together as they come.

Each round tries all the parts from the first and takes the first that matches.
Scanning ends with the tokens, with a round in which nothing matches, or with a
match that takes no token.  As in the repetitions, the number of tokens ahead stands
for the place: scanning answers what a loop answers that asks whether the place has
changed, as long as no match moves back (`ends_scanRound`).
-/
import SimControl.Accumulator
import SimControl.Parser.Choice

namespace SimControl

/-- The state of a scan. -/
structure Scan (α : Type) where
  /-- What has been put together so far. -/
  found : Match α
  /-- The number of parts that matched. -/
  count : Nat
  /-- The furthest failure of the last round. -/
  missed : Option Failure
  deriving Repr

namespace Parser

variable {α : Type} [Accumulator α]

/-- Scan for `parts` from the state `s` until nothing more is found, or `none` if a
part is endless. -/
def scanFrom (parts : List (Parser α)) (s : Scan α) : Option (Scan α) :=
  if s.found.cursor.rest = [] then some s
  else
    match attempt parts s.found.cursor none with
    | .endless => none
    | .miss missed => some { s with missed := missed }
    | .hit next missed =>
        let found := s.found.andThen next Accumulator.append
        if next.cursor.rest.length < s.found.cursor.rest.length then
          scanFrom parts ⟨found, s.count + 1, missed⟩
        else some ⟨found, s.count + 1, missed⟩
termination_by s.found.cursor.rest.length

/-- Scan for `parts` from `c`. -/
def scan (parts : List (Parser α)) (c : Cursor) : Option (Scan α) :=
  scanFrom parts ⟨⟨Accumulator.identity, c, none⟩, 0, none⟩

/-- Put together `minimum` or more of `parts`, in any order and with repetitions. -/
def gather (minimum : Nat) (parts : List (Parser α)) : Parser α :=
  let description := "\x7b" ++ ", ".intercalate (parts.map Parser.description) ++ "\x7d"
  { description := description
    run := fun c =>
      match scan parts c with
      | none => .endless
      | some s =>
          if s.count < minimum then
            .failed ((s.missed.getD ⟨.uninterpretable description s.found.cursor.peek,
              s.found.cursor.position⟩).orRecovered s.found.recovered)
          else .done (s.found.recovering s.missed) }

end Parser
end SimControl
