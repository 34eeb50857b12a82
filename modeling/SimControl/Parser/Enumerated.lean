/-
Parsers of the words of an enumerated type.
-/
import SimControl.EnumSet
import SimControl.Parser.Gather

namespace SimControl
namespace Parser

variable {α : Type} [Enumerated α]

/-- One literal for each value, spelled by `text`. -/
def literals (text : α → Token) : List (Parser α) :=
  Enumerated.all.map fun a => literal (text a) a

/-- The value that the token spells. -/
def oneSpelled (text : α → Token) : Parser α := oneOf (literals text)

/-- The value whose name is the token. -/
def named (description : String) (name : α → String) : Parser α :=
  reading description fun token => Enumerated.all.find? fun a => name a == token

variable [DecidableEq α]

/-- One flag for each value, spelled by `text`. -/
def flags (text : α → Token) : List (Parser (EnumSet α)) :=
  (literals text).map (map EnumSet.singleton)

/-- The set of `minimum` or more flags, in any order. -/
def flagSet (minimum : Nat) (text : α → Token) : Parser (EnumSet α) :=
  gather minimum (flags text)

end Parser
end SimControl
