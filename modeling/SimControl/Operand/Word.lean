/-
Tokens that are taken as they are, and numbers.
-/
import SimControl.Number.Binary64
import SimControl.Parser.Repeat

namespace SimControl

/-- The token between two actions, which also ends the arguments of a launch. -/
def separatorToken : Token := "--"

namespace Operand

def separator : Parser Unit := .literal separatorToken ()

/-- Any token at all. -/
def any : Parser String := .reading "String" some

/-- Any token but the separator. -/
def word : Parser String :=
  .reading "String" fun token => if token = separatorToken then none else some token

/-- All the tokens before the next separator. -/
def arguments : Parser (List String) := .upTo separator any

def integer : Parser Int := .reading "Int" fun token => Decimal.word64? token.toList

def double : Parser Binary64 := .reading "Double" fun token => Binary64.ofText? token.toList

end Operand
end SimControl
