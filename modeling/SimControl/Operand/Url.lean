/-
Uniform resource locators: a scheme, a colon, and something after it.
-/
import SimControl.Parser.Basic

namespace SimControl

/-- A locator, as it was written. -/
structure Url where
  text : String
  deriving DecidableEq, Repr

namespace Url

def isSchemeChar (c : Char) : Bool := c.isAlphanum || c == '+' || c == '-' || c == '.'

/-- A letter, and then letters, digits, and three punctuation marks. -/
def isScheme : List Char → Bool
  | [] => false
  | c :: cs => c.isAlpha && cs.all isSchemeChar

def isWellFormed (cs : List Char) : Bool :=
  match cs.dropWhile (· ≠ ':') with
  | _ :: _ :: _ => isScheme (cs.takeWhile (· ≠ ':'))
  | _ => false

/-- What stands before the first colon. -/
def scheme (url : Url) : String := String.ofList (url.text.toList.takeWhile (· ≠ ':'))

def ofText? (text : String) : Option Url :=
  if isWellFormed text.toList then some ⟨text⟩ else none

def parser : Parser Url := .reading "URL" ofText?

end Url
end SimControl
