/-
Locale identifiers: a language, and then a region, script or variant as needed.
-/
import SimControl.Parser.Basic
import SimControl.Text.Cut

namespace SimControl

/-- A locale, as it was written. -/
structure Locale where
  identifier : String
  deriving DecidableEq, Repr

namespace Locale

/-- Letters, in two or three bytes. -/
def isLanguage (cs : List Char) : Bool :=
  let length := (String.ofList cs).utf8ByteSize
  2 ≤ length && length ≤ 3 && cs.all Char.isAlpha

/-- One or more letters and digits. -/
def isSubtag (cs : List Char) : Bool := !cs.isEmpty && cs.all Char.isAlphanum

def isWellFormed (cs : List Char) : Bool :=
  match Text.pieces (fun c => c == '_' || c == '-') cs with
  | [] => false
  | language :: subtags => isLanguage language && subtags.all isSubtag

def ofText? (text : String) : Option Locale :=
  if isWellFormed text.toList then some ⟨text⟩ else none

def parser : Parser Locale := .reading "Locale" ofText?

end Locale
end SimControl
