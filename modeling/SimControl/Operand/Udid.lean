/-
Unique identifiers of targets: five groups of hexadecimal digits.
-/
import SimControl.Parser.Basic
import SimControl.Text.Cut

namespace SimControl

/-- A target's identifier, in upper case. -/
abbrev Udid := String

namespace Udid

/-- The lengths of the groups, in bytes. -/
def groupLengths : List Nat := [8, 4, 4, 4, 12]

def isHexDigit (c : Char) : Bool :=
  c.isDigit || ('a' ≤ c && c ≤ 'f') || ('A' ≤ c && c ≤ 'F')

def isGroup (group : List Char) (length : Nat) : Bool :=
  (String.ofList group).utf8ByteSize == length && group.all isHexDigit

def isWellFormed (cs : List Char) : Bool :=
  let groups := Text.pieces (· == '-') cs
  groups.length == groupLengths.length &&
    (groups.zip groupLengths).all fun (group, length) => isGroup group length

/-- The identifier that a text spells, whatever the case of its letters. -/
def ofText? (text : String) : Option Udid :=
  if isWellFormed text.toList then some (String.ofList (text.toList.map Char.toUpper)) else none

def parser : Parser Udid := .reading "UDID" ofText?

end Udid
end SimControl
