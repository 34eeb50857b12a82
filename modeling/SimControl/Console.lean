/-
What the user sees of reading a command line.

A command line that cannot be read is answered by the problem, by the line itself with
a caret below the token that is to blame, and by a reminder of the usage.
-/
import SimControl.Help.Page
import SimControl.Invocation

namespace SimControl
namespace Console

/-- The bytes of tokens that are written with a space after each of them. -/
def spacedWidth : List Token → Nat
  | [] => 0
  | token :: tokens => token.utf8ByteSize + 1 + spacedWidth tokens

/-- The column below which token `offset` starts, when the tokens are written with a
space between them; past the last token if there is no such token.  Columns are counted
in bytes of UTF-8. -/
def caretColumn (tokens : List Token) (offset : Nat) : Nat :=
  if offset < tokens.length then spacedWidth (tokens.take offset)
  else if tokens = [] then 0
  else (" ".intercalate tokens).utf8ByteSize + 1

/-- The command line, and a caret below it. -/
def context (tokens : List Token) (offset : Nat) : List String :=
  [" ".intercalate tokens, Help.spaces (caretColumn tokens offset) ++ "^"]

/-- The lines that answer a request for help. -/
def helpLines (program : String) (width : Option Nat) (userInitiated : Bool) : List String :=
  if userInitiated then Help.page program width else Help.usage program

/-- The answer to a command line. -/
structure Reply where
  /-- What was read, or the exit code. -/
  result : Except UInt32 Invocation
  /-- The lines for standard output. -/
  output : List String := []
  /-- The lines for standard error. -/
  errors : List String := []

def reply (program : String) (tokens : List Token) : Except Failure Invocation → Reply
  | .ok (.run command) => { result := .ok (.run command) }
  | .ok (.help request) =>
      { result := .ok (.help request)
        output := helpLines program none request.userInitiated }
  | .error failure =>
      { result := .error 1
        output := helpLines program none false
        errors := ("Parse error: " ++ failure.problem.message) :: context tokens failure.offset }

end Console
end SimControl
