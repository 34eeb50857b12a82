/-
One run of the program: a command line is read and summed up.

A summary names no environment variable, so none is forwarded here.
-/
import SimControl.Console
import SimControl.Reading
import SimControl.Summary

namespace SimControl

/-- The answer of `program` to a command line. -/
def Console.read (program : String) (fs : FileSystem) (tokens : List Token) : Console.Reply :=
  Console.reply program tokens (Invocation.read fs tokens)

namespace Session

/-- The name under which the program gives its usage. -/
def programName : String := "simctl"

/-- What a run leaves behind. -/
structure Transcript where
  exitCode : UInt32
  /-- The lines on standard output. -/
  output : List String
  /-- The lines on standard error. -/
  errors : List String

/-- Read the command line and sum up the command, or answer in its place. -/
def run (fs : FileSystem) (tokens : List Token) : Transcript :=
  let reply := Console.read programName fs tokens
  match reply.result with
  | .ok (.run command) => ⟨0, reply.output ++ Summary.lines command, reply.errors⟩
  | .ok (.help _) => ⟨0, reply.output, reply.errors⟩
  | .error exitCode => ⟨exitCode, reply.output, reply.errors⟩

end Session
end SimControl
