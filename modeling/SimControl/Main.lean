/-
The command line.

The grammar asks only about the paths among the tokens and about the property lists
below them, so those are looked up before the tokens are read.
-/
import SimControl.FileSystem.Path
import SimControl.Session

namespace SimControl

/-- What stands at `path`. -/
def kindAt (path : Path) : IO (Option EntryKind) := do
  try
    let real ← IO.FS.realPath path
    let metadata ← real.metadata
    match metadata.type with
    | .dir => return some .directory
    | .file => return some .file
    | _ => return some .special
  catch _ => return none

/-- The text of the file at `path`. -/
def textAt (path : Path) : IO (Option String) := do
  try return some (← IO.FS.readFile path)
  catch _ => return none

/-- The answers of the file system to all that the grammar can ask about `tokens`. -/
def snapshot (tokens : List Token) : IO FileSystem := do
  let kinds ← tokens.mapM fun path => return (path, ← kindAt path)
  let texts ← (tokens.map (Path.child · "Info.plist")).mapM fun path =>
    return (path, ← textAt path)
  return {
    kind? := fun path => (kinds.lookup path).bind id
    text? := fun path => (texts.lookup path).bind id }

end SimControl

def main (arguments : List String) : IO UInt32 := do
  let fs ← SimControl.snapshot arguments
  let transcript := SimControl.Session.run fs arguments
  for line in transcript.errors do
    IO.eprintln line
  for line in transcript.output do
    IO.println line
  return transcript.exitCode
