/-
What the grammar asks of a file system.

The grammar only looks: it asks what stands at a path, and reads one small text.  A
file system is the answers to these two questions, and the parsers that need them
take it as an argument.
-/

namespace SimControl

/-- A path as it is written; it is never normalised. -/
abbrev Path := String

inductive EntryKind where
  | directory
  | file
  /-- Something else, such as a device or a socket. -/
  | special
  deriving DecidableEq, Repr

structure FileSystem where
  /-- What stands at a path, if anything does. -/
  kind? : Path → Option EntryKind
  /-- The text of a file, if it can be read and is well-formed UTF-8. -/
  text? : Path → Option String

namespace FileSystem

def isPresent (fs : FileSystem) (path : Path) : Bool := (fs.kind? path).isSome

def isDirectory (fs : FileSystem) (path : Path) : Bool := fs.kind? path == some .directory

def isFile (fs : FileSystem) (path : Path) : Bool := fs.kind? path == some .file

end FileSystem
end SimControl
