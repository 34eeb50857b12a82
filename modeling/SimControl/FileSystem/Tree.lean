/-
A file system held in memory.

The tree is a list of entries below a working directory, each under the list of
names that leads to it, the latest first.  A path is followed name by name, and
every name but the last has to lead to a directory.
-/
import SimControl.FileSystem.Path

namespace SimControl

/-- An entry of a file tree. -/
inductive FileTree.Node where
  | directory
  | file (contents : ByteArray)

structure FileTree where
  entries : List (List String × FileTree.Node)

namespace FileTree

/-- A place that a path can lead to. -/
inductive Place where
  /-- Below the working directory, under these names. -/
  | inside (names : List String)
  /-- A directory above the working directory, in which nothing can be named. -/
  | above
  deriving DecidableEq, Repr

def empty : FileTree := ⟨[]⟩

/-- The entry under a list of names; the working directory has none. -/
def node? (tree : FileTree) : Place → Option Node
  | .inside [] => some .directory
  | .inside names => tree.entries.lookup names
  | .above => some .directory

/-! ## Building a tree -/

/-- Make the directory `names` unless it is there. -/
def ensureDirectory (tree : FileTree) (names : List String) : FileTree :=
  match tree.node? (.inside names) with
  | some .directory => tree
  | _ => ⟨(names, .directory) :: tree.entries⟩

/-- The names of a path, from the working directory. -/
def namesOf (path : Path) : List String :=
  (Path.components path).filter fun name => name ≠ "" && name ≠ "."

/-- Make every directory on the way to `names`, and `names` itself. -/
def makeDirectories (tree : FileTree) (names : List String) : FileTree :=
  (List.range names.length).foldl (fun tree n => tree.ensureDirectory (names.take (n + 1))) tree

def addDirectory (tree : FileTree) (path : Path) : FileTree :=
  tree.makeDirectories (namesOf path)

def addFile (tree : FileTree) (path : Path) (contents : ByteArray) : FileTree :=
  let names := namesOf path
  ⟨(names, .file contents) :: (tree.makeDirectories names.dropLast).entries⟩

/-! ## Following a path -/

/-- Follow one component from a place that has to be a directory. -/
def step (tree : FileTree) (place : Place) (component : String) : Option Place :=
  match tree.node? place with
  | some .directory =>
      if component = "" ∨ component = "." then some place
      else
        match place with
        | .above => if component = ".." then some .above else none
        | .inside names =>
            if component = ".." then
              some (if names = [] then .above else .inside names.dropLast)
            else if (tree.node? (.inside (names ++ [component]))).isSome then
              some (.inside (names ++ [component]))
            else none
  | _ => none

/-- The length in bytes of the longest name. -/
def nameLimit : Nat := 255

/-- The length in bytes from which on a path is too long. -/
def pathLimit : Nat := 4096

/-- Where a path leads.  An empty path, one with a NUL in it, and one that is too long
or holds a name that is too long lead nowhere. -/
def resolve (tree : FileTree) (path : Path) : Option Place :=
  let components := Path.components path
  if path = "" ∨ '\x00' ∈ path.toList ∨ pathLimit ≤ path.utf8ByteSize ∨
      components.any (nameLimit < ·.utf8ByteSize) then none
  else
    let start : Place := if path.toList.head? = some '/' then .above else .inside []
    components.foldlM (step tree) start

def lookup (tree : FileTree) (path : Path) : Option Node :=
  (tree.resolve path).bind tree.node?

/-- The tree as the grammar sees it. -/
def view (tree : FileTree) : FileSystem where
  kind? path := (tree.lookup path).map fun
    | .directory => .directory
    | .file _ => .file
  text? path :=
    match tree.lookup path with
    | some (.file contents) => String.fromUTF8? contents
    | _ => none

end FileTree
end SimControl
