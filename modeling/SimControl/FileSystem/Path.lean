/-
The parts of a path.
-/
import SimControl.FileSystem
import SimControl.Text.Cut

namespace SimControl
namespace Path

/-- The names between slashes, with empty names kept. -/
def components (path : Path) : List String :=
  (Text.pieces (· == '/') path.toList).map String.ofList

/-- The last name, if it is the name of an entry: slashes and dots at the end do not
count, and a path that ends by going up has none. -/
def fileName? (path : Path) : Option String :=
  ((components path).filter fun name => name ≠ "" && name ≠ ".").getLast?.filter (· ≠ "..")

/-- What follows the last dot of the file name.  A name that begins with its only dot
has no extension. -/
def extension? (path : Path) : Option String :=
  (fileName? path).bind fun name =>
    let reversed := name.toList.reverse
    match reversed.dropWhile (· ≠ '.') with
    | _ :: _ :: _ => some (String.ofList (reversed.takeWhile (· ≠ '.')).reverse)
    | _ => none

/-- The path of `name` in the directory at `path`. -/
def child (path : Path) (name : String) : Path :=
  if path.toList.getLast? = some '/' then path ++ name else path ++ "/" ++ name

end Path
end SimControl
