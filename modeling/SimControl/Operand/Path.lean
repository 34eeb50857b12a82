/-
Paths of directories and files that have to exist.
-/
import SimControl.FileSystem
import SimControl.Parser.Basic

namespace SimControl
namespace Operand

variable (fs : FileSystem)

/-- The path of an entry that satisfies `accepts`; `objection` says what else it is. -/
def existing (accepts : Path → Bool) (objection : Path → Objection) (path : Path) :
    Except Problem Path :=
  if fs.isPresent path then
    if accepts path then .ok path else .error (.objection (objection path))
  else .error (.objection (.missing path))

def directory : Parser Path :=
  .single "A Directory" (existing fs fs.isDirectory .notADirectory)

def file : Parser Path := .single "A File" (existing fs fs.isFile .notAFile)

/-- An executable, given by its path. -/
def binary : Parser Path := (file fs).described "A Binary"

end Operand
end SimControl
