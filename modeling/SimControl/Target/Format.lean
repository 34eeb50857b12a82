/-
How each target is described in results.
-/
import SimControl.Parser.Enumerated
import SimControl.Parser.Repeat

namespace SimControl

inductive FormatField where
  | udid | name | model | osVersion | state | architecture | process | containerProcess
  deriving DecidableEq, Repr

namespace FormatField

instance : Enumerated FormatField where
  all := [udid, name, model, osVersion, state, architecture, process, containerProcess]
  mem_all a := by cases a <;> decide

def word : FormatField → String
  | udid => "udid"
  | name => "name"
  | model => "model"
  | osVersion => "os"
  | state => "state"
  | architecture => "arch"
  | process => "pid"
  | containerProcess => "container-pid"

def flag (field : FormatField) : String := "--" ++ field.word

end FormatField

/-- The fields to give, in order and with repetitions. -/
structure TargetFormat where
  fields : List FormatField
  deriving DecidableEq, Repr

namespace TargetFormat

def parser : Parser TargetFormat :=
  ((Parser.manyOf 1 (Parser.literals FormatField.flag)).map TargetFormat.mk).described
    "Target Format"

end TargetFormat
end SimControl
