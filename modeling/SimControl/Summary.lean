/-
A summary of a command for its user: the settings, and one line for each action.

Records are written with their field names between braces, an absent value as `None`,
and a set of options by the labels of its members.
-/
import SimControl.Invocation
import SimControl.Report
import SimControl.Text.Quoted

namespace SimControl
namespace Summary

/-! ## Shapes -/

def record (name : String) (fields : List (String × String)) : String :=
  name ++ " \x7b " ++ ", ".intercalate (fields.map fun (field, value) => field ++ ": " ++ value) ++
    " \x7d"

def option : Option String → String
  | some value => "Some(" ++ value ++ ")"
  | none => "None"

def set (items : List String) : String := "\x7b" ++ ", ".intercalate items ++ "\x7d"

def sequence (items : List String) : String := "[" ++ ", ".intercalate items ++ "]"

def flags (name : String) : List String → String
  | [] => name ++ "(0x0)"
  | labels => name ++ "(" ++ " | ".intercalate labels ++ ")"

/-- A name that is wrapped in a type of its own. -/
def wrapped (type name : String) : String := type ++ "(" ++ Text.quoted name ++ ")"

/-! ## Words -/

def state : SimulatorState → String
  | .creating => "Creating"
  | .shutdown => "Shutdown"
  | .booting => "Booting"
  | .booted => "Booted"
  | .shuttingDown => "ShuttingDown"

def field : FormatField → String
  | .udid => "Udid"
  | .name => "Name"
  | .model => "Model"
  | .osVersion => "OsVersion"
  | .state => "State"
  | .architecture => "Architecture"
  | .process => "ProcessIdentifier"
  | .containerProcess => "ContainerApplicationProcessIdentifier"

/-! ## Parts of a command -/

def configuration (c : Configuration) : String :=
  record "Configuration"
    [ ("output", flags "OutputOptions" (c.output.toList.map OutputOption.label)),
      ("management",
        flags "ManagementOptions" (c.management.toList.map ManagementOption.label)),
      ("device_set_path", option (c.deviceSet.map Text.quoted)) ]

def query (q : TargetQuery) : String :=
  record "TargetQuery"
    [ ("udids", set (q.udids.toList.map Text.quoted)),
      ("states", set (q.states.toList.map state)),
      ("target_types", flags "TargetTypes" (q.types.toList.map TargetType.label)),
      ("os_versions",
        set ((q.osVersions.sortedNames OsVersion.name).map (wrapped "OsVersion"))),
      ("devices", set ((q.devices.sortedNames DeviceModel.name).map (wrapped "DeviceModel"))),
      ("count", option (q.first.map toString)) ]

def format (f : TargetFormat) : String :=
  record "TargetFormat" [("fields", sequence (f.fields.map field))]

def action (a : Action) : String :=
  match a.subject? with
  | some subject => a.verb.word ++ ": " ++ subject.text
  | none => a.verb.word

def lines (c : Command) : List String :=
  [ "Configuration: " ++ configuration c.configuration,
    "Query: " ++ option (c.query.map query),
    "Format: " ++ option (c.format.map format) ] ++
    c.actions.map action

end Summary
end SimControl
