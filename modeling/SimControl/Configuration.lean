/-
Settings of a whole command: how results are written, what is done to simulators
before the first start, and which set of simulators is used.
-/
import SimControl.Operand.Path
import SimControl.Parser.Enumerated
import SimControl.Parser.Sequence

namespace SimControl

/-! ## Output -/

inductive OutputOption where
  | debugLogging | json | pretty
  deriving DecidableEq, Repr

namespace OutputOption

instance : Enumerated OutputOption where
  all := [debugLogging, json, pretty]
  mem_all a := by cases a <;> decide

def flag : OutputOption → String
  | debugLogging => "--debug-logging"
  | json => "--json"
  | pretty => "--pretty"

def label : OutputOption → String
  | debugLogging => "DEBUG_LOGGING"
  | json => "JSON"
  | pretty => "PRETTY"

def setParser : Parser (EnumSet OutputOption) := .flagSet 0 flag

end OutputOption

/-! ## Management -/

inductive ManagementOption where
  | deleteAll | killAll | killSpurious | ignoreSpuriousKillFail | killSpuriousServices
  | timeoutResilience
  deriving DecidableEq, Repr

namespace ManagementOption

instance : Enumerated ManagementOption where
  all := [deleteAll, killAll, killSpurious, ignoreSpuriousKillFail, killSpuriousServices,
    timeoutResilience]
  mem_all a := by cases a <;> decide

def flag : ManagementOption → String
  | deleteAll => "--delete-all"
  | killAll => "--kill-all"
  | killSpurious => "--kill-spurious"
  | ignoreSpuriousKillFail => "--ignore-spurious-kill-fail"
  | killSpuriousServices => "--kill-spurious-services"
  | timeoutResilience => "--timeout-resiliance"

def label : ManagementOption → String
  | deleteAll => "DELETE_ALL_ON_FIRST_START"
  | killAll => "KILL_ALL_ON_FIRST_START"
  | killSpurious => "KILL_SPURIOUS_SIMULATORS_ON_FIRST_START"
  | ignoreSpuriousKillFail => "IGNORE_SPURIOUS_KILL_FAIL"
  | killSpuriousServices => "KILL_SPURIOUS_CORE_SIMULATOR_SERVICES"
  | timeoutResilience => "USE_SIM_DEVICE_TIMEOUT_RESILIANCE"

def setParser : Parser (EnumSet ManagementOption) := .flagSet 0 flag

end ManagementOption

/-! ## The whole configuration -/

structure Configuration where
  output : EnumSet OutputOption := ∅
  management : EnumSet ManagementOption := ∅
  /-- The directory of the simulator set, if not the usual one. -/
  deviceSet : Option Path := none
  deriving DecidableEq

namespace Configuration

instance : Accumulator Configuration where
  identity := {}
  append a b :=
    { output := Accumulator.append a.output b.output
      management := Accumulator.append a.management b.management
      deviceSet := Accumulator.append a.deviceSet b.deviceSet }

instance : LawfulAccumulator Configuration where
  append_assoc a b c := by
    simp only [Accumulator.append, mk.injEq]
    exact ⟨LawfulAccumulator.append_assoc a.output b.output c.output,
      LawfulAccumulator.append_assoc a.management b.management c.management,
      LawfulAccumulator.append_assoc a.deviceSet b.deviceSet c.deviceSet⟩
  append_identity a := by
    obtain ⟨output, management, deviceSet⟩ := a
    simp only [Accumulator.append, mk.injEq]
    exact ⟨LawfulAccumulator.append_identity output,
      LawfulAccumulator.append_identity management, LawfulAccumulator.append_identity deviceSet⟩
  identity_append a := by
    obtain ⟨output, management, deviceSet⟩ := a
    simp only [Accumulator.append, mk.injEq]
    exact ⟨LawfulAccumulator.identity_append output,
      LawfulAccumulator.identity_append management, LawfulAccumulator.identity_append deviceSet⟩

/-- The settings, each as a configuration of its own. -/
def settings (fs : FileSystem) : List (Parser Configuration) :=
  (Parser.flags OutputOption.flag).map (Parser.map fun output => { output := output }) ++
    (Parser.flags ManagementOption.flag).map
      (Parser.map fun management => { management := management }) ++
    [(Parser.keyword "--set" (Operand.directory fs)).map fun path => { deviceSet := some path }]

/-- Any settings, in any order. -/
def parser (fs : FileSystem) : Parser Configuration := .gather 0 (settings fs)

end Configuration
end SimControl
