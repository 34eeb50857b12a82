/-
Processes to launch: applications, agents and tests.

Options come first, then what to launch, and then every token up to the next
separator as its arguments.  A launch is read with an empty environment; variables
are forwarded into it afterwards.
-/
import SimControl.Operand.Application
import SimControl.Operand.Word
import SimControl.Parser.Enumerated
import SimControl.Parser.Sequence

namespace SimControl

/-- Environment variables by name. -/
abbrev Environment := Std.ExtTreeMap String String

inductive LaunchOption where
  | writeStdout | writeStderr
  deriving DecidableEq, Repr

namespace LaunchOption

instance : Enumerated LaunchOption where
  all := [writeStdout, writeStderr]
  mem_all a := by cases a <;> decide

def flag : LaunchOption → String
  | writeStdout => "--stdout"
  | writeStderr => "--stderr"

def label : LaunchOption → String
  | writeStdout => "WRITE_STDOUT"
  | writeStderr => "WRITE_STDERR"

def setParser : Parser (EnumSet LaunchOption) := .flagSet 0 flag

end LaunchOption

structure ApplicationLaunch where
  bundleId : BundleId
  arguments : List String
  environment : Environment := ∅
  options : EnumSet LaunchOption
  deriving DecidableEq

structure AgentLaunch where
  binary : Path
  arguments : List String
  environment : Environment := ∅
  options : EnumSet LaunchOption
  deriving DecidableEq

structure TestLaunch where
  testBundle : Path
  /-- The application that hosts the tests. -/
  application : ApplicationLaunch
  /-- In seconds. -/
  timeout : Option Binary64
  deriving DecidableEq

variable (fs : FileSystem)

def ApplicationLaunch.parser : Parser ApplicationLaunch :=
  ((Parser.triple LaunchOption.setParser (Operand.bundleId fs) Operand.arguments).map
    fun (options, bundleId, arguments) =>
      { bundleId := bundleId, arguments := arguments, options := options }).described
    "Application Launch"

def AgentLaunch.parser : Parser AgentLaunch :=
  ((Parser.triple LaunchOption.setParser (Operand.binary fs) Operand.arguments).map
    fun (options, binary, arguments) =>
      { binary := binary, arguments := arguments, options := options }).described
    "Agent Launch"

def TestLaunch.parser : Parser TestLaunch :=
  ((Parser.triple (Parser.keyword "--test-timeout" Operand.double).optional
    (Operand.directory fs) (ApplicationLaunch.parser fs)).map
      fun (timeout, testBundle, application) =>
        { testBundle := testBundle, application := application, timeout := timeout }).described
    "Test Launch"

end SimControl
