/-
A whole command line: a command to run, or a request for help.
-/
import SimControl.Action
import SimControl.Configuration
import SimControl.Target.Format

namespace SimControl

structure Command where
  configuration : Configuration
  /-- The targets, if not the usual ones. -/
  query : Option TargetQuery
  format : Option TargetFormat
  actions : List Action
  deriving DecidableEq

structure HelpRequest where
  output : EnumSet OutputOption
  /-- Whether the user asked, and so wants more than a reminder of the usage. -/
  userInitiated : Bool
  deriving DecidableEq

inductive Invocation where
  | run (command : Command)
  | help (request : HelpRequest)
  deriving DecidableEq

/-- Configuration, query, format and actions, in this order and up to the last token. -/
def Command.parser (fs : FileSystem) : Parser Command :=
  ((Parser.quadruple (Configuration.parser fs) TargetQuery.parser.optional
    TargetFormat.parser.optional (Action.listParser fs).exhaustive).map
      fun (configuration, query, format, actions) =>
        ⟨configuration, query, format, actions⟩).described
    "Command"

/-- Output flags and the word `help`. -/
def HelpRequest.parser : Parser HelpRequest :=
  ((OutputOption.setParser.pair (.literal "help" ())).exhaustive.map
    fun (output, _) => ⟨output, true⟩).described
    "Help"

def Invocation.parser (fs : FileSystem) : Parser Invocation :=
  .oneOf [(Command.parser fs).map run, HelpRequest.parser.map help]

end SimControl
