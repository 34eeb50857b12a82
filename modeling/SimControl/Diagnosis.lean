/-
Which diagnostics to fetch, and in which form.
-/
import SimControl.Number.Instant
import SimControl.Operand.Application
import SimControl.Operand.Word
import SimControl.Parser.Enumerated
import SimControl.Parser.Sequence

namespace SimControl

inductive DiagnosticFormat where
  | current | path | content
  deriving DecidableEq, Repr

namespace DiagnosticFormat

instance : Enumerated DiagnosticFormat where
  all := [current, path, content]
  mem_all a := by cases a <;> decide

def flag : DiagnosticFormat → String
  | current => "--current-format"
  | path => "--path"
  | content => "--content"

def parser : Parser DiagnosticFormat := .oneSpelled flag

end DiagnosticFormat

/-- The kinds of process whose crashes are logged. -/
inductive CrashedProcess where
  | application | system | customAgent
  deriving DecidableEq, Repr

namespace CrashedProcess

instance : Enumerated CrashedProcess where
  all := [application, system, customAgent]
  mem_all a := by cases a <;> decide

def flag : CrashedProcess → String
  | application => "--application"
  | system => "--system"
  | customAgent => "--custom-agent"

def label : CrashedProcess → String
  | application => "APPLICATION"
  | system => "SYSTEM"
  | customAgent => "CUSTOM_AGENT"

def setParser : Parser (EnumSet CrashedProcess) := .flagSet 1 flag

end CrashedProcess

inductive DiagnosticQuery where
  | all
  | named (names : List String)
  | applicationFiles (bundleId : BundleId) (fileNames : List String)
  | crashes (since : Instant) (processes : EnumSet CrashedProcess)
  deriving DecidableEq

namespace DiagnosticQuery

def parser (fs : FileSystem) : Parser DiagnosticQuery :=
  (Parser.oneOf
    [ ((Operand.bundleId fs).pair (.atLeast 1 Operand.word)).map
        fun (bundleId, fileNames) => applicationFiles bundleId fileNames,
      (Parser.atLeast 1 (.keyword "--name" Operand.word)).map named,
      ((Parser.keyword "--crashes-since" Instant.parser).pair CrashedProcess.setParser).map
        fun (since, processes) => crashes since processes ]).described
    "Diagnostic Query"

end DiagnosticQuery
end SimControl
