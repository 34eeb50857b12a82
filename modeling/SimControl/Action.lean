/-
Actions: what to do with the selected targets.

An action is read by its arm, a verb and the operands after it.  The arms are tried in
the order of `Action.arms`; only `launch` has two, and an agent goes before an
application.
-/
import SimControl.Boot
import SimControl.Creation
import SimControl.Diagnosis
import SimControl.Launch
import SimControl.Listening
import SimControl.Operand.Url
import SimControl.Verb

namespace SimControl

inductive Recording where
  | start | stop
  deriving DecidableEq, Repr

namespace Recording

instance : Enumerated Recording where
  all := [start, stop]
  mem_all a := by cases a <;> decide

def word : Recording → String
  | start => "start"
  | stop => "stop"

def parser : Parser Recording := .oneSpelled word

end Recording

inductive Action where
  | approve (bundleIds : List BundleId)
  | boot (configuration : Option BootConfiguration)
  | clearKeychain (bundleId : BundleId)
  | create (specification : CreationSpecification)
  | delete
  | diagnose (query : DiagnosticQuery) (format : DiagnosticFormat)
  | erase
  | install (path : Path) (codesign : Bool)
  | launchAgent (launch : AgentLaunch)
  | launchApplication (launch : ApplicationLaunch)
  | launchTest (launch : TestLaunch)
  | list
  | listApps
  | listen (interface : ListenInterface)
  | openUrl (url : Url)
  | record (recording : Recording)
  | relaunch (launch : ApplicationLaunch)
  | shutdown
  | tap (x y : Binary64)
  | terminate (bundleId : BundleId)
  | uninstall (bundleId : BundleId)
  | upload (paths : List Path)
  | watchdogOverride (bundleIds : List BundleId) (timeout : Binary64)
  deriving DecidableEq

/-- One way to spell an action: a verb alone, or a verb and operands. -/
inductive Arm where
  | bare (verb : Verb) (action : Action)
  | operands (verb : Verb) (parser : Parser Action)

namespace Arm

def verb : Arm → Verb
  | bare verb _ => verb
  | operands verb _ => verb

def parser : Arm → Parser Action
  | bare verb action => .literal verb.word action
  | operands verb parser => .keyword verb.word parser

end Arm

namespace Action

variable (fs : FileSystem)

/-- An application bundle or a file to install, and whether to sign it. -/
def installParser : Parser Action :=
  ((Parser.oneOf [(Application.parser fs).map Application.path, Operand.file fs]).pair
    ((Parser.literal "--codesign" true).withDefault false)).map
      fun (path, codesign) => install path codesign

def diagnoseParser : Parser Action :=
  ((DiagnosticFormat.parser.withDefault .current).pair
    ((DiagnosticQuery.parser fs).withDefault .all)).map
      fun (format, query) => diagnose query format

/-- All the ways to spell an action, in the order in which they are tried. -/
def arms : List Arm :=
  [ .operands .approve ((Parser.atLeast 1 (Operand.bundleId fs)).map approve),
    .operands .boot (BootConfiguration.parser.optional.map boot),
    .operands .clearKeychain ((Operand.bundleId fs).map clearKeychain),
    .operands .create ((CreationSpecification.parser fs).map create),
    .bare .delete delete,
    .operands .diagnose (diagnoseParser fs),
    .bare .erase erase,
    .operands .install (installParser fs),
    .operands .launch ((AgentLaunch.parser fs).map launchAgent),
    .operands .launch ((ApplicationLaunch.parser fs).map launchApplication),
    .operands .launchXCTest ((TestLaunch.parser fs).map launchTest),
    .operands .listen (ListenInterface.parser.map listen),
    .bare .list list,
    .bare .listApps listApps,
    .operands .openUrl (Url.parser.map openUrl),
    .operands .record (Recording.parser.map record),
    .operands .relaunch ((ApplicationLaunch.parser fs).map relaunch),
    .bare .shutdown shutdown,
    .operands .tap ((Operand.double.pair Operand.double).map fun (x, y) => tap x y),
    .operands .terminate ((Operand.bundleId fs).map terminate),
    .operands .uninstall ((Operand.bundleId fs).map uninstall),
    .operands .upload ((Parser.atLeast 1 (Operand.file fs)).map upload),
    .operands .watchdogOverride
      ((Operand.double.pair (.atLeast 1 (Operand.bundleId fs))).map
        fun (timeout, bundleIds) => watchdogOverride bundleIds timeout) ]

def parser : Parser Action := (Parser.oneOf ((arms fs).map Arm.parser)).described "Action"

/-- One or more actions with separators between them. -/
def listParser : Parser (List Action) := .separated 1 (parser fs) Operand.separator

variable {fs} in
/-- An arm is one of those listed, each by the name of the action that it spells. -/
@[elab_as_elim]
theorem arm_cases {motive : (arm : Arm) → arm ∈ arms fs → Prop}
    (approve : ∀ h, motive
      (.operands .approve ((Parser.atLeast 1 (Operand.bundleId fs)).map approve)) h)
    (boot : ∀ h, motive (.operands .boot (BootConfiguration.parser.optional.map boot)) h)
    (clearKeychain : ∀ h, motive
      (.operands .clearKeychain ((Operand.bundleId fs).map clearKeychain)) h)
    (create : ∀ h, motive (.operands .create ((CreationSpecification.parser fs).map create)) h)
    (delete : ∀ h, motive (.bare .delete delete) h)
    (diagnose : ∀ h, motive (.operands .diagnose (diagnoseParser fs)) h)
    (erase : ∀ h, motive (.bare .erase erase) h)
    (install : ∀ h, motive (.operands .install (installParser fs)) h)
    (launchAgent : ∀ h, motive (.operands .launch ((AgentLaunch.parser fs).map launchAgent)) h)
    (launchApplication : ∀ h, motive
      (.operands .launch ((ApplicationLaunch.parser fs).map launchApplication)) h)
    (launchTest : ∀ h, motive (.operands .launchXCTest ((TestLaunch.parser fs).map launchTest)) h)
    (listen : ∀ h, motive (.operands .listen (ListenInterface.parser.map listen)) h)
    (list : ∀ h, motive (.bare .list list) h)
    (listApps : ∀ h, motive (.bare .listApps listApps) h)
    (openUrl : ∀ h, motive (.operands .openUrl (Url.parser.map openUrl)) h)
    (record : ∀ h, motive (.operands .record (Recording.parser.map record)) h)
    (relaunch : ∀ h, motive (.operands .relaunch ((ApplicationLaunch.parser fs).map relaunch)) h)
    (shutdown : ∀ h, motive (.bare .shutdown shutdown) h)
    (tap : ∀ h, motive
      (.operands .tap ((Operand.double.pair Operand.double).map fun (x, y) => tap x y)) h)
    (terminate : ∀ h, motive (.operands .terminate ((Operand.bundleId fs).map terminate)) h)
    (uninstall : ∀ h, motive (.operands .uninstall ((Operand.bundleId fs).map uninstall)) h)
    (upload : ∀ h, motive (.operands .upload ((Parser.atLeast 1 (Operand.file fs)).map upload)) h)
    (watchdogOverride : ∀ h, motive
      (.operands .watchdogOverride
        ((Operand.double.pair (.atLeast 1 (Operand.bundleId fs))).map
          fun (timeout, bundleIds) => watchdogOverride bundleIds timeout)) h)
    {arm : Arm} (harm : arm ∈ arms fs) : motive arm harm := by
  have hcases := harm
  simp only [arms, List.mem_cons, List.not_mem_nil, or_false] at hcases
  rcases hcases with rfl | rfl | rfl | rfl | rfl | rfl | rfl | rfl | rfl | rfl | rfl | rfl | rfl |
    rfl | rfl | rfl | rfl | rfl | rfl | rfl | rfl | rfl | rfl
  · exact approve _
  · exact boot _
  · exact clearKeychain _
  · exact create _
  · exact delete _
  · exact diagnose _
  · exact erase _
  · exact install _
  · exact launchAgent _
  · exact launchApplication _
  · exact launchTest _
  · exact listen _
  · exact list _
  · exact listApps _
  · exact openUrl _
  · exact record _
  · exact relaunch _
  · exact shutdown _
  · exact tap _
  · exact terminate _
  · exact uninstall _
  · exact upload _
  · exact watchdogOverride _

end Action
end SimControl
