/-
The help page of the command line.
-/
import SimControl.Help.Row
import SimControl.Target.Format
import SimControl.Target.Vocabulary
import SimControl.Configuration
import SimControl.Verb

namespace SimControl
namespace Help

/-- The rows under one title. -/
structure Section where
  title : String
  rows : List Row

/-! ## The contents -/

def configurationSection : Section where
  title := "configuration"
  rows :=
    [ { usage := OutputOption.debugLogging.flag, purpose := "Log debug output." },
      { usage := OutputOption.json.flag, purpose := "Write results as JSON." },
      { usage := OutputOption.pretty.flag, purpose := "Pretty print JSON results." },
      { usage := "--set DIRECTORY", purpose := "Use the simulator set at DIRECTORY." },
      { usage := ManagementOption.deleteAll.flag,
        purpose := "Delete every simulator on first start." },
      { usage := ManagementOption.killAll.flag,
        purpose := "Kill every simulator on first start." },
      { usage := ManagementOption.killSpurious.flag,
        purpose := "Kill simulators outside the set on first start." },
      { usage := ManagementOption.ignoreSpuriousKillFail.flag,
        purpose := "Carry on when a spurious simulator cannot be killed." },
      { usage := ManagementOption.killSpuriousServices.flag,
        purpose := "Kill spurious simulator services on first start." },
      { usage := ManagementOption.timeoutResilience.flag,
        purpose := "Retry simulator operations which time out." } ]

def querySection : Section where
  title := "query"
  rows :=
    [ { usage := "all", purpose := "Every target." },
      { usage := "UDID", purpose := "The target with this UDID." },
      { usage := "--state=" ++
          "|".intercalate ((Enumerated.all : List SimulatorState).map SimulatorState.name),
        purpose := "Simulators in this state." },
      { usage := " | ".intercalate ((Enumerated.all : List TargetType).map TargetType.flag),
        purpose := "Targets of this kind." },
      { usage := "OS_VERSION", purpose := "Targets running this version, such as 'iOS 9.3'." },
      { usage := "DEVICE", purpose := "Targets of this model, such as 'iPhone 6'." },
      { usage := "--first N", purpose := "At most N targets." } ]

def formatSection : Section where
  title := "format"
  rows :=
    [ { usage := " ".intercalate ((Enumerated.all : List FormatField).map FormatField.flag),
        purpose := "Describe each target with these fields, in order." } ]

/-- What follows a verb on the help page. -/
def operandsOf : Verb → String
  | .approve => " BUNDLE_ID [...]"
  | .boot => " [--locale LOCALE] [--scale=25|50|75|100] [FLAGS ...]"
  | .clearKeychain => " BUNDLE_ID"
  | .create => " [--all-missing-defaults | DEVICE OS_VERSION --aux DIRECTORY]"
  | .diagnose => " [--current-format|--path|--content] [QUERY]"
  | .install => " APPLICATION [--codesign]"
  | .launch => " [--stdout] [--stderr] BUNDLE_ID|BINARY [ARGUMENT ...]"
  | .launchXCTest => " [--test-timeout SECONDS] TEST_BUNDLE BUNDLE_ID [ARGUMENT ...]"
  | .listen => " [--stdin] [--socket PORT] [--http PORT]"
  | .openUrl => " URL"
  | .record => " start|stop"
  | .relaunch => " BUNDLE_ID [ARGUMENT ...]"
  | .tap => " X Y"
  | .terminate => " BUNDLE_ID"
  | .uninstall => " BUNDLE_ID"
  | .upload => " FILE [...]"
  | .watchdogOverride => " SECONDS BUNDLE_ID [...]"
  | .delete | .erase | .list | .listApps | .shutdown => ""

/-- What a verb does. -/
def purposeOf : Verb → String
  | .approve => "Approve location services for the applications."
  | .boot => "Boot the simulators."
  | .clearKeychain => "Clear the keychain of an application."
  | .create => "Create simulators."
  | .delete => "Delete the simulators."
  | .diagnose => "Fetch diagnostics."
  | .erase => "Erase the simulators."
  | .install => "Install an application."
  | .launch => "Launch an application or agent."
  | .launchXCTest => "Run an XCTest bundle against an application."
  | .list => "List the targets."
  | .listApps => "List the installed applications."
  | .listen => "Accept further actions."
  | .openUrl => "Open a URL."
  | .record => "Start or stop recording video."
  | .relaunch => "Relaunch an application."
  | .shutdown => "Shut the simulators down."
  | .tap => "Tap the screen at a point."
  | .terminate => "Terminate an application."
  | .uninstall => "Uninstall an application."
  | .upload => "Upload media."
  | .watchdogOverride => "Override the launch watchdog for the applications."

def actionsSection : Section where
  title := "actions"
  rows := Enumerated.all.map fun verb =>
    { usage := verb.word ++ operandsOf verb
      purpose := purposeOf verb
      plain := by cases verb <;> decide +kernel }

def sections : List Section :=
  [configurationSection, querySection, formatSection, actionsSection]

/-! ## The layout -/

/-- The least width of the right column: three words of five letters. -/
def leastRightWidth : Nat := 17

/-- The width of the page where the terminal does not give one. -/
def usualWidth : Nat := 100

/-- The reminder of the usage. -/
def usage (program : String) : List String :=
  [ "usage: " ++ program ++
      " [CONFIGURATION ...] [QUERY ...] [FORMAT ...] ACTION [-- ACTION ...]",
    "       " ++ program ++ " [OUTPUT ...] help" ]

/-- The width of the left column: that of the widest usage. -/
def leftWidth : Nat :=
  (sections.flatMap fun s => s.rows.map (·.usage.utf8ByteSize)).foldl max 0

/-- The width of the right column: what is left of the page, if that is enough. -/
def rightWidth (pageWidth : Nat) : Nat :=
  max (pageWidth - (indent + leftWidth + gap)) leastRightWidth

theorem two_le_rightWidth (pageWidth : Nat) : 2 ≤ rightWidth pageWidth :=
  Nat.le_trans (by decide) (Nat.le_max_right _ leastRightWidth)

def Section.lines (s : Section) (pageWidth : Nat) : List String :=
  "" :: (s.title ++ ":") ::
    s.rows.flatMap fun row =>
      row.lines leftWidth (rightWidth pageWidth) (two_le_rightWidth pageWidth)

/-- The whole page. -/
def page (program : String) (width : Option Nat) : List String :=
  usage program ++ sections.flatMap fun s => s.lines (width.getD usualWidth)

end Help
end SimControl
