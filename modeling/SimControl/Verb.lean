/-
The verbs of the command language.

A verb begins an action on the command line and names the action in reports.
-/
import SimControl.EnumSet

namespace SimControl

inductive Verb where
  | approve | boot | clearKeychain | create | delete | diagnose | erase | install | launch
  | launchXCTest | list | listApps | listen | openUrl | record | relaunch | shutdown | tap
  | terminate | uninstall | upload | watchdogOverride
  deriving DecidableEq, Repr

namespace Verb

instance : Enumerated Verb where
  all := [approve, boot, clearKeychain, create, delete, diagnose, erase, install, launch,
    launchXCTest, list, listApps, listen, openUrl, record, relaunch, shutdown, tap, terminate,
    uninstall, upload, watchdogOverride]
  mem_all a := by cases a <;> decide

/-- The verb as it is typed and reported. -/
def word : Verb → String
  | approve => "approve"
  | boot => "boot"
  | clearKeychain => "clear_keychain"
  | create => "create"
  | delete => "delete"
  | diagnose => "diagnose"
  | erase => "erase"
  | install => "install"
  | launch => "launch"
  | launchXCTest => "launch_xctest"
  | list => "list"
  | listApps => "list_apps"
  | listen => "listen"
  | openUrl => "open"
  | record => "record"
  | relaunch => "relaunch"
  | shutdown => "shutdown"
  | tap => "tap"
  | terminate => "terminate"
  | uninstall => "uninstall"
  | upload => "upload"
  | watchdogOverride => "watchdog_override"

end Verb
end SimControl
