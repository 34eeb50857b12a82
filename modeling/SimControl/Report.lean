/-
What is reported when an action is carried out: its verb, and what it is done with.
-/
import SimControl.Action

namespace SimControl

/-- What an action is done with. -/
inductive Subject where
  | one (text : String)
  | several (texts : List String)
  deriving DecidableEq, Repr

def Subject.text : Subject → String
  | one text => text
  | several texts => "[" ++ ", ".intercalate texts ++ "]"

namespace Action

def verb : Action → Verb
  | approve _ => .approve
  | boot _ => .boot
  | clearKeychain _ => .clearKeychain
  | create _ => .create
  | delete => .delete
  | diagnose _ _ => .diagnose
  | erase => .erase
  | install _ _ => .install
  | launchAgent _ => .launch
  | launchApplication _ => .launch
  | launchTest _ => .launchXCTest
  | list => .list
  | listApps => .listApps
  | listen _ => .listen
  | openUrl _ => .openUrl
  | record _ => .record
  | relaunch _ => .relaunch
  | shutdown => .shutdown
  | tap _ _ => .tap
  | terminate _ => .terminate
  | uninstall _ => .uninstall
  | upload _ => .upload
  | watchdogOverride _ _ => .watchdogOverride

def subject? : Action → Option Subject
  | approve bundleIds => some (.several bundleIds)
  | clearKeychain bundleId => some (.one bundleId)
  | install path _ => some (.one path)
  | launchAgent launch => some (.one launch.binary)
  | launchApplication launch => some (.one launch.bundleId)
  | launchTest launch => some (.one launch.application.bundleId)
  | openUrl url => some (.one url.text)
  | record recording => some (.one recording.word)
  | relaunch launch => some (.one launch.bundleId)
  | terminate bundleId => some (.one bundleId)
  | uninstall bundleId => some (.one bundleId)
  | upload paths => some (.several paths)
  | watchdogOverride bundleIds _ => some (.several bundleIds)
  | boot _ | create _ | delete | diagnose _ _ | erase | list | listApps | listen _ | shutdown
  | tap _ _ => none

end Action
end SimControl
