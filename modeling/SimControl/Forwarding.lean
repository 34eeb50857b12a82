/-
Forwarding of environment variables into launched processes.

A variable meant for the processes is marked by a prefix, which they do not see.
-/
import SimControl.Invocation

namespace SimControl
namespace Environment

/-- What marks a variable for the launched processes. -/
def childMark : String := "FBSIMCTL_CHILD_"

/-- The name under which a launched process sees a variable.  The mark alone is no
variable. -/
def childName? (name : String) : Option String :=
  if childMark.toList.isPrefixOf name.toList then
    match name.toList.drop childMark.toList.length with
    | [] => none
    | rest => some (String.ofList rest)
  else none

/-- The variables for launched processes. -/
def forwarded (environment : Environment) : Environment :=
  .ofList (environment.toList.filterMap fun (name, value) =>
    (childName? name).map fun child => (child, value))

end Environment

namespace Action

/-- Add variables to the process that the action launches.  The three launches take
them; every other action, a relaunch among them, stays as it is. -/
def addEnvironment (additions : Environment) : Action → Action
  | launchAgent launch =>
      .launchAgent { launch with environment := Accumulator.append launch.environment additions }
  | launchApplication launch =>
      .launchApplication
        { launch with environment := Accumulator.append launch.environment additions }
  | launchTest launch =>
      .launchTest
        { launch with
          application :=
            { launch.application with
              environment := Accumulator.append launch.application.environment additions } }
  | action => action

def appendEnvironment (environment : Environment) (action : Action) : Action :=
  action.addEnvironment environment.forwarded

end Action

def Command.appendEnvironment (environment : Environment) (command : Command) : Command :=
  { command with actions := command.actions.map (Action.addEnvironment environment.forwarded) }

/-- Forward the marked variables of `environment` to the launches of a command. -/
def Invocation.appendEnvironment (environment : Environment) : Invocation → Invocation
  | run command => run (command.appendEnvironment environment)
  | help request => help request

end SimControl
