/-
Which launched processes see the forwarded variables.

A command is read with nothing in the environments of its launches, and forwarding then adds
the marked variables.  It adds them to the three launches but leaves a relaunch as it is,
although a relaunch launches an application with an environment of its own.  So forwarding
reaches every launch of a command line, unless there is a variable to forward and a relaunch
among the actions.
-/
import SimControl.Forwarding
import SimControl.Proofs.WellFormed

namespace SimControl

/-- Every variable of `additions` is set, and to the same value. -/
def Environment.Includes (environment additions : Environment) : Prop :=
  ∀ name value : String, additions[name]? = some value → environment[name]? = some value

theorem Environment.includes_refl (environment : Environment) :
    environment.Includes environment := fun _ _ h => h

/-- An environment with nothing in it includes nothing but itself. -/
theorem Environment.empty_includes_iff {additions : Environment} :
    (∅ : Environment).Includes additions ↔ additions = ∅ := by
  constructor
  · intro h
    refine Std.ExtTreeMap.ext_getElem? fun name => ?_
    cases hvalue : additions[name]? with
    | none => exact Std.ExtTreeMap.getElem?_empty.symm
    | some value =>
      have hempty := h name value hvalue
      rw [Std.ExtTreeMap.getElem?_empty] at hempty
      cases hempty
  · rintro rfl
    exact includes_refl ∅

namespace Action

/-- The environment of the process that an action launches, if it launches one. -/
def launchEnvironment? : Action → Option Environment
  | launchAgent launch => some launch.environment
  | launchApplication launch | relaunch launch => some launch.environment
  | launchTest launch => some launch.application.environment
  | _ => none

def IsRelaunch : Action → Prop
  | relaunch _ => True
  | _ => False

theorem WellFormed.launchEnvironment?_eq {fs : FileSystem} {action : Action}
    (h : action.WellFormed fs) : ∀ e ∈ action.launchEnvironment?, e = ∅ := by
  intro e he
  cases action with
  | launchAgent launch | launchApplication launch | relaunch launch =>
    obtain rfl := Option.some.inj he
    exact h.environment
  | launchTest launch =>
    obtain rfl := Option.some.inj he
    exact h.environment
  | _ => cases he

theorem launchEnvironment?_addEnvironment {action : Action} (h : ¬ action.IsRelaunch)
    (additions : Environment) :
    (action.addEnvironment additions).launchEnvironment? =
      action.launchEnvironment?.map (Accumulator.append · additions) := by
  cases action with
  | relaunch launch => exact absurd trivial h
  | _ => rfl

theorem addEnvironment_of_isRelaunch {action : Action} (h : action.IsRelaunch)
    (additions : Environment) : action.addEnvironment additions = action := by
  cases action with
  | relaunch launch => rfl
  | _ => cases h

theorem IsRelaunch.exists_launchEnvironment? {action : Action} (h : action.IsRelaunch) :
    ∃ e, action.launchEnvironment? = some e := by
  cases action with
  | relaunch launch => exact ⟨launch.environment, rfl⟩
  | _ => cases h

theorem isRelaunch_addEnvironment_iff {action : Action} {additions : Environment} :
    (action.addEnvironment additions).IsRelaunch ↔ action.IsRelaunch := by
  cases action <;> rfl

end Action

/-! ## Commands that were read -/

namespace Invocation

variable {fs : FileSystem} {tokens : List Token} {command : Command}

/-- What an action of a command that was read launches has nothing in its environment. -/
theorem launchEnvironment?_of_parse (h : (parser fs).parse tokens = .done (.run command)) :
    ∀ action ∈ command.actions, ∀ e ∈ action.launchEnvironment?, e = ∅ := by
  have hwell := (parser_ensures fs).of_parse h command rfl
  exact fun action haction => (hwell.actions action haction).launchEnvironment?_eq

/-- After forwarding, a relaunch still has nothing in its environment, and every other launch
has just the forwarded variables. -/
theorem forwarded_of_parse (h : (parser fs).parse tokens = .done (.run command))
    (environment : Environment) {action : Action}
    (haction : action ∈ (command.appendEnvironment environment).actions) {e : Environment}
    (he : action.launchEnvironment? = some e) :
    (action.IsRelaunch → e = ∅) ∧ (¬ action.IsRelaunch → e = environment.forwarded) := by
  obtain ⟨before, hbefore, rfl⟩ := List.mem_map.mp haction
  have hempty := launchEnvironment?_of_parse h before hbefore
  rw [Action.isRelaunch_addEnvironment_iff]
  constructor
  · intro hrelaunch
    rw [Action.addEnvironment_of_isRelaunch hrelaunch] at he
    exact hempty e he
  · intro hrelaunch
    rw [Action.launchEnvironment?_addEnvironment hrelaunch] at he
    obtain ⟨e', he', rfl⟩ := Option.map_eq_some_iff.mp he
    rw [hempty e' he']
    exact LawfulAccumulator.identity_append _

/-- Forwarding reaches every launch that is not a relaunch.  It reaches all the launches of a
command line exactly if there is nothing to forward or no relaunch. -/
theorem forwarding_reaches (h : (parser fs).parse tokens = .done (.run command))
    {environment : Environment} {after : Command}
    (hafter : (run command).appendEnvironment environment = .run after) :
    (∀ action ∈ after.actions, ¬ action.IsRelaunch → ∀ e ∈ action.launchEnvironment?,
        e.Includes environment.forwarded) ∧
      ((∀ action ∈ after.actions, ∀ e ∈ action.launchEnvironment?,
          e.Includes environment.forwarded) ↔
        environment.forwarded = ∅ ∨ ∀ action ∈ after.actions, ¬ action.IsRelaunch) := by
  obtain rfl := Invocation.run.inj hafter
  have hother : ∀ action ∈ (command.appendEnvironment environment).actions,
      ¬ action.IsRelaunch → ∀ e ∈ action.launchEnvironment?,
        e.Includes environment.forwarded := by
    intro action haction hrelaunch e he
    rw [(forwarded_of_parse h environment haction he).2 hrelaunch]
    exact Environment.includes_refl _
  refine ⟨hother, fun hreaches => ?_, fun hsafe action haction e he => ?_⟩
  · by_cases hnone : environment.forwarded = ∅
    · exact .inl hnone
    · refine .inr fun action haction hrelaunch => hnone ?_
      obtain ⟨e, he⟩ := hrelaunch.exists_launchEnvironment?
      have hincludes := hreaches action haction e he
      rw [(forwarded_of_parse h environment haction he).1 hrelaunch] at hincludes
      exact Environment.empty_includes_iff.mp hincludes
  · by_cases hrelaunch : action.IsRelaunch
    · rw [(forwarded_of_parse h environment haction he).1 hrelaunch]
      refine Environment.empty_includes_iff.mpr ?_
      exact hsafe.resolve_right fun hnone => hnone action haction hrelaunch
    · exact hother action haction hrelaunch e he

/-- The launch is reached, the relaunch is not. -/
theorem forwarding_reaches_launch :
    ∃ command after : Command,
      (Invocation.parser FileTree.empty.view).parse
          ["launch", "com.a", "--", "relaunch", "com.a"] = .done (.run command) ∧
        (run command).appendEnvironment (.ofList [("FBSIMCTL_CHILD_A", "1")]) = .run after ∧
        ∀ action ∈ after.actions, ¬ action.IsRelaunch → ∀ e ∈ action.launchEnvironment?,
          e.Includes (Environment.forwarded (.ofList [("FBSIMCTL_CHILD_A", "1")])) := by
  have h : (Invocation.parser FileTree.empty.view).parse
      ["launch", "com.a", "--", "relaunch", "com.a"] = .done (.run
        { configuration := {}, query := none, format := none
          actions :=
            [.launchApplication { bundleId := "com.a", arguments := [], options := ∅ },
              .relaunch { bundleId := "com.a", arguments := [], options := ∅ }] }) := by
    decide +kernel
  exact ⟨_, _, h, rfl, (forwarding_reaches h rfl).1⟩

/-- A relaunch does not get the variable that is meant for the launched processes. -/
theorem forwarding_misses_relaunch :
    ∃ command after : Command,
      (Invocation.parser FileTree.empty.view).parse ["relaunch", "com.a"] =
          .done (.run command) ∧
        (run command).appendEnvironment (.ofList [("FBSIMCTL_CHILD_A", "1")]) = .run after ∧
        ∃ action ∈ after.actions, ∃ e ∈ action.launchEnvironment?,
          ¬ e.Includes (Environment.forwarded (.ofList [("FBSIMCTL_CHILD_A", "1")])) := by
  have h : (Invocation.parser FileTree.empty.view).parse ["relaunch", "com.a"] = .done (.run
      { configuration := {}, query := none, format := none
        actions := [.relaunch { bundleId := "com.a", arguments := [], options := ∅ }] }) := by
    decide +kernel
  have hforwarded : Environment.forwarded (.ofList [("FBSIMCTL_CHILD_A", "1")]) ≠ ∅ := by
    decide +kernel
  refine ⟨_, _, h, rfl, _, List.mem_singleton_self _, ∅, rfl, ?_⟩
  exact fun hincludes => hforwarded (Environment.empty_includes_iff.mp hincludes)

end Invocation
end SimControl
