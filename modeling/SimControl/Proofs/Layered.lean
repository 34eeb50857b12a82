/-
Variables that are forwarded from several environments in turn.

What is forwarded from one environment is known name by name: the mark is taken off, so that two
variables never meet under one name, in whatever order the variables are gone through.  Forwarding
adds to the environment of a launch, and adding is an action of the monoid of environments, so
that several environments come to one, the fold over what is forwarded from each.

A command line is read with nothing in the environments of its launches.  So after forwarding all
its launches but the relaunches have this one environment and everything else is as it was read,
which is the main statement, `forwarding_layers`.
-/
import SimControl.Proofs.Forwarded
import SimControl.Proofs.Monoids

namespace SimControl

/-! ## One environment -/

namespace Environment

theorem childName?_append (child : String) :
    childName? (childMark ++ child) = if child = "" then none else some child := by
  have hmark : childMark.toList.isPrefixOf (childMark ++ child).toList = true := by
    rw [String.toList_append, List.isPrefixOf_iff_prefix]
    exact List.prefix_append _ _
  have hrest : (childMark ++ child).toList.drop childMark.toList.length = child.toList := by
    rw [String.toList_append, List.drop_left]
  rw [childName?, if_pos hmark, hrest]
  cases hchild : child.toList with
  | nil =>
    have hempty : child = "" := String.toList_inj.mp hchild
    rw [if_pos hempty]
  | cons char chars =>
    have hsome : child ≠ "" := by
      rintro rfl
      cases hchild
    rw [if_neg hsome]
    show some (String.ofList (char :: chars)) = some child
    rw [← hchild, String.ofList_toList]

/-- Taking off the mark is undone by putting it on again. -/
theorem childName?_eq_some_iff {name child : String} :
    childName? name = some child ↔ child ≠ "" ∧ name = childMark ++ child := by
  constructor
  · intro h
    by_cases hmark : childMark.toList.isPrefixOf name.toList = true
    · obtain ⟨rest, hrest⟩ := List.isPrefixOf_iff_prefix.mp hmark
      obtain rfl : name = childMark ++ String.ofList rest := by
        rw [← String.toList_inj, String.toList_append, String.toList_ofList, hrest]
      rw [childName?_append] at h
      by_cases hempty : String.ofList rest = ""
      · rw [if_pos hempty] at h
        cases h
      · rw [if_neg hempty] at h
        obtain rfl := Option.some.inj h
        exact ⟨hempty, rfl⟩
    · rw [childName?, if_neg hmark] at h
      cases h
  · rintro ⟨hsome, rfl⟩
    rw [childName?_append, if_neg hsome]

/-- The variables of `entries` that are meant for launched processes. -/
def children (entries : List (String × String)) : List (String × String) :=
  entries.filterMap fun (name, value) => (childName? name).map fun child => (child, value)

theorem mem_children_iff {entries : List (String × String)} {child value : String} :
    (child, value) ∈ children entries ↔ child ≠ "" ∧ (childMark ++ child, value) ∈ entries := by
  simp only [children, List.mem_filterMap, Option.map_eq_some_iff, Prod.mk.injEq,
    childName?_eq_some_iff]
  constructor
  · rintro ⟨⟨name, value'⟩, hmem, _, ⟨hsome, rfl⟩, rfl, rfl⟩
    exact ⟨hsome, hmem⟩
  · rintro ⟨hsome, hmem⟩
    exact ⟨_, hmem, child, ⟨hsome, rfl⟩, rfl, rfl⟩

/-- Variables of different names do not meet under one name when the mark is taken off. -/
theorem distinct_children {entries : List (String × String)}
    (h : entries.Pairwise fun a b => ¬ compare a.1 b.1 = .eq) :
    (children entries).Pairwise fun a b => ¬ compare a.1 b.1 = .eq := by
  refine h.filterMap _ ?_
  rintro ⟨name, value⟩ ⟨name', value'⟩ hdistinct ⟨child, _⟩ ha ⟨child', _⟩ hb heq
  obtain rfl : child = child' := Std.LawfulEqCmp.eq_of_compare heq
  obtain ⟨_, hname, hpair⟩ := Option.map_eq_some_iff.mp ha
  obtain ⟨rfl, _⟩ := Prod.mk.inj hpair
  obtain ⟨_, hname', hpair'⟩ := Option.map_eq_some_iff.mp hb
  obtain ⟨rfl, _⟩ := Prod.mk.inj hpair'
  apply hdistinct
  show compare name name' = .eq
  rw [(childName?_eq_some_iff.mp hname).2, (childName?_eq_some_iff.mp hname').2]
  exact Std.ReflCmp.compare_self

/-- The value of a name in a map that is made of variables of different names. -/
theorem getElem?_ofList_eq_some_iff {entries : List (String × String)}
    (h : entries.Pairwise fun a b => ¬ compare a.1 b.1 = .eq) {name value : String} :
    (Std.ExtTreeMap.ofList entries : Environment)[name]? = some value ↔
      (name, value) ∈ entries := by
  constructor
  · intro hvalue
    by_cases hmem : name ∈ entries.map Prod.fst
    · obtain ⟨⟨_, value'⟩, hentry, rfl⟩ := List.mem_map.mp hmem
      rw [Std.ExtTreeMap.getElem?_ofList_of_mem Std.ReflCmp.compare_self h hentry] at hvalue
      obtain rfl := Option.some.inj hvalue
      exact hentry
    · rw [Std.ExtTreeMap.getElem?_ofList_of_contains_eq_false] at hvalue
      · cases hvalue
      · rw [List.contains_eq_mem, decide_eq_false hmem]
  · exact Std.ExtTreeMap.getElem?_ofList_of_mem Std.ReflCmp.compare_self h

section Forwarded

variable {environment : Environment} {entries : List (String × String)}

theorem distinct_of_perm (h : entries.Perm environment.toList) :
    entries.Pairwise fun a b => ¬ compare a.1 b.1 = .eq := by
  refine (h.pairwise_iff ?_).mpr Std.ExtTreeMap.distinct_keys_toList
  intro a b hab hba
  exact hab (Std.OrientedCmp.eq_comm.mp hba)

/-- A launched process sees the variables that have a mark and a name behind it, in whatever order
they are gone through. -/
theorem getElem?_ofList_children (h : entries.Perm environment.toList) {child value : String} :
    (Std.ExtTreeMap.ofList (children entries) : Environment)[child]? = some value ↔
      child ≠ "" ∧ environment[childMark ++ child]? = some value := by
  rw [getElem?_ofList_eq_some_iff (distinct_children (distinct_of_perm h)), mem_children_iff,
    h.mem_iff, Std.ExtTreeMap.mem_toList_iff_getElem?_eq_some]

theorem getElem?_forwarded (environment : Environment) {child value : String} :
    environment.forwarded[child]? = some value ↔
      child ≠ "" ∧ environment[childMark ++ child]? = some value :=
  getElem?_ofList_children (List.Perm.refl _)

theorem ofList_children_eq_forwarded (h : entries.Perm environment.toList) :
    Std.ExtTreeMap.ofList (children entries) = environment.forwarded := by
  refine Std.ExtTreeMap.ext_getElem? fun child => Option.ext fun value => ?_
  rw [getElem?_ofList_children h, getElem?_forwarded]

end Forwarded

/-! ## Several environments -/

/-- What is forwarded from all of `environments`, one after another. -/
def forwardedAll (environments : List Environment) : Environment :=
  Accumulator.foldAll (environments.map forwarded)

theorem getElem?_forwarded_of_ne {child : String} (hsome : child ≠ "")
    (environment : Environment) :
    environment.forwarded[child]? = environment[childMark ++ child]? := by
  refine Option.ext fun value => ?_
  rw [getElem?_forwarded]
  exact and_iff_right hsome

theorem getElem?_forwarded_empty (environment : Environment) :
    environment.forwarded[""]? = none := by
  refine Option.eq_none_iff_forall_ne_some.mpr fun value h => ?_
  exact (environment.getElem?_forwarded.mp h).1 rfl

/-- A launched process sees the value that the last of the environments gives that has the marked
name. -/
theorem getElem?_forwardedAll (environments : List Environment) {child value : String} :
    (forwardedAll environments)[child]? = some value ↔
      child ≠ "" ∧
        (environments.filterMap fun e => e[childMark ++ child]?).getLast? = some value := by
  rw [forwardedAll, Accumulator.getElem?_foldAll, List.filterMap_map]
  -- The empty name is forwarded from nowhere, although an environment may have the mark alone.
  by_cases hempty : child = ""
  · subst hempty
    have hnone : (environments.filterMap fun e => e.forwarded[""]?) = [] :=
      List.filterMap_eq_nil_iff.mpr fun e _ => getElem?_forwarded_empty e
    show (environments.filterMap fun e => e.forwarded[""]?).getLast? = some value ↔ _
    rw [hnone]
    simp
  · have hmarked : (fun e : Environment => e.forwarded[child]?) =
        fun e => e[childMark ++ child]? := funext (getElem?_forwarded_of_ne hempty)
    show (environments.filterMap fun e => e.forwarded[child]?).getLast? = some value ↔ _
    rw [hmarked]
    exact (and_iff_right hempty).symm

end Environment

/-! ## Launches -/

namespace Action

/-- Give the three launches the environment.  Every other action stays as it is. -/
def setEnvironment (environment : Environment) : Action → Action
  | launchAgent launch => .launchAgent { launch with environment := environment }
  | launchApplication launch => .launchApplication { launch with environment := environment }
  | launchTest launch =>
      .launchTest
        { launch with application := { launch.application with environment := environment } }
  | action => action

theorem addEnvironment_identity (action : Action) :
    action.addEnvironment Accumulator.identity = action := by
  cases action with
  | launchAgent launch | launchApplication launch | launchTest launch =>
    simp only [addEnvironment, LawfulAccumulator.append_identity]
  | _ => rfl

theorem addEnvironment_addEnvironment (action : Action) (first second : Environment) :
    (action.addEnvironment first).addEnvironment second =
      action.addEnvironment (Accumulator.append first second) := by
  cases action with
  | launchAgent launch | launchApplication launch | launchTest launch =>
    simp only [addEnvironment, LawfulAccumulator.append_assoc]
  | _ => rfl

/-- Environments that are forwarded one after another come to one. -/
theorem foldl_appendEnvironment (environments : List Environment) (action : Action) :
    environments.foldl (fun a e => a.appendEnvironment e) action =
      action.addEnvironment (Environment.forwardedAll environments) := by
  induction environments generalizing action with
  | nil => exact (addEnvironment_identity action).symm
  | cons e environments ih =>
    rw [List.foldl_cons, ih, appendEnvironment, addEnvironment_addEnvironment]
    refine congrArg action.addEnvironment ?_
    exact (Accumulator.foldAll_cons _ _).symm

/-- What is added where there was nothing is all there is. -/
theorem addEnvironment_eq_setEnvironment {action : Action}
    (hempty : ∀ e ∈ action.launchEnvironment?, e = ∅) (additions : Environment) :
    action.addEnvironment additions = action.setEnvironment additions := by
  have happend : Accumulator.append ∅ additions = additions :=
    LawfulAccumulator.identity_append additions
  cases action with
  | launchAgent launch | launchApplication launch =>
    have hlaunch : launch.environment = ∅ := hempty _ rfl
    simp only [addEnvironment, setEnvironment, hlaunch, happend]
  | launchTest launch =>
    have hlaunch : launch.application.environment = ∅ := hempty _ rfl
    simp only [addEnvironment, setEnvironment, hlaunch, happend]
  | _ => rfl

end Action

/-! ## Command lines -/

namespace Invocation

/-- Change every action.  A request for help has none. -/
def mapActions (f : Action → Action) : Invocation → Invocation
  | run command => run { command with actions := command.actions.map f }
  | help request => help request

theorem appendEnvironment_eq_mapActions (environment : Environment) (invocation : Invocation) :
    invocation.appendEnvironment environment =
      invocation.mapActions (Action.appendEnvironment environment) := by
  cases invocation <;> rfl

theorem mapActions_mapActions (f g : Action → Action) (invocation : Invocation) :
    (invocation.mapActions f).mapActions g = invocation.mapActions fun a => g (f a) := by
  cases invocation with
  | run command =>
    simp only [mapActions, List.map_map]
    rfl
  | help request => rfl

theorem mapActions_id (invocation : Invocation) :
    invocation.mapActions (fun action => action) = invocation := by
  cases invocation with
  | run command => simp only [mapActions, List.map_id']
  | help request => rfl

/-- Forwarding to a command line is forwarding to each of its actions. -/
theorem foldl_appendEnvironment (environments : List Environment) (invocation : Invocation) :
    environments.foldl (fun i e => i.appendEnvironment e) invocation =
      invocation.mapActions fun action =>
        environments.foldl (fun a e => a.appendEnvironment e) action := by
  induction environments generalizing invocation with
  | nil => exact (mapActions_id invocation).symm
  | cons e environments ih =>
    rw [List.foldl_cons, ih, appendEnvironment_eq_mapActions, mapActions_mapActions]
    rfl

variable {fs : FileSystem} {tokens : List Token} {invocation : Invocation}

/-- In a command line that was read, adding variables to the launches is giving them no others. -/
theorem mapActions_addEnvironment_of_parse
    (h : (parser fs).parse tokens = .done invocation) (additions : Environment) :
    invocation.mapActions (Action.addEnvironment additions) =
      invocation.mapActions (Action.setEnvironment additions) := by
  cases invocation with
  | help request => rfl
  | run command =>
    have hactions : command.actions.map (Action.addEnvironment additions) =
        command.actions.map (Action.setEnvironment additions) := by
      refine List.map_congr_left fun action haction => ?_
      exact Action.addEnvironment_eq_setEnvironment
        (launchEnvironment?_of_parse h action haction) additions
    simp only [mapActions, hactions]

/-- Environments that are forwarded one after another to a command line that was read give every
launch one and the same environment, in which a name has the value of the marked name in the last
environment that has it.  They change nothing else, and they may as well be forwarded to the
actions one by one. -/
theorem forwarding_layers (h : (parser fs).parse tokens = .done invocation)
    (environments : List Environment) :
    ∃ seen : Environment,
      (∀ name value : String, seen[name]? = some value ↔
        name ≠ "" ∧ (environments.filterMap fun e =>
          e[Environment.childMark ++ name]?).getLast? = some value) ∧
      environments.foldl (fun i e => i.appendEnvironment e) invocation =
        invocation.mapActions (Action.setEnvironment seen) ∧
      environments.foldl (fun i e => i.appendEnvironment e) invocation =
        invocation.mapActions fun action =>
          environments.foldl (fun a e => a.appendEnvironment e) action := by
  refine ⟨Environment.forwardedAll environments, ?_, ?_, foldl_appendEnvironment _ _⟩
  · intro name value
    exact Environment.getElem?_forwardedAll environments
  · rw [foldl_appendEnvironment, ← mapActions_addEnvironment_of_parse h]
    exact congrArg invocation.mapActions
      (funext (Action.foldl_appendEnvironment environments))

/-- The later value of `A` replaces the earlier one, `B` is kept, and the mark alone is no
variable. -/
theorem forwarding_layers_launch :
    let first : Environment :=
      .ofList [("FBSIMCTL_CHILD_A", "1"), ("FBSIMCTL_CHILD_B", "2"), ("HOME", "h")]
    let second : Environment := .ofList [("FBSIMCTL_CHILD_A", "3"), ("FBSIMCTL_CHILD_", "4")]
    ∃ (invocation : Invocation) (seen : Environment),
      (parser FileTree.empty.view).parse ["launch", "com.a", "--", "relaunch", "com.a"] =
          .done invocation ∧
        seen["A"]? = some "3" ∧ seen["B"]? = some "2" ∧
        (∀ value, seen[""]? ≠ some value) ∧
        [first, second].foldl (fun i e => i.appendEnvironment e) invocation =
          invocation.mapActions (Action.setEnvironment seen) ∧
        [first, second].foldl (fun i e => i.appendEnvironment e) invocation =
          invocation.mapActions fun action =>
            [first, second].foldl (fun a e => a.appendEnvironment e) action := by
  intro first second
  have h : (parser FileTree.empty.view).parse ["launch", "com.a", "--", "relaunch", "com.a"] =
      .done (.run
        { configuration := {}, query := none, format := none
          actions :=
            [.launchApplication { bundleId := "com.a", arguments := [], options := ∅ },
              .relaunch { bundleId := "com.a", arguments := [], options := ∅ }] }) := by
    decide +kernel
  obtain ⟨seen, hseen, hset, heach⟩ := forwarding_layers h [first, second]
  refine ⟨_, seen, h, (hseen _ _).mpr ⟨by decide, ?_⟩,
    (hseen _ _).mpr ⟨by decide, ?_⟩, ?_, hset, heach⟩
  · decide +kernel
  · decide +kernel
  · intro value hvalue
    exact ((hseen _ _).mp hvalue).1 rfl

end Invocation
end SimControl
