/-
What is reported of a rejected command line.

Every parser of the command language is apt.  The one that is not on its own, the
configuration of a boot, is always optional.  So whatever stops the reading of a command line is
reported at the token that it is about, and as the end of the input only if it lies there.
-/
import SimControl.Proofs.Apt
import SimControl.Proofs.Blame

namespace SimControl

open SimControl.Parser

variable (fs : FileSystem)

/-! ## Sections of a command -/

theorem Configuration.parser_apt : (Configuration.parser fs).Apt := by
  refine apt_gather (Nat.zero_le 1) fun p hp => ?_
  simp only [settings, List.mem_append, List.mem_map, List.mem_singleton] at hp
  rcases hp with (⟨q, hq, rfl⟩ | ⟨q, hq, rfl⟩) | rfl
  · exact (apt_of_mem_flags hq).map _
  · exact (apt_of_mem_flags hq).map _
  · exact ((Operand.tells_directory fs).apt.keyword _).map _

namespace TargetQuery

theorem apt_firstParser : firstParser.Apt :=
  (tells_refine_reading _ _ fun _ _ _ => Problem.concerns_of_guard).apt.keyword _

theorem apt_of_mem_criteria {p : Parser TargetQuery} (hp : p ∈ criteria) : p.Apt := by
  cases hp using criterion_cases with
  | first => exact apt_firstParser.map _
  | udid | osVersion | device => exact (apt_reading _ _).map _
  | state => exact (apt_oneSpelled _).map _
  | type => exact (apt_oneOf fun _ => apt_of_mem_flags).map _

theorem parser_apt : parser.Apt := by
  refine (apt_oneOf fun p hp => ?_).described _
  simp only [List.mem_cons, List.not_mem_nil, or_false] at hp
  rcases hp with rfl | rfl
  · exact apt_literal _ _
  · exact apt_gather (Nat.le_refl 1) fun _ => apt_of_mem_criteria

end TargetQuery

theorem TargetFormat.parser_apt : TargetFormat.parser.Apt :=
  ((apt_atLeast 1 (apt_oneSpelled _) (prompt_oneSpelled _).consuming).map _).described _

/-! ## Operands of actions -/

theorem Operand.arguments_apt : Operand.arguments.Apt := apt_upTo _ (apt_reading _ _)

theorem ApplicationLaunch.parser_apt : (ApplicationLaunch.parser fs).Apt :=
  ((apt_triple (apt_flagSet (Nat.zero_le 1) _) (Operand.tells_bundleId fs).apt
    Operand.arguments_apt).map _).described _

theorem AgentLaunch.parser_apt : (AgentLaunch.parser fs).Apt :=
  ((apt_triple (apt_flagSet (Nat.zero_le 1) _) ((Operand.tells_file fs).apt.described _)
    Operand.arguments_apt).map _).described _

theorem TestLaunch.parser_apt : (TestLaunch.parser fs).Apt :=
  ((apt_triple ((apt_reading _ _).keyword _).optional (Operand.tells_directory fs).apt
    (ApplicationLaunch.parser_apt fs)).map _).described _

/-- At the end of the tokens there is no token that the empty configuration could be blamed on,
but there it is not reported. -/
theorem BootConfiguration.optional_apt : BootConfiguration.parser.optional.Apt := by
  obtain ⟨f, hparser, hstays⟩ := exists_refine_eq
  have hlocale : (keyword "--locale" Locale.parser).Apt := (apt_reading _ _).keyword _
  have hoptions : BootOption.setParser.Apt := apt_flagSet (Nat.le_refl 1) _
  rw [hparser]
  exact (apt_triple hlocale.optional (apt_oneSpelled _).optional
    hoptions.optional).optional_refine hstays _

theorem CreationSpecification.parser_apt : (CreationSpecification.parser fs).Apt := by
  refine apt_oneOf fun p hp => ?_
  simp only [List.mem_cons, List.not_mem_nil, or_false] at hp
  rcases hp with rfl | rfl
  · exact apt_literal _ _
  · refine (apt_gather (Nat.zero_le 1) fun q hq => ?_).map _
    cases hq using IndividualCreation.property_cases with
    | model | os => exact (apt_reading _ _).map _
    | auxDirectory => exact ((Operand.tells_directory fs).apt.keyword _).map _

theorem DiagnosticQuery.parser_apt : (DiagnosticQuery.parser fs).Apt := by
  have hword : Operand.word.Prompt 0 := prompt_reading _ _
  have hwords : (atLeast 1 Operand.word).Apt := apt_atLeast 1 (apt_reading _ _) hword.consuming
  have hnames : (atLeast 1 (keyword "--name" Operand.word)).Apt :=
    apt_atLeast 1 ((apt_reading _ _).keyword _) (hword.keyword "--name").consuming
  refine (apt_oneOf fun p hp => ?_).described _
  simp only [List.mem_cons, List.not_mem_nil, or_false] at hp
  rcases hp with rfl | rfl | rfl
  · exact ((Operand.tells_bundleId fs).apt.pair hwords).map _
  · exact hnames.map _
  · exact (((apt_reading _ _).keyword _).pair (apt_flagSet (Nat.le_refl 1) _)).map _

theorem ListenInterface.parser_apt : ListenInterface.parser.Apt := by
  refine (apt_gather (Nat.zero_le 1) fun p hp => ?_).map _
  cases hp using source_cases with
  | stdin => exact apt_literal _ _
  | socket | http => exact (tells_portParser.apt.keyword _).map _

/-! ## Actions -/

namespace Action

theorem installParser_apt : (installParser fs).Apt := by
  refine ((apt_oneOf fun p hp => ?_).pair ((apt_literal _ _).withDefault _)).map _
  simp only [List.mem_cons, List.not_mem_nil, or_false] at hp
  rcases hp with rfl | rfl
  · exact (Operand.tells_application fs).apt.map _
  · exact (Operand.tells_file fs).apt

theorem diagnoseParser_apt : (diagnoseParser fs).Apt :=
  (((apt_oneSpelled _).withDefault _).pair
    ((DiagnosticQuery.parser_apt fs).withDefault _)).map _

theorem apt_of_mem_arms {arm : Arm} (harm : arm ∈ arms fs) : arm.parser.Apt := by
  have hbare (verb : Verb) (action : Action) : (Arm.bare verb action).parser.Apt :=
    apt_literal _ _
  have hoperands (verb : Verb) {p : Parser Action} (hp : p.Apt) :
      (Arm.operands verb p).parser.Apt := hp.keyword _
  have hid := (Operand.tells_bundleId fs).apt
  have hids := apt_atLeast 1 hid (Operand.tells_bundleId fs).prompt.consuming
  have hpath := Operand.tells_file fs
  have hpaths := apt_atLeast 1 hpath.apt hpath.prompt.consuming
  have hdouble : Operand.double.Apt := apt_reading _ _
  have hlaunch := ApplicationLaunch.parser_apt fs
  cases harm using arm_cases with
  | approve => exact hoperands _ (hids.map _)
  | boot => exact hoperands _ (BootConfiguration.optional_apt.map _)
  | clearKeychain | terminate | uninstall => exact hoperands _ (hid.map _)
  | create => exact hoperands _ ((CreationSpecification.parser_apt fs).map _)
  | delete | erase | list | listApps | shutdown => exact hbare _ _
  | diagnose => exact hoperands _ (diagnoseParser_apt fs)
  | install => exact hoperands _ (installParser_apt fs)
  | launchAgent => exact hoperands _ ((AgentLaunch.parser_apt fs).map _)
  | launchApplication | relaunch => exact hoperands _ (hlaunch.map _)
  | launchTest => exact hoperands _ ((TestLaunch.parser_apt fs).map _)
  | listen => exact hoperands _ (ListenInterface.parser_apt.map _)
  | openUrl => exact hoperands _ ((apt_reading _ _).map _)
  | record => exact hoperands _ ((apt_oneSpelled _).map _)
  | tap => exact hoperands _ ((hdouble.pair hdouble).map _)
  | upload => exact hoperands _ (hpaths.map _)
  | watchdogOverride => exact hoperands _ ((hdouble.pair hids).map _)

theorem parser_apt : (Action.parser fs).Apt := by
  refine (apt_oneOf fun p hp => ?_).described _
  obtain ⟨arm, harm, rfl⟩ := List.mem_map.mp hp
  exact apt_of_mem_arms fs harm

theorem listParser_apt : (listParser fs).Apt :=
  apt_separated_one (parser_apt fs) (apt_literal _ _)

end Action

/-! ## Command lines -/

theorem Command.parser_apt : (Command.parser fs).Apt :=
  ((apt_quadruple (Configuration.parser_apt fs) TargetQuery.parser_apt.optional
    TargetFormat.parser_apt.optional (Action.listParser_apt fs).exhaustive).map _).described _

theorem HelpRequest.parser_apt : HelpRequest.parser.Apt :=
  (((apt_flagSet (Nat.zero_le 1) _).pair (apt_literal _ _)).exhaustive.map _).described _

namespace Invocation

theorem parser_apt : (Invocation.parser fs).Apt := by
  refine apt_oneOf fun p hp => ?_
  simp only [List.mem_cons, List.not_mem_nil, or_false] at hp
  rcases hp with rfl | rfl
  · exact (Command.parser_apt fs).map _
  · exact HelpRequest.parser_apt.map _

/-- A command line is rejected at one of its tokens or at their end, and for a reason that is
about this place: the token there could not be interpreted, or there is none, it was refused, or
it is the first of those that are left over. -/
theorem problem_about_offset {tokens : List Token} {f : Failure}
    (h : (Invocation.parser fs).parse tokens = .failed f) :
    (∀ expected actual, f.problem = .uninterpretable expected actual →
        (∀ hlt : f.offset < tokens.length, actual = some tokens[f.offset]) ∧
          (actual = none ↔ f.offset = tokens.length)) ∧
      (∀ left, f.problem = .leftover left → left = tokens.drop f.offset ∧ left ≠ []) ∧
        ∀ reason, f.problem = .objection reason → f.offset < tokens.length := by
  have hrun : (parser fs).exhaustive.run (.start tokens) = .failed f :=
    Outcome.map_eq_failed_iff.mp h
  have hapt := (parser_apt fs).exhaustive.failed (.refl (.start tokens)) hrun
  have hle : f.offset ≤ tokens.length := Cursor.sourceLength_start tokens ▸ hapt.inside.2
  have habout := hapt.about
  refine ⟨fun expected actual hproblem => ?_, fun left hproblem => ?_, fun reason hproblem => ?_⟩
  · rw [hproblem] at habout
    have hactual : actual = tokens[f.offset]? := habout.trans List.head?_drop
    refine ⟨fun hlt => hactual.trans (List.getElem?_eq_getElem hlt), ?_⟩
    rw [hactual, List.getElem?_eq_none_iff]
    exact ⟨Nat.le_antisymm hle, fun heq => Nat.le_of_eq heq.symm⟩
  · rw [hproblem] at habout
    obtain ⟨hleft, hsome⟩ := habout
    exact ⟨hleft, hleft ▸ hsome⟩
  · rw [hproblem] at habout
    refine Nat.lt_of_not_le fun hend => habout ?_
    exact List.drop_eq_nil_of_le hend

/-- A boot that nothing is configured for is blamed on the word that configures nothing, and an
action that is missing on the end of the tokens. -/
theorem problem_about_offset_boot :
    (Invocation.parser FileTree.empty.view).parse ["boot", "oops"] =
        .failed ⟨.objection .emptyBoot, 1⟩ ∧
      1 < ["boot", "oops"].length ∧
        (Invocation.parser FileTree.empty.view).parse ["list", "--"] =
            .failed ⟨.uninterpretable "'approve'" none, 2⟩ ∧
          2 = ["list", "--"].length := by
  have h : (Invocation.parser FileTree.empty.view).parse ["boot", "oops"] =
      .failed ⟨.objection .emptyBoot, 1⟩ := by decide +kernel
  have h' : (Invocation.parser FileTree.empty.view).parse ["list", "--"] =
      .failed ⟨.uninterpretable "'approve'" none, 2⟩ := by decide +kernel
  obtain ⟨_, _, hobjection⟩ := problem_about_offset _ h
  obtain ⟨hactual, _, _⟩ := problem_about_offset _ h'
  exact ⟨h, hobjection .emptyBoot rfl, h', (hactual "'approve'" none rfl).2.mp rfl⟩

end Invocation
end SimControl
