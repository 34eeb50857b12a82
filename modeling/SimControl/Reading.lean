/-
Reading a whole command line.

All the parsers of the command language are steady, so every list of tokens is either
read or refused, and `Invocation.read` has no third answer.
-/
import SimControl.Invocation
import SimControl.Parser.Steady

namespace SimControl

open SimControl.Parser

variable (fs : FileSystem)

/-! ## Operands -/

theorem Operand.steady_arguments : Operand.arguments.Steady :=
  steady_upTo (steady_literal ..) (steady_reading ..)

theorem Operand.steady_binary : (Operand.binary fs).Steady := (steady_single ..).described _

theorem Operand.steady_bundleId : (Operand.bundleId fs).Steady := steady_single ..

/-! ## Sections of a command -/

theorem OutputOption.steady_setParser : OutputOption.setParser.Steady := steady_flagSet ..

theorem Configuration.steady_of_mem_settings {p : Parser Configuration}
    (hp : p ∈ Configuration.settings fs) : p.Steady := by
  simp only [Configuration.settings, List.mem_append, List.mem_map, List.mem_singleton] at hp
  rcases hp with (⟨q, hq, rfl⟩ | ⟨q, hq, rfl⟩) | rfl
  · exact (steady_of_mem_flags hq).map _
  · exact (steady_of_mem_flags hq).map _
  · exact ((steady_single ..).keyword _).map _

theorem Configuration.parser_steady : (Configuration.parser fs).Steady :=
  steady_gather 0 fun _ => Configuration.steady_of_mem_settings fs

theorem TargetQuery.steady_firstParser : TargetQuery.firstParser.Steady :=
  ((steady_reading ..).refine _).keyword _

theorem TargetQuery.steady_typeParser : TargetQuery.typeParser.Steady :=
  steady_oneOf fun _ hp => steady_of_mem_flags hp

theorem TargetQuery.steady_of_mem_criteria {p : Parser TargetQuery}
    (hp : p ∈ TargetQuery.criteria) : p.Steady := by
  cases hp using TargetQuery.criterion_cases with
  | first => exact TargetQuery.steady_firstParser.map _
  | udid => exact (steady_reading ..).map _
  | state => exact (steady_oneSpelled _).map _
  | type => exact TargetQuery.steady_typeParser.map _
  | osVersion | device => exact (steady_named ..).map _

theorem TargetQuery.parser_steady : TargetQuery.parser.Steady := by
  refine (steady_oneOf fun p hp => ?_).described _
  simp only [List.mem_cons, List.not_mem_nil, or_false] at hp
  rcases hp with rfl | rfl
  · exact steady_literal ..
  · exact steady_gather 1 fun _ => TargetQuery.steady_of_mem_criteria

theorem TargetFormat.parser_steady : TargetFormat.parser.Steady :=
  ((steady_atLeast 1 (steady_oneOf fun _ hp => steady_of_mem_literals hp)).map _).described _

/-! ## Operands of actions -/

theorem ApplicationLaunch.parser_steady : (ApplicationLaunch.parser fs).Steady :=
  ((steady_triple (steady_flagSet ..) (Operand.steady_bundleId fs)
    Operand.steady_arguments).map _).described _

theorem AgentLaunch.parser_steady : (AgentLaunch.parser fs).Steady :=
  ((steady_triple (steady_flagSet ..) (Operand.steady_binary fs)
    Operand.steady_arguments).map _).described _

theorem TestLaunch.parser_steady : (TestLaunch.parser fs).Steady :=
  ((steady_triple ((steady_reading ..).keyword _).optional (steady_single ..)
    (ApplicationLaunch.parser_steady fs)).map _).described _

theorem BootConfiguration.parser_steady : BootConfiguration.parser.Steady :=
  ((steady_triple ((steady_reading ..).keyword _).optional (steady_oneSpelled _).optional
    (steady_flagSet ..).optional).refine _).described _

theorem IndividualCreation.steady_of_mem_properties {p : Parser IndividualCreation}
    (hp : p ∈ IndividualCreation.properties fs) : p.Steady := by
  cases hp using IndividualCreation.property_cases with
  | model | os => exact (steady_named ..).map _
  | auxDirectory => exact ((steady_single ..).keyword _).map _

theorem CreationSpecification.parser_steady : (CreationSpecification.parser fs).Steady := by
  refine steady_oneOf fun p hp => ?_
  simp only [List.mem_cons, List.not_mem_nil, or_false] at hp
  rcases hp with rfl | rfl
  · exact steady_literal ..
  · exact (steady_gather 0 fun _ => IndividualCreation.steady_of_mem_properties fs).map _

theorem DiagnosticQuery.parser_steady : (DiagnosticQuery.parser fs).Steady := by
  refine (steady_oneOf fun p hp => ?_).described _
  simp only [List.mem_cons, List.not_mem_nil, or_false] at hp
  rcases hp with rfl | rfl | rfl
  · exact ((Operand.steady_bundleId fs).pair (steady_atLeast 1 (steady_reading ..))).map _
  · exact (steady_atLeast 1 ((steady_reading ..).keyword _)).map _
  · exact (((steady_reading ..).keyword _).pair (steady_flagSet ..)).map _

theorem ListenInterface.steady_portParser : ListenInterface.portParser.Steady :=
  (steady_reading ..).refine _

theorem ListenInterface.steady_of_mem_sources {p : Parser ListenInterface}
    (hp : p ∈ ListenInterface.sources) : p.Steady := by
  cases hp using ListenInterface.source_cases with
  | stdin => exact steady_literal ..
  | socket | http => exact (ListenInterface.steady_portParser.keyword _).map _

theorem ListenInterface.parser_steady : ListenInterface.parser.Steady :=
  (steady_gather 0 fun _ => ListenInterface.steady_of_mem_sources).map _

/-! ## Actions -/

theorem Action.steady_installParser : (Action.installParser fs).Steady := by
  refine ((steady_oneOf fun p hp => ?_).pair ((steady_literal ..).withDefault _)).map _
  simp only [List.mem_cons, List.not_mem_nil, or_false] at hp
  rcases hp with rfl | rfl
  · exact (steady_single ..).map _
  · exact steady_single ..

theorem Action.steady_diagnoseParser : (Action.diagnoseParser fs).Steady :=
  (((steady_oneSpelled _).withDefault _).pair
    ((DiagnosticQuery.parser_steady fs).withDefault _)).map _

theorem Action.steady_of_mem_arms {arm : Arm} (harm : arm ∈ Action.arms fs) :
    arm.parser.Steady := by
  have hid := Operand.steady_bundleId fs
  cases harm using Action.arm_cases with
  | approve => exact ((steady_atLeast 1 hid).map _).keyword _
  | boot => exact (BootConfiguration.parser_steady.optional.map _).keyword _
  | clearKeychain | terminate | uninstall => exact (hid.map _).keyword _
  | create => exact ((CreationSpecification.parser_steady fs).map _).keyword _
  | delete | erase | list | listApps | shutdown => exact steady_literal ..
  | diagnose => exact (Action.steady_diagnoseParser fs).keyword _
  | install => exact (Action.steady_installParser fs).keyword _
  | launchAgent => exact ((AgentLaunch.parser_steady fs).map _).keyword _
  | launchApplication | relaunch => exact ((ApplicationLaunch.parser_steady fs).map _).keyword _
  | launchTest => exact ((TestLaunch.parser_steady fs).map _).keyword _
  | listen => exact (ListenInterface.parser_steady.map _).keyword _
  | openUrl => exact ((steady_reading ..).map _).keyword _
  | record => exact ((steady_oneSpelled _).map _).keyword _
  | tap => exact (((steady_reading ..).pair (steady_reading ..)).map _).keyword _
  | upload => exact ((steady_atLeast 1 (steady_single ..)).map _).keyword _
  | watchdogOverride => exact (((steady_reading ..).pair (steady_atLeast 1 hid)).map _).keyword _

theorem Action.parser_steady : (Action.parser fs).Steady := by
  refine (steady_oneOf fun p hp => ?_).described _
  obtain ⟨arm, harm, rfl⟩ := List.mem_map.mp hp
  exact steady_of_mem_arms fs harm

theorem Action.steady_listParser : (Action.listParser fs).Steady :=
  steady_separated 1 (Action.parser_steady fs) (steady_literal ..) (consuming_literal _ _)

/-! ## Command lines -/

theorem Command.parser_steady : (Command.parser fs).Steady :=
  ((steady_quadruple (Configuration.parser_steady fs) TargetQuery.parser_steady.optional
    TargetFormat.parser_steady.optional (Action.steady_listParser fs).exhaustive).map _).described _

theorem HelpRequest.parser_steady : HelpRequest.parser.Steady :=
  (((OutputOption.steady_setParser.pair (steady_literal ..)).exhaustive).map _).described _

theorem Invocation.parser_steady : (Invocation.parser fs).Steady := by
  refine steady_oneOf fun p hp => ?_
  simp only [List.mem_cons, List.not_mem_nil, or_false] at hp
  rcases hp with rfl | rfl
  · exact (Command.parser_steady fs).map _
  · exact HelpRequest.parser_steady.map _

/-- What a command line asks for, or why it cannot be read. -/
def Invocation.read (fs : FileSystem) (tokens : List Token) : Except Failure Invocation :=
  ((Invocation.parser fs).parse tokens).toExcept
    ((Invocation.parser_steady fs).parse_ne_endless tokens)

end SimControl
