/-
Parsers that are nested from the primitives and the combinators.

`Composed p` says that `p` is built in this way, at whatever depth and of whatever
types.  A property of all such parsers is an induction on it, with one case for each
way to build a parser, and the parsers of the command language have the property
because all of them are composed.

The inductive type has one constructor for each combinator with a run of its own.  The
others are abbreviations of those, and their cases follow below it.
-/
import SimControl.Invocation

namespace SimControl
namespace Parser

inductive Composed : {α : Type} → Parser α → Prop
  | single {α : Type} (description : String) (read : Token → Except Problem α) :
      Composed (single description read)
  | succeed {α : Type} (value : α) : Composed (succeed value)
  | fail {α : Type} (problem : Problem) : Composed (fail problem : Parser α)
  | described {α : Type} {p : Parser α} (hp : Composed p) (description : String) :
      Composed (p.described description)
  | map {α β : Type} {p : Parser α} (hp : Composed p) (f : α → β) : Composed (p.map f)
  | refine {α β : Type} {p : Parser α} (hp : Composed p) (f : α → Except Problem β) :
      Composed (p.refine f)
  | withDefault {α : Type} {p : Parser α} (hp : Composed p) (default : α) :
      Composed (p.withDefault default)
  | exhaustive {α : Type} {p : Parser α} (hp : Composed p) : Composed p.exhaustive
  | oneOf {α : Type} {branches : List (Parser α)} (hp : ∀ p ∈ branches, Composed p) :
      Composed (oneOf branches)
  | pair {α β : Type} {p : Parser α} {q : Parser β} (hp : Composed p) (hq : Composed q) :
      Composed (p.pair q)
  | sequence {α : Type} {parts : List (Parser α)} (hp : ∀ p ∈ parts, Composed p) :
      Composed (sequence parts)
  | atLeast {α : Type} {p : Parser α} (minimum : Nat) (hp : Composed p) :
      Composed (atLeast minimum p)
  | separated {α β : Type} {p : Parser α} {separator : Parser β} (minimum : Nat)
      (hp : Composed p) (hs : Composed separator) : Composed (separated minimum p separator)
  | upTo {α β : Type} {stop : Parser β} {p : Parser α} (hs : Composed stop) (hp : Composed p) :
      Composed (upTo stop p)
  | gather {α : Type} [Accumulator α] {parts : List (Parser α)} (minimum : Nat)
      (hp : ∀ p ∈ parts, Composed p) : Composed (gather minimum parts)

namespace Composed

variable {α β γ δ : Type}

theorem reading (description : String) (read : Token → Option α) :
    (reading description read).Composed := single _ _

theorem literal (text : Token) (value : α) : (literal text value).Composed := single _ _

theorem optional {p : Parser α} (hp : p.Composed) : p.optional.Composed :=
  (hp.map some).withDefault none

theorem many {p : Parser α} (hp : p.Composed) : (many p).Composed := atLeast 0 hp

theorem manyOf (minimum : Nat) {branches : List (Parser α)} (hp : ∀ p ∈ branches, p.Composed) :
    (manyOf minimum branches).Composed := atLeast minimum (oneOf hp)

theorem triple {p : Parser α} {q : Parser β} {r : Parser γ} (hp : p.Composed) (hq : q.Composed)
    (hr : r.Composed) : (triple p q r).Composed := ((hp.pair hq).pair hr).map _

theorem quadruple {p : Parser α} {q : Parser β} {r : Parser γ} {s : Parser δ} (hp : p.Composed)
    (hq : q.Composed) (hr : r.Composed) (hs : s.Composed) : (quadruple p q r s).Composed :=
  ((triple hp hq hr).pair hs).map _

theorem preceded {p : Parser α} {q : Parser β} (hp : p.Composed) (hq : q.Composed) :
    (preceded p q).Composed := (hp.pair hq).map Prod.snd

theorem keyword {p : Parser α} (hp : p.Composed) (text : Token) : (keyword text p).Composed :=
  (preceded (literal text ()) hp).described _

/-! ## Words of an enumerated type -/

variable [Enumerated α]

theorem of_mem_literals {text : α → Token} {p : Parser α} (hp : p ∈ literals text) :
    p.Composed := by
  obtain ⟨a, _, rfl⟩ := List.mem_map.mp hp
  exact literal ..

theorem oneSpelled (text : α → Token) : (oneSpelled text).Composed :=
  oneOf fun _ hp => of_mem_literals hp

theorem of_mem_flags [DecidableEq α] {text : α → Token} {p : Parser (EnumSet α)}
    (hp : p ∈ flags text) : p.Composed := by
  obtain ⟨q, hq, rfl⟩ := List.mem_map.mp hp
  exact (of_mem_literals hq).map _

theorem flagSet [DecidableEq α] (minimum : Nat) (text : α → Token) :
    (flagSet minimum text).Composed := gather minimum fun _ hp => of_mem_flags hp

end Composed
end Parser

open SimControl.Parser

variable (fs : FileSystem)

/-! ## Sections of a command -/

theorem Operand.composed_bundleId : (Operand.bundleId fs).Composed := .single ..

theorem Operand.composed_arguments : Operand.arguments.Composed :=
  .upTo (.literal ..) (.reading ..)

theorem Configuration.parser_composed : (Configuration.parser fs).Composed := by
  refine .gather 0 fun p hp => ?_
  simp only [Configuration.settings, List.mem_append, List.mem_map, List.mem_singleton] at hp
  rcases hp with (⟨q, hq, rfl⟩ | ⟨q, hq, rfl⟩) | rfl
  · exact (Composed.of_mem_flags hq).map _
  · exact (Composed.of_mem_flags hq).map _
  · exact ((Composed.single ..).keyword _).map _

theorem TargetQuery.parser_composed : TargetQuery.parser.Composed := by
  refine (Composed.oneOf fun p hp => ?_).described _
  simp only [List.mem_cons, List.not_mem_nil, or_false] at hp
  rcases hp with rfl | rfl
  · exact .literal ..
  · refine .gather 1 fun q hq => ?_
    cases hq using TargetQuery.criterion_cases with
    | first => exact (((Composed.reading ..).refine _).keyword _).map _
    | udid | osVersion | device => exact (Composed.reading ..).map _
    | state => exact (Composed.oneSpelled _).map _
    | type => exact (Composed.oneOf fun _ hp => Composed.of_mem_flags hp).map _

theorem TargetFormat.parser_composed : TargetFormat.parser.Composed :=
  ((Composed.manyOf 1 fun _ hp => Composed.of_mem_literals hp).map _).described _

/-! ## Operands of actions -/

theorem ApplicationLaunch.parser_composed : (ApplicationLaunch.parser fs).Composed :=
  ((Composed.triple (.flagSet ..) (Operand.composed_bundleId fs)
    Operand.composed_arguments).map _).described _

theorem AgentLaunch.parser_composed : (AgentLaunch.parser fs).Composed :=
  ((Composed.triple (.flagSet ..) ((Composed.single ..).described _)
    Operand.composed_arguments).map _).described _

theorem TestLaunch.parser_composed : (TestLaunch.parser fs).Composed :=
  ((Composed.triple ((Composed.reading ..).keyword _).optional (.single ..)
    (ApplicationLaunch.parser_composed fs)).map _).described _

theorem BootConfiguration.parser_composed : BootConfiguration.parser.Composed :=
  ((Composed.triple ((Composed.reading ..).keyword _).optional (Composed.oneSpelled _).optional
    (Composed.flagSet ..).optional).refine _).described _

theorem IndividualCreation.composed_of_mem_properties {p : Parser IndividualCreation}
    (hp : p ∈ IndividualCreation.properties fs) : p.Composed := by
  cases hp using IndividualCreation.property_cases with
  | model | os => exact (Composed.reading ..).map _
  | auxDirectory => exact ((Composed.single ..).keyword _).map _

theorem CreationSpecification.parser_composed : (CreationSpecification.parser fs).Composed := by
  refine .oneOf fun p hp => ?_
  simp only [List.mem_cons, List.not_mem_nil, or_false] at hp
  rcases hp with rfl | rfl
  · exact .literal ..
  · exact (Composed.gather 0 fun _ => IndividualCreation.composed_of_mem_properties fs).map _

theorem DiagnosticQuery.parser_composed : (DiagnosticQuery.parser fs).Composed := by
  refine (Composed.oneOf fun p hp => ?_).described _
  simp only [List.mem_cons, List.not_mem_nil, or_false] at hp
  rcases hp with rfl | rfl | rfl
  · exact ((Operand.composed_bundleId fs).pair (.atLeast 1 (.reading ..))).map _
  · exact (Composed.atLeast 1 ((Composed.reading ..).keyword _)).map _
  · exact (((Composed.reading ..).keyword _).pair (.flagSet ..)).map _

theorem ListenInterface.composed_of_mem_sources {p : Parser ListenInterface}
    (hp : p ∈ ListenInterface.sources) : p.Composed := by
  cases hp using ListenInterface.source_cases with
  | stdin => exact .literal ..
  | socket | http => exact (((Composed.reading ..).refine _).keyword _).map _

theorem ListenInterface.parser_composed : ListenInterface.parser.Composed :=
  (Composed.gather 0 fun _ => ListenInterface.composed_of_mem_sources).map _

/-! ## Actions and command lines -/

theorem Action.composed_installParser : (Action.installParser fs).Composed := by
  refine ((Composed.oneOf fun p hp => ?_).pair ((Composed.literal ..).withDefault _)).map _
  simp only [List.mem_cons, List.not_mem_nil, or_false] at hp
  rcases hp with rfl | rfl
  · exact (Composed.single ..).map _
  · exact .single ..

theorem Action.composed_diagnoseParser : (Action.diagnoseParser fs).Composed :=
  (((Composed.oneSpelled _).withDefault _).pair
    ((DiagnosticQuery.parser_composed fs).withDefault _)).map _

/-- Whatever the arm reads after its verb is read by a composed parser. -/
def Arm.OperandsComposed : Arm → Prop
  | .bare _ _ => True
  | .operands _ p => p.Composed

theorem Arm.OperandsComposed.parser {arm : Arm} (h : arm.OperandsComposed) :
    arm.parser.Composed := by
  cases arm with
  | bare verb action => exact .literal ..
  | operands verb p => exact Composed.keyword h _

theorem Action.composed_of_mem_arms {arm : Arm} (harm : arm ∈ Action.arms fs) :
    arm.OperandsComposed := by
  have hbare (verb : Verb) (action : Action) : (Arm.bare verb action).OperandsComposed := trivial
  have hid := Operand.composed_bundleId fs
  have hlaunch := ApplicationLaunch.parser_composed fs
  cases harm using Action.arm_cases with
  | approve => exact (Composed.atLeast 1 hid).map _
  | boot => exact BootConfiguration.parser_composed.optional.map _
  | clearKeychain | terminate | uninstall => exact hid.map _
  | create => exact (CreationSpecification.parser_composed fs).map _
  | delete | erase | list | listApps | shutdown => exact hbare _ _
  | diagnose => exact Action.composed_diagnoseParser fs
  | install => exact Action.composed_installParser fs
  | launchAgent => exact (AgentLaunch.parser_composed fs).map _
  | launchApplication | relaunch => exact hlaunch.map _
  | launchTest => exact (TestLaunch.parser_composed fs).map _
  | listen => exact ListenInterface.parser_composed.map _
  | openUrl => exact (Composed.reading ..).map _
  | record => exact (Composed.oneSpelled _).map _
  | tap => exact ((Composed.reading ..).pair (.reading ..)).map _
  | upload => exact (Composed.atLeast 1 (.single ..)).map _
  | watchdogOverride => exact ((Composed.reading ..).pair (.atLeast 1 hid)).map _

theorem Action.parser_composed : (Action.parser fs).Composed := by
  refine (Composed.oneOf fun p hp => ?_).described _
  obtain ⟨arm, harm, rfl⟩ := List.mem_map.mp hp
  exact (composed_of_mem_arms fs harm).parser

theorem Action.composed_listParser : (Action.listParser fs).Composed :=
  .separated 1 (Action.parser_composed fs) (.literal ..)

theorem Command.parser_composed : (Command.parser fs).Composed :=
  ((Composed.quadruple (Configuration.parser_composed fs) TargetQuery.parser_composed.optional
    TargetFormat.parser_composed.optional (Action.composed_listParser fs).exhaustive).map
      _).described _

theorem HelpRequest.parser_composed : HelpRequest.parser.Composed :=
  (((Composed.flagSet ..).pair (.literal ..)).exhaustive.map _).described _

theorem Invocation.parser_composed : (Invocation.parser fs).Composed := by
  refine .oneOf fun p hp => ?_
  simp only [List.mem_cons, List.not_mem_nil, or_false] at hp
  rcases hp with rfl | rfl
  · exact (Command.parser_composed fs).map _
  · exact HelpRequest.parser_composed.map _

end SimControl
