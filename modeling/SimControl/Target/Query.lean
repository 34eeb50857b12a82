/-
Which targets a command is about.

A query collects criteria.  Criteria of one kind widen the selection of that kind,
kinds narrow each other, and no criteria at all select every target, which is also
what the word `all` asks for.
-/
import SimControl.Operand.Udid
import SimControl.Operand.Word
import SimControl.Parser.Enumerated
import SimControl.Parser.Sequence
import SimControl.Target.Vocabulary

namespace SimControl

structure TargetQuery where
  udids : Std.ExtTreeSet Udid := ∅
  states : EnumSet SimulatorState := ∅
  types : EnumSet TargetType := ∅
  osVersions : EnumSet OsVersion := ∅
  devices : EnumSet DeviceModel := ∅
  /-- At most this many targets. -/
  first : Option Nat := none
  deriving DecidableEq

namespace TargetQuery

/-- Every target. -/
def all : TargetQuery := {}

/-- Whether the query has no criteria. -/
def isAll (q : TargetQuery) : Bool := decide (q = all)

instance : Accumulator TargetQuery where
  identity := all
  append a b :=
    { udids := Accumulator.append a.udids b.udids
      states := Accumulator.append a.states b.states
      types := Accumulator.append a.types b.types
      osVersions := Accumulator.append a.osVersions b.osVersions
      devices := Accumulator.append a.devices b.devices
      first := Accumulator.append a.first b.first }

instance : LawfulAccumulator TargetQuery where
  append_assoc a b c := by
    simp only [Accumulator.append, mk.injEq]
    exact ⟨LawfulAccumulator.append_assoc a.udids b.udids c.udids,
      LawfulAccumulator.append_assoc a.states b.states c.states,
      LawfulAccumulator.append_assoc a.types b.types c.types,
      LawfulAccumulator.append_assoc a.osVersions b.osVersions c.osVersions,
      LawfulAccumulator.append_assoc a.devices b.devices c.devices,
      LawfulAccumulator.append_assoc a.first b.first c.first⟩
  append_identity a := by
    obtain ⟨udids, states, types, osVersions, devices, first⟩ := a
    simp only [Accumulator.append, mk.injEq]
    exact ⟨LawfulAccumulator.append_identity udids, LawfulAccumulator.append_identity states,
      LawfulAccumulator.append_identity types, LawfulAccumulator.append_identity osVersions,
      LawfulAccumulator.append_identity devices, LawfulAccumulator.append_identity first⟩
  identity_append a := by
    obtain ⟨udids, states, types, osVersions, devices, first⟩ := a
    simp only [Accumulator.append, mk.injEq]
    exact ⟨LawfulAccumulator.identity_append udids, LawfulAccumulator.identity_append states,
      LawfulAccumulator.identity_append types, LawfulAccumulator.identity_append osVersions,
      LawfulAccumulator.identity_append devices, LawfulAccumulator.identity_append first⟩

/-! ## Criteria -/

def stateParser : Parser SimulatorState := .oneSpelled fun state => "--state=" ++ state.name

def typeParser : Parser (EnumSet TargetType) := .oneOf (Parser.flags TargetType.flag)

def osVersionParser : Parser OsVersion := .named "OS Version" OsVersion.name

def deviceParser : Parser DeviceModel := .named "Device" DeviceModel.name

/-- How many targets at most. -/
def firstParser : Parser Nat :=
  .keyword "--first" <| Operand.integer.refine fun n =>
    if 0 ≤ n then .ok n.toNat else .error (.objection (.negativeCount n))

/-- The criteria, each as a query of its own. -/
def criteria : List (Parser TargetQuery) :=
  [ firstParser.map fun n => { first := some n },
    Udid.parser.map fun udid => { udids := {udid} },
    stateParser.map fun state => { states := .singleton state },
    typeParser.map fun types => { types := types },
    osVersionParser.map fun version => { osVersions := .singleton version },
    deviceParser.map fun model => { devices := .singleton model } ]

/-- A criterion is one of those listed, each by the name of what it asks for. -/
@[elab_as_elim]
theorem criterion_cases {motive : (p : Parser TargetQuery) → p ∈ criteria → Prop}
    (first : ∀ h, motive (firstParser.map fun n => { first := some n }) h)
    (udid : ∀ h, motive (Udid.parser.map fun udid => { udids := {udid} }) h)
    (state : ∀ h, motive (stateParser.map fun state => { states := .singleton state }) h)
    (type : ∀ h, motive (typeParser.map fun types => { types := types }) h)
    (osVersion : ∀ h, motive
      (osVersionParser.map fun version => { osVersions := .singleton version }) h)
    (device : ∀ h, motive (deviceParser.map fun model => { devices := .singleton model }) h)
    {p : Parser TargetQuery} (hp : p ∈ criteria) : motive p hp := by
  have hcases := hp
  simp only [criteria, List.mem_cons, List.not_mem_nil, or_false] at hcases
  rcases hcases with rfl | rfl | rfl | rfl | rfl | rfl
  · exact first _
  · exact udid _
  · exact state _
  · exact type _
  · exact osVersion _
  · exact device _

/-- The word `all`, or one or more criteria. -/
def parser : Parser TargetQuery :=
  (Parser.oneOf [.literal "all" all, .gather 1 criteria]).described "Target Query"

end TargetQuery
end SimControl
