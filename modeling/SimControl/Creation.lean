/-
Which simulators to create.
-/
import SimControl.Target.Query
import SimControl.Operand.Path

namespace SimControl

/-- One simulator; what is not given is chosen by the one who creates it. -/
structure IndividualCreation where
  os : Option OsVersion := none
  model : Option DeviceModel := none
  /-- A directory of additional files. -/
  auxDirectory : Option Path := none
  deriving DecidableEq, Repr

inductive CreationSpecification where
  /-- All the usual simulators that are not there yet. -/
  | allMissingDefaults
  | individual (creation : IndividualCreation)
  deriving DecidableEq, Repr

namespace IndividualCreation

instance : Accumulator IndividualCreation where
  identity := {}
  append a b :=
    { os := Accumulator.append a.os b.os
      model := Accumulator.append a.model b.model
      auxDirectory := Accumulator.append a.auxDirectory b.auxDirectory }

instance : LawfulAccumulator IndividualCreation where
  append_assoc a b c := by
    simp only [Accumulator.append, mk.injEq]
    exact ⟨LawfulAccumulator.append_assoc a.os b.os c.os,
      LawfulAccumulator.append_assoc a.model b.model c.model,
      LawfulAccumulator.append_assoc a.auxDirectory b.auxDirectory c.auxDirectory⟩
  append_identity a := by
    obtain ⟨os, model, auxDirectory⟩ := a
    simp only [Accumulator.append, mk.injEq]
    exact ⟨LawfulAccumulator.append_identity os, LawfulAccumulator.append_identity model,
      LawfulAccumulator.append_identity auxDirectory⟩
  identity_append a := by
    obtain ⟨os, model, auxDirectory⟩ := a
    simp only [Accumulator.append, mk.injEq]
    exact ⟨LawfulAccumulator.identity_append os, LawfulAccumulator.identity_append model,
      LawfulAccumulator.identity_append auxDirectory⟩

/-- The properties of a simulator, each as a creation of its own. -/
def properties (fs : FileSystem) : List (Parser IndividualCreation) :=
  [ TargetQuery.deviceParser.map fun model => { model := some model },
    TargetQuery.osVersionParser.map fun os => { os := some os },
    (Parser.keyword "--aux" (Operand.directory fs)).map fun path => { auxDirectory := some path } ]

/-- A property is one of those listed, each by the name of its field. -/
@[elab_as_elim]
theorem property_cases {fs : FileSystem}
    {motive : (p : Parser IndividualCreation) → p ∈ properties fs → Prop}
    (model : ∀ h, motive (TargetQuery.deviceParser.map fun model => { model := some model }) h)
    (os : ∀ h, motive (TargetQuery.osVersionParser.map fun os => { os := some os }) h)
    (auxDirectory : ∀ h, motive ((Parser.keyword "--aux" (Operand.directory fs)).map
      fun path => { auxDirectory := some path }) h)
    {p : Parser IndividualCreation} (hp : p ∈ properties fs) : motive p hp := by
  have hcases := hp
  simp only [properties, List.mem_cons, List.not_mem_nil, or_false] at hcases
  rcases hcases with rfl | rfl | rfl
  · exact model _
  · exact os _
  · exact auxDirectory _

end IndividualCreation

namespace CreationSpecification

def parser (fs : FileSystem) : Parser CreationSpecification :=
  .oneOf
    [ .literal "--all-missing-defaults" allMissingDefaults,
      (Parser.gather 0 (IndividualCreation.properties fs)).map individual ]

end CreationSpecification
end SimControl
