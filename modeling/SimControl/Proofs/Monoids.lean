/-
Every kind of value that is put together from parts is a monoid.

Truth values, optional values, lists, sets, maps and sets of words each have a rule of their own
for a part that is given again.  The records of options are joined field by field, each field by
the rule of its type, and a field that were left out would not be restored by the identity.  So
parts may be grouped in any way and a value with no parts may be left out, and the fold over two
lists of parts is the fold over the one followed by the fold over the other, which is
`foldAll_append`.  The main statement is `accumulators_isMonoid`.

A reading that respects joining can be taken of the parts as well as of the whole.  So what a fold
of maps says of a key is a fold of optional values, of which the last one given counts.
-/
import SimControl.Configuration
import SimControl.Creation
import SimControl.Launch
import SimControl.Listening
import SimControl.Target.Query

namespace SimControl
namespace Accumulator

/-- Parts may be grouped in any way, and so may lists of them. -/
structure IsMonoid (α : Type) [Accumulator α] : Prop where
  append_assoc (a b c : α) : append (append a b) c = append a (append b c)
  append_identity (a : α) : append a identity = a
  identity_append (a : α) : append identity a = a
  foldAll_append (xs ys : List α) : foldAll (xs ++ ys) = append (foldAll xs) (foldAll ys)

theorem isMonoid (α : Type) [Accumulator α] [LawfulAccumulator α] : IsMonoid α where
  append_assoc := LawfulAccumulator.append_assoc
  append_identity := LawfulAccumulator.append_identity
  identity_append := LawfulAccumulator.identity_append
  foldAll_append := foldAll_append

/-- The accumulators of the library: the general ones over any type, ordered where they have to
be, and the records of options. -/
theorem accumulators_isMonoid :
    IsMonoid Bool ∧ (∀ α, IsMonoid (Option α)) ∧ (∀ α, IsMonoid (List α)) ∧
      (∀ α [Ord α] [Std.TransOrd α] [Std.LawfulEqOrd α], IsMonoid (Std.ExtTreeSet α)) ∧
      (∀ α β [Ord α] [Std.TransOrd α] [Std.LawfulEqOrd α], IsMonoid (Std.ExtTreeMap α β)) ∧
      (∀ α, IsMonoid (EnumSet α)) ∧
      IsMonoid Configuration ∧ IsMonoid TargetQuery ∧ IsMonoid ListenInterface ∧
      IsMonoid IndividualCreation := by
  refine ⟨isMonoid _, ?_, ?_, ?_, ?_, ?_, isMonoid _, isMonoid _, isMonoid _, isMonoid _⟩
  · intro α
    exact isMonoid _
  · intro α
    exact isMonoid _
  · intro α _ _ _
    exact isMonoid _
  · intro α β _ _ _
    exact isMonoid _
  · intro α
    exact isMonoid _

/-- Names and identifiers are ordered as maps and sets of them ask for.  The last value given for
a name counts, however the three environments are grouped. -/
theorem accumulators_isMonoid_strings :
    Std.TransOrd String ∧ Std.LawfulEqOrd String ∧ IsMonoid (Std.ExtTreeSet Udid) ∧
      IsMonoid Environment ∧
      let a : Environment := .ofList [("A", "1")]
      let b : Environment := .ofList [("A", "2"), ("B", "3")]
      let c : Environment := .ofList [("B", "4")]
      append (append a b) c = .ofList [("A", "2"), ("B", "4")] ∧
        append a (append b c) = .ofList [("A", "2"), ("B", "4")] := by
  obtain ⟨_, _, _, hset, hmap, _⟩ := accumulators_isMonoid
  have henvironment : IsMonoid Environment := hmap String String
  have hjoined : append (append (.ofList [("A", "1")]) (.ofList [("A", "2"), ("B", "3")]))
      (.ofList [("B", "4")]) = (.ofList [("A", "2"), ("B", "4")] : Environment) := by
    decide +kernel
  exact ⟨inferInstance, inferInstance, hset Udid, henvironment, hjoined,
    (henvironment.append_assoc _ _ _).symm.trans hjoined⟩

/-! ## Readings of a fold -/

section Readings

variable {α β : Type}

theorem foldAll_map [Accumulator α] [LawfulAccumulator α] [Accumulator β] [LawfulAccumulator β]
    {f : α → β} (hidentity : f identity = identity)
    (happend : ∀ a b, f (append a b) = append (f a) (f b)) (parts : List α) :
    f (foldAll parts) = foldAll (parts.map f) := by
  induction parts with
  | nil => exact hidentity
  | cons part parts ih => rw [List.map_cons, foldAll_cons, foldAll_cons, happend, ih]

/-- The last value given counts. -/
theorem foldAll_option (parts : List (Option α)) :
    foldAll parts = (parts.filterMap id).getLast? := by
  induction parts with
  | nil => rfl
  | cons part parts ih =>
    rw [foldAll_cons, ih]
    cases part with
    | none => exact Option.or_none
    | some a =>
      rw [List.filterMap_cons_some (by rfl), List.getLast?_cons]
      show ((parts.filterMap id).getLast?).or (some a) = _
      cases (parts.filterMap id).getLast? <;> rfl

/-- A key has the value that the last of the maps with this key gives it. -/
theorem getElem?_foldAll [Ord α] [Std.TransOrd α] [Std.LawfulEqOrd α]
    (maps : List (Std.ExtTreeMap α β)) (key : α) :
    (foldAll maps)[key]? = (maps.filterMap (·[key]?)).getLast? := by
  have happend (a b : Std.ExtTreeMap α β) :
      (append a b)[key]? = append a[key]? b[key]? := Std.ExtTreeMap.getElem?_union
  calc (foldAll maps)[key]?
      = foldAll (maps.map (·[key]?)) :=
        foldAll_map (f := fun map : Std.ExtTreeMap α β => map[key]?)
          Std.ExtTreeMap.getElem?_empty happend maps
    _ = ((maps.map (·[key]?)).filterMap id).getLast? := foldAll_option _
    _ = (maps.filterMap (·[key]?)).getLast? := congrArg _ List.filterMap_map

end Readings

end Accumulator
end SimControl
