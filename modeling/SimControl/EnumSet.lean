/-
Sets of words of an enumerated type.

A set is its membership test, so that two sets with the same members are equal and
union is pointwise.  The enumeration gives the order in which members are listed.
-/
import SimControl.Accumulator

namespace SimControl

/-- A type with finitely many values, in the order in which they are listed. -/
class Enumerated (α : Type) where
  all : List α
  mem_all (a : α) : a ∈ all

/-- What holds of all the values is found out by going through the list. -/
instance Enumerated.decidableForall {α : Type} [Enumerated α] {P : α → Prop} [DecidablePred P] :
    Decidable (∀ a, P a) :=
  decidable_of_iff (∀ a ∈ Enumerated.all, P a)
    ⟨fun h a => h a (Enumerated.mem_all a), fun h a _ => h a⟩

@[ext] structure EnumSet (α : Type) where
  contains : α → Bool

namespace EnumSet

variable {α : Type}

instance : EmptyCollection (EnumSet α) := ⟨⟨fun _ => false⟩⟩

instance : Inhabited (EnumSet α) := ⟨∅⟩

def singleton [DecidableEq α] (a : α) : EnumSet α := ⟨fun b => decide (b = a)⟩

instance : Union (EnumSet α) := ⟨fun s t => ⟨fun a => s.contains a || t.contains a⟩⟩

/-- The members, in the order of the enumeration. -/
def toList [Enumerated α] (s : EnumSet α) : List α := Enumerated.all.filter s.contains

def isEmpty [Enumerated α] (s : EnumSet α) : Bool := s.toList.isEmpty

@[simp] theorem contains_empty (a : α) : (∅ : EnumSet α).contains a = false := rfl

@[simp] theorem contains_singleton [DecidableEq α] (a b : α) :
    (singleton a).contains b = decide (b = a) := rfl

@[simp] theorem contains_union (s t : EnumSet α) (a : α) :
    (s ∪ t).contains a = (s.contains a || t.contains a) := rfl

theorem singleton_ne_empty [DecidableEq α] (a : α) : singleton a ≠ ∅ := by
  intro h
  have hmember := congrArg (fun s => s.contains a) h
  simp at hmember

/-- Only the empty set can be completed to the empty set. -/
theorem eq_empty_of_union {s t : EnumSet α} (h : s ∪ t = ∅) : s = ∅ := by
  ext a
  have hmember := congrArg (fun s => s.contains a) h
  simp only [contains_union, contains_empty, Bool.or_eq_false_iff] at hmember
  exact hmember.1

theorem mem_toList [Enumerated α] {s : EnumSet α} {a : α} :
    a ∈ s.toList ↔ s.contains a = true := by
  simp [toList, Enumerated.mem_all]

theorem eq_of_toList_eq [Enumerated α] {s t : EnumSet α} (h : s.toList = t.toList) : s = t := by
  ext a
  rw [Bool.eq_iff_iff, ← mem_toList, ← mem_toList, h]

instance [Enumerated α] [DecidableEq α] : DecidableEq (EnumSet α) := fun s t =>
  if h : s.toList = t.toList then isTrue (eq_of_toList_eq h)
  else isFalse fun e => h (e ▸ rfl)

instance : Accumulator (EnumSet α) := ⟨∅, fun s t => s ∪ t⟩

instance : LawfulAccumulator (EnumSet α) where
  append_assoc _ _ _ := EnumSet.ext (funext fun _ => Bool.or_assoc ..)
  append_identity _ := EnumSet.ext (funext fun _ => Bool.or_false _)
  identity_append _ := EnumSet.ext (funext fun _ => Bool.false_or _)

end EnumSet
end SimControl
