/-
Values that are put together from parts given one by one.

`Accumulator` has the operations and `LawfulAccumulator` says that they form a
monoid, so that the parts may be grouped in any way.  What a repeated part means is
decided by the instance: a truth value stays true, an optional value is replaced by
the last one given, lists are joined, sets and maps are united.
-/
import Std.Data.ExtTreeMap
import Std.Data.ExtTreeSet

namespace SimControl

class Accumulator (α : Type) where
  /-- The value with no parts. -/
  identity : α
  /-- Follow one value by another. -/
  append : α → α → α

namespace Accumulator

/-- All of `parts`, one after another. -/
def foldAll {α : Type} [Accumulator α] (parts : List α) : α := parts.foldl append identity

end Accumulator

class LawfulAccumulator (α : Type) [Accumulator α] : Prop where
  append_assoc (a b c : α) : Accumulator.append (Accumulator.append a b) c =
    Accumulator.append a (Accumulator.append b c)
  append_identity (a : α) : Accumulator.append a Accumulator.identity = a
  identity_append (a : α) : Accumulator.append Accumulator.identity a = a

namespace Accumulator

variable {α : Type}

/-! ## Folding -/

theorem foldAll_concat [Accumulator α] (parts : List α) (part : α) :
    foldAll (parts ++ [part]) = append (foldAll parts) part := by
  unfold foldAll
  rw [List.foldl_append, List.foldl_cons, List.foldl_nil]

section Fold

variable [Accumulator α] [LawfulAccumulator α]

theorem foldl_append (a : α) (parts : List α) :
    parts.foldl append a = append a (foldAll parts) := by
  unfold foldAll
  induction parts generalizing a with
  | nil => exact (LawfulAccumulator.append_identity a).symm
  | cons part parts ih =>
    rw [List.foldl_cons, List.foldl_cons, ih, ih (append identity part),
      LawfulAccumulator.identity_append, LawfulAccumulator.append_assoc]

theorem foldAll_cons (part : α) (parts : List α) :
    foldAll (part :: parts) = append part (foldAll parts) := by
  show parts.foldl append (append identity part) = _
  rw [LawfulAccumulator.identity_append, foldl_append]

/-- The parts of two values, one after another, are those of the one followed by the other. -/
theorem foldAll_append (xs ys : List α) :
    foldAll (xs ++ ys) = append (foldAll xs) (foldAll ys) := by
  show (xs ++ ys).foldl append identity = _
  rw [List.foldl_append, foldl_append]
  rfl

/-- Where nothing but the identity can be completed to the identity, parts that say something
say something together. -/
theorem foldAll_ne_identity (h : ∀ a b : α, append a b = identity → a = identity)
    {parts : List α} (hsome : parts ≠ []) (hparts : ∀ part ∈ parts, part ≠ identity) :
    foldAll parts ≠ identity := by
  obtain ⟨part, more, rfl⟩ := List.exists_cons_of_ne_nil hsome
  rw [foldAll_cons]
  intro heq
  exact hparts part List.mem_cons_self (h _ _ heq)

end Fold

/-! ## Instances -/

instance : Accumulator Bool := ⟨false, or⟩

instance : LawfulAccumulator Bool := ⟨Bool.or_assoc, Bool.or_false, Bool.false_or⟩

/-- The last value given counts. -/
instance : Accumulator (Option α) := ⟨none, fun a b => b.or a⟩

instance : LawfulAccumulator (Option α) where
  append_assoc a b c := by cases c <;> rfl
  append_identity _ := rfl
  identity_append a := by cases a <;> rfl

instance : Accumulator (List α) := ⟨[], List.append⟩

instance : LawfulAccumulator (List α) := ⟨List.append_assoc, List.append_nil, List.nil_append⟩

section Trees

variable [Ord α] [Std.TransOrd α]

instance : Accumulator (Std.ExtTreeSet α) := ⟨∅, fun a b => a ∪ b⟩

instance [Std.LawfulEqOrd α] : LawfulAccumulator (Std.ExtTreeSet α) where
  append_assoc a b c := Std.ExtTreeSet.ext_mem fun k => by
    simp only [append, Std.ExtTreeSet.mem_union_iff, or_assoc]
  append_identity a := Std.ExtTreeSet.ext_mem fun k => by
    simp [append, identity, Std.ExtTreeSet.mem_union_iff]
  identity_append a := Std.ExtTreeSet.ext_mem fun k => by
    simp [append, identity, Std.ExtTreeSet.mem_union_iff]

/-- The last value given for a key counts. -/
instance {β : Type} : Accumulator (Std.ExtTreeMap α β) := ⟨∅, fun a b => a ∪ b⟩

instance {β : Type} [Std.LawfulEqOrd α] : LawfulAccumulator (Std.ExtTreeMap α β) where
  append_assoc a b c := Std.ExtTreeMap.ext_getElem? fun k => by
    simp only [append, Std.ExtTreeMap.getElem?_union, Option.or_assoc]
  append_identity a := Std.ExtTreeMap.ext_getElem? fun k => by
    simp [append, identity, Std.ExtTreeMap.getElem?_union]
  identity_append a := Std.ExtTreeMap.ext_getElem? fun k => by
    simp [append, identity, Std.ExtTreeMap.getElem?_union]

end Trees

end Accumulator
end SimControl
