/-
Cutting text at separators and marks.

All of it works on lists of characters, by recursion on the text.
-/

namespace SimControl
namespace Text

/-- The pieces of a text between separators, one more than there are separators. -/
def pieces (isSeparator : Char → Bool) : List Char → List (List Char)
  | [] => [[]]
  | c :: cs =>
      if isSeparator c then [] :: pieces isSeparator cs
      else
        match pieces isSeparator cs with
        | [] => [[c]]
        | piece :: more => (c :: piece) :: more

/-- What stands before and after the first occurrence of `mark`. -/
def cutAt (mark : List Char) : List Char → Option (List Char × List Char)
  | [] => if mark = [] then some ([], []) else none
  | c :: cs =>
      if mark.isPrefixOf (c :: cs) then some ([], (c :: cs).drop mark.length)
      else (cutAt mark cs).map fun (before, after) => (c :: before, after)

theorem pieces_ne_nil (isSeparator : Char → Bool) (cs : List Char) :
    pieces isSeparator cs ≠ [] := by
  cases cs with
  | nil => simp [pieces]
  | cons c cs =>
    rw [pieces]
    split
    · simp
    · split <;> simp

theorem pieces_eq_splitOnP (isSeparator : Char → Bool) (cs : List Char) :
    pieces isSeparator cs = cs.splitOnP isSeparator := by
  induction cs with
  | nil => rfl
  | cons c cs ih =>
    rw [pieces, List.splitOnP_cons_eq_if_modifyHead, ih]
    cases hsplit : cs.splitOnP isSeparator with
    | nil => exact absurd hsplit (List.splitOnP_ne_nil isSeparator cs)
    | cons piece more => rfl

/-- The pieces between all the places of one character. -/
theorem pieces_eq_splitOn (separator : Char) (cs : List Char) :
    pieces (· == separator) cs = cs.splitOn separator := by
  rw [pieces_eq_splitOnP, List.splitOn_eq_splitOnP]

/-- A text is what stands before the mark, the mark, and what stands after it. -/
theorem eq_of_cutAt {mark cs before after : List Char}
    (h : cutAt mark cs = some (before, after)) : cs = before ++ mark ++ after := by
  induction cs generalizing before with
  | nil =>
    rw [cutAt] at h
    split at h
    · simp_all
    · cases h
  | cons c cs ih =>
    rw [cutAt] at h
    split at h
    · next hmark =>
      obtain ⟨rfl, rfl⟩ := Prod.mk.inj (Option.some.inj h)
      obtain ⟨tail, htail⟩ := List.isPrefixOf_iff_prefix.mp hmark
      rw [← htail]
      simp
    · obtain ⟨⟨before', after'⟩, hcut, hpair⟩ := Option.map_eq_some_iff.mp h
      obtain ⟨rfl, rfl⟩ := Prod.mk.inj hpair
      simp [ih hcut]

end Text
end SimControl
