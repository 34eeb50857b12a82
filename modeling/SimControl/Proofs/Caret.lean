/-
The place of the caret below a command line.

The caret should stand below the first character of the token that is to blame, or one column
behind the line if the line ended too soon.  Its column is a sum over the tokens before it, taken
in bytes, while the line above is read in characters.  All the branches come to the same text, the
tokens before the place with a space behind each of them (`preceding`): the caret stands at the
number of its bytes (`caretColumn_eq`) and should stand at the number of its characters
(`startColumn_eq`).  The two are the same just where every character in it takes one byte, which
is `caret_below_iff`.
-/
import SimControl.Console

namespace SimControl
namespace Console

open Help

variable {tokens : List Token} {offset : Nat}

/-- The two lines as one text. -/
def contextText (tokens : List Token) (offset : Nat) : String :=
  "\n".intercalate (context tokens offset)

/-- The tokens before a place, with a space behind each of them. -/
def preceding (tokens : List Token) (offset : Nat) : List Char :=
  (tokens.take offset).flatMap fun token => token.toList ++ [' ']

/-- The number of characters in the line before the token, or that of the whole line and a space
if there is no such token. -/
def startColumn (tokens : List Token) (offset : Nat) : Nat :=
  if offset < tokens.length then (preceding tokens offset).length
  else if tokens = [] then 0
  else (" ".intercalate tokens).length + 1

/-! ## The line -/

theorem toList_intercalate_cons_cons (token next : Token) (tokens : List Token) :
    (" ".intercalate (token :: next :: tokens)).toList =
      token.toList ++ ' ' :: (" ".intercalate (next :: tokens)).toList := by
  simp [String.toList_intercalate]

/-- A token stands in the line behind the tokens before it. -/
theorem exists_toList_intercalate (h : offset < tokens.length) :
    ∃ after, (" ".intercalate tokens).toList =
      preceding tokens offset ++ tokens[offset].toList ++ after := by
  induction tokens generalizing offset with
  | nil => cases h
  | cons token tokens ih =>
    cases offset with
    | zero =>
      cases tokens with
      | nil => exact ⟨[], by simp [preceding]⟩
      | cons next tokens => exact ⟨_, toList_intercalate_cons_cons token next tokens⟩
    | succ offset =>
      have htail : offset < tokens.length := Nat.lt_of_succ_lt_succ h
      obtain ⟨after, hafter⟩ := ih htail
      cases tokens with
      | nil => cases htail
      | cons next tokens =>
        refine ⟨after, ?_⟩
        rw [toList_intercalate_cons_cons, hafter]
        simp [preceding]

/-- Where there is no such token, the whole line and a space come before the place. -/
theorem preceding_of_le (h : tokens.length ≤ offset) (hsome : tokens ≠ []) :
    preceding tokens offset = (" ".intercalate tokens).toList ++ [' '] := by
  rw [preceding, List.take_of_length_le h]
  -- The bound has done its work, and the tail of the list need not keep it.
  clear h
  induction tokens with
  | nil => exact absurd rfl hsome
  | cons token tokens ih =>
    cases tokens with
    | nil => simp
    | cons next tokens =>
      rw [List.flatMap_cons, ih (List.cons_ne_nil _ _), toList_intercalate_cons_cons]
      simp

theorem isPlain_preceding_iff :
    isPlain (preceding tokens offset) = true ↔
      ∀ token ∈ tokens.take offset, isPlain token.toList = true := by
  have hspace : ' '.utf8Size = 1 := rfl
  simp [preceding, isPlain, hspace]

/-! ## The columns -/

theorem spacedWidth_eq (tokens : List Token) :
    spacedWidth tokens = byteLength (tokens.flatMap fun token => token.toList ++ [' ']) := by
  induction tokens with
  | nil => rfl
  | cons token tokens ih =>
    have hspace : byteLength [' '] = 1 := rfl
    rw [spacedWidth, ih, List.flatMap_cons, byteLength_append, byteLength_append,
      byteLength_toList, hspace]

theorem caretColumn_eq (tokens : List Token) (offset : Nat) :
    caretColumn tokens offset = byteLength (preceding tokens offset) := by
  unfold caretColumn
  by_cases hinside : offset < tokens.length
  · rw [if_pos hinside, spacedWidth_eq, preceding]
  · rw [if_neg hinside]
    by_cases hnil : tokens = []
    · rw [if_pos hnil, hnil]
      simp [preceding, byteLength]
    · have hspace : byteLength [' '] = 1 := rfl
      rw [if_neg hnil, preceding_of_le (Nat.le_of_not_lt hinside) hnil, byteLength_append,
        byteLength_toList, hspace]

theorem startColumn_eq (tokens : List Token) (offset : Nat) :
    startColumn tokens offset = (preceding tokens offset).length := by
  unfold startColumn
  by_cases hinside : offset < tokens.length
  · rw [if_pos hinside]
  · rw [if_neg hinside]
    by_cases hnil : tokens = []
    · rw [if_pos hnil, hnil]
      simp [preceding]
    · rw [if_neg hnil, preceding_of_le (Nat.le_of_not_lt hinside) hnil, List.length_append,
        String.length_toList, List.length_singleton]

/-! ## The caret -/

theorem not_mem_toList_intercalate {c : Char} (hspace : c ≠ ' ')
    (h : ∀ token ∈ tokens, c ∉ token.toList) : c ∉ (" ".intercalate tokens).toList := by
  induction tokens with
  | nil => exact List.not_mem_nil
  | cons token tokens ih =>
    obtain ⟨htoken, htokens⟩ := List.forall_mem_cons.mp h
    cases tokens with
    | nil => simpa [String.toList_intercalate] using htoken
    | cons next tokens =>
      rw [toList_intercalate_cons_cons, List.mem_append, List.mem_cons]
      rintro (hmem | heq | hmem)
      · exact htoken hmem
      · exact hspace heq
      · exact ih htokens hmem

theorem toList_spaces_caret (n : Nat) :
    (spaces n ++ "^").toList = List.replicate n ' ' ++ ['^'] := by
  rw [String.toList_append, spaces, String.toList_ofList]
  rfl

/-- If no token holds a line break, the text has two lines. -/
theorem splitOn_contextText (hlines : ∀ token ∈ tokens, '\n' ∉ token.toList) (offset : Nat) :
    (contextText tokens offset).toList.splitOn '\n' =
      [(" ".intercalate tokens).toList,
        List.replicate (byteLength (preceding tokens offset)) ' ' ++ ['^']] := by
  have hbreak : "\n".toList = ['\n'] := rfl
  rw [contextText, String.toList_intercalate, hbreak, context, caretColumn_eq, List.map_cons,
    List.map_singleton, toList_spaces_caret]
  refine List.splitOn_intercalate _ ?_ (List.cons_ne_nil _ _)
  simp only [List.forall_mem_cons, List.not_mem_nil, false_implies, implies_true, and_true]
  refine ⟨not_mem_toList_intercalate (by decide) hlines, ?_⟩
  rw [List.mem_append, List.mem_replicate, List.mem_singleton]
  rintro (⟨-, heq⟩ | heq) <;> cases heq

/-- The text has two lines, the tokens and the caret.  The caret stands below the first character
of the token exactly if every character of the tokens before it takes one byte.  If there is no such
token, that goes for the column behind the line and all the tokens. -/
theorem caret_below_iff (hlines : ∀ token ∈ tokens, '\n' ∉ token.toList) (offset : Nat) :
    (contextText tokens offset).toList.splitOn '\n' =
        [(" ".intercalate tokens).toList,
          List.replicate (byteLength (preceding tokens offset)) ' ' ++ ['^']] ∧
      (byteLength (preceding tokens offset) = startColumn tokens offset ↔
        ∀ token ∈ tokens.take offset, isPlain token.toList = true) ∧
      ∀ h : offset < tokens.length, ∃ after, (" ".intercalate tokens).toList =
        preceding tokens offset ++ tokens[offset].toList ++ after := by
  refine ⟨splitOn_contextText hlines offset, ?_, exists_toList_intercalate⟩
  rw [startColumn_eq, byteLength_eq_length_iff, isPlain_preceding_iff]

theorem caret_below_iff_approve :
    (∀ token ∈ ["approve", "com.a", "x"], '\n' ∉ token.toList) ∧
      startColumn ["approve", "com.a", "x"] 2 = 14 ∧
      (contextText ["approve", "com.a", "x"] 2).toList.splitOn '\n' =
        ["approve com.a x".toList, List.replicate 14 ' ' ++ ['^']] := by
  have hlines : ∀ token ∈ ["approve", "com.a", "x"], '\n' ∉ token.toList := by decide +kernel
  obtain ⟨htext, hcolumn, -⟩ := caret_below_iff hlines 2
  have hstart : startColumn ["approve", "com.a", "x"] 2 = 14 := by decide +kernel
  rw [hcolumn.mpr (by decide +kernel), hstart] at htext
  exact ⟨hlines, hstart, htext⟩

/-- In front of `x` are twelve characters, one of them of two bytes. -/
theorem caret_beside_token :
    (∀ token ∈ ["approve", "é.b", "x"], '\n' ∉ token.toList) ∧
      startColumn ["approve", "é.b", "x"] 2 = 12 ∧
      (contextText ["approve", "é.b", "x"] 2).toList.splitOn '\n' =
        ["approve é.b x".toList, List.replicate 13 ' ' ++ ['^']] := by
  have hlines : ∀ token ∈ ["approve", "é.b", "x"], '\n' ∉ token.toList := by decide +kernel
  have hcolumn : byteLength (preceding ["approve", "é.b", "x"] 2) = 13 := by decide +kernel
  refine ⟨hlines, by decide +kernel, ?_⟩
  rw [splitOn_contextText hlines, hcolumn]
  rfl

end Console
end SimControl
