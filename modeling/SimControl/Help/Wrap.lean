/-
Breaking a paragraph into lines of bounded width.

Words are kept whole as long as they fit.  A word that is wider than a line is broken
into pieces that fill one line each, with a hyphen at the end.  Widths are counted in
bytes of UTF-8, so a break may fall inside a character, and then the paragraph cannot
be wrapped.  Text of one byte per character always can, in lines of two or more.
-/
import SimControl.Text.Cut

namespace SimControl
namespace Help

/-- Why a paragraph cannot be wrapped. -/
inductive WrapError where
  /-- A word would have to be broken inside a character. -/
  | insideCharacter
  /-- A line has no room for a character beside the hyphen.  To break a word into lines of one
  byte would go on for ever, and for lines of no byte it has no meaning at all.  The error stands
  for both, and it does not come up where a line has two bytes or more. -/
  | tooNarrow
  deriving DecidableEq, Repr

/-- The number of bytes that the characters take. -/
def byteLength : List Char → Nat
  | [] => 0
  | c :: cs => c.utf8Size + byteLength cs

/-- The characters in the first `n` bytes, and those after them. -/
def splitBytes : Nat → List Char → Option (List Char × List Char)
  | 0, cs => some ([], cs)
  | _ + 1, [] => none
  | n + 1, c :: cs =>
      if c.utf8Size ≤ n + 1 then
        (splitBytes (n + 1 - c.utf8Size) cs).map fun (before, after) => (c :: before, after)
      else none

/-- The pieces of a word that fill lines of their own, and the rest of it.  Only with a `width` of
two or more does a piece take something off the word; below that, a word that does not fit is
answered by `tooNarrow`. -/
def hyphenate (width : Nat) (word : List Char) :
    Except WrapError (List (List Char) × List Char) :=
  if byteLength word ≤ width then .ok ([], word)
  else
    match splitBytes (width - 1) word with
    | none => .error .insideCharacter
    | some (piece, rest) =>
        if rest.length < word.length then
          match hyphenate width rest with
          | .ok (pieces, last) => .ok ((piece ++ ['-']) :: pieces, last)
          | .error e => .error e
        else .error .tooNarrow
termination_by word.length

/-- Go on with `words` in the line that holds `current`, empty for a new line. -/
def fill (width : Nat) (current : List Char) :
    List (List Char) → Except WrapError (List (List Char))
  | [] => .ok (if current = [] then [] else [current])
  | word :: words =>
      if current ≠ [] ∧ byteLength current + byteLength word + 1 ≤ width then
        fill width (current ++ ' ' :: word) words
      else
        match hyphenate width word with
        | .error e => .error e
        | .ok (pieces, last) =>
            match fill width last words with
            | .error e => .error e
            | .ok lines => .ok ((if current = [] then [] else [current]) ++ pieces ++ lines)

/-- The words of a paragraph: what stands between spaces. -/
def words (paragraph : List Char) : List (List Char) :=
  (Text.pieces (· == ' ') paragraph).filter (· ≠ [])

/-- The lines of a paragraph. -/
def wrap (width : Nat) (paragraph : List Char) : Except WrapError (List (List Char)) :=
  fill width [] (words paragraph)

/-! ## Bytes and characters -/

/-- Every character takes one byte. -/
def isPlain (cs : List Char) : Bool := cs.all fun c => c.utf8Size == 1

theorem byteLength_append (before after : List Char) :
    byteLength (before ++ after) = byteLength before + byteLength after := by
  induction before with
  | nil => exact (Nat.zero_add _).symm
  | cons c before ih => rw [List.cons_append, byteLength, byteLength, ih, Nat.add_assoc]

/-- A character takes at least one byte. -/
theorem length_le_byteLength (cs : List Char) : cs.length ≤ byteLength cs := by
  induction cs with
  | nil => exact Nat.le_refl 0
  | cons c cs ih =>
    have hpos := c.utf8Size_pos
    rw [byteLength, List.length_cons]
    omega

/-- Bytes and characters are equally many where every character takes one byte. -/
theorem byteLength_eq_length_iff {cs : List Char} :
    byteLength cs = cs.length ↔ isPlain cs = true := by
  induction cs with
  | nil => exact iff_of_true rfl rfl
  | cons c cs ih =>
    have hpos := c.utf8Size_pos
    have hle := length_le_byteLength cs
    have hplain : isPlain (c :: cs) = true ↔ c.utf8Size = 1 ∧ isPlain cs = true := by
      simp only [isPlain, List.all_cons, Bool.and_eq_true, beq_iff_eq]
    rw [hplain, ← ih, byteLength, List.length_cons]
    omega

theorem utf8ByteSize_ofList (cs : List Char) :
    (String.ofList cs).utf8ByteSize = byteLength cs := by
  induction cs with
  | nil => rfl
  | cons c cs ih =>
    rw [String.ofList_cons, String.utf8ByteSize_append, String.utf8ByteSize_singleton, ih,
      byteLength]

theorem byteLength_toList (text : String) : byteLength text.toList = text.utf8ByteSize := by
  rw [← utf8ByteSize_ofList, String.ofList_toList]

theorem utf8ByteSize_of_isPlain {cs : List Char} (hplain : isPlain cs = true) :
    (String.ofList cs).utf8ByteSize = cs.length := by
  rw [utf8ByteSize_ofList, byteLength_eq_length_iff.mpr hplain]

/-! ## Text of one byte per character -/

theorem splitBytes_of_isPlain {n : Nat} {cs : List Char} (hplain : isPlain cs = true)
    (hn : n ≤ cs.length) : splitBytes n cs = some (cs.take n, cs.drop n) := by
  induction cs generalizing n with
  | nil =>
    obtain rfl : n = 0 := by simpa using hn
    rfl
  | cons c cs ih =>
    cases n with
    | zero => rfl
    | succ n =>
      simp only [isPlain, List.all_cons, Bool.and_eq_true, beq_iff_eq] at hplain
      have hsplit := ih (n := n) (by simpa [isPlain] using hplain.2) (by simpa using hn)
      simp [splitBytes, hplain.1, hsplit]

theorem hyphenate_isOk_of_isPlain {width : Nat} (hwidth : 2 ≤ width) {word : List Char}
    (hplain : isPlain word = true) : ∃ pieces last, hyphenate width word = .ok (pieces, last) := by
  induction hlength : word.length using Nat.strongRecOn generalizing word with
  | ind n ih =>
    unfold hyphenate
    split
    · exact ⟨_, _, rfl⟩
    · next hwide =>
      rw [byteLength_eq_length_iff.mpr hplain] at hwide
      rw [splitBytes_of_isPlain hplain (by omega)]
      have hshorter : (word.drop (width - 1)).length < word.length := by
        rw [List.length_drop]
        omega
      have hrest : isPlain (word.drop (width - 1)) = true := by
        rw [isPlain, List.all_eq_true] at hplain ⊢
        exact fun c hc => hplain c (List.mem_of_mem_drop hc)
      obtain ⟨pieces, last, hok⟩ := ih _ (hlength ▸ hshorter) hrest rfl
      simp only [hshorter, if_true, hok]
      exact ⟨_, _, rfl⟩

theorem hyphenate_of_le {width : Nat} {word : List Char} (h : byteLength word ≤ width) :
    hyphenate width word = .ok ([], word) := by
  unfold hyphenate
  rw [if_pos h]

/-- Lines can be filled with words if each word can be broken.  A word that goes into a line
behind others is short enough not to be broken at all. -/
theorem fill_isOk_iff {width : Nat} (current : List Char) {words : List (List Char)} :
    (∃ lines, fill width current words = .ok lines) ↔
      ∀ word ∈ words, ∃ broken, hyphenate width word = .ok broken := by
  induction words generalizing current with
  | nil => exact ⟨fun _ word hword => (List.not_mem_nil hword).elim, fun _ => ⟨_, rfl⟩⟩
  | cons word words ih =>
    rw [fill, List.forall_mem_cons]
    by_cases hfits : current ≠ [] ∧ byteLength current + byteLength word + 1 ≤ width
    · have hword : byteLength word ≤ width := by omega
      rw [if_pos hfits, ih]
      exact (and_iff_right ⟨_, hyphenate_of_le hword⟩).symm
    · rw [if_neg hfits]
      cases hbroken : hyphenate width word with
      | error e => simp
      | ok broken =>
        obtain ⟨pieces, last⟩ := broken
        rw [← ih last]
        cases hlines : fill width last words with
        | error e => simp [hlines]
        | ok lines => simp [hlines]

theorem isPlain_of_mem_pieces {isSeparator : Char → Bool} {cs piece : List Char}
    (hplain : isPlain cs = true) (hpiece : piece ∈ Text.pieces isSeparator cs) :
    isPlain piece = true := by
  induction cs generalizing piece with
  | nil =>
    simp only [Text.pieces, List.mem_singleton] at hpiece
    subst hpiece
    rfl
  | cons c cs ih =>
    simp only [isPlain, List.all_cons, Bool.and_eq_true] at hplain
    have hcs : isPlain cs = true := hplain.2
    rw [Text.pieces] at hpiece
    split at hpiece
    · rcases List.mem_cons.mp hpiece with rfl | hmem
      · rfl
      · exact ih hcs hmem
    · split at hpiece
      · obtain rfl := List.mem_singleton.mp hpiece
        simp [isPlain, hplain.1]
      · next first more hcut =>
        rcases List.mem_cons.mp hpiece with rfl | hmem
        · have hfirst := ih hcs (hcut ▸ List.mem_cons_self ..)
          simp only [isPlain, List.all_cons, Bool.and_eq_true]
          exact ⟨hplain.1, hfirst⟩
        · exact ih hcs (hcut ▸ List.mem_cons_of_mem first hmem)

theorem wrap_isOk_of_isPlain {width : Nat} (hwidth : 2 ≤ width) {paragraph : List Char}
    (hplain : isPlain paragraph = true) : ∃ lines, wrap width paragraph = .ok lines := by
  refine (fill_isOk_iff []).mpr fun word hword => ?_
  have hpiece : word ∈ Text.pieces (· == ' ') paragraph := (List.mem_filter.mp hword).1
  obtain ⟨pieces, last, hok⟩ :=
    hyphenate_isOk_of_isPlain hwidth (isPlain_of_mem_pieces hplain hpiece)
  exact ⟨_, hok⟩

end Help
end SimControl
