/-
What the lines of a wrapped paragraph say.

A line that ends in a word which goes on in the next line is marked as broken, every other line as
whole.  With these marks the lines can be put together again (`rejoin`): a broken line goes on
without its hyphen, and behind a whole line there is a space.  The lines of a paragraph can be
marked so that they give its words, one space between two of them.

Lines are put in front of lines that are marked already: a filled line (`Wraps.whole`), or the
pieces of a broken word (`Wraps.cuts`).  The recursion that fills the lines therefore begins with a
line that holds text (`exists_wraps_fill`).  `wrap_lossless` is the whole of it, with the bound on
the lines and on the rows of the help page.
-/
import SimControl.Help.Row
import SimControl.Proofs.Hyphenated

namespace SimControl
namespace Help

/-! ## Marked lines -/

/-- A line and how it ends. -/
inductive MarkedLine where
  | whole (line : List Char)
  /-- The line ends inside a word, with a hyphen behind the piece of it. -/
  | broken (piece : List Char)

namespace MarkedLine

def text : MarkedLine → List Char
  | whole line => line
  | broken piece => piece ++ ['-']

end MarkedLine

/-- The text from which the lines were made. -/
def rejoin : List MarkedLine → List Char
  | [] => []
  | [.whole line] => line
  | .whole line :: next :: lines => line ++ ' ' :: rejoin (next :: lines)
  | .broken piece :: lines => piece ++ rejoin lines

/-- The marked lines make up the text, in lines of at most `width` bytes. -/
structure Wraps (width : Nat) (text : List Char) (marked : List MarkedLine) : Prop where
  fits : ∀ line ∈ marked, 1 ≤ byteLength line.text ∧ byteLength line.text ≤ width
  full : ∀ piece, .broken piece ∈ marked → byteLength (piece ++ ['-']) = width
  last : ∀ piece, marked.getLast? ≠ some (.broken piece)
  rejoins : rejoin marked = text

variable {width : Nat} {text word : List Char} {marked : List MarkedLine}

theorem wraps_nil (width : Nat) : Wraps width [] [] where
  fits _ hline := (List.not_mem_nil hline).elim
  full _ hpiece := (List.not_mem_nil hpiece).elim
  last _ := by simp
  rejoins := rfl

theorem byteLength_pos (h : text ≠ []) : 1 ≤ byteLength text :=
  Nat.pos_of_ne_zero fun hzero => h (byteLength_eq_zero_iff.mp hzero)

theorem wraps_singleton {line : List Char} (hline : line ≠ []) (hfits : byteLength line ≤ width) :
    Wraps width line [.whole line] where
  fits l hl := by
    obtain rfl := List.mem_singleton.mp hl
    exact ⟨byteLength_pos hline, hfits⟩
  full piece hpiece := by cases List.mem_singleton.mp hpiece
  last piece hlast := by cases hlast
  rejoins := rfl

theorem Wraps.exists_cons (h : Wraps width text marked) (htext : text ≠ []) :
    ∃ first more, marked = first :: more := by
  refine List.exists_cons_of_ne_nil ?_
  rintro rfl
  exact htext h.rejoins.symm

/-- A line in front of others is followed by a space. -/
theorem Wraps.whole (h : Wraps width text marked) (htext : text ≠ []) {line : List Char}
    (hline : line ≠ []) (hfits : byteLength line ≤ width) :
    Wraps width (line ++ ' ' :: text) (.whole line :: marked) := by
  obtain ⟨first, more, rfl⟩ := h.exists_cons htext
  constructor
  · rw [List.forall_mem_cons]
    exact ⟨⟨byteLength_pos hline, hfits⟩, h.fits⟩
  · intro piece hpiece
    rcases List.mem_cons.mp hpiece with heq | hmem
    · cases heq
    · exact h.full piece hmem
  · intro piece
    rw [List.getLast?_cons_cons]
    exact h.last piece
  · rw [rejoin, h.rejoins]

/-- A piece of a word goes on in the next line. -/
theorem Wraps.broken (h : Wraps width text marked) (htext : text ≠ []) {piece : List Char}
    (hpiece : byteLength piece + 1 = width) :
    Wraps width (piece ++ text) (.broken piece :: marked) := by
  have hlength : byteLength (piece ++ ['-']) = width := by
    rw [byteLength_append]
    exact hpiece
  obtain ⟨first, more, rfl⟩ := h.exists_cons htext
  constructor
  · rw [List.forall_mem_cons]
    refine ⟨?_, h.fits⟩
    rw [MarkedLine.text, hlength]
    omega
  · intro piece' hpiece'
    rcases List.mem_cons.mp hpiece' with heq | hmem
    · cases heq
      exact hlength
    · exact h.full piece' hmem
  · intro piece'
    rw [List.getLast?_cons_cons]
    exact h.last piece'
  · rw [rejoin, h.rejoins]

/-! ## Lines from words -/

/-- The joined text begins with the beginning of its first word. -/
theorem intercalate_append_cons (separator before after : List Char) (words : List (List Char)) :
    separator.intercalate ((before ++ after) :: words) =
      before ++ separator.intercalate (after :: words) := by
  cases words with
  | nil => simp
  | cons word words => simp [List.intercalate_cons_cons]

theorem intercalate_joined (separator before after : List Char) (words : List (List Char)) :
    separator.intercalate ((before ++ separator ++ after) :: words) =
      separator.intercalate (before :: after :: words) := by
  rw [intercalate_append_cons, List.intercalate_cons_cons]

theorem intercalate_ne_nil {separator : List Char} (hword : word ≠ []) (words : List (List Char)) :
    separator.intercalate (word :: words) ≠ [] := by
  cases words with
  | nil => simpa using hword
  | cons next words => simp [List.intercalate_cons_cons, hword]

/-- The pieces of a word that fill lines of their own stand in front of the line that begins with
the last piece. -/
theorem Wraps.cuts (h : Wraps width text marked) (htext : text ≠ []) {cuts : List (List Char)}
    (hcuts : ∀ cut ∈ cuts, byteLength cut + 1 = width) :
    Wraps width (cuts.flatten ++ text) (cuts.map .broken ++ marked) := by
  induction cuts with
  | nil => exact h
  | cons cut cuts ih =>
    obtain ⟨hcut, hcuts⟩ := List.forall_mem_cons.mp hcuts
    rw [List.flatten_cons, List.append_assoc]
    exact (ih hcuts).broken (by simp [htext]) hcut

/-- A word that does not go into the line is broken, and its last piece begins the next line. -/
theorem exists_of_fill_cons {current : List Char} {words lines : List (List Char)}
    (hfits : ¬ (current ≠ [] ∧ byteLength current + byteLength word + 1 ≤ width))
    (h : fill width current (word :: words) = .ok lines) :
    ∃ pieces last rest, hyphenate width word = .ok (pieces, last) ∧
      fill width last words = .ok rest ∧
      lines = (if current = [] then [] else [current]) ++ pieces ++ rest := by
  cases hbroken : hyphenate width word with
  | error e =>
    rw [fill_cons_of_error hfits hbroken] at h
    cases h
  | ok broken =>
    obtain ⟨pieces, last⟩ := broken
    rw [fill_cons_of_ok hfits hbroken] at h
    cases hrest : fill width last words with
    | error e =>
      rw [hrest] at h
      cases h
    | ok rest =>
      rw [hrest] at h
      exact ⟨pieces, last, rest, rfl, hrest, (Except.ok.inj h).symm⟩

theorem exists_wraps_hyphenate (hwidth : 2 ≤ width) (hword : word ≠ []) {last : List Char}
    {words pieces rest : List (List Char)} (hbroken : hyphenate width word = .ok (pieces, last))
    (hrest : byteLength last ≤ width → last ≠ [] → ∃ marked : List MarkedLine,
      marked.map MarkedLine.text = rest ∧ Wraps width ([' '].intercalate (last :: words)) marked) :
    ∃ marked : List MarkedLine, marked.map MarkedLine.text = pieces ++ rest ∧
      Wraps width ([' '].intercalate (word :: words)) marked := by
  obtain ⟨cuts, rfl, rfl, hcuts, hlength, hlast⟩ :=
    (hyphenates_hyphenate hwidth word).exists_cuts hbroken
  obtain ⟨marked, rfl, hwraps⟩ := hrest hlength (hlast hword)
  refine ⟨cuts.map .broken ++ marked, ?_, ?_⟩
  · rw [List.map_append, List.map_map]
    rfl
  · rw [intercalate_append_cons]
    exact hwraps.cuts (intercalate_ne_nil (hlast hword) words) hcuts

/-- The lines that are filled from a line which has been begun. -/
theorem exists_wraps_fill (hwidth : 2 ≤ width) {current : List Char}
    {words lines : List (List Char)} (h : fill width current words = .ok lines)
    (hcurrent : current ≠ []) (hlength : byteLength current ≤ width)
    (hwords : ∀ word ∈ words, word ≠ []) :
    ∃ marked : List MarkedLine, marked.map MarkedLine.text = lines ∧
      Wraps width ([' '].intercalate (current :: words)) marked := by
  induction words generalizing current lines with
  | nil =>
    obtain rfl := Except.ok.inj h
    rw [if_neg hcurrent]
    exact ⟨[.whole current], rfl, by simpa using wraps_singleton hcurrent hlength⟩
  | cons word words ih =>
    obtain ⟨hword, hwords⟩ := List.forall_mem_cons.mp hwords
    by_cases hfits : current ≠ [] ∧ byteLength current + byteLength word + 1 ≤ width
    · have hjoined : byteLength (current ++ ' ' :: word) ≤ width := by
        have hspace : ' '.utf8Size = 1 := rfl
        rw [byteLength_append, byteLength]
        omega
      rw [fill, if_pos hfits] at h
      obtain ⟨marked, hlines, hwraps⟩ := ih h (by simp) hjoined hwords
      rw [List.append_cons, intercalate_joined] at hwraps
      exact ⟨marked, hlines, hwraps⟩
    · -- The line is full, and the last piece of the word begins the line that the rest goes into.
      obtain ⟨pieces, last, rest, hbroken, hrest, rfl⟩ := exists_of_fill_cons hfits h
      obtain ⟨marked, hlines, hwraps⟩ := exists_wraps_hyphenate hwidth hword hbroken
        fun hlength hlast => ih hrest hlast hlength hwords
      refine ⟨.whole current :: marked, ?_, ?_⟩
      · rw [List.map_cons, hlines, if_neg hcurrent]
        simp [MarkedLine.text]
      · rw [List.intercalate_cons_cons, List.append_assoc]
        exact hwraps.whole (intercalate_ne_nil hword words) hcurrent hlength

theorem exists_wraps_wrap (hwidth : 2 ≤ width) {paragraph : List Char} {lines : List (List Char)}
    (h : wrap width paragraph = .ok lines) :
    ∃ marked : List MarkedLine, marked.map MarkedLine.text = lines ∧
      Wraps width ([' '].intercalate (words paragraph)) marked := by
  have hsome : ∀ word ∈ words paragraph, word ≠ [] := by
    intro word hword
    simpa using (List.mem_filter.mp hword).2
  rw [wrap] at h
  cases hwords : words paragraph with
  | nil =>
    rw [hwords] at h
    obtain rfl := Except.ok.inj h
    exact ⟨[], rfl, wraps_nil width⟩
  | cons word words =>
    rw [hwords] at h hsome
    obtain ⟨hword, hrest⟩ := List.forall_mem_cons.mp hsome
    obtain ⟨pieces, last, rest, hbroken, hfill, rfl⟩ := exists_of_fill_cons (by simp) h
    exact exists_wraps_hyphenate hwidth hword hbroken
      fun hlength hlast => exists_wraps_fill hwidth hfill hlast hlength hrest

/-! ## Rows -/

theorem utf8ByteSize_spaces (n : Nat) : (spaces n).utf8ByteSize = n := by
  have hplain : isPlain (List.replicate n ' ') = true := by
    rw [isPlain, List.all_eq_true]
    intro c hc
    rw [List.eq_of_mem_replicate hc]
    rfl
  rw [spaces, utf8ByteSize_of_isPlain hplain, List.length_replicate]

/-- A text that is narrow enough is padded to just the width of its column. -/
theorem utf8ByteSize_padRight {leftWidth : Nat} {left : String}
    (hplain : isPlain left.toList = true) (hleft : left.utf8ByteSize ≤ leftWidth) :
    (padRight leftWidth left).utf8ByteSize = leftWidth := by
  have hlength : left.utf8ByteSize = left.length := by
    rw [← byteLength_toList, byteLength_eq_length_iff.mpr hplain, String.length_toList]
  rw [padRight, String.utf8ByteSize_append, utf8ByteSize_spaces]
  omega

theorem layOut_ne_nil (leftWidth : Nat) (left : String) (lines : List (List Char)) :
    layOut leftWidth left lines ≠ [] := by
  cases lines with
  | nil => exact List.cons_ne_nil _ _
  | cons line lines => exact List.cons_ne_nil _ _

theorem utf8ByteSize_of_mem_layOut {leftWidth : Nat} {left : String} {lines : List (List Char)}
    (hplain : isPlain left.toList = true) (hleft : left.utf8ByteSize ≤ leftWidth)
    (hlines : ∀ line ∈ lines, byteLength line ≤ width) {row : String}
    (hrow : row ∈ layOut leftWidth left lines) :
    row.utf8ByteSize ≤ indent + leftWidth + gap + width := by
  have hcolumns {text : String} {line : List Char} (htext : isPlain text.toList = true)
      (hnarrow : text.utf8ByteSize ≤ leftWidth) (hline : line ∈ lines) :
      (spaces indent ++ padRight leftWidth text ++ spaces gap ++
        String.ofList line).utf8ByteSize ≤ indent + leftWidth + gap + width := by
    rw [String.utf8ByteSize_append, String.utf8ByteSize_append, String.utf8ByteSize_append,
      utf8ByteSize_spaces, utf8ByteSize_spaces, utf8ByteSize_padRight htext hnarrow,
      utf8ByteSize_ofList]
    exact Nat.add_le_add_left (hlines line hline) _
  cases lines with
  | nil =>
    obtain rfl := List.mem_singleton.mp hrow
    rw [String.utf8ByteSize_append, utf8ByteSize_spaces]
    omega
  | cons line lines =>
    rcases List.mem_cons.mp hrow with rfl | hmem
    · exact hcolumns hplain hleft (List.mem_cons_self ..)
    · obtain ⟨next, hnext, rfl⟩ := List.mem_map.mp hmem
      exact hcolumns rfl (Nat.zero_le _) (List.mem_cons_of_mem line hnext)

theorem render_of_wrap {leftWidth : Nat} {left paragraph : String} {lines : List (List Char)}
    (h : wrap width paragraph.toList = .ok lines) :
    render leftWidth width left paragraph = .ok (layOut leftWidth left lines) := by
  rw [render, h]
  rfl

/-- The lines of a wrapped paragraph are neither empty nor too wide, and make up its words again.
There is a row of the page for each of them, or else one for the left text alone, and no row of
text with one byte per character is wider than its columns. -/
theorem wrap_lossless (hwidth : 2 ≤ width) (paragraph : String) :
    (∀ lines, wrap width paragraph.toList = .ok lines →
      (∀ line ∈ lines, 1 ≤ byteLength line ∧ byteLength line ≤ width) ∧
      (∃ marked : List MarkedLine, marked.map MarkedLine.text = lines ∧
        (∀ piece, .broken piece ∈ marked → byteLength (piece ++ ['-']) = width) ∧
        (∀ piece, marked.getLast? ≠ some (.broken piece)) ∧
        rejoin marked = [' '].intercalate ((paragraph.toList.splitOn ' ').filter (· ≠ []))) ∧
      ∀ leftWidth left, ∃ rows, render leftWidth width left paragraph = .ok rows ∧ rows ≠ []) ∧
    ∀ leftWidth left, isPlain left.toList = true → isPlain paragraph.toList = true →
      left.utf8ByteSize ≤ leftWidth →
      ∃ rows, render leftWidth width left paragraph = .ok rows ∧ rows ≠ [] ∧
        ∀ row ∈ rows, row.utf8ByteSize ≤ 1 + leftWidth + 3 + width := by
  have hlines {lines : List (List Char)} (h : wrap width paragraph.toList = .ok lines) :
      ∀ line ∈ lines, 1 ≤ byteLength line ∧ byteLength line ≤ width := by
    obtain ⟨marked, rfl, hwraps⟩ := exists_wraps_wrap hwidth h
    exact List.forall_mem_map.mpr hwraps.fits
  constructor
  · intro lines h
    refine ⟨hlines h, ?_, fun leftWidth left => ⟨_, render_of_wrap h, layOut_ne_nil _ _ _⟩⟩
    obtain ⟨marked, hmarked, hwraps⟩ := exists_wraps_wrap hwidth h
    rw [← words_eq_filter_splitOn]
    exact ⟨marked, hmarked, hwraps.full, hwraps.last, hwraps.rejoins⟩
  · intro leftWidth left hleft hplain hnarrow
    obtain ⟨lines, h⟩ := wrap_isOk_of_isPlain hwidth hplain
    refine ⟨_, render_of_wrap h, layOut_ne_nil _ _ _, fun row hrow => ?_⟩
    exact utf8ByteSize_of_mem_layOut hleft hnarrow (fun line hline => (hlines h line hline).2) hrow

/-- The second word is broken twice, and the third goes into the line with its last piece. -/
theorem wrap_lossless_broken :
    2 ≤ 4 ∧ wrap 4 "ab  abcdefgh z".toList =
        .ok ["ab".toList, "abc-".toList, "def-".toList, "gh z".toList] ∧
      (∃ marked : List MarkedLine, marked.map MarkedLine.text =
          ["ab".toList, "abc-".toList, "def-".toList, "gh z".toList] ∧
        rejoin marked = "ab abcdefgh z".toList) ∧
      isPlain "tap".toList = true ∧ isPlain "ab  abcdefgh z".toList = true ∧
      "tap".utf8ByteSize ≤ 3 ∧
      ∃ rows, render 3 4 "tap" "ab  abcdefgh z" = .ok rows ∧ rows ≠ [] ∧
        ∀ row ∈ rows, row.utf8ByteSize ≤ 1 + 3 + 3 + 4 := by
  have hwrap : wrap 4 "ab  abcdefgh z".toList =
      .ok ["ab".toList, "abc-".toList, "def-".toList, "gh z".toList] := by
    have hwords : words "ab  abcdefgh z".toList =
        ["ab".toList, "abcdefgh".toList, "z".toList] := by
      decide +kernel
    rw [wrap, hwords]
    simp [fill, hyphenate, splitBytes, byteLength, Char.utf8Size]
  have hwords : [' '].intercalate (("ab  abcdefgh z".toList.splitOn ' ').filter (· ≠ [])) =
      "ab abcdefgh z".toList := by
    decide +kernel
  have hleft : isPlain "tap".toList = true := by decide +kernel
  have hplain : isPlain "ab  abcdefgh z".toList = true := by decide +kernel
  obtain ⟨hlines, hrows⟩ := @wrap_lossless 4 (by decide) "ab  abcdefgh z"
  obtain ⟨-, ⟨marked, hmarked, -, -, hrejoin⟩, -⟩ := hlines _ hwrap
  rw [hwords] at hrejoin
  exact ⟨by decide, hwrap, ⟨marked, hmarked, hrejoin⟩, hleft, hplain, by decide,
    hrows 3 "tap" hleft hplain (by decide)⟩

end Help
end SimControl
