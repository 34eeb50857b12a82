/-
Whether a paragraph can be wrapped.

A word that is wider than a line is broken after every `width - 1` bytes, and that may be inside a
character.  `Hyphenates` is the breaking of a word line by line.  By induction on it the breaking
fails just where one of the places is no boundary between characters (`Hyphenates.eq_error_iff`):
behind the first piece the places of the rest are those of the word (`breaksInside_append`).

The line that is being filled when a word comes does not matter.  A word which is joined to it goes
into one line, so it is not wide enough to be broken.

That wrapping ends is about the loop which fills the lines (`fillRound`).  A round of it takes a
line off the word that is being broken, or else takes the next word, and `ends_fillRound` follows it
to what the recursion `fill` answers.  `wrap_ends` puts the two together.
-/
import SimControl.Help.Wrap
import SimControl.Proofs.Loop

namespace SimControl
namespace Help

variable {width : Nat} {word : List Char}

/-! ## Cutting at a byte -/

/-- At `offset` bytes the text can be cut without cutting a character. -/
def IsBoundary (cs : List Char) (offset : Nat) : Prop :=
  ∃ before after, cs = before ++ after ∧ byteLength before = offset

theorem byteLength_eq_zero_iff {cs : List Char} : byteLength cs = 0 ↔ cs = [] := by
  have hle := length_le_byteLength cs
  rw [← List.length_eq_zero_iff]
  constructor
  · omega
  · intro h
    rw [List.eq_nil_of_length_eq_zero h]
    rfl

theorem splitBytes_eq_some_iff {n : Nat} {cs before after : List Char} :
    splitBytes n cs = some (before, after) ↔ cs = before ++ after ∧ byteLength before = n := by
  fun_induction splitBytes n cs generalizing before with
  | case1 cs =>
    rw [byteLength_eq_zero_iff]
    constructor
    · intro h
      obtain ⟨rfl, rfl⟩ := Prod.mk.inj (Option.some.inj h)
      exact ⟨rfl, rfl⟩
    · rintro ⟨rfl, rfl⟩
      rfl
  | case2 n =>
    refine iff_of_false (by simp) ?_
    rintro ⟨hnil, hlength⟩
    obtain ⟨rfl, -⟩ := List.append_eq_nil_iff.mp hnil.symm
    cases hlength
  | case3 n c cs hfits ih =>
    rw [Option.map_eq_some_iff]
    constructor
    · rintro ⟨⟨before', after'⟩, hcut, hpair⟩
      obtain ⟨rfl, rfl⟩ := Prod.mk.inj hpair
      obtain ⟨rfl, hlength⟩ := ih.mp hcut
      refine ⟨rfl, ?_⟩
      rw [byteLength]
      omega
    · rintro ⟨hsplit, hlength⟩
      cases before with
      | nil => cases hlength
      | cons c' before =>
        obtain ⟨rfl, htail⟩ := List.cons.inj hsplit
        rw [byteLength] at hlength
        exact ⟨(before, after), ih.mpr ⟨htail, by omega⟩, rfl⟩
  | case4 n c cs hwide =>
    refine iff_of_false (by simp) ?_
    rintro ⟨hsplit, hlength⟩
    cases before with
    | nil => cases hlength
    | cons c' before =>
      obtain ⟨rfl, -⟩ := List.cons.inj hsplit
      rw [byteLength] at hlength
      omega

theorem splitBytes_eq_none_iff {n : Nat} {cs : List Char} :
    splitBytes n cs = none ↔ ¬ IsBoundary cs n := by
  rw [Option.eq_none_iff_forall_ne_some]
  constructor
  · rintro h ⟨before, after, hcut⟩
    exact h (before, after) (splitBytes_eq_some_iff.mpr hcut)
  · rintro h ⟨before, after⟩ hcut
    exact h ⟨before, after, splitBytes_eq_some_iff.mp hcut⟩

/-- Behind a boundary the boundaries are those of the rest. -/
theorem isBoundary_append {before after : List Char} {n : Nat} :
    IsBoundary (before ++ after) (byteLength before + n) ↔ IsBoundary after n := by
  constructor
  · rintro ⟨left, right, hsplit, hlength⟩
    rcases List.append_eq_append_iff.mp hsplit with ⟨middle, rfl, rfl⟩ | ⟨middle, rfl, rfl⟩
    · rw [byteLength_append] at hlength
      exact ⟨middle, right, rfl, by omega⟩
    · rw [byteLength_append] at hlength
      exact ⟨[], after, rfl, by rw [byteLength]; omega⟩
  · rintro ⟨left, right, rfl, hlength⟩
    exact ⟨before ++ left, right, (List.append_assoc ..).symm, by rw [byteLength_append, hlength]⟩

/-! ## Breaking a word -/

/-- How a word is broken, one line after the other. -/
inductive Hyphenates (width : Nat) :
    List Char → Except WrapError (List (List Char) × List Char) → Prop where
  | fits {word : List Char} : byteLength word ≤ width → Hyphenates width word (.ok ([], word))
  | inside {word : List Char} : width < byteLength word → ¬ IsBoundary word (width - 1) →
      Hyphenates width word (.error .insideCharacter)
  | breaks {piece rest : List Char} {broken : Except WrapError (List (List Char) × List Char)} :
      byteLength piece + 1 = width → width < byteLength (piece ++ rest) →
      Hyphenates width rest broken →
      Hyphenates width (piece ++ rest)
        (broken.map fun (pieces, last) => ((piece ++ ['-']) :: pieces, last))

/-- Every line of a broken word takes a character away, if there is room for one. -/
theorem hyphenates_hyphenate (hwidth : 2 ≤ width) (word : List Char) :
    Hyphenates width word (hyphenate width word) := by
  fun_induction hyphenate width word with
  | case1 word hfits => exact .fits hfits
  | case2 word hwide hcut =>
    exact .inside (by omega) (splitBytes_eq_none_iff.mp hcut)
  | case3 word hwide piece rest hcut hshorter pieces last hbroken ih =>
    obtain ⟨rfl, hlength⟩ := splitBytes_eq_some_iff.mp hcut
    rw [hbroken] at ih
    exact .breaks (by omega) (by omega) ih
  | case4 word hwide piece rest hcut hshorter e hbroken ih =>
    obtain ⟨rfl, hlength⟩ := splitBytes_eq_some_iff.mp hcut
    rw [hbroken] at ih
    exact .breaks (by omega) (by omega) ih
  | case5 word hwide piece rest hcut hlong =>
    obtain ⟨rfl, hlength⟩ := splitBytes_eq_some_iff.mp hcut
    -- Only an empty piece leaves a rest as long as the word, and this one has a byte at least.
    have hnil : piece = [] := by
      rw [List.length_append] at hlong
      exact List.eq_nil_of_length_eq_zero (by omega)
    subst hnil
    rw [byteLength] at hlength
    omega

/-- A line would end inside a character of the word.  The lines end after equal numbers of bytes,
as long as more than one byte is left. -/
def BreaksInside (width : Nat) (word : List Char) : Prop :=
  ∃ k, 1 ≤ k ∧ k * (width - 1) + 1 < byteLength word ∧ ¬ IsBoundary word (k * (width - 1))

theorem breaksInside_append {piece rest : List Char} (hpiece : byteLength piece + 1 = width) :
    BreaksInside width (piece ++ rest) ↔ BreaksInside width rest := by
  have hstep (k : Nat) : (k + 1) * (width - 1) = byteLength piece + k * (width - 1) := by
    rw [Nat.succ_mul]
    omega
  constructor
  · rintro ⟨k, hk, hshort, hinside⟩
    obtain ⟨k, rfl⟩ : ∃ n, k = n + 1 := ⟨k - 1, by omega⟩
    rw [hstep, byteLength_append] at hshort
    rw [hstep, isBoundary_append] at hinside
    refine ⟨k, Nat.pos_of_ne_zero ?_, by omega, hinside⟩
    -- The end of the piece is a boundary, so the place lies behind it.
    rintro rfl
    rw [Nat.zero_mul] at hinside
    exact hinside ⟨[], rest, rfl, rfl⟩
  · rintro ⟨k, hk, hshort, hinside⟩
    refine ⟨k + 1, by omega, ?_, ?_⟩
    · rw [hstep, byteLength_append]
      omega
    · rwa [hstep, isBoundary_append]

/-- A word can be broken unless a line would end inside a character. -/
theorem Hyphenates.eq_error_iff (hwidth : 2 ≤ width)
    {broken : Except WrapError (List (List Char) × List Char)}
    (h : Hyphenates width word broken) :
    broken = .error .insideCharacter ↔ BreaksInside width word := by
  induction h with
  | fits hfits =>
    refine iff_of_false (by simp) ?_
    rintro ⟨k, hk, hshort, -⟩
    have hle : 1 * (width - 1) ≤ k * (width - 1) := Nat.mul_le_mul_right _ hk
    omega
  | inside hwide hinside =>
    refine iff_of_true rfl ⟨1, Nat.le_refl 1, ?_, ?_⟩
    · omega
    · rwa [Nat.one_mul]
  | @breaks piece rest broken hpiece hwide hrest ih =>
    rw [breaksInside_append hpiece, ← ih]
    cases broken <;> simp [Except.map]

theorem Hyphenates.isOk_or {broken : Except WrapError (List (List Char) × List Char)}
    (h : Hyphenates width word broken) :
    (∃ result, broken = .ok result) ∨ broken = .error .insideCharacter := by
  induction h with
  | fits hfits => exact .inl ⟨_, rfl⟩
  | inside hwide hinside => exact .inr rfl
  | breaks hpiece hwide hrest ih =>
    rcases ih with ⟨result, rfl⟩ | rfl
    · exact .inl ⟨_, rfl⟩
    · exact .inr rfl

/-- The pieces and the last of them make up the word.  Each piece fills a line with its hyphen. -/
theorem Hyphenates.exists_cuts {broken : Except WrapError (List (List Char) × List Char)}
    (h : Hyphenates width word broken) {pieces : List (List Char)} {last : List Char}
    (hbroken : broken = .ok (pieces, last)) :
    ∃ cuts : List (List Char), pieces = cuts.map (· ++ ['-']) ∧ word = cuts.flatten ++ last ∧
      (∀ cut ∈ cuts, byteLength cut + 1 = width) ∧ byteLength last ≤ width ∧
      (word ≠ [] → last ≠ []) := by
  induction h generalizing pieces with
  | @fits word hfits =>
    obtain ⟨rfl, rfl⟩ := Prod.mk.inj (Except.ok.inj hbroken)
    exact ⟨[], rfl, rfl, by simp, hfits, id⟩
  | inside hwide hinside => cases hbroken
  | @breaks piece rest broken hpiece hwide hrest ih =>
    cases broken with
    | error e => cases hbroken
    | ok result =>
      obtain ⟨rfl, rfl⟩ := Prod.mk.inj (Except.ok.inj hbroken)
      obtain ⟨cuts, hpieces, rfl, hcuts, hfits, hlast⟩ := ih rfl
      refine ⟨piece :: cuts, ?_, ?_, ?_, hfits, fun _ => hlast ?_⟩
      · rw [hpieces, List.map_cons]
      · rw [List.flatten_cons, List.append_assoc]
      · exact List.forall_mem_cons.mpr ⟨hpiece, hcuts⟩
      · -- More than the piece is left of the word, or it would not have been broken.
        intro hnil
        rw [hnil, List.append_nil] at hwide
        omega

/-! ## Filling lines in a loop -/

/-- What the loop holds between two rounds. -/
structure Filling where
  lines : List (List Char) := []
  /-- The line that is being filled. -/
  current : List Char := []
  /-- What is left of the word that is being broken. -/
  rest : Option (List Char) := none
  words : List (List Char)

/-- Take a line off the word that is being broken, or else go on to the next word. -/
def fillRound (width : Nat) : Filling → Round Filling (Except WrapError (List (List Char)))
  | ⟨lines, _, some rest, words⟩ =>
      if byteLength rest ≤ width then .again ⟨lines, rest, none, words⟩
      else
        match splitBytes (width - 1) rest with
        | none => .exit (.error .insideCharacter)
        | some (piece, rest) => .again ⟨lines ++ [piece ++ ['-']], [], some rest, words⟩
  | ⟨lines, current, none, []⟩ =>
      .exit (.ok (lines ++ if current = [] then [] else [current]))
  | ⟨lines, current, none, word :: words⟩ =>
      if current ≠ [] ∧ byteLength current + byteLength word + 1 ≤ width then
        .again ⟨lines, current ++ ' ' :: word, none, words⟩
      else
        .again ⟨lines ++ if current = [] then [] else [current], [], some word, words⟩

/-- The loop breaks a word as the recursion does, and goes on with the last piece of it. -/
theorem Hyphenates.ends {broken : Except WrapError (List (List Char) × List Char)}
    (h : Hyphenates width word broken) {lines words : List (List Char)}
    {result : Except WrapError (List (List Char))}
    (herror : ∀ e, broken = .error e → result = .error e)
    (hok : ∀ pieces last, broken = .ok (pieces, last) →
      Round.Ends (fillRound width) ⟨lines ++ pieces, last, none, words⟩ result) :
    Round.Ends (fillRound width) ⟨lines, [], some word, words⟩ result := by
  induction h generalizing lines with
  | @fits word hfits =>
    have hround : fillRound width ⟨lines, [], some word, words⟩ =
        .again ⟨lines, word, none, words⟩ := by
      rw [fillRound, if_pos hfits]
    have hlast := hok [] word rfl
    rw [List.append_nil] at hlast
    exact hlast.of_again hround
  | @inside word hwide hinside =>
    have hround : fillRound width ⟨lines, [], some word, words⟩ =
        .exit (.error .insideCharacter) := by
      rw [fillRound, if_neg (by omega), splitBytes_eq_none_iff.mpr hinside]
    rw [herror _ rfl]
    exact .of_exit hround
  | @breaks piece rest broken hpiece hwide hrest ih =>
    have hcut : splitBytes (width - 1) (piece ++ rest) = some (piece, rest) :=
      splitBytes_eq_some_iff.mpr ⟨rfl, by omega⟩
    have hround : fillRound width ⟨lines, [], some (piece ++ rest), words⟩ =
        .again ⟨lines ++ [piece ++ ['-']], [], some rest, words⟩ := by
      rw [fillRound, if_neg (by omega), hcut]
    refine (ih ?_ ?_).of_again hround
    · rintro e rfl
      exact herror e rfl
    · rintro pieces last rfl
      have hlast := hok _ last rfl
      rwa [List.append_cons] at hlast

theorem fill_cons_of_ok {current : List Char} {words pieces : List (List Char)} {last : List Char}
    (hfits : ¬ (current ≠ [] ∧ byteLength current + byteLength word + 1 ≤ width))
    (hbroken : hyphenate width word = .ok (pieces, last)) :
    fill width current (word :: words) = (fill width last words).map fun lines =>
      (if current = [] then [] else [current]) ++ pieces ++ lines := by
  rw [fill, if_neg hfits, hbroken]
  dsimp only
  cases fill width last words with
  | error e => rfl
  | ok lines => rfl

theorem fill_cons_of_error {current : List Char} {words : List (List Char)} {e : WrapError}
    (hfits : ¬ (current ≠ [] ∧ byteLength current + byteLength word + 1 ≤ width))
    (hbroken : hyphenate width word = .error e) :
    fill width current (word :: words) = .error e := by
  rw [fill, if_neg hfits, hbroken]

theorem ends_fillRound (hwidth : 2 ≤ width) (lines : List (List Char)) (current : List Char)
    (words : List (List Char)) :
    Round.Ends (fillRound width) ⟨lines, current, none, words⟩
      ((fill width current words).map (lines ++ ·)) := by
  induction words generalizing lines current with
  | nil => exact .of_exit rfl
  | cons word words ih =>
    by_cases hfits : current ≠ [] ∧ byteLength current + byteLength word + 1 ≤ width
    · have hround : fillRound width ⟨lines, current, none, word :: words⟩ =
          .again ⟨lines, current ++ ' ' :: word, none, words⟩ := by
        rw [fillRound, if_pos hfits]
      rw [fill, if_pos hfits]
      exact (ih lines _).of_again hround
    · have hround : fillRound width ⟨lines, current, none, word :: words⟩ =
          .again ⟨lines ++ if current = [] then [] else [current], [], some word, words⟩ := by
        rw [fillRound, if_neg hfits]
      refine ((hyphenates_hyphenate hwidth word).ends ?_ ?_).of_again hround
      · intro e hbroken
        rw [fill_cons_of_error hfits hbroken]
        rfl
      · intro pieces last hbroken
        have hrest := ih (lines ++ (if current = [] then [] else [current]) ++ pieces) last
        rw [fill_cons_of_ok hfits hbroken]
        cases hlines : fill width last words with
        | error e =>
          rw [hlines] at hrest
          exact hrest
        | ok rest =>
          rw [hlines] at hrest
          simpa only [Except.map, List.append_assoc] using hrest

/-! ## Wrapping -/

theorem words_eq_filter_splitOn (paragraph : List Char) :
    words paragraph = (paragraph.splitOn ' ').filter (· ≠ []) := by
  rw [words, Text.pieces_eq_splitOn]

theorem BreaksInside.lt (hwidth : 2 ≤ width) (h : BreaksInside width word) :
    width < byteLength word := by
  obtain ⟨k, hk, hshort, -⟩ := h
  have hle : 1 * (width - 1) ≤ k * (width - 1) := Nat.mul_le_mul_right _ hk
  omega

theorem exists_hyphenate_eq_ok_iff (hwidth : 2 ≤ width) :
    (∃ broken, hyphenate width word = .ok broken) ↔ ¬ BreaksInside width word := by
  have hbroken := hyphenates_hyphenate hwidth word
  rw [← hbroken.eq_error_iff hwidth]
  constructor
  · rintro ⟨broken, hok⟩ herror
    rw [hok] at herror
    cases herror
  · exact hbroken.isOk_or.resolve_right

theorem exists_fill_eq_ok_iff (hwidth : 2 ≤ width) (current : List Char)
    {words : List (List Char)} :
    (∃ lines, fill width current words = .ok lines) ↔
      ∀ word ∈ words, ¬ BreaksInside width word := by
  rw [fill_isOk_iff]
  exact forall₂_congr fun word _ => exists_hyphenate_eq_ok_iff hwidth

/-- The only failure that a round can come to is a break inside a character. -/
theorem exit_of_fillRound {s : Filling} {result : Except WrapError (List (List Char))}
    (h : fillRound width s = .exit result) :
    (∃ lines, result = .ok lines) ∨ result = .error .insideCharacter := by
  revert h
  fun_cases fillRound width s with
  | case2 => exact fun h => .inr (Round.exit.inj h).symm
  | case4 => exact fun h => .inl ⟨_, (Round.exit.inj h).symm⟩
  | case1 | case3 | case5 | case6 => exact fun h => by cases h

theorem wrap_isOk_or (hwidth : 2 ≤ width) (paragraph : List Char) :
    (∃ lines, wrap width paragraph = .ok lines) ∨
      wrap width paragraph = .error .insideCharacter := by
  have hends : Round.Ends (fillRound width) _ _ := ends_fillRound hwidth [] [] (words paragraph)
  obtain ⟨s, -, hexit⟩ := hends
  rw [show fill width [] (words paragraph) = wrap width paragraph from rfl] at hexit
  cases hwrap : wrap width paragraph with
  | ok lines => exact .inl ⟨lines, rfl⟩
  | error e =>
    rw [hwrap] at hexit
    rcases exit_of_fillRound hexit with ⟨lines, hlines⟩ | herror
    · cases hlines
    · exact .inr herror

theorem wrap_eq_error_iff (hwidth : 2 ≤ width) (paragraph : List Char) :
    wrap width paragraph = .error .insideCharacter ↔
      ∃ word ∈ words paragraph, BreaksInside width word := by
  have hok : (∃ lines, wrap width paragraph = .ok lines) ↔
      ∀ word ∈ words paragraph, ¬ BreaksInside width word := exists_fill_eq_ok_iff hwidth []
  constructor
  · intro herror
    refine Classical.byContradiction fun hnone => ?_
    obtain ⟨lines, hlines⟩ := hok.mpr fun word hword hbreaks => hnone ⟨word, hword, hbreaks⟩
    rw [herror] at hlines
    cases hlines
  · rintro ⟨word, hword, hbreaks⟩
    exact (wrap_isOk_or hwidth paragraph).resolve_left fun h => hok.mp h word hword hbreaks

/-- Wrapping comes to an end.  It fails exactly if some word is wider than a line and a line would
end inside a character of it, and never where every character takes one byte. -/
theorem wrap_ends (hwidth : 2 ≤ width) (paragraph : List Char) :
    Round.Ends (fillRound width) { words := (paragraph.splitOn ' ').filter (· ≠ []) }
        (wrap width paragraph) ∧
      ((∃ lines, wrap width paragraph = .ok lines) ∨
        wrap width paragraph = .error .insideCharacter) ∧
      (wrap width paragraph = .error .insideCharacter ↔
        ∃ word ∈ (paragraph.splitOn ' ').filter (· ≠ []), width < byteLength word ∧
          ∃ k, 1 ≤ k ∧ k * (width - 1) + 1 < byteLength word ∧
            ¬ IsBoundary word (k * (width - 1))) ∧
      (isPlain paragraph = true → ∃ lines, wrap width paragraph = .ok lines) := by
  rw [← words_eq_filter_splitOn]
  refine ⟨?_, wrap_isOk_or hwidth paragraph, ?_, wrap_isOk_of_isPlain hwidth⟩
  · have hends := ends_fillRound hwidth [] [] (words paragraph)
    have hresult : (fill width [] (words paragraph)).map ([] ++ ·) = wrap width paragraph := by
      rw [wrap]
      cases fill width [] (words paragraph) <;> rfl
    rwa [hresult] at hends
  · rw [wrap_eq_error_iff hwidth]
    refine exists_congr fun word => and_congr_right fun _ => ?_
    exact ⟨fun h => ⟨h.lt hwidth, h⟩, fun h => h.2⟩

/-- The first line of the second word is `ab-`, and the second would end inside its accent. -/
theorem wrap_ends_inside :
    2 ≤ 3 ∧ ("é abcéx".toList.splitOn ' ').filter (· ≠ []) = ["é".toList, "abcéx".toList] ∧
      wrap 3 "é abcéx".toList = .error .insideCharacter ∧
      Round.Ends (fillRound 3) { words := ["é".toList, "abcéx".toList] }
        (.error .insideCharacter) := by
  have hwords : ("é abcéx".toList.splitOn ' ').filter (· ≠ []) =
      ["é".toList, "abcéx".toList] := by
    decide +kernel
  have hinside : ¬ IsBoundary "abcéx".toList (2 * (3 - 1)) :=
    splitBytes_eq_none_iff.mp (by decide +kernel)
  obtain ⟨hends, -, herror, -⟩ := @wrap_ends 3 (by decide) "é abcéx".toList
  rw [hwords] at hends herror
  have hwrap := herror.mpr ⟨"abcéx".toList, by simp, by decide +kernel, 2, by decide,
    by decide +kernel, hinside⟩
  rw [hwrap] at hends
  exact ⟨by decide, hwords, hwrap, hends⟩

end Help
end SimControl
