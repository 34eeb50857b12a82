/-
What locators and locales look like.

Both are checked by taking a text apart, a locator at its first colon and a locale at all its
hyphens and underscores, and by looking at the parts.  `Text.pieces_eq_iff` says how the parts make
up the text, so that the checks come to descriptions of the text from left to right,
`Url.parse_iff_scheme` and `Locale.parse_iff_extensions`.
-/
import SimControl.Help.Wrap
import SimControl.Operand.Locale
import SimControl.Operand.Url

namespace SimControl

open SimControl.Parser

/-! ## Texts in pieces -/

namespace Text

variable {isSeparator : Char → Bool} {piece text : List Char}

/-- A text is made up of pieces that hold no separators, with one separator between two pieces. -/
inductive InPieces (isSeparator : Char → Bool) : List Char → List (List Char) → Prop
  | last {piece : List Char} (h : ∀ c ∈ piece, isSeparator c = false) :
      InPieces isSeparator piece [piece]
  | cons {piece rest : List Char} {mark : Char} {more : List (List Char)}
      (h : ∀ c ∈ piece, isSeparator c = false) (hmark : isSeparator mark = true)
      (hrest : InPieces isSeparator rest more) :
      InPieces isSeparator (piece ++ mark :: rest) (piece :: more)

/-- A character in front of a text is part of its first piece. -/
theorem InPieces.char {c : Char} {more : List (List Char)} (hc : isSeparator c = false)
    (h : InPieces isSeparator text (piece :: more)) :
    InPieces isSeparator (c :: text) ((c :: piece) :: more) := by
  cases h with
  | last hpiece => exact .last (List.forall_mem_cons.mpr ⟨hc, hpiece⟩)
  | cons hpiece hmark hrest => exact .cons (List.forall_mem_cons.mpr ⟨hc, hpiece⟩) hmark hrest

theorem inPieces_pieces (isSeparator : Char → Bool) (text : List Char) :
    InPieces isSeparator text (pieces isSeparator text) := by
  induction text with
  | nil => exact .last (List.forall_mem_nil _)
  | cons c text ih =>
    rw [pieces]
    by_cases hc : isSeparator c = true
    · rw [if_pos hc]
      exact .cons (List.forall_mem_nil _) hc ih
    · rw [if_neg hc]
      cases hpieces : pieces isSeparator text with
      | nil => exact absurd hpieces (pieces_ne_nil isSeparator text)
      | cons piece more =>
        rw [hpieces] at ih
        exact ih.char (Bool.eq_false_iff.mpr hc)

/-- There is only one way to take a text apart. -/
theorem pieces_eq_iff {parts : List (List Char)} :
    pieces isSeparator text = parts ↔ InPieces isSeparator text parts := by
  constructor
  · rintro rfl
    exact inPieces_pieces isSeparator text
  · intro h
    rw [pieces_eq_splitOnP]
    induction h with
    | last hpiece => exact List.splitOnP_eq_singleton hpiece
    | @cons piece rest mark more hpiece hmark _ ih =>
      rw [List.splitOnP_append_cons_of_forall_mem hpiece mark hmark, ih]

end Text

/-! ## Locators -/

namespace Url

variable {scheme rest : List Char} {token : Token} {url : Url}

theorem isSchemeChar_iff {c : Char} :
    isSchemeChar c = true ↔ c.isAlphanum = true ∨ c ∈ ['+', '-', '.'] := by
  simp [isSchemeChar, or_assoc]

theorem not_colon {c : Char} (h : isSchemeChar c = true) : c ≠ ':' := by
  rintro rfl
  cases h

theorem isScheme_iff {cs : List Char} :
    isScheme cs = true ↔ ∃ first more, cs = first :: more ∧ first.isAlpha = true ∧
      ∀ c ∈ more, isSchemeChar c = true := by
  cases cs with
  | nil => simp [isScheme]
  | cons first more =>
    rw [isScheme, Bool.and_eq_true, List.all_eq_true]
    constructor
    · rintro ⟨hfirst, hmore⟩
      exact ⟨first, more, rfl, hfirst, hmore⟩
    · rintro ⟨_, _, heq, hfirst, hmore⟩
      obtain ⟨rfl, rfl⟩ := List.cons.inj heq
      exact ⟨hfirst, hmore⟩

theorem isSchemeChar_of_mem (h : isScheme scheme = true) {c : Char} (hc : c ∈ scheme) :
    isSchemeChar c = true := by
  obtain ⟨first, more, rfl, hfirst, hmore⟩ := isScheme_iff.mp h
  rcases List.mem_cons.mp hc with rfl | hc
  · simp [isSchemeChar, Char.isAlphanum, hfirst]
  · exact hmore c hc

/-- The first colon is the one behind the scheme. -/
theorem span_scheme (h : isScheme scheme = true) (rest : List Char) :
    (scheme ++ ':' :: rest).takeWhile (· ≠ ':') = scheme ∧
      (scheme ++ ':' :: rest).dropWhile (· ≠ ':') = ':' :: rest := by
  have hscheme : ∀ c ∈ scheme, decide (c ≠ ':') = true :=
    fun c hc => decide_eq_true (not_colon (isSchemeChar_of_mem h hc))
  constructor
  · rw [List.takeWhile_append_of_pos hscheme, List.takeWhile_cons_of_neg (by simp),
      List.append_nil]
  · rw [List.dropWhile_append_of_pos hscheme, List.dropWhile_cons_of_neg (by simp)]

theorem isWellFormed_iff {cs : List Char} :
    isWellFormed cs = true ↔
      ∃ scheme rest, cs = scheme ++ ':' :: rest ∧ isScheme scheme = true ∧ rest ≠ [] := by
  constructor
  · intro h
    unfold isWellFormed at h
    have hcs : cs.takeWhile (· ≠ ':') ++ cs.dropWhile (· ≠ ':') = cs :=
      List.takeWhile_append_dropWhile
    split at h
    · next mark first more hdrop =>
      have hmark : mark = ':' := by
        have hhead := List.head?_dropWhile_not (· ≠ ':') cs
        rw [hdrop] at hhead
        simpa using hhead
      rw [hdrop, hmark] at hcs
      exact ⟨_, _, hcs.symm, h, List.cons_ne_nil first more⟩
    · cases h
  · rintro ⟨scheme, rest, rfl, hscheme, hrest⟩
    obtain ⟨htake, hdrop⟩ := span_scheme hscheme rest
    obtain ⟨first, more, rfl⟩ := List.exists_cons_of_ne_nil hrest
    unfold isWellFormed
    rw [htake, hdrop]
    exact hscheme

theorem parse_singleton_iff :
    parser.parse [token] = .done url ↔ url.text = token ∧ isWellFormed token.toList = true := by
  have hread : parser.parse [token] = .done url ↔
      isWellFormed token.toList = true ∧ (⟨token⟩ : Url) = url :=
    reading_ite_parse_singleton_iff (fun t => isWellFormed t.toList) Url.mk
  obtain ⟨text⟩ := url
  rw [hread, and_comm, mk.injEq, eq_comm]

/-- A token is a locator exactly if it is a letter, letters, digits, plus signs, hyphens and dots
after it, a colon, and at least one more character.  The locator is the token as it stands, and its
scheme is what stands before the first colon. -/
theorem parse_iff_scheme (token : Token) (url : Url) :
    (parser.parse [token] = .done url ↔ url.text = token ∧
      ∃ first more rest, token.toList = first :: more ++ ':' :: rest ∧ first.isAlpha = true ∧
        (∀ c ∈ more, c.isAlphanum = true ∨ c ∈ ['+', '-', '.']) ∧ rest ≠ []) ∧
    (parser.parse [token] = .done url → url.scheme ≠ "" ∧
      (∀ c ∈ url.scheme.toList, c ≠ ':' ∧ (c.isAlphanum = true ∨ c ∈ ['+', '-', '.'])) ∧
        ∃ rest, token = url.scheme ++ ":" ++ rest) := by
  refine ⟨?_, fun h => ?_⟩
  · rw [parse_singleton_iff, isWellFormed_iff]
    refine and_congr_right fun _ => ?_
    constructor
    · rintro ⟨scheme, rest, htoken, hscheme, hrest⟩
      obtain ⟨first, more, rfl, hfirst, hmore⟩ := isScheme_iff.mp hscheme
      exact ⟨first, more, rest, htoken, hfirst, fun c hc => isSchemeChar_iff.mp (hmore c hc), hrest⟩
    · rintro ⟨first, more, rest, htoken, hfirst, hmore, hrest⟩
      refine ⟨first :: more, rest, htoken, isScheme_iff.mpr ?_, hrest⟩
      exact ⟨first, more, rfl, hfirst, fun c hc => isSchemeChar_iff.mpr (hmore c hc)⟩
  · obtain ⟨htext, hwell⟩ := parse_singleton_iff.mp h
    obtain ⟨scheme, rest, htoken, hscheme, -⟩ := isWellFormed_iff.mp hwell
    have hvalue : url.scheme.toList = scheme := by
      rw [Url.scheme, htext, htoken, (span_scheme hscheme rest).1, String.toList_ofList]
    refine ⟨?_, fun c hc => ?_, String.ofList rest, ?_⟩
    · intro hempty
      rw [hempty] at hvalue
      obtain ⟨first, more, hcons, -⟩ := isScheme_iff.mp hscheme
      rw [hcons] at hvalue
      cases hvalue
    · rw [hvalue] at hc
      have hchar := isSchemeChar_of_mem hscheme hc
      exact ⟨not_colon hchar, isSchemeChar_iff.mp hchar⟩
    · rw [← String.toList_inj, String.toList_append, String.toList_append, hvalue, htoken]
      simp

/-- The first of three colons ends the scheme. -/
theorem parse_iff_scheme_colons :
    parser.parse ["a+b.c:d:é:"] = .done ⟨"a+b.c:d:é:"⟩ ∧
      (⟨"a+b.c:d:é:"⟩ : Url).scheme = "a+b.c" ∧ (⟨"a+b.c:d:é:"⟩ : Url).scheme ≠ "" ∧
        ∃ rest, "a+b.c:d:é:" = (⟨"a+b.c:d:é:"⟩ : Url).scheme ++ ":" ++ rest := by
  obtain ⟨haccepted, hscheme⟩ := parse_iff_scheme "a+b.c:d:é:" ⟨"a+b.c:d:é:"⟩
  have hmore : "+b.c".toList.all isSchemeChar = true := by decide +kernel
  have h : parser.parse ["a+b.c:d:é:"] = .done ⟨"a+b.c:d:é:"⟩ :=
    haccepted.mpr ⟨rfl, 'a', "+b.c".toList, "d:é:".toList, by decide +kernel, rfl,
      fun c hc => isSchemeChar_iff.mp (List.all_eq_true.mp hmore c hc), List.cons_ne_nil _ _⟩
  obtain ⟨hsome, -, hrest⟩ := hscheme h
  exact ⟨h, by decide +kernel, hsome, hrest⟩

end Url

/-! ## Locales -/

namespace Locale

variable {language text : List Char} {token : Token} {locale : Locale}

def isMark (c : Char) : Bool := c == '_' || c == '-'

/-- A hyphen or an underscore, and one or more letters and digits. -/
def IsExtension (group : List Char) : Prop :=
  ∃ mark name, group = mark :: name ∧ (mark = '_' ∨ mark = '-') ∧ name ≠ [] ∧
    ∀ c ∈ name, c.isAlphanum = true

theorem isMark_iff {c : Char} : isMark c = true ↔ c = '_' ∨ c = '-' := by
  simp [isMark]

theorem isMark_of_isAlphanum {c : Char} (h : c.isAlphanum = true) : isMark c = false := by
  refine Bool.eq_false_iff.mpr fun hmark => ?_
  rcases isMark_iff.mp hmark with rfl | rfl <;> cases h

theorem isMark_of_isAlpha {c : Char} (h : c.isAlpha = true) : isMark c = false :=
  isMark_of_isAlphanum (by simp [Char.isAlphanum, h])

theorem isSubtag_iff {name : List Char} :
    isSubtag name = true ↔ name ≠ [] ∧ ∀ c ∈ name, c.isAlphanum = true := by
  simp [isSubtag]

theorem utf8Size_of_isAlpha {c : Char} (h : c.isAlpha = true) : c.utf8Size = 1 := by
  rw [Char.utf8Size_eq_one_iff]
  rcases Bool.or_eq_true_iff.mp h with hupper | hlower
  · exact UInt32.le_trans (of_decide_eq_true hupper).2 (by decide)
  · exact UInt32.le_trans (of_decide_eq_true (Bool.and_eq_true_iff.mp hlower).2) (by decide)

/-- Letters take one byte each. -/
theorem isLanguage_iff :
    isLanguage language = true ↔
      (language.length = 2 ∨ language.length = 3) ∧ ∀ c ∈ language, c.isAlpha = true := by
  have hlength : language.length = 2 ∨ language.length = 3 ↔
      2 ≤ language.length ∧ language.length ≤ 3 := by omega
  simp only [isLanguage, Bool.and_eq_true, decide_eq_true_eq, List.all_eq_true]
  refine and_congr_left fun hletters => ?_
  have hplain : Help.isPlain language = true :=
    List.all_eq_true.mpr fun c hc => beq_iff_eq.mpr (utf8Size_of_isAlpha (hletters c hc))
  rw [Help.utf8ByteSize_of_isPlain hplain, hlength]

/-- Behind the first piece, every mark begins a group. -/
theorem exists_groups {parts : List (List Char)} (h : Text.InPieces isMark text parts) :
    ∃ first more, parts = first :: more ∧ ((∀ name ∈ more, isSubtag name = true) →
      ∃ groups : List (List Char), text = first ++ groups.flatten ∧
        ∀ group ∈ groups, IsExtension group) := by
  induction h with
  | @last piece _ =>
    exact ⟨piece, [], rfl, fun _ => ⟨[], (List.append_nil piece).symm, List.forall_mem_nil _⟩⟩
  | @cons piece rest mark _ _ hmark _ ih =>
    obtain ⟨name, more, rfl, hgroups⟩ := ih
    refine ⟨piece, name :: more, rfl, fun hnames => ?_⟩
    obtain ⟨hname, hmore⟩ := List.forall_mem_cons.mp hnames
    obtain ⟨groups, rfl, hextensions⟩ := hgroups hmore
    refine ⟨(mark :: name) :: groups, rfl, List.forall_mem_cons.mpr ⟨?_, hextensions⟩⟩
    exact ⟨mark, name, rfl, isMark_iff.mp hmark, isSubtag_iff.mp hname⟩

/-- Groups behind a text without marks are pieces. -/
theorem exists_inPieces {groups : List (List Char)} (hgroups : ∀ group ∈ groups, IsExtension group)
    {first : List Char} (hfirst : ∀ c ∈ first, isMark c = false) :
    ∃ more, Text.InPieces isMark (first ++ groups.flatten) (first :: more) ∧
      ∀ name ∈ more, isSubtag name = true := by
  induction groups generalizing first with
  | nil =>
    refine ⟨[], ?_, List.forall_mem_nil _⟩
    rw [List.flatten_nil, List.append_nil]
    exact .last hfirst
  | cons group groups ih =>
    obtain ⟨hgroup, hmore⟩ := List.forall_mem_cons.mp hgroups
    obtain ⟨mark, name, rfl, hmark, hname⟩ := hgroup
    obtain ⟨more, hrest, hsubtags⟩ := ih hmore fun c hc => isMark_of_isAlphanum (hname.2 c hc)
    refine ⟨name :: more, .cons hfirst (isMark_iff.mpr hmark) hrest, ?_⟩
    exact List.forall_mem_cons.mpr ⟨isSubtag_iff.mpr hname, hsubtags⟩

theorem isWellFormed_iff_of_pieces {subtags : List (List Char)}
    (h : Text.pieces isMark text = language :: subtags) :
    isWellFormed text = true ↔
      isLanguage language = true ∧ ∀ name ∈ subtags, isSubtag name = true := by
  have hpieces : Text.pieces (fun c => c == '_' || c == '-') text = language :: subtags := h
  unfold isWellFormed
  rw [hpieces, Bool.and_eq_true, List.all_eq_true]

theorem isWellFormed_iff :
    isWellFormed text = true ↔ ∃ language groups, text = language ++ List.flatten groups ∧
      isLanguage language = true ∧ ∀ group ∈ groups, IsExtension group := by
  constructor
  · intro h
    obtain ⟨language, subtags, hparts, hgroups⟩ := exists_groups (Text.inPieces_pieces isMark text)
    obtain ⟨hlanguage, hsubtags⟩ := (isWellFormed_iff_of_pieces hparts).mp h
    obtain ⟨groups, htext, hextensions⟩ := hgroups hsubtags
    exact ⟨language, groups, htext, hlanguage, hextensions⟩
  · rintro ⟨language, groups, rfl, hlanguage, hgroups⟩
    have hletters := (isLanguage_iff.mp hlanguage).2
    obtain ⟨subtags, hparts, hsubtags⟩ :=
      exists_inPieces hgroups fun c hc => isMark_of_isAlpha (hletters c hc)
    exact (isWellFormed_iff_of_pieces (Text.pieces_eq_iff.mpr hparts)).mpr ⟨hlanguage, hsubtags⟩

theorem parse_singleton_iff :
    parser.parse [token] = .done locale ↔
      locale.identifier = token ∧ isWellFormed token.toList = true := by
  have hread : parser.parse [token] = .done locale ↔
      isWellFormed token.toList = true ∧ (⟨token⟩ : Locale) = locale :=
    reading_ite_parse_singleton_iff (fun t => isWellFormed t.toList) Locale.mk
  obtain ⟨identifier⟩ := locale
  rw [hread, and_comm, mk.injEq, eq_comm]

/-- A token is a locale exactly if it is two or three letters and any number of groups, each of
which is an underscore or a hyphen and at least one letter or digit.  The locale is the token as it
stands. -/
theorem parse_iff_extensions (token : Token) (locale : Locale) :
    parser.parse [token] = .done locale ↔ locale.identifier = token ∧
      ∃ language groups, token.toList = language ++ List.flatten groups ∧
        (language.length = 2 ∨ language.length = 3) ∧ (∀ c ∈ language, c.isAlpha = true) ∧
          ∀ group ∈ groups, IsExtension group := by
  rw [parse_singleton_iff, isWellFormed_iff]
  simp only [isLanguage_iff, and_assoc]

/-- The two marks in one locale. -/
theorem parse_iff_extensions_hans :
    parser.parse ["zh-Hans_CN"] = .done ⟨"zh-Hans_CN"⟩ := by
  have hscript : IsExtension "-Hans".toList :=
    ⟨'-', "Hans".toList, rfl, .inr rfl, List.cons_ne_nil _ _,
      List.all_eq_true.mp (by decide +kernel)⟩
  have hregion : IsExtension "_CN".toList :=
    ⟨'_', "CN".toList, rfl, .inl rfl, List.cons_ne_nil _ _,
      List.all_eq_true.mp (by decide +kernel)⟩
  refine (parse_iff_extensions "zh-Hans_CN" ⟨"zh-Hans_CN"⟩).mpr
    ⟨rfl, "zh".toList, ["-Hans".toList, "_CN".toList], rfl, .inl rfl,
      List.all_eq_true.mp (by decide +kernel), ?_⟩
  rintro group (_ | ⟨_, _ | ⟨_, ⟨⟩⟩⟩)
  · exact hscript
  · exact hregion

end Locale

end SimControl
