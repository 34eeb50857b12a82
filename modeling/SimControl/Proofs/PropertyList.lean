/-
The identifier that a property list gives.

A property list is looked through as text, by cuts.  A text is cut at the first place of a mark
(`cutAt_eq_some_iff`), and what is trimmed loses the blanks at its ends and nothing else
(`trim_eq_iff`), so that `identifierIn?` comes to a statement about places in the text alone.

A property list gives the string that stands next to the key, with only blanks between the two.
The look through it does not stop at anything else.  Where the value of the key is no string, or
an empty element, the string of a later key is taken.  `identifier?_eq_some_iff` says that an
identifier is either given or taken in this way, and that no text admits both.
-/
import Mathlib.Data.List.DropRight
import SimControl.FileSystem.Tree
import SimControl.Operand.Application

namespace SimControl

/-! ## Cutting and trimming -/

namespace Text

variable {mark text before after : List Char} {c : Char}

/-- The mark stands in the text between `before` and `after`, and nowhere further to the left. -/
structure FirstCut (mark text before after : List Char) : Prop where
  eq : text = before ++ mark ++ after
  least (left right : List Char) : text = left ++ mark ++ right → before.length ≤ left.length

theorem firstCut_append (mark after : List Char) : FirstCut mark (mark ++ after) [] after where
  eq := rfl
  least left _ _ := Nat.zero_le left.length

/-- Where the mark does not stand at the start, its first place is that in the tail. -/
theorem FirstCut.cons (hstart : ¬ mark <+: c :: text) (h : FirstCut mark text before after) :
    FirstCut mark (c :: text) (c :: before) after where
  eq := by rw [h.eq]; rfl
  least left right heq := by
    cases left with
    | nil => exact absurd ⟨right, heq.symm⟩ hstart
    | cons c' left =>
      have htail := (List.cons.inj heq).2
      exact Nat.succ_le_succ (h.least left right htail)

/-- A mark is first where its first character does not stand further to the left. -/
theorem firstCut_of_not_mem (h : c ∉ before) (mark after : List Char) :
    FirstCut (c :: mark) (before ++ c :: mark ++ after) before after := by
  induction before with
  | nil => exact firstCut_append (c :: mark) after
  | cons first before ih =>
    have htail : c ∉ before := fun hmem => h (List.mem_cons_of_mem first hmem)
    refine (ih htail).cons ?_
    intro hstart
    obtain rfl := (List.cons_prefix_cons.mp hstart).1
    exact h (List.mem_cons_self ..)

theorem FirstCut.unique {left right : List Char} (h : FirstCut mark text before after)
    (h' : FirstCut mark text left right) : before = left ∧ after = right := by
  have hlength : before.length = left.length :=
    Nat.le_antisymm (h.least left right h'.eq) (h'.least before after h.eq)
  have heq : before ++ (mark ++ after) = left ++ (mark ++ right) := by
    rw [← List.append_assoc, ← h.eq, h'.eq, List.append_assoc]
  obtain ⟨hbefore, hrest⟩ := List.append_inj heq hlength
  exact ⟨hbefore, List.append_cancel_left hrest⟩

theorem firstCut_of_cutAt (h : cutAt mark text = some (before, after)) :
    FirstCut mark text before after := by
  induction text generalizing before with
  | nil =>
    rw [cutAt] at h
    by_cases hmark : mark = []
    · rw [if_pos hmark] at h
      obtain ⟨rfl, rfl⟩ := Prod.mk.inj (Option.some.inj h)
      subst hmark
      exact firstCut_append [] []
    · rw [if_neg hmark] at h
      cases h
  | cons c text ih =>
    rw [cutAt] at h
    by_cases hstart : mark.isPrefixOf (c :: text) = true
    · rw [if_pos hstart] at h
      obtain ⟨rfl, rfl⟩ := Prod.mk.inj (Option.some.inj h)
      obtain ⟨rest, hrest⟩ := List.isPrefixOf_iff_prefix.mp hstart
      rw [← hrest, List.drop_left]
      exact firstCut_append mark rest
    · rw [if_neg hstart] at h
      obtain ⟨⟨before', after'⟩, hcut, hpair⟩ := Option.map_eq_some_iff.mp h
      obtain ⟨rfl, rfl⟩ := Prod.mk.inj hpair
      exact (ih hcut).cons fun hprefix => hstart (List.isPrefixOf_iff_prefix.mpr hprefix)

theorem exists_cutAt (h : text = before ++ mark ++ after) : ∃ cut, cutAt mark text = some cut := by
  induction text generalizing before with
  | nil =>
    obtain ⟨hbefore, -⟩ := List.append_eq_nil_iff.mp h.symm
    rw [cutAt, if_pos (List.append_eq_nil_iff.mp hbefore).2]
    exact ⟨_, rfl⟩
  | cons c text ih =>
    rw [cutAt]
    by_cases hstart : mark.isPrefixOf (c :: text) = true
    · rw [if_pos hstart]
      exact ⟨_, rfl⟩
    · rw [if_neg hstart]
      cases before with
      | nil => exact absurd (List.isPrefixOf_iff_prefix.mpr ⟨after, h.symm⟩) hstart
      | cons c' before =>
        obtain ⟨cut, hcut⟩ := ih (List.cons.inj h).2
        rw [hcut]
        exact ⟨_, rfl⟩

/-- A text is cut at the first place of the mark, if there is any. -/
theorem cutAt_eq_some_iff :
    cutAt mark text = some (before, after) ↔ FirstCut mark text before after := by
  refine ⟨firstCut_of_cutAt, fun h => ?_⟩
  obtain ⟨⟨left, right⟩, hcut⟩ := exists_cutAt h.eq
  obtain ⟨rfl, rfl⟩ := h.unique (firstCut_of_cutAt hcut)
  exact hcut

/-- `kept` is the text without the blanks at its two ends. -/
def Trims (text kept : List Char) : Prop :=
  ∃ left right, text = left ++ kept ++ right ∧ (∀ c ∈ left ++ right, isBlank c = true) ∧
    (∀ c ∈ kept.head?, isBlank c = false) ∧ (∀ c ∈ kept.getLast?, isBlank c = false)

theorem dropWhile_isBlank_append {blanks rest : List Char}
    (hblanks : ∀ c ∈ blanks, isBlank c = true) (hrest : ∀ c ∈ rest.head?, isBlank c = false) :
    (blanks ++ rest).dropWhile isBlank = rest := by
  rw [List.dropWhile_append_of_pos hblanks]
  cases rest with
  | nil => rfl
  | cons c rest => rw [List.dropWhile_cons_of_neg (by simp [hrest c rfl])]

theorem head?_dropWhile_isBlank (text : List Char) :
    ∀ c ∈ (text.dropWhile isBlank).head?, isBlank c = false := by
  intro c hc
  have hhead := List.head?_dropWhile_not isBlank text
  rw [show (text.dropWhile isBlank).head? = some c from hc] at hhead
  exact hhead

theorem trims_trim (text : List Char) : Trims text (trim text) := by
  have hkept : text.dropWhile isBlank =
      trim text ++ ((text.dropWhile isBlank).reverse.takeWhile isBlank).reverse := by
    rw [trim, ← List.reverse_append, List.takeWhile_append_dropWhile, List.reverse_reverse]
  refine ⟨text.takeWhile isBlank, ((text.dropWhile isBlank).reverse.takeWhile isBlank).reverse,
    ?_, ?_, ?_, ?_⟩
  · rw [List.append_assoc, ← hkept, List.takeWhile_append_dropWhile]
  · intro c hc
    rcases List.mem_append.mp hc with hc | hc
    · exact List.mem_takeWhile_imp hc
    · exact List.mem_takeWhile_imp (List.mem_reverse.mp hc)
  · intro c hc
    apply head?_dropWhile_isBlank text c
    rw [hkept, List.head?_append, show (trim text).head? = some c from hc]
    rfl
  · intro c hc
    rw [trim, List.getLast?_reverse] at hc
    exact head?_dropWhile_isBlank _ c hc

theorem trim_of_trims {kept : List Char} (h : Trims text kept) : trim text = kept := by
  obtain ⟨left, right, rfl, hblanks, hfirst, hlast⟩ := h
  by_cases hkept : kept = []
  · -- The blanks at the two ends are one run here, which goes all at once.
    subst hkept
    have hnil : (left ++ right ++ []).dropWhile isBlank = [] :=
      dropWhile_isBlank_append hblanks (by simp)
    rw [List.append_nil] at hnil
    rw [trim, List.append_nil, hnil]
    rfl
  · have hleft : ∀ c ∈ left, isBlank c = true := fun c hc =>
      hblanks c (List.mem_append_left right hc)
    have hright : ∀ c ∈ right.reverse, isBlank c = true := fun c hc =>
      hblanks c (List.mem_append_right left (List.mem_reverse.mp hc))
    have hfirst' : ∀ c ∈ (kept ++ right).head?, isBlank c = false := by
      rw [List.head?_append_of_ne_nil kept hkept]
      exact hfirst
    have hlast' : ∀ c ∈ kept.reverse.head?, isBlank c = false := by
      rw [List.head?_reverse]
      exact hlast
    rw [trim, List.append_assoc, dropWhile_isBlank_append hleft hfirst', List.reverse_append,
      dropWhile_isBlank_append hright hlast', List.reverse_reverse]

theorem trim_eq_iff {kept : List Char} : trim text = kept ↔ Trims text kept :=
  ⟨fun h => h ▸ trims_trim text, trim_of_trims⟩

end Text

/-! ## The string for the key -/

namespace Application

open Text

/-- A string that starts with `value` ends at the first end mark, and up to there it holds the
identifier, perhaps between blanks. -/
def Holds (value : List Char) (identifier : BundleId) : Prop :=
  ∃ contents after, FirstCut "</string>".toList value contents after ∧
    Trims contents identifier.toList ∧ identifier ≠ ""

/-- Behind the first key, with only blanks between, stands a string that holds the identifier. -/
def Gives (text : List Char) (identifier : BundleId) : Prop :=
  ∃ before blanks value, FirstCut "<key>CFBundleIdentifier</key>".toList text before
      (blanks ++ "<string>".toList ++ value) ∧
    (∀ c ∈ blanks, isBlank c = true) ∧ Holds value identifier

/-- The first string behind the first key holds the identifier, but something else than blanks
stands between the two. -/
def GivesElsewhere (text : List Char) (identifier : BundleId) : Prop :=
  ∃ before between value, FirstCut "<key>CFBundleIdentifier</key>".toList text before
      (between ++ "<string>".toList ++ value) ∧
    FirstCut "<string>".toList (between ++ "<string>".toList ++ value) between value ∧
    (∃ c ∈ between, isBlank c = false) ∧ Holds value identifier

variable {text : List Char} {identifier : BundleId}

theorem holds_iff {value : List Char} :
    Holds value identifier ↔ ∃ contents after,
      cutAt "</string>".toList value = some (contents, after) ∧
        trim contents ≠ [] ∧ String.ofList (trim contents) = identifier := by
  simp only [Holds, cutAt_eq_some_iff, ← trim_eq_iff]
  refine exists_congr fun contents => exists_congr fun after => and_congr_right fun _ => ?_
  constructor
  · rintro ⟨hkept, hsome⟩
    refine ⟨?_, by rw [hkept, String.ofList_toList]⟩
    rw [hkept]
    exact fun hnil => hsome (String.toList_eq_nil_iff.mp hnil)
  · rintro ⟨hsome, rfl⟩
    refine ⟨String.toList_ofList.symm, fun hempty => hsome ?_⟩
    exact String.ofList_injective hempty

/-- The identifier is that of the first string behind the first key. -/
theorem identifierIn?_eq_some_iff :
    identifierIn? text = some identifier ↔ ∃ before between value,
      FirstCut "<key>CFBundleIdentifier</key>".toList text before
          (between ++ "<string>".toList ++ value) ∧
        FirstCut "<string>".toList (between ++ "<string>".toList ++ value) between value ∧
        Holds value identifier := by
  simp only [holds_iff, ← cutAt_eq_some_iff]
  constructor
  · intro h
    simp only [identifierIn?, Option.bind_eq_bind, Option.bind_eq_some_iff] at h
    obtain ⟨⟨before, afterKey⟩, hkey, ⟨between, value⟩, hstart, ⟨contents, after⟩, hend, h⟩ := h
    obtain rfl := eq_of_cutAt hstart
    refine ⟨before, between, value, hkey, hstart, contents, after, hend, ?_⟩
    by_cases hblank : trim contents = []
    · rw [if_pos hblank] at h
      cases h
    · rw [if_neg hblank] at h
      exact ⟨hblank, Option.some.inj h⟩
  · rintro ⟨before, between, value, hkey, hstart, contents, after, hend, hsome, rfl⟩
    simp only [identifierIn?, Option.bind_eq_bind, Option.bind_eq_some_iff]
    exact ⟨_, hkey, _, hstart, _, hend, by rw [if_neg hsome]⟩

/-- Blanks do not hide the mark of a string. -/
theorem firstCut_blanks {blanks : List Char} (h : ∀ c ∈ blanks, isBlank c = true)
    (value : List Char) :
    FirstCut "<string>".toList (blanks ++ "<string>".toList ++ value) blanks value := by
  have hmark : "<string>".toList = '<' :: ['s', 't', 'r', 'i', 'n', 'g', '>'] := by
    decide +kernel
  rw [hmark]
  exact firstCut_of_not_mem (fun hmem => absurd (h '<' hmem) (by decide)) _ value

theorem not_givesElsewhere (h : Gives text identifier) (other : BundleId) :
    ¬ GivesElsewhere text other := by
  rintro ⟨before', between, value', hkey', hstart', ⟨c, hc, hvisible⟩, -⟩
  obtain ⟨before, blanks, value, hkey, hblanks, -⟩ := h
  obtain ⟨-, hafter⟩ := hkey.unique hkey'
  obtain ⟨rfl, -⟩ := (hafter ▸ firstCut_blanks hblanks value).unique hstart'
  rw [hblanks c hc] at hvisible
  cases hvisible

theorem identifierIn?_eq_some_iff_gives :
    identifierIn? text = some identifier ↔
      Gives text identifier ∨ GivesElsewhere text identifier := by
  rw [identifierIn?_eq_some_iff]
  constructor
  · rintro ⟨before, between, value, hkey, hstart, hholds⟩
    by_cases hblanks : ∀ c ∈ between, isBlank c = true
    · exact .inl ⟨before, between, value, hkey, hblanks, hholds⟩
    · obtain ⟨c, hc, hvisible⟩ : ∃ c ∈ between, isBlank c = false := by simpa using hblanks
      exact .inr ⟨before, between, value, hkey, hstart, ⟨c, hc, hvisible⟩, hholds⟩
  · rintro (⟨before, blanks, value, hkey, hblanks, hholds⟩ |
      ⟨before, between, value, hkey, hstart, -, hholds⟩)
    · exact ⟨before, blanks, value, hkey, firstCut_blanks hblanks value, hholds⟩
    · exact ⟨before, between, value, hkey, hstart, hholds⟩

/-- The identifier of a bundle is the one that its property list gives, or is taken from elsewhere
in it.  A property list that gives an identifier is not looked through any further. -/
theorem identifier?_eq_some_iff (fs : FileSystem) (path : Path) (identifier : BundleId) :
    (identifier? fs path = some identifier ↔
      ∃ text, fs.text? (Path.child path "Info.plist") = some text ∧
        (Gives text.toList identifier ∨ GivesElsewhere text.toList identifier)) ∧
      ∀ text other, ¬ (Gives text identifier ∧ GivesElsewhere text other) := by
  refine ⟨?_, fun text other h => not_givesElsewhere h.1 other h.2⟩
  rw [identifier?, Option.bind_eq_some_iff]
  exact exists_congr fun text => and_congr_right fun _ => identifierIn?_eq_some_iff_gives

/-- In this property list the value of the key is an empty element, and a name comes next. -/
def emptyElement : String :=
  "<dict><key>CFBundleIdentifier</key><string/><key>CFBundleName</key><string>Name</string></dict>"

/-- The name of the bundle is taken for its identifier, which the property list does not give. -/
theorem identifier?_of_emptyElement :
    (FileTree.empty.addFile "A.app/Info.plist" emptyElement.toUTF8).view.text?
        (Path.child "A.app" "Info.plist") = some emptyElement ∧
      identifier? (FileTree.empty.addFile "A.app/Info.plist" emptyElement.toUTF8).view "A.app" =
        some "Name" ∧
      ¬ Gives emptyElement.toList "Name" := by
  have htext : (FileTree.empty.addFile "A.app/Info.plist" emptyElement.toUTF8).view.text?
      (Path.child "A.app" "Info.plist") = some emptyElement := by
    decide +kernel
  have helsewhere : GivesElsewhere emptyElement.toList "Name" := by
    refine ⟨"<dict>".toList, "<string/><key>CFBundleName</key>".toList,
      "Name</string></dict>".toList, cutAt_eq_some_iff.mp (by decide +kernel),
      cutAt_eq_some_iff.mp (by decide +kernel), ⟨'<', by decide, by decide⟩,
      holds_iff.mpr ⟨"Name".toList, "</dict>".toList, ?_, ?_, ?_⟩⟩ <;> decide +kernel
  refine ⟨htext, ?_, fun hgives => not_givesElsewhere hgives "Name" helsewhere⟩
  rw [identifier?, htext, Option.bind_some]
  exact identifierIn?_eq_some_iff_gives.mpr (.inr helsewhere)

end Application
end SimControl
