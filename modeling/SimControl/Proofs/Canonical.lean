/-
One spelling for each target.

An identifier may be typed in either case and is kept in upper case.  Which tokens are identifiers
is a matter of places, hyphens at four of them and hexadecimal digits at all the others
(`Udid.isWellFormed_iff`), although it is checked by the groups between the hyphens and by how many
bytes they have.  Upper case is the one spelling of an identifier that the reading leaves as it is,
so that a query has each target once, however often and in whatever case it is named.  The main
statement is `Udid.parse_canonical`.
-/
import Mathlib.Data.List.Dedup
import Mathlib.Data.List.Pairwise
import SimControl.Proofs.Bags
import SimControl.Proofs.Monoids
import SimControl.Proofs.Shapes
import SimControl.Proofs.WellFormed

namespace SimControl

open SimControl.Parser

/-! ## Lengths and places -/

namespace Text

variable {isSeparator : Char → Bool} {text : List Char} {parts : List (List Char)}

/-- Where the separators stand between pieces of these lengths. -/
def outline (lengths : List Nat) : List Bool :=
  [true].intercalate (lengths.map (List.replicate · false))

theorem splitOn_outline {lengths : List Nat} (hsome : lengths ≠ []) :
    (outline lengths).splitOn true = lengths.map (List.replicate · false) := by
  refine List.splitOn_intercalate true (fun piece hpiece => ?_) (by simpa using hsome)
  obtain ⟨length, -, rfl⟩ := List.mem_map.mp hpiece
  simp

/-- The lengths can be read off the places. -/
theorem outline_inj {lengths lengths' : List Nat} (hsome : lengths ≠ []) (hsome' : lengths' ≠ []) :
    outline lengths = outline lengths' ↔ lengths = lengths' := by
  refine ⟨fun h => ?_, congrArg outline⟩
  have hmap := congrArg (List.map List.length) (congrArg (List.splitOn true) h)
  rw [splitOn_outline hsome, splitOn_outline hsome', List.map_map, List.map_map] at hmap
  simpa [Function.comp_def] using hmap

theorem InPieces.ne_nil (h : InPieces isSeparator text parts) : parts ≠ [] := by
  cases h <;> exact List.cons_ne_nil _ _

theorem InPieces.map_eq_outline (h : InPieces isSeparator text parts) :
    text.map isSeparator = outline (parts.map List.length) := by
  induction h with
  | @last piece hpiece =>
    rw [List.map_eq_replicate_iff.mpr hpiece]
    simp [outline]
  | @cons piece rest mark more hpiece hmark hrest ih =>
    obtain ⟨next, more, rfl⟩ := List.exists_cons_of_ne_nil hrest.ne_nil
    rw [List.map_append, List.map_cons, List.map_eq_replicate_iff.mpr hpiece, hmark, ih]
    simp [outline, List.intercalate_cons_cons]

theorem map_length_pieces_iff {lengths : List Nat} (hsome : lengths ≠ []) :
    (pieces isSeparator text).map List.length = lengths ↔
      text.map isSeparator = outline lengths := by
  have hpieces := inPieces_pieces isSeparator text
  rw [hpieces.map_eq_outline, outline_inj (by simpa using hpieces.ne_nil) hsome]

/-- The pieces have all the characters that are no separators. -/
theorem InPieces.forall_mem_iff (h : InPieces isSeparator text parts) {P : Char → Prop} :
    (∀ piece ∈ parts, ∀ c ∈ piece, P c) ↔ ∀ c ∈ text, isSeparator c = false → P c := by
  induction h with
  | @last piece hpiece =>
    rw [List.forall_mem_singleton]
    exact forall₂_congr fun c hc => (imp_iff_right (hpiece c hc)).symm
  | @cons piece rest mark more hpiece hmark hrest ih =>
    rw [List.forall_mem_cons, ih, List.forall_mem_append, List.forall_mem_cons, hmark]
    have hfirst : (∀ c ∈ piece, P c) ↔ ∀ c ∈ piece, isSeparator c = false → P c :=
      forall₂_congr fun c hc => (imp_iff_right (hpiece c hc)).symm
    simp [hfirst]

theorem map_eq_map_range_iff {f : Char → Bool} {g : Nat → Bool} {n : Nat} :
    text.map f = (List.range n).map g ↔
      text.length = n ∧ ∀ i c, text[i]? = some c → f c = g i := by
  constructor
  · intro h
    have hlength : text.length = n := by simpa using congrArg List.length h
    refine ⟨hlength, fun i c hc => ?_⟩
    obtain ⟨hi, -⟩ := List.getElem?_eq_some_iff.mp hc
    have hplace := congrArg (·[i]?) h
    rw [hlength] at hi
    simpa [hc, hi] using hplace
  · rintro ⟨hlength, hplaces⟩
    refine List.ext_getElem (by simpa using hlength) fun i hi _ => ?_
    rw [List.length_map] at hi
    rw [List.getElem_map, List.getElem_map, List.getElem_range]
    exact hplaces i _ (List.getElem?_eq_getElem hi)

theorem map_map_eq {f g h : Char → Char} {text : String}
    (hchar : ∀ c ∈ text.toList, g (f c) = h c) : (text.map f).map g = text.map h := by
  rw [← String.toList_inj, String.toList_map, String.toList_map, String.toList_map, List.map_map]
  exact List.map_congr_left hchar

end Text

/-! ## Identifiers -/

namespace Udid

variable {token : Token} {udid : Udid}

def hyphenPlaces : List Nat := [8, 13, 18, 23]

/-- There are 36 characters, hyphens at four places and hexadecimal digits at all the others. -/
structure IsSpelled (text : String) : Prop where
  length : text.length = 36
  char (i : Nat) (c : Char) : text.toList[i]? = some c →
    if i ∈ hyphenPlaces then c = '-' else c ∈ hexDigits

theorem outline_groupLengths :
    Text.outline groupLengths = (List.range 36).map fun i => decide (i ∈ hyphenPlaces) := by
  decide +kernel

theorem place_iff {i : Nat} {c : Char} :
    (if i ∈ hyphenPlaces then c = '-' else c ∈ hexDigits) ↔
      (c == '-') = decide (i ∈ hyphenPlaces) ∧ ((c == '-') = false → c ∈ hexDigits) := by
  have hhyphen : '-' ∉ hexDigits := by decide +kernel
  by_cases hi : i ∈ hyphenPlaces
  · rw [if_pos hi, decide_eq_true hi, beq_iff_eq]
    refine ⟨fun hc => ⟨hc, fun hne => ?_⟩, And.left⟩
    rw [hc] at hne
    cases hne
  · rw [if_neg hi, decide_eq_false hi]
    refine ⟨fun hc => ⟨beq_eq_false_iff_ne.mpr ?_, fun _ => hc⟩, fun h => h.2 h.1⟩
    rintro rfl
    exact hhyphen hc

theorem isWellFormed_iff : isWellFormed token.toList = true ↔ IsSpelled token := by
  have hlengths : (Text.pieces (· == '-') token.toList).map List.length = groupLengths ↔
      token.toList.length = 36 ∧
        ∀ i c, token.toList[i]? = some c → (c == '-') = decide (i ∈ hyphenPlaces) := by
    rw [Text.map_length_pieces_iff (by decide), outline_groupLengths, Text.map_eq_map_range_iff]
  have hdigits : (∀ group ∈ Text.pieces (· == '-') token.toList, ∀ c ∈ group,
      isHexDigit c = true) ↔ ∀ c ∈ token.toList, (c == '-') = false → c ∈ hexDigits := by
    simp only [(Text.inPieces_pieces (· == '-') token.toList).forall_mem_iff, isHexDigit_iff]
  rw [isWellFormed_iff_groups, hlengths, hdigits, String.length_toList]
  constructor
  · rintro ⟨hhex, hlength, hhyphens⟩
    refine ⟨hlength, fun i c hc => place_iff.mpr ⟨hhyphens i c hc, ?_⟩⟩
    exact hhex c (List.mem_of_getElem? hc)
  · rintro ⟨hlength, hchar⟩
    refine ⟨fun c hc => ?_, hlength, fun i c hc => (place_iff.mp (hchar i c hc)).1⟩
    obtain ⟨i, hi⟩ := List.mem_iff_getElem?.mp hc
    exact (place_iff.mp (hchar i c hi)).2

theorem parse_singleton_iff :
    parser.parse [token] = .done udid ↔ IsSpelled token ∧ udid = token.toUpper := by
  have hread : parser.parse [token] = .done udid ↔ isWellFormed token.toList = true ∧
      String.ofList (token.toList.map Char.toUpper) = udid :=
    reading_ite_parse_singleton_iff (fun t => isWellFormed t.toList)
      fun t => String.ofList (t.toList.map Char.toUpper)
  have hupper : String.ofList (token.toList.map Char.toUpper) = token.toUpper := by
    rw [← String.toList_inj, String.toList_ofList, String.toUpper, String.toList_map]
  rw [hread, isWellFormed_iff, hupper, eq_comm]

/-- The value is an identifier once more. -/
theorem IsSpelled.toUpper (h : IsSpelled token) : IsSpelled token.toUpper := by
  have hdigits : hexDigits.all (fun c => decide (c.toUpper ∈ hexDigits)) = true := by
    decide +kernel
  refine ⟨by rw [String.toUpper, String.length_map, h.length], fun i c hc => ?_⟩
  rw [String.toUpper, String.toList_map, List.getElem?_map] at hc
  obtain ⟨typed, htyped, rfl⟩ := Option.map_eq_some_iff.mp hc
  have hplace := h.char i typed htyped
  by_cases hi : i ∈ hyphenPlaces
  · rw [if_pos hi] at hplace ⊢
    rw [hplace]
    rfl
  · rw [if_neg hi] at hplace ⊢
    exact of_decide_eq_true (List.all_eq_true.mp hdigits typed hplace)

/-! ## Case -/

def alphabet : List Char := '-' :: hexDigits

theorem IsSpelled.mem_alphabet (h : IsSpelled token) : ∀ c ∈ token.toList, c ∈ alphabet := by
  intro c hc
  obtain ⟨i, hi⟩ := List.mem_iff_getElem?.mp hc
  have hplace := h.char i c hi
  by_cases hhyphen : i ∈ hyphenPlaces
  · rw [if_pos hhyphen] at hplace
    exact List.mem_cons.mpr (.inl hplace)
  · rw [if_neg hhyphen] at hplace
    exact List.mem_cons_of_mem _ hplace

/-- A law of characters has to be true of the few that an identifier is made of. -/
theorem IsSpelled.map_map_eq {f g k : Char → Char} (h : IsSpelled token)
    (hlaw : alphabet.all (fun c => g (f c) == k c) = true) : (token.map f).map g = token.map k :=
  Text.map_map_eq fun c hc => beq_iff_eq.mp (List.all_eq_true.mp hlaw c (h.mem_alphabet c hc))

theorem IsSpelled.toUpper_toUpper (h : IsSpelled token) : token.toUpper.toUpper = token.toUpper :=
  h.map_map_eq (by decide +kernel)

theorem IsSpelled.toUpper_toLower (h : IsSpelled token) : token.toLower.toUpper = token.toUpper :=
  h.map_map_eq (by decide +kernel)

theorem IsSpelled.toLower_toUpper (h : IsSpelled token) : token.toUpper.toLower = token.toLower :=
  h.map_map_eq (by decide +kernel)

theorem IsSpelled.toUpper_eq_iff {token' : Token} (h : IsSpelled token) (h' : IsSpelled token') :
    token.toUpper = token'.toUpper ↔ token.toLower = token'.toLower := by
  constructor
  · intro heq
    rw [← h.toLower_toUpper, heq, h'.toLower_toUpper]
  · intro heq
    rw [← h.toUpper_toLower, heq, h'.toUpper_toLower]

end Udid

/-! ## Queries -/

namespace Parser

variable {α : Type} {parts : List (Parser α)} {p : Parser α} {group : List Token} {value : α}

/-- Of parts that exclude each other, the one that reads a group is the one that is chosen. -/
theorem Reads.oneOf (hread : p.Reads group value) (hexcludes : parts.Pairwise Excludes)
    (hp : p ∈ parts) (hsome : group ≠ []) : (oneOf parts).Reads group value := by
  have : Std.Symm (@Excludes α) := ⟨fun _ _ h t => (h t).symm⟩
  intro position rest
  have hrun := hread position rest
  refine oneOf_run_of_agree (fun q hq => ?_) ⟨p, hp, hrun⟩
  by_cases hsame : q = p
  · rw [hsame]
    exact .inl hrun
  · obtain ⟨t, own, rfl⟩ := List.exists_cons_of_ne_nil hsome
    have hq : q.Excludes p := hexcludes.forall hq hp hsame
    have hrefuses : q.Refuses t := hq.refuses hrun rfl
    obtain ⟨problem, hfails⟩ := hrefuses ⟨position, t :: own ++ rest⟩ rfl
    exact .inr ⟨_, hfails⟩

end Parser

section Sets

variable {α : Type} [Ord α] [Std.TransOrd α] [Std.LawfulEqOrd α]

theorem treeSet_mem_singleton {a b : α} : a ∈ ({b} : Std.ExtTreeSet α) ↔ a = b := by
  have hinsert : a ∈ ({b} : Std.ExtTreeSet α) ↔
      compare b a = .eq ∨ a ∈ (∅ : Std.ExtTreeSet α) := Std.ExtTreeSet.mem_insert
  rw [hinsert, or_iff_left Std.ExtTreeSet.not_mem_empty, Std.LawfulEqCmp.compare_eq_iff_eq,
    eq_comm]

/-- A member of a set that is put together is a member of one of the parts. -/
theorem treeSet_mem_foldAll {sets : List (Std.ExtTreeSet α)} {a : α} :
    a ∈ Accumulator.foldAll sets ↔ ∃ s ∈ sets, a ∈ s := by
  induction sets with
  | nil => exact iff_of_false Std.ExtTreeSet.not_mem_empty (by simp)
  | cons s sets ih =>
    rw [Accumulator.foldAll_cons, List.exists_mem_cons_iff, ← ih]
    exact Std.ExtTreeSet.mem_union_iff

end Sets

namespace TargetQuery

variable {tokens : List Token}

theorem foldAll_udids (sets : List (Std.ExtTreeSet Udid)) :
    Accumulator.foldAll (sets.map fun udids => ({ udids := udids } : TargetQuery)) =
      { udids := Accumulator.foldAll sets } := by
  have happend (a b : Std.ExtTreeSet Udid) :
      ({ udids := Accumulator.append a b } : TargetQuery) =
        Accumulator.append { udids := a } { udids := b } := by
    simp only [Accumulator.append, mk.injEq, true_and]
    refine ⟨?_, ?_, ?_, ?_, rfl⟩ <;> exact (LawfulAccumulator.append_identity _).symm
  exact (Accumulator.foldAll_map (f := fun udids => ({ udids := udids } : TargetQuery)) rfl
    happend sets).symm

theorem groups_udids (h : ∀ t ∈ tokens, Udid.IsSpelled t) :
    (oneOf criteria).Groups tokens (tokens.map fun t => { udids := {t.toUpper} }) := by
  induction tokens with
  | nil => exact .nil
  | cons t tokens ih =>
    obtain ⟨ht, htokens⟩ := List.forall_mem_cons.mp h
    have hudid : Udid.parser.Reads [t] t.toUpper :=
      single_run_of_parse (Udid.parse_singleton_iff.mpr ⟨ht, rfl⟩)
    have hcriterion : (oneOf criteria).Reads [t] { udids := {t.toUpper} } :=
      (hudid.map fun udid => { udids := {udid} }).oneOf excludes_criteria (by simp [criteria])
        (List.cons_ne_nil t [])
    exact .cons (List.cons_ne_nil t []) hcriterion (ih htokens)

theorem parse_udids (hsome : tokens ≠ []) (h : ∀ t ∈ tokens, Udid.IsSpelled t) :
    parser.parse tokens =
      .done { udids := Accumulator.foldAll (tokens.map fun t => {t.toUpper}) } := by
  have hhead : tokens.head? ≠ some "all" := by
    intro hall
    have hspelled := h "all" (List.mem_of_head? hall)
    exact absurd hspelled.length (by decide)
  have hgathered : (gather 1 criteria).parse tokens =
      .done { udids := Accumulator.foldAll (tokens.map fun t => {t.toUpper}) } := by
    refine bag_criteria.parse_eq_done_iff.mpr ⟨_, groups_udids h, ?_, ?_⟩
    · rw [List.length_map]
      exact List.length_pos_iff.mpr hsome
    · rw [← foldAll_udids, List.map_map]
      rfl
  exact oneOf_literal_parse_eq_done_iff.mpr (.inr ⟨hhead, hgathered⟩)

end TargetQuery

namespace Udid

/-- A set of values has as many members as there are identifiers that differ in more than case. -/
theorem size_eq_length_dedup {udids : Std.ExtTreeSet Udid} {tokens : List Token}
    (hspelled : ∀ t ∈ tokens, IsSpelled t)
    (h : ∀ udid, udid ∈ udids ↔ ∃ t ∈ tokens, udid = t.toUpper) :
    udids.size = (tokens.map String.toLower).dedup.length := by
  have hnodup : ((tokens.map String.toLower).dedup.map String.toUpper).Nodup := by
    refine (List.nodup_dedup _).map_on fun a ha b hb hab => ?_
    obtain ⟨t, ht, rfl⟩ := List.mem_map.mp (List.mem_dedup.mp ha)
    obtain ⟨t', ht', rfl⟩ := List.mem_map.mp (List.mem_dedup.mp hb)
    rw [(hspelled t ht).toUpper_toLower, (hspelled t' ht').toUpper_toLower] at hab
    exact ((hspelled t ht).toUpper_eq_iff (hspelled t' ht')).mp hab
  have hset : udids = .ofList ((tokens.map String.toLower).dedup.map String.toUpper) := by
    refine Std.ExtTreeSet.ext_mem fun udid => ?_
    rw [h, Std.ExtTreeSet.mem_ofList, List.contains_iff_mem]
    simp only [List.mem_map, List.mem_dedup, exists_exists_and_eq_and]
    refine exists_congr fun t => and_congr_right fun ht => ?_
    rw [(hspelled t ht).toUpper_toLower, eq_comm]
  rw [hset, Std.ExtTreeSet.size_ofList, List.length_map]
  exact hnodup.imp fun hne heq => hne (Std.LawfulEqCmp.eq_of_compare heq)

/-- A token is an identifier exactly if it has hyphens and hexadecimal digits in their places.  Its
value is the token in upper case, which is its own value, and two tokens have one value exactly if
they are the same up to case.  A query that names targets one after another is for the values of its
tokens, each of them once. -/
theorem parse_canonical :
    (∀ (token : Token) (udid : Udid), parser.parse [token] = .done udid ↔
      IsSpelled token ∧ udid = token.toUpper) ∧
    (∀ (token : Token) (udid : Udid), parser.parse [token] = .done udid →
      parser.parse [udid] = .done udid) ∧
    (∀ (token token' : Token) (udid udid' : Udid), parser.parse [token] = .done udid →
      parser.parse [token'] = .done udid' → (udid = udid' ↔ token.toLower = token'.toLower)) ∧
    ∀ tokens : List Token, tokens ≠ [] →
      (∀ t ∈ tokens, ∃ udid, parser.parse [t] = .done udid) →
        ∃ query, TargetQuery.parser.parse tokens = .done query ∧
          query = { udids := query.udids } ∧
          (∀ udid, udid ∈ query.udids ↔ ∃ t ∈ tokens, parser.parse [t] = .done udid) ∧
            query.udids.size = (tokens.map String.toLower).dedup.length := by
  refine ⟨fun _ _ => parse_singleton_iff, fun token udid h => ?_,
    fun token token' udid udid' h h' => ?_, fun tokens hsome h => ?_⟩
  · obtain ⟨hspelled, rfl⟩ := parse_singleton_iff.mp h
    exact parse_singleton_iff.mpr ⟨hspelled.toUpper, hspelled.toUpper_toUpper.symm⟩
  · obtain ⟨hspelled, rfl⟩ := parse_singleton_iff.mp h
    obtain ⟨hspelled', rfl⟩ := parse_singleton_iff.mp h'
    exact hspelled.toUpper_eq_iff hspelled'
  · have hspelled : ∀ t ∈ tokens, IsSpelled t := fun t ht => by
      obtain ⟨udid, hudid⟩ := h t ht
      exact (parse_singleton_iff.mp hudid).1
    have hmem (udid : Udid) : udid ∈ Accumulator.foldAll (tokens.map fun t =>
        ({t.toUpper} : Std.ExtTreeSet Udid)) ↔ ∃ t ∈ tokens, udid = t.toUpper := by
      rw [treeSet_mem_foldAll]
      simp only [List.mem_map, exists_exists_and_eq_and, treeSet_mem_singleton]
    refine ⟨_, TargetQuery.parse_udids hsome hspelled, rfl, fun udid => ?_,
      size_eq_length_dedup hspelled hmem⟩
    rw [hmem]
    refine exists_congr fun t => and_congr_right fun ht => ?_
    rw [parse_singleton_iff]
    exact (and_iff_right (hspelled t ht)).symm

/-- Two targets in three spellings. -/
theorem parse_canonical_thrice :
    parser.parse ["0a1b2c3d-0000-4444-aaaa-0123456789ab"] =
        .done "0A1B2C3D-0000-4444-AAAA-0123456789AB" ∧
      parser.parse ["0A1B2C3D-0000-4444-AAAA-0123456789AB"] =
        .done "0A1B2C3D-0000-4444-AAAA-0123456789AB" ∧
      "0a1b2c3d-0000-4444-aaaa-0123456789ab".toLower =
        "0A1B2C3D-0000-4444-AAAA-0123456789AB".toLower ∧
      ∃ query, TargetQuery.parser.parse ["0a1b2c3d-0000-4444-aaaa-0123456789ab",
          "0A1B2C3D-0000-4444-AAAA-0123456789AB", "0A1b2C3d-0000-4444-AaAa-0123456789aC"] =
            .done query ∧
        "0A1B2C3D-0000-4444-AAAA-0123456789AC" ∈ query.udids ∧ query.udids.size = 2 := by
  obtain ⟨-, hagain, hcase, hquery⟩ := parse_canonical
  have hlower : parser.parse ["0a1b2c3d-0000-4444-aaaa-0123456789ab"] =
      .done "0A1B2C3D-0000-4444-AAAA-0123456789AB" := by decide +kernel
  have hother : parser.parse ["0A1b2C3d-0000-4444-AaAa-0123456789aC"] =
      .done "0A1B2C3D-0000-4444-AAAA-0123456789AC" := by decide +kernel
  have hupper := hagain _ _ hlower
  obtain ⟨query, hparse, -, hmem, hsize⟩ := hquery ["0a1b2c3d-0000-4444-aaaa-0123456789ab",
    "0A1B2C3D-0000-4444-AAAA-0123456789AB", "0A1b2C3d-0000-4444-AaAa-0123456789aC"]
    (List.cons_ne_nil _ _) (by simp [hlower, hupper, hother])
  refine ⟨hlower, hupper, (hcase _ _ _ _ hlower hupper).mp rfl, query, hparse, ?_, ?_⟩
  · exact (hmem _).mpr ⟨_, by simp, hother⟩
  · have htoLower (t : Token) : t.toLower = t.map Char.toLower := rfl
    rw [hsize]
    simp only [List.map_cons, List.map_nil, htoLower, String.map_eq_internal]
    decide +kernel

end Udid

end SimControl
