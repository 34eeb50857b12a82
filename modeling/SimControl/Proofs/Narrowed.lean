/-
Queries that leave out some target.

Every criterion says something, and so does whatever something is appended to.  A query that is
gathered from criteria is therefore never the query of every target, and that one is only read
from the word for it.  The main statement, `isAll_iff_of_parse`, says so of a query on its own
and of the query of a command line.
-/
import SimControl.FileSystem.Tree
import SimControl.Proofs.Bags

namespace SimControl

open SimControl.Parser

/-- Only the empty set can be completed to the empty set. -/
theorem eq_empty_of_treeSet_union {α : Type} [Ord α] [Std.TransOrd α] [Std.LawfulEqOrd α]
    {s t : Std.ExtTreeSet α} (h : s ∪ t = ∅) : s = ∅ := by
  refine Std.ExtTreeSet.ext_mem fun a => ?_
  have hunion : a ∉ s ∪ t := by
    rw [h]
    exact Std.ExtTreeSet.not_mem_empty
  rw [Std.ExtTreeSet.mem_union_iff, not_or] at hunion
  exact iff_of_false hunion.1 Std.ExtTreeSet.not_mem_empty

namespace TargetQuery

theorem isAll_eq_true_iff {query : TargetQuery} : query.isAll = true ↔ query = all :=
  decide_eq_true_iff

/-- No criterion is taken back by what is appended to it. -/
theorem eq_all_of_append {a b : TargetQuery} (h : Accumulator.append a b = all) : a = all := by
  obtain ⟨udids, states, types, osVersions, devices, first⟩ := a
  obtain ⟨hudids, hstates, htypes, hosVersions, hdevices, hfirst⟩ := TargetQuery.mk.inj h
  obtain rfl := eq_empty_of_treeSet_union hudids
  obtain rfl := EnumSet.eq_empty_of_union hstates
  obtain rfl := EnumSet.eq_empty_of_union htypes
  obtain rfl := EnumSet.eq_empty_of_union hosVersions
  obtain rfl := EnumSet.eq_empty_of_union hdevices
  obtain rfl := (Option.or_eq_none_iff.mp hfirst).2
  rfl

/-- A query with something in one of its fields is not the query of every target. -/
theorem ne_all_of_field {β : Type} {query : TargetQuery} (field : TargetQuery → β)
    (h : field query ≠ field all) : query ≠ all := fun heq => h (congrArg field heq)

theorem ensures_of_mem_criteria {p : Parser TargetQuery} (hp : p ∈ criteria) :
    p.Ensures (· ≠ all) := by
  cases hp using criterion_cases with
  | first => exact (ensures_true _).map fun n _ => ne_all_of_field first (Option.some_ne_none n)
  | udid =>
    refine (ensures_true _).map fun udid _ => ne_all_of_field udids fun h => ?_
    have hmem : udid ∈ ({udid} : Std.ExtTreeSet Udid) := Std.ExtTreeSet.mem_insert_self
    have hempty : ({udid} : Std.ExtTreeSet Udid) = ∅ := h
    rw [hempty] at hmem
    exact Std.ExtTreeSet.not_mem_empty hmem
  | state =>
    exact (ensures_true _).map fun state _ =>
      ne_all_of_field states (EnumSet.singleton_ne_empty state)
  | type =>
    have htypes : typeParser.Ensures (· ≠ ∅) := ensures_oneOf fun _ => ensures_of_mem_flags
    exact htypes.map fun types htypes => ne_all_of_field TargetQuery.types htypes
  | osVersion =>
    exact (ensures_true _).map fun version _ =>
      ne_all_of_field osVersions (EnumSet.singleton_ne_empty version)
  | device =>
    exact (ensures_true _).map fun model _ =>
      ne_all_of_field devices (EnumSet.singleton_ne_empty model)

/-- What is gathered from criteria leaves out some target. -/
theorem ensures_gather_criteria : (gather 1 criteria).Ensures (· ≠ all) :=
  ensures_gather_ne_identity Nat.one_pos (fun _ => ensures_of_mem_criteria)
    fun _ _ => eq_all_of_append

theorem eq_all_iff_of_parse {tokens : List Token} {query : TargetQuery}
    (h : parser.parse tokens = .done query) : query = all ↔ tokens = ["all"] := by
  have hchoice : (oneOf [literal "all" all, gather 1 criteria]).parse tokens = .done query := h
  rcases oneOf_literal_parse_eq_done_iff.mp hchoice with ⟨htokens, hquery⟩ | ⟨hhead, hgathered⟩
  · exact iff_of_true hquery htokens
  · refine iff_of_false (ensures_gather_criteria.of_parse hgathered) ?_
    rintro rfl
    exact hhead rfl

/-- The query section of a command line, and whether the command is for every target. -/
theorem isAll_iff_of_spell {fs : FileSystem} {s : Sections} {command : Command}
    (hs : s.Spell fs command) :
    (∃ query ∈ command.query, query.isAll = true) ↔ s.query = ["all"] := by
  rcases hs.query with ⟨hnone, hquery⟩ | ⟨query, hparse, hquery⟩
  · rw [hnone, hquery]
    simp
  · rw [hquery]
    simp only [Option.mem_some_iff, exists_eq_left', isAll_eq_true_iff]
    exact eq_all_iff_of_parse hparse

/-- A query is one of every target exactly if it is the word `all`, and the query of a command is
exactly if this word is the query section, in the only way to cut the command line. -/
theorem isAll_iff_of_parse (fs : FileSystem) :
    (∀ (tokens : List Token) (query : TargetQuery), parser.parse tokens = .done query →
      (query.isAll = true ↔ tokens = ["all"])) ∧
    ∀ (tokens : List Token) (command : Command),
      (Invocation.parser fs).parse tokens = .done (.run command) →
        ∃ s : Sections, s.tokens = tokens ∧ s.Spell fs command ∧
          (∀ s' : Sections, s'.tokens = tokens → s'.Spell fs command → s' = s) ∧
            ((∃ query ∈ command.query, query.isAll = true) ↔ s.query = ["all"]) := by
  refine ⟨fun tokens query h => ?_, fun tokens command h => ?_⟩
  · rw [isAll_eq_true_iff]
    exact eq_all_iff_of_parse h
  · have hcommand := (Invocation.parse_eq_run_iff_parse fs).mp h
    obtain ⟨s, htokens, hs⟩ := (Command.parse_eq_done_iff fs).mp hcommand
    refine ⟨s, htokens, hs, fun s' htokens' hs' => ?_, isAll_iff_of_spell hs⟩
    exact hs'.header.unique hs.header (htokens'.trans htokens.symm)

/-- A bound of no targets at all is a criterion, and a command for every target says so in one
word behind its settings. -/
theorem isAll_iff_of_parse_delete :
    TargetQuery.parser.parse ["--first", "0"] = .done { first := some 0 } ∧
      ({ first := some 0 } : TargetQuery).isAll = false ∧
        (Invocation.parser FileTree.empty.view).parse ["--json", "all", "delete"] =
            .done (.run ⟨{ output := .singleton .json }, some all, none, [.delete]⟩) ∧
          ∃ s : Sections, s.tokens = ["--json", "all", "delete"] ∧ s.query = ["all"] := by
  have hfirst : TargetQuery.parser.parse ["--first", "0"] = .done { first := some 0 } := by
    decide +kernel
  have hdelete : (Invocation.parser FileTree.empty.view).parse ["--json", "all", "delete"] =
      .done (.run ⟨{ output := .singleton .json }, some all, none, [.delete]⟩) := by
    decide +kernel
  obtain ⟨hquery, hcommand⟩ := isAll_iff_of_parse FileTree.empty.view
  obtain ⟨s, htokens, _, _, hall⟩ := hcommand _ _ hdelete
  refine ⟨hfirst, ?_, hdelete, s, htokens, hall.mp ⟨all, rfl, by decide +kernel⟩⟩
  exact Bool.eq_false_iff.mpr fun h => absurd ((hquery _ _ hfirst).mp h) (by decide)

end TargetQuery

end SimControl
