/-
The verb that an action is reported under.

The command line and the reports each have a table of verbs, the arms of the grammar and
`Action.verb`.  The two agree: an arm reads only actions that are reported under its own verb
(`Action.ensures_verb`), and it matches only where this verb is next.  An action is therefore
reported under the very token that it began with, which is the main statement,
`Action.reported_where_read`.
-/
import SimControl.Proofs.Committed
import SimControl.Proofs.Ensures
import SimControl.Report

namespace SimControl

open SimControl.Parser

variable {fs : FileSystem} {c : Cursor}

/-! ## Arms -/

namespace Arm

/-- All that the arm reads is reported under its verb. -/
def ReportsVerb (arm : Arm) : Prop := arm.parser.Ensures fun action => action.verb = arm.verb

theorem reportsVerb_bare (action : Action) : (bare action.verb action).ReportsVerb :=
  ensures_literal rfl

/-- What the operands are does not matter, as long as they are the operands of one action. -/
theorem reportsVerb_operands {α : Type} (verb : Verb) (p : Parser α) {f : α → Action}
    (h : ∀ a, (f a).verb = verb) : (operands verb (p.map f)).ReportsVerb :=
  ((ensures_true p).map fun a _ => h a).keyword verb.word

theorem peek_of_done {arm : Arm} {m : Match Action} (hm : arm.parser.run c = .done m) :
    c.peek = some arm.verb.word := by
  refine Classical.byContradiction fun hother => ?_
  rw [parser_run_of_peek_ne hother] at hm
  cases hm

/-- An arm takes its verb, and goes on from there. -/
theorem position_lt_of_done {arm : Arm} (harm : arm.OperandsComposed) {m : Match Action}
    (hm : arm.parser.run c = .done m) : c.position < m.cursor.position := by
  obtain ⟨rest, hrest⟩ := List.head?_eq_some_iff.mp (peek_of_done hm)
  cases arm with
  | bare verb action =>
    obtain ⟨_, _, rfl⟩ := literal_run_eq_done_iff.mp hm
    exact Nat.lt_succ_self c.position
  | operands verb p =>
    have hkeyword : (keyword verb.word p).run c = .done m := hm
    have hplace : c = ⟨c.position, verb.word :: rest⟩ := Cursor.eq_of_rest hrest
    rw [hplace, keyword_run_cons] at hkeyword
    exact ((Composed.bounded harm).done hkeyword).leads.position_le

end Arm

/-! ## Actions -/

namespace Action

theorem reportsVerb_of_mem_arms {arm : Arm} (harm : arm ∈ arms fs) : arm.ReportsVerb := by
  cases harm using arm_cases with
  | delete => exact Arm.reportsVerb_bare delete
  | erase => exact Arm.reportsVerb_bare erase
  | list => exact Arm.reportsVerb_bare list
  | listApps => exact Arm.reportsVerb_bare listApps
  | shutdown => exact Arm.reportsVerb_bare shutdown
  -- All the others take operands, and what is made of these has the verb of the arm.
  | _ => exact Arm.reportsVerb_operands _ _ fun _ => rfl

/-- An action is read by one of the arms. -/
theorem exists_arm_of_done {m : Match Action} (hm : (parser fs).run c = .done m) :
    ∃ arm ∈ arms fs, arm.parser.run c = .done m := by
  obtain ⟨p, hp, hrun⟩ := exists_mem_of_oneOf hm
  obtain ⟨arm, harm, rfl⟩ := List.mem_map.mp hp
  exact ⟨arm, harm, hrun⟩

/-- Wherever in a token list an action is read, it is reported under the token at this place, and it
takes this token. -/
theorem reported_where_read (fs : FileSystem) {tokens : List Token} {position : Nat}
    {m : Match Action} (h : (parser fs).run (.ofIndex tokens position) = .done m) :
    tokens[position]? = some m.value.verb.word ∧ position + 1 ≤ m.cursor.position := by
  obtain ⟨arm, harm, hrun⟩ := exists_arm_of_done h
  have hverb : m.value.verb = arm.verb := reportsVerb_of_mem_arms harm _ m hrun
  have hpeek : (tokens.drop position).head? = some arm.verb.word := Arm.peek_of_done hrun
  rw [List.head?_drop, ← hverb] at hpeek
  exact ⟨hpeek, Arm.position_lt_of_done (composed_of_mem_arms fs harm) hrun⟩

/-- An application in the middle of a line is reported under the verb that it shares with agents,
and not under the verb of tests in front of it. -/
theorem reported_where_read_launch :
    ∃ m, (parser FileTree.empty.view).run
        (.ofIndex ["launch_xctest", "--", "launch", "com.a", "list"] 2) = .done m ∧
      m.value = .launchApplication ⟨"com.a", ["list"], ∅, ∅⟩ ∧ m.value.verb.word = "launch" ∧
        ["launch_xctest", "--", "launch", "com.a", "list"][2]? = some m.value.verb.word ∧
          2 + 1 ≤ m.cursor.position := by
  have h : (parser FileTree.empty.view).run
      (.ofIndex ["launch_xctest", "--", "launch", "com.a", "list"] 2) =
        .done ⟨.launchApplication ⟨"com.a", ["list"], ∅, ∅⟩, ⟨5, []⟩,
          some ⟨.uninterpretable "'--stdout'" (some "com.a"), 3⟩⟩ := by
    decide +kernel
  exact ⟨_, h, rfl, rfl, reported_where_read _ h⟩

end Action

end SimControl
