/-
Choices that a keyword decides.

A branch that refuses the next token fails where it started, and a branch whose keyword is the
next token fails behind it or not at all.  Failures are ranked by their place, so that the
branches that refuse the token have no part in what a choice comes to, not even in the failure
that it reports: `oneOf_run_filter`.

No two verbs are spelled alike and all verbs but one have one arm, so that the verb decides what
an action is, as `Action.parser_run_of_peek` says.
-/
import SimControl.FileSystem.Tree
import SimControl.Proofs.CommandLine

namespace SimControl
namespace Parser

variable {α ι : Type}

/-! ## Failures at the start and failures behind it -/

/-- What two passes have missed so far, where the first of them has also tried branches that fail
at `position` and the second has not.  The two come to the same as soon as anything fails further
on. -/
inductive Passed (position : Nat) : Option Failure → Option Failure → Prop
  | nowhere {missed : Option Failure} (h : ∀ f ∈ missed, f.offset = position) :
      Passed position missed none
  | further {f : Failure} (h : position < f.offset) : Passed position (some f) (some f)

section Passed

variable {position : Nat} {missed kept : Option Failure} {g : Failure}

theorem Passed.refused (h : Passed position missed kept) (hg : g.offset = position) :
    Passed position (Failure.deepest missed (some g)) kept := by
  cases h with
  | nowhere hmissed =>
    refine .nowhere (Failure.forall_mem_deepest hmissed (Failure.forall_mem_some hg))
  | @further f hf =>
    have hkeep : f.furthest g = f := if_neg (by omega)
    show Passed position (some (f.furthest g)) (some f)
    rw [hkeep]
    exact .further hf

theorem Passed.failed (h : Passed position missed kept) (hg : position < g.offset) :
    Passed position (Failure.deepest missed (some g)) (Failure.deepest kept (some g)) := by
  cases h with
  | @nowhere missed hmissed =>
    cases missed with
    | none => exact .further hg
    | some f =>
      have hf : f.offset = position := hmissed f rfl
      have htake : f.furthest g = g := if_pos (by omega)
      show Passed position (some (f.furthest g)) (some g)
      rw [htake]
      exact .further hg
  | @further f hf =>
    refine .further ?_
    rw [Failure.offset_furthest]
    omega

end Passed

/-- Two passes at `position` that come to the same, apart from what was missed there. -/
inductive SamePass (position : Nat) : Attempt α → Attempt α → Prop
  | hit (m : Match α) (missed kept : Option Failure) :
      SamePass position (.hit m missed) (.hit m kept)
  | miss {missed kept : Option Failure} (h : Passed position missed kept) :
      SamePass position (.miss missed) (.miss kept)
  | endless : SamePass position .endless .endless

/-! ## Branches that are passed over -/

section Choice

variable {branches : List ι} {p : ι → Parser α} {own : ι → Bool} {c : Cursor}

theorem samePass_filter
    (hothers : ∀ i ∈ branches, own i = false →
      ∃ problem, (p i).run c = .failed ⟨problem, c.position⟩)
    (hown : ∀ i ∈ branches, own i = true → ∀ f, (p i).run c = .failed f → c.position < f.offset)
    {missed kept : Option Failure} (h : Passed c.position missed kept) :
    SamePass c.position (attempt (branches.map p) c missed)
      (attempt ((branches.filter own).map p) c kept) := by
  -- What has been missed differs in the two passes only until a branch fails further on.
  induction branches generalizing missed kept with
  | nil => exact .miss h
  | cons i branches ih =>
    have hothers' := fun j hj => hothers j (List.mem_cons_of_mem i hj)
    have hown' := fun j hj => hown j (List.mem_cons_of_mem i hj)
    rw [List.map_cons, attempt]
    cases hi : own i with
    | false =>
      obtain ⟨problem, hfails⟩ := hothers i List.mem_cons_self hi
      rw [hfails, List.filter_cons_of_neg (by simp [hi])]
      exact ih hothers' hown' (h.refused rfl)
    | true =>
      rw [List.filter_cons_of_pos hi, List.map_cons, attempt]
      cases hrun : (p i).run c with
      | done m => exact .hit m missed kept
      | endless => exact .endless
      | failed f => exact ih hothers' hown' (h.failed (hown i List.mem_cons_self hi f hrun))

theorem missed_ne_none {branches : List (Parser α)} {missed kept : Option Failure}
    (h : attempt branches c missed = .miss kept) (hsome : missed ≠ none ∨ branches ≠ []) :
    kept ≠ none := by
  induction branches generalizing missed with
  | nil =>
    obtain rfl := Attempt.miss.inj h
    exact hsome.resolve_right fun hne => hne rfl
  | cons q branches ih =>
    rw [attempt] at h
    cases hq : q.run c with
    | done m =>
      rw [hq] at h
      cases h
    | endless =>
      rw [hq] at h
      cases h
    | failed f =>
      rw [hq] at h
      refine ih h (.inl ?_)
      cases missed <;> exact Option.some_ne_none _

/-- A choice is the choice among the branches that do not fail where they start, if there are
any. -/
theorem oneOf_run_filter
    (hothers : ∀ i ∈ branches, own i = false →
      ∃ problem, (p i).run c = .failed ⟨problem, c.position⟩)
    (hown : ∀ i ∈ branches, own i = true → ∀ f, (p i).run c = .failed f → c.position < f.offset)
    (hsome : branches.filter own ≠ []) :
    (oneOf (branches.map p)).run c = (oneOf ((branches.filter own).map p)).run c := by
  have hstart : Passed c.position none none := .nowhere Failure.forall_mem_none
  have hsame := samePass_filter hothers hown hstart
  have hkept : ∀ kept, attempt ((branches.filter own).map p) c none = .miss kept → kept ≠ none :=
    fun kept h => missed_ne_none h (.inr fun hnil => hsome (List.map_eq_nil_iff.mp hnil))
  simp only [oneOf]
  generalize attempt (branches.map p) c none = all at hsame
  generalize attempt ((branches.filter own).map p) c none = chosen at hsame hkept
  cases hsame with
  | hit m missed kept => rfl
  | endless => rfl
  | miss h =>
    -- A branch that was kept has failed as well, and that further on.
    cases h with
    | nowhere hmissed => exact absurd rfl (hkept none rfl)
    | further hf => rfl

/-- Of branches that all fail where they start, the first one is reported. -/
theorem attempt_eq_miss_of_failed {branches : List (Parser α)}
    (hfails : ∀ q ∈ branches, ∃ problem, q.run c = .failed ⟨problem, c.position⟩) {f : Failure}
    (hf : f.offset = c.position) : attempt branches c (some f) = .miss (some f) := by
  induction branches with
  | nil => rfl
  | cons q branches ih =>
    obtain ⟨problem, hq⟩ := hfails q List.mem_cons_self
    have hkeep : f.furthest ⟨problem, c.position⟩ = f :=
      if_neg (Nat.not_lt.mpr (Nat.le_of_eq hf.symm))
    rw [attempt, hq]
    show attempt branches c (some (f.furthest ⟨problem, c.position⟩)) = .miss (some f)
    rw [hkeep]
    exact ih fun q hq => hfails q (List.mem_cons_of_mem _ hq)

end Choice

end Parser

open SimControl.Parser

variable {fs : FileSystem} {c : Cursor}

/-! ## Arms -/

namespace Arm

/-- An arm fails in front of all tokens but its verb, and at the end of the tokens. -/
theorem parser_run_of_peek_ne {arm : Arm} (hc : c.peek ≠ some arm.verb.word) :
    arm.parser.run c =
      .failed ⟨.uninterpretable ("'" ++ arm.verb.word ++ "'") c.peek, c.position⟩ := by
  cases arm with
  | bare verb action => exact literal_run_of_peek_ne action hc
  | operands verb p => exact keyword_run_of_peek_ne p hc

/-- Behind its verb an arm fails further on, or not at all. -/
theorem position_lt_of_failed {arm : Arm} (harm : arm.OperandsComposed)
    (hc : c.peek = some arm.verb.word) {f : Failure} (hf : arm.parser.run c = .failed f) :
    c.position < f.offset := by
  obtain ⟨rest, hrest⟩ := List.head?_eq_some_iff.mp hc
  cases arm with
  | bare verb action =>
    have hdone : (literal verb.word action).run c = .done ⟨action, ⟨c.position + 1, rest⟩, none⟩ :=
      literal_run_eq_done_iff.mpr ⟨rest, hrest, rfl⟩
    have hf' : (literal verb.word action).run c = .failed f := hf
    rw [hdone] at hf'
    cases hf'
  | operands verb p =>
    have hf' : (keyword verb.word p).run c = .failed f := hf
    have hbehind : c = ⟨c.position, verb.word :: rest⟩ := Cursor.eq_of_rest hrest
    rw [hbehind, keyword_run_cons] at hf'
    have hinside : f.Inside ⟨c.position + 1, rest⟩ := (Composed.bounded harm).failed hf'
    exact hinside.1

end Arm

/-! ## Actions -/

namespace Action

variable (fs)

/-- The ways to spell an action that begins with the verb. -/
def armsOf (verb : Verb) : List Arm := (arms fs).filter fun arm => arm.verb = verb

variable {fs}

/-- The verb decides between the arms. -/
theorem parser_run_of_verb {verb : Verb} (hc : c.peek = some verb.word) :
    (parser fs).run c = (oneOf ((armsOf fs verb).map Arm.parser)).run c := by
  rw [parser, described_run, armsOf]
  refine oneOf_run_filter (fun arm _ hother => ?_) (fun arm harm hown f hf => ?_) ?_
  · refine ⟨_, Arm.parser_run_of_peek_ne fun hword => of_decide_eq_false hother ?_⟩
    exact Verb.eq_of_word_eq _ _ (Option.some.inj (hword.symm.trans hc))
  · rw [← of_decide_eq_true hown] at hc
    exact Arm.position_lt_of_failed (composed_of_mem_arms fs harm) hc hf
  · cases verb <;> exact List.cons_ne_nil _ _

/-- All verbs but one have one arm. -/
theorem exists_armsOf_eq (fs : FileSystem) {verb : Verb} (hverb : verb ≠ .launch) :
    ∃ arm, armsOf fs verb = [arm] := by
  cases verb with
  | launch => exact absurd rfl hverb
  | _ => exact ⟨_, rfl⟩

/-- An arm with a verb of its own is all that the verb can mean. -/
theorem parser_run_of_mem {arm : Arm} (harm : arm ∈ arms fs) (hverb : arm.verb ≠ .launch)
    (hc : c.peek = some arm.verb.word) : (parser fs).run c = arm.parser.run c := by
  obtain ⟨only, honly⟩ := exists_armsOf_eq fs hverb
  have hmem : arm ∈ armsOf fs arm.verb := List.mem_filter.mpr ⟨harm, decide_eq_true rfl⟩
  rw [honly, List.mem_singleton] at hmem
  rw [parser_run_of_verb hc, honly, ← hmem]
  exact oneOf_singleton_run arm.parser c

/-- Without a verb no arm gets anywhere. -/
theorem parser_run_of_no_verb (hc : ∀ verb : Verb, c.peek ≠ some verb.word) :
    (parser fs).run c = .failed ⟨.uninterpretable "'approve'" c.peek, c.position⟩ := by
  have hfails (arm : Arm) := Arm.parser_run_of_peek_ne (hc arm.verb)
  have hpass : attempt ((arms fs).map Arm.parser) c none =
      .miss (some ⟨.uninterpretable "'approve'" c.peek, c.position⟩) := by
    rw [arms, List.map_cons, attempt, hfails]
    refine attempt_eq_miss_of_failed (fun q hq => ?_) rfl
    obtain ⟨arm, _, rfl⟩ := List.mem_map.mp hq
    exact ⟨_, hfails arm⟩
  simp only [parser, described_run, oneOf, hpass]

/-- A verb commits: where a verb other than `launch` is next, an action is read, or not read, as
the one arm of the verb alone says; `launch` leaves the choice between an agent and an application;
and any other token, as well as the end of the tokens, is reported where it stands. -/
theorem parser_run_of_peek (fs : FileSystem) (c : Cursor) :
    (∀ verb : Verb, verb ≠ .launch → c.peek = some verb.word →
      ∃ arm, armsOf fs verb = [arm] ∧ (parser fs).run c = arm.parser.run c) ∧
    (c.peek = some Verb.launch.word →
      (parser fs).run c =
        (oneOf [keyword Verb.launch.word ((AgentLaunch.parser fs).map launchAgent),
          keyword Verb.launch.word ((ApplicationLaunch.parser fs).map launchApplication)]).run c) ∧
    ((∀ verb : Verb, c.peek ≠ some verb.word) →
      (parser fs).run c = .failed ⟨.uninterpretable "'approve'" c.peek, c.position⟩) := by
  refine ⟨fun verb hverb hc => ?_, parser_run_of_verb, parser_run_of_no_verb⟩
  obtain ⟨arm, honly⟩ := exists_armsOf_eq fs hverb
  refine ⟨arm, honly, ?_⟩
  rw [parser_run_of_verb hc, honly]
  exact oneOf_singleton_run arm.parser c

/-- A verb whose operand is refused, `launch` with an application, and a separator in the place of
a verb. -/
theorem parser_run_of_peek_undotted :
    ((∃ arm, armsOf FileTree.empty.view .approve = [arm] ∧
        (parser FileTree.empty.view).run ⟨2, ["approve", "--", "list"]⟩ =
          arm.parser.run ⟨2, ["approve", "--", "list"]⟩) ∧
      (parser FileTree.empty.view).run ⟨2, ["approve", "--", "list"]⟩ =
        .failed ⟨.objection (.undotted "--"), 3⟩) ∧
    (parser FileTree.empty.view).run ⟨0, ["launch", "com.a", "x"]⟩ =
      (oneOf [keyword "launch" ((AgentLaunch.parser FileTree.empty.view).map launchAgent),
        keyword "launch"
          ((ApplicationLaunch.parser FileTree.empty.view).map launchApplication)]).run
        ⟨0, ["launch", "com.a", "x"]⟩ ∧
    (parser FileTree.empty.view).run ⟨1, ["--", "list"]⟩ =
      .failed ⟨.uninterpretable "'approve'" (some "--"), 1⟩ := by
  obtain ⟨hverb, _, _⟩ := parser_run_of_peek FileTree.empty.view ⟨2, ["approve", "--", "list"]⟩
  obtain ⟨_, hlaunch, _⟩ := parser_run_of_peek FileTree.empty.view ⟨0, ["launch", "com.a", "x"]⟩
  obtain ⟨_, _, hnone⟩ := parser_run_of_peek FileTree.empty.view ⟨1, ["--", "list"]⟩
  exact ⟨⟨hverb .approve (by decide) rfl, by decide +kernel⟩, hlaunch rfl, hnone (by decide)⟩

end Action

end SimControl
