/-
Where the separators of a list of actions stand.

What a separated repetition reads are the segments that its items pass, with a separator
between any two.  A separator inside a segment is one that an item has taken for something
else.  An item that is closed by the separator takes none, and an action is closed by it
unless the file system has an entry that is spelled like the separator, of the kind that the
action asks for: then the separator is read as a path, and there are fewer actions.
-/
import Mathlib.Algebra.GroupWithZero.Nat
import SimControl.Proofs.Segments

namespace SimControl
namespace Parser

variable {α : Type} {t : Token} {p : Parser α}

/-- Before some tokens or other, `p` reads `value` from `passed`. -/
def Passes (p : Parser α) (passed : List Token) (value : α) : Prop :=
  ∃ (c : Cursor) (m : Match α),
    p.run c = .done m ∧ c.rest = passed ++ m.cursor.rest ∧ m.value = value

theorem Bounded.exists_passes (hp : p.Bounded) {c : Cursor} {m : Match α} (h : p.run c = .done m) :
    ∃ passed, c.rest = passed ++ m.cursor.rest ∧ p.Passes passed m.value := by
  obtain ⟨passed, hrest, _⟩ := (hp.done h).leads
  exact ⟨passed, hrest, c, m, h, hrest, rfl⟩

theorem Ensures.of_passes {P : α → Prop} (hp : p.Ensures P) {passed : List Token} {value : α}
    (h : p.Passes passed value) : P value := by
  obtain ⟨c, m, hm, _, rfl⟩ := h
  exact hp c m hm

/-- What is read from the tokens before a `t` is read before it. -/
theorem ClosedBy.not_mem_of_passes (hp : p.ClosedBy t) {passed : List Token} {value : α}
    (h : p.Passes passed value) : t ∉ passed := by
  obtain ⟨⟨position, rest⟩, m, hm, hrest, _⟩ := h
  intro ht
  obtain ⟨before, after, rfl⟩ := List.append_of_mem ht
  have hrest : rest = before ++ t :: (after ++ m.cursor.rest) := by
    rw [show rest = _ from hrest, List.append_assoc, List.cons_append]
  rw [hrest] at hm
  obtain ⟨alone, _, hagrees⟩ := hp.exists_run hm
  -- Alone, `p` has left at least as much behind the `t` as there was.
  have hlength := congrArg (fun c : Cursor => c.rest.length) hagrees.cursor
  rw [Cursor.length_followedBy, List.length_cons, List.length_append] at hlength
  omega

/-! ## Rounds -/

/-- Each round passes a separator and then what its item passes. -/
theorem separatedFrom_passes (hp : p.Bounded) {m : Match (List α)}
    {r : Match (List α) × Option Failure} (h : separatedFrom p (literal t ()) m = .done r) :
    ∃ (segments : List (List Token)) (values : List α),
      m.cursor.rest = (segments.map (t :: ·)).flatten ++ r.1.cursor.rest ∧
        r.1.value = m.value ++ values ∧ List.Forall₂ p.Passes segments values := by
  fun_induction separatedFrom p (literal t ()) m with
  | case1 m hend => cases h
  | case2 m failure hfail =>
    obtain rfl := Outcome.done.inj h
    exact ⟨[], [], rfl, (List.append_nil _).symm, .nil⟩
  | case3 m between hbetween hend => cases h
  | case4 m between hbetween failure hfail =>
    obtain rfl := Outcome.done.inj h
    exact ⟨[], [], rfl, (List.append_nil _).symm, .nil⟩
  | case5 m between hbetween next hnext hless ih =>
    obtain ⟨tokens, htokens, rfl⟩ := literal_run_eq_done_iff.mp hbetween
    obtain ⟨passed, hpassed, hitem⟩ := hp.exists_passes hnext
    obtain ⟨segments, values, hrest, hvalue, hall⟩ := ih h
    have hnextRest : next.cursor.rest = (segments.map (t :: ·)).flatten ++ r.1.cursor.rest := hrest
    have htail : tokens = passed ++ next.cursor.rest := hpassed
    refine ⟨passed :: segments, next.value :: values, ?_, ?_, .cons hitem hall⟩
    · rw [htokens, htail, hnextRest, List.map_cons, List.flatten_cons, List.append_assoc,
        List.cons_append]
    · rw [hvalue]
      exact List.append_assoc m.value [next.value] values
  | case6 m between hbetween next hnext hmore => cases h

theorem intercalate_cons (t : Token) (segment : List Token) (segments : List (List Token)) :
    [t].intercalate (segment :: segments) = segment ++ (segments.map (t :: ·)).flatten := by
  induction segments generalizing segment with
  | nil => simp [List.intercalate]
  | cons next segments ih =>
    rw [List.intercalate_cons_cons, ih, List.map_cons, List.flatten_cons, List.append_assoc]
    rfl

/-- A separated repetition reads segments with separators between them. -/
theorem separated_parse_passes (hp : p.Bounded) {tokens : List Token} {values : List α}
    (h : (separated 1 p (literal t ())).parse tokens = .done values) :
    ∃ segments : List (List Token), segments ≠ [] ∧
      tokens = [t].intercalate segments ∧ List.Forall₂ p.Passes segments values := by
  obtain ⟨m, hm, hend, rfl⟩ := Parser.parse_eq_done_iff.mp h
  obtain ⟨first, r, hfirst, hr, rfl⟩ := separated_run_eq_done_iff.mp hm
  obtain ⟨segment, hstart, hitem⟩ := hp.exists_passes hfirst
  obtain ⟨segments, values, hrest, hvalue, hall⟩ := separatedFrom_passes hp hr
  have hnil : r.1.cursor.rest = [] := hend
  have hfirstRest : first.cursor.rest = (segments.map (t :: ·)).flatten := by
    rw [hnil, List.append_nil] at hrest
    exact hrest
  have htokens : tokens = segment ++ first.cursor.rest := hstart
  refine ⟨segment :: segments, by simp, ?_, ?_⟩
  · rw [htokens, hfirstRest, intercalate_cons]
  · rw [show (r.1.recovering r.2).value = first.value :: values from hvalue]
    exact .cons hitem hall

/-! ## Counting separators -/

theorem count_intercalate (t : Token) {segments : List (List Token)} (h : segments ≠ []) :
    ([t].intercalate segments).count t + 1 =
      segments.length + (segments.map (List.count t)).sum := by
  obtain ⟨segment, segments, rfl⟩ := List.exists_cons_of_ne_nil h
  rw [intercalate_cons, List.count_append]
  have htail : ((segments.map (t :: ·)).flatten).count t =
      segments.length + (segments.map (List.count t)).sum := by
    induction segments with
    | nil => rfl
    | cons next segments ih =>
      rw [List.map_cons, List.flatten_cons, List.count_append, List.count_cons_self, ih (by simp),
        List.map_cons, List.sum_cons, List.length_cons]
      omega
  rw [htail, List.map_cons, List.sum_cons, List.length_cons]
  omega

end Parser

open SimControl.Parser

namespace Action

variable {fs : FileSystem}

/-- A separator that an action has passed is the path of an entry of the kind it asks for. -/
theorem kind?_separator_of_passes {segment : List Token} {action : Action}
    (h : (Action.parser fs).Passes segment action) (hmem : separatorToken ∈ segment) :
    ∃ kind, action.operandKind? = some kind ∧ fs.kind? separatorToken = some kind := by
  obtain ⟨arm, harm, hpasses⟩ : ∃ arm ∈ arms fs, arm.parser.Passes segment action := by
    obtain ⟨c, m, hm, hrest, hvalue⟩ := h
    obtain ⟨p, hp, hrun⟩ := exists_mem_of_oneOf hm
    obtain ⟨arm, harm, rfl⟩ := List.mem_map.mp hp
    exact ⟨arm, harm, c, m, hrun, hrest, hvalue⟩
  obtain ⟨kind, hkind⟩ := exists_takesPaths harm
  have haction : action.operandKind? = kind := hkind.operandKind.of_passes hpasses
  by_contra hnone
  refine (hkind.closedBy fun k hk hsep => hnone ⟨k, ?_, hsep⟩).not_mem_of_passes hpasses hmem
  rw [haction]
  exact hk

/-- Where no action asks for what the separator names, the segments are free of separators. -/
theorem sum_count_separator {segments : List (List Token)} {actions : List Action}
    (hall : List.Forall₂ (Action.parser fs).Passes segments actions)
    (hkinds : ∀ action ∈ actions, ∀ kind ∈ action.operandKind?,
      fs.kind? separatorToken ≠ some kind) :
    (segments.map (List.count separatorToken)).sum = 0 := by
  induction hall with
  | nil => rfl
  | @cons segment action segments actions hpasses _ ih =>
    have hfree : separatorToken ∉ segment := by
      intro hmem
      obtain ⟨kind, hkind, hsep⟩ := kind?_separator_of_passes hpasses hmem
      exact hkinds action List.mem_cons_self kind hkind hsep
    rw [List.map_cons, List.sum_cons, List.count_eq_zero.mpr hfree, Nat.zero_add]
    exact ih fun action haction => hkinds action (List.mem_cons_of_mem _ haction)

/-- The tokens of a list of actions are the segments that the actions pass, with a separator
between any two.  An action passes a further separator only as a path, of an entry of the kind
that the action asks for.  So there is one action more than there are separators, unless one of
the actions asks for what the file system has at the separator. -/
theorem listParser_parse_separators (tokens : List Token) (actions : List Action)
    (h : (listParser fs).parse tokens = .done actions) :
    (∃ segments : List (List Token),
      tokens = [separatorToken].intercalate segments ∧
        List.Forall₂ (fun segment action => (Action.parser fs).Passes segment action ∧
          (separatorToken ∈ segment → ∃ kind, action.operandKind? = some kind ∧
            fs.kind? separatorToken = some kind)) segments actions ∧
        tokens.count separatorToken + 1 =
          actions.length + (segments.map (List.count separatorToken)).sum) ∧
      ((∀ action ∈ actions, ∀ kind ∈ action.operandKind?, fs.kind? separatorToken ≠ some kind) →
        actions.length = tokens.count separatorToken + 1) := by
  obtain ⟨segments, hsome, rfl, hall⟩ := separated_parse_passes (parser_composed fs).bounded h
  have hcount := count_intercalate separatorToken hsome
  rw [hall.length_eq] at hcount
  refine ⟨⟨segments, rfl, ?_, hcount⟩, fun hkinds => ?_⟩
  · exact hall.imp fun segment action hpasses => ⟨hpasses, kind?_separator_of_passes hpasses⟩
  · have hzero := sum_count_separator hall hkinds
    omega

theorem listParser_parse_separators_list :
    (listParser FileTree.empty.view).parse ["list", separatorToken, "erase"] =
        .done [list, erase] ∧
      ([list, erase] : List Action).length =
        ["list", separatorToken, "erase"].count separatorToken + 1 := by
  have h : (listParser FileTree.empty.view).parse ["list", separatorToken, "erase"] =
      .done [list, erase] := by decide +kernel
  refine ⟨h, (listParser_parse_separators _ _ h).2 fun action haction kind hkind => ?_⟩
  simp only [List.mem_cons, List.not_mem_nil, or_false] at haction
  rcases haction with rfl | rfl
  · exact nomatch hkind
  · exact nomatch hkind

/-- In a directory that has a file with the name of the separator, an upload takes the separator
and the verb behind it for paths. -/
theorem listParser_parse_separator_path :
    (listParser (((FileTree.empty.addFile "a" .empty).addFile "--" .empty).addFile "list"
        .empty).view).parse ["upload", "a", separatorToken, "list"] =
        .done [upload ["a", separatorToken, "list"]] ∧
      [upload ["a", separatorToken, "list"]].length ≠
        ["upload", "a", separatorToken, "list"].count separatorToken + 1 :=
  ⟨by decide +kernel, by decide⟩

end Action
end SimControl
