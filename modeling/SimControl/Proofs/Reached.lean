/-
The actions that a command line is read up to.

What a separated repetition reads are items, each but the last in front of a separator.  Once
some of them are read, it goes on with the tokens behind them as with a list of their own.

A command line is read up to an action if its first sections are read, and the actions in
front of it are read one after another.  The command depends on the tokens from there on
only by the actions that they are read as.  That the line is read up to there depends on no
more than the first of these tokens.
-/
import SimControl.Proofs.Nearby

namespace SimControl
namespace Parser

variable {α : Type} {t : Token} {p : Parser α}

/-! ## Items -/

/-- The tokens are items with separators between them. -/
inductive Items (p : Parser α) (t : Token) : List Token → List α → Prop
  | last {tokens : List Token} {m : Match α} (hm : p.run (.start tokens) = .done m)
      (hend : m.cursor.rest = []) : Items p t tokens [m.value]
  | cons {tokens rest : List Token} {m : Match α} {values : List α}
      (hm : p.run (.start tokens) = .done m) (hrest : m.cursor.rest = t :: rest)
      (hmore : Items p t rest values) : Items p t tokens (m.value :: values)

/-- An item is the last one, or in front of a separator and more items. -/
theorem readsAll_iff_next (hp : p.Composed) {m : Match (List α)} {c : Cursor} {values : List α} :
    p.ReadsAll t m c values ↔
      ∃ next, p.run c = .done next ∧
        (next.cursor.rest = [] ∧ values = m.value ++ [next.value] ∨
          ∃ rest, next.cursor.rest = t :: rest ∧
            p.ReadsAll t (m.push next) ⟨next.cursor.position + 1, rest⟩ values) := by
  constructor
  · rintro ⟨next, r, hnext, hr, hend, rfl⟩
    refine ⟨next, hnext, ?_⟩
    by_cases hhead : (m.push next).cursor.rest.head? = some t
    · obtain ⟨rest, hrest⟩ := List.head?_eq_some_iff.mp hhead
      obtain ⟨item, hitem, hr⟩ := (separatedFrom_eq_done_iff_of_separator hp hrest hend).mp hr
      exact .inr ⟨rest, hrest, item, r, hitem, hr, hend, rfl⟩
    · rw [separatedFrom_of_head?_ne hhead] at hr
      obtain rfl := Outcome.done.inj hr
      exact .inl ⟨hend, rfl⟩
  · rintro ⟨next, hnext, ⟨hend, rfl⟩ | ⟨rest, hrest, item, r, hitem, hr, hend, hvalues⟩⟩
    · have hhead : (m.push next).cursor.rest.head? ≠ some t := by
        show next.cursor.rest.head? ≠ some t
        rw [hend]
        exact Option.some_ne_none t |>.symm
      exact ⟨next, _, hnext, separatedFrom_of_head?_ne hhead, hend, rfl⟩
    · have hr' := (separatedFrom_eq_done_iff_of_separator hp (m := m.push next) hrest hend).mpr
        ⟨item, hitem, hr⟩
      exact ⟨next, r, hnext, hr', hend, hvalues⟩

theorem ReadsAll.items (hp : p.Composed) {tokens : List Token} {m : Match (List α)}
    {position : Nat} {values : List α} (h : p.ReadsAll t m ⟨position, tokens⟩ values) :
    ∃ more, values = m.value ++ more ∧ p.Items t tokens more := by
  obtain ⟨next, hnext, hcases⟩ := (readsAll_iff_next hp).mp h
  obtain ⟨first, hfirst, hvalue, hrest⟩ := hp.done_of_rest
    (c := ⟨position, tokens⟩) (d := .start tokens) rfl hnext
  rw [← hrest, ← hvalue] at hcases
  rcases hcases with ⟨hend, rfl⟩ | ⟨rest, hseparator, hreads⟩
  · exact ⟨[first.value], rfl, .last hfirst hend⟩
  · have hless : rest.length < tokens.length := by
      obtain ⟨passed, hpassed, _⟩ := (hp.bounded.done hfirst).leads
      have htokens : tokens = passed ++ first.cursor.rest := hpassed
      rw [htokens, hseparator, List.length_append, List.length_cons]
      omega
    obtain ⟨more, rfl, hmore⟩ := hreads.items hp
    refine ⟨first.value :: more, ?_, .cons hfirst hseparator hmore⟩
    show (m.value ++ [next.value]) ++ more = m.value ++ first.value :: more
    rw [hvalue, List.append_assoc, List.singleton_append]
termination_by tokens.length

theorem Items.readsAll (hp : p.Composed) {tokens : List Token} {values : List α}
    (h : p.Items t tokens values) (m : Match (List α)) (position : Nat) :
    p.ReadsAll t m ⟨position, tokens⟩ (m.value ++ values) := by
  induction h generalizing m position with
  | @last tokens first hfirst hend =>
    obtain ⟨next, hnext, hvalue, hrest⟩ := hp.done_of_rest
      (c := .start tokens) (d := ⟨position, tokens⟩) rfl hfirst
    refine (readsAll_iff_next hp).mpr ⟨next, hnext, .inl ⟨hrest.trans hend, ?_⟩⟩
    rw [hvalue]
  | @cons tokens rest first values hfirst hseparator hmore ih =>
    obtain ⟨next, hnext, hvalue, hrest⟩ := hp.done_of_rest
      (c := .start tokens) (d := ⟨position, tokens⟩) rfl hfirst
    have hvalues : m.value ++ first.value :: values = (m.push next).value ++ values := by
      show m.value ++ first.value :: values = (m.value ++ [next.value]) ++ values
      rw [hvalue, List.append_assoc, List.singleton_append]
    rw [hvalues]
    exact (readsAll_iff_next hp).mpr
      ⟨next, hnext, .inr ⟨rest, hrest.trans hseparator, ih (m.push next) _⟩⟩

theorem separated_parse_eq_done_iff_items (hp : p.Composed) {tokens : List Token}
    {values : List α} :
    (separated 1 p (literal t ())).parse tokens = .done values ↔ p.Items t tokens values := by
  rw [separated_parse_iff_readsAll]
  constructor
  · intro h
    obtain ⟨_, rfl, hitems⟩ := h.items hp
    exact hitems
  · exact fun h => h.readsAll hp ⟨[], .start tokens, none⟩ 0

/-- The items depend on the tokens by the first item and what is left behind it. -/
theorem Items.of_run {tokens tokens' : List Token} {values : List α} (h : p.Items t tokens values)
    {m n : Match α} (hm : p.run (.start tokens) = .done m)
    (hn : p.run (.start tokens') = .done n) (hvalue : n.value = m.value)
    (hrest : n.cursor.rest = m.cursor.rest) : p.Items t tokens' values := by
  cases h with
  | last hfirst hend =>
    rw [hm] at hfirst
    obtain rfl := Outcome.done.inj hfirst
    rw [← hvalue]
    exact .last hn (hrest.trans hend)
  | cons hfirst hseparator hmore =>
    rw [hm] at hfirst
    obtain rfl := Outcome.done.inj hfirst
    rw [← hvalue]
    exact .cons hn (hrest.trans hseparator) hmore

/-! ## Items before others -/

/-- The tokens begin with items, each in front of a separator, and go on with `rest`. -/
inductive Precede (p : Parser α) (t : Token) : List Token → List α → List Token → Prop
  | nil (rest : List Token) : Precede p t rest [] rest
  | cons {tokens behind rest : List Token} {m : Match α} {values : List α}
      (hm : p.run (.start tokens) = .done m) (hbehind : m.cursor.rest = t :: behind)
      (hmore : Precede p t behind values rest) : Precede p t tokens (m.value :: values) rest

theorem Precede.items {tokens rest : List Token} {before values : List α}
    (h : p.Precede t tokens before rest) (hrest : p.Items t rest values) :
    p.Items t tokens (before ++ values) := by
  induction h with
  | nil rest => exact hrest
  | cons hm hbehind _ ih => exact .cons hm hbehind (ih hrest)

/-- Items that precede others are the first of all items. -/
theorem Precede.of_items {tokens rest : List Token} {before values : List α}
    (h : p.Precede t tokens before rest) (hitems : p.Items t tokens values) :
    ∃ more, values = before ++ more ∧ p.Items t rest more := by
  induction h generalizing values with
  | nil rest => exact ⟨values, rfl, hitems⟩
  | @cons tokens behind rest m before hm hbehind _ ih =>
    cases hitems with
    | last hfirst hend =>
      rw [hm] at hfirst
      obtain rfl := Outcome.done.inj hfirst
      rw [hbehind] at hend
      cases hend
    | cons hfirst hseparator hmore =>
      rw [hm] at hfirst
      obtain rfl := Outcome.done.inj hfirst
      rw [hbehind] at hseparator
      obtain rfl := (List.cons.inj hseparator).2
      obtain ⟨more, rfl, hrest⟩ := ih hmore
      exact ⟨more, rfl, hrest⟩

/-- Any of the items is preceded by those before it. -/
theorem Items.precede {tokens : List Token} {before after : List α} {value : α}
    (h : p.Items t tokens (before ++ value :: after)) :
    ∃ rest m, p.Precede t tokens before rest ∧ p.run (.start rest) = .done m ∧
      m.value = value := by
  induction before generalizing tokens with
  | nil =>
    cases h with
    | last hm _ => exact ⟨tokens, _, .nil tokens, hm, rfl⟩
    | cons hm _ _ => exact ⟨tokens, _, .nil tokens, hm, rfl⟩
  | cons first before ih =>
    generalize hvalues : (first :: before) ++ value :: after = values at h
    cases h with
    | last hm hend => simp at hvalues
    | cons hm hrest hmore =>
      obtain ⟨rfl, rfl⟩ := List.cons.inj hvalues
      obtain ⟨rest, m, hprecede, hrun, hvalue⟩ := ih hmore
      exact ⟨rest, m, .cons hm hrest hprecede, hrun, hvalue⟩

end Parser

open SimControl.Parser

variable {fs : FileSystem}

/-! ## Actions -/

/-- Actions that precede others are the same whatever stands behind the first token of
these. -/
theorem Action.precede_cons {tokens : List Token} {actions : List Action} {verb : Token}
    {tail : List Token}
    (h : (Action.parser fs).Precede separatorToken tokens actions (verb :: tail)) :
    ∃ own, tokens = own ++ verb :: tail ∧ ∀ tail',
      (Action.parser fs).Precede separatorToken (own ++ verb :: tail') actions (verb :: tail') := by
  generalize hrest : verb :: tail = rest at h
  induction h with
  | nil rest => exact ⟨[], rfl, fun tail' => .nil _⟩
  | @cons tokens behind rest m actions hm hbehind _ ih =>
    obtain ⟨own, rfl, hown⟩ := ih hrest
    obtain ⟨passed, hpassed, _⟩ := ((parser_composed fs).bounded.done hm).leads
    have htokens : tokens = passed ++ separatorToken :: (own ++ rest) := by
      rw [← hbehind]
      exact hpassed
    subst hrest
    refine ⟨passed ++ separatorToken :: own, ?_, fun tail' => ?_⟩
    · rw [htokens, List.append_assoc, List.cons_append]
    -- The token behind the separator is the same.
    obtain ⟨next, left, hleft⟩ : ∃ (next : Token) (left : List Token → List Token),
        ∀ tail, own ++ verb :: tail = next :: left tail := by
      cases own with
      | nil => exact ⟨verb, id, fun _ => rfl⟩
      | cons token own => exact ⟨token, fun tail => own ++ verb :: tail, fun _ => rfl⟩
    rw [htokens, hleft] at hm
    rw [hleft] at hbehind
    obtain ⟨n, hn, hvalue, hnrest⟩ := run_before_separator fs hm hbehind (left tail')
    rw [← hleft] at hn hnrest
    rw [List.append_assoc, List.cons_append, ← hvalue]
    exact .cons hn hnrest (hown tail')

/-! ## Command lines -/

variable (fs) in
/-- The tokens are read up to an action, which begins `rest`; `command` is what was read
before. -/
def Command.Reaches (tokens : List Token) (command : Command) (rest : List Token) : Prop :=
  ∃ s : Sections, s.tokens = tokens ∧ s.Header fs command ∧
    (Action.parser fs).Precede separatorToken s.actions command.actions rest

namespace Command

/-- A command is read if its header is, and its actions are the items of the rest. -/
theorem parse_eq_done_iff_items {s : Sections} {command result : Command}
    (h : s.Header fs command) :
    (Command.parser fs).parse s.tokens = .done result ↔
      ∃ actions, (Action.parser fs).Items separatorToken s.actions actions ∧
        result = { command with actions := actions } := by
  have hitems {tokens : List Token} {actions : List Action} :
      (Action.listParser fs).parse tokens = .done actions ↔
        (Action.parser fs).Items separatorToken tokens actions :=
    separated_parse_eq_done_iff_items (Action.parser_composed fs)
  rw [Command.parse_eq_done_iff]
  constructor
  · rintro ⟨s', htokens, hs'⟩
    obtain rfl := hs'.header.unique h htokens
    exact ⟨result.actions, hitems.mp hs'.actions, h.eq hs'.header⟩
  · rintro ⟨actions, hactions, rfl⟩
    exact ⟨s, rfl, h.spell (hitems.mpr hactions)⟩

/-- Behind the actions in front of `rest`, a command has the actions of `rest`. -/
theorem Reaches.parse_eq_done_iff {tokens rest : List Token} {command result : Command}
    (h : Reaches fs tokens command rest) :
    (Command.parser fs).parse tokens = .done result ↔
      ∃ more, (Action.parser fs).Items separatorToken rest more ∧
        result = { command with actions := command.actions ++ more } := by
  obtain ⟨s, rfl, hheader, hprecede⟩ := h
  rw [parse_eq_done_iff_items hheader]
  constructor
  · rintro ⟨_, hitems, rfl⟩
    obtain ⟨more, rfl, hmore⟩ := hprecede.of_items hitems
    exact ⟨more, hmore, rfl⟩
  · rintro ⟨more, hmore, rfl⟩
    exact ⟨_, hprecede.items hmore, rfl⟩

/-- A command line is read up to each of its actions. -/
theorem exists_reaches {tokens : List Token} {command : Command}
    (h : (Command.parser fs).parse tokens = .done command) {before after : List Action}
    {action : Action} (hactions : command.actions = before ++ action :: after) :
    ∃ rest m, Reaches fs tokens { command with actions := before } rest ∧
      (Action.parser fs).run (.start rest) = .done m ∧ m.value = action := by
  obtain ⟨s, rfl, hs⟩ := Command.parse_eq_done_iff fs |>.mp h
  have hitems := (separated_parse_eq_done_iff_items (Action.parser_composed fs)).mp hs.actions
  rw [hactions] at hitems
  obtain ⟨rest, m, hprecede, hm, hvalue⟩ := hitems.precede
  have hheader : s.Header fs { command with actions := before } :=
    ⟨hs.header.configuration, hs.header.query, hs.header.format, hs.header.actions⟩
  exact ⟨rest, m, ⟨s, rfl, hheader, hprecede⟩, hm, hvalue⟩

/-- How far a command line is read does not depend on what stands behind the first token of the
action it is read up to. -/
theorem Reaches.cons {before tail : List Token} {verb : Token} {command : Command}
    (h : Reaches fs (before ++ verb :: tail) command (verb :: tail)) (tail' : List Token) :
    Reaches fs (before ++ verb :: tail') command (verb :: tail') := by
  obtain ⟨s, htokens, hheader, hprecede⟩ := h
  obtain ⟨own, hown, hprecede⟩ := Action.precede_cons hprecede
  have hbefore : s.configuration ++ (s.query ++ (s.format ++ own)) = before := by
    rw [Sections.tokens, hown] at htokens
    simpa [← List.append_assoc] using htokens
  refine ⟨{ s with actions := own ++ verb :: tail' }, ?_, ?_, hprecede tail'⟩
  · rw [← hbefore]
    simp only [Sections.tokens, List.append_assoc]
  · refine ⟨hheader.configuration, hheader.query, hheader.format, fun t ht => ?_⟩
    refine hheader.actions t ?_
    rw [hown]
    rw [List.head?_append] at ht ⊢
    exact ht

end Command

end SimControl
