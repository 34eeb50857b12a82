/-
The sections of a command line.

A section is a part of the grammar whose tokens can be recognised by the first of them.
What it reads in front of other tokens it reads alone as well, and what it reads alone it
reads in front of any token that cannot begin it.  Configuration, query and format are
sections, no token begins two of them or an action, and so a command line is read exactly
if it can be cut into parts that are read each on its own.
-/
import SimControl.Proofs.Alike
import SimControl.Proofs.Groups
import SimControl.Proofs.Preferred
import SimControl.Reading

namespace SimControl
namespace Parser

variable {α β γ : Type}

/-- What is read alone is read in front of tokens that do not begin with one of `starts`, and what
is read in front of others is read alone. -/
structure Section (p : Parser α) (starts : Token → Prop) : Prop where
  sound {c : Cursor} {m : Match α} : p.run c = .done m →
    ∃ own, c.rest = own ++ m.cursor.rest ∧ p.parse own = .done m.value
  complete {own : List Token} {value : α} : p.parse own = .done value →
    ∀ {position : Nat} {rest : List Token}, (∀ t ∈ rest.head?, ¬ starts t) →
      ∃ m, p.run ⟨position, own ++ rest⟩ = .done m ∧ m.cursor.rest = rest ∧ m.value = value
  head {own : List Token} {value : α} : p.parse own = .done value → ∀ t ∈ own.head?, starts t

theorem NeedsToken.parse_nil_ne {p : Parser α} (hp : p.NeedsToken) (value : α) :
    p.parse [] ≠ .done value := by
  intro h
  obtain ⟨m, hm, _⟩ := Parser.parse_eq_done_iff.mp h
  obtain ⟨f, hf⟩ := hp 0
  have hm' : p.run ⟨0, []⟩ = .done m := hm
  rw [hf] at hm'
  cases hm'

/-! ## Repetitions -/

theorem Reads.head?_mem {p : Parser α} {starts : Token → Prop} (hp : p.HeadedBy starts)
    {group : List Token} {value : α} (h : p.Reads group value) :
    ∀ t ∈ group.head?, starts t := by
  intro t ht
  have hhead : (Cursor.mk 0 (group ++ [])).rest.head? = some t := by
    rw [List.append_nil]
    exact ht
  exact hp.of_done (h 0 []) hhead

theorem Groups.head?_mem {p : Parser α} {starts : Token → Prop} (hp : p.HeadedBy starts)
    {own : List Token} {values : List α} (h : p.Groups own values) :
    ∀ t ∈ own.head?, starts t := by
  cases h with
  | nil => simp
  | cons hsome hread _ =>
    obtain ⟨token, more, rfl⟩ := List.exists_cons_of_ne_nil hsome
    exact hread.head?_mem hp

theorem Groups.eq_nil {p : Parser α} {own : List Token} {values : List α}
    (h : p.Groups own values) (hown : own = []) : values = [] := by
  cases h with
  | nil => rfl
  | cons hsome _ _ => exact absurd (List.append_eq_nil_iff.mp hown).1 hsome

theorem Collects.section {p : Parser β} {q : Parser α} {minimum : Nat} {f : List α → β}
    {starts : Token → Prop} (h : p.Collects q minimum f) (hq : q.Plain) (hs : q.Steady)
    (hheads : q.HeadedBy starts) : p.Section starts where
  sound {c m} hrun := by
    obtain ⟨own, values, hrest, hgroups, hmany, hvalue⟩ := h.sound hrun
    exact ⟨own, hrest, (h.parse_eq_done_iff hq hs).mpr ⟨values, hgroups, hmany, hvalue⟩⟩
  complete {own value} hparse position rest hrest := by
    obtain ⟨values, hgroups, hmany, rfl⟩ := (h.parse_eq_done_iff hq hs).mp hparse
    refine h.complete hgroups hmany ?_
    cases rest with
    | nil => exact hq.needsToken hs _
    | cons t rest =>
      obtain ⟨problem, hfails⟩ := hheads t (hrest t rfl) ⟨_, t :: rest⟩ rfl
      exact ⟨_, hfails⟩
  head {own value} hparse := by
    obtain ⟨values, hgroups, _⟩ := (h.parse_eq_done_iff hq hs).mp hparse
    exact hgroups.head?_mem hheads

theorem Collects.needsToken {p : Parser β} {q : Parser α} {minimum : Nat} {f : List α → β}
    (h : p.Collects q (minimum + 1) f) (hp : p.Steady) : p.NeedsToken := by
  intro position
  cases hrun : p.run ⟨position, []⟩ with
  | failed failure => exact ⟨failure, rfl⟩
  | endless => exact absurd hrun (hp.ends _)
  | done m =>
    obtain ⟨own, values, hrest, hgroups, hmany, _⟩ := h.sound hrun
    have hown : own = [] := (List.append_eq_nil_iff.mp hrest.symm).1
    rw [hgroups.eq_nil hown] at hmany
    cases hmany

/-! ## Sections that may be missing -/

namespace Section

variable {p : Parser α} {starts : Token → Prop}

theorem described (h : p.Section starts) (description : String) :
    (p.described description).Section starts := ⟨h.sound, h.complete, h.head⟩

theorem mono (h : p.Section starts) {starts' : Token → Prop} (hstarts : ∀ t, starts t → starts' t) :
    p.Section starts' where
  sound := h.sound
  complete hparse _ _ hrest := h.complete hparse fun t ht ht' => hrest t ht (hstarts t ht')
  head hparse t ht := hstarts t (h.head hparse t ht)

/-- There is one way to cut off a section from what cannot begin it. -/
theorem cut (h : p.Section starts) {own own' rest rest' : List Token} {a b : α}
    (ha : p.parse own = .done a) (hb : p.parse own' = .done b)
    (hrest : ∀ t ∈ rest.head?, ¬ starts t) (hrest' : ∀ t ∈ rest'.head?, ¬ starts t)
    (htokens : own ++ rest = own' ++ rest') : own = own' ∧ rest = rest' := by
  obtain ⟨m, hm, hend, _⟩ : ∃ m, p.run (.start (own ++ rest)) = .done m ∧
    m.cursor.rest = rest ∧ m.value = a := h.complete ha hrest
  obtain ⟨n, hn, hend', _⟩ : ∃ n, p.run (.start (own' ++ rest')) = .done n ∧
    n.cursor.rest = rest' ∧ n.value = b := h.complete hb hrest'
  rw [htokens, hn] at hm
  obtain rfl := Outcome.done.inj hm
  obtain rfl := hend.symm.trans hend'
  exact ⟨List.append_cancel_right htokens, rfl⟩

/-- A section is not read from a token that cannot begin it. -/
theorem run_ne_done (h : p.Section starts) (hp : p.NeedsToken) {c : Cursor} {t : Token}
    (ht : c.rest.head? = some t) (hstarts : ¬ starts t) (m : Match α) : p.run c ≠ .done m := by
  intro hm
  obtain ⟨own, hrest, hparse⟩ := h.sound hm
  cases own with
  | nil => exact hp.parse_nil_ne _ hparse
  | cons token own =>
    rw [hrest] at ht
    obtain rfl := Option.some.inj ht
    exact hstarts (h.head hparse token rfl)

/-- Where a section cannot begin, it is not there. -/
theorem exists_failed (h : p.Section starts) (hp : p.NeedsToken) (hs : p.Steady) {position : Nat}
    {rest : List Token} (hrest : ∀ t ∈ rest.head?, ¬ starts t) :
    ∃ f, p.run ⟨position, rest⟩ = .failed f := by
  cases rest with
  | nil => exact hp position
  | cons token rest =>
    cases hrun : p.run ⟨position, token :: rest⟩ with
    | failed f => exact ⟨f, rfl⟩
    | endless => exact absurd hrun (hs.ends _)
    | done m => exact absurd hrun (h.run_ne_done hp rfl (hrest token rfl) m)

end Section

theorem optional_run_eq_done_iff {p : Parser α} {c : Cursor} {m : Match (Option α)} :
    p.optional.run c = .done m ↔
      (∃ n, p.run c = .done n ∧ m = n.map some) ∨
        ∃ f, p.run c = .failed f ∧ m = ⟨none, c, some f⟩ := by
  simp only [optional, withDefault, Parser.map]
  cases p.run c with
  | done n => simp [eq_comm]
  | failed f => simp [eq_comm]
  | endless => simp

/-- What is not there is read from no tokens. -/
theorem cursor_eq_of_optional {p : Parser α} {c : Cursor} {m : Match (Option α)}
    (h : p.optional.run c = .done m) (hm : m.value = none) : m.cursor = c := by
  rcases optional_run_eq_done_iff.mp h with ⟨n, _, rfl⟩ | ⟨f, _, rfl⟩
  · cases hm
  · rfl

/-- An optional section is not there, or is read. -/
theorem NeedsToken.optional_parse_eq_done_iff {p : Parser α} (hp : p.NeedsToken)
    {tokens : List Token} {value : Option α} :
    p.optional.parse tokens = .done value ↔
      tokens = [] ∧ value = none ∨ ∃ a, p.parse tokens = .done a ∧ value = some a := by
  simp only [Parser.parse_eq_done_iff, optional_run_eq_done_iff]
  constructor
  · rintro ⟨m, ⟨n, hn, rfl⟩ | ⟨f, hf, rfl⟩, hrest, rfl⟩
    · exact .inr ⟨n.value, ⟨n, hn, hrest, rfl⟩, rfl⟩
    · exact .inl ⟨hrest, rfl⟩
  · rintro (⟨rfl, rfl⟩ | ⟨_, ⟨n, hn, hrest, rfl⟩, rfl⟩)
    · obtain ⟨f, hf⟩ := hp 0
      exact ⟨_, .inr ⟨f, hf, rfl⟩, rfl, rfl⟩
    · exact ⟨_, .inl ⟨n, hn, rfl⟩, hrest, rfl⟩

theorem Section.optional {p : Parser α} {starts : Token → Prop} (h : p.Section starts)
    (hp : p.NeedsToken) (hs : p.Steady) : p.optional.Section starts where
  sound {c m} hrun := by
    rcases optional_run_eq_done_iff.mp hrun with ⟨n, hn, rfl⟩ | ⟨f, hf, rfl⟩
    · obtain ⟨own, hrest, hparse⟩ := h.sound hn
      exact ⟨own, hrest, hp.optional_parse_eq_done_iff.mpr (.inr ⟨n.value, hparse, rfl⟩)⟩
    · exact ⟨[], rfl, hp.optional_parse_eq_done_iff.mpr (.inl ⟨rfl, rfl⟩)⟩
  complete {own value} hparse position rest hrest := by
    rcases hp.optional_parse_eq_done_iff.mp hparse with ⟨rfl, rfl⟩ | ⟨a, ha, rfl⟩
    · obtain ⟨f, hf⟩ := h.exists_failed hp hs hrest
      exact ⟨_, optional_run_eq_done_iff.mpr (.inr ⟨f, hf, rfl⟩), rfl, rfl⟩
    · obtain ⟨m, hm, hend, rfl⟩ := h.complete ha hrest
      exact ⟨_, optional_run_eq_done_iff.mpr (.inl ⟨m, hm, rfl⟩), hend, rfl⟩
  head {own value} hparse := by
    rcases hp.optional_parse_eq_done_iff.mp hparse with ⟨rfl, rfl⟩ | ⟨a, ha, rfl⟩
    · simp
    · exact h.head ha

/-! ## A word instead of a section -/

theorem oneOf_two_run_eq_done_iff {p q : Parser α} {c : Cursor} {m : Match α} :
    (oneOf [p, q]).run c = .done m ↔
      p.run c = .done m ∨ (∃ f, p.run c = .failed f) ∧ q.run c = .done m := by
  rw [oneOf_two_run]
  exact Outcome.orElse_eq_iff nofun

/-- A choice between a word and `p` reads the word alone, and what `p` reads unless it
begins with the word. -/
theorem oneOf_literal_parse_eq_done_iff {word : Token} {a value : α} {p : Parser α}
    {tokens : List Token} :
    (oneOf [literal word a, p]).parse tokens = .done value ↔
      tokens = [word] ∧ value = a ∨ tokens.head? ≠ some word ∧ p.parse tokens = .done value := by
  simp only [Parser.parse_eq_done_iff, oneOf_two_run_eq_done_iff, literal_run_eq_done_iff,
    literal_run_eq_failed_iff]
  constructor
  · rintro ⟨m, ⟨rest, hrest, rfl⟩ | ⟨hhead, hm⟩, hend, rfl⟩
    · have hnil : rest = [] := hend
      exact .inl ⟨by rw [← hnil]; exact hrest, rfl⟩
    · exact .inr ⟨hhead, m, hm, hend, rfl⟩
  · rintro (⟨rfl, rfl⟩ | ⟨hhead, m, hm, hend, rfl⟩)
    · exact ⟨_, .inl ⟨[], rfl, rfl⟩, rfl, rfl⟩
    · exact ⟨m, .inr ⟨hhead, hm⟩, hend, rfl⟩

theorem Section.oneOf_literal {p : Parser α} {starts : Token → Prop} (h : p.Section starts)
    (hp : p.NeedsToken) (word : Token) (a : α) :
    (oneOf [literal word a, p]).Section fun t => t = word ∨ starts t where
  sound {c m} hrun := by
    rcases oneOf_two_run_eq_done_iff.mp hrun with hm | ⟨hfailed, hm⟩
    · obtain ⟨rest, hrest, rfl⟩ := literal_run_eq_done_iff.mp hm
      exact ⟨[word], hrest, oneOf_literal_parse_eq_done_iff.mpr (.inl ⟨rfl, rfl⟩)⟩
    · obtain ⟨own, hrest, hparse⟩ := h.sound hm
      refine ⟨own, hrest, oneOf_literal_parse_eq_done_iff.mpr (.inr ⟨?_, hparse⟩)⟩
      have hhead := literal_run_eq_failed_iff.mp hfailed
      rw [hrest] at hhead
      cases own with
      | nil => simp
      | cons token own => exact hhead
  complete {own value} hparse position rest hrest := by
    rcases oneOf_literal_parse_eq_done_iff.mp hparse with ⟨rfl, hvalue⟩ | ⟨hhead, hvalue⟩
    · refine ⟨⟨a, ⟨position + 1, rest⟩, none⟩, ?_, rfl, hvalue.symm⟩
      exact oneOf_two_run_eq_done_iff.mpr (.inl (literal_run_eq_done_iff.mpr ⟨rest, rfl, rfl⟩))
    · obtain ⟨m, hm, hend, rfl⟩ := h.complete hvalue fun t ht hstarts => hrest t ht (.inr hstarts)
      refine ⟨m, oneOf_two_run_eq_done_iff.mpr (.inr ⟨?_, hm⟩), hend, rfl⟩
      refine literal_run_eq_failed_iff.mpr ?_
      cases own with
      | nil => exact absurd hvalue (hp.parse_nil_ne _)
      | cons token own => exact hhead
  head {own value} hparse := by
    rcases oneOf_literal_parse_eq_done_iff.mp hparse with ⟨rfl, rfl⟩ | ⟨hhead, hvalue⟩
    · simp
    · exact fun t ht => .inr (h.head hvalue t ht)

end Parser
end SimControl
