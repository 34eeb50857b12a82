/-
The tokens that a parser can begin with.

A parser refuses a token if it fails at every place where the token is next, and blames
that very token.  Two parsers exclude each other if every token is refused by one of them,
so that the next token tells which of them can match.  A parser needs a token if it fails at
the end of the tokens.
-/
import SimControl.Parser.Steady

namespace SimControl

theorem Cursor.eq_of_rest {c : Cursor} {tokens : List Token} (h : c.rest = tokens) :
    c = ⟨c.position, tokens⟩ := by
  rw [← h]

namespace Parser

variable {α β : Type} {t : Token}

/-- Wherever `t` is next, the parser fails and blames it. -/
def Refuses (p : Parser α) (t : Token) : Prop :=
  ∀ c : Cursor, c.rest.head? = some t → ∃ problem, p.run c = .failed ⟨problem, c.position⟩

/-- Every token outside of `starts` is refused. -/
def HeadedBy (p : Parser α) (starts : Token → Prop) : Prop := ∀ t, ¬ starts t → p.Refuses t

def NeedsToken (p : Parser α) : Prop := ∀ position, ∃ f, p.run ⟨position, []⟩ = .failed f

/-- No token can begin both. -/
def Excludes (p q : Parser α) : Prop := ∀ t, p.Refuses t ∨ q.Refuses t

/-! ## Choices -/

theorem exists_mem_of_attempt {branches : List (Parser α)} {c : Cursor} {m : Match α}
    {missed missed' : Option Failure} (h : attempt branches c missed = .hit m missed') :
    ∃ p ∈ branches, p.run c = .done m := by
  induction branches generalizing missed with
  | nil => cases h
  | cons p branches ih =>
    rw [attempt] at h
    cases hp : p.run c with
    | done n =>
      rw [hp] at h
      obtain ⟨rfl, _⟩ := Attempt.hit.inj h
      exact ⟨p, List.mem_cons_self, hp⟩
    | failed f =>
      rw [hp] at h
      obtain ⟨q, hq, hrun⟩ := ih h
      exact ⟨q, List.mem_cons_of_mem p hq, hrun⟩
    | endless =>
      rw [hp] at h
      cases h

theorem oneOf_run_eq_done_iff {branches : List (Parser α)} {c : Cursor} {m : Match α} :
    (oneOf branches).run c = .done m ↔ ∃ missed, attempt branches c none = .hit m missed := by
  simp only [oneOf]
  cases attempt branches c none with
  | hit n missed => simp
  | miss missed => cases missed <;> simp
  | endless => simp

theorem oneOf_run_eq_failed_iff {branches : List (Parser α)} {c : Cursor} :
    (∃ f, (oneOf branches).run c = .failed f) ↔
      ∃ missed, attempt branches c none = .miss missed := by
  simp only [oneOf]
  cases attempt branches c none with
  | hit n missed => simp
  | miss missed => cases missed <;> simp
  | endless => simp

theorem oneOf_run_eq_endless_iff {branches : List (Parser α)} {c : Cursor} :
    (oneOf branches).run c = .endless ↔ attempt branches c none = .endless := by
  simp only [oneOf]
  cases attempt branches c none with
  | hit m missed => simp
  | miss missed => cases missed <;> simp
  | endless => simp

theorem exists_mem_of_oneOf {branches : List (Parser α)} {c : Cursor} {m : Match α}
    (h : (oneOf branches).run c = .done m) : ∃ p ∈ branches, p.run c = .done m := by
  obtain ⟨missed, hhit⟩ := oneOf_run_eq_done_iff.mp h
  exact exists_mem_of_attempt hhit

/-- A choice whose branches match alike, or fail, and not all of which fail. -/
theorem oneOf_run_of_agree {branches : List (Parser α)} {c : Cursor} {m : Match α}
    (hagree : ∀ q ∈ branches, q.run c = .done m ∨ ∃ f, q.run c = .failed f)
    (hsome : ∃ q ∈ branches, q.run c = .done m) : (oneOf branches).run c = .done m := by
  refine oneOf_run_eq_done_iff.mpr ?_
  generalize (none : Option Failure) = missed
  induction branches generalizing missed with
  | nil =>
    obtain ⟨q, hq, _⟩ := hsome
    cases hq
  | cons p branches ih =>
    rw [attempt]
    rcases hagree p List.mem_cons_self with hp | ⟨f, hp⟩
    · rw [hp]
      exact ⟨missed, rfl⟩
    · rw [hp]
      refine ih (fun q hq => hagree q (List.mem_cons_of_mem p hq)) ?_ _
      obtain ⟨q, hq, hrun⟩ := hsome
      rcases List.mem_cons.mp hq with rfl | hq
      · rw [hp] at hrun
        cases hrun
      · exact ⟨q, hq, hrun⟩

/-! ## Literals -/

theorem literal_run_eq_done_iff {text : Token} {value : α} {c : Cursor} {m : Match α} :
    (literal text value).run c = .done m ↔
      ∃ rest, c.rest = text :: rest ∧ m = ⟨value, ⟨c.position + 1, rest⟩, none⟩ := by
  obtain ⟨position, tokens⟩ := c
  cases tokens with
  | nil => simp [literal, reading, single]
  | cons token tokens =>
    by_cases h : token = text
    · simp [literal, reading, single, h, eq_comm]
    · simp [literal, reading, single, h]

theorem exists_literal_run_eq_done_iff {text : Token} {value : α} {c : Cursor} :
    (∃ m, (literal text value).run c = .done m) ↔ c.rest.head? = some text := by
  simp only [literal_run_eq_done_iff, List.head?_eq_some_iff]
  constructor
  · rintro ⟨m, rest, hrest, _⟩
    exact ⟨rest, hrest⟩
  · rintro ⟨rest, hrest⟩
    exact ⟨_, rest, hrest, rfl⟩

theorem literal_run_of_peek_ne {text : Token} (value : α) {c : Cursor} (hc : c.peek ≠ some text) :
    (literal text value).run c =
      .failed ⟨.uninterpretable ("'" ++ text ++ "'") c.peek, c.position⟩ := by
  obtain ⟨position, tokens⟩ := c
  cases tokens with
  | nil => rfl
  | cons token tokens =>
    have hne : token ≠ text := fun heq => hc (congrArg some heq)
    simp [literal, reading, single, hne, Cursor.peek]

theorem keyword_run_of_peek_ne {text : Token} (p : Parser α) {c : Cursor}
    (hc : c.peek ≠ some text) : (keyword text p).run c =
      .failed ⟨.uninterpretable ("'" ++ text ++ "'") c.peek, c.position⟩ := by
  simp only [keyword, preceded, described_run, map, pair, literal_run_of_peek_ne () hc,
    Outcome.bind_failed, Outcome.map_failed]

theorem literal_run_eq_failed_iff {text : Token} {value : α} {c : Cursor} :
    (∃ f, (literal text value).run c = .failed f) ↔ c.rest.head? ≠ some text := by
  constructor
  · rintro ⟨f, hf⟩ hc
    obtain ⟨rest, hrest⟩ := List.head?_eq_some_iff.mp hc
    rw [literal_run_eq_done_iff.mpr ⟨rest, hrest, rfl⟩] at hf
    cases hf
  · exact fun hc => ⟨_, literal_run_of_peek_ne value hc⟩

/-! ## Refusing -/

theorem refuses_single {description : String} {read : Token → Except Problem α}
    (h : ∃ problem, read t = .error problem) : (single description read).Refuses t := by
  obtain ⟨problem, hread⟩ := h
  intro c hc
  obtain ⟨rest, hrest⟩ := List.head?_eq_some_iff.mp hc
  exact ⟨problem, by simp only [single, hrest, hread]⟩

theorem refuses_reading {description : String} {read : Token → Option α} (h : read t = none) :
    (reading description read).Refuses t :=
  refuses_single ⟨.uninterpretable description (some t), by rw [h]⟩

theorem refuses_literal {text : Token} (value : α) (h : t ≠ text) :
    (literal text value).Refuses t := refuses_reading (if_neg h)

theorem Refuses.described {p : Parser α} (hp : p.Refuses t) (description : String) :
    (p.described description).Refuses t := hp

theorem Refuses.map {p : Parser α} (hp : p.Refuses t) (f : α → β) : (p.map f).Refuses t := by
  intro c hc
  obtain ⟨problem, h⟩ := hp c hc
  exact ⟨problem, by simp only [Parser.map, h, Outcome.map_failed]⟩

theorem Refuses.pair {p : Parser α} (hp : p.Refuses t) (q : Parser β) :
    (p.pair q).Refuses t := by
  intro c hc
  obtain ⟨problem, h⟩ := hp c hc
  exact ⟨problem, by simp only [Parser.pair, h, Outcome.bind_failed]⟩

theorem refuses_keyword {text : Token} (h : t ≠ text) (p : Parser α) :
    (keyword text p).Refuses t :=
  (((refuses_literal () h).pair p).map Prod.snd).described _

/-- A pass over parts that refuse the next token misses, and blames that token. -/
theorem attempt_of_refuses {parts : List (Parser α)} (hp : ∀ p ∈ parts, p.Refuses t)
    {c : Cursor} (hc : c.rest.head? = some t) {missed : Option Failure}
    (hmissed : ∀ f ∈ missed, f.offset = c.position) :
    ∃ missed', attempt parts c missed = .miss missed' ∧ ∀ f ∈ missed', f.offset = c.position := by
  induction parts generalizing missed with
  | nil => exact ⟨missed, rfl, hmissed⟩
  | cons p parts ih =>
    obtain ⟨problem, h⟩ := hp p List.mem_cons_self c hc
    rw [attempt, h]
    refine ih (fun q hq => hp q (List.mem_cons_of_mem p hq)) fun f hf => ?_
    cases missed with
    | none =>
      obtain rfl := Option.some.inj hf
      rfl
    | some g =>
      obtain rfl := Option.some.inj hf
      rw [Failure.offset_furthest, hmissed g rfl]
      exact Nat.max_self _

theorem refuses_oneOf {branches : List (Parser α)} (hp : ∀ p ∈ branches, p.Refuses t) :
    (oneOf branches).Refuses t := by
  intro c hc
  obtain ⟨missed, hpass, hoffset⟩ := attempt_of_refuses hp hc
    (show ∀ f ∈ (none : Option Failure), f.offset = c.position by simp)
  simp only [oneOf, hpass]
  cases missed with
  | none => exact ⟨_, rfl⟩
  | some f => exact ⟨f.problem, congrArg _ (congrArg (Failure.mk f.problem) (hoffset f rfl))⟩

/-! ## Heads -/

theorem headedBy_reading (description : String) (read : Token → Option α) :
    (reading description read).HeadedBy fun t => (read t).isSome :=
  fun _ h => refuses_reading (Option.not_isSome_iff_eq_none.mp h)

theorem headedBy_literal (text : Token) (value : α) :
    (literal text value).HeadedBy fun t => t = text := fun _ h => refuses_literal value h

theorem headedBy_keyword (text : Token) (p : Parser α) :
    (keyword text p).HeadedBy fun t => t = text := fun _ h => refuses_keyword h p

theorem HeadedBy.described {p : Parser α} {starts : Token → Prop} (hp : p.HeadedBy starts)
    (description : String) : (p.described description).HeadedBy starts := hp

theorem HeadedBy.map {p : Parser α} {starts : Token → Prop} (hp : p.HeadedBy starts) (f : α → β) :
    (p.map f).HeadedBy starts := fun t h => (hp t h).map f

theorem HeadedBy.mono {p : Parser α} {a b : Token → Prop} (hp : p.HeadedBy a)
    (h : ∀ t, a t → b t) : p.HeadedBy b := fun t ht => hp t fun hat => ht (h t hat)

theorem headedBy_oneOf {branches : List (Parser α)} {starts : Token → Prop}
    (hp : ∀ p ∈ branches, p.HeadedBy starts) : (oneOf branches).HeadedBy starts :=
  fun t h => refuses_oneOf fun p hmem => hp p hmem t h

/-- A match begins with a token that can begin it. -/
theorem HeadedBy.of_done {p : Parser α} {starts : Token → Prop} (hp : p.HeadedBy starts)
    {c : Cursor} {m : Match α} (hm : p.run c = .done m) {t : Token} (ht : c.rest.head? = some t) :
    starts t := by
  refine Classical.byContradiction fun hstarts => ?_
  obtain ⟨problem, hfails⟩ := hp t hstarts c ht
  rw [hm] at hfails
  cases hfails

/-! ## Needing a token -/

theorem needsToken_single (description : String) (read : Token → Except Problem α) :
    (single description read).NeedsToken := fun _ => ⟨_, rfl⟩

theorem NeedsToken.described {p : Parser α} (hp : p.NeedsToken) (description : String) :
    (p.described description).NeedsToken := hp

theorem NeedsToken.map {p : Parser α} (hp : p.NeedsToken) (f : α → β) :
    (p.map f).NeedsToken := by
  intro position
  obtain ⟨failure, h⟩ := hp position
  exact ⟨failure, by simp only [Parser.map, h, Outcome.map_failed]⟩

theorem NeedsToken.pair {p : Parser α} (hp : p.NeedsToken) (q : Parser β) :
    (p.pair q).NeedsToken := by
  intro position
  obtain ⟨failure, h⟩ := hp position
  exact ⟨failure, by simp only [Parser.pair, h, Outcome.bind_failed]⟩

theorem needsToken_keyword (text : Token) (p : Parser α) : (keyword text p).NeedsToken :=
  (((needsToken_single _ _).pair p).map Prod.snd).described _

theorem attempt_of_needsToken {parts : List (Parser α)} (hp : ∀ p ∈ parts, p.NeedsToken)
    (position : Nat) (missed : Option Failure) :
    ∃ missed', attempt parts ⟨position, []⟩ missed = .miss missed' := by
  induction parts generalizing missed with
  | nil => exact ⟨missed, rfl⟩
  | cons p parts ih =>
    obtain ⟨f, hf⟩ := hp p List.mem_cons_self position
    rw [attempt, hf]
    exact ih (fun q hq => hp q (List.mem_cons_of_mem p hq)) _

theorem needsToken_oneOf {branches : List (Parser α)} (hp : ∀ p ∈ branches, p.NeedsToken) :
    (oneOf branches).NeedsToken := by
  intro position
  obtain ⟨missed, hpass⟩ := attempt_of_needsToken hp position none
  simp only [oneOf, hpass]
  cases missed with
  | none => exact ⟨_, rfl⟩
  | some f => exact ⟨f, rfl⟩

theorem needsToken_of_mem_flags [Enumerated α] [DecidableEq α] {text : α → Token}
    {p : Parser (EnumSet α)} (hp : p ∈ flags text) : p.NeedsToken := by
  obtain ⟨q, hq, rfl⟩ := List.mem_map.mp hp
  obtain ⟨a, _, rfl⟩ := List.mem_map.mp hq
  exact (needsToken_single _ _).map _

/-! ## Exclusion -/

theorem HeadedBy.excludes {p q : Parser α} {a b : Token → Prop} (hp : p.HeadedBy a)
    (hq : q.HeadedBy b) (h : ∀ t, a t → ¬ b t) : p.Excludes q := by
  intro t
  by_cases hat : a t
  · exact .inr (hq t (h t hat))
  · exact .inl (hp t hat)

theorem pairwise_excludes_map {parts : List (Parser α)} (h : parts.Pairwise Excludes)
    (f : α → β) : (parts.map (map f)).Pairwise Excludes := by
  rw [List.pairwise_map]
  refine h.imp fun hpq t => ?_
  exact (hpq t).imp (fun hp => hp.map f) (fun hq => hq.map f)

/-- Parts exclude each other if every token tells by a number which of them it can begin. -/
theorem pairwise_excludes_of_index {parts : List (Parser α)} (index : Token → Nat)
    (h : ∀ (i : Nat) (hi : i < parts.length), parts[i].HeadedBy fun t => index t = i) :
    parts.Pairwise Excludes := by
  refine List.pairwise_iff_getElem.mpr fun i j hi hj hij => ?_
  refine (h i hi).excludes (h j hj) fun t ht ht' => ?_
  omega

/-! ## Words of an enumerated type -/

section Enumerated

variable [Enumerated α] {text : α → Token}

theorem headedBy_of_mem_literals {p : Parser α} (hp : p ∈ literals text) :
    p.HeadedBy (· ∈ Enumerated.all.map text) := by
  obtain ⟨a, ha, rfl⟩ := List.mem_map.mp hp
  intro t ht
  refine refuses_literal a ?_
  rintro rfl
  exact ht (List.mem_map_of_mem ha)

theorem pairwise_excludes_literals (h : (Enumerated.all.map text).Nodup) :
    (literals text).Pairwise Excludes := by
  have hwords : Enumerated.all.Pairwise fun a b => text a ≠ text b := List.pairwise_map.mp h
  refine List.pairwise_map.mpr (hwords.imp fun {a b} hab => ?_)
  refine (headedBy_literal (text a) a).excludes (headedBy_literal (text b) b) fun t hta htb => ?_
  exact hab (hta.symm.trans htb)

theorem headedBy_oneSpelled : (oneSpelled text).HeadedBy (· ∈ Enumerated.all.map text) :=
  headedBy_oneOf fun _ hp => headedBy_of_mem_literals hp

theorem headedBy_named (description : String) (name : α → String) :
    (named description name).HeadedBy (· ∈ Enumerated.all.map name) := by
  intro t ht
  refine refuses_reading (List.find?_eq_none.mpr fun a ha hname => ht ?_)
  rw [← beq_iff_eq.mp hname]
  exact List.mem_map_of_mem ha

theorem pairwise_excludes_flags [DecidableEq α] (h : (Enumerated.all.map text).Nodup) :
    (flags text).Pairwise Excludes := pairwise_excludes_map (pairwise_excludes_literals h) _

theorem headedBy_of_mem_flags [DecidableEq α] {p : Parser (EnumSet α)} (hp : p ∈ flags text) :
    p.HeadedBy (· ∈ Enumerated.all.map text) := by
  obtain ⟨q, hq, rfl⟩ := List.mem_map.mp hp
  exact (headedBy_of_mem_literals hq).map _

end Enumerated

end Parser
end SimControl
