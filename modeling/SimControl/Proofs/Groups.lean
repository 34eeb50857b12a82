/-
Token lists made of groups.

A parser reads a group if it takes exactly the tokens of the group wherever they stand and
whatever follows them.  A plain parser takes only such groups.  A repetition of a plain
parser takes the tokens group by group, so that the tokens it has taken mean the same when
they stand alone.

Both repetitions of the grammar, `atLeast` and `gather`, are of this kind, as `Collects`
says: they read the groups ahead as long as there are any, and they read nothing else.
-/
import SimControl.Proofs.Heads

namespace SimControl
namespace Parser

variable {α β : Type}

/-- Wherever `group` stands, it is taken and read as `value`, and nothing is recovered from. -/
def Reads (p : Parser α) (group : List Token) (value : α) : Prop :=
  ∀ (position : Nat) (rest : List Token), p.run ⟨position, group ++ rest⟩ =
    .done ⟨value, ⟨position + group.length, rest⟩, none⟩

/-- Every match reads a group of one token or more. -/
def Plain (p : Parser α) : Prop :=
  ∀ (c : Cursor) (m : Match α), p.run c = .done m →
    ∃ group, group ≠ [] ∧ c.rest = group ++ m.cursor.rest ∧ p.Reads group m.value

/-! ## Plain parsers -/

theorem plain_single (description : String) (read : Token → Except Problem α) :
    (single description read).Plain := by
  intro c m h
  obtain ⟨position, rest⟩ := c
  cases rest with
  | nil => cases h
  | cons token rest =>
    simp only [single] at h
    cases hread : read token with
    | error problem =>
      rw [hread] at h
      cases h
    | ok value =>
      rw [hread] at h
      obtain rfl := Outcome.done.inj h
      refine ⟨[token], List.cons_ne_nil _ _, rfl, fun n more => ?_⟩
      simp only [single, List.cons_append, hread]
      rfl

theorem Plain.described {p : Parser α} (hp : p.Plain) (description : String) :
    (p.described description).Plain := hp

theorem Reads.map {p : Parser α} {group : List Token} {value : α} (hp : p.Reads group value)
    (f : α → β) : (p.map f).Reads group (f value) := by
  intro position rest
  exact map_run_eq_done_iff.mpr ⟨_, hp position rest, rfl⟩

theorem Plain.map {p : Parser α} (hp : p.Plain) (f : α → β) : (p.map f).Plain := by
  intro c m h
  obtain ⟨n, hn, rfl⟩ := map_run_eq_done_iff.mp h
  obtain ⟨group, hsome, hrest, hreads⟩ := hp c n hn
  exact ⟨group, hsome, hrest, hreads.map f⟩

theorem Plain.refine {p : Parser α} (hp : p.Plain) (f : α → Except Problem β) :
    (p.refine f).Plain := by
  intro c m h
  simp only [Parser.refine, Outcome.bind_eq_done_iff] at h
  obtain ⟨n, hn, h⟩ := h
  cases hvalue : f n.value with
  | error problem =>
    rw [hvalue] at h
    cases h
  | ok value =>
    rw [hvalue] at h
    obtain rfl := Outcome.done.inj h
    obtain ⟨group, hsome, hrest, hreads⟩ := hp c n hn
    refine ⟨group, hsome, hrest, fun position rest => ?_⟩
    simp only [Parser.refine, hreads position rest, Outcome.bind_done, hvalue]

theorem Reads.pair {p : Parser α} {q : Parser β} {group more : List Token} {a : α} {b : β}
    (hp : p.Reads group a) (hq : q.Reads more b) : (p.pair q).Reads (group ++ more) (a, b) := by
  intro position rest
  rw [List.append_assoc, List.length_append, ← Nat.add_assoc]
  exact pair_run_eq_done_iff.mpr
    ⟨_, _, hp position (more ++ rest), hq (position + group.length) rest, rfl⟩

theorem Plain.pair {p : Parser α} {q : Parser β} (hp : p.Plain) (hq : q.Plain) :
    (p.pair q).Plain := by
  intro c m h
  obtain ⟨a, b, ha, hb, rfl⟩ := pair_run_eq_done_iff.mp h
  obtain ⟨group, hsome, hrest, hreads⟩ := hp c a ha
  obtain ⟨more, _, hrest', hreads'⟩ := hq a.cursor b hb
  refine ⟨group ++ more, List.append_ne_nil_of_left_ne_nil hsome more, ?_, hreads.pair hreads'⟩
  rw [hrest, hrest', List.append_assoc]
  rfl

theorem Plain.keyword {p : Parser α} (hp : p.Plain) (text : Token) : (keyword text p).Plain :=
  (((plain_single _ _).pair hp).map Prod.snd).described _

theorem plain_of_mem_flags [Enumerated α] [DecidableEq α] {text : α → Token}
    {p : Parser (EnumSet α)} (hp : p ∈ flags text) : p.Plain := by
  obtain ⟨q, hq, rfl⟩ := List.mem_map.mp hp
  obtain ⟨a, _, rfl⟩ := List.mem_map.mp hq
  exact (plain_single _ _).map _

/-! ## Choice -/

/-- A parser that matches does not refuse the next token, so those it excludes do. -/
theorem Excludes.refuses {p q : Parser α} (hpq : p.Excludes q) {c : Cursor} {m : Match α}
    (hq : q.run c = .done m) {t : Token} (ht : c.rest.head? = some t) : p.Refuses t := by
  refine (hpq t).resolve_right fun hrefuses => ?_
  obtain ⟨problem, h⟩ := hrefuses c ht
  rw [hq] at h
  cases h

theorem plain_attempt {branches : List (Parser α)} (hp : ∀ p ∈ branches, p.Plain)
    (hexcludes : branches.Pairwise Excludes) {c : Cursor} {m : Match α}
    {missed missed' : Option Failure} (h : attempt branches c missed = .hit m missed') :
    ∃ group, group ≠ [] ∧ c.rest = group ++ m.cursor.rest ∧
      ∀ (position : Nat) (rest : List Token) (before : Option Failure), ∃ after,
        attempt branches ⟨position, group ++ rest⟩ before =
          .hit ⟨m.value, ⟨position + group.length, rest⟩, none⟩ after := by
  induction branches generalizing missed with
  | nil => cases h
  | cons p branches ih =>
    obtain ⟨hfirst, hothers⟩ := List.pairwise_cons.mp hexcludes
    rw [attempt] at h
    cases hrun : p.run c with
    | endless =>
      rw [hrun] at h
      cases h
    | done n =>
      rw [hrun] at h
      obtain ⟨rfl, _⟩ := Attempt.hit.inj h
      obtain ⟨group, hsome, hrest, hreads⟩ := hp p List.mem_cons_self c n hrun
      refine ⟨group, hsome, hrest, fun position rest before => ⟨before, ?_⟩⟩
      rw [attempt, hreads position rest]
    | failed f =>
      rw [hrun] at h
      obtain ⟨group, hsome, hrest, hreads⟩ :=
        ih (fun q hq => hp q (List.mem_cons_of_mem p hq)) hothers h
      refine ⟨group, hsome, hrest, fun position rest before => ?_⟩
      -- The match began with a token that `p` refuses, wherever it stands.
      obtain ⟨t, more, hgroup⟩ := List.exists_cons_of_ne_nil hsome
      obtain ⟨q, hq, hmatch⟩ := exists_mem_of_attempt h
      have hhead : c.rest.head? = some t := by rw [hrest, hgroup]; rfl
      have hhead' : (Cursor.mk position (group ++ rest)).rest.head? = some t := by rw [hgroup]; rfl
      obtain ⟨problem, hfails⟩ := (hfirst q hq).refuses hmatch hhead _ hhead'
      rw [attempt, hfails]
      exact hreads position rest _

/-- Of parts that exclude each other, the one that matches is the first to match in front of
any other tokens as well. -/
theorem plain_oneOf {branches : List (Parser α)} (hp : ∀ p ∈ branches, p.Plain)
    (hexcludes : branches.Pairwise Excludes) : (oneOf branches).Plain := by
  intro c m h
  obtain ⟨missed, hpass⟩ := oneOf_run_eq_done_iff.mp h
  obtain ⟨group, hsome, hrest, hreads⟩ := plain_attempt hp hexcludes hpass
  refine ⟨group, hsome, hrest, fun position rest => ?_⟩
  exact oneOf_run_eq_done_iff.mpr (hreads position rest none)

theorem plain_oneSpelled [Enumerated α] {text : α → Token}
    (h : (Enumerated.all.map text).Nodup) : (oneSpelled text).Plain := by
  refine plain_oneOf (fun p hp => ?_) (pairwise_excludes_literals h)
  obtain ⟨a, _, rfl⟩ := List.mem_map.mp hp
  exact plain_single _ _

/-! ## Groups -/

/-- The tokens are groups that `p` reads, one after another. -/
inductive Groups (p : Parser α) : List Token → List α → Prop
  | nil : Groups p [] []
  | cons {group tokens : List Token} {value : α} {values : List α} (hsome : group ≠ [])
      (h : p.Reads group value) (hmore : Groups p tokens values) :
      Groups p (group ++ tokens) (value :: values)

section Loops

variable {p : Parser α} {own rest : List Token} {values : List α}

/-- A repetition reads the groups in front of it, and stops where `p` fails. -/
theorem repeatFrom_of_groups {minimum : Nat} (h : p.Groups own values) {m : Match (List α)}
    (hm : m.cursor.rest = own ++ rest) (hmany : minimum ≤ m.value.length + values.length)
    (hstop : ∃ f, p.run ⟨m.cursor.position + own.length, rest⟩ = .failed f) :
    ∃ n, repeatFrom minimum p m = .done n ∧ n.cursor.rest = rest ∧
      n.value = m.value ++ values := by
  induction h generalizing m with
  | nil =>
    obtain ⟨f, hf⟩ := hstop
    have hcursor : m.cursor = ⟨m.cursor.position, rest⟩ := Cursor.eq_of_rest hm
    have hf' : p.run m.cursor = .failed f := by
      rw [hcursor]
      exact hf
    have hfew : ¬ m.value.length < minimum := Nat.not_lt.mpr hmany
    refine ⟨m.recovering (some f), ?_, hm, (List.append_nil _).symm⟩
    rw [repeatFrom, hf']
    exact if_neg hfew
  | @cons group tokens value values hsome hread hmore ih =>
    rw [List.append_assoc] at hm
    have hcursor : m.cursor = ⟨m.cursor.position, group ++ (tokens ++ rest)⟩ :=
      Cursor.eq_of_rest hm
    have hnext := hread m.cursor.position (tokens ++ rest)
    rw [← hcursor] at hnext
    have hless : (tokens ++ rest).length < m.cursor.rest.length := by
      have hpos := List.length_pos_iff.mpr hsome
      rw [hm]
      simp only [List.length_append]
      omega
    rw [repeatFrom, hnext]
    dsimp only
    rw [if_pos hless]
    have hmany' : minimum ≤ (m.value ++ [value]).length + values.length := by
      rw [List.length_cons] at hmany
      rw [List.length_append, List.length_singleton]
      omega
    have hstop' : ∃ f, p.run ⟨m.cursor.position + group.length + tokens.length, rest⟩ =
        .failed f := by
      rw [List.length_append, ← Nat.add_assoc] at hstop
      exact hstop
    obtain ⟨n, hn, hrest, hvalue⟩ :=
      ih (m := m.push ⟨value, ⟨m.cursor.position + group.length, tokens ++ rest⟩, none⟩)
        rfl hmany' hstop'
    refine ⟨n, hn, hrest, ?_⟩
    rw [hvalue]
    exact List.append_assoc m.value [value] values

theorem groups_of_repeatFrom (hp : p.Plain) {minimum : Nat} {m n : Match (List α)}
    (h : repeatFrom minimum p m = .done n) :
    ∃ own values, m.cursor.rest = own ++ n.cursor.rest ∧ p.Groups own values ∧
      n.value = m.value ++ values ∧ minimum ≤ n.value.length := by
  have htake {m : Match (List α)} {next : Match α} (hnext : p.run m.cursor = .done next) :
      next.cursor.rest.length < m.cursor.rest.length := by
    obtain ⟨group, hsome, hrest, _⟩ := hp _ _ hnext
    have hpos := List.length_pos_iff.mpr hsome
    rw [hrest, List.length_append]
    omega
  fun_induction repeatFrom minimum p m with
  | case1 m hend => cases h
  | case2 m failure hfail hfew => cases h
  | case3 m failure hfail hfew =>
    obtain rfl := Outcome.done.inj h
    exact ⟨[], [], rfl, .nil, (List.append_nil _).symm, Nat.not_lt.mp hfew⟩
  | case4 m next hnext hless ih =>
    obtain ⟨group, hsome, hrest, hread⟩ := hp _ _ hnext
    obtain ⟨own, values, hown, hgroups, hvalue, hmany⟩ := ih h
    refine ⟨group ++ own, next.value :: values, ?_, .cons hsome hread hgroups, ?_, hmany⟩
    · have hown' : next.cursor.rest = own ++ n.cursor.rest := hown
      rw [hrest, hown', List.append_assoc]
    · rw [hvalue]
      exact List.append_assoc m.value [next.value] values
  | case5 m next hnext hless hfew => exact absurd (htake hnext) hless
  | case6 m next hnext hless hfew => exact absurd (htake hnext) hless

end Loops

/-! ## Gathering -/

section Gathering

variable [Accumulator α] {parts : List (Parser α)} {own rest : List Token} {values : List α}

theorem scanFrom_of_groups (h : (oneOf parts).Groups own values) {s : Scan α}
    (hs : s.found.cursor.rest = own ++ rest)
    (hstop : ∃ f, (oneOf parts).run ⟨s.found.cursor.position + own.length, rest⟩ = .failed f) :
    ∃ u, scanFrom parts s = some u ∧ u.found.cursor.rest = rest ∧
      u.found.value = values.foldl Accumulator.append s.found.value ∧
        u.count = s.count + values.length := by
  induction h generalizing s with
  | nil =>
    have hcursor : s.found.cursor = ⟨s.found.cursor.position, rest⟩ := Cursor.eq_of_rest hs
    obtain ⟨missed, hmiss⟩ := oneOf_run_eq_failed_iff.mp hstop
    have hmiss' : attempt parts s.found.cursor none = .miss missed := by
      rw [hcursor]
      exact hmiss
    rw [scanFrom, hmiss']
    by_cases hend : s.found.cursor.rest = []
    · rw [if_pos hend]
      exact ⟨s, rfl, hs, rfl, rfl⟩
    · rw [if_neg hend]
      exact ⟨_, rfl, hs, rfl, rfl⟩
  | @cons group tokens value values hsome hread hmore ih =>
    rw [List.append_assoc] at hs
    have hcursor : s.found.cursor = ⟨s.found.cursor.position, group ++ (tokens ++ rest)⟩ :=
      Cursor.eq_of_rest hs
    obtain ⟨missed, hhit⟩ :=
      oneOf_run_eq_done_iff.mp (hread s.found.cursor.position (tokens ++ rest))
    rw [← hcursor] at hhit
    have hsome' : s.found.cursor.rest ≠ [] := by
      rw [hs]
      exact List.append_ne_nil_of_left_ne_nil hsome _
    have hless : (tokens ++ rest).length < s.found.cursor.rest.length := by
      have hpos := List.length_pos_iff.mpr hsome
      rw [hs]
      simp only [List.length_append]
      omega
    rw [List.length_append, ← Nat.add_assoc] at hstop
    rw [scanFrom, if_neg hsome', hhit]
    dsimp only
    rw [if_pos hless]
    obtain ⟨u, hu, hrest, hvalue, hcount⟩ := ih
      (s := ⟨s.found.andThen ⟨value, ⟨s.found.cursor.position + group.length, tokens ++ rest⟩, none⟩
        Accumulator.append, s.count + 1, missed⟩) rfl hstop
    refine ⟨u, hu, hrest, hvalue, ?_⟩
    rw [hcount, List.length_cons]
    show s.count + 1 + values.length = s.count + (values.length + 1)
    omega

theorem groups_of_scanFrom (hp : (oneOf parts).Plain) {s u : Scan α}
    (h : scanFrom parts s = some u) :
    ∃ own values, s.found.cursor.rest = own ++ u.found.cursor.rest ∧
      (oneOf parts).Groups own values ∧
        u.found.value = values.foldl Accumulator.append s.found.value ∧
          u.count = s.count + values.length := by
  fun_induction scanFrom parts s with
  | case1 s hend =>
    obtain rfl := Option.some.inj h
    exact ⟨[], [], rfl, .nil, rfl, rfl⟩
  | case2 s hrest hend => cases h
  | case3 s hrest missed hmiss =>
    obtain rfl := Option.some.inj h
    exact ⟨[], [], rfl, .nil, rfl, rfl⟩
  | case4 s hrest next missed hhit found hless =>
    rename_i ih
    obtain ⟨group, hsome, hrest, hread⟩ := hp _ _ (oneOf_run_eq_done_iff.mpr ⟨missed, hhit⟩)
    obtain ⟨own, values, hown, hgroups, hvalue, hcount⟩ := ih h
    refine ⟨group ++ own, next.value :: values, ?_, .cons hsome hread hgroups, hvalue, ?_⟩
    · have hown' : next.cursor.rest = own ++ u.found.cursor.rest := hown
      rw [hrest, hown', List.append_assoc]
    · rw [hcount, List.length_cons]
      show s.count + 1 + values.length = s.count + (values.length + 1)
      omega
  | case5 s hrest next missed hhit found =>
    rename_i hless
    obtain ⟨group, hsome, hrest, _⟩ := hp _ _ (oneOf_run_eq_done_iff.mpr ⟨missed, hhit⟩)
    have hpos := List.length_pos_iff.mpr hsome
    rw [hrest, List.length_append] at hless
    omega

/-- Scanning goes on as long as a part matches. -/
theorem stops_of_scanFrom (hp : (oneOf parts).Plain) (hneeds : (oneOf parts).NeedsToken)
    {s u : Scan α} (h : scanFrom parts s = some u) :
    ∃ f, (oneOf parts).run u.found.cursor = .failed f := by
  fun_induction scanFrom parts s with
  | case1 s hend =>
    obtain rfl := Option.some.inj h
    rw [Cursor.eq_of_rest hend]
    exact hneeds _
  | case2 s hrest hend => cases h
  | case3 s hrest missed hmiss =>
    obtain rfl := Option.some.inj h
    exact oneOf_run_eq_failed_iff.mpr ⟨missed, hmiss⟩
  | case4 s hrest next missed hhit found hless =>
    rename_i ih
    exact ih h
  | case5 s hrest next missed hhit found =>
    rename_i hless
    obtain ⟨group, hsome, hrest, _⟩ := hp _ _ (oneOf_run_eq_done_iff.mpr ⟨missed, hhit⟩)
    have hpos := List.length_pos_iff.mpr hsome
    rw [hrest, List.length_append] at hless
    omega

end Gathering

/-! ## Repetitions as a whole -/

/-- No group can begin at the end of the tokens. -/
theorem Plain.needsToken {p : Parser α} (hp : p.Plain) (hs : p.Steady) : p.NeedsToken := by
  intro position
  cases h : p.run ⟨position, []⟩ with
  | failed f => exact ⟨f, rfl⟩
  | endless => exact absurd h (hs.ends _)
  | done m =>
    obtain ⟨group, hsome, hrest, _⟩ := hp _ m h
    exact absurd (List.append_eq_nil_iff.mp hrest.symm).1 hsome

/-- `p` reads `minimum` or more groups of `q`, as many as there are, and `f` makes its value
of theirs. -/
structure Collects (p : Parser β) (q : Parser α) (minimum : Nat) (f : List α → β) : Prop where
  sound {c : Cursor} {m : Match β} : p.run c = .done m →
    ∃ own values, c.rest = own ++ m.cursor.rest ∧ q.Groups own values ∧
      minimum ≤ values.length ∧ m.value = f values
  complete {own : List Token} {values : List α} : q.Groups own values →
    minimum ≤ values.length → ∀ {position : Nat} {rest : List Token},
      (∃ failure, q.run ⟨position + own.length, rest⟩ = .failed failure) →
        ∃ m, p.run ⟨position, own ++ rest⟩ = .done m ∧ m.cursor.rest = rest ∧ m.value = f values

theorem collects_atLeast (minimum : Nat) {p : Parser α} (hp : p.Plain) :
    (atLeast minimum p).Collects p minimum id where
  sound h := by
    obtain ⟨own, values, hrest, hgroups, hvalue, hmany⟩ := groups_of_repeatFrom hp h
    have hvalue' : _ = values := hvalue
    rw [hvalue'] at hmany
    exact ⟨own, values, hrest, hgroups, hmany, hvalue'⟩
  complete {own values} h hmany position rest hstop := by
    have hmany' : minimum ≤ ([] : List α).length + values.length := by simpa using hmany
    exact repeatFrom_of_groups h (m := ⟨[], ⟨position, own ++ rest⟩, none⟩) rfl hmany' hstop

theorem collects_gather [Accumulator α] (minimum : Nat) {parts : List (Parser α)}
    (hp : (oneOf parts).Plain) :
    (gather minimum parts).Collects (oneOf parts) minimum Accumulator.foldAll where
  sound {c m} h := by
    simp only [gather, scan] at h
    cases hscan : scanFrom parts ⟨⟨Accumulator.identity, c, none⟩, 0, none⟩ with
    | none =>
      rw [hscan] at h
      cases h
    | some s =>
      rw [hscan] at h
      obtain ⟨own, values, hrest, hgroups, hvalue, hcount⟩ := groups_of_scanFrom hp hscan
      have hcount' : s.count = values.length := hcount.trans (Nat.zero_add _)
      by_cases hfew : s.count < minimum
      · simp only [if_pos hfew] at h
        cases h
      · simp only [if_neg hfew] at h
        obtain rfl := Outcome.done.inj h
        exact ⟨own, values, hrest, hgroups, hcount' ▸ Nat.not_lt.mp hfew, hvalue⟩
  complete {own values} h hmany position rest hstop := by
    obtain ⟨u, hu, hrest, hvalue, hcount⟩ := scanFrom_of_groups h
      (s := ⟨⟨Accumulator.identity, ⟨position, own ++ rest⟩, none⟩, 0, none⟩) rfl hstop
    have hfew : ¬ u.count < minimum := by
      rw [hcount]
      show ¬ 0 + values.length < minimum
      omega
    refine ⟨u.found.recovering u.missed, ?_, hrest, hvalue⟩
    simp only [gather, scan, hu, if_neg hfew]

namespace Collects

variable {γ : Type} {p : Parser β} {q : Parser α} {minimum : Nat} {f : List α → β}

theorem described (h : p.Collects q minimum f) (description : String) :
    (p.described description).Collects q minimum f := ⟨h.sound, h.complete⟩

theorem map (h : p.Collects q minimum f) (g : β → γ) :
    (p.map g).Collects q minimum fun values => g (f values) where
  sound {c m} hrun := by
    obtain ⟨n, hn, rfl⟩ := map_run_eq_done_iff.mp hrun
    obtain ⟨own, values, hrest, hgroups, hmany, hvalue⟩ := h.sound hn
    exact ⟨own, values, hrest, hgroups, hmany, congrArg g hvalue⟩
  complete hgroups hmany position rest hstop := by
    obtain ⟨m, hm, hrest, hvalue⟩ := h.complete hgroups hmany hstop
    exact ⟨m.map g, map_run_eq_done_iff.mpr ⟨m, hm, rfl⟩, hrest, congrArg g hvalue⟩

/-- A token list is read exactly if it is made of groups. -/
theorem parse_eq_done_iff (h : p.Collects q minimum f) (hq : q.Plain) (hs : q.Steady)
    {tokens : List Token} {value : β} :
    p.parse tokens = .done value ↔
      ∃ values, q.Groups tokens values ∧ minimum ≤ values.length ∧ value = f values := by
  rw [Parser.parse_eq_done_iff]
  constructor
  · rintro ⟨m, hm, hrest, rfl⟩
    obtain ⟨own, values, hown, hgroups, hmany, hvalue⟩ := h.sound hm
    have htokens : tokens = own := by
      rw [hrest, List.append_nil] at hown
      exact hown
    exact ⟨values, htokens ▸ hgroups, hmany, hvalue⟩
  · rintro ⟨values, hgroups, hmany, rfl⟩
    have hrun := h.complete hgroups hmany (hq.needsToken hs (0 + tokens.length))
    rw [List.append_nil] at hrun
    exact hrun

end Collects

end Parser
end SimControl
