/-
Where a run can end and where it can fail.

A run moves only forward, by passing tokens, so whatever it reports lies between the
place where it started and the end of the tokens.  `Outcome.Inside` says this of a
result: of its cursor, of its failure, and of the failure that it recovered from, which
later parts may report in their place.  The three have to be carried together, since a
failure is ranked against recovered ones everywhere.

The main statement is `Composed.run_ofIndex_within`, for a start anywhere in a token list.
-/
import SimControl.Proofs.Composed

namespace SimControl

namespace Cursor

/-- The cursor in front of the token at an index. -/
def ofIndex (tokens : List Token) (index : Nat) : Cursor := ⟨index, tokens.drop index⟩

/-- The tokens from an index on.  Past the end there is no such slice, and to ask for
one is an error. -/
def slice? (tokens : List Token) (index : Nat) : Option (List Token) :=
  if index ≤ tokens.length then some (tokens.drop index) else none

/-- `d` is reached from `c` by passing tokens. -/
def Leads (c d : Cursor) : Prop :=
  ∃ passed, c.rest = passed ++ d.rest ∧ d.position = c.position + passed.length

theorem Leads.refl (c : Cursor) : c.Leads c := ⟨[], rfl, rfl⟩

theorem Leads.trans {c d e : Cursor} (hcd : c.Leads d) (hde : d.Leads e) : c.Leads e := by
  obtain ⟨passed, hrest, hposition⟩ := hcd
  obtain ⟨more, hrest', hposition'⟩ := hde
  refine ⟨passed ++ more, ?_, ?_⟩
  · rw [hrest, hrest', List.append_assoc]
  · rw [hposition', hposition, List.length_append, Nat.add_assoc]

theorem Leads.position_le {c d : Cursor} (h : c.Leads d) : c.position ≤ d.position := by
  obtain ⟨passed, _, hposition⟩ := h
  omega

theorem Leads.sourceLength_eq {c d : Cursor} (h : c.Leads d) :
    d.sourceLength = c.sourceLength := by
  obtain ⟨passed, hrest, hposition⟩ := h
  unfold sourceLength
  rw [hrest, hposition, List.length_append]
  omega

theorem position_le_sourceLength (c : Cursor) : c.position ≤ c.sourceLength :=
  Nat.le_add_right _ _

theorem Leads.cons (position : Nat) (token : Token) (rest : List Token) :
    Leads ⟨position, token :: rest⟩ ⟨position + 1, rest⟩ := ⟨[token], rfl, rfl⟩

theorem sourceLength_ofIndex {tokens : List Token} {index : Nat} (h : index ≤ tokens.length) :
    (ofIndex tokens index).sourceLength = tokens.length := by
  show index + (tokens.drop index).length = tokens.length
  rw [List.length_drop]
  omega

/-- All cursors that a run reaches are places in the token list where it started. -/
theorem Leads.eq_ofIndex {tokens : List Token} {index : Nat} {d : Cursor}
    (h : (ofIndex tokens index).Leads d) : d = ofIndex tokens d.position := by
  obtain ⟨passed, hrest, hposition⟩ := h
  have hdrop : tokens.drop index = passed ++ d.rest := hrest
  have hd : d.rest = tokens.drop d.position := by
    rw [hposition]
    show d.rest = tokens.drop (index + passed.length)
    rw [← List.drop_drop, hdrop, List.drop_left]
  cases d
  exact congrArg _ hd

end Cursor

/-! ## Results inside the tokens ahead -/

namespace Failure

/-- The failure is at a token ahead of `c`, or at the end of the tokens. -/
def Inside (c : Cursor) (f : Failure) : Prop :=
  c.position ≤ f.offset ∧ f.offset ≤ c.sourceLength

theorem inside_at (problem : Problem) (c : Cursor) : Inside c ⟨problem, c.position⟩ :=
  ⟨Nat.le_refl _, c.position_le_sourceLength⟩

theorem Inside.of_leads {c d : Cursor} {f : Failure} (hcd : c.Leads d) (hf : f.Inside d) :
    f.Inside c :=
  ⟨Nat.le_trans hcd.position_le hf.1, hcd.sourceLength_eq ▸ hf.2⟩

theorem Inside.orRecovered {c : Cursor} {f : Failure} {recovered : Option Failure}
    (hf : f.Inside c) (hr : ∀ g ∈ recovered, g.Inside c) : (f.orRecovered recovered).Inside c :=
  orRecovered_of (P := Inside c) hf hr

end Failure

/-- The match ends ahead of `c`, and so does what it recovered from. -/
structure Match.Inside {α : Type} (c : Cursor) (m : Match α) : Prop where
  leads : c.Leads m.cursor
  recovered : ∀ f ∈ m.recovered, f.Inside c

namespace Match.Inside

variable {α β γ : Type} {c : Cursor}

theorem start (value : α) (c : Cursor) : (⟨value, c, none⟩ : Match α).Inside c :=
  ⟨.refl c, Failure.forall_mem_none⟩

theorem map {m : Match α} (hm : m.Inside c) (f : α → β) : (m.map f).Inside c :=
  ⟨hm.leads, hm.recovered⟩

theorem recovering {m : Match α} {failure : Option Failure} (hm : m.Inside c)
    (hf : ∀ f ∈ failure, f.Inside c) : (m.recovering failure).Inside c :=
  ⟨hm.leads, Failure.forall_mem_deepest hm.recovered hf⟩

theorem andThen {m : Match α} {n : Match β} (hm : m.Inside c) (hn : n.Inside m.cursor)
    (f : α → β → γ) : (m.andThen n f).Inside c where
  leads := hm.leads.trans hn.leads
  recovered := Failure.forall_mem_deepest hm.recovered fun g hg =>
    (hn.recovered g hg).of_leads hm.leads

/-- A failure from where the match ended, weighed against what the match recovered from. -/
theorem orRecovered {m : Match α} {f : Failure} (hm : m.Inside c) (hf : f.Inside m.cursor) :
    (f.orRecovered m.recovered).Inside c :=
  (hf.of_leads hm.leads).orRecovered hm.recovered

end Match.Inside

/-- A run from `c` that ended has a result ahead of `c`. -/
def Outcome.Inside {α : Type} (c : Cursor) : Outcome (Match α) → Prop
  | .done m => m.Inside c
  | .failed f => f.Inside c
  | .endless => True

/-- The same for one pass over the branches of a choice. -/
def Attempt.Inside {α : Type} (c : Cursor) : Attempt α → Prop
  | .hit m missed => m.Inside c ∧ ∀ f ∈ missed, f.Inside c
  | .miss missed => ∀ f ∈ missed, f.Inside c
  | .endless => True

/-- A run over `tokens` from `start` that ended: a match has a cursor over the same tokens,
whose remaining slice exists, and no place that is reported lies outside of them. -/
def Outcome.Within {α : Type} (tokens : List Token) (start : Nat) : Outcome (Match α) → Prop
  | .done m =>
      start ≤ m.cursor.position ∧ m.cursor.position ≤ tokens.length ∧
        m.cursor = .ofIndex tokens m.cursor.position ∧
        Cursor.slice? tokens m.cursor.position = some m.cursor.rest ∧
        ∀ f ∈ m.recovered, start ≤ f.offset ∧ f.offset ≤ tokens.length
  | .failed f => start ≤ f.offset ∧ f.offset ≤ tokens.length
  | .endless => True

theorem Outcome.Inside.within {α : Type} {tokens : List Token} {start : Nat}
    (hstart : start ≤ tokens.length) {o : Outcome (Match α)}
    (h : o.Inside (.ofIndex tokens start)) : o.Within tokens start := by
  have hlength := Cursor.sourceLength_ofIndex hstart
  cases o with
  | endless => trivial
  | failed f => exact ⟨h.1, hlength ▸ h.2⟩
  | done m =>
    have hover := h.leads.eq_ofIndex
    have hend : m.cursor.position ≤ tokens.length := by
      rw [← hlength, ← h.leads.sourceLength_eq]
      exact m.cursor.position_le_sourceLength
    refine ⟨h.leads.position_le, hend, hover, ?_, fun f hf => ?_⟩
    · rw [Cursor.slice?, if_pos hend]
      exact congrArg (fun c => some c.rest) hover.symm
    · have hf' := h.recovered f hf
      exact ⟨hf'.1, hlength ▸ hf'.2⟩

namespace Parser

variable {α β γ : Type}

/-- No run leaves the tokens ahead of its start. -/
def Bounded (p : Parser α) : Prop := ∀ c, (p.run c).Inside c

theorem Bounded.done {p : Parser α} (hp : p.Bounded) {c : Cursor} {m : Match α}
    (h : p.run c = .done m) : m.Inside c := by
  have hc := hp c
  rw [h] at hc
  exact hc

theorem Bounded.failed {p : Parser α} (hp : p.Bounded) {c : Cursor} {f : Failure}
    (h : p.run c = .failed f) : f.Inside c := by
  have hc := hp c
  rw [h] at hc
  exact hc

/-! ## Single parsers -/

theorem bounded_single (description : String) (read : Token → Except Problem α) :
    (single description read).Bounded := by
  rintro ⟨position, rest⟩
  cases rest with
  | nil => exact Failure.inside_at ..
  | cons token rest =>
    simp only [single]
    cases read token with
    | ok value => exact ⟨.cons .., Failure.forall_mem_none⟩
    | error problem => exact Failure.inside_at problem _

theorem Bounded.map {p : Parser α} (hp : p.Bounded) (f : α → β) : (p.map f).Bounded := by
  intro c
  show Outcome.Inside c ((p.run c).map _)
  cases h : p.run c with
  | done m => exact (hp.done h).map f
  | failed e => exact hp.failed h
  | endless => trivial

theorem Bounded.refine {p : Parser α} (hp : p.Bounded) (f : α → Except Problem β) :
    (p.refine f).Bounded := by
  intro c
  simp only [Parser.refine]
  cases h : p.run c with
  | failed e => exact hp.failed h
  | endless => trivial
  | done m =>
    have hm := hp.done h
    rw [Outcome.bind_done]
    cases f m.value with
    | ok value => exact ⟨hm.leads, hm.recovered⟩
    | error problem => exact (Failure.inside_at problem c).orRecovered hm.recovered

theorem Bounded.withDefault {p : Parser α} (hp : p.Bounded) (default : α) :
    (p.withDefault default).Bounded := by
  intro c
  simp only [Parser.withDefault]
  cases h : p.run c with
  | done m => exact hp.done h
  | endless => trivial
  | failed e => exact ⟨.refl c, Failure.forall_mem_some (hp.failed h)⟩

theorem inside_exhausted {c : Cursor} {m : Match α} (hm : m.Inside c) :
    m.exhausted.Inside c := by
  have hleft : Failure.Inside c ⟨.leftover m.cursor.rest, m.cursor.position⟩ :=
    (Failure.inside_at ..).of_leads hm.leads
  unfold Match.exhausted
  split
  · exact hm
  · split
    · next f hf =>
      split
      · exact hm.recovered f hf
      · exact hleft
    · exact hleft

theorem Bounded.exhaustive {p : Parser α} (hp : p.Bounded) : p.exhaustive.Bounded := by
  intro c
  show Outcome.Inside c ((p.run c).bind _)
  cases h : p.run c with
  | done m => exact inside_exhausted (hp.done h)
  | failed e => exact hp.failed h
  | endless => trivial

/-! ## Choice -/

theorem inside_attempt {branches : List (Parser α)} (hp : ∀ p ∈ branches, p.Bounded) {c : Cursor}
    {missed : Option Failure} (hmissed : ∀ f ∈ missed, f.Inside c) :
    Attempt.Inside c (attempt branches c missed) := by
  induction branches generalizing missed with
  | nil => exact hmissed
  | cons p branches ih =>
    have hhead := hp p List.mem_cons_self
    rw [attempt]
    cases h : p.run c with
    | done m => exact ⟨hhead.done h, hmissed⟩
    | endless => trivial
    | failed f =>
      refine ih (fun q hq => hp q (List.mem_cons_of_mem p hq)) ?_
      exact Failure.forall_mem_deepest hmissed (Failure.forall_mem_some (hhead.failed h))

theorem bounded_oneOf {branches : List (Parser α)} (hp : ∀ p ∈ branches, p.Bounded) :
    (oneOf branches).Bounded := by
  intro c
  have hc := inside_attempt hp (c := c) (Failure.forall_mem_none)
  simp only [oneOf]
  cases h : attempt branches c none with
  | endless => trivial
  | hit m missed =>
    rw [h] at hc
    exact hc.1
  | miss missed =>
    rw [h] at hc
    cases missed with
    | some f => exact hc f rfl
    | none => exact Failure.inside_at ..

/-! ## Sequences -/

theorem inside_continueWith {q : Parser β} (hq : q.Bounded) {c : Cursor} {m : Match α}
    (hm : m.Inside c) (f : α → β → γ) : (continueWith m q f).Inside c := by
  unfold continueWith
  cases h : q.run m.cursor with
  | done n => exact hm.andThen (hq.done h) f
  | failed e => exact hm.orRecovered (hq.failed h)
  | endless => trivial

theorem Bounded.pair {p : Parser α} {q : Parser β} (hp : p.Bounded) (hq : q.Bounded) :
    (p.pair q).Bounded := by
  intro c
  show Outcome.Inside c ((p.run c).bind _)
  cases h : p.run c with
  | done m => exact inside_continueWith hq (hp.done h) _
  | failed e => exact hp.failed h
  | endless => trivial

theorem inside_sequenceFrom {parts : List (Parser α)} (hp : ∀ p ∈ parts, p.Bounded) {c : Cursor}
    {m : Match (List α)} (hm : m.Inside c) : (sequenceFrom m parts).Inside c := by
  induction parts generalizing m with
  | nil => exact hm
  | cons p parts ih =>
    have hnext := inside_continueWith (hp p List.mem_cons_self) hm fun values value =>
      values ++ [value]
    rw [sequenceFrom]
    cases h : continueWith m p fun values value => values ++ [value] with
    | done n =>
      rw [h] at hnext
      exact ih (fun q hq => hp q (List.mem_cons_of_mem p hq)) hnext
    | failed e =>
      rw [h] at hnext
      exact hnext
    | endless => trivial

/-! ## Repetitions -/

theorem inside_repeatFrom {p : Parser α} (hp : p.Bounded) (minimum : Nat) {c : Cursor}
    {m : Match (List α)} (hm : m.Inside c) : (repeatFrom minimum p m).Inside c := by
  fun_induction repeatFrom minimum p m with
  | case1 m h => trivial
  | case2 m failure h hfew => exact hm.orRecovered (hp.failed h)
  | case3 m failure h hfew =>
    exact hm.recovering (Failure.forall_mem_some ((hp.failed h).of_leads hm.leads))
  | case4 m next h hless ih => exact ih (hm.andThen (hp.done h) _)
  | case5 m next h hless hfew =>
    have hpush : (m.push next).Inside c := hm.andThen (hp.done h) _
    exact hpush.orRecovered (Failure.inside_at _ next.cursor)
  | case6 m next h hless hfew => exact hm.andThen (hp.done h) _

theorem bounded_atLeast (minimum : Nat) {p : Parser α} (hp : p.Bounded) :
    (atLeast minimum p).Bounded := fun c => inside_repeatFrom hp minimum (.start [] c)

theorem inside_separatedFrom {p : Parser α} {separator : Parser β} (hp : p.Bounded)
    (hs : separator.Bounded) {c : Cursor} {m n : Match (List α)} {stopped : Option Failure}
    (hm : m.Inside c) (h : separatedFrom p separator m = .done (n, stopped)) :
    n.Inside c ∧ ∀ f ∈ stopped, f.Inside c := by
  fun_induction separatedFrom p separator m with
  | case1 m hend => cases h
  | case2 m failure hfail =>
    cases h
    exact ⟨hm, Failure.forall_mem_none⟩
  | case3 m between hbetween hend => cases h
  | case4 m between hbetween failure hfail =>
    cases h
    refine ⟨hm, Failure.forall_mem_some ?_⟩
    exact (hp.failed hfail).of_leads (hm.leads.trans (hs.done hbetween).leads)
  | case5 m between hbetween next hnext hless ih =>
    -- The separator's own recovered failure is dropped, so only its cursor counts.
    have hnext' := hp.done hnext
    have hbetween' := (hs.done hbetween).leads
    refine ih (hm.andThen ⟨hbetween'.trans hnext'.leads, fun g hg => ?_⟩ _) h
    exact (hnext'.recovered g hg).of_leads hbetween'
  | case6 m between hbetween next hnext hless => cases h

theorem separatedFrom_ne_failed (p : Parser α) (separator : Parser β) (m : Match (List α))
    (f : Failure) : separatedFrom p separator m ≠ .failed f := by
  fun_induction separatedFrom p separator m with
  | case5 m between hbetween next hnext hless ih => exact ih
  | case1 | case2 | case3 | case4 | case6 => exact nofun

theorem bounded_separated (minimum : Nat) {p : Parser α} {separator : Parser β} (hp : p.Bounded)
    (hs : separator.Bounded) : (separated minimum p separator).Bounded := by
  intro c
  simp only [separated]
  cases h : p.run c with
  | endless => trivial
  | failed f =>
    have hf := hp.failed h
    by_cases hzero : minimum = 0
    · simp only [hzero, if_true]
      exact ⟨.refl c, Failure.forall_mem_some hf⟩
    · simp only [hzero, if_false]
      exact hf
  | done first =>
    dsimp only
    cases hrun : separatedFrom p separator (first.map ([·])) with
    | endless => trivial
    | failed f => exact absurd hrun (separatedFrom_ne_failed p separator _ f)
    | done result =>
      obtain ⟨n, stopped⟩ := result
      obtain ⟨hn, hstopped⟩ := inside_separatedFrom hp hs ((hp.done h).map _) hrun
      rw [Outcome.bind_done]
      split
      · refine Failure.Inside.orRecovered ?_ hn.recovered
        cases stopped with
        | none => exact (Failure.inside_at _ n.cursor).of_leads hn.leads
        | some g => exact hstopped g rfl
      · exact hn.recovering hstopped

theorem inside_upToFrom {stop : Parser β} {p : Parser α} (hp : p.Bounded) {c : Cursor}
    {m : Match (List α)} (hm : m.Inside c) : (upToFrom stop p m).Inside c := by
  fun_induction upToFrom stop p m with
  | case1 m hend => exact hm
  | case2 m hrest h => trivial
  | case3 m hrest stopped h => exact hm
  | case4 m hrest failure hfail h => trivial
  | case5 m hrest failure hfail failure' h => exact hm.orRecovered (hp.failed h)
  | case6 m hrest failure hfail next h hless ih => exact ih (hm.andThen (hp.done h) _)
  | case7 m hrest failure hfail next h hless => exact hm.andThen (hp.done h) _

theorem bounded_upTo (stop : Parser β) {p : Parser α} (hp : p.Bounded) :
    (upTo stop p).Bounded := fun c => inside_upToFrom hp (.start [] c)

/-! ## Gathering -/

theorem inside_scanFrom [Accumulator α] {parts : List (Parser α)} (hp : ∀ p ∈ parts, p.Bounded)
    {c : Cursor} {s t : Scan α} (hs : s.found.Inside c) (hmissed : ∀ f ∈ s.missed, f.Inside c)
    (h : scanFrom parts s = some t) : t.found.Inside c ∧ ∀ f ∈ t.missed, f.Inside c := by
  have hround (s : Scan α) := inside_attempt hp (c := s.found.cursor) (Failure.forall_mem_none)
  fun_induction scanFrom parts s with
  | case1 s hend =>
    obtain rfl := Option.some.inj h
    exact ⟨hs, hmissed⟩
  | case2 s hrest hend => cases h
  | case3 s hrest missed hmiss =>
    obtain rfl := Option.some.inj h
    have hs' := hround s
    rw [hmiss] at hs'
    exact ⟨hs, fun f hf => (hs' f hf).of_leads hs.leads⟩
  | case4 s hrest next missed hhit found hless ih =>
    have hs' := hround s
    rw [hhit] at hs'
    exact ih (hs.andThen hs'.1 _) (fun f hf => (hs'.2 f hf).of_leads hs.leads) h
  | case5 s hrest next missed hhit found hless =>
    obtain rfl := Option.some.inj h
    have hs' := hround s
    rw [hhit] at hs'
    exact ⟨hs.andThen hs'.1 _, fun f hf => (hs'.2 f hf).of_leads hs.leads⟩

theorem bounded_gather [Accumulator α] (minimum : Nat) {parts : List (Parser α)}
    (hp : ∀ p ∈ parts, p.Bounded) : (gather minimum parts).Bounded := by
  intro c
  simp only [gather]
  cases h : scan parts c with
  | none => trivial
  | some s =>
    obtain ⟨hfound, hmissed⟩ := inside_scanFrom hp (.start _ c) (Failure.forall_mem_none) h
    dsimp only
    split
    · refine Failure.Inside.orRecovered ?_ hfound.recovered
      cases hs : s.missed with
      | none => exact (Failure.inside_at _ s.found.cursor).of_leads hfound.leads
      | some g => exact hmissed g hs
    · exact hfound.recovering hmissed

/-! ## All composed parsers -/

theorem Composed.bounded {p : Parser α} (hp : p.Composed) : p.Bounded := by
  induction hp with
  | single description read => exact bounded_single description read
  | succeed value => exact fun c => .start value c
  | fail problem => exact fun c => Failure.inside_at problem c
  | described _ _ ih => exact ih
  | map _ f ih => exact ih.map f
  | refine _ f ih => exact ih.refine f
  | withDefault _ default ih => exact ih.withDefault default
  | exhaustive _ ih => exact ih.exhaustive
  | oneOf _ ih => exact bounded_oneOf ih
  | pair _ _ ihp ihq => exact ihp.pair ihq
  | sequence _ ih => exact fun c => inside_sequenceFrom ih (.start [] c)
  | atLeast minimum _ ih => exact bounded_atLeast minimum ih
  | separated minimum _ _ ihp ihs => exact bounded_separated minimum ihp ihs
  | upTo _ _ _ ihp => exact bounded_upTo _ ihp
  | gather minimum _ ih => exact bounded_gather minimum ih

/-- A composed parser never leaves the tokens that it was given, and where a token is to
be seen, the cursor can pass it. -/
theorem Composed.run_ofIndex_within {p : Parser α} (hp : p.Composed) {tokens : List Token}
    {start : Nat} (hstart : start ≤ tokens.length) :
    (p.run (.ofIndex tokens start)).Within tokens start ∧
      ∀ index token, (Cursor.ofIndex tokens index).peek = some token →
        (Cursor.ofIndex tokens index).advance = some (.ofIndex tokens (index + 1)) ∧
          index + 1 ≤ tokens.length := by
  refine ⟨(hp.bounded _).within hstart, fun index token hpeek => ?_⟩
  have hdrop : (tokens.drop index).head? = some token := hpeek
  have hlt : index < tokens.length := by
    by_cases hlt : index < tokens.length
    · exact hlt
    · rw [List.drop_eq_nil_of_le (by omega)] at hdrop
      cases hdrop
  refine ⟨?_, hlt⟩
  rw [Cursor.ofIndex, Cursor.ofIndex, List.drop_eq_getElem_cons hlt]
  rfl

/-- A repetition that stops in front of a trailing separator recovers from a failure at
the end of the tokens, and that is as far as it may go. -/
theorem run_ofIndex_within_trailing_separator :
    (separated 1 Operand.word Operand.separator).Composed ∧ 1 ≤ ["list", "a", "--"].length ∧
      ((separated 1 Operand.word Operand.separator).run (.ofIndex ["list", "a", "--"] 1)).Within
        ["list", "a", "--"] 1 :=
  have hp : (separated 1 Operand.word Operand.separator).Composed :=
    .separated 1 (.reading ..) (.literal ..)
  ⟨hp, by decide, (hp.run_ofIndex_within (by decide)).1⟩

end Parser
end SimControl
