/-
Failures whose problem is about the token that they point at.

What could not be interpreted is the token at the offset of the failure, or the end of the
tokens.  What is left over are the tokens from there on, and what was refused is a token that
is there.  Failures are compared by offset only and handed on through matches that recovered
from them, but each of them keeps the offset that it was raised with.

A match at the end of the tokens may have recovered from a refusal in which no token had a
part.  That one is never reported: a later failure lies at the end as well, and of two failures
at one offset the later one is kept.  So nothing is asked of what such a match recovered from.
-/
import SimControl.Proofs.Yielding

namespace SimControl

/-! ## Problems and failures -/

/-- The problem is about the first of the tokens ahead, or about their end. -/
def Problem.About (ahead : List Token) : Problem → Prop
  | .uninterpretable _ actual => actual = ahead.head?
  | .objection _ => ahead ≠ []
  | .leftover tokens => tokens = ahead ∧ ahead ≠ []

theorem Problem.Concerns.about {token : Token} {problem : Problem} (h : problem.Concerns token)
    (rest : List Token) : problem.About (token :: rest) := by
  cases h with
  | uninterpretable expected => rfl
  | objection reason => exact List.cons_ne_nil token rest

theorem Cursor.Leads.rest_ne_nil {c d : Cursor} (h : c.Leads d) (hd : d.rest ≠ []) :
    c.rest ≠ [] := by
  obtain ⟨passed, hrest, _⟩ := h
  rw [hrest]
  exact List.append_ne_nil_of_right_ne_nil passed hd

theorem Cursor.Leads.rest_eq_drop {tokens : List Token} {c : Cursor}
    (h : (Cursor.start tokens).Leads c) : c.rest = tokens.drop c.position :=
  congrArg Cursor.rest h.eq_ofIndex

namespace Failure

/-- The failure points into `tokens`, and its problem is about what stands there. -/
structure Apt (tokens : List Token) (f : Failure) : Prop where
  inside : f.Inside (.start tokens)
  about : f.problem.About (tokens.drop f.offset)

variable {tokens : List Token}

theorem apt_at {c : Cursor} (hc : (Cursor.start tokens).Leads c) {problem : Problem}
    (h : problem.About c.rest) : Apt tokens ⟨problem, c.position⟩ where
  inside := (inside_at problem c).of_leads hc
  about := by
    rw [hc.rest_eq_drop] at h
    exact h

theorem Apt.orRecovered {f : Failure} {recovered : Option Failure} (hf : f.Apt tokens)
    (hr : ∀ g ∈ recovered, g.Apt tokens) : (f.orRecovered recovered).Apt tokens :=
  orRecovered_of (P := Apt tokens) hf hr

end Failure

/-! ## Matches -/

/-- Unless the match ends with the tokens, it recovered from an apt failure. -/
structure Match.Apt {α : Type} (tokens : List Token) (m : Match α) : Prop where
  inside : m.Inside (.start tokens)
  recovered : m.cursor.rest ≠ [] → ∀ f ∈ m.recovered, f.Apt tokens

namespace Match.Apt

variable {α β γ : Type} {tokens : List Token}

theorem start {c : Cursor} (hc : (Cursor.start tokens).Leads c) (value : α) :
    (⟨value, c, none⟩ : Match α).Apt tokens :=
  ⟨⟨hc, Failure.forall_mem_none⟩, fun _ => Failure.forall_mem_none⟩

theorem map {m : Match α} (hm : m.Apt tokens) (f : α → β) : (m.map f).Apt tokens :=
  ⟨hm.inside.map f, hm.recovered⟩

theorem recovering {m : Match α} {failure : Option Failure} (hm : m.Apt tokens)
    (hf : ∀ f ∈ failure, f.Apt tokens) : (m.recovering failure).Apt tokens where
  inside := hm.inside.recovering fun f hmem => (hf f hmem).inside
  recovered hsome := Failure.forall_mem_deepest (hm.recovered hsome) hf

theorem andThen {m : Match α} {n : Match β} (hm : m.Apt tokens) (hn : n.Apt tokens)
    (h : m.cursor.Leads n.cursor) (f : α → β → γ) : (m.andThen n f).Apt tokens where
  inside := ⟨hn.inside.leads, Failure.forall_mem_deepest hm.inside.recovered hn.inside.recovered⟩
  recovered hsome :=
    Failure.forall_mem_deepest (hm.recovered (h.rest_ne_nil hsome)) (hn.recovered hsome)

/-- A failure behind the match is reported, or a further one that is apt as well. -/
theorem orRecovered {m : Match α} (hm : m.Apt tokens) {f : Failure} (hf : f.Apt tokens)
    (hpast : m.cursor.position ≤ f.offset) : (f.orRecovered m.recovered).Apt tokens := by
  by_cases hend : m.cursor.rest = []
  · rw [Failure.orRecovered_eq_self fun g hg => ?_]
    · exact hf
    · have hlength := hm.inside.leads.sourceLength_eq
      have hle := (hm.inside.recovered g hg).2
      rw [← hlength, Cursor.sourceLength, hend, List.length_nil] at hle
      omega
  · exact hf.orRecovered (hm.recovered hend)

end Match.Apt

/-- What a run ends with is apt, whether it is a match or a failure. -/
def Outcome.Apt {α : Type} (tokens : List Token) : Outcome (Match α) → Prop
  | .done m => m.Apt tokens
  | .failed f => f.Apt tokens
  | .endless => True

/-- The same for one pass over the branches of a choice. -/
def Attempt.Apt {α : Type} (tokens : List Token) : Attempt α → Prop
  | .hit m missed => m.Apt tokens ∧ ∀ f ∈ missed, f.Apt tokens
  | .miss missed => ∀ f ∈ missed, f.Apt tokens
  | .endless => True

namespace Parser

variable {α β γ δ : Type}

/-- Whatever the tokens are, a run stays among them, and a failure that it ends with or recovers
from has a problem about the token at its offset. -/
structure Apt (p : Parser α) : Prop where
  bounded : p.Bounded
  run_apt {tokens : List Token} {c : Cursor} :
    (Cursor.start tokens).Leads c → (p.run c).Apt tokens

section Runs

variable {p : Parser α} {tokens : List Token} {c : Cursor}

theorem Apt.done (hp : p.Apt) (hc : (Cursor.start tokens).Leads c) {m : Match α}
    (h : p.run c = .done m) : m.Apt tokens := by
  have hrun := hp.run_apt hc
  rw [h] at hrun
  exact hrun

theorem Apt.failed (hp : p.Apt) (hc : (Cursor.start tokens).Leads c) {f : Failure}
    (h : p.run c = .failed f) : f.Apt tokens := by
  have hrun := hp.run_apt hc
  rw [h] at hrun
  exact hrun

/-- To go on where a match ended. -/
theorem Apt.next (hp : p.Apt) {m : Match β} (hm : m.Apt tokens) {n : Match α}
    (h : p.run m.cursor = .done n) (f : β → α → γ) : (m.andThen n f).Apt tokens :=
  hm.andThen (hp.done hm.inside.leads h) (hp.bounded.done h).leads f

/-- To stop where a match ended. -/
theorem Apt.stop (hp : p.Apt) {m : Match β} (hm : m.Apt tokens) {f : Failure}
    (h : p.run m.cursor = .failed f) : (f.orRecovered m.recovered).Apt tokens :=
  hm.orRecovered (hp.failed hm.inside.leads h) (hp.bounded.failed h).1

end Runs

/-! ## Single parsers -/

theorem Tells.apt {p : Parser α} (hp : p.Tells) : p.Apt where
  bounded := hp.prompt.accountable.bounded
  run_apt {tokens c} hc := by
    obtain ⟨description, read, rfl, hread⟩ := hp
    obtain ⟨position, rest⟩ := c
    cases rest with
    | nil => exact Failure.apt_at hc rfl
    | cons token rest =>
      simp only [single]
      cases hvalue : read token with
      | ok value => exact .start (hc.trans (.cons position token rest)) value
      | error problem => exact Failure.apt_at hc ((hread token problem hvalue).about rest)

theorem apt_reading (description : String) (read : Token → Option α) :
    (reading description read).Apt := (tells_reading description read).apt

theorem apt_literal (text : Token) (value : α) : (literal text value).Apt := apt_reading _ _

theorem Apt.described {p : Parser α} (hp : p.Apt) (description : String) :
    (p.described description).Apt := ⟨hp.bounded, hp.run_apt⟩

theorem Apt.map {p : Parser α} (hp : p.Apt) (f : α → β) : (p.map f).Apt where
  bounded := hp.bounded.map f
  run_apt {tokens c} hc := by
    show Outcome.Apt tokens ((p.run c).map _)
    cases h : p.run c with
    | done m => exact (hp.done hc h).map f
    | failed e => exact hp.failed hc h
    | endless => trivial

theorem Apt.withDefault {p : Parser α} (hp : p.Apt) (default : α) :
    (p.withDefault default).Apt where
  bounded := hp.bounded.withDefault default
  run_apt {tokens c} hc := by
    simp only [Parser.withDefault]
    cases h : p.run c with
    | done m => exact hp.done hc h
    | endless => trivial
    | failed e =>
      have hmissed := Failure.forall_mem_some (hp.failed hc h)
      exact (Match.Apt.start hc default).recovering hmissed

theorem Apt.optional {p : Parser α} (hp : p.Apt) : p.optional.Apt :=
  (hp.map some).withDefault none

theorem apt_exhausted {tokens : List Token} {m : Match α} (hm : m.Apt tokens) :
    m.exhausted.Apt tokens := by
  by_cases hend : m.cursor.rest = []
  · rw [Match.exhausted_of_rest_eq_nil hend]
    exact hm
  · by_cases hdeep : ∃ f ∈ m.recovered, m.cursor.position ≤ f.offset
    · obtain ⟨f, hf, hle⟩ := hdeep
      rw [Match.exhausted_of_recovered hend hf hle]
      exact hm.recovered hend f hf
    · rw [Match.exhausted_of_leftover hend fun f hf =>
        Nat.lt_of_not_le fun hle => hdeep ⟨f, hf, hle⟩]
      exact Failure.apt_at hm.inside.leads ⟨rfl, hend⟩

theorem Apt.exhaustive {p : Parser α} (hp : p.Apt) : p.exhaustive.Apt where
  bounded := hp.bounded.exhaustive
  run_apt {tokens c} hc := by
    show Outcome.Apt tokens ((p.run c).bind _)
    cases h : p.run c with
    | done m => exact apt_exhausted (hp.done hc h)
    | failed e => exact hp.failed hc h
    | endless => trivial

/-! ## Conversions -/

section Refine

variable {p : Parser α} {f : α → Except Problem β} {tokens : List Token} {c : Cursor}

theorem Apt.refine_done (hp : p.Apt) (hc : (Cursor.start tokens).Leads c) {m : Match β}
    (h : (p.refine f).run c = .done m) : m.Apt tokens := by
  obtain ⟨n, hn, h⟩ := Outcome.bind_eq_done_iff.mp h
  have happroved := hp.done hc hn
  cases hvalue : f n.value with
  | error problem =>
    rw [hvalue] at h
    cases h
  | ok value =>
    rw [hvalue] at h
    obtain rfl := Outcome.done.inj h
    exact ⟨⟨happroved.inside.leads, happroved.inside.recovered⟩, happroved.recovered⟩

theorem Apt.refine_failed (hp : p.Apt) (hstays : p.Stays f)
    (hc : (Cursor.start tokens).Leads c) (hsome : c.rest ≠ []) {e : Failure}
    (h : (p.refine f).run c = .failed e) : e.Apt tokens := by
  simp only [Parser.refine] at h
  cases hrun : p.run c with
  | endless =>
    rw [hrun] at h
    cases h
  | failed e' =>
    rw [hrun] at h
    obtain rfl := Outcome.failed.inj h
    exact hp.failed hc hrun
  | done m =>
    rw [hrun, Outcome.bind_done] at h
    cases hvalue : f m.value with
    | ok value =>
      rw [hvalue] at h
      cases h
    | error problem =>
      rw [hvalue] at h
      obtain rfl := Outcome.failed.inj h
      obtain ⟨hcursor, reason, rfl⟩ := hstays c m problem hrun hvalue
      have hrefused : Failure.Apt tokens ⟨.objection reason, c.position⟩ :=
        Failure.apt_at hc hsome
      exact hrefused.orRecovered ((hp.done hc hrun).recovered (hcursor ▸ hsome))

/-- At the end of the tokens there is none to refuse, but an optional part recovers from that
at once. -/
theorem Apt.optional_refine (hp : p.Apt) (hstays : p.Stays f) (description : String) :
    ((p.refine f).described description).optional.Apt where
  bounded := ((hp.bounded.refine f).map some).withDefault none
  run_apt {tokens c} hc := by
    simp only [Parser.optional, Parser.withDefault, Parser.map, described_run]
    cases h : (p.refine f).run c with
    | endless => trivial
    | done m => exact (hp.refine_done hc h).map some
    | failed e =>
      have hinside : e.Inside (.start tokens) := ((hp.bounded.refine f).failed h).of_leads hc
      refine ⟨⟨hc, Failure.forall_mem_some hinside⟩, fun hsome => ?_⟩
      exact Failure.forall_mem_some (hp.refine_failed hstays hc hsome h)

end Refine

/-! ## Choice -/

section Branches

variable {branches : List (Parser α)} {tokens : List Token} {c : Cursor}

theorem apt_attempt (hp : ∀ p ∈ branches, p.Apt) (hc : (Cursor.start tokens).Leads c)
    {missed : Option Failure} (hmissed : ∀ f ∈ missed, f.Apt tokens) :
    (attempt branches c missed).Apt tokens := by
  induction branches generalizing missed with
  | nil => exact hmissed
  | cons p branches ih =>
    have hhead := hp p List.mem_cons_self
    rw [attempt]
    cases h : p.run c with
    | endless => trivial
    | done m => exact ⟨hhead.done hc h, hmissed⟩
    | failed f =>
      refine ih (fun q hq => hp q (List.mem_cons_of_mem p hq)) ?_
      exact Failure.forall_mem_deepest hmissed (Failure.forall_mem_some (hhead.failed hc h))

theorem apt_oneOf (hp : ∀ p ∈ branches, p.Apt) : (oneOf branches).Apt where
  bounded := bounded_oneOf fun p hmem => (hp p hmem).bounded
  run_apt {tokens c} hc := by
    have hpass := apt_attempt hp hc Failure.forall_mem_none
    simp only [oneOf]
    cases h : attempt branches c none with
    | endless => trivial
    | hit m missed =>
      rw [h] at hpass
      exact hpass.1
    | miss missed =>
      rw [h] at hpass
      cases missed with
      | some f => exact hpass f rfl
      | none => exact Failure.apt_at hc rfl

end Branches

/-! ## Sequences -/

theorem apt_continueWith {q : Parser β} (hq : q.Apt) {tokens : List Token} {m : Match α}
    (hm : m.Apt tokens) (f : α → β → γ) : (continueWith m q f).Apt tokens := by
  unfold continueWith
  cases h : q.run m.cursor with
  | done n => exact hq.next hm h f
  | failed e => exact hq.stop hm h
  | endless => trivial

theorem Apt.pair {p : Parser α} {q : Parser β} (hp : p.Apt) (hq : q.Apt) : (p.pair q).Apt where
  bounded := hp.bounded.pair hq.bounded
  run_apt {tokens c} hc := by
    show Outcome.Apt tokens ((p.run c).bind _)
    cases h : p.run c with
    | done m => exact apt_continueWith hq (hp.done hc h) _
    | failed e => exact hp.failed hc h
    | endless => trivial

theorem apt_triple {p : Parser α} {q : Parser β} {r : Parser γ} (hp : p.Apt) (hq : q.Apt)
    (hr : r.Apt) : (triple p q r).Apt := ((hp.pair hq).pair hr).map _

theorem apt_quadruple {p : Parser α} {q : Parser β} {r : Parser γ} {s : Parser δ} (hp : p.Apt)
    (hq : q.Apt) (hr : r.Apt) (hs : s.Apt) : (quadruple p q r s).Apt :=
  ((apt_triple hp hq hr).pair hs).map _

theorem Apt.keyword {p : Parser α} (hp : p.Apt) (text : Token) : (keyword text p).Apt :=
  (((apt_literal text ()).pair hp).map Prod.snd).described _

/-! ## Repetitions -/

section Repetitions

variable {p : Parser α} {tokens : List Token} {m : Match (List α)}

/-- A repetition of a parser that takes tokens ends because the parser fails. -/
theorem apt_repeatFrom (hp : p.Apt) (htake : p.Consuming) (minimum : Nat) (hm : m.Apt tokens) :
    (repeatFrom minimum p m).Apt tokens := by
  fun_induction repeatFrom minimum p m with
  | case1 m h => trivial
  | case2 m failure h hfew => exact hp.stop hm h
  | case3 m failure h hfew =>
    exact hm.recovering (Failure.forall_mem_some (hp.failed hm.inside.leads h))
  | case4 m next h hless ih => exact ih (hp.next hm h _)
  | case5 m next h hless hfew => exact absurd (htake _ _ h) hless
  | case6 m next h hless hfew => exact absurd (htake _ _ h) hless

theorem apt_atLeast (minimum : Nat) (hp : p.Apt) (htake : p.Consuming) :
    (atLeast minimum p).Apt where
  bounded := bounded_atLeast minimum hp.bounded
  run_apt hc := apt_repeatFrom hp htake minimum (.start hc [])

theorem apt_separatedFrom {separator : Parser β} (hp : p.Apt) (hs : separator.Apt)
    (hm : m.Apt tokens) {n : Match (List α)} {stopped : Option Failure}
    (h : separatedFrom p separator m = .done (n, stopped)) :
    n.Apt tokens ∧ (∀ f ∈ stopped, f.Apt tokens) ∧ m.value.length ≤ n.value.length := by
  fun_induction separatedFrom p separator m with
  | case1 m hend => cases h
  | case2 m failure hfail =>
    obtain ⟨rfl, rfl⟩ := Prod.mk.inj (Outcome.done.inj h)
    exact ⟨hm, Failure.forall_mem_none, Nat.le_refl _⟩
  | case3 m between hbetween hend => cases h
  | case4 m between hbetween failure hfail =>
    obtain ⟨rfl, rfl⟩ := Prod.mk.inj (Outcome.done.inj h)
    have hafter := (hs.done hm.inside.leads hbetween).inside.leads
    exact ⟨hm, Failure.forall_mem_some (hp.failed hafter hfail), Nat.le_refl _⟩
  | case5 m between hbetween next hnext hless ih =>
    have hafter := hs.done hm.inside.leads hbetween
    have hleads := (hs.bounded.done hbetween).leads.trans (hp.bounded.done hnext).leads
    obtain ⟨hn, hstopped, hlength⟩ :=
      ih (hm.andThen (hp.done hafter.inside.leads hnext) hleads _) h
    refine ⟨hn, hstopped, Nat.le_trans ?_ hlength⟩
    show m.value.length ≤ (m.value ++ [next.value]).length
    rw [List.length_append]
    exact Nat.le_add_right _ _
  | case6 m between hbetween next hnext hless => cases h

/-- The one item that is demanded is there or is sought in vain, so that a repetition is never
too short without a reason. -/
theorem apt_separated_one {separator : Parser β} (hp : p.Apt) (hs : separator.Apt) :
    (separated 1 p separator).Apt where
  bounded := bounded_separated 1 hp.bounded hs.bounded
  run_apt {tokens c} hc := by
    simp only [separated]
    cases h : p.run c with
    | endless => trivial
    | failed f => exact hp.failed hc h
    | done first =>
      dsimp only
      cases hrun : separatedFrom p separator (first.map ([·])) with
      | endless => trivial
      | failed f => exact absurd hrun (separatedFrom_ne_failed p separator _ f)
      | done result =>
        obtain ⟨n, stopped⟩ := result
        obtain ⟨hn, hstopped, hlength⟩ :=
          apt_separatedFrom hp hs ((hp.done hc h).map ([·])) hrun
        have hmany : ¬ n.value.length < 1 := Nat.not_lt.mpr hlength
        rw [Outcome.bind_done, if_neg hmany]
        exact hn.recovering hstopped

theorem apt_upToFrom (stop : Parser β) (hp : p.Apt) (hm : m.Apt tokens) :
    (upToFrom stop p m).Apt tokens := by
  fun_induction upToFrom stop p m with
  | case1 m hend => exact hm
  | case2 m hrest h => trivial
  | case3 m hrest stopped h => exact hm
  | case4 m hrest failure hfail h => trivial
  | case5 m hrest failure hfail failure' h => exact hp.stop hm h
  | case6 m hrest failure hfail next h hless ih => exact ih (hp.next hm h _)
  | case7 m hrest failure hfail next h hless => exact hp.next hm h _

theorem apt_upTo (stop : Parser β) (hp : p.Apt) : (upTo stop p).Apt where
  bounded := bounded_upTo stop hp.bounded
  run_apt hc := apt_upToFrom stop hp (.start hc [])

end Repetitions

/-! ## Gathering -/

section Gathering

variable [Accumulator α] {parts : List (Parser α)} {tokens : List Token}

theorem apt_scanFrom (hp : ∀ p ∈ parts, p.Apt) {s t : Scan α} (hs : s.found.Apt tokens)
    (hmissed : ∀ f ∈ s.missed, f.Apt tokens) (h : scanFrom parts s = some t) :
    t.found.Apt tokens ∧ ∀ f ∈ t.missed, f.Apt tokens := by
  have hround {m : Match α} (hm : m.Apt tokens) :=
    apt_attempt hp hm.inside.leads Failure.forall_mem_none
  have hstep {m next : Match α} {missed : Option Failure} (hm : m.Apt tokens)
      (hhit : attempt parts m.cursor none = .hit next missed) :
      (m.andThen next Accumulator.append).Apt tokens ∧ ∀ f ∈ missed, f.Apt tokens := by
    obtain ⟨p, hmem, hnext⟩ := exists_mem_of_attempt hhit
    have hpass := hround hm
    rw [hhit] at hpass
    exact ⟨(hp p hmem).next hm hnext _, hpass.2⟩
  fun_induction scanFrom parts s with
  | case1 s hend =>
    obtain rfl := Option.some.inj h
    exact ⟨hs, hmissed⟩
  | case2 s hrest hend => cases h
  | case3 s hrest missed hmiss =>
    obtain rfl := Option.some.inj h
    have hpass := hround hs
    rw [hmiss] at hpass
    exact ⟨hs, hpass⟩
  | case4 s hrest next missed hhit found hless ih =>
    obtain ⟨hfound, hafter⟩ := hstep hs hhit
    exact ih hfound hafter h
  | case5 s hrest next missed hhit found hless =>
    obtain rfl := Option.some.inj h
    exact hstep hs hhit

/-- Where the one part that may be demanded is missing, nothing was put together. -/
theorem apt_gather {minimum : Nat} (hminimum : minimum ≤ 1) (hp : ∀ p ∈ parts, p.Apt) :
    (gather minimum parts).Apt where
  bounded := bounded_gather minimum fun p hmem => (hp p hmem).bounded
  run_apt {tokens c} hc := by
    simp only [gather]
    cases h : scan parts c with
    | none => trivial
    | some s =>
      obtain ⟨hfound, hmissed⟩ := apt_scanFrom hp (.start hc _) Failure.forall_mem_none h
      dsimp only
      by_cases hfew : s.count < minimum
      · rw [if_pos hfew]
        have hcount : s.count = 0 := by omega
        have hstart : s.found = ⟨Accumulator.identity, c, none⟩ :=
          (found_eq_of_count parts h).2 hcount
        rw [hstart]
        cases hlast : s.missed with
        | none => exact Failure.apt_at hc rfl
        | some f => exact hmissed f hlast
      · rw [if_neg hfew]
        exact hfound.recovering hmissed

end Gathering

/-! ## Words of an enumerated type -/

section Enumerated

variable [Enumerated α] {text : α → Token}

theorem apt_of_mem_literals {p : Parser α} (hp : p ∈ literals text) : p.Apt := by
  obtain ⟨a, _, rfl⟩ := List.mem_map.mp hp
  exact apt_literal _ _

theorem apt_oneSpelled (text : α → Token) : (oneSpelled text).Apt :=
  apt_oneOf fun _ => apt_of_mem_literals

variable [DecidableEq α]

theorem apt_of_mem_flags {p : Parser (EnumSet α)} (hp : p ∈ flags text) : p.Apt := by
  obtain ⟨q, hq, rfl⟩ := List.mem_map.mp hp
  exact (apt_of_mem_literals hq).map _

theorem apt_flagSet {minimum : Nat} (hminimum : minimum ≤ 1) (text : α → Token) :
    (flagSet minimum text).Apt := apt_gather hminimum fun _ => apt_of_mem_flags

end Enumerated

end Parser
end SimControl
