/-
Parsers whose failures are to blame on what they have looked at.

An accountable parser has not looked behind the token that settles its run, so that the run
would have been the same if other tokens had followed.

This asks that no failure is passed over in silence if it lies further on than what is
reported.  For a choice it is a condition on the branches, `YieldsTo`: a branch that failed
must not have got further than the one that matched.
-/
import SimControl.Proofs.Heads
import SimControl.Proofs.Settled

namespace SimControl
namespace Parser

variable {α β γ : Type}

/-- A settled run would be the same over other tokens behind those it has looked at. -/
structure Accountable (p : Parser α) : Prop where
  bounded : p.Bounded
  run_eq {k n : Nat} {tokens tokens' : List Token} : SameUpTo k tokens tokens' →
    (p.run (.ofIndex tokens n)).SettledBy k →
      p.run (.ofIndex tokens' n) = (p.run (.ofIndex tokens n)).onto tokens'

section Continuing

variable {p : Parser α} {k n : Nat} {tokens tokens' : List Token}

theorem Accountable.done (hp : p.Accountable) (h : SameUpTo k tokens tokens') {m : Match α}
    (hm : p.run (.ofIndex tokens n) = .done m) (hs : m.SettledBy k) :
    p.run (.ofIndex tokens' n) = .done (m.onto tokens') := by
  have hrun := hp.run_eq (n := n) h
  rw [hm] at hrun
  exact hrun hs

theorem Accountable.failed (hp : p.Accountable) (h : SameUpTo k tokens tokens') {f : Failure}
    (hf : p.run (.ofIndex tokens n) = .failed f) (hs : f.offset ≤ k) :
    p.run (.ofIndex tokens' n) = .failed (f.onto tokens') := by
  have hrun := hp.run_eq (n := n) h
  rw [hf] at hrun
  exact hrun hs

/-- To go on after a match it is enough that what follows settles the match. -/
theorem Accountable.bind (hp : p.Accountable) (h : SameUpTo k tokens tokens')
    {f : Match α → Outcome (Match β)} (hs : ((p.run (.ofIndex tokens n)).bind f).SettledBy k)
    (hf : ∀ m, p.run (.ofIndex tokens n) = .done m → (f m).SettledBy k →
      m.SettledBy k ∧ f (m.onto tokens') = (f m).onto tokens') :
    (p.run (.ofIndex tokens' n)).bind f = ((p.run (.ofIndex tokens n)).bind f).onto tokens' := by
  cases hrun : p.run (.ofIndex tokens n) with
  | endless =>
    rw [hrun] at hs
    cases hs
  | failed e =>
    rw [hrun] at hs
    rw [hp.failed h hrun hs]
    rfl
  | done m =>
    rw [hrun] at hs
    obtain ⟨hm, honto⟩ := hf m hrun hs
    rw [hp.done h hrun hm]
    exact honto

end Continuing

/-! ## Single parsers -/

theorem accountable_single {description : String} {read : Token → Except Problem α}
    (hread : ∀ token problem, read token = .error problem → problem.Local) :
    (single description read).Accountable where
  bounded := bounded_single description read
  run_eq {k n tokens tokens'} h hs := by
    have hn : n ≤ k := hs.start_le (bounded_single description read _)
    obtain ⟨token, hrest, hrest'⟩ := h.exists_token hn
    simp only [single, Cursor.ofIndex, hrest, hrest']
    cases hvalue : read token with
    | ok value => rfl
    | error problem =>
      have honto : Failure.onto tokens' ⟨problem, n⟩ = ⟨problem, n⟩ :=
        Failure.onto_eq_self (hread token problem hvalue) tokens'
      exact congrArg Outcome.failed honto.symm

theorem accountable_reading (description : String) (read : Token → Option α) :
    (reading description read).Accountable := by
  refine accountable_single fun token problem h => ?_
  cases hvalue : read token with
  | some value =>
    rw [hvalue] at h
    cases h
  | none =>
    rw [hvalue] at h
    cases h
    exact Problem.local_uninterpretable _ _

theorem accountable_literal (text : Token) (value : α) : (literal text value).Accountable :=
  accountable_reading _ _

theorem Accountable.described {p : Parser α} (hp : p.Accountable) (description : String) :
    (p.described description).Accountable := ⟨hp.bounded, hp.run_eq⟩

theorem Accountable.map {p : Parser α} (hp : p.Accountable) (f : α → β) :
    (p.map f).Accountable where
  bounded := hp.bounded.map f
  run_eq h hs := hp.bind h hs fun _ _ hm => ⟨⟨hm.position, hm.recovered⟩, rfl⟩

theorem Accountable.withDefault {p : Parser α} (hp : p.Accountable) (default : α) :
    (p.withDefault default).Accountable where
  bounded := hp.bounded.withDefault default
  run_eq {k n tokens tokens'} h hs := by
    simp only [Parser.withDefault] at hs ⊢
    cases hrun : p.run (.ofIndex tokens n) with
    | done m =>
      rw [hrun] at hs
      rw [hp.done h hrun hs]
      rfl
    | failed e =>
      rw [hrun] at hs
      rw [hp.failed h hrun (hs.recovered e rfl)]
      rfl
    | endless =>
      rw [hrun] at hs
      cases hs

theorem Accountable.optional {p : Parser α} (hp : p.Accountable) : p.optional.Accountable :=
  (hp.map some).withDefault none

/-- What a conversion refuses was read from no tokens. -/
def Stays (p : Parser α) (f : α → Except Problem β) : Prop :=
  ∀ c m problem, p.run c = .done m → f m.value = .error problem →
    m.cursor = c ∧ ∃ reason, problem = .objection reason

/-- A refusal of what was read from no tokens is blamed on the place where the parser started
and stayed. -/
theorem Accountable.refine {p : Parser α} (hp : p.Accountable) {f : α → Except Problem β}
    (hstays : p.Stays f) : (p.refine f).Accountable where
  bounded := hp.bounded.refine f
  run_eq {k n tokens tokens'} h hs := by
    refine hp.bind h hs fun m hrun hm => ?_
    have hvalue' : (m.onto tokens').value = m.value := rfl
    cases hvalue : f m.value with
    | ok value =>
      simp only [hvalue', hvalue] at hm ⊢
      exact ⟨⟨hm.position, hm.recovered⟩, rfl⟩
    | error problem =>
      obtain ⟨hcursor, reason, rfl⟩ := hstays _ m problem hrun hvalue
      simp only [hvalue', hvalue] at hm ⊢
      obtain ⟨hn, hrecovered⟩ := Failure.offset_orRecovered_le_iff.mp hm
      have hposition : m.cursor.position ≤ k := by
        rw [hcursor]
        exact hn
      have honto : Failure.onto tokens' ⟨.objection reason, n⟩ = ⟨.objection reason, n⟩ :=
        Failure.onto_eq_self (Problem.local_objection reason) tokens'
      refine ⟨⟨hposition, hrecovered⟩, congrArg Outcome.failed ?_⟩
      refine Eq.trans ?_ (Failure.onto_orRecovered _ _).symm
      exact congrArg (Failure.orRecovered · _) honto.symm

/-- Tokens that are left over are blamed where they are left, so that the match before them is
settled. -/
theorem onto_exhausted {k : Nat} {tokens tokens' : List Token} (h : SameUpTo k tokens tokens')
    {m : Match α} (hm : m.cursor = .ofIndex tokens m.cursor.position)
    (hs : m.exhausted.SettledBy k) :
    m.SettledBy k ∧ (m.onto tokens').exhausted = m.exhausted.onto tokens' := by
  by_cases hrest : m.cursor.rest = []
  · -- The match ends behind the token at `k`, and so it is not settled.
    rw [Match.exhausted_of_rest_eq_nil hrest] at hs
    have hsome := (h.rest_ne_nil hs.position).1
    rw [← hm] at hsome
    exact absurd hrest hsome
  · by_cases hdeep : ∃ f ∈ m.recovered, m.cursor.position ≤ f.offset
    · obtain ⟨f, hf, hle⟩ := hdeep
      rw [Match.exhausted_of_recovered hrest hf hle] at hs ⊢
      have hposition : m.cursor.position ≤ k := Nat.le_trans hle hs
      refine ⟨⟨hposition, fun g hg => ?_⟩, ?_⟩
      · obtain rfl := Option.some.inj (hf.symm.trans hg)
        exact hs
      · have hf' : (m.onto tokens').recovered = some (f.onto tokens') :=
          congrArg (Option.map (Failure.onto tokens')) hf
        exact Match.exhausted_of_recovered (h.rest_ne_nil hposition).2 hf' hle
    · have hlt : ∀ f ∈ m.recovered, f.offset < m.cursor.position :=
        fun f hf => Nat.lt_of_not_le fun hle => hdeep ⟨f, hf, hle⟩
      rw [Match.exhausted_of_leftover hrest hlt] at hs ⊢
      have hposition : m.cursor.position ≤ k := hs
      refine ⟨⟨hposition, fun f hf => ?_⟩, ?_⟩
      · exact Nat.le_trans (Nat.le_of_lt (hlt f hf)) hposition
      · refine Match.exhausted_of_leftover (h.rest_ne_nil hposition).2 fun g hg => ?_
        obtain ⟨f, hf, rfl⟩ := Option.map_eq_some_iff.mp hg
        exact hlt f hf

theorem Accountable.exhaustive {p : Parser α} (hp : p.Accountable) : p.exhaustive.Accountable where
  bounded := hp.bounded.exhaustive
  run_eq h hs := hp.bind h hs fun _ hrun =>
    onto_exhausted h (hp.bounded.done hrun).leads.eq_ofIndex

/-! ## Choice -/

/-- Where `q` matches, `p` has not failed at a place further on than those of the match. -/
def YieldsTo (p : Parser α) (q : Parser β) : Prop :=
  ∀ (c : Cursor) (f : Failure) (m : Match β) (k : Nat),
    p.run c = .failed f → q.run c = .done m → m.SettledBy k → f.offset ≤ k

section Branches

variable {branches : List (Parser α)} {k n : Nat} {tokens tokens' : List Token}

theorem onto_attempt_hit (hp : ∀ p ∈ branches, p.Accountable)
    (hyields : branches.Pairwise YieldsTo) (h : SameUpTo k tokens tokens')
    {missed missed' : Option Failure} {m : Match α}
    (hhit : attempt branches (.ofIndex tokens n) missed = .hit m missed') (hm : m.SettledBy k) :
    attempt branches (.ofIndex tokens' n) (missed.map (Failure.onto tokens')) =
      .hit (m.onto tokens') (missed'.map (Failure.onto tokens')) := by
  induction branches generalizing missed with
  | nil => cases hhit
  | cons p branches ih =>
    obtain ⟨hfirst, hothers⟩ := List.pairwise_cons.mp hyields
    have hpa := hp p List.mem_cons_self
    rw [attempt] at hhit ⊢
    cases hrun : p.run (.ofIndex tokens n) with
    | endless =>
      rw [hrun] at hhit
      cases hhit
    | done next =>
      rw [hrun] at hhit
      obtain ⟨rfl, rfl⟩ := Attempt.hit.inj hhit
      rw [hpa.done h hrun hm]
    | failed f =>
      rw [hrun] at hhit
      obtain ⟨q, hq, hmatch⟩ := exists_mem_of_attempt hhit
      rw [hpa.failed h hrun (hfirst q hq _ f m k hrun hmatch hm)]
      have htail := ih (fun q hq => hp q (List.mem_cons_of_mem p hq)) hothers hhit
      rw [Failure.onto_deepest] at htail
      exact htail

/-- The failure that a pass ends with is at least as far as any that it met. -/
theorem le_of_attempt_miss {c : Cursor} {missed missed' : Option Failure}
    (hmiss : attempt branches c missed = .miss missed') (hk : ∀ f ∈ missed', f.offset ≤ k) :
    ∀ f ∈ missed, f.offset ≤ k := by
  induction branches generalizing missed with
  | nil =>
    obtain rfl := Attempt.miss.inj hmiss
    exact hk
  | cons p branches ih =>
    rw [attempt] at hmiss
    cases hrun : p.run c with
    | endless =>
      rw [hrun] at hmiss
      cases hmiss
    | done next =>
      rw [hrun] at hmiss
      cases hmiss
    | failed f =>
      rw [hrun] at hmiss
      exact (Failure.forall_mem_deepest_iff.mp (ih hmiss)).1

theorem onto_attempt_miss (hp : ∀ p ∈ branches, p.Accountable) (h : SameUpTo k tokens tokens')
    {missed missed' : Option Failure}
    (hmiss : attempt branches (.ofIndex tokens n) missed = .miss missed')
    (hk : ∀ f ∈ missed', f.offset ≤ k) :
    attempt branches (.ofIndex tokens' n) (missed.map (Failure.onto tokens')) =
      .miss (missed'.map (Failure.onto tokens')) := by
  induction branches generalizing missed with
  | nil =>
    obtain rfl := Attempt.miss.inj hmiss
    rfl
  | cons p branches ih =>
    have hpa := hp p List.mem_cons_self
    rw [attempt] at hmiss ⊢
    cases hrun : p.run (.ofIndex tokens n) with
    | endless =>
      rw [hrun] at hmiss
      cases hmiss
    | done next =>
      rw [hrun] at hmiss
      cases hmiss
    | failed f =>
      rw [hrun] at hmiss
      have hf := (Failure.forall_mem_deepest_iff.mp (le_of_attempt_miss hmiss hk)).2
      rw [hpa.failed h hrun (hf f rfl)]
      have htail := ih (fun q hq => hp q (List.mem_cons_of_mem p hq)) hmiss
      rw [Failure.onto_deepest] at htail
      exact htail

end Branches

/-- The failures of the branches before the one that matched are not reported, so they must
not lie further on than the match. -/
theorem accountable_oneOf {branches : List (Parser α)} (hp : ∀ p ∈ branches, p.Accountable)
    (hyields : branches.Pairwise YieldsTo) : (oneOf branches).Accountable where
  bounded := bounded_oneOf fun p hmem => (hp p hmem).bounded
  run_eq {k n tokens tokens'} h hs := by
    have hn : n ≤ k := hs.start_le (bounded_oneOf (fun p hmem => (hp p hmem).bounded) _)
    simp only [oneOf] at hs ⊢
    cases hpass : attempt branches (.ofIndex tokens n) none with
    | endless =>
      rw [hpass] at hs
      cases hs
    | hit m missed =>
      rw [hpass] at hs
      have hhit := onto_attempt_hit hp hyields h hpass hs
      rw [Option.map_none] at hhit
      rw [hhit]
      rfl
    | miss missed =>
      rw [hpass] at hs
      have hk : ∀ f ∈ missed, f.offset ≤ k := by
        intro f hf
        obtain rfl := hf
        exact hs
      have hmiss := onto_attempt_miss hp h hpass hk
      rw [Option.map_none] at hmiss
      rw [hmiss]
      cases missed with
      | some f => rfl
      | none =>
        have hpeek : (Cursor.ofIndex tokens' n).peek = (Cursor.ofIndex tokens n).peek :=
          h.head?_eq hn
        simp only [Option.map_none, hpeek]
        rfl

/-! ## Going on where a match ended -/

section Steps

variable {p : Parser α} {k : Nat} {tokens tokens' : List Token} {m : Match β}

theorem Accountable.cursor_eq (hp : p.Accountable)
    (hm : m.cursor = .ofIndex tokens m.cursor.position) {next : Match α}
    (hnext : p.run m.cursor = .done next) :
    next.cursor = .ofIndex tokens next.cursor.position := by
  have hleads := (hp.bounded.done hnext).leads
  rw [hm] at hleads
  exact hleads.eq_ofIndex

/-- What follows a match lies behind it, so that the match is settled with it. -/
theorem Accountable.step (hp : p.Accountable) (h : SameUpTo k tokens tokens')
    (hm : m.cursor = .ofIndex tokens m.cursor.position) {next : Match α}
    (hnext : p.run m.cursor = .done next) {f : β → α → γ} (hs : (m.andThen next f).SettledBy k) :
    m.SettledBy k ∧ p.run (m.onto tokens').cursor = .done (next.onto tokens') := by
  obtain ⟨hrecovered, hnextRecovered⟩ := Failure.forall_mem_deepest_iff.mp hs.recovered
  have hleads := (hp.bounded.done hnext).leads
  rw [hm] at hnext hleads
  refine ⟨⟨Nat.le_trans hleads.position_le hs.position, hrecovered⟩, ?_⟩
  exact hp.done h hnext ⟨hs.position, hnextRecovered⟩

theorem Accountable.stop (hp : p.Accountable) (h : SameUpTo k tokens tokens')
    (hm : m.cursor = .ofIndex tokens m.cursor.position) {e : Failure}
    (hfailed : p.run m.cursor = .failed e) (he : e.offset ≤ k)
    (hrecovered : ∀ f ∈ m.recovered, f.offset ≤ k) :
    m.SettledBy k ∧ p.run (m.onto tokens').cursor = .failed (e.onto tokens') := by
  refine ⟨⟨Nat.le_trans (hp.bounded.failed hfailed).1 he, hrecovered⟩, ?_⟩
  rw [hm] at hfailed
  exact hp.failed h hfailed he

/-- Progress is the same over the other tokens. -/
theorem length_lt_iff_onto (h : SameUpTo k tokens tokens')
    (hm : m.cursor = .ofIndex tokens m.cursor.position) {next : Match α}
    (hnext : next.cursor = .ofIndex tokens next.cursor.position) (hmk : m.cursor.position ≤ k)
    (hnextk : next.cursor.position ≤ k) :
    (next.onto tokens').cursor.rest.length < (m.onto tokens').cursor.rest.length ↔
      next.cursor.rest.length < m.cursor.rest.length := by
  have hshort := h.short
  have hshort' := h.short'
  rw [hm, hnext]
  show (tokens'.drop next.cursor.position).length < (tokens'.drop m.cursor.position).length ↔
    (tokens.drop next.cursor.position).length < (tokens.drop m.cursor.position).length
  simp only [List.length_drop]
  omega

end Steps

/-! ## Sequences -/

theorem onto_continueWith {q : Parser β} (hq : q.Accountable) {k : Nat}
    {tokens tokens' : List Token} (h : SameUpTo k tokens tokens') {m : Match α}
    (hm : m.cursor = .ofIndex tokens m.cursor.position) {f : α → β → γ}
    (hs : (continueWith m q f).SettledBy k) :
    m.SettledBy k ∧ continueWith (m.onto tokens') q f = (continueWith m q f).onto tokens' := by
  unfold continueWith at hs ⊢
  cases hrun : q.run m.cursor with
  | endless =>
    rw [hrun] at hs
    cases hs
  | failed e =>
    rw [hrun] at hs
    obtain ⟨he, hrecovered⟩ := Failure.offset_orRecovered_le_iff.mp hs
    obtain ⟨hsettled, hrun'⟩ := hq.stop h hm hrun he hrecovered
    refine ⟨hsettled, ?_⟩
    rw [hrun']
    exact congrArg Outcome.failed (Failure.onto_orRecovered e m.recovered).symm
  | done n =>
    rw [hrun] at hs
    obtain ⟨hsettled, hrun'⟩ := hq.step h hm hrun hs
    refine ⟨hsettled, ?_⟩
    rw [hrun']
    exact congrArg Outcome.done (Match.onto_andThen m n f).symm

theorem Accountable.pair {p : Parser α} {q : Parser β} (hp : p.Accountable)
    (hq : q.Accountable) : (p.pair q).Accountable where
  bounded := hp.bounded.pair hq.bounded
  run_eq h hs := hp.bind h hs fun _ hrun =>
    onto_continueWith hq h (hp.bounded.done hrun).leads.eq_ofIndex

theorem accountable_triple {p : Parser α} {q : Parser β} {r : Parser γ} (hp : p.Accountable)
    (hq : q.Accountable) (hr : r.Accountable) : (triple p q r).Accountable :=
  ((hp.pair hq).pair hr).map _

theorem accountable_quadruple {δ : Type} {p : Parser α} {q : Parser β} {r : Parser γ}
    {s : Parser δ} (hp : p.Accountable) (hq : q.Accountable) (hr : r.Accountable)
    (hs : s.Accountable) : (quadruple p q r s).Accountable :=
  ((accountable_triple hp hq hr).pair hs).map _

theorem Accountable.keyword {p : Parser α} (hp : p.Accountable) (text : Token) :
    (keyword text p).Accountable :=
  (((accountable_literal text ()).pair hp).map Prod.snd).described _

/-! ## Repetitions -/

section Repetitions

variable {p : Parser α} {k : Nat} {tokens tokens' : List Token}

theorem onto_repeatFrom (hp : p.Accountable) (minimum : Nat) (h : SameUpTo k tokens tokens')
    {m : Match (List α)} (hm : m.cursor = .ofIndex tokens m.cursor.position)
    (hs : (repeatFrom minimum p m).SettledBy k) :
    m.SettledBy k ∧
      repeatFrom minimum p (m.onto tokens') = (repeatFrom minimum p m).onto tokens' := by
  have hunfold := repeatFrom.eq_def minimum p
  fun_induction repeatFrom minimum p m with
  | case1 m hend => cases hs
  | case2 m failure hfail hfew =>
    obtain ⟨hf, hrecovered⟩ := Failure.offset_orRecovered_le_iff.mp hs
    obtain ⟨hsettled, hfail'⟩ := hp.stop h hm hfail hf hrecovered
    have hfew' : (m.onto tokens').value.length < minimum := hfew
    refine ⟨hsettled, ?_⟩
    rw [hunfold, hfail']
    dsimp only
    rw [if_pos hfew']
    exact congrArg Outcome.failed (Failure.onto_orRecovered failure m.recovered).symm
  | case3 m failure hfail hfew =>
    obtain ⟨hrecovered, hf⟩ := Failure.forall_mem_deepest_iff.mp hs.recovered
    obtain ⟨hsettled, hfail'⟩ := hp.stop h hm hfail (hf failure rfl) hrecovered
    have hfew' : ¬ (m.onto tokens').value.length < minimum := hfew
    refine ⟨hsettled, ?_⟩
    rw [hunfold, hfail']
    dsimp only
    rw [if_neg hfew']
    exact congrArg Outcome.done (Match.onto_recovering m (some failure)).symm
  | case4 m next hnext hless ih =>
    have hcursor := hp.cursor_eq hm hnext
    obtain ⟨hpush, honto⟩ := ih hcursor hs
    obtain ⟨hsettled, hnext'⟩ := hp.step h hm hnext hpush
    refine ⟨hsettled, ?_⟩
    rw [hunfold, hnext']
    simp only [length_lt_iff_onto h hm hcursor hsettled.position hpush.position, if_pos hless]
    rw [← Match.onto_push, honto]
  | case5 m next hnext hless hfew =>
    have hcursor := hp.cursor_eq hm hnext
    obtain ⟨hposition, hrecovered⟩ := Failure.offset_orRecovered_le_iff.mp hs
    have hpush : (m.push next).SettledBy k := ⟨hposition, hrecovered⟩
    obtain ⟨hsettled, hnext'⟩ := hp.step h hm hnext hpush
    have hfew' : ((m.push next).onto tokens').value.length < minimum := hfew
    refine ⟨hsettled, ?_⟩
    rw [hunfold, hnext']
    simp only [length_lt_iff_onto h hm hcursor hsettled.position hpush.position, if_neg hless]
    rw [← Match.onto_push, if_pos hfew']
    exact congrArg Outcome.failed (Failure.onto_orRecovered
      (p.tooFew (m.push next).value.length minimum next.cursor) (m.push next).recovered).symm
  | case6 m next hnext hless hfew =>
    have hcursor := hp.cursor_eq hm hnext
    obtain ⟨hsettled, hnext'⟩ := hp.step h hm hnext hs
    have hfew' : ¬ ((m.push next).onto tokens').value.length < minimum := hfew
    refine ⟨hsettled, ?_⟩
    rw [hunfold, hnext']
    simp only [length_lt_iff_onto h hm hcursor hsettled.position hs.position, if_neg hless]
    rw [← Match.onto_push, if_neg hfew']
    rfl

/-- A literal has nothing to recover from, and is settled where it ends. -/
theorem onto_literal (h : SameUpTo k tokens tokens') {t : Token} {m : Match β}
    (hm : m.cursor = .ofIndex tokens m.cursor.position) {between : Match Unit}
    (hbetween : (literal t ()).run m.cursor = .done between)
    (hk : between.cursor.position ≤ k) :
    between.SettledBy k ∧
      (literal t ()).run (m.onto tokens').cursor = .done (between.onto tokens') := by
  obtain ⟨rest, _, rfl⟩ := literal_run_eq_done_iff.mp hbetween
  have hsettled : (⟨(), ⟨m.cursor.position + 1, rest⟩, none⟩ : Match Unit).SettledBy k :=
    ⟨hk, by simp⟩
  rw [hm] at hbetween
  exact ⟨hsettled, (accountable_literal t ()).done h hbetween hsettled⟩

/-- Why there was no further separator is not reported, but that takes one look at the token
behind the match. -/
theorem onto_separatedFrom (hp : p.Accountable) (h : SameUpTo k tokens tokens') {t : Token}
    {m r : Match (List α)} {stopped : Option Failure}
    (hm : m.cursor = .ofIndex tokens m.cursor.position)
    (hrun : separatedFrom p (literal t ()) m = .done (r, stopped)) (hr : r.SettledBy k)
    (hstopped : ∀ f ∈ stopped, f.offset ≤ k) :
    m.SettledBy k ∧ separatedFrom p (literal t ()) (m.onto tokens') =
      .done (r.onto tokens', stopped.map (Failure.onto tokens')) := by
  have hunfold := separatedFrom.eq_def p (literal t ())
  fun_induction separatedFrom p (literal t ()) m with
  | case1 m hend => cases hrun
  | case2 m failure hfail =>
    obtain ⟨rfl, rfl⟩ := Prod.mk.inj (Outcome.done.inj hrun)
    have hhead := literal_run_eq_failed_iff.mp ⟨failure, hfail⟩
    rw [hm, ← h.head?_eq hr.position] at hhead
    obtain ⟨f, hf⟩ := literal_run_eq_failed_iff.mpr hhead
    have hf' : (literal t ()).run (m.onto tokens').cursor = .failed f := hf
    refine ⟨hr, ?_⟩
    rw [hunfold, hf']
    rfl
  | case3 m between hbetween hend => cases hrun
  | case4 m between hbetween failure hfail =>
    obtain ⟨rfl, rfl⟩ := Prod.mk.inj (Outcome.done.inj hrun)
    have hf : failure.offset ≤ k := hstopped failure rfl
    have hcursor := (accountable_literal t ()).cursor_eq hm hbetween
    have hle := (hp.bounded.failed hfail).1
    obtain ⟨hsettled, hbetween'⟩ := onto_literal h hm hbetween (Nat.le_trans hle hf)
    obtain ⟨_, hfail'⟩ := hp.stop h hcursor hfail hf hsettled.recovered
    refine ⟨hr, ?_⟩
    rw [hunfold, hbetween']
    dsimp only
    rw [hfail']
    rfl
  | case5 m between hbetween next hnext hless ih =>
    have hbetweenCursor := (accountable_literal t ()).cursor_eq hm hbetween
    have hcursor := hp.cursor_eq hbetweenCursor hnext
    have hpast := ((accountable_literal t ()).bounded.done hbetween).leads.position_le
    have hnextPast := (hp.bounded.done hnext).leads.position_le
    obtain ⟨hpush, htail⟩ := ih hcursor hrun
    obtain ⟨hrecovered, hnextRecovered⟩ := Failure.forall_mem_deepest_iff.mp hpush.recovered
    have hnextk : next.cursor.position ≤ k := hpush.position
    obtain ⟨hsettled, hbetween'⟩ :=
      onto_literal h hm hbetween (Nat.le_trans hnextPast hnextk)
    have hmk : m.cursor.position ≤ k := Nat.le_trans hpast hsettled.position
    have hnext' : p.run (between.onto tokens').cursor = .done (next.onto tokens') := by
      rw [hbetweenCursor] at hnext
      exact hp.done h hnext ⟨hnextk, hnextRecovered⟩
    refine ⟨⟨hmk, hrecovered⟩, ?_⟩
    rw [hunfold, hbetween']
    dsimp only
    rw [hnext']
    simp only [length_lt_iff_onto h hm hcursor hmk hnextk, if_pos hless]
    rw [← Match.onto_push, htail]
  | case6 m between hbetween next hnext hless => cases hrun

/-- An item that is missing behind a separator is blamed behind the match. -/
theorem le_of_separatedFrom {separator : Parser β} (hp : p.Bounded) (hs : separator.Bounded)
    {m r : Match (List α)} {stopped : Option Failure}
    (hrun : separatedFrom p separator m = .done (r, stopped)) :
    ∀ f ∈ stopped, r.cursor.position ≤ f.offset := by
  fun_induction separatedFrom p separator m with
  | case1 m hend => cases hrun
  | case2 m failure hfail =>
    obtain ⟨rfl, rfl⟩ := Prod.mk.inj (Outcome.done.inj hrun)
    simp
  | case3 m between hbetween hend => cases hrun
  | case4 m between hbetween failure hfail =>
    obtain ⟨rfl, rfl⟩ := Prod.mk.inj (Outcome.done.inj hrun)
    refine Failure.forall_mem_some ?_
    exact Nat.le_trans (hs.done hbetween).leads.position_le (hp.failed hfail).1
  | case5 m between hbetween next hnext hless ih => exact ih hrun
  | case6 m between hbetween next hnext hless => cases hrun

/-- Whether there were enough items or not, the end of a separated repetition settles it. -/
theorem settledBy_of_separated {minimum : Nat} {m : Match (List α)} {stopped : Option Failure}
    (hs : Outcome.SettledBy k (if m.value.length < minimum then
      .failed ((stopped.getD (tooFew p m.value.length minimum m.cursor)).orRecovered m.recovered)
        else .done (m.recovering stopped)))
    (hle : ∀ f ∈ stopped, m.cursor.position ≤ f.offset) :
    m.SettledBy k ∧ ∀ f ∈ stopped, f.offset ≤ k := by
  by_cases hfew : m.value.length < minimum
  · rw [if_pos hfew] at hs
    obtain ⟨hstopped, hrecovered⟩ := Failure.offset_orRecovered_le_iff.mp hs
    cases stopped with
    | none => exact ⟨⟨hstopped, hrecovered⟩, by simp⟩
    | some f =>
      exact ⟨⟨Nat.le_trans (hle f rfl) hstopped, hrecovered⟩, Failure.forall_mem_some hstopped⟩
  · rw [if_neg hfew] at hs
    obtain ⟨hrecovered, hstopped⟩ := Failure.forall_mem_deepest_iff.mp hs.recovered
    exact ⟨⟨hs.position, hrecovered⟩, hstopped⟩

theorem onto_upToFrom (hp : p.Accountable) (h : SameUpTo k tokens tokens') {t : Token}
    {m : Match (List α)} (hm : m.cursor = .ofIndex tokens m.cursor.position)
    (hs : (upToFrom (literal t ()) p m).SettledBy k) :
    m.SettledBy k ∧
      upToFrom (literal t ()) p (m.onto tokens') = (upToFrom (literal t ()) p m).onto tokens' := by
  have hunfold := upToFrom.eq_def (literal t ()) p
  have hgo {m : Match (List α)} (hm : m.cursor = .ofIndex tokens m.cursor.position)
      (hmk : m.cursor.position ≤ k) (hfail : ∃ f, (literal t ()).run m.cursor = .failed f) :
      (m.onto tokens').cursor.rest ≠ [] ∧
        ∃ f, (literal t ()).run (m.onto tokens').cursor = .failed f := by
    refine ⟨(h.rest_ne_nil hmk).2, literal_run_eq_failed_iff.mpr ?_⟩
    have hhead := literal_run_eq_failed_iff.mp hfail
    rw [hm, ← h.head?_eq hmk] at hhead
    exact hhead
  fun_induction upToFrom (literal t ()) p m with
  | case1 m hend =>
    have hsome := (h.rest_ne_nil hs.position).1
    rw [← hm] at hsome
    exact absurd hend hsome
  | case2 m hrest hend => cases hs
  | case3 m hrest stopped hstop =>
    have hhead := exists_literal_run_eq_done_iff.mp ⟨stopped, hstop⟩
    rw [hm, ← h.head?_eq hs.position] at hhead
    obtain ⟨stopped', hstop'⟩ := exists_literal_run_eq_done_iff.mpr hhead
    have hstop'' : (literal t ()).run (m.onto tokens').cursor = .done stopped' := hstop'
    have hrest' : (m.onto tokens').cursor.rest ≠ [] := (h.rest_ne_nil hs.position).2
    refine ⟨hs, ?_⟩
    rw [hunfold, if_neg hrest', hstop'']
    rfl
  | case4 m hrest failure hfail hend => cases hs
  | case5 m hrest failure hfail failure' hfail' =>
    obtain ⟨hf, hrecovered⟩ := Failure.offset_orRecovered_le_iff.mp hs
    obtain ⟨hsettled, hitem⟩ := hp.stop h hm hfail' hf hrecovered
    obtain ⟨hrest', f, hstop⟩ := hgo hm hsettled.position ⟨failure, hfail⟩
    refine ⟨hsettled, ?_⟩
    rw [hunfold, if_neg hrest', hstop]
    dsimp only
    rw [hitem]
    exact congrArg Outcome.failed (Failure.onto_orRecovered failure' m.recovered).symm
  | case6 m hrest failure hfail next hnext hless ih =>
    have hcursor := hp.cursor_eq hm hnext
    obtain ⟨hpush, honto⟩ := ih hcursor hs
    obtain ⟨hsettled, hnext'⟩ := hp.step h hm hnext hpush
    obtain ⟨hrest', f, hstop⟩ := hgo hm hsettled.position ⟨failure, hfail⟩
    refine ⟨hsettled, ?_⟩
    rw [hunfold, if_neg hrest', hstop]
    dsimp only
    rw [hnext']
    simp only [length_lt_iff_onto h hm hcursor hsettled.position hpush.position, if_pos hless]
    rw [← Match.onto_push, honto]
  | case7 m hrest failure hfail next hnext hless =>
    have hcursor := hp.cursor_eq hm hnext
    obtain ⟨hsettled, hnext'⟩ := hp.step h hm hnext hs
    obtain ⟨hrest', f, hstop⟩ := hgo hm hsettled.position ⟨failure, hfail⟩
    refine ⟨hsettled, ?_⟩
    rw [hunfold, if_neg hrest', hstop]
    dsimp only
    rw [hnext']
    simp only [length_lt_iff_onto h hm hcursor hsettled.position hs.position, if_neg hless]
    rw [← Match.onto_push]
    rfl

end Repetitions

theorem accountable_atLeast (minimum : Nat) {p : Parser α} (hp : p.Accountable) :
    (atLeast minimum p).Accountable where
  bounded := bounded_atLeast minimum hp.bounded
  run_eq h hs := (onto_repeatFrom hp minimum h rfl hs).2

theorem accountable_separated (minimum : Nat) {p : Parser α} (hp : p.Accountable) (t : Token) :
    (separated minimum p (literal t ())).Accountable where
  bounded := bounded_separated minimum hp.bounded (accountable_literal t ()).bounded
  run_eq {k n tokens tokens'} h hs := by
    simp only [separated] at hs ⊢
    cases hfirst : p.run (.ofIndex tokens n) with
    | endless =>
      rw [hfirst] at hs
      cases hs
    | failed f =>
      rw [hfirst] at hs
      by_cases hmin : minimum = 0
      · simp only [if_pos hmin] at hs ⊢
        rw [hp.failed h hfirst (hs.recovered f rfl)]
        rfl
      · simp only [if_neg hmin] at hs ⊢
        rw [hp.failed h hfirst hs]
        rfl
    | done first =>
      rw [hfirst] at hs
      dsimp only at hs ⊢
      cases hrun : separatedFrom p (literal t ()) (first.map ([·])) with
      | endless =>
        rw [hrun] at hs
        cases hs
      | failed f => exact absurd hrun (separatedFrom_ne_failed p _ _ f)
      | done r =>
        obtain ⟨m, stopped⟩ := r
        rw [hrun, Outcome.bind_done] at hs
        have hcursor : (first.map ([·])).cursor =
            .ofIndex tokens (first.map ([·])).cursor.position :=
          hp.cursor_eq (m := ⟨(), .ofIndex tokens n, none⟩) rfl hfirst
        have hsettled := settledBy_of_separated hs
          (le_of_separatedFrom hp.bounded (accountable_literal t ()).bounded hrun)
        obtain ⟨hfirstSettled, hrun'⟩ :=
          onto_separatedFrom hp h hcursor hrun hsettled.1 hsettled.2
        rw [hp.done h hfirst ⟨hfirstSettled.position, hfirstSettled.recovered⟩]
        dsimp only
        rw [← Match.onto_map, hrun', Outcome.bind_done, Outcome.bind_done]
        by_cases hfew : m.value.length < minimum
        · have hfew' : (m.onto tokens').value.length < minimum := hfew
          rw [if_pos hfew, if_pos hfew']
          refine congrArg Outcome.failed (Eq.trans ?_ (Failure.onto_orRecovered _ _).symm)
          cases stopped <;> rfl
        · have hfew' : ¬ (m.onto tokens').value.length < minimum := hfew
          rw [if_neg hfew, if_neg hfew']
          exact congrArg Outcome.done (Match.onto_recovering m stopped).symm

theorem accountable_upTo (t : Token) {p : Parser α} (hp : p.Accountable) :
    (upTo (literal t ()) p).Accountable where
  bounded := bounded_upTo _ hp.bounded
  run_eq h hs := (onto_upToFrom hp h rfl hs).2

/-! ## Gathering -/

section Gathering

variable [Accumulator α] {parts : List (Parser α)} {k : Nat} {tokens tokens' : List Token}

omit [Accumulator α] in
theorem cursor_eq_of_attempt (hp : ∀ p ∈ parts, p.Accountable) {m next : Match α}
    {missed : Option Failure} (hm : m.cursor = .ofIndex tokens m.cursor.position)
    (hhit : attempt parts m.cursor none = .hit next missed) :
    next.cursor = .ofIndex tokens next.cursor.position := by
  obtain ⟨p, hmem, hnext⟩ := exists_mem_of_attempt hhit
  exact (hp p hmem).cursor_eq hm hnext

omit [Accumulator α] in
/-- One round of a scan. -/
theorem onto_attempt_step (hp : ∀ p ∈ parts, p.Accountable) (hyields : parts.Pairwise YieldsTo)
    (h : SameUpTo k tokens tokens') {m next : Match α} {missed : Option Failure} {f : α → α → α}
    (hm : m.cursor = .ofIndex tokens m.cursor.position)
    (hhit : attempt parts m.cursor none = .hit next missed) (hs : (m.andThen next f).SettledBy k) :
    m.SettledBy k ∧ attempt parts (m.onto tokens').cursor none =
      .hit (next.onto tokens') (missed.map (Failure.onto tokens')) := by
  obtain ⟨p, hmem, hnext⟩ := exists_mem_of_attempt hhit
  obtain ⟨hsettled, _⟩ := (hp p hmem).step h hm hnext hs
  have hnextSettled : next.SettledBy k :=
    ⟨hs.position, (Failure.forall_mem_deepest_iff.mp hs.recovered).2⟩
  rw [hm] at hhit
  exact ⟨hsettled, onto_attempt_hit hp hyields h hhit hnextSettled⟩

theorem onto_scanFrom (hp : ∀ p ∈ parts, p.Accountable) (hyields : parts.Pairwise YieldsTo)
    (h : SameUpTo k tokens tokens') {s t : Scan α}
    (hs : s.found.cursor = .ofIndex tokens s.found.cursor.position)
    (hrun : scanFrom parts s = some t) (ht : t.found.SettledBy k)
    (hmissed : ∀ f ∈ t.missed, f.offset ≤ k) :
    s.found.SettledBy k ∧ scanFrom parts (s.onto tokens') = some (t.onto tokens') := by
  have hunfold := scanFrom.eq_def parts
  fun_induction scanFrom parts s with
  | case1 s hend =>
    obtain rfl := Option.some.inj hrun
    have hsome := (h.rest_ne_nil ht.position).1
    rw [← hs] at hsome
    exact absurd hend hsome
  | case2 s hrest hend => cases hrun
  | case3 s hrest missed hmiss =>
    obtain rfl := Option.some.inj hrun
    have hrest' : (s.found.onto tokens').cursor.rest ≠ [] := (h.rest_ne_nil ht.position).2
    rw [hs] at hmiss
    have hmiss' : attempt parts (s.found.onto tokens').cursor none =
      .miss (missed.map (Failure.onto tokens')) := onto_attempt_miss hp h hmiss hmissed
    refine ⟨ht, ?_⟩
    rw [hunfold, Scan.onto_found, if_neg hrest', hmiss']
    rfl
  | case4 s hrest next missed hhit found hless ih =>
    have hcursor := cursor_eq_of_attempt hp hs hhit
    obtain ⟨hpush, htail⟩ := ih hcursor hrun
    obtain ⟨hsettled, hhit'⟩ := onto_attempt_step hp hyields h hs hhit hpush
    have hrest' : (s.found.onto tokens').cursor.rest ≠ [] := (h.rest_ne_nil hsettled.position).2
    refine ⟨hsettled, ?_⟩
    rw [hunfold, Scan.onto_found, if_neg hrest', hhit']
    dsimp only
    rw [if_pos ((length_lt_iff_onto h hs hcursor hsettled.position hpush.position).mpr hless)]
    rw [← Match.onto_andThen]
    exact htail
  | case5 s hrest next missed hhit found hless =>
    obtain rfl := Option.some.inj hrun
    have hcursor := cursor_eq_of_attempt hp hs hhit
    obtain ⟨hsettled, hhit'⟩ := onto_attempt_step hp hyields h hs hhit ht
    have hrest' : (s.found.onto tokens').cursor.rest ≠ [] := (h.rest_ne_nil hsettled.position).2
    refine ⟨hsettled, ?_⟩
    rw [hunfold, Scan.onto_found, if_neg hrest', hhit']
    dsimp only
    rw [if_neg (mt (length_lt_iff_onto h hs hcursor hsettled.position ht.position).mp hless)]
    rw [← Match.onto_andThen]
    rfl

/-- A scan in which no part matched is where it began. -/
theorem found_eq_of_count (parts : List (Parser α)) {s t : Scan α}
    (hrun : scanFrom parts s = some t) :
    s.count ≤ t.count ∧ (t.count = s.count → t.found = s.found) := by
  fun_induction scanFrom parts s with
  | case1 s hend =>
    obtain rfl := Option.some.inj hrun
    exact ⟨Nat.le_refl _, fun _ => rfl⟩
  | case2 s hrest hend => cases hrun
  | case3 s hrest missed hmiss =>
    obtain rfl := Option.some.inj hrun
    exact ⟨Nat.le_refl _, fun _ => rfl⟩
  | case4 s hrest next missed hhit found hless ih =>
    have hcount : s.count + 1 ≤ t.count := (ih hrun).1
    exact ⟨Nat.le_of_succ_le hcount, fun heq => by omega⟩
  | case5 s hrest next missed hhit found hless =>
    obtain rfl := Option.some.inj hrun
    exact ⟨Nat.le_succ _, fun heq => absurd heq (Nat.succ_ne_self _)⟩

end Gathering

/-- Where nothing was put together, only the last round is left to report, so no more than
one part may be demanded. -/
theorem accountable_gather [Accumulator α] {minimum : Nat} (hminimum : minimum ≤ 1)
    {parts : List (Parser α)} (hp : ∀ p ∈ parts, p.Accountable)
    (hyields : parts.Pairwise YieldsTo) : (gather minimum parts).Accountable where
  bounded := bounded_gather minimum fun p hmem => (hp p hmem).bounded
  run_eq {k n tokens tokens'} h hs := by
    have hn : n ≤ k :=
      hs.start_le (bounded_gather minimum (fun p hmem => (hp p hmem).bounded) _)
    simp only [gather] at hs ⊢
    cases hrun : scan parts (.ofIndex tokens n) with
    | none =>
      rw [hrun] at hs
      cases hs
    | some s =>
      rw [hrun] at hs
      dsimp only at hs
      have hscan (hfound : s.found.SettledBy k) (hmissed : ∀ f ∈ s.missed, f.offset ≤ k) :
          scan parts (.ofIndex tokens' n) = some (s.onto tokens') :=
        (onto_scanFrom hp hyields h rfl hrun hfound hmissed).2
      by_cases hfew : s.count < minimum
      · rw [if_pos hfew] at hs
        have hcount : s.count = 0 := by omega
        have hfound : s.found = ⟨Accumulator.identity, .ofIndex tokens n, none⟩ :=
          (found_eq_of_count parts hrun).2 hcount
        rw [hfound] at hs
        have hmissed : ∀ f ∈ s.missed, f.offset ≤ k := by
          intro f hf
          rw [hf] at hs
          exact hs
        rw [hscan ⟨by rw [hfound]; exact hn, by simp [hfound]⟩ hmissed]
        dsimp only
        have hfew' : (s.onto tokens').count < minimum := hfew
        rw [if_pos hfew, if_pos hfew', Scan.onto_found, hfound]
        have hlast : (s.onto tokens').missed = s.missed.map (Failure.onto tokens') := rfl
        rw [hlast]
        cases s.missed with
        | some f => rfl
        | none =>
          have hpeek : (Cursor.ofIndex tokens' (Cursor.ofIndex tokens n).position).peek =
              (Cursor.ofIndex tokens n).peek := h.head?_eq hn
          simp only [Option.map_none, Option.getD_none, Match.onto, hpeek]
          rfl
      · rw [if_neg hfew] at hs
        obtain ⟨hrecovered, hmissed⟩ := Failure.forall_mem_deepest_iff.mp hs.recovered
        have hfew' : ¬ (s.onto tokens').count < minimum := hfew
        rw [hscan ⟨hs.position, hrecovered⟩ hmissed]
        dsimp only
        rw [if_neg hfew, if_neg hfew']
        exact congrArg Outcome.done (Match.onto_recovering s.found s.missed).symm

end Parser
end SimControl
