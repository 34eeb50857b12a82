/-
Where a shortfall of parts is reported.

A scan that has found too few parts reports the furthest failure of its last round.  If it has
stopped because no part matched, or because one matched without a token, that round began where
the scan stopped, and no failure of it is further back.  But if the tokens have ended behind a
match, no round has begun where the scan stopped.  The failure is then left over from the round
of the match: it is one of the parts that were tried before the one that matched, and it can
blame a token that was taken (`gather_shortfall`).
-/
import SimControl.Proofs.Rounds
import SimControl.Proofs.Yielding

namespace SimControl

theorem Failure.le_offset_orRecovered (f : Failure) (recovered : Option Failure) :
    f.offset ≤ (f.orRecovered recovered).offset := by
  cases recovered with
  | none => exact Nat.le_refl _
  | some g =>
    show f.offset ≤ (f.furthest g).offset
    rw [offset_furthest]
    exact Nat.le_max_left ..

namespace Parser

variable {α : Type}

/-- No failure is before the place where the run started. -/
def FailsAhead (p : Parser α) : Prop :=
  ∀ (c : Cursor) (f : Failure), p.run c = .failed f → c.position ≤ f.offset

theorem Bounded.failsAhead {p : Parser α} (hp : p.Bounded) : p.FailsAhead :=
  fun _ _ h => (hp.failed h).1

theorem failsAhead_missedBy {parts : List (Parser α)} (hp : ∀ q ∈ parts, q.FailsAhead)
    (c : Cursor) : ∀ f ∈ missedBy (attempt parts c none), c.position ≤ f.offset :=
  forall_mem_missedBy (fun q hq f hf => hp q hq c f hf) Failure.forall_mem_none

variable [Accumulator α] {parts : List (Parser α)} {minimum : Nat} {c : Cursor} {s t : Scan α}

/-! ## The last round -/

theorem scanRound_eq_again (h : scanRound parts s = .again t) :
    ∃ next, attempt parts s.found.cursor none = .hit next t.missed ∧
      next.cursor = t.found.cursor := by
  unfold scanRound at h
  split at h
  · cases h
  · split at h
    · cases h
    · cases h
    · next next missed hhit =>
      split at h
      · cases h
      · obtain rfl := Round.again.inj h
        exact ⟨next, hhit, rfl⟩

theorem scanRound_eq_exit (h : scanRound parts s = .exit (some t)) :
    s.found.cursor.rest = [] ∧ s = t ∨
      missedBy (attempt parts s.found.cursor none) = t.missed ∧
        t.found.cursor.position = s.found.cursor.position := by
  unfold scanRound at h
  split at h
  · next hend => exact .inl ⟨hend, Option.some.inj (Round.exit.inj h)⟩
  · split at h
    · cases h
    · next missed hmiss =>
      obtain rfl := Option.some.inj (Round.exit.inj h)
      exact .inr ⟨congrArg missedBy hmiss, rfl⟩
    · next next missed hhit =>
      split at h
      · next hsame =>
        obtain rfl := Option.some.inj (Round.exit.inj h)
        exact .inr ⟨congrArg missedBy hhit, hsame⟩
      · cases h

/-- The tokens ended behind a match, and `g` is left over from its round: the furthest failure
of the parts that were tried before the one that matched. -/
def LeftOver (parts : List (Parser α)) (c : Cursor) (s : Scan α) (g : Failure) : Prop :=
  s.found.cursor.rest = [] ∧ ∃ r next,
    Round.Reaches (scanRound parts) (.start c) r ∧
      attempt parts r.found.cursor none = .hit next (some g) ∧
      next.cursor = s.found.cursor ∧ r.found.cursor.position ≤ g.offset

/-- The failure that a scan ends with is at the place where it stopped or behind that, unless
it is left over. -/
theorem missed_of_scan (hforward : ∀ q ∈ parts, q.Forward) (hfails : ∀ q ∈ parts, q.FailsAhead)
    (h : scan parts c = some s) {g : Failure} (hg : s.missed = some g) :
    s.found.cursor.position ≤ g.offset ∨ LeftOver parts c s g := by
  obtain ⟨t, hreach, hround⟩ : Round.Ends (scanRound parts) (.start c) (some s) := by
    rw [← h]
    exact ends_scanRound hforward (.start c)
  rcases scanRound_eq_exit hround with ⟨hend, rfl⟩ | ⟨hmissed, hsame⟩
  · rcases Relation.ReflTransGen.cases_tail hreach with hstart | ⟨r, hr, hagain⟩
    · -- At the start there is no failure yet.
      rw [hstart] at hg
      cases hg
    · obtain ⟨next, hhit, hnext⟩ := scanRound_eq_again hagain
      rw [hg] at hhit
      refine .inr ⟨hend, r, next, hr, hhit, hnext, ?_⟩
      refine failsAhead_missedBy hfails r.found.cursor g ?_
      rw [hhit]
      rfl
  · rw [hsame]
    refine .inl (failsAhead_missedBy hfails t.found.cursor g ?_)
    rw [hmissed]
    exact hg

/-! ## The report -/

theorem gather_run_eq_failed {f : Failure} (h : (gather minimum parts).run c = .failed f) :
    ∃ s g, scan parts c = some s ∧ s.count < minimum ∧ f = g.orRecovered s.found.recovered ∧
      (s.missed = some g ∨ g.offset = s.found.cursor.position) := by
  simp only [gather] at h
  split at h
  · cases h
  · next s hs =>
    split at h
    · next hfew =>
      obtain rfl := Outcome.failed.inj h
      refine ⟨s, _, hs, hfew, rfl, ?_⟩
      cases s.missed with
      | none => exact .inr rfl
      | some g => exact .inl rfl
    · cases h

/-- Parts are gathered in vain only where fewer than `minimum` have matched.  That is reported
where the scan stopped or behind that, unless the failure is left over from the last match. -/
theorem gather_shortfall (hforward : ∀ q ∈ parts, q.Forward) (hfails : ∀ q ∈ parts, q.FailsAhead)
    {f : Failure} (h : (gather minimum parts).run c = .failed f) :
    ∃ s, scan parts c = some s ∧ s.count < minimum ∧
      (s.found.cursor.position ≤ f.offset ∨
        ∃ g, LeftOver parts c s g ∧ f = g.orRecovered s.found.recovered) := by
  obtain ⟨s, g, hs, hfew, rfl, hreport⟩ := gather_run_eq_failed h
  have hle := Failure.le_offset_orRecovered g s.found.recovered
  refine ⟨s, hs, hfew, ?_⟩
  rcases hreport with hg | hplace
  · rcases missed_of_scan hforward hfails hs hg with hbehind | hleft
    · exact .inl (Nat.le_trans hbehind hle)
    · exact .inr ⟨g, hleft, rfl⟩
  · exact .inl (hplace ▸ hle)

/-- One of three is found, and the token behind it is blamed. -/
theorem gather_shortfall_behind :
    (∀ q ∈ [literal "a" ["a"], literal "b" ["b"]], q.Forward) ∧
      (∀ q ∈ [literal "a" ["a"], literal "b" ["b"]], q.FailsAhead) ∧
      (gather 3 [literal "a" ["a"], literal "b" ["b"]]).run (.start ["b", "x"]) =
        .failed ⟨.uninterpretable "'a'" (some "x"), 1⟩ ∧
      ∃ s, scan [literal "a" ["a"], literal "b" ["b"]] (.start ["b", "x"]) = some s ∧ s.count < 3 ∧
        (s.found.cursor.position ≤ 1 ∨
          ∃ g, LeftOver [literal "a" ["a"], literal "b" ["b"]] (.start ["b", "x"]) s g ∧
            ⟨.uninterpretable "'a'" (some "x"), 1⟩ = g.orRecovered s.found.recovered) := by
  have hbounded : ∀ q ∈ [literal "a" ["a"], literal "b" ["b"]], q.Bounded := by
    intro q hq
    simp only [List.mem_cons, List.not_mem_nil, or_false] at hq
    rcases hq with rfl | rfl <;> exact (Composed.literal _ _).bounded
  have hforward := fun q hq => (hbounded q hq).forward
  have hfails := fun q hq => (hbounded q hq).failsAhead
  have hrun : (gather 3 [literal "a" ["a"], literal "b" ["b"]]).run (.start ["b", "x"]) =
      .failed ⟨.uninterpretable "'a'" (some "x"), 1⟩ := by decide +kernel
  exact ⟨hforward, hfails, hrun, gather_shortfall hforward hfails hrun⟩

/-- One of two is found and the tokens have ended.  Yet what is blamed is the token that was
taken: it was tried in vain as `a` before it was read as `b`. -/
theorem gather_blames_taken :
    (gather 2 [literal "a" ["a"], literal "b" ["b"]]).run (.start ["b"]) =
        .failed ⟨.uninterpretable "'a'" (some "b"), 0⟩ ∧
      (scan [literal "a" ["a"], literal "b" ["b"]] (.start ["b"])).map
        (fun s => (s.count, s.found.cursor.position)) = some (1, 1) ∧
      (literal "b" ["b"]).run (.start ["b"]) = .done ⟨["b"], ⟨1, []⟩, none⟩ := by
  refine ⟨?_, ?_, ?_⟩ <;> decide +kernel

end Parser
end SimControl
