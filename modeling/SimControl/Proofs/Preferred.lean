/-
What an ordered choice comes to.

Two outcomes at one place are put in order by `Outcome.orElse`: a failure gives way to what comes
after it, and of two failures the furthest is kept, the first of two that got equally far.  The
operation is associative, and an outcome that has been weighed already changes nothing when it
comes again, `orElse_orElse_self`.  A choice is the outcomes of its branches in this order, which
is `oneOf_cons_run`.

So a choice of choices is the choice of all their branches, a branch may be listed twice, and what
a choice comes to is known from its branches.  The main statement is `oneOf_preferred`.
-/
import SimControl.Parser.Choice
import SimControl.Parser.Sequence

namespace SimControl

variable {α : Type}

theorem Failure.furthest_eq_iff {f g h : Failure} :
    g.furthest h = f ↔ g = f ∧ h.offset ≤ f.offset ∨ h = f ∧ g.offset < f.offset := by
  rw [furthest]
  by_cases hlt : g.offset < h.offset
  · rw [if_pos hlt]
    constructor
    · rintro rfl
      exact .inr ⟨rfl, hlt⟩
    · rintro (⟨rfl, hle⟩ | ⟨rfl, _⟩)
      · omega
      · rfl
  · rw [if_neg hlt]
    constructor
    · rintro rfl
      exact .inl ⟨rfl, Nat.not_lt.mp hlt⟩
    · rintro (⟨rfl, _⟩ | ⟨rfl, hlt'⟩)
      · rfl
      · omega

/-! ## Two outcomes -/

namespace Outcome

/-- What two branches of a choice come to that have these outcomes, the preferred one first. -/
def orElse : Outcome α → Outcome α → Outcome α
  | failed f, failed g => failed (f.furthest g)
  | failed _, o => o
  | o, _ => o

@[simp] theorem done_orElse (a : α) (o : Outcome α) : (done a).orElse o = done a := rfl

@[simp] theorem endless_orElse (o : Outcome α) : (endless : Outcome α).orElse o = endless := rfl

@[simp] theorem failed_orElse_failed (f g : Failure) :
    (failed f : Outcome α).orElse (failed g) = failed (f.furthest g) := rfl

@[simp] theorem failed_orElse_done (f : Failure) (a : α) :
    (failed f).orElse (done a) = done a := rfl

@[simp] theorem failed_orElse_endless (f : Failure) :
    (failed f : Outcome α).orElse endless = endless := rfl

theorem orElse_assoc (o p q : Outcome α) : (o.orElse p).orElse q = o.orElse (p.orElse q) := by
  cases o with
  | done a => rfl
  | endless => rfl
  | failed f =>
    cases p with
    | done a => rfl
    | endless => rfl
    | failed g =>
      cases q with
      | done a => rfl
      | endless => rfl
      | failed h => simp only [failed_orElse_failed, Failure.furthest_assoc]

/-- An outcome that comes again has been weighed already. -/
theorem orElse_orElse_self (o p : Outcome α) : (o.orElse p).orElse o = o.orElse p := by
  cases o with
  | done a => rfl
  | endless => rfl
  | failed f =>
    cases p with
    | done a => rfl
    | endless => rfl
    | failed g =>
      have hoffset : f.offset ≤ (f.furthest g).offset := by
        rw [Failure.offset_furthest]
        exact Nat.le_max_left _ _
      show failed ((f.furthest g).furthest f) = failed (f.furthest g)
      rw [Failure.furthest, if_neg (Nat.not_lt.mpr hoffset)]

theorem orElse_self (o : Outcome α) : o.orElse o = o := by
  cases o with
  | done a => rfl
  | endless => rfl
  | failed f => exact congrArg failed (if_neg (Nat.lt_irrefl _))

theorem orElse_eq_failed_iff {o p : Outcome α} {f : Failure} :
    o.orElse p = failed f ↔ ∃ g h, o = failed g ∧ p = failed h ∧ g.furthest h = f := by
  cases o <;> cases p <;> simp

/-- Any other outcome is the first that is no failure. -/
theorem orElse_eq_iff {o p r : Outcome α} (hr : ∀ f, r ≠ failed f) :
    o.orElse p = r ↔ o = r ∨ (∃ f, o = failed f) ∧ p = r := by
  cases o with
  | done a => simp
  | endless => simp
  | failed f =>
    cases p with
    | done a => simp [(hr f).symm]
    | endless => simp [(hr f).symm]
    | failed g => simp [(hr f).symm, (hr g).symm, (hr (f.furthest g)).symm]

end Outcome

namespace Parser

variable {p : Parser α} {ps xs ys : List (Parser α)} {c : Cursor}

/-! ## Branch after branch -/

/-- The outcome of a choice after a pass; `fallback` is the failure of one that has no branches. -/
def Attempt.outcome (fallback : Failure) : Attempt α → Outcome (Match α)
  | .hit m _ => .done m
  | .miss missed => .failed (missed.getD fallback)
  | .endless => .endless

theorem oneOf_run (ps : List (Parser α)) (c : Cursor) :
    (oneOf ps).run c =
      Attempt.outcome ⟨.uninterpretable (oneOf ps).description c.peek, c.position⟩
        (attempt ps c none) := by
  simp only [oneOf]
  cases attempt ps c none with
  | hit m missed => rfl
  | miss missed => cases missed <;> rfl
  | endless => rfl

/-- What was missed before a pass is weighed first. -/
theorem outcome_attempt_some (hsome : ps ≠ []) (f d e : Failure) :
    Attempt.outcome d (attempt ps c (some f)) =
      (Outcome.failed f).orElse (Attempt.outcome e (attempt ps c none)) := by
  -- A branch that fails hands its failure on in both passes, so that `f` and the fallback vary.
  -- Neither fallback is ever reported, since a branch has failed by the end.
  induction ps generalizing f d with
  | nil => exact absurd rfl hsome
  | cons p ps ih =>
    rw [attempt, attempt]
    cases p.run c with
    | done m => rfl
    | endless => rfl
    | failed g =>
      show Attempt.outcome d (attempt ps c (some (f.furthest g))) =
        (Outcome.failed f).orElse (Attempt.outcome e (attempt ps c (some g)))
      by_cases hps : ps = []
      · subst hps
        rfl
      · rw [ih hps (f.furthest g) d, ih hps g e, ← Outcome.orElse_assoc]
        rfl

theorem oneOf_cons_run (p : Parser α) (hsome : ps ≠ []) (c : Cursor) :
    (oneOf (p :: ps)).run c = (p.run c).orElse ((oneOf ps).run c) := by
  rw [oneOf_run, oneOf_run, attempt]
  cases p.run c with
  | done m => rfl
  | endless => rfl
  | failed f => exact outcome_attempt_some hsome f _ _

theorem oneOf_two_run (p q : Parser α) (c : Cursor) :
    (oneOf [p, q]).run c = (p.run c).orElse (q.run c) := by
  rw [oneOf_cons_run p (List.cons_ne_nil _ _), oneOf_singleton_run]

theorem oneOf_append_run (hx : xs ≠ []) (hy : ys ≠ []) (c : Cursor) :
    (oneOf (xs ++ ys)).run c = ((oneOf xs).run c).orElse ((oneOf ys).run c) := by
  induction xs with
  | nil => exact absurd rfl hx
  | cons p xs ih =>
    rw [List.cons_append]
    by_cases hxs : xs = []
    · subst hxs
      rw [oneOf_singleton_run]
      exact oneOf_cons_run p hy c
    · rw [oneOf_cons_run p (List.append_ne_nil_of_left_ne_nil hxs ys), oneOf_cons_run p hxs, ih hxs,
        Outcome.orElse_assoc]

/-- A choice of two choices. -/
theorem oneOf_oneOf_run (hx : xs ≠ []) (hy : ys ≠ []) (c : Cursor) :
    (oneOf [oneOf xs, oneOf ys]).run c = (oneOf (xs ++ ys)).run c := by
  rw [oneOf_two_run, oneOf_append_run hx hy]

/-- A branch has been weighed when the choice comes to its end. -/
theorem oneOf_run_orElse_of_mem (hp : p ∈ ps) (c : Cursor) :
    ((oneOf ps).run c).orElse (p.run c) = (oneOf ps).run c := by
  induction ps with
  | nil => cases hp
  | cons q ps ih =>
    by_cases hps : ps = []
    · subst hps
      obtain rfl := List.mem_singleton.mp hp
      rw [oneOf_singleton_run, Outcome.orElse_self]
    · rw [oneOf_cons_run q hps]
      cases hp with
      | head => exact Outcome.orElse_orElse_self _ _
      | tail _ hp => rw [Outcome.orElse_assoc, ih hp]

theorem oneOf_concat_run_of_mem (hp : p ∈ ps) (c : Cursor) :
    (oneOf (ps ++ [p])).run c = (oneOf ps).run c := by
  rw [oneOf_append_run (List.ne_nil_of_mem hp) (List.cons_ne_nil _ _), oneOf_singleton_run,
    oneOf_run_orElse_of_mem hp]

/-! ## The branch that decides -/

/-- A place in a list is at its head or behind it. -/
theorem exists_split_cons {P : List (Parser α) → Parser α → List (Parser α) → Prop} :
    (∃ before q after, p :: ps = before ++ q :: after ∧ P before q after) ↔
      P [] p ps ∨ ∃ before q after, ps = before ++ q :: after ∧ P (p :: before) q after := by
  constructor
  · rintro ⟨before, q, after, hsplit, h⟩
    cases before with
    | nil =>
      obtain ⟨rfl, rfl⟩ := List.cons.inj hsplit
      exact .inl h
    | cons r before =>
      obtain ⟨rfl, hps⟩ := List.cons.inj hsplit
      exact .inr ⟨before, q, after, hps, h⟩
  · rintro (h | ⟨before, q, after, rfl, h⟩)
    · exact ⟨[], p, ps, rfl, h⟩
    · exact ⟨p :: before, q, after, rfl, h⟩

theorem oneOf_cons_run_eq_iff {r : Outcome (Match α)} (hr : ∀ f, r ≠ .failed f) :
    (oneOf (p :: ps)).run c = r ↔
      p.run c = r ∨ (∃ f, p.run c = .failed f) ∧ (oneOf ps).run c = r := by
  by_cases hps : ps = []
  · subst hps
    rw [oneOf_singleton_run]
    have hnone : (oneOf ([] : List (Parser α))).run c ≠ r := (hr _).symm
    simp [hnone]
  · rw [oneOf_cons_run p hps, Outcome.orElse_eq_iff hr]

/-- An outcome that is no failure is that of the first branch that does not fail. -/
theorem oneOf_run_eq_iff {r : Outcome (Match α)} (hr : ∀ f, r ≠ .failed f) :
    (oneOf ps).run c = r ↔
      ∃ before p after, ps = before ++ p :: after ∧
        (∀ q ∈ before, ∃ f, q.run c = .failed f) ∧ p.run c = r := by
  induction ps with
  | nil =>
    have hnone : (oneOf ([] : List (Parser α))).run c ≠ r := (hr _).symm
    simp [hnone]
  | cons p ps ih =>
    rw [oneOf_cons_run_eq_iff hr, exists_split_cons, ih]
    constructor
    · rintro (hp | ⟨hp, before, q, after, hsplit, hbefore, hq⟩)
      · exact .inl ⟨nofun, hp⟩
      · exact .inr ⟨before, q, after, hsplit, List.forall_mem_cons.mpr ⟨hp, hbefore⟩, hq⟩
    · rintro (⟨_, hp⟩ | ⟨before, q, after, hsplit, hbefore, hq⟩)
      · exact .inl hp
      · obtain ⟨hp, hbefore⟩ := List.forall_mem_cons.mp hbefore
        exact .inr ⟨hp, before, q, after, hsplit, hbefore, hq⟩

theorem oneOf_run_failed_le_iff (hsome : ps ≠ []) {k : Nat} :
    (∃ f, (oneOf ps).run c = .failed f ∧ f.offset ≤ k) ↔
      ∀ q ∈ ps, ∃ f, q.run c = .failed f ∧ f.offset ≤ k := by
  induction ps with
  | nil => exact absurd rfl hsome
  | cons p ps ih =>
    by_cases hps : ps = []
    · subst hps
      rw [oneOf_singleton_run, List.forall_mem_singleton]
    · rw [oneOf_cons_run p hps, List.forall_mem_cons, ← ih hps]
      simp only [Outcome.orElse_eq_failed_iff]
      constructor
      · rintro ⟨_, ⟨g, h, hg, hh, rfl⟩, hle⟩
        rw [Failure.offset_furthest] at hle
        exact ⟨⟨g, hg, by omega⟩, h, hh, by omega⟩
      · rintro ⟨⟨g, hg, hgle⟩, h, hh, hhle⟩
        refine ⟨_, ⟨g, h, hg, hh, rfl⟩, ?_⟩
        rw [Failure.offset_furthest]
        omega

/-- A failure is that of the branch that got furthest, the first listed of those that got equally
far. -/
theorem oneOf_run_eq_failed_iff_furthest (hsome : ps ≠ []) {f : Failure} :
    (oneOf ps).run c = .failed f ↔
      ∃ before p after, ps = before ++ p :: after ∧ p.run c = .failed f ∧
        (∀ q ∈ before, ∃ g, q.run c = .failed g ∧ g.offset < f.offset) ∧
        ∀ q ∈ after, ∃ g, q.run c = .failed g ∧ g.offset ≤ f.offset := by
  induction ps with
  | nil => exact absurd rfl hsome
  | cons p ps ih =>
    rw [exists_split_cons]
    by_cases hps : ps = []
    · subst hps
      rw [oneOf_singleton_run]
      simp
    · rw [oneOf_cons_run p hps, Outcome.orElse_eq_failed_iff]
      constructor
      · rintro ⟨g, h, hg, hh, hf⟩
        rcases Failure.furthest_eq_iff.mp hf with ⟨rfl, hle⟩ | ⟨rfl, hlt⟩
        · exact .inl ⟨hg, nofun, (oneOf_run_failed_le_iff hps).mp ⟨h, hh, hle⟩⟩
        · obtain ⟨before, q, after, hsplit, hq, hbefore, hafter⟩ := (ih hps).mp hh
          refine .inr ⟨before, q, after, hsplit, hq, ?_, hafter⟩
          exact List.forall_mem_cons.mpr ⟨⟨g, hg, hlt⟩, hbefore⟩
      · rintro (⟨hp, _, hafter⟩ | ⟨before, q, after, hsplit, hq, hbefore, hafter⟩)
        · obtain ⟨h, hh, hle⟩ := (oneOf_run_failed_le_iff hps).mpr hafter
          exact ⟨f, h, hp, hh, Failure.furthest_eq_iff.mpr (.inl ⟨rfl, hle⟩)⟩
        · obtain ⟨⟨g, hg, hlt⟩, hbefore⟩ := List.forall_mem_cons.mp hbefore
          have hh := (ih hps).mpr ⟨before, q, after, hsplit, hq, hbefore, hafter⟩
          exact ⟨g, f, hg, hh, Failure.furthest_eq_iff.mpr (.inr ⟨rfl, hlt⟩)⟩

/-- A choice comes to what the first of its branches comes to that does not fail, and else to the
failure that got furthest, the first listed of those that got equally far.  Two choices one after
the other are the choice of all their branches, and a branch that is listed again at the end has
no effect. -/
theorem oneOf_preferred (hx : xs ≠ []) (c : Cursor) :
    (∀ m, (oneOf xs).run c = .done m ↔
        ∃ before p after, xs = before ++ p :: after ∧
          (∀ q ∈ before, ∃ f, q.run c = .failed f) ∧ p.run c = .done m) ∧
      ((oneOf xs).run c = .endless ↔
        ∃ before p after, xs = before ++ p :: after ∧
          (∀ q ∈ before, ∃ f, q.run c = .failed f) ∧ p.run c = .endless) ∧
      (∀ f, (oneOf xs).run c = .failed f ↔
        ∃ before p after, xs = before ++ p :: after ∧ p.run c = .failed f ∧
          (∀ q ∈ before, ∃ g, q.run c = .failed g ∧ g.offset < f.offset) ∧
          ∀ q ∈ after, ∃ g, q.run c = .failed g ∧ g.offset ≤ f.offset) ∧
      (∀ ys, ys ≠ [] → (oneOf [oneOf xs, oneOf ys]).run c = (oneOf (xs ++ ys)).run c) ∧
      ∀ p ∈ xs, (oneOf (xs ++ [p])).run c = (oneOf xs).run c := by
  refine ⟨?_, ?_, ?_, ?_, ?_⟩
  · intro m
    exact oneOf_run_eq_iff nofun
  · exact oneOf_run_eq_iff nofun
  · intro f
    exact oneOf_run_eq_failed_iff_furthest hx
  · intro ys hy
    exact oneOf_oneOf_run hx hy c
  · intro p hp
    exact oneOf_concat_run_of_mem hp c

/-- Two branches get as far as the second token, and the first of them is reported. -/
theorem oneOf_preferred_tie :
    let x := keyword "tap" (literal "a" 1)
    let y := keyword "tap" (literal "b" 2)
    let z := literal "list" 3
    [x, y] ≠ [] ∧ [z] ≠ [] ∧ y ∈ [x, y] ∧
      (oneOf [x, y]).run (.start ["tap", "c"]) = .failed ⟨.uninterpretable "'a'" (some "c"), 1⟩ ∧
      (oneOf [oneOf [x, y], oneOf [z]]).run (.start ["tap", "c"]) =
        (oneOf [x, y, z]).run (.start ["tap", "c"]) ∧
      (oneOf [x, y, y]).run (.start ["tap", "c"]) = (oneOf [x, y]).run (.start ["tap", "c"]) := by
  intro x y z
  have hxy : [x, y] ≠ [] := List.cons_ne_nil _ _
  have hz : [z] ≠ [] := List.cons_ne_nil _ _
  have hy : y ∈ [x, y] := List.mem_cons_of_mem _ (List.mem_singleton_self _)
  have hxrun : x.run (.start ["tap", "c"]) = .failed ⟨.uninterpretable "'a'" (some "c"), 1⟩ := by
    decide +kernel
  have hyrun : y.run (.start ["tap", "c"]) = .failed ⟨.uninterpretable "'b'" (some "c"), 1⟩ := by
    decide +kernel
  obtain ⟨_, _, hfailed, hflat, hagain⟩ := oneOf_preferred hxy (.start ["tap", "c"])
  refine ⟨hxy, hz, hy, (hfailed _).mpr ⟨[], x, [y], rfl, hxrun, nofun, ?_⟩, hflat _ hz,
    hagain _ hy⟩
  exact List.forall_mem_singleton.mpr ⟨_, hyrun, Nat.le_refl 1⟩

end Parser
end SimControl
