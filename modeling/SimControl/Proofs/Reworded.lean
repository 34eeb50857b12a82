/-
Parsers that differ in their diagnostics.

`Reworded p q` says that `q` is nested as `p` is, from the same values and conversions, but that
it may describe itself in other words and give other reasons where it refuses a token or a
value.  The main statement, `Reworded.coincides`, is that nothing of this has a part in what a
run reads: two such parsers read the same value up to the same place, recover from failures at
the same place, and fail at the same place.

Failures are compared by their places everywhere, which is what `Alike` says without `exact`.
-/
import SimControl.Proofs.Alike

namespace SimControl

/-- The two runs read the same and name the same places. -/
inductive Outcome.Coincides {α : Type} : Outcome (Match α) → Outcome (Match α) → Prop
  | done {m n : Match α} (value : n.value = m.value) (cursor : n.cursor = m.cursor)
      (recovered : n.recovered.map Failure.offset = m.recovered.map Failure.offset) :
      Coincides (.done m) (.done n)
  | failed {f g : Failure} (offset : g.offset = f.offset) : Coincides (.failed f) (.failed g)

theorem Outcome.Alike.same {α : Type} {o o' : Outcome (Match α)}
    (h : o.Alike False 0 (Match.Alike False 0) o') (hends : o ≠ .endless) : o.Coincides o' := by
  cases h with
  | endless => exact absurd rfl hends
  | failed hf => exact .failed hf.offset
  | @done m n hm =>
    refine .done hm.value hm.cursor ?_
    have hr := hm.recovered
    generalize m.recovered = a, n.recovered = b at hr
    cases hr with
    | none => rfl
    | some hf => exact congrArg some hf.offset

namespace Parser

/-- The two convert the same arguments to the same values.  Where one refuses, the other
refuses as well, for whatever reason. -/
def SameValues {α β : Type} (f g : α → Except Problem β) : Prop :=
  ∀ a b, f a = .ok b ↔ g a = .ok b

theorem SameValues.refl {α β : Type} (f : α → Except Problem β) : SameValues f f :=
  fun _ _ => Iff.rfl

theorem SameValues.alikeReading {α β : Type} {f g : α → Except Problem β} (h : SameValues f g)
    (a : α) : AlikeReading False (f a) (g a) := by
  cases hf : f a with
  | ok b =>
    rw [(h a b).mp hf]
    exact .ok b
  | error problem =>
    cases hg : g a with
    | ok b =>
      rw [(h a b).mpr hg] at hf
      cases hf
    | error problem' => exact .error False.elim

/-! ## Other words -/

/-- The branches of a choice, and the parts of a sequence or a scan, are given in pairs. -/
inductive Reworded : {α : Type} → Parser α → Parser α → Prop
  | single {α : Type} (description description' : String) {read read' : Token → Except Problem α}
      (h : SameValues read read') : Reworded (single description read) (single description' read')
  | succeed {α : Type} (value : α) : Reworded (succeed value) (succeed value)
  | fail {α : Type} (problem problem' : Problem) :
      Reworded (fail problem : Parser α) (fail problem')
  | described {α : Type} {p q : Parser α} (h : Reworded p q) (description description' : String) :
      Reworded (p.described description) (q.described description')
  | map {α β : Type} {p q : Parser α} (h : Reworded p q) (f : α → β) :
      Reworded (p.map f) (q.map f)
  | refine {α β : Type} {p q : Parser α} (h : Reworded p q) {f g : α → Except Problem β}
      (hfg : SameValues f g) : Reworded (p.refine f) (q.refine g)
  | withDefault {α : Type} {p q : Parser α} (h : Reworded p q) (default : α) :
      Reworded (p.withDefault default) (q.withDefault default)
  | exhaustive {α : Type} {p q : Parser α} (h : Reworded p q) :
      Reworded p.exhaustive q.exhaustive
  | oneOf {α : Type} {branches : List (Parser α × Parser α)}
      (h : ∀ b ∈ branches, Reworded b.1 b.2) :
      Reworded (oneOf (branches.map Prod.fst)) (oneOf (branches.map Prod.snd))
  | pair {α β : Type} {p p' : Parser α} {q q' : Parser β} (hp : Reworded p p')
      (hq : Reworded q q') : Reworded (p.pair q) (p'.pair q')
  | sequence {α : Type} {parts : List (Parser α × Parser α)}
      (h : ∀ b ∈ parts, Reworded b.1 b.2) :
      Reworded (sequence (parts.map Prod.fst)) (sequence (parts.map Prod.snd))
  | atLeast {α : Type} {p q : Parser α} (minimum : Nat) (h : Reworded p q) :
      Reworded (atLeast minimum p) (atLeast minimum q)
  | separated {α β : Type} {p p' : Parser α} {separator separator' : Parser β} (minimum : Nat)
      (hp : Reworded p p') (hs : Reworded separator separator') :
      Reworded (separated minimum p separator) (separated minimum p' separator')
  | upTo {α β : Type} {stop stop' : Parser β} {p p' : Parser α} (hs : Reworded stop stop')
      (hp : Reworded p p') : Reworded (upTo stop p) (upTo stop' p')
  | gather {α : Type} [Accumulator α] {parts : List (Parser α × Parser α)} (minimum : Nat)
      (h : ∀ b ∈ parts, Reworded b.1 b.2) :
      Reworded (gather minimum (parts.map Prod.fst)) (gather minimum (parts.map Prod.snd))

theorem forall₂_of_pairs {α β : Type} {R : α → β → Prop} {pairs : List (α × β)}
    (h : ∀ b ∈ pairs, R b.1 b.2) :
    List.Forall₂ R (pairs.map Prod.fst) (pairs.map Prod.snd) := by
  rw [List.forall₂_map_left_iff, List.forall₂_map_right_iff]
  exact List.forall₂_same.mpr h

namespace Reworded

variable {α β γ δ : Type}

/-! ### The combinators without a run of their own -/

theorem optional {p q : Parser α} (h : Reworded p q) : Reworded p.optional q.optional :=
  (h.map some).withDefault none

theorem many {p q : Parser α} (h : Reworded p q) : Reworded (many p) (many q) := h.atLeast 0

theorem manyOf (minimum : Nat) {branches : List (Parser α × Parser α)}
    (h : ∀ b ∈ branches, Reworded b.1 b.2) :
    Reworded (manyOf minimum (branches.map Prod.fst)) (manyOf minimum (branches.map Prod.snd)) :=
  (oneOf h).atLeast minimum

theorem triple {p p' : Parser α} {q q' : Parser β} {r r' : Parser γ} (hp : Reworded p p')
    (hq : Reworded q q') (hr : Reworded r r') : Reworded (triple p q r) (triple p' q' r') :=
  ((hp.pair hq).pair hr).map _

theorem quadruple {p p' : Parser α} {q q' : Parser β} {r r' : Parser γ} {s s' : Parser δ}
    (hp : Reworded p p') (hq : Reworded q q') (hr : Reworded r r') (hs : Reworded s s') :
    Reworded (quadruple p q r s) (quadruple p' q' r' s') := ((triple hp hq hr).pair hs).map _

theorem preceded {p p' : Parser α} {q q' : Parser β} (hp : Reworded p p')
    (hq : Reworded q q') : Reworded (preceded p q) (preceded p' q') := (hp.pair hq).map Prod.snd

theorem literal (text : Token) (value : α) :
    Reworded (literal text value) (literal text value) := single _ _ (.refl _)

theorem keyword {p q : Parser α} (h : Reworded p q) (text : Token) :
    Reworded (keyword text p) (keyword text q) := (preceded (literal text ()) h).described _ _

/-! ### Runs -/

theorem alike {p q : Parser α} (h : Reworded p q) : p.Alike False q := by
  induction h with
  | single _ _ h => exact alike_single False.elim h.alikeReading
  | succeed value => exact alike_succeed value
  | fail => exact alike_fail False.elim
  | described _ _ _ ih => exact ih.described False.elim
  | map _ f ih => exact ih.map f
  | refine _ hfg ih => exact ih.refine hfg.alikeReading
  | withDefault _ default ih => exact ih.withDefault default
  | exhaustive _ ih => exact ih.exhaustive
  | oneOf _ ih => exact alike_oneOf (forall₂_of_pairs ih)
  | pair _ _ ihp ihq => exact ihp.pair ihq
  | sequence _ ih => exact alike_sequence (forall₂_of_pairs ih)
  | atLeast minimum _ ih => exact ih.atLeast minimum
  | separated minimum _ _ ihp ihs => exact alike_separated minimum ihp ihs
  | upTo _ _ ihs ihp => exact alike_upTo ihs ihp
  | gather minimum _ ih => exact alike_gather minimum (forall₂_of_pairs ih)

/-- How a parser is described, and the reasons for which it refuses, have no part in what it
reads and in where it fails. -/
theorem coincides {p q : Parser α} (h : Reworded p q) {c : Cursor} (hends : p.run c ≠ .endless) :
    (p.run c).Coincides (q.run c) := by
  have hrun := h.alike.run 0 c
  have hcursor : c.shift 0 = c := rfl
  rw [hcursor] at hrun
  exact hrun.same hends

end Reworded

/-- A port that is refused in other words is refused in the same place, and there the option
is left over. -/
theorem coincides_port :
    let port := Operand.integer.refine fun n =>
      if 0 ≤ n ∧ n < 65536 then .ok (UInt16.ofNat n.toNat)
      else .error (.objection (.stated "Out of range"))
    let p := (keyword "--socket" (ListenInterface.portParser.described "Int")).optional.exhaustive
    let q := (keyword "--socket" (port.described "Port")).optional.exhaustive
    let c := Cursor.start ["--socket", "65536"]
    Reworded p q ∧ p.run c ≠ .endless ∧ (p.run c).Coincides (q.run c) ∧ p.run c ≠ q.run c := by
  intro port p q c
  have hint : Reworded Operand.integer Operand.integer := .single _ _ (.refl _)
  have hport : Reworded ListenInterface.portParser port := by
    refine hint.refine fun n b => ?_
    by_cases h : 0 ≤ n ∧ n < 65536
    · rw [if_pos h, if_pos h]
    · rw [if_neg h, if_neg h]
      exact ⟨nofun, nofun⟩
  have hpq : Reworded p q := ((hport.described "Int" "Port").keyword "--socket").optional.exhaustive
  have hends : p.run c ≠ .endless := by decide +kernel
  have hdiffer : p.run c ≠ q.run c := by decide +kernel
  exact ⟨hpq, hends, hpq.coincides hends, hdiffer⟩

end Parser
end SimControl
