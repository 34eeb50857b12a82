/-
Branches that yield to each other.

The failure of a branch may be dropped where a later branch matches, if the branch did not
get further than the match.  Most branches of the grammar fail at one of their first two
tokens, where the other branch has taken a token at least, and these are the prompt ones.
Others begin with tokens of their own, or share with the other branch all that stands
before the place where they fail.
-/
import SimControl.Proofs.Accountable
import SimControl.Proofs.Groups

namespace SimControl
namespace Parser

variable {α β γ δ : Type}

/-! ## Prompt parsers -/

/-- A match takes a token, and a failure is at most `reach` tokens behind the next one. -/
structure Prompt (p : Parser α) (reach : Nat) : Prop where
  accountable : p.Accountable
  consuming : p.Consuming
  offset_le {c : Cursor} {f : Failure} : p.run c = .failed f → f.offset ≤ c.position + reach

section Single

variable {description : String} {read : Token → Except Problem α}

theorem single_run_eq_done {c : Cursor} {m : Match α}
    (h : (single description read).run c = .done m) :
    m.cursor.position = c.position + 1 ∧ m.recovered = none := by
  obtain ⟨position, rest⟩ := c
  cases rest with
  | nil => cases h
  | cons token rest =>
    simp only [single] at h
    cases hread : read token with
    | error problem =>
      rw [hread] at h
      cases h
    | ok value =>
      rw [hread] at h
      obtain rfl := Outcome.done.inj h
      exact ⟨rfl, rfl⟩

theorem single_run_eq_failed {c : Cursor} {f : Failure}
    (h : (single description read).run c = .failed f) : f.offset = c.position := by
  obtain ⟨position, rest⟩ := c
  cases rest with
  | nil =>
    obtain rfl := Outcome.failed.inj h
    rfl
  | cons token rest =>
    simp only [single] at h
    cases hread : read token with
    | error problem =>
      rw [hread] at h
      obtain rfl := Outcome.failed.inj h
      rfl
    | ok value =>
      rw [hread] at h
      cases h

theorem prompt_single
    (hread : ∀ token problem, read token = .error problem → problem.Local) :
    (single description read).Prompt 0 where
  accountable := accountable_single hread
  consuming := consuming_single description read
  offset_le h := Nat.le_of_eq (single_run_eq_failed h)

end Single

/-! ## Parsers of one token -/

/-- The parser takes one token, and its problems concern the token that it did not take. -/
def Tells (p : Parser α) : Prop :=
  ∃ (description : String) (read : Token → Except Problem α), p = single description read ∧
    ∀ token problem, read token = .error problem → problem.Concerns token

theorem tells_single {description : String} {read : Token → Except Problem α}
    (hread : ∀ token problem, read token = .error problem → problem.Concerns token) :
    (single description read).Tells := ⟨description, read, rfl, hread⟩

theorem tells_reading (description : String) (read : Token → Option α) :
    (reading description read).Tells := by
  refine tells_single fun token problem h => ?_
  cases hvalue : read token with
  | some value =>
    rw [hvalue] at h
    cases h
  | none =>
    rw [hvalue] at h
    obtain rfl := Except.error.inj h
    exact .uninterpretable description

/-- A conversion of one token refuses it in its place. -/
theorem refine_reading (description : String) (read : Token → Option α)
    (f : α → Except Problem β) :
    (reading description read).refine f = single description fun token =>
      (read token).elim (.error (.uninterpretable description (some token))) f := by
  refine congrArg (Parser.mk description) (funext fun c => ?_)
  obtain ⟨position, rest⟩ := c
  cases rest with
  | nil => rfl
  | cons token rest =>
    simp only [reading, single]
    cases read token with
    | none => rfl
    | some value =>
      simp only [Outcome.bind_done, Option.elim_some]
      cases f value <;> rfl

theorem tells_refine_reading (description : String) (read : Token → Option α)
    {f : α → Except Problem β}
    (hf : ∀ token value problem, f value = .error problem → problem.Concerns token) :
    ((reading description read).refine f).Tells := by
  rw [refine_reading]
  refine tells_single fun token problem h => ?_
  cases hvalue : read token with
  | none =>
    rw [hvalue] at h
    obtain rfl := Except.error.inj h
    exact .uninterpretable description
  | some value =>
    rw [hvalue] at h
    exact hf token value problem h

theorem Tells.prompt {p : Parser α} (hp : p.Tells) : p.Prompt 0 := by
  obtain ⟨description, read, rfl, hread⟩ := hp
  exact prompt_single fun token problem h => (hread token problem h).local

theorem prompt_reading (description : String) (read : Token → Option α) :
    (reading description read).Prompt 0 := (tells_reading description read).prompt

theorem prompt_literal (text : Token) (value : α) : (literal text value).Prompt 0 :=
  prompt_reading _ _

namespace Prompt

variable {reach : Nat} {p : Parser α}

theorem mono (hp : p.Prompt reach) {reach' : Nat} (h : reach ≤ reach') : p.Prompt reach' where
  accountable := hp.accountable
  consuming := hp.consuming
  offset_le hf := Nat.le_trans (hp.offset_le hf) (Nat.add_le_add_left h _)

theorem described (hp : p.Prompt reach) (description : String) :
    (p.described description).Prompt reach :=
  ⟨hp.accountable.described description, hp.consuming, hp.offset_le⟩

theorem map (hp : p.Prompt reach) (f : α → β) : (p.map f).Prompt reach where
  accountable := hp.accountable.map f
  consuming c m h := by
    obtain ⟨n, hn, rfl⟩ := map_run_eq_done_iff.mp h
    exact hp.consuming c n hn
  offset_le h := hp.offset_le (map_run_eq_failed_iff.mp h)

end Prompt

theorem prompt_single_pair {description : String} {read : Token → Except Problem α}
    (hp : (single description read).Accountable) {q : Parser β} {reach : Nat}
    (hq : q.Prompt reach) : ((single description read).pair q).Prompt (reach + 1) where
  accountable := hp.pair hq.accountable
  consuming c m h := by
    obtain ⟨a, b, ha, hb, rfl⟩ := pair_run_eq_done_iff.mp h
    exact Nat.lt_trans (hq.consuming _ b hb) (consuming_single description read c a ha)
  offset_le {c f} h := by
    rcases pair_run_eq_failed_iff.mp h with h | ⟨m, e, hm, he, rfl⟩
    · have hf := single_run_eq_failed h
      omega
    · obtain ⟨hposition, hrecovered⟩ := single_run_eq_done hm
      have hle := hq.offset_le he
      rw [hrecovered]
      show e.offset ≤ c.position + (reach + 1)
      omega

theorem Prompt.keyword {reach : Nat} {p : Parser α} (hp : p.Prompt reach) (text : Token) :
    (keyword text p).Prompt (reach + 1) :=
  ((prompt_single_pair (accountable_literal text ()) hp).map Prod.snd).described _

/-- The furthest failure of a pass, whether a branch matched or not. -/
def missedBy : Attempt α → Option Failure
  | .hit _ missed => missed
  | .miss missed => missed
  | .endless => none

/-- What all branches fail with has a property, and then the furthest failure has it. -/
theorem forall_mem_missedBy {P : Failure → Prop} {branches : List (Parser α)} {c : Cursor}
    (hp : ∀ p ∈ branches, ∀ f, p.run c = .failed f → P f)
    {missed : Option Failure} (hmissed : ∀ f ∈ missed, P f) :
    ∀ f ∈ missedBy (attempt branches c missed), P f := by
  induction branches generalizing missed with
  | nil => exact hmissed
  | cons p branches ih =>
    rw [attempt]
    cases hrun : p.run c with
    | endless => exact Failure.forall_mem_none
    | done m => exact hmissed
    | failed f =>
      have hf : ∀ g ∈ some f, P g := Failure.forall_mem_some (hp p List.mem_cons_self f hrun)
      exact ih (fun q hq => hp q (List.mem_cons_of_mem p hq))
        (Failure.forall_mem_deepest hmissed hf)

/-! ## Branches that yield -/

theorem Bounded.position_lt {p : Parser α} (hp : p.Bounded) (htake : p.Consuming) {c : Cursor}
    {m : Match α} (h : p.run c = .done m) : c.position < m.cursor.position := by
  have hlength := (hp.done h).leads.sourceLength_eq
  have hless := htake c m h
  unfold Cursor.sourceLength at hlength
  omega

theorem Prompt.yieldsTo {p : Parser α} {q : Parser β} (hp : p.Prompt 1) (hq : q.Bounded)
    (htake : q.Consuming) : p.YieldsTo q := by
  intro c f m k hf hm hs
  have hpast := hq.position_lt htake hm
  have hle := hp.offset_le hf
  have hk := hs.position
  omega

theorem Prompt.yieldsTo_of_bounded {p : Parser α} {q : Parser β} (hp : p.Prompt 0)
    (hq : q.Bounded) : p.YieldsTo q := by
  intro c f m k hf hm hs
  have hpast := (hq.done hm).leads.position_le
  have hle := hp.offset_le hf
  have hk := hs.position
  omega

theorem pairwise_yieldsTo {parts : List (Parser α)} (h : ∀ p ∈ parts, p.Prompt 1) :
    parts.Pairwise YieldsTo :=
  List.pairwise_of_forall_mem_list fun p hp q hq =>
    (h p hp).yieldsTo (h q hq).accountable.bounded (h q hq).consuming

theorem prompt_oneOf {branches : List (Parser α)} {reach : Nat} (hreach : reach ≤ 1)
    (hp : ∀ p ∈ branches, p.Prompt reach) : (oneOf branches).Prompt reach where
  accountable := accountable_oneOf (fun p hmem => (hp p hmem).accountable)
    (pairwise_yieldsTo fun p hmem => (hp p hmem).mono hreach)
  consuming c m h := by
    obtain ⟨p, hmem, hrun⟩ := exists_mem_of_oneOf h
    exact (hp p hmem).consuming c m hrun
  offset_le {c f} h := by
    obtain ⟨missed, hmiss⟩ := oneOf_run_eq_failed_iff.mp ⟨f, h⟩
    have hmissed : ∀ g ∈ missedBy (attempt branches c none), g.offset ≤ c.position + reach :=
      forall_mem_missedBy (fun p hmem g hg => (hp p hmem).offset_le hg) Failure.forall_mem_none
    rw [hmiss] at hmissed
    simp only [oneOf, hmiss] at h
    cases missed with
    | none =>
      obtain rfl := Outcome.failed.inj h
      exact Nat.le_add_right _ _
    | some g =>
      obtain rfl := Outcome.failed.inj h
      exact hmissed g rfl

/-- A repetition fails only as long as there are too few values. -/
theorem repeatFrom_ne_failed {minimum : Nat} (p : Parser α) {m : Match (List α)}
    (hm : minimum ≤ m.value.length) (f : Failure) : repeatFrom minimum p m ≠ .failed f := by
  have hpush {m : Match (List α)} (hm : minimum ≤ m.value.length) (next : Match α) :
      minimum ≤ (m.push next).value.length := by
    show minimum ≤ (m.value ++ [next.value]).length
    rw [List.length_append]
    omega
  fun_induction repeatFrom minimum p m with
  | case1 m hend => simp
  | case2 m failure hfail hfew => omega
  | case3 m failure hfail hfew => simp
  | case4 m next hnext hless ih => exact ih (hpush hm next)
  | case5 m next hnext hless hfew => exact absurd (hpush hm next) (Nat.not_le.mpr hfew)
  | case6 m next hnext hless hfew => simp

theorem atLeast_one_run_of_failed {p : Parser α} {c : Cursor} {f : Failure}
    (h : p.run c = .failed f) : (atLeast 1 p).run c = .failed f := by
  show repeatFrom 1 p ⟨[], c, none⟩ = .failed f
  rw [repeatFrom, h]
  rfl

theorem atLeast_run_of_done (minimum : Nat) {p : Parser α} {c : Cursor} {next : Match α}
    (h : p.run c = .done next) (hless : next.cursor.rest.length < c.rest.length) :
    (atLeast minimum p).run c =
      repeatFrom minimum p ⟨[next.value], next.cursor, next.recovered⟩ := by
  have hunfold := repeatFrom.eq_def minimum p ⟨[], c, none⟩
  dsimp only at hunfold
  rw [h] at hunfold
  dsimp only at hunfold
  rw [if_pos hless] at hunfold
  exact hunfold

theorem Prompt.atLeast_one {p : Parser α} {reach : Nat} (hp : p.Prompt reach) (hs : p.Steady) :
    (atLeast 1 p).Prompt reach where
  accountable := accountable_atLeast 1 hp.accountable
  consuming c m h := by
    cases hrun : p.run c with
    | endless => exact absurd hrun (hs.ends c)
    | failed f =>
      rw [atLeast_one_run_of_failed hrun] at h
      cases h
    | done next =>
      have hless := hp.consuming c next hrun
      rw [atLeast_run_of_done 1 hrun hless] at h
      exact Nat.lt_of_le_of_lt (forward_of_repeatFrom hs h) hless
  offset_le {c f} h := by
    cases hrun : p.run c with
    | endless => exact absurd hrun (hs.ends c)
    | failed e =>
      rw [atLeast_one_run_of_failed hrun] at h
      obtain rfl := Outcome.failed.inj h
      exact hp.offset_le hrun
    | done next =>
      rw [atLeast_run_of_done 1 hrun (hp.consuming c next hrun)] at h
      exact absurd h (repeatFrom_ne_failed p (Nat.le_refl 1) f)

/-- Parsers that begin with tokens of their own fail where they start. -/
theorem Excludes.yieldsTo {p q : Parser α} (hpq : p.Excludes q) (hp : p.Bounded)
    (hq : q.Bounded) : p.YieldsTo q := by
  intro c f m k hf hm hs
  have hstart := Nat.le_trans (hq.done hm).leads.position_le hs.position
  cases hrest : c.rest with
  | nil =>
    have hend := (hp.failed hf).2
    rw [Cursor.sourceLength, hrest, List.length_nil] at hend
    omega
  | cons t rest =>
    have hhead : c.rest.head? = some t := by rw [hrest]; rfl
    obtain ⟨problem, hrefuses⟩ := hpq.refuses hm hhead c hhead
    rw [hf] at hrefuses
    obtain rfl := Outcome.failed.inj hrefuses
    exact hstart

/-- A match of the whole input cannot be passed. -/
theorem yieldsTo_exhaustive {p : Parser α} {q : Parser β} (hp : p.Bounded) (hq : q.Bounded) :
    p.YieldsTo q.exhaustive := by
  intro c f m k hf hm hs
  obtain ⟨hm, hrest⟩ := exhaustive_run_eq_done_iff.mp hm
  have hlength := (hq.done hm).leads.sourceLength_eq
  have hend := (hp.failed hf).2
  have hk := hs.position
  rw [Cursor.sourceLength, hrest, List.length_nil] at hlength
  omega

namespace YieldsTo

variable {p : Parser α} {q : Parser β}

theorem map_left (h : p.YieldsTo q) (f : α → γ) : (p.map f).YieldsTo q :=
  fun c e m k he => h c e m k (map_run_eq_failed_iff.mp he)

theorem map_right (h : p.YieldsTo q) (f : β → γ) : p.YieldsTo (q.map f) := by
  intro c e m k he hm hs
  obtain ⟨n, hn, rfl⟩ := map_run_eq_done_iff.mp hm
  exact h c e n k he hn ⟨hs.position, hs.recovered⟩

theorem described_right (h : p.YieldsTo q) (description : String) :
    p.YieldsTo (q.described description) := h

theorem map (h : p.YieldsTo q) (f : α → γ) (g : β → δ) : (p.map f).YieldsTo (q.map g) :=
  (h.map_left f).map_right g

/-- What both begin with has ended at the same place for both. -/
theorem pair_left (h : p.YieldsTo q) (r : Parser γ) : (r.pair p).YieldsTo (r.pair q) := by
  intro c f m k hf hm hs
  obtain ⟨a, b, ha, hb, rfl⟩ := pair_run_eq_done_iff.mp hm
  obtain ⟨hrecovered, hbrecovered⟩ := Failure.forall_mem_deepest_iff.mp hs.recovered
  rcases pair_run_eq_failed_iff.mp hf with hf | ⟨n, e, hn, he, rfl⟩
  · rw [ha] at hf
    cases hf
  · rw [ha] at hn
    obtain rfl := Outcome.done.inj hn
    have hle := h a.cursor e b k he hb ⟨hs.position, hbrecovered⟩
    exact Failure.offset_orRecovered_le_iff.mpr ⟨hle, hrecovered⟩

theorem pair_right (h : p.YieldsTo q) {r : Parser γ} {s : Parser δ}
    (hr : ∀ c f, r.run c ≠ .failed f) (hs : s.Bounded) : (p.pair r).YieldsTo (q.pair s) := by
  intro c f m k hf hm hk
  obtain ⟨a, b, ha, hb, rfl⟩ := pair_run_eq_done_iff.mp hm
  obtain ⟨hrecovered, _⟩ := Failure.forall_mem_deepest_iff.mp hk.recovered
  have hpast := Nat.le_trans (hs.done hb).leads.position_le hk.position
  rcases pair_run_eq_failed_iff.mp hf with hf | ⟨n, e, _, he, _⟩
  · exact h c f a k hf ha ⟨hpast, hrecovered⟩
  · exact absurd he (hr _ e)

theorem keyword (h : p.YieldsTo q) (text : Token) :
    (keyword text p).YieldsTo (keyword text q) :=
  (h.pair_left (literal text ())).map Prod.snd Prod.snd

theorem accountable {p q : Parser α} (h : p.YieldsTo q) (hp : p.Accountable)
    (hq : q.Accountable) : (oneOf [p, q]).Accountable := by
  refine accountable_oneOf (fun r hr => ?_) (List.pairwise_pair.mpr h)
  simp only [List.mem_cons, List.not_mem_nil, or_false] at hr
  rcases hr with rfl | rfl
  · exact hp
  · exact hq

end YieldsTo

/-- If the items fail at the end of the tokens only, a repetition up to a stop never fails. -/
theorem upToFrom_ne_failed {stop : Parser β} {p : Parser α}
    (hp : ∀ c : Cursor, c.rest ≠ [] → ∀ f, p.run c ≠ .failed f) (m : Match (List α))
    (f : Failure) : upToFrom stop p m ≠ .failed f := by
  fun_induction upToFrom stop p m with
  | case1 | case2 | case3 | case4 | case7 => simp
  | case5 m hrest failure hfail failure' hfail' => exact absurd hfail' (hp m.cursor hrest _)
  | case6 m hrest failure hfail next hnext hless ih => exact ih

/-! ## Prompt parts -/

theorem accountable_gather_of_prompt [Accumulator α] {minimum : Nat} (hminimum : minimum ≤ 1)
    {parts : List (Parser α)} (hp : ∀ p ∈ parts, p.Prompt 1) :
    (gather minimum parts).Accountable :=
  accountable_gather hminimum (fun p hmem => (hp p hmem).accountable) (pairwise_yieldsTo hp)

theorem Prompt.accountable_or {p q : Parser α} (hp : p.Prompt 0) (hq : q.Accountable) :
    (oneOf [p, q]).Accountable :=
  (hp.yieldsTo_of_bounded hq.bounded).accountable hp.accountable hq

section Enumerated

variable [Enumerated α] {text : α → Token}

theorem prompt_of_mem_literals {p : Parser α} (hp : p ∈ literals text) : p.Prompt 0 := by
  obtain ⟨a, _, rfl⟩ := List.mem_map.mp hp
  exact prompt_literal _ _

theorem prompt_oneSpelled (text : α → Token) : (oneSpelled text).Prompt 0 :=
  prompt_oneOf (Nat.zero_le 1) fun _ => prompt_of_mem_literals

theorem prompt_named (description : String) (name : α → String) :
    (named description name).Prompt 0 := prompt_reading _ _

variable [DecidableEq α]

theorem prompt_of_mem_flags {p : Parser (EnumSet α)} (hp : p ∈ flags text) : p.Prompt 0 := by
  obtain ⟨q, hq, rfl⟩ := List.mem_map.mp hp
  exact (prompt_of_mem_literals hq).map _

theorem accountable_flagSet {minimum : Nat} (hminimum : minimum ≤ 1) (text : α → Token) :
    (flagSet minimum text).Accountable :=
  accountable_gather_of_prompt hminimum fun _ hp => (prompt_of_mem_flags hp).mono (Nat.zero_le 1)

end Enumerated

end Parser
end SimControl
