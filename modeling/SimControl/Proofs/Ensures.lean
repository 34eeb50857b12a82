/-
What is true of every value that a parser reads.

`Ensures p P` is a postcondition for the successful runs of `p`, whatever the tokens are.  One
lemma for each way to build a parser says how the postcondition of the whole comes from those of
the parts: a repetition has its minimum of values, a conversion passes only what it does not
refuse, and what was gathered is a fold of parts.
-/
import SimControl.Parser.Steady
import SimControl.Proofs.Heads

namespace SimControl
namespace Parser

variable {α β γ δ : Type}

def Ensures (p : Parser α) (P : α → Prop) : Prop :=
  ∀ (c : Cursor) (m : Match α), p.run c = .done m → P m.value

/-- What is read from a whole token list is read by a run. -/
theorem Ensures.of_parse {p : Parser α} {P : α → Prop} (hp : p.Ensures P) {tokens : List Token}
    {value : α} (h : p.parse tokens = .done value) : P value := by
  obtain ⟨m, hm, _, rfl⟩ := Parser.parse_eq_done_iff.mp h
  exact hp _ m hm

theorem Ensures.mono {p : Parser α} {P Q : α → Prop} (hp : p.Ensures P) (h : ∀ a, P a → Q a) :
    p.Ensures Q := fun c m hm => h _ (hp c m hm)

theorem ensures_true (p : Parser α) : p.Ensures fun _ => True := fun _ _ _ => trivial

/-! ## Single parsers -/

theorem ensures_single {description : String} {read : Token → Except Problem α} {P : α → Prop}
    (h : ∀ token value, read token = .ok value → P value) :
    (single description read).Ensures P := by
  intro c m hm
  obtain ⟨position, rest⟩ := c
  cases rest with
  | nil => cases hm
  | cons token rest =>
    simp only [single] at hm
    cases hread : read token with
    | error problem =>
      rw [hread] at hm
      cases hm
    | ok value =>
      rw [hread] at hm
      obtain rfl := Outcome.done.inj hm
      exact h token value hread

theorem ensures_reading {description : String} {read : Token → Option α} {P : α → Prop}
    (h : ∀ token value, read token = some value → P value) :
    (reading description read).Ensures P := by
  refine ensures_single fun token value hread => h token value ?_
  cases hvalue : read token with
  | none =>
    rw [hvalue] at hread
    cases hread
  | some a =>
    rw [hvalue] at hread
    exact congrArg some (Except.ok.inj hread)

theorem ensures_literal {text : Token} {value : α} {P : α → Prop} (h : P value) :
    (literal text value).Ensures P := by
  intro c m hm
  obtain ⟨rest, _, rfl⟩ := literal_run_eq_done_iff.mp hm
  exact h

section Adapting

variable {p : Parser α} {P : α → Prop}

theorem Ensures.described (hp : p.Ensures P) (description : String) :
    (p.described description).Ensures P := hp

theorem Ensures.map (hp : p.Ensures P) {f : α → β} {Q : β → Prop} (h : ∀ a, P a → Q (f a)) :
    (p.map f).Ensures Q := by
  intro c m hm
  obtain ⟨n, hn, rfl⟩ := map_run_eq_done_iff.mp hm
  exact h n.value (hp c n hn)

theorem Ensures.refine (hp : p.Ensures P) {f : α → Except Problem β} {Q : β → Prop}
    (h : ∀ a b, P a → f a = .ok b → Q b) : (p.refine f).Ensures Q := by
  intro c m hm
  simp only [Parser.refine, Outcome.bind_eq_done_iff] at hm
  obtain ⟨n, hn, hm⟩ := hm
  cases hvalue : f n.value with
  | error problem =>
    rw [hvalue] at hm
    cases hm
  | ok value =>
    rw [hvalue] at hm
    obtain rfl := Outcome.done.inj hm
    exact h n.value value (hp c n hn) hvalue

theorem Ensures.withDefault (hp : p.Ensures P) {default : α} (h : P default) :
    (p.withDefault default).Ensures P := by
  intro c m hm
  simp only [Parser.withDefault] at hm
  cases hrun : p.run c with
  | endless =>
    rw [hrun] at hm
    cases hm
  | done n =>
    rw [hrun] at hm
    obtain rfl := Outcome.done.inj hm
    exact hp c n hrun
  | failed f =>
    rw [hrun] at hm
    obtain rfl := Outcome.done.inj hm
    exact h

theorem Ensures.optional (hp : p.Ensures P) : p.optional.Ensures fun o => ∀ a ∈ o, P a := by
  refine (hp.map fun a ha b hb => ?_).withDefault fun a ha => nomatch ha
  obtain rfl := Option.some.inj hb
  exact ha

theorem Ensures.exhaustive (hp : p.Ensures P) : p.exhaustive.Ensures P := by
  intro c m hm
  exact hp c m (exhaustive_run_eq_done_iff.mp hm).1

end Adapting

/-! ## Choice and sequence -/

theorem ensures_oneOf {branches : List (Parser α)} {P : α → Prop}
    (hp : ∀ p ∈ branches, p.Ensures P) : (oneOf branches).Ensures P := by
  intro c m hm
  obtain ⟨p, hmem, hrun⟩ := exists_mem_of_oneOf hm
  exact hp p hmem c m hrun

section Sequence

variable {p : Parser α} {q : Parser β} {r : Parser γ} {s : Parser δ}
variable {P : α → Prop} {Q : β → Prop} {R : γ → Prop} {S : δ → Prop}

theorem Ensures.pair (hp : p.Ensures P) (hq : q.Ensures Q) :
    (p.pair q).Ensures fun v => P v.1 ∧ Q v.2 := by
  intro c m hm
  obtain ⟨a, b, ha, hb, rfl⟩ := pair_run_eq_done_iff.mp hm
  exact ⟨hp c a ha, hq a.cursor b hb⟩

theorem ensures_triple (hp : p.Ensures P) (hq : q.Ensures Q) (hr : r.Ensures R) :
    (triple p q r).Ensures fun v => P v.1 ∧ Q v.2.1 ∧ R v.2.2 :=
  ((hp.pair hq).pair hr).map fun _ h => ⟨h.1.1, h.1.2, h.2⟩

theorem ensures_quadruple (hp : p.Ensures P) (hq : q.Ensures Q) (hr : r.Ensures R)
    (hs : s.Ensures S) :
    (quadruple p q r s).Ensures fun v => P v.1 ∧ Q v.2.1 ∧ R v.2.2.1 ∧ S v.2.2.2 :=
  ((ensures_triple hp hq hr).pair hs).map fun _ h => ⟨h.1.1, h.1.2.1, h.1.2.2, h.2⟩

theorem Ensures.keyword (hp : p.Ensures P) (text : Token) : (Parser.keyword text p).Ensures P :=
  ((ensures_true _).pair hp).map fun _ h => h.2

end Sequence

/-! ## Repetitions -/

section Repetition

variable {p : Parser α} {P : α → Prop}

theorem forall_mem_push {m : Match (List α)} {next : Match α} (hm : ∀ a ∈ m.value, P a)
    (hnext : P next.value) : ∀ a ∈ (m.push next).value, P a := by
  intro a ha
  rcases List.mem_append.mp ha with ha | ha
  · exact hm a ha
  · obtain rfl := List.mem_singleton.mp ha
    exact hnext

theorem ensures_repeatFrom (hp : p.Ensures P) {minimum : Nat} {m n : Match (List α)}
    (hm : ∀ a ∈ m.value, P a) (h : repeatFrom minimum p m = .done n) :
    minimum ≤ n.value.length ∧ ∀ a ∈ n.value, P a := by
  fun_induction repeatFrom minimum p m with
  | case1 m hend => cases h
  | case2 m failure hfail hfew => cases h
  | case3 m failure hfail hfew =>
    obtain rfl := Outcome.done.inj h
    exact ⟨Nat.not_lt.mp hfew, hm⟩
  | case4 m next hnext hless ih => exact ih (forall_mem_push hm (hp _ next hnext)) h
  | case5 m next hnext hless hfew => cases h
  | case6 m next hnext hless hfew =>
    obtain rfl := Outcome.done.inj h
    exact ⟨Nat.not_lt.mp hfew, forall_mem_push hm (hp _ next hnext)⟩

theorem ensures_atLeast (minimum : Nat) (hp : p.Ensures P) :
    (atLeast minimum p).Ensures fun values => minimum ≤ values.length ∧ ∀ a ∈ values, P a :=
  fun _ _ h => ensures_repeatFrom hp (List.forall_mem_nil P) h

theorem ensures_separatedFrom {separator : Parser β} (hp : p.Ensures P) {m : Match (List α)}
    {n : Match (List α) × Option Failure} (hm : ∀ a ∈ m.value, P a)
    (h : separatedFrom p separator m = .done n) : ∀ a ∈ n.1.value, P a := by
  fun_induction separatedFrom p separator m with
  | case1 m hend => cases h
  | case2 m failure hfail =>
    obtain rfl := Outcome.done.inj h
    exact hm
  | case3 m between hbetween hend => cases h
  | case4 m between hbetween failure hfail =>
    obtain rfl := Outcome.done.inj h
    exact hm
  | case5 m between hbetween next hnext hless ih =>
    exact ih (forall_mem_push hm (hp _ next hnext)) h
  | case6 m between hbetween next hnext hless => cases h

theorem ensures_separated (minimum : Nat) {separator : Parser β} (hp : p.Ensures P) :
    (separated minimum p separator).Ensures fun values =>
      minimum ≤ values.length ∧ ∀ a ∈ values, P a := by
  intro c m hm
  simp only [separated] at hm
  split at hm
  · cases hm
  · split at hm
    · next hzero =>
      obtain rfl := Outcome.done.inj hm
      exact ⟨Nat.le_of_eq hzero, List.forall_mem_nil P⟩
    · cases hm
  · next first hfirst =>
    obtain ⟨⟨n, stopped⟩, hn, hm⟩ := Outcome.bind_eq_done_iff.mp hm
    have hsingle : ∀ a ∈ (first.map ([·])).value, P a := fun a ha => by
      obtain rfl := List.mem_singleton.mp ha
      exact hp c first hfirst
    have hall := ensures_separatedFrom hp hsingle hn
    by_cases hfew : n.value.length < minimum
    · simp only [if_pos hfew] at hm
      cases hm
    · simp only [if_neg hfew] at hm
      obtain rfl := Outcome.done.inj hm
      exact ⟨Nat.not_lt.mp hfew, hall⟩

/-- An item is read only where the stop is not, and may owe something to that. -/
theorem ensures_upToFrom {stop : Parser β}
    (h : ∀ c f next, stop.run c = .failed f → p.run c = .done next → P next.value)
    {m n : Match (List α)} (hm : ∀ a ∈ m.value, P a) (hn : upToFrom stop p m = .done n) :
    ∀ a ∈ n.value, P a := by
  fun_induction upToFrom stop p m with
  | case1 m hend =>
    obtain rfl := Outcome.done.inj hn
    exact hm
  | case2 m hrest hend => cases hn
  | case3 m hrest stopped hstop =>
    obtain rfl := Outcome.done.inj hn
    exact hm
  | case4 m hrest failure hfail hend => cases hn
  | case5 m hrest failure hfail failure' hfail' => cases hn
  | case6 m hrest failure hfail next hnext hless ih =>
    exact ih (forall_mem_push hm (h _ failure next hfail hnext)) hn
  | case7 m hrest failure hfail next hnext hless =>
    obtain rfl := Outcome.done.inj hn
    exact forall_mem_push hm (h _ failure next hfail hnext)

theorem ensures_upTo {stop : Parser β}
    (h : ∀ c f next, stop.run c = .failed f → p.run c = .done next → P next.value) :
    (upTo stop p).Ensures fun values => ∀ a ∈ values, P a :=
  fun _ _ hm => ensures_upToFrom h (List.forall_mem_nil P) hm

end Repetition

/-! ## Gathering -/

section Gathering

variable [Accumulator α] {parts : List (Parser α)} {P : α → Prop}

/-- What has been found is a fold of as many parts as have matched. -/
theorem ensures_scanFrom (hp : ∀ p ∈ parts, p.Ensures P) {s u : Scan α}
    (hs : ∃ values, s.count = values.length ∧ (∀ a ∈ values, P a) ∧
      s.found.value = Accumulator.foldAll values)
    (h : scanFrom parts s = some u) :
    ∃ values, u.count = values.length ∧ (∀ a ∈ values, P a) ∧
      u.found.value = Accumulator.foldAll values := by
  have hstep {s : Scan α} {next : Match α} {missed : Option Failure}
      (hs : ∃ values, s.count = values.length ∧ (∀ a ∈ values, P a) ∧
        s.found.value = Accumulator.foldAll values)
      (hhit : attempt parts s.found.cursor none = .hit next missed) :
      ∃ values, s.count + 1 = values.length ∧ (∀ a ∈ values, P a) ∧
        (s.found.andThen next Accumulator.append).value = Accumulator.foldAll values := by
    obtain ⟨values, hcount, hvalues, hvalue⟩ := hs
    obtain ⟨p, hmem, hrun⟩ := exists_mem_of_attempt hhit
    refine ⟨values ++ [next.value], ?_, fun a ha => ?_, ?_⟩
    · rw [List.length_append, hcount, List.length_singleton]
    · rcases List.mem_append.mp ha with ha | ha
      · exact hvalues a ha
      · obtain rfl := List.mem_singleton.mp ha
        exact hp p hmem _ next hrun
    · show Accumulator.append s.found.value next.value = _
      rw [hvalue, Accumulator.foldAll_concat]
  fun_induction scanFrom parts s with
  | case1 s hend =>
    obtain rfl := Option.some.inj h
    exact hs
  | case2 s hrest hend => cases h
  | case3 s hrest missed hmiss =>
    obtain rfl := Option.some.inj h
    exact hs
  | case4 s hrest next missed hhit found hless ih => exact ih (hstep hs hhit) h
  | case5 s hrest next missed hhit found hless =>
    obtain rfl := Option.some.inj h
    exact hstep hs hhit

theorem ensures_gather (minimum : Nat) (hp : ∀ p ∈ parts, p.Ensures P) :
    (gather minimum parts).Ensures fun value => ∃ values, minimum ≤ values.length ∧
      (∀ a ∈ values, P a) ∧ value = Accumulator.foldAll values := by
  intro c m hm
  simp only [gather, scan] at hm
  cases hscan : scanFrom parts ⟨⟨Accumulator.identity, c, none⟩, 0, none⟩ with
  | none =>
    rw [hscan] at hm
    cases hm
  | some s =>
    rw [hscan] at hm
    obtain ⟨values, hcount, hvalues, hvalue⟩ :=
      ensures_scanFrom hp ⟨[], rfl, List.forall_mem_nil P, rfl⟩ hscan
    by_cases hfew : s.count < minimum
    · simp only [if_pos hfew] at hm
      cases hm
    · simp only [if_neg hfew] at hm
      obtain rfl := Outcome.done.inj hm
      exact ⟨values, hcount ▸ Nat.not_lt.mp hfew, hvalues, hvalue⟩

/-- A postcondition that appending keeps is true of whatever is gathered. -/
theorem ensures_gather_of_append (minimum : Nat) (hp : ∀ p ∈ parts, p.Ensures P)
    (hidentity : P Accumulator.identity) (happend : ∀ a b, P a → P b → P (Accumulator.append a b)) :
    (gather minimum parts).Ensures P := by
  refine (ensures_gather minimum hp).mono fun value h => ?_
  obtain ⟨values, _, hvalues, rfl⟩ := h
  exact List.foldlRecOn values Accumulator.append hidentity
    fun a ha b hb => happend a b ha (hvalues b hb)

/-- A bag that may not be empty is not the identity, if none of its parts is. -/
theorem ensures_gather_ne_identity [LawfulAccumulator α] {minimum : Nat} (hminimum : 0 < minimum)
    (hp : ∀ p ∈ parts, p.Ensures (· ≠ Accumulator.identity))
    (h : ∀ a b : α, Accumulator.append a b = Accumulator.identity → a = Accumulator.identity) :
    (gather minimum parts).Ensures (· ≠ Accumulator.identity) := by
  refine (ensures_gather minimum hp).mono fun value hvalue => ?_
  obtain ⟨values, hmany, hvalues, rfl⟩ := hvalue
  have hsome : values ≠ [] := List.length_pos_iff.mp (Nat.lt_of_lt_of_le hminimum hmany)
  exact Accumulator.foldAll_ne_identity h hsome hvalues

end Gathering

/-! ## Words of an enumerated type -/

theorem ensures_of_mem_flags [Enumerated α] [DecidableEq α] {text : α → Token}
    {p : Parser (EnumSet α)} (hp : p ∈ flags text) : p.Ensures (· ≠ ∅) := by
  obtain ⟨q, _, rfl⟩ := List.mem_map.mp hp
  exact (ensures_true q).map fun a _ => EnumSet.singleton_ne_empty a

/-- One flag or more make a set with a member. -/
theorem ensures_flagSet_ne_empty [Enumerated α] [DecidableEq α] {minimum : Nat}
    (hminimum : 0 < minimum) (text : α → Token) : (flagSet minimum text).Ensures (· ≠ ∅) :=
  ensures_gather_ne_identity hminimum (fun _ => ensures_of_mem_flags)
    fun _ _ => EnumSet.eq_empty_of_union

end Parser
end SimControl
