/-
Actions in front of other tokens.

A match is near if the failures that it recovered from lie at most one token behind the next
one.  Most operands of the grammar fail at one of their first two tokens, so that what is
repeated or left out leaves no other trace.  An accountable parser with near matches reads the
same where the next two tokens are the same.

`Action.run_before_separator` is the outcome: an action that ends at a separator reads the same
whatever stands behind the token after the separator.
-/
import SimControl.Proofs.Blame
import SimControl.Proofs.Committed
import SimControl.Proofs.Segments

namespace SimControl
namespace Parser

variable {α β γ : Type}

/-- No failure that a match recovered from lies more than one token behind the end of the match. -/
structure Near (p : Parser α) : Prop where
  bounded : p.Bounded
  offset_le {c : Cursor} {m : Match α} : p.run c = .done m →
    ∀ f ∈ m.recovered, f.offset ≤ m.cursor.position + 1

theorem near_single (description : String) (read : Token → Except Problem α) :
    (single description read).Near where
  bounded := bounded_single description read
  offset_le h := by
    obtain ⟨_, hnone⟩ := single_run_eq_done h
    rw [hnone]
    exact Failure.forall_mem_none

theorem Tells.near {p : Parser α} (hp : p.Tells) : p.Near := by
  obtain ⟨description, read, rfl, _⟩ := hp
  exact near_single description read

theorem near_reading (description : String) (read : Token → Option α) :
    (reading description read).Near := near_single _ _

theorem near_literal (text : Token) (value : α) : (literal text value).Near := near_reading _ _

theorem Near.described {p : Parser α} (hp : p.Near) (description : String) :
    (p.described description).Near := ⟨hp.bounded, hp.offset_le⟩

theorem Near.map {p : Parser α} (hp : p.Near) (f : α → β) : (p.map f).Near where
  bounded := hp.bounded.map f
  offset_le h := by
    obtain ⟨n, hn, rfl⟩ := map_run_eq_done_iff.mp h
    exact hp.offset_le hn

theorem Near.withDefault {p : Parser α} (hp : p.Near) (hprompt : p.Prompt 1) (default : α) :
    (p.withDefault default).Near where
  bounded := hp.bounded.withDefault default
  offset_le {c m} h := by
    simp only [Parser.withDefault] at h
    cases hrun : p.run c with
    | endless =>
      rw [hrun] at h
      cases h
    | done n =>
      rw [hrun] at h
      obtain rfl := Outcome.done.inj h
      exact hp.offset_le hrun
    | failed f =>
      rw [hrun] at h
      obtain rfl := Outcome.done.inj h
      exact Failure.forall_mem_some (hprompt.offset_le hrun)

theorem Near.optional {p : Parser α} (hp : p.Near) (hprompt : p.Prompt 1) : p.optional.Near :=
  (hp.map some).withDefault (hprompt.map some) none

theorem near_oneOf {branches : List (Parser α)} (hp : ∀ p ∈ branches, p.Near) :
    (oneOf branches).Near where
  bounded := bounded_oneOf fun p hmem => (hp p hmem).bounded
  offset_le h := by
    obtain ⟨p, hmem, hrun⟩ := exists_mem_of_oneOf h
    exact (hp p hmem).offset_le hrun

/-- What is close to a place is as close to every later place, or lies before it. -/
theorem forall_mem_deepest_of_le {a b : Option Failure} {n k reach : Nat} (hle : n ≤ k)
    (ha : ∀ f ∈ a, f.offset ≤ n + reach) (hb : ∀ f ∈ b, f.offset ≤ k + reach) :
    ∀ f ∈ Failure.deepest a b, f.offset ≤ k + reach := by
  refine Failure.forall_mem_deepest (fun f hf => ?_) hb
  have hf' := ha f hf
  omega

theorem Near.pair {p : Parser α} {q : Parser β} (hp : p.Near) (hq : q.Near) : (p.pair q).Near where
  bounded := hp.bounded.pair hq.bounded
  offset_le h := by
    obtain ⟨a, b, ha, hb, rfl⟩ := pair_run_eq_done_iff.mp h
    have hle : a.cursor.position ≤ b.cursor.position := (hq.bounded.done hb).leads.position_le
    exact forall_mem_deepest_of_le hle (hp.offset_le ha) (hq.offset_le hb)

theorem near_triple {p : Parser α} {q : Parser β} {r : Parser γ} (hp : p.Near) (hq : q.Near)
    (hr : r.Near) : (triple p q r).Near := ((hp.pair hq).pair hr).map _

theorem Near.keyword {p : Parser α} (hp : p.Near) (text : Token) : (keyword text p).Near :=
  (((near_literal text ()).pair hp).map Prod.snd).described _

/-! ## Repetitions -/

section Repetition

variable {p : Parser α}

theorem near_push (hp : p.Near) {m : Match (List α)} {next : Match α}
    (hm : ∀ f ∈ m.recovered, f.offset ≤ m.cursor.position + 1) (h : p.run m.cursor = .done next) :
    ∀ f ∈ (m.push next).recovered, f.offset ≤ (m.push next).cursor.position + 1 :=
  forall_mem_deepest_of_le (hp.bounded.done h).leads.position_le hm (hp.offset_le h)

theorem near_repeatFrom (hp : p.Near) (hprompt : p.Prompt 1) {minimum : Nat}
    {m n : Match (List α)} (hm : ∀ f ∈ m.recovered, f.offset ≤ m.cursor.position + 1)
    (h : repeatFrom minimum p m = .done n) :
    ∀ f ∈ n.recovered, f.offset ≤ n.cursor.position + 1 := by
  fun_induction repeatFrom minimum p m with
  | case1 m hend => cases h
  | case2 m failure hfail hfew => cases h
  | case3 m failure hfail hfew =>
    obtain rfl := Outcome.done.inj h
    exact Failure.forall_mem_deepest hm (Failure.forall_mem_some (hprompt.offset_le hfail))
  | case4 m next hnext hless ih => exact ih (near_push hp hm hnext) h
  | case5 m next hnext hless hfew => cases h
  | case6 m next hnext hless hfew =>
    obtain rfl := Outcome.done.inj h
    exact near_push hp hm hnext

theorem near_atLeast (minimum : Nat) (hp : p.Near) (hprompt : p.Prompt 1) :
    (atLeast minimum p).Near where
  bounded := bounded_atLeast minimum hp.bounded
  offset_le h := near_repeatFrom hp hprompt Failure.forall_mem_none h

theorem near_upToFrom {stop : Parser β} (hp : p.Near) {m n : Match (List α)}
    (hm : ∀ f ∈ m.recovered, f.offset ≤ m.cursor.position + 1)
    (h : upToFrom stop p m = .done n) :
    ∀ f ∈ n.recovered, f.offset ≤ n.cursor.position + 1 := by
  fun_induction upToFrom stop p m with
  | case1 m hend =>
    obtain rfl := Outcome.done.inj h
    exact hm
  | case2 m hrest hend => cases h
  | case3 m hrest between hbetween =>
    obtain rfl := Outcome.done.inj h
    exact hm
  | case4 m hrest failure hfail hend => cases h
  | case5 m hrest failure hfail failure' hfail' => cases h
  | case6 m hrest failure hfail next hnext hless ih => exact ih (near_push hp hm hnext) h
  | case7 m hrest failure hfail next hnext hless =>
    obtain rfl := Outcome.done.inj h
    exact near_push hp hm hnext

theorem near_upTo (stop : Parser β) (hp : p.Near) : (upTo stop p).Near where
  bounded := bounded_upTo stop hp.bounded
  offset_le h := near_upToFrom hp Failure.forall_mem_none h

end Repetition

/-! ## Gathering -/

section Gathering

variable {parts : List (Parser α)} {reach : Nat}

/-- All that the parts fail with, or have recovered from where they end, is at most `reach` tokens
behind the next one. -/
structure Close (parts : List (Parser α)) (reach : Nat) : Prop where
  bounded : ∀ p ∈ parts, p.Bounded
  done {p : Parser α} (hp : p ∈ parts) {c : Cursor} {m : Match α} : p.run c = .done m →
    ∀ f ∈ m.recovered, f.offset ≤ m.cursor.position + reach
  failed {p : Parser α} (hp : p ∈ parts) {c : Cursor} {f : Failure} : p.run c = .failed f →
    f.offset ≤ c.position + reach

theorem close_of_near (hp : ∀ p ∈ parts, p.Near) (hprompt : ∀ p ∈ parts, p.Prompt 1) :
    Close parts 1 where
  bounded p hmem := (hp p hmem).bounded
  done hmem := (hp _ hmem).offset_le
  failed hmem := (hprompt _ hmem).offset_le

theorem Close.missed (h : Close parts reach) (c : Cursor) :
    ∀ f ∈ missedBy (attempt parts c none), f.offset ≤ c.position + reach :=
  forall_mem_missedBy (fun _ hmem _ => h.failed hmem) Failure.forall_mem_none

variable [Accumulator α]

/-- Neither a hit nor what was tried before it has looked far behind it. -/
theorem Close.round (h : Close parts reach) {m next : Match α} {missed : Option Failure}
    (hm : ∀ f ∈ m.recovered, f.offset ≤ m.cursor.position + reach)
    (hhit : attempt parts m.cursor none = .hit next missed) :
    (∀ f ∈ (m.andThen next Accumulator.append).recovered,
      f.offset ≤ next.cursor.position + reach) ∧
      ∀ f ∈ missed, f.offset ≤ next.cursor.position + reach := by
  obtain ⟨p, hmem, hnext⟩ := exists_mem_of_attempt hhit
  have hle : m.cursor.position ≤ next.cursor.position :=
    ((h.bounded p hmem).done hnext).leads.position_le
  have hmissed := h.missed m.cursor
  rw [hhit] at hmissed
  refine ⟨forall_mem_deepest_of_le hle hm (h.done hmem hnext), fun f hf => ?_⟩
  have hoffset := hmissed f hf
  omega

theorem Close.scanFrom (h : Close parts reach) {s t : Scan α}
    (hs : ∀ f ∈ s.found.recovered, f.offset ≤ s.found.cursor.position + reach)
    (hmissed : ∀ f ∈ s.missed, f.offset ≤ s.found.cursor.position + reach)
    (hscan : Parser.scanFrom parts s = some t) :
    (∀ f ∈ t.found.recovered, f.offset ≤ t.found.cursor.position + reach) ∧
      ∀ f ∈ t.missed, f.offset ≤ t.found.cursor.position + reach := by
  fun_induction Parser.scanFrom parts s with
  | case1 s hend =>
    obtain rfl := Option.some.inj hscan
    exact ⟨hs, hmissed⟩
  | case2 s hrest hend => cases hscan
  | case3 s hrest missed hmiss =>
    obtain rfl := Option.some.inj hscan
    have hlast := h.missed s.found.cursor
    rw [hmiss] at hlast
    exact ⟨hs, hlast⟩
  | case4 s hrest next missed hhit found hless ih =>
    obtain ⟨hfound, hnext⟩ := h.round hs hhit
    exact ih hfound hnext hscan
  | case5 s hrest next missed hhit found hless =>
    obtain rfl := Option.some.inj hscan
    exact h.round hs hhit

theorem Close.gather (h : Close parts reach) {minimum : Nat} {c : Cursor} {m : Match α}
    (hm : (gather minimum parts).run c = .done m) :
    ∀ f ∈ m.recovered, f.offset ≤ m.cursor.position + reach := by
  simp only [Parser.gather] at hm
  cases hscan : scan parts c with
  | none =>
    rw [hscan] at hm
    cases hm
  | some s =>
    rw [hscan] at hm
    obtain ⟨hfound, hmissed⟩ :=
      h.scanFrom Failure.forall_mem_none Failure.forall_mem_none hscan
    by_cases hfew : s.count < minimum
    · simp only [if_pos hfew] at hm
      cases hm
    · simp only [if_neg hfew] at hm
      obtain rfl := Outcome.done.inj hm
      exact Failure.forall_mem_deepest hfound hmissed

theorem near_gather (minimum : Nat) (hp : ∀ p ∈ parts, p.Near)
    (hprompt : ∀ p ∈ parts, p.Prompt 1) : (gather minimum parts).Near where
  bounded := bounded_gather minimum fun p hmem => (hp p hmem).bounded
  offset_le := (close_of_near hp hprompt).gather

end Gathering

section Enumerated

variable [Enumerated α] {text : α → Token}

theorem near_of_mem_literals {p : Parser α} (hp : p ∈ literals text) : p.Near := by
  obtain ⟨a, _, rfl⟩ := List.mem_map.mp hp
  exact near_literal _ _

theorem near_oneSpelled (text : α → Token) : (oneSpelled text).Near :=
  near_oneOf fun _ hp => near_of_mem_literals hp

theorem close_flags [DecidableEq α] (text : α → Token) : Close (flags text) 0 where
  bounded p hp := (Composed.of_mem_flags hp).bounded
  done hp _ _ h := by
    obtain ⟨q, hq, rfl⟩ := List.mem_map.mp hp
    obtain ⟨a, _, rfl⟩ := List.mem_map.mp hq
    obtain ⟨n, hn, rfl⟩ := map_run_eq_done_iff.mp h
    obtain ⟨rest, _, rfl⟩ := literal_run_eq_done_iff.mp hn
    exact Failure.forall_mem_none
  failed hp := (prompt_of_mem_flags hp).offset_le

/-- Where a set of flags ends is as far as it looks. -/
theorem offset_le_of_flagSet [DecidableEq α] {minimum : Nat} {c : Cursor} {m : Match (EnumSet α)}
    (h : (flagSet minimum text).run c = .done m) :
    ∀ f ∈ m.recovered, f.offset ≤ m.cursor.position := (close_flags text).gather h

theorem near_flagSet [DecidableEq α] (minimum : Nat) (text : α → Token) :
    (flagSet minimum text).Near where
  bounded := (Composed.flagSet minimum text).bounded
  offset_le h f hf := Nat.le_succ_of_le (offset_le_of_flagSet h f hf)

end Enumerated

/-! ## The same tokens up to the next but one -/

/-- A match that is near does not depend on the tokens behind the two next ones. -/
theorem Accountable.run_before {p : Parser α} (hp : p.Accountable) {position : Nat}
    {own tail : List Token} {t u : Token} {m : Match α}
    (hm : p.run ⟨position, own ++ t :: u :: tail⟩ = .done m)
    (hrest : m.cursor.rest = t :: u :: tail)
    (hnear : ∀ f ∈ m.recovered, f.offset ≤ m.cursor.position + 1) (tail' : List Token) :
    ∃ n, p.run ⟨position, own ++ t :: u :: tail'⟩ = .done n ∧ n.value = m.value ∧
      n.cursor.rest = t :: u :: tail' := by
  let line (tail : List Token) : List Token :=
    (List.replicate position "" ++ own ++ [t, u]) ++ tail
  have hdrop (tail : List Token) : (line tail).drop position = own ++ t :: u :: tail := by
    simp only [line, List.append_assoc, List.cons_append, List.nil_append]
    exact List.drop_left' List.length_replicate
  have hcursor (tail : List Token) :
      (⟨position, own ++ t :: u :: tail⟩ : Cursor) = .ofIndex (line tail) position :=
    congrArg (Cursor.mk position) (hdrop tail).symm
  have hlength : (List.replicate position "" ++ own ++ [t, u]).length =
      position + own.length + 1 + 1 := by
    simp only [List.length_append, List.length_replicate, List.length_cons, List.length_nil]
  have hsame : SameUpTo (position + own.length + 1) (line tail) (line tail') := by
    constructor
    · rw [List.length_append, hlength]
      omega
    · rw [List.take_left' hlength, List.take_left' hlength]
  have hposition : m.cursor.position = position + own.length := by
    obtain ⟨passed, hpassed, hmoved⟩ := (hp.bounded.done hm).leads
    rw [hrest] at hpassed
    rw [hmoved, List.append_cancel_right hpassed]
  have hsettled : m.SettledBy (position + own.length + 1) := by
    refine ⟨by omega, fun f hf => ?_⟩
    have hoffset := hnear f hf
    omega
  rw [hcursor tail] at hm
  rw [hcursor tail']
  refine ⟨_, hp.done hsame hm hsettled, rfl, ?_⟩
  show (line tail').drop m.cursor.position = t :: u :: tail'
  rw [hposition, ← List.drop_drop, hdrop]
  exact List.drop_left

end Parser

open SimControl.Parser

variable (fs : FileSystem)

/-! ## Operands of actions -/

theorem Operand.near_arguments : Operand.arguments.Near := near_upTo _ (near_reading _ _)

theorem ApplicationLaunch.parser_near : (ApplicationLaunch.parser fs).Near :=
  ((near_triple (near_flagSet 0 _) (Operand.tells_bundleId fs).near
    Operand.near_arguments).map _).described _

theorem AgentLaunch.parser_near : (AgentLaunch.parser fs).Near :=
  ((near_triple (near_flagSet 0 _) ((Operand.tells_file fs).near.described _)
    Operand.near_arguments).map _).described _

theorem TestLaunch.parser_near : (TestLaunch.parser fs).Near := by
  have hdouble : Operand.double.Prompt 0 := prompt_reading _ _
  have htimeout : (keyword "--test-timeout" Operand.double).Near := (near_reading _ _).keyword _
  exact ((near_triple (htimeout.optional (hdouble.keyword _)) (Operand.tells_directory fs).near
    (ApplicationLaunch.parser_near fs)).map _).described _

theorem CreationSpecification.parser_near : (CreationSpecification.parser fs).Near := by
  refine near_oneOf fun p hp => ?_
  simp only [List.mem_cons, List.not_mem_nil, or_false] at hp
  rcases hp with rfl | rfl
  · exact near_literal _ _
  · refine (near_gather 0 (fun q hq => ?_) fun q hq => ?_).map _
    · cases hq using IndividualCreation.property_cases with
      | model | os => exact (near_reading _ _).map _
      | auxDirectory => exact ((Operand.tells_directory fs).near.keyword _).map _
    · exact IndividualCreation.prompt_of_mem_properties fs hq

theorem ListenInterface.parser_near : ListenInterface.parser.Near := by
  refine (near_gather 0 (fun p hp => ?_) fun _ => prompt_of_mem_sources).map _
  cases hp using source_cases with
  | stdin => exact near_literal _ _
  | socket | http => exact (tells_portParser.near.keyword _).map _

/-! ## Actions -/

namespace Action

theorem installParser_near : (installParser fs).Near := by
  have hcodesign := (near_literal "--codesign" true).withDefault
    ((prompt_literal _ _).mono (Nat.zero_le 1)) false
  refine ((near_oneOf fun p hp => ?_).pair hcodesign).map _
  simp only [List.mem_cons, List.not_mem_nil, or_false] at hp
  rcases hp with rfl | rfl
  · exact (Operand.tells_application fs).near.map _
  · exact (Operand.tells_file fs).near

/-- An action is near, unless it can only be closed by the separator. -/
theorem near_or_closedBy {arm : Arm} (harm : arm ∈ arms fs) :
    arm.parser.Near ∨ arm.verb ≠ .launch ∧ arm.parser.ClosedBy separatorToken := by
  have hbare (verb : Verb) (action : Action) : (Arm.bare verb action).parser.Near :=
    near_literal _ _
  have hoperands (verb : Verb) {p : Parser Action} (hp : p.Near) :
      (Arm.operands verb p).parser.Near := hp.keyword _
  have hclosed (verb : Verb) {p : Parser Action} (hverb : verb ≠ .launch)
      (hp : p.ClosedBy separatorToken) :
      verb ≠ .launch ∧ (Arm.operands verb p).parser.ClosedBy separatorToken :=
    ⟨hverb, hp.keyword verb.separator_ne_word⟩
  have hid := Operand.tells_bundleId fs
  have hids := near_atLeast 1 hid.near (hid.prompt.mono (Nat.zero_le 1))
  have hfile := Operand.tells_file fs
  have hdouble : Operand.double.Near := near_reading _ _
  have hlaunch := ApplicationLaunch.parser_near fs
  cases harm using arm_cases with
  | approve => exact .inl (hoperands _ (hids.map _))
  | boot =>
    exact .inr (hclosed .boot (by decide) (BootConfiguration.closedBy_separator.optional.map _))
  | clearKeychain | terminate | uninstall => exact .inl (hoperands _ (hid.near.map _))
  | create => exact .inl (hoperands _ ((CreationSpecification.parser_near fs).map _))
  | delete | erase | list | listApps | shutdown => exact .inl (hbare _ _)
  | diagnose => exact .inr (hclosed .diagnose (by decide) (closedBy_diagnosis.map _))
  | install => exact .inl (hoperands _ (installParser_near fs))
  | launchAgent => exact .inl (hoperands _ ((AgentLaunch.parser_near fs).map _))
  | launchApplication | relaunch => exact .inl (hoperands _ (hlaunch.map _))
  | launchTest => exact .inl (hoperands _ ((TestLaunch.parser_near fs).map _))
  | listen => exact .inl (hoperands _ (ListenInterface.parser_near.map _))
  | openUrl => exact .inl (hoperands _ ((near_reading _ _).map _))
  | record => exact .inl (hoperands _ ((near_oneSpelled _).map _))
  | tap => exact .inl (hoperands _ ((hdouble.pair hdouble).map _))
  | upload =>
    exact .inl (hoperands _ ((near_atLeast 1 hfile.near (hfile.prompt.mono (Nat.zero_le 1))).map _))
  | watchdogOverride => exact .inl (hoperands _ ((hdouble.pair hids).map _))

/-- An action that ends at a separator is the same whatever stands behind the token after the
separator. -/
theorem run_before_separator {position : Nat} {own tail : List Token} {t : Token}
    {m : Match Action}
    (hm : (Action.parser fs).run ⟨position, own ++ separatorToken :: t :: tail⟩ = .done m)
    (hrest : m.cursor.rest = separatorToken :: t :: tail) (tail' : List Token) :
    ∃ n, (Action.parser fs).run ⟨position, own ++ separatorToken :: t :: tail'⟩ = .done n ∧
      n.value = m.value ∧ n.cursor.rest = separatorToken :: t :: tail' := by
  obtain ⟨p, hp, hrun⟩ := exists_mem_of_oneOf hm
  obtain ⟨arm, harm, rfl⟩ := List.mem_map.mp hp
  rcases near_or_closedBy fs harm with hnear | ⟨hverb, hclosed⟩
  · exact (parser_accountable fs).run_before hm hrest (hnear.offset_le hrun) tail'
  · have hhead (tail : List Token) :
        (own ++ separatorToken :: tail).head? = some arm.verb.word := by
      cases own with
      | nil => exact absurd ((headedBy_arm arm).of_done hrun rfl) arm.verb.separator_ne_word
      | cons word own => exact congrArg some ((headedBy_arm arm).of_done hrun rfl)
    obtain ⟨alone, halone, hagrees⟩ := hclosed.exists_run hrun
    obtain ⟨n, hn, hagrees'⟩ := (hclosed (t :: tail') ⟨position, own⟩).of_done halone
    have hverbs : (Action.parser fs).run ⟨position, own ++ separatorToken :: t :: tail'⟩ =
        arm.parser.run ⟨position, own ++ separatorToken :: t :: tail'⟩ :=
      parser_run_of_mem harm hverb (hhead _)
    refine ⟨n, hverbs.trans hn, ?_, ?_⟩
    · exact hagrees'.value.trans hagrees.value.symm
    · rw [hagrees.cursor, Cursor.rest_followedBy] at hrest
      rw [hagrees'.cursor, Cursor.rest_followedBy, List.append_left_eq_self.mp hrest]
      rfl

end Action

end SimControl
