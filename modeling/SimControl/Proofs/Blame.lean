/-
The token that a rejected command line is blamed on.

All the parsers of the grammar are accountable.  So no token behind the one that a failure
is about has to do with it, and `Invocation.parse_take_append` follows: whatever is typed
after that token, the command line is rejected at the same place and for the same reason.

Most choices of the grammar are between prompt branches.  The others are between agents and
applications to launch, which differ in one token behind the options that they share, and
between commands and requests for help, which are read to their end.
-/
import SimControl.FileSystem.Tree
import SimControl.Proofs.CommandLine
import SimControl.Proofs.Yielding

namespace SimControl

open SimControl.Parser

variable (fs : FileSystem)

/-! ## Operands -/

theorem Problem.concerns_of_guard {α : Type} {condition : Prop} [Decidable condition] {value : α}
    {reason : Objection} {token : Token} {problem : Problem}
    (h : (if condition then .ok value else .error (.objection reason)) = Except.error problem) :
    problem.Concerns token := by
  by_cases hcondition : condition
  · rw [if_pos hcondition] at h
    cases h
  · rw [if_neg hcondition] at h
    obtain rfl := Except.error.inj h
    exact .objection reason

namespace Operand

theorem concerns_of_existing {accepts : Path → Bool} {objection : Path → Objection} {path : Path}
    {token : Token} {problem : Problem}
    (h : existing fs accepts objection path = .error problem) : problem.Concerns token := by
  unfold existing at h
  by_cases hpresent : fs.isPresent path
  · rw [if_pos hpresent] at h
    exact Problem.concerns_of_guard h
  · rw [if_neg hpresent] at h
    obtain rfl := Except.error.inj h
    exact .objection _

theorem tells_directory : (directory fs).Tells := tells_single fun _ _ => concerns_of_existing fs

theorem tells_file : (file fs).Tells := tells_single fun _ _ => concerns_of_existing fs

theorem prompt_binary : (binary fs).Prompt 0 := (tells_file fs).prompt.described _

theorem tells_application : (Application.parser fs).Tells := by
  refine tells_single fun token problem h => ?_
  unfold Application.ofPath at h
  cases hpath : existing fs (Application.isBundle fs) .notAnApplication token with
  | error problem' =>
    rw [hpath] at h
    obtain rfl := Except.error.inj h
    exact concerns_of_existing fs hpath
  | ok path =>
    rw [hpath] at h
    simp only [bind, Except.bind] at h
    cases hidentifier : Application.identifier? fs path with
    | some identifier =>
      rw [hidentifier] at h
      cases h
    | none =>
      rw [hidentifier] at h
      obtain rfl := Except.error.inj h
      exact .objection _

theorem tells_bundleId : (bundleId fs).Tells := by
  refine tells_single fun token problem h => ?_
  cases happlication : Application.ofPath fs token with
  | ok application =>
    rw [happlication] at h
    cases h
  | error problem' =>
    rw [happlication] at h
    exact Problem.concerns_of_guard h

theorem accountable_arguments : arguments.Accountable :=
  accountable_upTo separatorToken (accountable_reading _ _)

/-- Arguments are whatever stands there. -/
theorem arguments_run_ne_failed (c : Cursor) (f : Failure) : arguments.run c ≠ .failed f := by
  refine upToFrom_ne_failed (fun c hrest f => ?_) _ f
  obtain ⟨token, rest, hsome⟩ := List.exists_cons_of_ne_nil hrest
  simp [any, reading, single, hsome]

end Operand

/-! ## Sections of a command -/

theorem Configuration.prompt_of_mem_settings {p : Parser Configuration}
    (hp : p ∈ Configuration.settings fs) : p.Prompt 1 := by
  simp only [Configuration.settings, List.mem_append, List.mem_map, List.mem_singleton] at hp
  rcases hp with (⟨q, hq, rfl⟩ | ⟨q, hq, rfl⟩) | rfl
  · exact ((prompt_of_mem_flags hq).map _).mono (Nat.zero_le 1)
  · exact ((prompt_of_mem_flags hq).map _).mono (Nat.zero_le 1)
  · exact ((Operand.tells_directory fs).prompt.keyword _).map _

theorem Configuration.parser_accountable : (Configuration.parser fs).Accountable :=
  accountable_gather_of_prompt (Nat.zero_le 1) fun _ => prompt_of_mem_settings fs

namespace TargetQuery

theorem prompt_firstParser : firstParser.Prompt 1 :=
  ((tells_refine_reading _ _ fun _ _ _ => Problem.concerns_of_guard).prompt).keyword _

theorem prompt_typeParser : typeParser.Prompt 0 :=
  prompt_oneOf (Nat.zero_le 1) fun _ => prompt_of_mem_flags

theorem prompt_of_mem_criteria {p : Parser TargetQuery} (hp : p ∈ criteria) : p.Prompt 1 := by
  cases hp using criterion_cases with
  | first => exact prompt_firstParser.map _
  | udid => exact ((prompt_reading _ _).map _).mono (Nat.zero_le 1)
  | state => exact ((prompt_oneSpelled _).map _).mono (Nat.zero_le 1)
  | type => exact (prompt_typeParser.map _).mono (Nat.zero_le 1)
  | osVersion | device => exact ((prompt_named _ _).map _).mono (Nat.zero_le 1)

theorem parser_accountable : parser.Accountable := by
  have hgather : (gather 1 criteria).Accountable :=
    accountable_gather_of_prompt (Nat.le_refl 1) fun _ => prompt_of_mem_criteria
  have hall := prompt_literal "all" all
  exact (hall.accountable_or hgather).described _

end TargetQuery

theorem TargetFormat.parser_accountable : TargetFormat.parser.Accountable :=
  ((accountable_atLeast 1 (prompt_oneSpelled _).accountable).map _).described _

/-! ## Operands of actions -/

theorem ApplicationLaunch.parser_accountable : (ApplicationLaunch.parser fs).Accountable :=
  ((accountable_triple (accountable_flagSet (Nat.zero_le 1) _)
    (Operand.tells_bundleId fs).prompt.accountable Operand.accountable_arguments).map _).described _

theorem AgentLaunch.parser_accountable : (AgentLaunch.parser fs).Accountable :=
  ((accountable_triple (accountable_flagSet (Nat.zero_le 1) _)
    (Operand.prompt_binary fs).accountable Operand.accountable_arguments).map _).described _

theorem TestLaunch.parser_accountable : (TestLaunch.parser fs).Accountable :=
  ((accountable_triple ((prompt_reading _ _).keyword _).accountable.optional
    (Operand.tells_directory fs).prompt.accountable (ApplicationLaunch.parser_accountable fs)).map
      _).described _

/-- A configuration with nothing in it is refused, and nothing was read for it. -/
theorem BootConfiguration.exists_refine_eq :
    ∃ f, parser = ((triple (keyword "--locale" Locale.parser).optional Scale.parser.optional
        BootOption.setParser.optional).refine f).described "Boot Configuration" ∧
      (triple (keyword "--locale" Locale.parser).optional Scale.parser.optional
        BootOption.setParser.optional).Stays f := by
  refine ⟨_, rfl, fun c m problem hm h => ?_⟩
  simp only [triple, map_run_eq_done_iff, pair_run_eq_done_iff] at hm
  obtain ⟨_, ⟨_, n, ⟨k, l, hk, hl, rfl⟩, hn, rfl⟩, rfl⟩ := hm
  obtain ⟨locale, cursor, recovered⟩ := k
  obtain ⟨scale, cursor', recovered'⟩ := l
  obtain ⟨options, cursor'', recovered''⟩ := n
  cases locale with
  | some locale => cases h
  | none =>
    cases scale with
    | some scale => cases h
    | none =>
      cases options with
      | some options => cases h
      | none =>
        obtain rfl := Except.error.inj h
        refine ⟨?_, .emptyBoot, rfl⟩
        have hcursor := cursor_eq_of_optional hk rfl
        have hcursor' := cursor_eq_of_optional hl rfl
        have hcursor'' := cursor_eq_of_optional hn rfl
        exact hcursor''.trans (hcursor'.trans hcursor)

theorem BootConfiguration.parser_accountable : BootConfiguration.parser.Accountable := by
  have hlocale := ((prompt_reading "Locale" Locale.ofText?).keyword "--locale").accountable
  have hscale := (prompt_oneSpelled Scale.flag).accountable
  have hoptions := accountable_flagSet (Nat.le_refl 1) BootOption.flag
  obtain ⟨f, hparser, hstays⟩ := exists_refine_eq
  rw [hparser]
  exact ((accountable_triple hlocale.optional hscale.optional hoptions.optional).refine
    hstays).described _

theorem IndividualCreation.prompt_of_mem_properties {p : Parser IndividualCreation}
    (hp : p ∈ IndividualCreation.properties fs) : p.Prompt 1 := by
  cases hp using IndividualCreation.property_cases with
  | model | os => exact ((prompt_named _ _).map _).mono (Nat.zero_le 1)
  | auxDirectory => exact ((Operand.tells_directory fs).prompt.keyword _).map _

theorem CreationSpecification.parser_accountable :
    (CreationSpecification.parser fs).Accountable := by
  refine (prompt_literal _ _).accountable_or ?_
  exact (accountable_gather_of_prompt (Nat.zero_le 1) fun _ =>
    IndividualCreation.prompt_of_mem_properties fs).map _

theorem ListenInterface.tells_portParser : ListenInterface.portParser.Tells :=
  tells_refine_reading _ _ fun _ _ _ => Problem.concerns_of_guard

theorem ListenInterface.prompt_of_mem_sources {p : Parser ListenInterface} (hp : p ∈ sources) :
    p.Prompt 1 := by
  cases hp using source_cases with
  | stdin => exact (prompt_literal _ _).mono (Nat.zero_le 1)
  | socket | http => exact (tells_portParser.prompt.keyword _).map _

theorem ListenInterface.parser_accountable : ListenInterface.parser.Accountable :=
  (accountable_gather_of_prompt (Nat.zero_le 1) fun _ => prompt_of_mem_sources).map _

theorem DiagnosticQuery.parser_accountable : (DiagnosticQuery.parser fs).Accountable := by
  have hword : Operand.word.Prompt 0 := prompt_reading _ _
  have hfiles : ((Operand.bundleId fs).pair (atLeast 1 Operand.word)).Prompt 1 :=
    prompt_single_pair (Operand.tells_bundleId fs).prompt.accountable
      (hword.atLeast_one (steady_reading _ _))
  have hnames : (atLeast 1 (keyword "--name" Operand.word)).Prompt 1 :=
    (hword.keyword _).atLeast_one ((steady_reading _ _).keyword _)
  have hsince : (keyword "--crashes-since" Instant.parser).Prompt 1 :=
    (prompt_reading _ _).keyword _
  have hcrashes : ((keyword "--crashes-since" Instant.parser).pair
      CrashedProcess.setParser).Accountable :=
    hsince.accountable.pair (accountable_flagSet (Nat.le_refl 1) _)
  have htake := hsince.consuming.pair (steady_flagSet 1 CrashedProcess.flag)
  refine (accountable_oneOf (fun p hp => ?_)
    (.cons (fun q hq => ?_) (List.pairwise_pair.mpr ?_))).described _
  · simp only [List.mem_cons, List.not_mem_nil, or_false] at hp
    rcases hp with rfl | rfl | rfl
    · exact hfiles.accountable.map _
    · exact hnames.accountable.map _
    · exact hcrashes.map _
  · simp only [List.mem_cons, List.not_mem_nil, or_false] at hq
    rcases hq with rfl | rfl
    · exact (hfiles.yieldsTo hnames.accountable.bounded hnames.consuming).map _ _
    · exact (hfiles.yieldsTo hcrashes.bounded htake).map _ _
  · exact (hnames.yieldsTo hcrashes.bounded htake).map _ _

/-! ## Actions -/

namespace Action

theorem installParser_accountable : (installParser fs).Accountable :=
  (((((Operand.tells_application fs).prompt.map _).accountable_or
    (Operand.tells_file fs).prompt.accountable).pair
      ((prompt_literal _ _).accountable.withDefault _))).map _

theorem diagnoseParser_accountable : (diagnoseParser fs).Accountable :=
  (((prompt_oneSpelled _).accountable.withDefault _).pair
    ((DiagnosticQuery.parser_accountable fs).withDefault _)).map _

theorem accountable_of_mem_arms {arm : Arm} (harm : arm ∈ arms fs) : arm.parser.Accountable := by
  have hbare (verb : Verb) (action : Action) : (Arm.bare verb action).parser.Accountable :=
    accountable_literal _ _
  have hoperands (verb : Verb) {p : Parser Action} (hp : p.Accountable) :
      (Arm.operands verb p).parser.Accountable := hp.keyword _
  have hid := (Operand.tells_bundleId fs).prompt.accountable
  have hdouble : Operand.double.Accountable := accountable_reading _ _
  have hlaunch := ApplicationLaunch.parser_accountable fs
  cases harm using arm_cases with
  | approve => exact hoperands _ ((accountable_atLeast 1 hid).map _)
  | boot => exact hoperands _ (BootConfiguration.parser_accountable.optional.map _)
  | clearKeychain | terminate | uninstall => exact hoperands _ (hid.map _)
  | create => exact hoperands _ ((CreationSpecification.parser_accountable fs).map _)
  | delete | erase | list | listApps | shutdown => exact hbare _ _
  | diagnose => exact hoperands _ (diagnoseParser_accountable fs)
  | install => exact hoperands _ (installParser_accountable fs)
  | launchAgent => exact hoperands _ ((AgentLaunch.parser_accountable fs).map _)
  | launchApplication | relaunch => exact hoperands _ (hlaunch.map _)
  | launchTest => exact hoperands _ ((TestLaunch.parser_accountable fs).map _)
  | listen => exact hoperands _ (ListenInterface.parser_accountable.map _)
  | openUrl => exact hoperands _ ((accountable_reading _ _).map _)
  | record => exact hoperands _ ((prompt_oneSpelled _).accountable.map _)
  | tap => exact hoperands _ ((hdouble.pair hdouble).map _)
  | upload =>
    exact hoperands _ ((accountable_atLeast 1 (Operand.tells_file fs).prompt.accountable).map _)
  | watchdogOverride => exact hoperands _ ((hdouble.pair (accountable_atLeast 1 hid)).map _)

/-- A launch of an agent fails at its binary, and there an application takes a token. -/
theorem launch_yieldsTo :
    (Arm.operands .launch ((AgentLaunch.parser fs).map launchAgent)).parser.YieldsTo
      (Arm.operands .launch ((ApplicationLaunch.parser fs).map launchApplication)).parser := by
  have hbinary : (Operand.binary fs).YieldsTo (Operand.bundleId fs) :=
    (Operand.prompt_binary fs).yieldsTo_of_bounded
      (Operand.tells_bundleId fs).prompt.accountable.bounded
  have hoperands := (hbinary.pair_left LaunchOption.setParser).pair_right
    Operand.arguments_run_ne_failed Operand.accountable_arguments.bounded
  exact (((hoperands.map _ _).map _ _).map _ _).keyword _

theorem yieldsTo_of_verb_ne {a b : Arm} (ha : a.parser.Accountable) (hb : b.parser.Accountable)
    (h : a.verb ≠ b.verb) : a.parser.YieldsTo b.parser := by
  have hexcludes : a.parser.Excludes b.parser := by
    refine (headedBy_arm a).excludes (headedBy_arm b) fun t hta htb => h ?_
    exact Verb.eq_of_word_eq _ _ (hta.symm.trans htb)
  exact hexcludes.yieldsTo ha.bounded hb.bounded

theorem yieldsTo_arms : (arms fs).Pairwise fun a b => a.parser.YieldsTo b.parser := by
  have hverbs : (arms fs).Pairwise fun a b => a.verb ≠ b.verb ∨ a.parser.YieldsTo b.parser := by
    have hlaunch := launch_yieldsTo fs
    simp [arms, Arm.verb, hlaunch]
  exact hverbs.imp_of_mem fun ha hb h => h.elim
    (yieldsTo_of_verb_ne (accountable_of_mem_arms fs ha) (accountable_of_mem_arms fs hb)) id

theorem parser_accountable : (Action.parser fs).Accountable := by
  refine (accountable_oneOf (fun p hp => ?_) ?_).described _
  · obtain ⟨arm, harm, rfl⟩ := List.mem_map.mp hp
    exact accountable_of_mem_arms fs harm
  · exact List.pairwise_map.mpr (yieldsTo_arms fs)

theorem listParser_accountable : (listParser fs).Accountable :=
  accountable_separated 1 (parser_accountable fs) separatorToken

end Action

/-! ## Command lines -/

theorem Command.parser_accountable : (Command.parser fs).Accountable :=
  ((accountable_quadruple (Configuration.parser_accountable fs)
    TargetQuery.parser_accountable.optional TargetFormat.parser_accountable.optional
      (Action.listParser_accountable fs).exhaustive).map _).described _

theorem HelpRequest.accountable_pair :
    (OutputOption.setParser.pair (literal "help" ())).Accountable :=
  (accountable_flagSet (Nat.zero_le 1) _).pair (accountable_literal _ _)

theorem HelpRequest.parser_accountable : HelpRequest.parser.Accountable :=
  (accountable_pair.exhaustive.map _).described _

/-- A request for help is read to its end, so that no command got further. -/
theorem Command.parser_yieldsTo : (Command.parser fs).YieldsTo HelpRequest.parser :=
  ((yieldsTo_exhaustive (Command.parser_accountable fs).bounded
    HelpRequest.accountable_pair.bounded).map_right _).described_right _

theorem Invocation.parser_accountable : (Invocation.parser fs).Accountable :=
  ((Command.parser_yieldsTo fs).map _ _).accountable ((Command.parser_accountable fs).map _)
    (HelpRequest.parser_accountable.map _)

/-- A command line that is rejected at one of its tokens is rejected in the same way if other
tokens follow that one. -/
theorem Invocation.parse_take_append {tokens : List Token} {f : Failure}
    (h : (Invocation.parser fs).parse tokens = .failed f) (hoffset : f.offset < tokens.length)
    (more : List Token) :
    (Invocation.parser fs).parse (tokens.take (f.offset + 1) ++ more) =
      .failed (f.onto (tokens.take (f.offset + 1) ++ more)) := by
  have hfail : (parser fs).exhaustive.run (.ofIndex tokens 0) = .failed f := by
    unfold Parser.parse at h
    exact Outcome.map_eq_failed_iff.mp h
  have hsame : SameUpTo f.offset tokens (tokens.take (f.offset + 1) ++ more) := by
    refine ⟨hoffset, List.take_left' ?_⟩
    rw [List.length_take]
    omega
  have hfail' := (parser_accountable fs).exhaustive.failed hsame hfail (Nat.le_refl _)
  exact Outcome.map_eq_failed_iff.mpr hfail'

/-- What follows a word that is left over does not make up for it. -/
theorem Invocation.parse_take_append_leftover :
    (Invocation.parser FileTree.empty.view).parse ["list", "oops"] =
        .failed ⟨.leftover ["oops"], 1⟩ ∧
      1 < ["list", "oops"].length ∧
        (Invocation.parser FileTree.empty.view).parse (["list", "oops"].take 2 ++ ["--", "erase"]) =
          .failed ⟨.leftover ["oops", "--", "erase"], 1⟩ := by
  have h : (Invocation.parser FileTree.empty.view).parse ["list", "oops"] =
      .failed ⟨.leftover ["oops"], 1⟩ := by decide +kernel
  have hoffset : 1 < ["list", "oops"].length := by decide
  exact ⟨h, hoffset, parse_take_append _ h hoffset ["--", "erase"]⟩

end SimControl
