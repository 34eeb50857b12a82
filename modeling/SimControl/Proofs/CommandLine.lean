/-
Command lines, read section by section.

The main statement is `Invocation.parse_eq_run_iff`: a command line is read as a command
exactly if it can be cut into configuration, query, format and actions, each of which is read
on its own, and there is only one way to cut it.
-/
import SimControl.Proofs.Extent
import SimControl.Proofs.Sections

namespace SimControl

open SimControl.Parser

variable (fs : FileSystem)

/-! ## Configuration -/

namespace Configuration

/-- The tokens that begin a setting. -/
def words : List Token :=
  (Enumerated.all : List OutputOption).map OutputOption.flag ++
    (Enumerated.all : List ManagementOption).map ManagementOption.flag ++ ["--set"]

theorem plain_of_mem_settings {p : Parser Configuration} (hp : p ∈ settings fs) : p.Plain := by
  simp only [settings, List.mem_append, List.mem_map, List.mem_singleton] at hp
  rcases hp with (⟨q, hq, rfl⟩ | ⟨q, hq, rfl⟩) | rfl
  · exact (plain_of_mem_flags hq).map _
  · exact (plain_of_mem_flags hq).map _
  · exact ((plain_single _ _).keyword _).map _

theorem headedBy_settings : (oneOf (settings fs)).HeadedBy (· ∈ words) := by
  refine headedBy_oneOf fun p hp => ?_
  simp only [settings, List.mem_append, List.mem_map, List.mem_singleton] at hp
  rcases hp with (⟨q, hq, rfl⟩ | ⟨q, hq, rfl⟩) | rfl
  · exact ((headedBy_of_mem_flags hq).map _).mono fun t ht => by simp [words, ht]
  · exact ((headedBy_of_mem_flags hq).map _).mono fun t ht => by simp [words, ht]
  · exact ((headedBy_keyword _ _).map _).mono fun t ht => by simp [words, ht]

theorem excludes_settings : (settings fs).Pairwise Excludes := by
  have hdisjoint : ∀ t ∈ Enumerated.all.map OutputOption.flag,
      t ∉ Enumerated.all.map ManagementOption.flag := by decide
  have hset : ∀ t ∈ Enumerated.all.map OutputOption.flag ++
      Enumerated.all.map ManagementOption.flag, t ≠ "--set" := by decide
  rw [settings, List.pairwise_append, List.pairwise_append]
  refine ⟨⟨?_, ?_, ?_⟩, List.pairwise_singleton _ _, ?_⟩
  · exact pairwise_excludes_map (pairwise_excludes_flags (by decide)) _
  · exact pairwise_excludes_map (pairwise_excludes_flags (by decide)) _
  · intro p hp q hq
    obtain ⟨output, houtput, rfl⟩ := List.mem_map.mp hp
    obtain ⟨management, hmanagement, rfl⟩ := List.mem_map.mp hq
    exact ((headedBy_of_mem_flags houtput).map _).excludes
      ((headedBy_of_mem_flags hmanagement).map _) hdisjoint
  · intro p hp q hq
    obtain rfl := List.mem_singleton.mp hq
    have hp' : p.HeadedBy (· ∈ Enumerated.all.map OutputOption.flag ++
        Enumerated.all.map ManagementOption.flag) := by
      rcases List.mem_append.mp hp with hp | hp
      · obtain ⟨output, houtput, rfl⟩ := List.mem_map.mp hp
        exact ((headedBy_of_mem_flags houtput).map _).mono fun _ => List.mem_append_left _
      · obtain ⟨management, hmanagement, rfl⟩ := List.mem_map.mp hp
        exact ((headedBy_of_mem_flags hmanagement).map _).mono fun _ => List.mem_append_right _
    exact hp'.excludes ((headedBy_keyword _ _).map _) hset

theorem parser_section : (parser fs).Section (· ∈ words) := by
  have hplain : (oneOf (settings fs)).Plain :=
    plain_oneOf (fun _ => plain_of_mem_settings fs) (excludes_settings fs)
  have hsteady : (oneOf (settings fs)).Steady := steady_oneOf fun _ => steady_of_mem_settings fs
  exact (collects_gather 0 hplain).section hplain hsteady (headedBy_settings fs)

end Configuration

/-! ## Query -/

namespace TargetQuery

def stateWords : List Token := (Enumerated.all : List SimulatorState).map ("--state=" ++ ·.name)

def typeWords : List Token := (Enumerated.all : List TargetType).map TargetType.flag

def osVersionWords : List Token := (Enumerated.all : List OsVersion).map OsVersion.name

def deviceWords : List Token := (Enumerated.all : List DeviceModel).map DeviceModel.name

/-- The tokens that begin a query, apart from identifiers. -/
def words : List Token :=
  ["all", "--first"] ++ stateWords ++ typeWords ++ osVersionWords ++ deviceWords

/-- Whether a query can begin with the token. -/
def Starts (t : Token) : Prop := t ∈ words ∨ (Udid.ofText? t).isSome

/-- Where the criterion that the token can begin stands among the criteria. -/
def criterionIndex (t : Token) : Nat :=
  if (Udid.ofText? t).isSome then 1
  else if t = "--first" then 0
  else if t ∈ stateWords then 2
  else if t ∈ typeWords then 3
  else if t ∈ osVersionWords then 4
  else 5

theorem headedBy_firstParser : firstParser.HeadedBy (· = "--first") := headedBy_keyword _ _

theorem headedBy_udid : Udid.parser.HeadedBy fun t => (Udid.ofText? t).isSome :=
  headedBy_reading _ _

theorem headedBy_stateParser : stateParser.HeadedBy (· ∈ stateWords) := headedBy_oneSpelled

theorem headedBy_typeParser : typeParser.HeadedBy (· ∈ typeWords) :=
  headedBy_oneOf fun _ => headedBy_of_mem_flags

theorem headedBy_osVersionParser : osVersionParser.HeadedBy (· ∈ osVersionWords) :=
  headedBy_named _ _

theorem headedBy_deviceParser : deviceParser.HeadedBy (· ∈ deviceWords) := headedBy_named _ _

instance : DecidablePred Starts := fun _ => inferInstanceAs (Decidable (_ ∨ _))

theorem excludes_criteria : criteria.Pairwise Excludes := by
  have hfirst : ∀ t, t = "--first" → criterionIndex t = 0 := by
    rintro _ rfl
    decide
  have hudid : ∀ t, (Udid.ofText? t).isSome → criterionIndex t = 1 := fun t h => if_pos h
  have hstate : ∀ t ∈ stateWords, criterionIndex t = 2 := by decide
  have htype : ∀ t ∈ typeWords, criterionIndex t = 3 := by decide
  have hos : ∀ t ∈ osVersionWords, criterionIndex t = 4 := by decide
  have hdevice : ∀ t ∈ deviceWords, criterionIndex t = 5 := by decide +kernel
  refine pairwise_excludes_of_index criterionIndex fun i hi => ?_
  match i, hi with
  | 0, _ => exact (headedBy_firstParser.mono hfirst).map _
  | 1, _ => exact (headedBy_udid.mono hudid).map _
  | 2, _ => exact (headedBy_stateParser.mono hstate).map _
  | 3, _ => exact (headedBy_typeParser.mono htype).map _
  | 4, _ => exact (headedBy_osVersionParser.mono hos).map _
  | 5, _ => exact (headedBy_deviceParser.mono hdevice).map _

theorem plain_of_mem_criteria {p : Parser TargetQuery} (hp : p ∈ criteria) : p.Plain := by
  cases hp using criterion_cases with
  | first => exact (((plain_single _ _).refine _).keyword _).map _
  | udid | osVersion | device => exact (plain_single _ _).map _
  | state => exact (plain_oneSpelled (by decide)).map _
  | type =>
    exact (plain_oneOf (fun _ => plain_of_mem_flags) (pairwise_excludes_flags (by decide))).map _

theorem headedBy_criteria : (oneOf criteria).HeadedBy Starts := by
  refine headedBy_oneOf fun p hp => ?_
  cases hp using criterion_cases with
  | first => exact (headedBy_firstParser.mono fun t h => by simp [Starts, words, h]).map _
  | udid => exact (headedBy_udid.mono fun t h => .inr h).map _
  | state => exact (headedBy_stateParser.mono fun t h => by simp [Starts, words, h]).map _
  | type => exact (headedBy_typeParser.mono fun t h => by simp [Starts, words, h]).map _
  | osVersion => exact (headedBy_osVersionParser.mono fun t h => by simp [Starts, words, h]).map _
  | device => exact (headedBy_deviceParser.mono fun t h => by simp [Starts, words, h]).map _

theorem plain_criteria : (oneOf criteria).Plain :=
  plain_oneOf (fun _ => plain_of_mem_criteria) excludes_criteria

theorem steady_criteria : (oneOf criteria).Steady := steady_oneOf fun _ => steady_of_mem_criteria

theorem needsToken_gather : (gather 1 criteria).NeedsToken :=
  (collects_gather 1 plain_criteria).needsToken (steady_gather 1 fun _ => steady_of_mem_criteria)

theorem parser_needsToken : parser.NeedsToken := by
  refine (needsToken_oneOf fun p hp => ?_).described _
  simp only [List.mem_cons, List.not_mem_nil, or_false] at hp
  rcases hp with rfl | rfl
  · exact needsToken_single _ _
  · exact needsToken_gather

theorem parser_section : parser.Section Starts := by
  have hgather := (collects_gather 1 plain_criteria).section plain_criteria steady_criteria
    headedBy_criteria
  refine ((hgather.oneOf_literal needsToken_gather "all" all).mono fun t ht => ?_).described _
  rcases ht with rfl | ht
  · exact .inl (by decide)
  · exact ht

theorem section_optional : parser.optional.Section Starts :=
  parser_section.optional parser_needsToken parser_steady

end TargetQuery

/-! ## Format -/

namespace TargetFormat

/-- The tokens that begin a format. -/
def words : List Token := (Enumerated.all : List FormatField).map FormatField.flag

theorem plain_fields : (oneOf (literals FormatField.flag)).Plain := plain_oneSpelled (by decide)

theorem parser_collects :
    parser.Collects (oneOf (literals FormatField.flag)) 1 TargetFormat.mk :=
  ((collects_atLeast 1 plain_fields).map TargetFormat.mk).described _

theorem parser_needsToken : parser.NeedsToken := parser_collects.needsToken parser_steady

theorem parser_section : parser.Section (· ∈ words) :=
  parser_collects.section plain_fields (steady_oneSpelled _) headedBy_oneSpelled

theorem section_optional : parser.optional.Section (· ∈ words) :=
  parser_section.optional parser_needsToken parser_steady

end TargetFormat

/-! ## Actions -/

theorem Verb.eq_of_word_eq : ∀ v w : Verb, v.word = w.word → v = w := by decide +kernel

namespace Action

/-- The tokens that begin an action. -/
def words : List Token := (Enumerated.all : List Verb).map Verb.word

theorem headedBy_arm (arm : Arm) : arm.parser.HeadedBy (· = arm.verb.word) := by
  cases arm with
  | bare verb action => exact headedBy_literal _ _
  | operands verb p => exact headedBy_keyword _ _

theorem parser_headedBy : (Action.parser fs).HeadedBy (· ∈ words) := by
  refine (headedBy_oneOf fun p hp => ?_).described _
  obtain ⟨arm, _, rfl⟩ := List.mem_map.mp hp
  refine (headedBy_arm arm).mono ?_
  rintro _ rfl
  exact List.mem_map_of_mem (Enumerated.mem_all arm.verb)

/-- Nothing but a verb begins a list of actions. -/
theorem mem_words_of_parse {tokens : List Token} {actions : List Action}
    (h : (listParser fs).parse tokens = .done actions) : ∀ t ∈ tokens.head?, t ∈ words := by
  intro t ht
  by_contra hwords
  obtain ⟨m, hm, _⟩ := Parser.parse_eq_done_iff.mp h
  obtain ⟨problem, hfails⟩ := parser_headedBy fs t hwords (.start tokens) ht
  simp [listParser, separated, hfails] at hm

end Action

/-! ## Commands -/

/-- A command line, cut into four. -/
structure Sections where
  configuration : List Token
  query : List Token
  format : List Token
  actions : List Token

namespace Sections

def tokens (s : Sections) : List Token :=
  s.configuration ++ (s.query ++ (s.format ++ s.actions))

/-- Each section is read on its own; query and format may be missing. -/
structure Spell (s : Sections) (command : Command) : Prop where
  configuration : (Configuration.parser fs).parse s.configuration = .done command.configuration
  query : s.query = [] ∧ command.query = none ∨
    ∃ query, TargetQuery.parser.parse s.query = .done query ∧ command.query = some query
  format : s.format = [] ∧ command.format = none ∨
    ∃ format, TargetFormat.parser.parse s.format = .done format ∧ command.format = some format
  actions : (Action.listParser fs).parse s.actions = .done command.actions

/-! No token begins two sections. -/

theorem configuration_disjoint : ∀ t ∈ Configuration.words,
    ¬ TargetQuery.Starts t ∧ t ∉ TargetFormat.words ∧ t ∉ Action.words := by decide +kernel

theorem not_starts : ∀ t ∈ TargetFormat.words ++ Action.words, ¬ TargetQuery.Starts t := by
  decide +kernel

theorem format_disjoint : ∀ t ∈ TargetFormat.words, t ∉ Action.words := by decide +kernel

theorem mem_head?_append {xs ys : List Token} {t : Token} (h : t ∈ (xs ++ ys).head?) :
    t ∈ xs.head? ∨ t ∈ ys.head? := by
  cases xs with
  | nil => exact .inr h
  | cons x xs => exact .inl h

/-! The sections in front of the others. -/

section Cut

variable {fs} {configuration configuration' query query' rest rest' : List Token}
  {k k' : Configuration} {l l' : Option TargetQuery}

theorem not_mem_configuration_words (hquery : TargetQuery.parser.optional.parse query = .done l)
    (hrest : ∀ t ∈ rest.head?, t ∈ TargetFormat.words ++ Action.words) :
    ∀ t ∈ (query ++ rest).head?, t ∉ Configuration.words := by
  intro t ht hwords
  obtain ⟨hnotQuery, hnotFormat, hnotAction⟩ := configuration_disjoint t hwords
  rcases mem_head?_append ht with ht | ht
  · exact hnotQuery (TargetQuery.section_optional.head hquery t ht)
  · exact (List.mem_append.mp (hrest t ht)).elim hnotFormat hnotAction

/-- There is one way to cut off configuration and query. -/
theorem cut (hk : (Configuration.parser fs).parse configuration = .done k)
    (hk' : (Configuration.parser fs).parse configuration' = .done k')
    (hl : TargetQuery.parser.optional.parse query = .done l)
    (hl' : TargetQuery.parser.optional.parse query' = .done l')
    (hrest : ∀ t ∈ rest.head?, t ∈ TargetFormat.words ++ Action.words)
    (hrest' : ∀ t ∈ rest'.head?, t ∈ TargetFormat.words ++ Action.words)
    (htokens : configuration ++ (query ++ rest) = configuration' ++ (query' ++ rest')) :
    configuration = configuration' ∧ query = query' ∧ rest = rest' := by
  obtain ⟨hconfiguration, hmore⟩ := (Configuration.parser_section fs).cut hk hk'
    (not_mem_configuration_words hl hrest) (not_mem_configuration_words hl' hrest') htokens
  obtain ⟨hquery, hrests⟩ := TargetQuery.section_optional.cut hl hl'
    (fun t ht => not_starts t (hrest t ht)) (fun t ht => not_starts t (hrest' t ht)) hmore
  exact ⟨hconfiguration, hquery, hrests⟩

end Cut

/-- The sections before the actions, if what follows them begins with a verb. -/
structure Header (s : Sections) (command : Command) : Prop where
  configuration : (Configuration.parser fs).parse s.configuration = .done command.configuration
  query : TargetQuery.parser.optional.parse s.query = .done command.query
  format : TargetFormat.parser.optional.parse s.format = .done command.format
  actions : ∀ t ∈ s.actions.head?, t ∈ Action.words

namespace Header

variable {fs} {s : Sections} {command : Command}

theorem head_mem (h : s.Header fs command) :
    ∀ t ∈ (s.format ++ s.actions).head?, t ∈ TargetFormat.words ++ Action.words := by
  intro t ht
  rcases mem_head?_append ht with ht | ht
  · exact List.mem_append_left _ (TargetFormat.section_optional.head h.format t ht)
  · exact List.mem_append_right _ (h.actions t ht)

theorem not_mem_format_words (h : s.Header fs command) :
    ∀ t ∈ s.actions.head?, t ∉ TargetFormat.words :=
  fun t ht hwords => format_disjoint t hwords (h.actions t ht)

theorem configuration_run (h : s.Header fs command) :
    ∃ m, (Configuration.parser fs).run (.start s.tokens) = .done m ∧
      m.cursor.rest = s.query ++ (s.format ++ s.actions) ∧ m.value = command.configuration :=
  (Configuration.parser_section fs).complete h.configuration
    (not_mem_configuration_words h.query h.head_mem)

theorem query_run (h : s.Header fs command) (position : Nat) :
    ∃ m, TargetQuery.parser.optional.run ⟨position, s.query ++ (s.format ++ s.actions)⟩ = .done m ∧
      m.cursor.rest = s.format ++ s.actions ∧ m.value = command.query :=
  TargetQuery.section_optional.complete h.query fun t ht => not_starts t (h.head_mem t ht)

theorem format_run (h : s.Header fs command) (position : Nat) :
    ∃ m, TargetFormat.parser.optional.run ⟨position, s.format ++ s.actions⟩ = .done m ∧
      m.cursor.rest = s.actions ∧ m.value = command.format :=
  TargetFormat.section_optional.complete h.format h.not_mem_format_words

/-- There is one way to cut off a header. -/
theorem unique {s' : Sections} {command' : Command} (h : s.Header fs command)
    (h' : s'.Header fs command') (htokens : s.tokens = s'.tokens) : s = s' := by
  obtain ⟨hconfiguration, hquery, hmore⟩ := cut h.configuration h'.configuration h.query h'.query
    h.head_mem h'.head_mem htokens
  obtain ⟨hformat, hactions⟩ := TargetFormat.section_optional.cut h.format h'.format
    h.not_mem_format_words h'.not_mem_format_words hmore
  obtain ⟨configuration, query, format, actions⟩ := s
  obtain ⟨configuration', query', format', actions'⟩ := s'
  obtain rfl : configuration = configuration' := hconfiguration
  obtain rfl : query = query' := hquery
  obtain rfl : format = format' := hformat
  obtain rfl : actions = actions' := hactions
  rfl

/-- A header says all of a command but its actions. -/
theorem eq {command' : Command} (h : s.Header fs command) (h' : s.Header fs command') :
    command' = { command with actions := command'.actions } := by
  have hconfiguration := Outcome.done.inj (h'.configuration.symm.trans h.configuration)
  have hquery := Outcome.done.inj (h'.query.symm.trans h.query)
  have hformat := Outcome.done.inj (h'.format.symm.trans h.format)
  rw [← hconfiguration, ← hquery, ← hformat]

theorem spell (h : s.Header fs command) {actions : List Action}
    (hactions : (Action.listParser fs).parse s.actions = .done actions) :
    s.Spell fs { command with actions := actions } where
  configuration := h.configuration
  query := TargetQuery.parser_needsToken.optional_parse_eq_done_iff.mp h.query
  format := TargetFormat.parser_needsToken.optional_parse_eq_done_iff.mp h.format
  actions := hactions

end Header

namespace Spell

variable {fs} {s : Sections} {command : Command}

theorem header (h : s.Spell fs command) : s.Header fs command where
  configuration := h.configuration
  query := TargetQuery.parser_needsToken.optional_parse_eq_done_iff.mpr h.query
  format := TargetFormat.parser_needsToken.optional_parse_eq_done_iff.mpr h.format
  actions := Action.mem_words_of_parse fs h.actions

theorem actions_run (h : s.Spell fs command) (position : Nat) :
    ∃ m, (Action.listParser fs).exhaustive.run ⟨position, s.actions⟩ = .done m ∧
      m.cursor.rest = [] ∧ m.value = command.actions := by
  obtain ⟨m, hm, hend, hvalue⟩ :=
    ((Action.composed_listParser fs).parse_eq_done_iff_run position).mp h.actions
  exact ⟨m, exhaustive_run_eq_done_iff.mpr ⟨hm, hend⟩, hend, hvalue⟩

end Spell

end Sections

theorem Command.run_eq_done_iff {c : Cursor} {m : Match Command} :
    (Command.parser fs).run c = .done m ↔
      ∃ k l n o, (Configuration.parser fs).run c = .done k ∧
        TargetQuery.parser.optional.run k.cursor = .done l ∧
          TargetFormat.parser.optional.run l.cursor = .done n ∧
            (Action.listParser fs).exhaustive.run n.cursor = .done o ∧
              ⟨⟨k.value, l.value, n.value, o.value⟩, o.cursor,
                Failure.deepest (Failure.deepest (Failure.deepest k.recovered l.recovered)
                  n.recovered) o.recovered⟩ = m := by
  simp only [Command.parser, described_run, map_run_eq_done_iff, quadruple_run_eq_done_iff]
  constructor
  · rintro ⟨_, ⟨k, l, n, o, hk, hl, hn, ho, rfl⟩, rfl⟩
    exact ⟨k, l, n, o, hk, hl, hn, ho, rfl⟩
  · rintro ⟨k, l, n, o, hk, hl, hn, ho, rfl⟩
    exact ⟨_, ⟨k, l, n, o, hk, hl, hn, ho, rfl⟩, rfl⟩

theorem Command.parse_eq_done_iff {tokens : List Token} {command : Command} :
    (Command.parser fs).parse tokens = .done command ↔
      ∃ s : Sections, s.tokens = tokens ∧ s.Spell fs command := by
  rw [Parser.parse_eq_done_iff]
  constructor
  · rintro ⟨m, hm, _, rfl⟩
    obtain ⟨k, l, n, o, hk, hl, hn, ho, rfl⟩ := (Command.run_eq_done_iff fs).mp hm
    obtain ⟨ho, hend⟩ := exhaustive_run_eq_done_iff.mp ho
    obtain ⟨configuration, hconfiguration, hparse⟩ := (Configuration.parser_section fs).sound hk
    obtain ⟨query, hquery, hparse'⟩ := TargetQuery.section_optional.sound hl
    obtain ⟨format, hformat, hparse''⟩ := TargetFormat.section_optional.sound hn
    refine ⟨⟨configuration, query, format, n.cursor.rest⟩, ?_, hparse, ?_, ?_, ?_⟩
    · have htokens : tokens = configuration ++ k.cursor.rest := hconfiguration
      rw [htokens, hquery, hformat]
      rfl
    · exact TargetQuery.parser_needsToken.optional_parse_eq_done_iff.mp hparse'
    · exact TargetFormat.parser_needsToken.optional_parse_eq_done_iff.mp hparse''
    · exact ((Action.composed_listParser fs).parse_eq_done_iff_run n.cursor.position).mpr
        ⟨o, ho, hend, rfl⟩
  · rintro ⟨s, rfl, hs⟩
    obtain ⟨k, hk, hrest, hconfiguration⟩ := hs.header.configuration_run
    obtain ⟨l, hl, hrest', hquery⟩ := hs.header.query_run k.cursor.position
    obtain ⟨n, hn, hrest'', hformat⟩ := hs.header.format_run l.cursor.position
    obtain ⟨o, ho, hend, hactions⟩ := hs.actions_run n.cursor.position
    rw [← Cursor.eq_of_rest hrest] at hl
    rw [← Cursor.eq_of_rest hrest'] at hn
    rw [← Cursor.eq_of_rest hrest''] at ho
    refine ⟨_, (Command.run_eq_done_iff fs).mpr ⟨k, l, n, o, hk, hl, hn, ho, rfl⟩, hend, ?_⟩
    show (⟨k.value, l.value, n.value, o.value⟩ : Command) = command
    rw [hconfiguration, hquery, hformat, hactions]

/-! ## Command lines -/

namespace Invocation

theorem run_parser_eq_done_iff {c : Cursor} {m : Match Invocation} :
    (Invocation.parser fs).run c = .done m ↔
      (∃ n, (Command.parser fs).run c = .done n ∧ n.map run = m) ∨
        (∃ f, ((Command.parser fs).map run).run c = .failed f) ∧
          ∃ n, HelpRequest.parser.run c = .done n ∧ n.map help = m := by
  rw [Invocation.parser, oneOf_two_run_eq_done_iff, map_run_eq_done_iff, map_run_eq_done_iff]

/-- Whatever is read is read up to the last token. -/
theorem rest_eq_nil {c : Cursor} {m : Match Invocation}
    (h : (Invocation.parser fs).run c = .done m) : m.cursor.rest = [] := by
  rcases (run_parser_eq_done_iff fs).mp h with ⟨n, hn, rfl⟩ | ⟨_, n, hn, rfl⟩
  · obtain ⟨k, l, q, o, _, _, _, ho, rfl⟩ := (Command.run_eq_done_iff fs).mp hn
    exact (exhaustive_run_eq_done_iff.mp ho).2
  · simp only [HelpRequest.parser, described_run, map_run_eq_done_iff,
      exhaustive_run_eq_done_iff] at hn
    obtain ⟨o, ⟨_, hend⟩, rfl⟩ := hn
    exact hend

theorem parse_eq_run_iff_parse {tokens : List Token} {command : Command} :
    (Invocation.parser fs).parse tokens = .done (.run command) ↔
      (Command.parser fs).parse tokens = .done command := by
  simp only [Parser.parse_eq_done_iff, run_parser_eq_done_iff]
  constructor
  · rintro ⟨m, ⟨n, hn, rfl⟩ | ⟨_, n, _, rfl⟩, hend, hvalue⟩
    · exact ⟨n, hn, hend, run.inj hvalue⟩
    · cases hvalue
  · rintro ⟨n, hn, hend, rfl⟩
    exact ⟨n.map run, .inl ⟨n, hn, rfl⟩, hend, rfl⟩

/-- A command line is a command exactly if it can be cut into sections that spell the command,
there is one way to cut it, and no match ends before the last token. -/
theorem parse_eq_run_iff (tokens : List Token) :
    (∀ command : Command, (Invocation.parser fs).parse tokens = .done (.run command) ↔
      ∃ s : Sections, s.tokens = tokens ∧ s.Spell fs command) ∧
    (∀ (s s' : Sections) (command command' : Command), s.tokens = tokens ∧ s.Spell fs command →
      s'.tokens = tokens ∧ s'.Spell fs command' → s = s') ∧
    ∀ m : Match Invocation, (Invocation.parser fs).run (.start tokens) = .done m →
      m.cursor = ⟨tokens.length, []⟩ := by
  refine ⟨fun command => ?_, ?_, fun m hm => ?_⟩
  · rw [parse_eq_run_iff_parse, Command.parse_eq_done_iff]
  · rintro s s' command command' ⟨rfl, hs⟩ ⟨htokens, hs'⟩
    exact hs.header.unique hs'.header htokens.symm
  · have hleads := ((parser_composed fs).bounded.done hm).leads
    have hend := rest_eq_nil fs hm
    have hlength := hleads.sourceLength_eq
    rw [Cursor.sourceLength_start, Cursor.sourceLength, hend, List.length_nil] at hlength
    rw [Cursor.eq_of_rest hend]
    exact congrArg (Cursor.mk · []) hlength

end Invocation

end SimControl
