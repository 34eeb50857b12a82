/-
Requests for help.

A line is a request for help exactly if it is output flags and the word `help`.  A command that
starts with the same flags cannot be meant, since a command has an action, and the word of an
action is neither a flag nor `help`: `Invocation.parse_eq_help_iff`.
-/
import SimControl.Proofs.Committed
import SimControl.Proofs.Flags

namespace SimControl

open SimControl.Parser

variable {fs : FileSystem} {tokens : List Token}

/-! ## Lines that ask for help -/

namespace OutputOption

/-- The flags of the output. -/
def words : List Token := (Enumerated.all : List OutputOption).map flag

theorem nodup_words : words.Nodup := by decide

theorem setParser_section : setParser.Section (· ∈ words) := flagSet_section nodup_words 0

theorem setParser_parse_eq_done_iff {output : EnumSet OutputOption} :
    setParser.parse tokens = .done output ↔
      (∀ t ∈ tokens, t ∈ words) ∧ output = .spelledIn flag tokens := by
  rw [setParser, flagSet_parse_eq_done_iff nodup_words]
  simp [words]

end OutputOption

namespace HelpRequest

/-- A request is read from flags and the word `help` behind them. -/
theorem parse_eq_done_iff {request : HelpRequest} :
    parser.parse tokens = .done request ↔
      ∃ flags, tokens = flags ++ ["help"] ∧ (∀ t ∈ flags, t ∈ OutputOption.words) ∧
        request = ⟨.spelledIn OutputOption.flag flags, true⟩ := by
  rw [Parser.parse_eq_done_iff]
  simp only [parser, described_run, map_run_eq_done_iff, exhaustive_run_eq_done_iff,
    pair_run_eq_done_iff]
  constructor
  · rintro ⟨_, ⟨_, ⟨⟨output, word, houtput, hword, rfl⟩, hend⟩, rfl⟩, _, rfl⟩
    obtain ⟨flags, htokens, hparse⟩ := OutputOption.setParser_section.sound houtput
    obtain ⟨hflags, hvalue⟩ := OutputOption.setParser_parse_eq_done_iff.mp hparse
    obtain ⟨rest, hhelp, rfl⟩ := literal_run_eq_done_iff.mp hword
    have hnil : rest = [] := hend
    rw [hhelp, hnil] at htokens
    exact ⟨flags, htokens, hflags, congrArg (HelpRequest.mk · true) hvalue⟩
  · rintro ⟨flags, rfl, hflags, rfl⟩
    have hparse := OutputOption.setParser_parse_eq_done_iff.mpr ⟨hflags, rfl⟩
    have hhelp : ∀ t ∈ ["help"].head?, t ∉ OutputOption.words := by decide
    obtain ⟨m, hm, hrest, hvalue⟩ := OutputOption.setParser_section.complete hparse hhelp
    have hword : (literal "help" ()).run m.cursor = .done ⟨(), ⟨m.cursor.position + 1, []⟩, none⟩ :=
      literal_run_eq_done_iff.mpr ⟨[], hrest, rfl⟩
    exact ⟨_, ⟨_, ⟨⟨m, _, hm, hword, rfl⟩, rfl⟩, rfl⟩, rfl, congrArg (HelpRequest.mk · true) hvalue⟩

def words : List Token := OutputOption.words ++ ["help"]

theorem mem_words_of_parse {request : HelpRequest} (h : parser.parse tokens = .done request) :
    ∀ t ∈ tokens, t ∈ words := by
  obtain ⟨flags, rfl, hflags, _⟩ := parse_eq_done_iff.mp h
  intro t ht
  rcases List.mem_append.mp ht with ht | ht
  · exact List.mem_append_left _ (hflags t ht)
  · exact List.mem_append_right _ ht

/-- Who asks for help asks for nothing else. -/
theorem not_mem_words : ∀ t ∈ TargetFormat.words ++ Action.words, t ∉ words := by decide

end HelpRequest

/-! ## Lines that are commands -/

theorem Action.listParser_parse_nil_ne (actions : List Action) :
    (listParser fs).parse [] ≠ .done actions := by
  intro h
  obtain ⟨m, hm, _⟩ := Parser.parse_eq_done_iff.mp h
  have hfails : (parser fs).run (.start []) = .failed _ :=
    parser_run_of_no_verb fun _ h => nomatch h
  simp [listParser, separated, hfails] at hm

/-- A command has an action, and its verb is among the tokens. -/
theorem Command.exists_mem_words {command : Command}
    (h : (Command.parser fs).parse tokens = .done command) : ∃ t ∈ tokens, t ∈ Action.words := by
  obtain ⟨s, rfl, hs⟩ := (Command.parse_eq_done_iff fs).mp h
  cases hactions : s.actions with
  | nil =>
    have hnone := hs.actions
    rw [hactions] at hnone
    exact absurd hnone (Action.listParser_parse_nil_ne command.actions)
  | cons t more =>
    have hhead : t ∈ s.actions.head? := by rw [hactions]; rfl
    refine ⟨t, ?_, hs.header.actions t hhead⟩
    simp [Sections.tokens, hactions]

/-- No command ends before the last token, so that a line that is no command does not begin with
one either. -/
theorem Command.run_failed_of_parse_ne
    (h : ∀ command, (Command.parser fs).parse tokens ≠ .done command) :
    ∃ f, (Command.parser fs).run (.start tokens) = .failed f := by
  cases hrun : (Command.parser fs).run (.start tokens) with
  | failed f => exact ⟨f, rfl⟩
  | endless => exact absurd hrun ((Command.parser_steady fs).ends _)
  | done m =>
    obtain ⟨_, _, _, o, _, _, _, ho, rfl⟩ := (Command.run_eq_done_iff fs).mp hrun
    have hend := (exhaustive_run_eq_done_iff.mp ho).2
    exact absurd (Parser.parse_eq_done_iff.mpr ⟨_, hrun, hend, rfl⟩) (h _)

namespace Invocation

theorem parse_eq_help_iff_parse {request : HelpRequest} :
    (Invocation.parser fs).parse tokens = .done (.help request) ↔
      HelpRequest.parser.parse tokens = .done request := by
  constructor
  · intro h
    obtain ⟨m, hm, hend, hvalue⟩ := Parser.parse_eq_done_iff.mp h
    rcases (run_parser_eq_done_iff fs).mp hm with ⟨n, _, rfl⟩ | ⟨_, n, hn, rfl⟩
    · cases hvalue
    · exact Parser.parse_eq_done_iff.mpr ⟨n, hn, hend, help.inj hvalue⟩
  · intro h
    have hcommand (command : Command) : (Command.parser fs).parse tokens ≠ .done command := by
      intro hcommand
      obtain ⟨t, ht, hwords⟩ := Command.exists_mem_words hcommand
      exact HelpRequest.not_mem_words t (List.mem_append_right _ hwords)
        (HelpRequest.mem_words_of_parse h t ht)
    obtain ⟨f, hfails⟩ := Command.run_failed_of_parse_ne hcommand
    obtain ⟨n, hn, hend, rfl⟩ := Parser.parse_eq_done_iff.mp h
    refine Parser.parse_eq_done_iff.mpr ⟨n.map help, ?_, hend, rfl⟩
    exact (run_parser_eq_done_iff fs).mpr
      (.inr ⟨⟨f, map_run_eq_failed_iff.mpr hfails⟩, n, hn, rfl⟩)

/-- A line is a request for help exactly if it is output flags, any of them and in any number, and
the word `help`; what is asked for is what the flags say, and it is the user who asks. -/
theorem parse_eq_help_iff (fs : FileSystem) (tokens : List Token) (request : HelpRequest) :
    (Invocation.parser fs).parse tokens = .done (.help request) ↔
      ∃ flags, tokens = flags ++ ["help"] ∧
        (∀ t ∈ flags, t ∈ ["--debug-logging", "--json", "--pretty"]) ∧
          (∀ option : OutputOption,
            request.output.contains option = true ↔ option.flag ∈ flags) ∧
          request.userInitiated = true := by
  rw [parse_eq_help_iff_parse, HelpRequest.parse_eq_done_iff]
  refine exists_congr fun flags => and_congr_right fun _ => and_congr_right fun _ => ?_
  obtain ⟨output, userInitiated⟩ := request
  rw [HelpRequest.mk.injEq, EnumSet.eq_spelledIn_iff]

end Invocation

end SimControl
