/-
Command lines with their options in another order.

Settings, criteria, and the options of an action that listens or creates are put together to
the same value in every order, if no value is given twice of which the last one would count.
The tokens around them are read as before, and so the command lines are read as the same
command, or are refused both.
-/
import SimControl.Proofs.Commuting
import SimControl.Proofs.HelpLine
import SimControl.Proofs.Reached

namespace SimControl

open SimControl.Parser

variable {fs : FileSystem}

/-! ## Commands -/

namespace Invocation

/-- With a word of a format or an action, only a command can be meant. -/
theorem read_eq_ok_iff {tokens : List Token}
    (hword : ∃ t ∈ tokens, t ∈ TargetFormat.words ++ Action.words) {invocation : Invocation} :
    read fs tokens = .ok invocation ↔
      ∃ command, (Command.parser fs).parse tokens = .done command ∧ run command = invocation := by
  rw [read, Outcome.toExcept_eq_ok_iff]
  constructor
  · intro h
    cases invocation with
    | run command => exact ⟨command, (parse_eq_run_iff_parse fs).mp h, rfl⟩
    | help request =>
      obtain ⟨t, ht, hwords⟩ := hword
      have hmem := HelpRequest.mem_words_of_parse (parse_eq_help_iff_parse.mp h) t ht
      exact absurd hmem (HelpRequest.not_mem_words t hwords)
  · rintro ⟨command, hcommand, rfl⟩
    exact (parse_eq_run_iff_parse fs).mpr hcommand

/-- Two lines that are the same command or none are read as the same, or are refused both. -/
theorem read_eq_of_command {tokens tokens' : List Token}
    (hword : ∃ t ∈ tokens, t ∈ TargetFormat.words ++ Action.words)
    (hword' : ∃ t ∈ tokens', t ∈ TargetFormat.words ++ Action.words)
    (h : ∀ command, (Command.parser fs).parse tokens = .done command ↔
      (Command.parser fs).parse tokens' = .done command) :
    (read fs tokens).toOption = (read fs tokens').toOption := by
  have hread (invocation : Invocation) :
      read fs tokens = .ok invocation ↔ read fs tokens' = .ok invocation := by
    rw [read_eq_ok_iff hword, read_eq_ok_iff hword']
    simp only [h]
  cases hleft : read fs tokens with
  | ok invocation => rw [(hread invocation).mp hleft]
  | error failure =>
    cases hright : read fs tokens' with
    | ok invocation =>
      rw [(hread invocation).mpr hright] at hleft
      cases hleft
    | error failure' => rfl

end Invocation

/-! ## Settings and criteria -/

/-- A configuration and a query in other words make no other command. -/
theorem Command.parse_of_header {configuration configuration' query query' rest : List Token}
    {k : Configuration} {l : Option TargetQuery}
    (hk : (Configuration.parser fs).parse configuration = .done k)
    (hk' : (Configuration.parser fs).parse configuration' = .done k)
    (hl : TargetQuery.parser.optional.parse query = .done l)
    (hl' : TargetQuery.parser.optional.parse query' = .done l)
    (hrest : ∀ t ∈ rest.head?, t ∈ TargetFormat.words ++ Action.words) {command : Command}
    (h : (Command.parser fs).parse (configuration ++ (query ++ rest)) = .done command) :
    (Command.parser fs).parse (configuration' ++ (query' ++ rest)) = .done command := by
  obtain ⟨s, htokens, hs⟩ := (Command.parse_eq_done_iff fs).mp h
  obtain ⟨hconfiguration, hquery, rfl⟩ := Sections.cut hs.header.configuration hk hs.header.query hl
    hs.header.head_mem hrest htokens
  have hsettings := hs.header.configuration
  have hcriteria := hs.header.query
  rw [hconfiguration, hk] at hsettings
  rw [hquery, hl] at hcriteria
  refine (Command.parse_eq_done_iff fs).mpr
    ⟨⟨configuration', query', s.format, s.actions⟩, rfl, ?_, ?_, hs.format, hs.actions⟩
  · rw [← Outcome.done.inj hsettings]
    exact hk'
  · rw [← Outcome.done.inj hcriteria]
    exact TargetQuery.parser_needsToken.optional_parse_eq_done_iff.mp hl'

/-! ## Options of an action -/

namespace Command

/-- A command line depends on an action by what it is read as, and what is left behind it. -/
theorem Reaches.read_eq {before tail tail' : List Token} {verb : Token} {command : Command}
    (h : Reaches fs (before ++ verb :: tail) command (verb :: tail)) (hverb : verb ∈ Action.words)
    {m n : Match Action} (hm : (Action.parser fs).run (.start (verb :: tail)) = .done m)
    (hn : (Action.parser fs).run (.start (verb :: tail')) = .done n) (hvalue : n.value = m.value)
    (hrest : n.cursor.rest = m.cursor.rest) :
    (Invocation.read fs (before ++ verb :: tail)).toOption =
      (Invocation.read fs (before ++ verb :: tail')).toOption := by
  have hword (tail : List Token) :
      ∃ t ∈ before ++ verb :: tail, t ∈ TargetFormat.words ++ Action.words :=
    ⟨verb, by simp, List.mem_append_right _ hverb⟩
  refine Invocation.read_eq_of_command (hword tail) (hword tail') fun result => ?_
  rw [h.parse_eq_done_iff, (h.cons tail').parse_eq_done_iff]
  constructor
  · rintro ⟨more, hmore, rfl⟩
    exact ⟨more, hmore.of_run hm hn hvalue hrest, rfl⟩
  · rintro ⟨more, hmore, rfl⟩
    exact ⟨more, hmore.of_run hn hm hvalue.symm hrest.symm, rfl⟩

end Command

/-- An action is what is read behind its verb. -/
theorem Action.run_operands {α : Type} {verb : Verb} {p : Parser α} {f : α → Action}
    (harm : Arm.operands verb (p.map f) ∈ arms fs) (hverb : verb ≠ .launch) {tail : List Token}
    {m : Match α} (hm : p.run ⟨1, tail⟩ = .done m) :
    ∃ n, (Action.parser fs).run (.start (verb.word :: tail)) = .done n ∧ n.value = f m.value ∧
      n.cursor = m.cursor := by
  have hrun : (keyword verb.word (p.map f)).run ⟨0, verb.word :: tail⟩ = .done (m.map f) := by
    rw [keyword_run_cons]
    exact map_run_eq_done_iff.mpr ⟨m, hm, rfl⟩
  exact ⟨m.map f, (parser_run_of_mem harm hverb rfl).trans hrun, rfl, rfl⟩

namespace Command

/-- What is read behind the verb of an action can be said in other words. -/
theorem Reaches.read_eq_of_operands {α : Type} {verb : Verb} {p : Parser α} {f : α → Action}
    (harm : Arm.operands verb (p.map f) ∈ Action.arms fs) (hverb : verb ≠ .launch)
    {before tail tail' : List Token} {command : Command}
    (h : Reaches fs (before ++ verb.word :: tail) command (verb.word :: tail))
    (hsame : ∃ m m', p.run ⟨1, tail⟩ = .done m ∧ p.run ⟨1, tail'⟩ = .done m' ∧
      m'.value = m.value ∧ m'.cursor.rest = m.cursor.rest) :
    (Invocation.read fs (before ++ verb.word :: tail)).toOption =
      (Invocation.read fs (before ++ verb.word :: tail')).toOption := by
  obtain ⟨m, m', hm, hm', hvalue, hrest⟩ := hsame
  obtain ⟨n, hn, hnvalue, hncursor⟩ := Action.run_operands harm hverb hm
  obtain ⟨n', hn', hnvalue', hncursor'⟩ := Action.run_operands harm hverb hm'
  have hword : verb.word ∈ Action.words := List.mem_map_of_mem (Enumerated.mem_all verb)
  refine h.read_eq hword hn hn' ?_ ?_
  · rw [hnvalue', hnvalue, hvalue]
  · rw [hncursor', hncursor, hrest]

end Command

/-! ## Any order -/

/-- Settings and criteria in another order, before the rest of a command line, and the options of
an action that listens or creates one simulator, give the same invocation, or are refused in both
orders; no set of simulators, bound, port, model, version or directory may be given twice. -/
theorem Invocation.read_perm (fs : FileSystem) :
    (∀ settings settings' criteria criteria' : List (List Token),
      (∀ group ∈ settings, (Configuration.parser fs).IsOption ["--set"] group) →
      AtMostOnce ["--set"] settings → settings.Perm settings' →
      (∀ group ∈ criteria, TargetQuery.parser.IsOption ["--first"] group ∧ group ≠ ["all"]) →
      AtMostOnce ["--first"] criteria → criteria.Perm criteria' →
      ∀ rest : List Token, (∃ t ∈ rest.head?, t ∈ TargetFormat.words ++ Action.words) →
        (read fs (settings.flatten ++ (criteria.flatten ++ rest))).toOption =
          (read fs (settings'.flatten ++ (criteria'.flatten ++ rest))).toOption) ∧
    (∀ sources sources' : List (List Token),
      (∀ group ∈ sources, ListenInterface.parser.IsOption ["--socket", "--http"] group) →
      AtMostOnce ["--socket"] sources → AtMostOnce ["--http"] sources → sources.Perm sources' →
      ∀ (before rest : List Token) (command : Command),
        Command.Reaches fs (before ++ Verb.listen.word :: (sources.flatten ++ rest)) command
          (Verb.listen.word :: (sources.flatten ++ rest)) →
        (read fs (before ++ Verb.listen.word :: (sources.flatten ++ rest))).toOption =
          (read fs (before ++ Verb.listen.word :: (sources'.flatten ++ rest))).toOption) ∧
    ∀ properties properties' : List (List Token),
      (∀ group ∈ properties, (CreationSpecification.parser fs).IsOption ["--aux"] group ∧
        group ≠ ["--all-missing-defaults"]) →
      AtMostOnce TargetQuery.deviceWords properties →
      AtMostOnce TargetQuery.osVersionWords properties → AtMostOnce ["--aux"] properties →
      properties.Perm properties' →
      ∀ (before rest : List Token) (command : Command),
        Command.Reaches fs (before ++ Verb.create.word :: (properties.flatten ++ rest)) command
          (Verb.create.word :: (properties.flatten ++ rest)) →
        (read fs (before ++ Verb.create.word :: (properties.flatten ++ rest))).toOption =
          (read fs (before ++ Verb.create.word :: (properties'.flatten ++ rest))).toOption := by
  refine ⟨?_, ?_, ?_⟩
  · intro settings settings' criteria criteria' hsettings hset hpermSettings hcriteria hfirst
      hpermCriteria rest hrest
    obtain ⟨k, hk, hk'⟩ := Configuration.parse_perm fs hsettings hset hpermSettings
    obtain ⟨l, hl, hl'⟩ := TargetQuery.optional_parse_perm hcriteria hfirst hpermCriteria
    obtain ⟨t, ht, hwords⟩ := hrest
    have hhead : ∀ t ∈ rest.head?, t ∈ TargetFormat.words ++ Action.words := by
      intro t' ht'
      rw [Option.mem_unique ht' ht]
      exact hwords
    have hmem : t ∈ rest := List.mem_of_mem_head? ht
    refine read_eq_of_command ⟨t, by simp [hmem], hwords⟩ ⟨t, by simp [hmem], hwords⟩
      fun command => ⟨Command.parse_of_header hk hk' hl hl' hhead, ?_⟩
    exact Command.parse_of_header hk' hk hl' hl hhead
  · intro sources sources' hsources hsocket hhttp hperm before rest command hreaches
    have harm : Arm.operands .listen (ListenInterface.parser.map Action.listen) ∈
        Action.arms fs := by
      simp [Action.arms]
    refine hreaches.read_eq_of_operands harm (by decide) ?_
    exact ListenInterface.run_perm hsources hsocket hhttp hperm 1 1 rest
  · intro properties properties' hproperties hmodel hos haux hperm before rest command hreaches
    by_cases hsome : properties = []
    · subst hsome
      rw [List.nil_perm.mp hperm]
    have harm : Arm.operands .create ((CreationSpecification.parser fs).map Action.create) ∈
        Action.arms fs := by
      simp [Action.arms]
    refine hreaches.read_eq_of_operands harm (by decide) ?_
    exact CreationSpecification.run_perm fs hsome hproperties hmodel hos haux hperm 1 1 rest

/-- A setting, a criterion, a source and a property that take the place of the next one, in lines
that are commands. -/
theorem Invocation.read_perm_swapped :
    ((read FileTree.empty.view
        ["--json", "--set", ".", "iPhone 5", "--first", "2", "list"]).toOption =
        (read FileTree.empty.view
          ["--set", ".", "--json", "--first", "2", "iPhone 5", "list"]).toOption ∧
      (read FileTree.empty.view
        ["--set", ".", "--json", "--first", "2", "iPhone 5", "list"]).toOption =
        some (.run ⟨{ output := .singleton .json, deviceSet := some "." },
          some { first := some 2, devices := .singleton .iPhone5 }, none, [.list]⟩)) ∧
    ((read FileTree.empty.view
        ["erase", "--", "listen", "--socket", "80", "--stdin", "--", "list"]).toOption =
        (read FileTree.empty.view
          ["erase", "--", "listen", "--stdin", "--socket", "80", "--", "list"]).toOption ∧
      (read FileTree.empty.view
        ["erase", "--", "listen", "--stdin", "--socket", "80", "--", "list"]).toOption =
        some (.run ⟨{}, none, none,
          [.erase, .listen { stdin := true, socket := some 80 }, .list]⟩)) ∧
    (read FileTree.empty.view ["create", "iPhone 5", "--aux", "."]).toOption =
        (read FileTree.empty.view ["create", "--aux", ".", "iPhone 5"]).toOption ∧
      (read FileTree.empty.view ["create", "--aux", ".", "iPhone 5"]).toOption =
        some (.run ⟨{}, none, none,
          [.create (.individual { model := some .iPhone5, auxDirectory := some "." })]⟩) := by
  obtain ⟨hheader, hlisten, hcreate⟩ := read_perm FileTree.empty.view
  -- No section precedes the actions of the second and the third line.
  have hconfiguration : (Configuration.parser FileTree.empty.view).parse [] = .done {} := by
    decide +kernel
  have hquery : TargetQuery.parser.optional.parse [] = .done none := by decide +kernel
  have hformat : TargetFormat.parser.optional.parse [] = .done none := by decide +kernel
  have hnothing {actions : List Action} {tokens : List Token}
      (h : ∀ t ∈ tokens.head?, t ∈ Action.words) :
      Sections.Header FileTree.empty.view ⟨[], [], [], tokens⟩ ⟨{}, none, none, actions⟩ :=
    ⟨hconfiguration, hquery, hformat, h⟩
  refine ⟨⟨?_, by decide +kernel⟩, ⟨?_, by decide +kernel⟩, ?_, by decide +kernel⟩
  · have hjson : (Configuration.parser FileTree.empty.view).IsOption ["--set"] ["--json"] :=
      .flag (a := { output := .singleton .json }) (by decide +kernel)
    have hset : (Configuration.parser FileTree.empty.view).IsOption ["--set"] ["--set", "."] :=
      .pair (a := { deviceSet := some "." }) (by decide +kernel) (by decide)
    have hfirst : TargetQuery.parser.IsOption ["--first"] ["--first", "2"] :=
      .pair (a := { first := some 2 }) (by decide +kernel) (by decide)
    have hmodel : TargetQuery.parser.IsOption ["--first"] ["iPhone 5"] :=
      .flag (a := { devices := .singleton .iPhone5 }) (by decide +kernel)
    exact hheader [["--json"], ["--set", "."]] [["--set", "."], ["--json"]]
      [["iPhone 5"], ["--first", "2"]] [["--first", "2"], ["iPhone 5"]]
      (by simpa using ⟨hjson, hset⟩) (by decide) (.swap ..) (by simpa using ⟨hmodel, hfirst⟩)
      (by decide) (.swap ..) ["list"] ⟨"list", rfl, by decide⟩
  · have hsocket : ListenInterface.parser.IsOption ["--socket", "--http"] ["--socket", "80"] :=
      .pair (a := { socket := some 80 }) (by decide +kernel) (by decide)
    have hstdin : ListenInterface.parser.IsOption ["--socket", "--http"] ["--stdin"] :=
      .flag (a := { stdin := true }) (by decide +kernel)
    have herase : (Action.parser FileTree.empty.view).run (.start ["erase", "--", "listen",
        "--socket", "80", "--stdin", "--", "list"]) = .done ⟨Action.erase, ⟨1, ["--", "listen",
          "--socket", "80", "--stdin", "--", "list"]⟩, none⟩ := by decide +kernel
    exact hlisten [["--socket", "80"], ["--stdin"]] [["--stdin"], ["--socket", "80"]]
      (by simpa using ⟨hsocket, hstdin⟩) (by decide) (by decide) (.swap ..) ["erase", "--"]
      ["--", "list"] ⟨{}, none, none, [.erase]⟩
      ⟨⟨[], [], [], _⟩, rfl, hnothing (by decide), .cons herase rfl (.nil _)⟩
  · have hmodel : (CreationSpecification.parser FileTree.empty.view).IsOption ["--aux"]
        ["iPhone 5"] :=
      .flag (a := .individual { model := some .iPhone5 }) (by decide +kernel)
    have haux : (CreationSpecification.parser FileTree.empty.view).IsOption ["--aux"]
        ["--aux", "."] :=
      .pair (a := .individual { auxDirectory := some "." }) (by decide +kernel) (by decide)
    exact hcreate [["iPhone 5"], ["--aux", "."]] [["--aux", "."], ["iPhone 5"]]
      (by simpa using ⟨hmodel, haux⟩) (by decide) (by decide) (by decide) (.swap ..) [] []
      ⟨{}, none, none, []⟩ ⟨⟨[], [], [], _⟩, rfl, hnothing (by decide), .nil _⟩

end SimControl
