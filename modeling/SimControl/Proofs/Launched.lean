/-
Launches, token by token.

A launch is options, what to launch, and arguments up to the separator.  An agent and an
application are read alike but for what is launched, so that the choice between them is the choice
between two readings of one token, and a launch that fails is refused at this token.
-/
import SimControl.Proofs.Flags
import SimControl.Proofs.Nearby

namespace SimControl
namespace Parser

variable {α β : Type}

/-! ## Choices between two -/

theorem oneOf_two_run_of_failed {p q : Parser α} {c : Cursor} {f g : Failure}
    (hp : p.run c = .failed f) (hq : q.run c = .failed g) :
    (oneOf [p, q]).run c = .failed (f.furthest g) := by
  rw [oneOf_two_run, hp, hq, Outcome.failed_orElse_failed]

/-- The word that two branches have in common decides nothing between them. -/
theorem oneOf_two_keyword_run (text : Token) (p q : Parser α) (position : Nat)
    (rest : List Token) :
    (oneOf [keyword text p, keyword text q]).run ⟨position, text :: rest⟩ =
      (oneOf [p, q]).run ⟨position + 1, rest⟩ := by
  rw [oneOf_two_run, oneOf_two_run, keyword_run_cons, keyword_run_cons]

/-! ## Flags in front of other tokens -/

/-- Flags are taken up to the first token that is none of them. -/
theorem flagSet_run [Enumerated α] [DecidableEq α] {text : α → Token}
    (htext : (Enumerated.all.map text).Nodup) {minimum : Nat} {flags rest : List Token}
    (hmany : minimum ≤ flags.length) (hflags : ∀ t ∈ flags, t ∈ Enumerated.all.map text)
    (hrest : ∀ t ∈ rest.head?, t ∉ Enumerated.all.map text) (position : Nat) :
    ∃ recovered, (flagSet minimum text).run ⟨position, flags ++ rest⟩ =
        .done ⟨.spelledIn text flags, ⟨position + flags.length, rest⟩, recovered⟩ ∧
      ∀ f ∈ recovered, f.offset ≤ position + flags.length := by
  have hparse := (flagSet_parse_eq_done_iff htext).mpr ⟨hmany, hflags, rfl⟩
  obtain ⟨m, hm, hend, hvalue⟩ : ∃ m, (flagSet minimum text).run ⟨position, flags ++ rest⟩ =
      .done m ∧ m.cursor.rest = rest ∧ m.value = .spelledIn text flags :=
    (flagSet_section htext minimum).complete hparse hrest
  obtain ⟨passed, hpassed, hposition⟩ := ((Composed.flagSet minimum text).bounded.done hm).leads
  rw [hend] at hpassed
  rw [← List.append_cancel_right hpassed] at hposition
  have hcursor : m.cursor = ⟨position + flags.length, rest⟩ := by
    rw [Cursor.eq_of_rest hend, hposition]
  have hnear := offset_le_of_flagSet hm
  obtain ⟨value, cursor, recovered⟩ := m
  obtain rfl : cursor = _ := hcursor
  obtain rfl : value = _ := hvalue
  exact ⟨recovered, hm, hnear⟩

end Parser

open SimControl.Parser

/-! ## Arguments -/

namespace Operand

theorem upToFrom_separator (values : List String) (position : Nat) (rest : List Token) :
    upToFrom separator any ⟨values, ⟨position, rest⟩, none⟩ =
      .done ⟨values ++ rest.takeWhile (· ≠ separatorToken),
        ⟨position + (rest.takeWhile (· ≠ separatorToken)).length,
          rest.dropWhile (· ≠ separatorToken)⟩, none⟩ := by
  induction rest generalizing values position with
  | nil =>
    rw [upToFrom, if_pos rfl, List.takeWhile_nil, List.append_nil]
    rfl
  | cons t rest ih =>
    rw [upToFrom, if_neg (List.cons_ne_nil t rest)]
    by_cases ht : t = separatorToken
    · subst ht
      have hstop : separator.run ⟨position, separatorToken :: rest⟩ =
          .done ⟨(), ⟨position + 1, rest⟩, none⟩ := literal_run_eq_done_iff.mpr ⟨rest, rfl, rfl⟩
      simp only [hstop]
      simp
    · have hgo : separator.run ⟨position, t :: rest⟩ = .failed _ :=
        literal_run_of_peek_ne () fun h => ht (Option.some.inj h)
      have htake : any.run ⟨position, t :: rest⟩ = .done ⟨t, ⟨position + 1, rest⟩, none⟩ := rfl
      have hless : rest.length < (t :: rest).length := Nat.lt_succ_self _
      simp only [hgo, htake, if_pos hless]
      have hmore : (⟨values, ⟨position, t :: rest⟩, none⟩ : Match (List String)).push
          ⟨t, ⟨position + 1, rest⟩, none⟩ = ⟨values ++ [t], ⟨position + 1, rest⟩, none⟩ := rfl
      rw [hmore, ih]
      simp [ht, Nat.add_assoc, Nat.add_comm 1]

/-- Arguments are all the tokens before the next separator. -/
theorem arguments_run (position : Nat) (rest : List Token) :
    arguments.run ⟨position, rest⟩ =
      .done ⟨rest.takeWhile (· ≠ separatorToken),
        ⟨position + (rest.takeWhile (· ≠ separatorToken)).length,
          rest.dropWhile (· ≠ separatorToken)⟩, none⟩ := upToFrom_separator [] position rest

/-! ## What to launch -/

variable {fs : FileSystem} {t : Token}

theorem binary_run_of_isFile (h : fs.isFile t = true) (position : Nat) (rest : List Token) :
    (binary fs).run ⟨position, t :: rest⟩ = .done ⟨t, ⟨position + 1, rest⟩, none⟩ := by
  have hkind : fs.kind? t = some .file := eq_of_beq h
  have hpresent : fs.isPresent t = true := by rw [FileSystem.isPresent, hkind]; rfl
  have hread : existing fs fs.isFile .notAFile t = .ok t := by
    rw [existing, if_pos hpresent, if_pos h]
  simp only [binary, file, described_run, single, hread]

theorem binary_run_of_not_isFile (h : ¬ fs.isFile t) (position : Nat) (rest : List Token) :
    ∃ problem, (binary fs).run ⟨position, t :: rest⟩ = .failed ⟨problem, position⟩ := by
  obtain ⟨problem, hread⟩ : ∃ problem, existing fs fs.isFile .notAFile t = .error problem :=
    existing_error .notAFile h
  exact ⟨problem, by simp only [binary, file, described_run, single, hread]⟩

end Operand

/-! ## Launches -/

namespace LaunchOption

/-- The flags of a launch. -/
def words : List Token := (Enumerated.all : List LaunchOption).map flag

theorem nodup_words : words.Nodup := by decide

section Triple

variable {α : Type} {p : Parser α} {options rest : List Token} {position : Nat}

theorem triple_run_of_done (hoptions : ∀ t ∈ options, t ∈ words)
    (hrest : ∀ t ∈ rest.head?, t ∉ words) {target : α} {more : List Token}
    (hp : p.run ⟨position + options.length, rest⟩ =
      .done ⟨target, ⟨position + options.length + 1, more⟩, none⟩) :
    ∃ recovered, (triple setParser p Operand.arguments).run ⟨position, options ++ rest⟩ =
      .done ⟨(.spelledIn flag options, target, more.takeWhile (· ≠ separatorToken)),
        ⟨position + options.length + 1 + (more.takeWhile (· ≠ separatorToken)).length,
          more.dropWhile (· ≠ separatorToken)⟩, recovered⟩ := by
  obtain ⟨recovered, hset, _⟩ :=
    flagSet_run nodup_words (Nat.zero_le options.length) hoptions hrest position
  have hpair := pair_run_eq_done_iff.mpr ⟨_, _, hset, hp, rfl⟩
  have harguments := Operand.arguments_run (position + options.length + 1) more
  have htriple := pair_run_eq_done_iff.mpr ⟨_, _, hpair, harguments, rfl⟩
  exact ⟨_, map_run_eq_done_iff.mpr ⟨_, htriple, rfl⟩⟩

theorem triple_run_of_failed (hoptions : ∀ t ∈ options, t ∈ words)
    (hrest : ∀ t ∈ rest.head?, t ∉ words) {problem : Problem}
    (hp : p.run ⟨position + options.length, rest⟩ =
      .failed ⟨problem, position + options.length⟩) :
    (triple setParser p Operand.arguments).run ⟨position, options ++ rest⟩ =
      .failed ⟨problem, position + options.length⟩ := by
  obtain ⟨recovered, hset, hnear⟩ :=
    flagSet_run nodup_words (Nat.zero_le options.length) hoptions hrest position
  have hkeep := Failure.orRecovered_eq_self (f := ⟨problem, position + options.length⟩) hnear
  have hpair := pair_run_eq_failed_iff.mpr (.inr ⟨_, _, hset, hp, hkeep⟩)
  exact map_run_eq_failed_iff.mpr (pair_run_eq_failed_iff.mpr (.inl hpair))

end Triple

end LaunchOption

/-! A launch is read if what is launched is, and is refused where this is. -/

section Kinds

variable {fs : FileSystem} {options more : List Token} {t : Token} {position : Nat}
  (hoptions : ∀ t ∈ options, t ∈ LaunchOption.words)
  (hhead : ∀ u ∈ (t :: more).head?, u ∉ LaunchOption.words)

include hoptions hhead

theorem AgentLaunch.parser_run_of_isFile (h : fs.isFile t = true) :
    ∃ recovered, (parser fs).run ⟨position, options ++ t :: more⟩ =
      .done ⟨⟨t, more.takeWhile (· ≠ separatorToken), ∅, .spelledIn LaunchOption.flag options⟩,
        ⟨position + options.length + 1 + (more.takeWhile (· ≠ separatorToken)).length,
          more.dropWhile (· ≠ separatorToken)⟩, recovered⟩ := by
  obtain ⟨recovered, htriple⟩ := LaunchOption.triple_run_of_done hoptions hhead
    (Operand.binary_run_of_isFile h (position + options.length) more)
  exact ⟨recovered, map_run_eq_done_iff.mpr ⟨_, htriple, rfl⟩⟩

theorem AgentLaunch.parser_run_of_not_isFile (h : ¬ fs.isFile t) :
    ∃ problem, (parser fs).run ⟨position, options ++ t :: more⟩ =
      .failed ⟨problem, position + options.length⟩ := by
  obtain ⟨problem, hbinary⟩ :=
    Operand.binary_run_of_not_isFile h (position + options.length) more
  exact ⟨problem, map_run_eq_failed_iff.mpr
    (LaunchOption.triple_run_of_failed hoptions hhead hbinary)⟩

theorem ApplicationLaunch.parser_run_of_bundleId {id : BundleId}
    (h : (Operand.bundleId fs).parse [t] = .done id) :
    ∃ recovered, (parser fs).run ⟨position, options ++ t :: more⟩ =
      .done ⟨⟨id, more.takeWhile (· ≠ separatorToken), ∅, .spelledIn LaunchOption.flag options⟩,
        ⟨position + options.length + 1 + (more.takeWhile (· ≠ separatorToken)).length,
          more.dropWhile (· ≠ separatorToken)⟩, recovered⟩ := by
  obtain ⟨recovered, htriple⟩ := LaunchOption.triple_run_of_done hoptions hhead
    (single_run_of_parse h (position + options.length) more)
  exact ⟨recovered, map_run_eq_done_iff.mpr ⟨_, htriple, rfl⟩⟩

theorem ApplicationLaunch.parser_run_of_not_bundleId
    (h : ∀ id, (Operand.bundleId fs).parse [t] ≠ .done id) :
    ∃ problem, (parser fs).run ⟨position, options ++ t :: more⟩ =
      .failed ⟨problem, position + options.length⟩ := by
  obtain ⟨problem, hid⟩ := single_run_of_parse_ne h (position + options.length) more
  exact ⟨problem, map_run_eq_failed_iff.mpr (LaunchOption.triple_run_of_failed hoptions hhead hid)⟩

end Kinds

namespace Action

variable {fs : FileSystem} {tail : List Token}

theorem parser_run_launch_word (fs : FileSystem) (tail : List Token) :
    (parser fs).run (.start ("launch" :: tail)) =
      (oneOf [(AgentLaunch.parser fs).map launchAgent,
        (ApplicationLaunch.parser fs).map launchApplication]).run ⟨1, tail⟩ := by
  have hverb : (parser fs).run (.start ("launch" :: tail)) =
      (oneOf ((armsOf fs .launch).map Arm.parser)).run (.start ("launch" :: tail)) :=
    parser_run_of_verb rfl
  exact hverb.trans (oneOf_two_keyword_run ..)

theorem parser_run_launch_agent {m : Match AgentLaunch}
    (h : (AgentLaunch.parser fs).run ⟨1, tail⟩ = .done m) :
    (parser fs).run (.start ("launch" :: tail)) = .done (m.map launchAgent) := by
  rw [parser_run_launch_word, oneOf_two_run_eq_done_iff]
  exact .inl (map_run_eq_done_iff.mpr ⟨m, h, rfl⟩)

theorem parser_run_launch_application {f : Failure} {m : Match ApplicationLaunch}
    (hagent : (AgentLaunch.parser fs).run ⟨1, tail⟩ = .failed f)
    (h : (ApplicationLaunch.parser fs).run ⟨1, tail⟩ = .done m) :
    (parser fs).run (.start ("launch" :: tail)) = .done (m.map launchApplication) := by
  rw [parser_run_launch_word, oneOf_two_run_eq_done_iff]
  exact .inr ⟨⟨f, map_run_eq_failed_iff.mpr hagent⟩, map_run_eq_done_iff.mpr ⟨m, h, rfl⟩⟩

/-- Where an agent and an application are refused at one place, the agent is reported. -/
theorem parser_run_launch_failed {problem problem' : Problem} {offset : Nat}
    (hagent : (AgentLaunch.parser fs).run ⟨1, tail⟩ = .failed ⟨problem, offset⟩)
    (happlication : (ApplicationLaunch.parser fs).run ⟨1, tail⟩ = .failed ⟨problem', offset⟩) :
    (parser fs).run (.start ("launch" :: tail)) = .failed ⟨problem, offset⟩ := by
  have hkeep : Failure.furthest ⟨problem, offset⟩ ⟨problem', offset⟩ = ⟨problem, offset⟩ :=
    if_neg (Nat.lt_irrefl offset)
  rw [parser_run_launch_word, oneOf_two_run_of_failed (map_run_eq_failed_iff.mpr hagent)
    (map_run_eq_failed_iff.mpr happlication), hkeep]

/-- A launch is an agent if there is a file of this name, and else an application if it can be
one; its options are the flags in front and its arguments the tokens up to the separator.  It fails
at a token that can be neither, and without anything to launch. -/
theorem parser_run_launch (fs : FileSystem) (options : List Token)
    (hoptions : ∀ t ∈ options, t ∈ ["--stdout", "--stderr"]) :
    (∃ f, (parser fs).run (.start ("launch" :: options)) = .failed f) ∧
    ∀ (t : Token) (more : List Token), t ∉ ["--stdout", "--stderr"] →
      (fs.isFile t → ∃ recovered,
        (parser fs).run (.start ("launch" :: (options ++ t :: more))) =
          .done ⟨.launchAgent
              { binary := t
                arguments := more.takeWhile (· ≠ separatorToken)
                environment := ∅
                options := .spelledIn LaunchOption.flag options },
            ⟨1 + options.length + 1 + (more.takeWhile (· ≠ separatorToken)).length,
              more.dropWhile (· ≠ separatorToken)⟩, recovered⟩) ∧
      (¬ fs.isFile t → ∀ id, (Operand.bundleId fs).parse [t] = .done id → ∃ recovered,
        (parser fs).run (.start ("launch" :: (options ++ t :: more))) =
          .done ⟨.launchApplication
              { bundleId := id
                arguments := more.takeWhile (· ≠ separatorToken)
                environment := ∅
                options := .spelledIn LaunchOption.flag options },
            ⟨1 + options.length + 1 + (more.takeWhile (· ≠ separatorToken)).length,
              more.dropWhile (· ≠ separatorToken)⟩, recovered⟩) ∧
      (¬ fs.isFile t → (∀ id, (Operand.bundleId fs).parse [t] ≠ .done id) → ∃ problem,
        (parser fs).run (.start ("launch" :: (options ++ t :: more))) =
          .failed ⟨problem, 1 + options.length⟩) := by
  constructor
  -- The end of the tokens is refused like a token that is nothing to launch.
  · have hnothing : ∀ t ∈ ([] : List Token).head?, t ∉ LaunchOption.words := by simp
    have hagent : (AgentLaunch.parser fs).run ⟨1, options ++ []⟩ = .failed _ :=
      map_run_eq_failed_iff.mpr (LaunchOption.triple_run_of_failed hoptions hnothing rfl)
    have happlication : (ApplicationLaunch.parser fs).run ⟨1, options ++ []⟩ = .failed _ :=
      map_run_eq_failed_iff.mpr (LaunchOption.triple_run_of_failed hoptions hnothing rfl)
    rw [List.append_nil] at hagent happlication
    exact ⟨_, parser_run_launch_failed hagent happlication⟩
  intro t more ht
  have hhead : ∀ u ∈ (t :: more).head?, u ∉ LaunchOption.words := by
    rintro _ ⟨⟩
    exact ht
  refine ⟨fun hfile => ?_, fun hfile id hid => ?_, fun hfile hid => ?_⟩
  · obtain ⟨recovered, hagent⟩ := AgentLaunch.parser_run_of_isFile hoptions hhead hfile
    exact ⟨recovered, parser_run_launch_agent hagent⟩
  · obtain ⟨problem, hagent⟩ := AgentLaunch.parser_run_of_not_isFile hoptions hhead hfile
    obtain ⟨recovered, happlication⟩ :=
      ApplicationLaunch.parser_run_of_bundleId hoptions hhead hid
    exact ⟨recovered, parser_run_launch_application hagent happlication⟩
  · obtain ⟨problem, hagent⟩ := AgentLaunch.parser_run_of_not_isFile hoptions hhead hfile
    obtain ⟨problem', happlication⟩ :=
      ApplicationLaunch.parser_run_of_not_bundleId hoptions hhead hid
    exact ⟨problem, parser_run_launch_failed hagent happlication⟩

/-- One line launches an agent or an application, as there is a file or not; without a dot it does
neither. -/
theorem parser_run_launch_dotted :
    (∃ f, (parser FileTree.empty.view).run (.start ["launch", "--stderr"]) = .failed f) ∧
    (∃ recovered, (parser (FileTree.empty.addFile "a.b" .empty).view).run
        (.start ["launch", "--stderr", "a.b", "x", "--", "list"]) =
      .done ⟨.launchAgent ⟨"a.b", ["x"], ∅, .spelledIn LaunchOption.flag ["--stderr"]⟩,
        ⟨4, ["--", "list"]⟩, recovered⟩) ∧
    (∃ recovered, (parser FileTree.empty.view).run
        (.start ["launch", "--stderr", "a.b", "x", "--", "list"]) =
      .done ⟨.launchApplication ⟨"a.b", ["x"], ∅, .spelledIn LaunchOption.flag ["--stderr"]⟩,
        ⟨4, ["--", "list"]⟩, recovered⟩) ∧
    ∃ problem, (parser FileTree.empty.view).run (.start ["launch", "--stderr", "ab"]) =
      .failed ⟨problem, 2⟩ := by
  have hflags : ∀ t ∈ ["--stderr"], t ∈ ["--stdout", "--stderr"] := by decide
  have hrefused : (Operand.bundleId FileTree.empty.view).parse ["ab"] =
      .failed ⟨.objection (.undotted "ab"), 0⟩ := by decide +kernel
  obtain ⟨hnothing, hline⟩ := parser_run_launch FileTree.empty.view ["--stderr"] hflags
  obtain ⟨_, hline'⟩ :=
    parser_run_launch (FileTree.empty.addFile "a.b" .empty).view ["--stderr"] hflags
  obtain ⟨hagent, _, _⟩ := hline' "a.b" ["x", "--", "list"] (by decide)
  obtain ⟨_, happlication, _⟩ := hline "a.b" ["x", "--", "list"] (by decide)
  obtain ⟨_, _, hneither⟩ := hline "ab" [] (by decide)
  refine ⟨hnothing, hagent (by decide +kernel), happlication (by decide +kernel) "a.b"
    (by decide +kernel), hneither (by decide +kernel) fun id hid => ?_⟩
  rw [hrefused] at hid
  cases hid

end Action

end SimControl
