/-
What a command that was read can be relied on for.

Whoever carries out a command relies on more than its type says: that there is something to do,
that paths lead to what they should, that no list of operands is empty and no operand is the
separator.  `Command.WellFormed` collects these facts and `Invocation.wellFormed_of_parse` says
that they are true of every command that is read from a command line.

Each fact comes from one part of the grammar, and from there to the whole by `Ensures`.
-/
import Mathlib.Data.List.Forall2
import SimControl.FileSystem.Tree
import SimControl.Help.Wrap
import SimControl.Proofs.Ensures
import SimControl.Reading

namespace SimControl

open SimControl.Parser

variable (fs : FileSystem)

/-! ## Identifiers -/

/-- Groups of 8, 4, 4, 4 and 12 digits, hexadecimal in upper case, with hyphens between them. -/
def Udid.IsCanonical (udid : Udid) : Prop :=
  ∃ groups : List (List Char), udid.toList = ['-'].intercalate groups ∧
    groups.map List.length = [8, 4, 4, 4, 12] ∧
      ∀ group ∈ groups, ∀ c ∈ group, c.isDigit ∨ 'A' ≤ c ∧ c ≤ 'F'

theorem Text.map_intercalate (f : Char → Char) (separator : List Char)
    (pieces : List (List Char)) :
    (separator.intercalate pieces).map f =
      (separator.map f).intercalate (pieces.map (List.map f)) := by
  induction pieces with
  | nil => rfl
  | cons piece pieces ih =>
    cases pieces with
    | nil => simp
    | cons piece' pieces =>
      rw [List.intercalate_cons_cons, List.map_append, List.map_append, ih]
      simp [List.intercalate_cons_cons]

namespace Udid

theorem toNat_lt_of_isHexDigit {c : Char} (h : isHexDigit c = true) : c.toNat < 128 := by
  have hlast {d : Char} (hle : c ≤ d) (hd : d.toNat < 128) : c.toNat < 128 :=
    Nat.lt_of_le_of_lt (UInt32.le_iff_toNat_le.mp (Char.le_def.mp hle)) hd
  simp only [isHexDigit, Char.isDigit, Bool.or_eq_true, Bool.and_eq_true,
    decide_eq_true_eq] at h
  rcases h with (⟨_, hle⟩ | ⟨_, hle⟩) | ⟨_, hle⟩
  · exact hlast (d := '9') hle (by decide)
  · exact hlast hle (by decide)
  · exact hlast hle (by decide)

def hexDigits : List Char := "0123456789abcdefABCDEF".toList

theorem isHexDigit_iff {c : Char} : isHexDigit c = true ↔ c ∈ hexDigits := by
  constructor
  · intro h
    have hascii : ∀ n < 128, isHexDigit (Char.ofNat n) → Char.ofNat n ∈ hexDigits := by
      decide +kernel
    have hc := hascii c.toNat (toNat_lt_of_isHexDigit h)
    rw [Char.ofNat_toNat] at hc
    exact hc h
  · have hdigits : hexDigits.all isHexDigit = true := by decide +kernel
    exact List.all_eq_true.mp hdigits c

theorem toUpper_of_isHexDigit {c : Char} (h : isHexDigit c = true) :
    c.toUpper.isDigit ∨ 'A' ≤ c.toUpper ∧ c.toUpper ≤ 'F' := by
  have hdigits : hexDigits.all (fun c =>
      decide (c.toUpper.isDigit ∨ 'A' ≤ c.toUpper ∧ c.toUpper ≤ 'F')) = true := by
    decide +kernel
  exact of_decide_eq_true (List.all_eq_true.mp hdigits c (isHexDigit_iff.mp h))

/-- Hexadecimal digits take one byte each. -/
theorem isGroup_iff {group : List Char} {length : Nat} :
    isGroup group length = true ↔
      (∀ c ∈ group, isHexDigit c = true) ∧ group.length = length := by
  have hdigits : hexDigits.all (fun c => c.utf8Size == 1) = true := by decide +kernel
  rw [isGroup, Bool.and_eq_true, beq_iff_eq, List.all_eq_true, and_comm]
  refine and_congr_right fun hgroup => ?_
  have hplain : Help.isPlain group = true := by
    refine List.all_eq_true.mpr fun c hc => ?_
    exact List.all_eq_true.mp hdigits c (isHexDigit_iff.mp (hgroup c hc))
  rw [Help.utf8ByteSize_of_isPlain hplain]

theorem isWellFormed_iff_groups {cs : List Char} :
    isWellFormed cs = true ↔
      (∀ group ∈ Text.pieces (· == '-') cs, ∀ c ∈ group, isHexDigit c = true) ∧
        (Text.pieces (· == '-') cs).map List.length = groupLengths := by
  have hpairs : isWellFormed cs = true ↔
      List.Forall₂ (fun group length => isGroup group length = true)
        (Text.pieces (· == '-') cs) groupLengths := by
    rw [isWellFormed, Bool.and_eq_true, beq_iff_eq, List.all_eq_true, List.forall₂_iff_zip,
      Prod.forall]
  rw [hpairs]
  simp only [isGroup_iff]
  rw [List.forall₂_and_left, ← List.forall₂_map_left_iff, List.forall₂_eq_eq_eq]

theorem isCanonical_of_ofText? {text : String} {udid : Udid} (h : ofText? text = some udid) :
    udid.IsCanonical := by
  unfold ofText? at h
  by_cases hwell : isWellFormed text.toList
  · rw [if_pos hwell] at h
    obtain rfl := Option.some.inj h
    rw [isWellFormed_iff_groups, Text.pieces_eq_splitOn] at hwell
    obtain ⟨hdigits, hlengths⟩ := hwell
    refine ⟨(text.toList.splitOn '-').map (List.map Char.toUpper), ?_, ?_, ?_⟩
    · have hjoin := Text.map_intercalate Char.toUpper ['-'] (text.toList.splitOn '-')
      rw [List.intercalate_splitOn] at hjoin
      rw [String.toList_ofList, hjoin]
      rfl
    · rw [List.map_map]
      exact (List.map_congr_left fun _ _ => List.length_map _).trans hlengths
    · intro group hgroup c hc
      obtain ⟨digits, hmem, rfl⟩ := List.mem_map.mp hgroup
      obtain ⟨digit, hdigit, rfl⟩ := List.mem_map.mp hc
      exact toUpper_of_isHexDigit (hdigits digits hmem digit hdigit)
  · rw [if_neg hwell] at h
    cases h

theorem parser_ensures : parser.Ensures IsCanonical :=
  ensures_reading fun _ _ => isCanonical_of_ofText?

end Udid

/-! ## Operands -/

namespace Application

theorem ne_empty_of_identifierIn? {text : List Char} {identifier : BundleId}
    (h : identifierIn? text = some identifier) : identifier ≠ "" := by
  simp only [identifierIn?, Option.bind_eq_bind, Option.bind_eq_some_iff] at h
  obtain ⟨_, _, _, _, ⟨value, _⟩, _, h⟩ := h
  by_cases hblank : Text.trim value = []
  · rw [if_pos hblank] at h
    cases h
  · rw [if_neg hblank] at h
    obtain rfl := Option.some.inj h
    intro hempty
    exact hblank (String.ofList_injective hempty)

theorem bundleId_ne_empty {path : Path} {application : Application}
    (h : ofPath fs path = .ok application) : application.bundleId ≠ "" := by
  unfold ofPath at h
  cases hpath : Operand.existing fs (isBundle fs) .notAnApplication path with
  | error problem =>
    rw [hpath] at h
    cases h
  | ok path' =>
    rw [hpath] at h
    simp only [bind, Except.bind] at h
    cases hidentifier : identifier? fs path' with
    | none =>
      rw [hidentifier] at h
      cases h
    | some identifier =>
      rw [hidentifier] at h
      obtain rfl := Except.ok.inj h
      obtain ⟨text, _, htext⟩ := Option.bind_eq_some_iff.mp hidentifier
      exact ne_empty_of_identifierIn? htext

end Application

namespace Operand

theorem accepts_of_existing {accepts : Path → Bool} {objection : Path → Objection}
    {path path' : Path} (h : existing fs accepts objection path = .ok path') :
    accepts path' = true := by
  unfold existing at h
  by_cases hpresent : fs.isPresent path
  · rw [if_pos hpresent] at h
    by_cases haccepts : accepts path
    · rw [if_pos haccepts] at h
      obtain rfl := Except.ok.inj h
      exact haccepts
    · rw [if_neg haccepts] at h
      cases h
  · rw [if_neg hpresent] at h
    cases h

theorem ensures_directory : (directory fs).Ensures fun path => fs.isDirectory path = true :=
  ensures_single fun _ _ => accepts_of_existing fs

theorem ensures_file : (file fs).Ensures fun path => fs.isFile path = true :=
  ensures_single fun _ _ => accepts_of_existing fs

theorem ensures_bundleId : (bundleId fs).Ensures (· ≠ "") := by
  refine ensures_single fun token value h => ?_
  cases happlication : Application.ofPath fs token with
  | ok application =>
    rw [happlication] at h
    obtain rfl := Except.ok.inj h
    exact Application.bundleId_ne_empty fs happlication
  | error problem =>
    rw [happlication] at h
    by_cases hdot : '.' ∈ token.toList
    · simp only [if_pos hdot] at h
      obtain rfl := Except.ok.inj h
      rintro rfl
      cases hdot
    · simp only [if_neg hdot] at h
      cases h

theorem ensures_word : word.Ensures (· ≠ separatorToken) := by
  refine ensures_reading fun token value h => ?_
  by_cases hseparator : token = separatorToken
  · rw [if_pos hseparator] at h
    cases h
  · rw [if_neg hseparator] at h
    obtain rfl := Option.some.inj h
    exact hseparator

/-- An argument is any token, but is not sought where the separator is. -/
theorem ensures_arguments : arguments.Ensures (separatorToken ∉ ·) := by
  refine (ensures_upTo (P := (· ≠ separatorToken)) fun c f next hstop hnext => ?_).mono
    fun arguments h hmem => h separatorToken hmem rfl
  have hhead := literal_run_eq_failed_iff.mp ⟨f, hstop⟩
  obtain ⟨position, rest⟩ := c
  cases rest with
  | nil => cases hnext
  | cons token rest =>
    obtain rfl := Outcome.done.inj hnext
    intro hvalue
    exact hhead (congrArg some hvalue)

end Operand

/-! ## Well-formed commands -/

/-- An application to launch: which one is known, its environment is still to be given, and
its arguments end before the next action. -/
structure ApplicationLaunch.WellFormed (launch : ApplicationLaunch) : Prop where
  bundleId : launch.bundleId ≠ ""
  environment : launch.environment = ∅
  arguments : separatorToken ∉ launch.arguments

structure AgentLaunch.WellFormed (launch : AgentLaunch) : Prop where
  environment : launch.environment = ∅
  arguments : separatorToken ∉ launch.arguments

def DiagnosticQuery.WellFormed : DiagnosticQuery → Prop
  | all => True
  | named names => names ≠ [] ∧ separatorToken ∉ names
  | applicationFiles bundleId fileNames =>
      bundleId ≠ "" ∧ fileNames ≠ [] ∧ separatorToken ∉ fileNames
  | crashes _ processes => processes ≠ ∅

/-- Something is configured. -/
def BootConfiguration.WellFormed (b : BootConfiguration) : Prop :=
  b.locale.isSome ∨ b.scale.isSome ∨ b.options ≠ ∅

/-- Some bundles, all of them named. -/
def BundleId.ListWellFormed (bundleIds : List BundleId) : Prop :=
  bundleIds ≠ [] ∧ ∀ bundleId ∈ bundleIds, bundleId ≠ ""

def Action.WellFormed : Action → Prop
  | approve bundleIds | watchdogOverride bundleIds _ => BundleId.ListWellFormed bundleIds
  | boot configuration => ∀ b ∈ configuration, b.WellFormed
  | clearKeychain bundleId | terminate bundleId | uninstall bundleId => bundleId ≠ ""
  | diagnose query _ => query.WellFormed
  | launchAgent launch => launch.WellFormed
  | launchApplication launch | relaunch launch => launch.WellFormed
  | launchTest launch => launch.application.WellFormed
  | listen interface => interface.isEmpty = false
  | upload paths => paths ≠ [] ∧ ∀ path ∈ paths, fs.isFile path = true
  | create _ | delete | erase | install _ _ | list | listApps | openUrl _ | record _ | shutdown
  | tap _ _ => True

structure Command.WellFormed (command : Command) : Prop where
  deviceSet : ∀ path ∈ command.configuration.deviceSet, fs.isDirectory path = true
  udids : ∀ query ∈ command.query, ∀ udid ∈ query.udids, udid.IsCanonical
  fields : ∀ format ∈ command.format, format.fields ≠ []
  actions_ne_nil : command.actions ≠ []
  actions : ∀ action ∈ command.actions, action.WellFormed fs

/-! ## Sections of a command -/

theorem Configuration.parser_ensures :
    (Configuration.parser fs).Ensures fun configuration =>
      ∀ path ∈ configuration.deviceSet, fs.isDirectory path = true := by
  have hnone : ∀ path ∈ (none : Option Path), fs.isDirectory path = true :=
    fun path h => absurd h (Option.not_mem_none path)
  refine ensures_gather_of_append 0 (fun p hp => ?_) hnone fun a b ha hb => ?_
  · simp only [settings, List.mem_append, List.mem_map, List.mem_singleton] at hp
    rcases hp with (⟨q, _, rfl⟩ | ⟨q, _, rfl⟩) | rfl
    · exact (ensures_true q).map fun _ _ => hnone
    · exact (ensures_true q).map fun _ _ => hnone
    · refine ((Operand.ensures_directory fs).keyword _).map fun path hpath path' h => ?_
      obtain rfl := Option.some.inj h
      exact hpath
  · intro path h
    rcases Option.or_eq_some_iff.mp h with h | ⟨_, h⟩
    · exact hb path h
    · exact ha path h

theorem TargetQuery.parser_ensures :
    TargetQuery.parser.Ensures fun query => ∀ udid ∈ query.udids, udid.IsCanonical := by
  have hnone : ∀ udid : Udid, udid ∈ (∅ : Std.ExtTreeSet Udid) → udid.IsCanonical :=
    fun _ h => absurd h Std.ExtTreeSet.not_mem_empty
  refine (ensures_oneOf fun p hp => ?_).described _
  simp only [List.mem_cons, List.not_mem_nil, or_false] at hp
  rcases hp with rfl | rfl
  · exact ensures_literal hnone
  · refine ensures_gather_of_append 1 (fun p hp => ?_) hnone fun a b ha hb => ?_
    · cases hp using criterion_cases with
      | first | state | type | osVersion | device => exact (ensures_true _).map fun _ _ => hnone
      | udid =>
        refine Udid.parser_ensures.map fun udid hudid udid' h => ?_
        rcases Std.ExtTreeSet.mem_insert.mp h with h | h
        · obtain rfl := Std.LawfulEqCmp.eq_of_compare h
          exact hudid
        · exact hnone udid' h
    · intro udid h
      rcases Std.ExtTreeSet.mem_union_iff.mp h with h | h
      · exact ha udid h
      · exact hb udid h

theorem TargetFormat.parser_ensures :
    TargetFormat.parser.Ensures fun format => format.fields ≠ [] := by
  refine ((ensures_atLeast 1 (ensures_true _)).map fun fields h => ?_).described _
  exact List.length_pos_iff.mp h.1

/-! ## Operands of actions -/

theorem ApplicationLaunch.parser_ensures :
    (ApplicationLaunch.parser fs).Ensures ApplicationLaunch.WellFormed :=
  ((ensures_triple (ensures_true _) (Operand.ensures_bundleId fs)
    Operand.ensures_arguments).map fun _ h => ⟨h.2.1, rfl, h.2.2⟩).described _

theorem AgentLaunch.parser_ensures : (AgentLaunch.parser fs).Ensures AgentLaunch.WellFormed :=
  ((ensures_triple (ensures_true _) (ensures_true _) Operand.ensures_arguments).map
    fun _ h => ⟨rfl, h.2.2⟩).described _

theorem TestLaunch.parser_ensures :
    (TestLaunch.parser fs).Ensures fun launch => launch.application.WellFormed := by
  refine ((ensures_triple (ensures_true _) (ensures_true _)
    (ApplicationLaunch.parser_ensures fs)).map fun parts h => ?_).described _
  exact h.2.2

/-- The conversion refuses the configuration of nothing, and flags that are given are some. -/
theorem BootConfiguration.parser_ensures :
    BootConfiguration.parser.Ensures BootConfiguration.WellFormed := by
  have hoptions : BootOption.setParser.Ensures (· ≠ ∅) :=
    ensures_flagSet_ne_empty Nat.one_pos BootOption.flag
  refine ((ensures_triple (ensures_true _) (ensures_true _) hoptions.optional).refine
    fun parts b h hb => ?_).described _
  obtain ⟨locale, scale, options⟩ := parts
  cases locale with
  | some locale =>
    obtain rfl := Except.ok.inj hb
    exact .inl rfl
  | none =>
    cases scale with
    | some scale =>
      obtain rfl := Except.ok.inj hb
      exact .inr (.inl rfl)
    | none =>
      cases options with
      | some options =>
        obtain rfl := Except.ok.inj hb
        exact .inr (.inr (h.2.2 options rfl))
      | none => cases hb

theorem DiagnosticQuery.parser_ensures :
    (DiagnosticQuery.parser fs).Ensures DiagnosticQuery.WellFormed := by
  have hwords {values : List String} (h : 1 ≤ values.length ∧ ∀ a ∈ values, a ≠ separatorToken) :
      values ≠ [] ∧ separatorToken ∉ values :=
    ⟨List.length_pos_iff.mp h.1, fun hmem => h.2 _ hmem rfl⟩
  refine (ensures_oneOf fun p hp => ?_).described _
  simp only [List.mem_cons, List.not_mem_nil, or_false] at hp
  rcases hp with rfl | rfl | rfl
  · exact ((Operand.ensures_bundleId fs).pair (ensures_atLeast 1 Operand.ensures_word)).map
      fun _ h => ⟨h.1, hwords h.2⟩
  · exact (ensures_atLeast 1 (Operand.ensures_word.keyword _)).map fun _ h => hwords h
  · exact ((ensures_true _).pair (ensures_flagSet_ne_empty Nat.one_pos CrashedProcess.flag)).map
      fun _ h => h.2

/-- An interface that would be empty is standard input. -/
theorem ListenInterface.isEmpty_orStdin (interface : ListenInterface) :
    interface.orStdin.isEmpty = false := by
  unfold orStdin
  by_cases h : interface.isEmpty
  · rw [if_pos h]
    decide
  · rw [if_neg h]
    exact Bool.eq_false_iff.mpr h

theorem ListenInterface.parser_ensures :
    ListenInterface.parser.Ensures fun interface => interface.isEmpty = false :=
  (ensures_true _).map fun interface _ => isEmpty_orStdin interface

/-! ## Actions -/

namespace Action

theorem ensures_of_mem_arms {arm : Arm} (harm : arm ∈ arms fs) :
    arm.parser.Ensures (Action.WellFormed fs) := by
  have hbare (verb : Verb) {action : Action} (h : action.WellFormed fs) :
      (Arm.bare verb action).parser.Ensures (Action.WellFormed fs) := ensures_literal h
  have hoperands (verb : Verb) {p : Parser Action} (hp : p.Ensures (Action.WellFormed fs)) :
      (Arm.operands verb p).parser.Ensures (Action.WellFormed fs) := hp.keyword _
  have hid := Operand.ensures_bundleId fs
  have hids : (atLeast 1 (Operand.bundleId fs)).Ensures BundleId.ListWellFormed :=
    (ensures_atLeast 1 hid).mono fun _ h => ⟨List.length_pos_iff.mp h.1, h.2⟩
  have hlaunch := ApplicationLaunch.parser_ensures fs
  have hquery : ((DiagnosticQuery.parser fs).withDefault .all).Ensures
      DiagnosticQuery.WellFormed := (DiagnosticQuery.parser_ensures fs).withDefault trivial
  cases harm using arm_cases with
  | approve => exact hoperands _ (hids.map fun _ h => h)
  | boot => exact hoperands _ (BootConfiguration.parser_ensures.optional.map fun _ h => h)
  | clearKeychain | terminate | uninstall => exact hoperands _ (hid.map fun _ h => h)
  | create | install | openUrl | record | tap =>
    exact hoperands _ ((ensures_true _).map fun _ _ => trivial)
  | delete | erase | list | listApps | shutdown => exact hbare _ trivial
  | diagnose => exact hoperands _ (((ensures_true _).pair hquery).map fun _ h => h.2)
  | launchAgent => exact hoperands _ ((AgentLaunch.parser_ensures fs).map fun _ h => h)
  | launchApplication | relaunch => exact hoperands _ (hlaunch.map fun _ h => h)
  | launchTest => exact hoperands _ ((TestLaunch.parser_ensures fs).map fun _ h => h)
  | listen => exact hoperands _ (ListenInterface.parser_ensures.map fun _ h => h)
  | upload =>
    refine hoperands _ ((ensures_atLeast 1 (Operand.ensures_file fs)).map fun _ h => ?_)
    exact ⟨List.length_pos_iff.mp h.1, h.2⟩
  | watchdogOverride => exact hoperands _ (((ensures_true _).pair hids).map fun _ h => h.2)

theorem parser_ensures : (Action.parser fs).Ensures (Action.WellFormed fs) := by
  refine (ensures_oneOf fun p hp => ?_).described _
  obtain ⟨arm, harm, rfl⟩ := List.mem_map.mp hp
  exact ensures_of_mem_arms fs harm

theorem listParser_ensures :
    (listParser fs).Ensures fun actions =>
      actions ≠ [] ∧ ∀ action ∈ actions, action.WellFormed fs :=
  (ensures_separated 1 (parser_ensures fs)).mono fun _ h => ⟨List.length_pos_iff.mp h.1, h.2⟩

end Action

/-! ## Command lines -/

theorem Command.parser_ensures : (Command.parser fs).Ensures (Command.WellFormed fs) :=
  ((ensures_quadruple (Configuration.parser_ensures fs) TargetQuery.parser_ensures.optional
    TargetFormat.parser_ensures.optional (Action.listParser_ensures fs).exhaustive).map
      fun _ h => ⟨h.1, h.2.1, h.2.2.1, h.2.2.2.1, h.2.2.2.2⟩).described _

/-- What is a command line is a well-formed command. -/
theorem Invocation.parser_ensures :
    (Invocation.parser fs).Ensures fun invocation =>
      ∀ command, invocation = .run command → command.WellFormed fs := by
  refine ensures_oneOf fun p hp => ?_
  simp only [List.mem_cons, List.not_mem_nil, or_false] at hp
  rcases hp with rfl | rfl
  · refine (Command.parser_ensures fs).map fun command h command' heq => ?_
    obtain rfl := Invocation.run.inj heq
    exact h
  · exact (ensures_true _).map fun _ _ _ heq => nomatch heq

/-- A command that is read from a command line is well formed. -/
theorem Invocation.wellFormed_of_parse {tokens : List Token} {command : Command}
    (h : (Invocation.parser fs).parse tokens = .done (.run command)) : command.WellFormed fs :=
  (parser_ensures fs).of_parse h command rfl

/-- The paths lead to a directory and to a file, and the identifier is read in upper case. -/
theorem Invocation.wellFormed_of_parse_upload :
    ∃ command,
      (Invocation.parser ((FileTree.empty.addDirectory "sims").addFile "a.png" .empty).view).parse
          ["--set", "sims", "01234567-89ab-cdef-0123-456789abcdef", "--udid", "upload", "a.png",
            "--", "listen"] = .done (.run command) ∧
        command.actions = [.upload ["a.png"], .listen { stdin := true }] ∧
          command.WellFormed
            ((FileTree.empty.addDirectory "sims").addFile "a.png" .empty).view := by
  have h : (Invocation.parser
      ((FileTree.empty.addDirectory "sims").addFile "a.png" .empty).view).parse
        ["--set", "sims", "01234567-89ab-cdef-0123-456789abcdef", "--udid", "upload", "a.png",
          "--", "listen"] = .done (.run
            { configuration := { deviceSet := some "sims" }
              query := some { udids := {"01234567-89AB-CDEF-0123-456789ABCDEF"} }
              format := some ⟨[.udid]⟩
              actions := [.upload ["a.png"], .listen { stdin := true }] }) := by
    decide +kernel
  exact ⟨_, h, rfl, wellFormed_of_parse _ h⟩

end SimControl
