/-
Options in any order and any number.

A bag is a list of parts that the next token tells apart and that read the same tokens
wherever these stand.  What is gathered from a bag is the fold over the groups of the tokens,
and folding is associative, so that two token lists that are read each on its own are read one
after another as the one value followed by the other.

`OptionBags.parse_append` says this of all the bags of the command language, with the
exceptions that there are: a word that replaces a whole bag stands alone, and a bag whose
absence means something of its own must not be empty.
-/
import SimControl.FileSystem.Tree
import SimControl.Proofs.CommandLine
import SimControl.Proofs.Ensures

namespace SimControl
namespace Parser

variable {α β : Type}

/-! ## Groups of two lists -/

theorem Groups.append {p : Parser α} {xs ys : List Token} {as bs : List α}
    (hx : p.Groups xs as) (hy : p.Groups ys bs) : p.Groups (xs ++ ys) (as ++ bs) := by
  induction hx with
  | nil => exact hy
  | cons hsome hread _ ih =>
    rw [List.append_assoc]
    exact .cons hsome hread ih

/-- What is true of every match is true of the value of every group. -/
theorem Groups.forall_mem {p : Parser α} {P : α → Prop} (hp : p.Ensures P) {own : List Token}
    {values : List α} (h : p.Groups own values) : ∀ a ∈ values, P a := by
  induction h with
  | nil => simp
  | cons _ hread _ ih =>
    intro a ha
    rcases List.mem_cons.mp ha with rfl | ha
    · exact hp _ _ (hread 0 [])
    · exact ih a ha

/-! ## Bags -/

/-- The next token tells which of the parts can match, and what a part reads depends on the tokens
that it takes alone. -/
structure Bag (parts : List (Parser α)) : Prop where
  plain : ∀ p ∈ parts, p.Plain
  steady : ∀ p ∈ parts, p.Steady
  excludes : parts.Pairwise Excludes

/-- The values of two token lists are joined where the lists are. -/
def Joins [Accumulator α] (p : Parser α) (xs ys : List Token) : Prop :=
  ∀ a b, p.parse xs = .done a → p.parse ys = .done b →
    p.parse (xs ++ ys) = .done (Accumulator.append a b)

section Gathering

variable [Accumulator α] {parts : List (Parser α)} {minimum : Nat}

theorem Bag.parse_eq_done_iff (h : Bag parts) {tokens : List Token} {value : α} :
    (gather minimum parts).parse tokens = .done value ↔
      ∃ values, (oneOf parts).Groups tokens values ∧ minimum ≤ values.length ∧
        value = Accumulator.foldAll values := by
  have hplain := plain_oneOf h.plain h.excludes
  exact (collects_gather minimum hplain).parse_eq_done_iff hplain (steady_oneOf h.steady)

theorem Bag.joins [LawfulAccumulator α] (h : Bag parts) (xs ys : List Token) :
    (gather minimum parts).Joins xs ys := by
  intro a b ha hb
  obtain ⟨as, hx, hmany, rfl⟩ := h.parse_eq_done_iff.mp ha
  obtain ⟨bs, hy, _, rfl⟩ := h.parse_eq_done_iff.mp hb
  refine h.parse_eq_done_iff.mpr ⟨as ++ bs, hx.append hy, ?_, ?_⟩
  · rw [List.length_append]
    exact Nat.le_add_right_of_le hmany
  · exact (Accumulator.foldAll_append as bs).symm

/-- Parts that say something are gathered from some tokens to a value that says something. -/
theorem Bag.ne_identity [LawfulAccumulator α] (h : Bag parts)
    (hone : ∀ p ∈ parts, p.Ensures (· ≠ (Accumulator.identity : α)))
    (happend : ∀ a b : α, Accumulator.append a b = Accumulator.identity →
      a = Accumulator.identity)
    {tokens : List Token} (hsome : tokens ≠ []) {value : α}
    (hparse : (gather minimum parts).parse tokens = .done value) :
    value ≠ Accumulator.identity := by
  obtain ⟨values, hgroups, _, rfl⟩ := h.parse_eq_done_iff.mp hparse
  refine Accumulator.foldAll_ne_identity happend ?_ (hgroups.forall_mem (ensures_oneOf hone))
  rintro rfl
  cases hgroups
  exact hsome rfl

theorem bag_flags [Enumerated β] [DecidableEq β] {text : β → Token}
    (h : (Enumerated.all.map text).Nodup) : Bag (flags text) where
  plain _ := plain_of_mem_flags
  steady _ := steady_of_mem_flags
  excludes := pairwise_excludes_flags h

end Gathering

/-! ## A word instead of a bag -/

theorem map_parse_eq_done_iff {p : Parser α} {f : α → β} {tokens : List Token} {value : β} :
    (p.map f).parse tokens = .done value ↔ ∃ a, p.parse tokens = .done a ∧ f a = value := by
  simp only [Parser.parse_eq_done_iff, map_run_eq_done_iff]
  constructor
  · rintro ⟨_, ⟨m, hm, rfl⟩, hend, rfl⟩
    exact ⟨m.value, ⟨m, hm, hend, rfl⟩, rfl⟩
  · rintro ⟨_, ⟨m, hm, hend, rfl⟩, rfl⟩
    exact ⟨m.map f, ⟨m, hm, rfl⟩, hend, rfl⟩

/-- Two lists neither of which begins with the word do not begin with it together. -/
theorem head?_append_ne {xs ys : List Token} {word : Token} (hx : xs.head? ≠ some word)
    (hy : ys.head? ≠ some word) : (xs ++ ys).head? ≠ some word := by
  intro h
  rcases Sections.mem_head?_append h with h | h
  · exact hx h
  · exact hy h

theorem Joins.described [Accumulator α] {p : Parser α} {xs ys : List Token} (h : p.Joins xs ys)
    (description : String) : (p.described description).Joins xs ys := h

theorem Joins.oneOf_literal [Accumulator α] {p : Parser α} {xs ys : List Token}
    (h : p.Joins xs ys) {word : Token} (hx : xs ≠ [word]) (hy : ys ≠ [word]) (a : α) :
    (oneOf [literal word a, p]).Joins xs ys := by
  intro b c hb hc
  rcases oneOf_literal_parse_eq_done_iff.mp hb with ⟨hword, _⟩ | ⟨hhead, hb⟩
  · exact absurd hword hx
  rcases oneOf_literal_parse_eq_done_iff.mp hc with ⟨hword, _⟩ | ⟨hhead', hc⟩
  · exact absurd hword hy
  exact oneOf_literal_parse_eq_done_iff.mpr (.inr ⟨head?_append_ne hhead hhead', h b c hb hc⟩)

end Parser

open SimControl.Parser

variable (fs : FileSystem)

/-! ## The bags of the command language -/

theorem Configuration.bag_settings : Bag (settings fs) where
  plain _ := plain_of_mem_settings fs
  steady _ := steady_of_mem_settings fs
  excludes := excludes_settings fs

theorem TargetQuery.bag_criteria : Bag criteria where
  plain _ := plain_of_mem_criteria
  steady _ := steady_of_mem_criteria
  excludes := excludes_criteria

namespace IndividualCreation

/-- Where the property that the token can begin stands among the properties. -/
def propertyIndex (t : Token) : Nat :=
  if t ∈ TargetQuery.deviceWords then 0 else if t ∈ TargetQuery.osVersionWords then 1 else 2

theorem excludes_properties : (properties fs).Pairwise Excludes := by
  have hdevice : ∀ t ∈ TargetQuery.deviceWords, propertyIndex t = 0 := fun t h => if_pos h
  have hos : ∀ t ∈ TargetQuery.osVersionWords, propertyIndex t = 1 := by decide
  have haux : ∀ t, t = "--aux" → propertyIndex t = 2 := by
    rintro _ rfl
    decide
  refine pairwise_excludes_of_index propertyIndex fun i hi => ?_
  match i, hi with
  | 0, _ => exact (TargetQuery.headedBy_deviceParser.mono hdevice).map _
  | 1, _ => exact (TargetQuery.headedBy_osVersionParser.mono hos).map _
  | 2, _ => exact ((headedBy_keyword _ _).mono haux).map _

theorem bag_properties : Bag (properties fs) where
  plain p hp := by
    cases hp using property_cases with
    | model | os => exact (plain_single _ _).map _
    | auxDirectory => exact ((plain_single _ _).keyword _).map _
  steady _ := steady_of_mem_properties fs
  excludes := excludes_properties fs

end IndividualCreation

theorem CreationSpecification.parse_eq_individual_iff {tokens : List Token}
    {creation : IndividualCreation} :
    (parser fs).parse tokens = .done (.individual creation) ↔
      tokens.head? ≠ some "--all-missing-defaults" ∧
        (gather 0 (IndividualCreation.properties fs)).parse tokens = .done creation := by
  unfold parser
  rw [oneOf_literal_parse_eq_done_iff, map_parse_eq_done_iff]
  constructor
  · rintro (⟨_, h⟩ | ⟨hhead, _, hparse, h⟩)
    · cases h
    · obtain rfl := individual.inj h
      exact ⟨hhead, hparse⟩
  · rintro ⟨hhead, hparse⟩
    exact .inr ⟨hhead, creation, hparse, rfl⟩

theorem CreationSpecification.parse_append_individual {xs ys : List Token}
    {a b : IndividualCreation}
    (ha : (parser fs).parse xs = .done (.individual a))
    (hb : (parser fs).parse ys = .done (.individual b)) :
    (parser fs).parse (xs ++ ys) = .done (.individual (Accumulator.append a b)) := by
  obtain ⟨hhead, ha⟩ := (parse_eq_individual_iff fs).mp ha
  obtain ⟨hhead', hb⟩ := (parse_eq_individual_iff fs).mp hb
  have hjoined := (IndividualCreation.bag_properties fs).joins xs ys a b ha hb
  exact (parse_eq_individual_iff fs).mpr ⟨head?_append_ne hhead hhead', hjoined⟩

namespace ListenInterface

/-- Where the source that the token can begin stands among the sources. -/
def sourceIndex (t : Token) : Nat :=
  if t = "--stdin" then 0 else if t = "--socket" then 1 else 2

theorem excludes_sources : sources.Pairwise Excludes := by
  have hword {word : Token} {i : Nat} (h : sourceIndex word = i) :
      ∀ t, t = word → sourceIndex t = i := fun _ ht => ht ▸ h
  refine pairwise_excludes_of_index sourceIndex fun i hi => ?_
  match i, hi with
  | 0, _ => exact (headedBy_literal _ _).mono (hword (by decide))
  | 1, _ => exact ((headedBy_keyword _ _).mono (hword (by decide))).map _
  | 2, _ => exact ((headedBy_keyword _ _).mono (hword (by decide))).map _

theorem bag_sources : Bag sources where
  plain p hp := by
    cases hp using source_cases with
    | stdin => exact plain_single _ _
    | socket | http => exact (((plain_single _ _).refine _).keyword _).map _
  steady _ := steady_of_mem_sources
  excludes := excludes_sources

theorem ensures_of_mem_sources {p : Parser ListenInterface} (hp : p ∈ sources) :
    p.Ensures (· ≠ Accumulator.identity) := by
  cases hp using source_cases with
  | stdin => exact ensures_literal (by decide)
  | socket | http =>
    refine (ensures_true _).map fun port _ h => ?_
    cases h

theorem eq_identity_of_append {a b : ListenInterface}
    (h : Accumulator.append a b = Accumulator.identity) : a = Accumulator.identity := by
  obtain ⟨stdin, socket, http⟩ := a
  obtain ⟨hstdin, hsocket, hhttp⟩ := ListenInterface.mk.inj h
  obtain rfl := (Bool.or_eq_false_iff.mp hstdin).1
  obtain rfl := (Option.or_eq_none_iff.mp hsocket).2
  obtain rfl := (Option.or_eq_none_iff.mp hhttp).2
  rfl

/-- Some tokens name a source, and then standard input is not put in. -/
theorem parse_eq_done_iff_gather {tokens : List Token} (hsome : tokens ≠ [])
    {interface : ListenInterface} :
    parser.parse tokens = .done interface ↔ (gather 0 sources).parse tokens = .done interface := by
  have hkeep {i : ListenInterface} (h : (gather 0 sources).parse tokens = .done i) :
      i.orStdin = i := by
    have hne := bag_sources.ne_identity (fun _ => ensures_of_mem_sources)
      (fun _ _ => eq_identity_of_append) hsome h
    exact if_neg fun hempty => hne (of_decide_eq_true hempty)
  unfold parser
  rw [map_parse_eq_done_iff]
  constructor
  · rintro ⟨i, hi, rfl⟩
    rw [hkeep hi]
    exact hi
  · intro h
    exact ⟨interface, h, hkeep h⟩

theorem parser_joins {xs ys : List Token} (hx : xs ≠ []) (hy : ys ≠ []) :
    parser.Joins xs ys := by
  intro a b ha hb
  have hxy : xs ++ ys ≠ [] := List.append_ne_nil_of_left_ne_nil hx ys
  exact (parse_eq_done_iff_gather hxy).mpr (bag_sources.joins xs ys a b
    ((parse_eq_done_iff_gather hx).mp ha) ((parse_eq_done_iff_gather hy).mp hb))

end ListenInterface

/-! ## Bags one after another -/

/-- Two bags of options are read one after another as they are read each on its own. -/
theorem OptionBags.parse_append (xs ys : List Token) :
    OutputOption.setParser.Joins xs ys ∧ ManagementOption.setParser.Joins xs ys ∧
      LaunchOption.setParser.Joins xs ys ∧ BootOption.setParser.Joins xs ys ∧
      CrashedProcess.setParser.Joins xs ys ∧ (Configuration.parser fs).Joins xs ys ∧
      (xs ≠ ["all"] → ys ≠ ["all"] → TargetQuery.parser.Joins xs ys) ∧
      (xs ≠ [] → ys ≠ [] → ListenInterface.parser.Joins xs ys) ∧
      ∀ a b : IndividualCreation,
        (CreationSpecification.parser fs).parse xs = .done (.individual a) →
        (CreationSpecification.parser fs).parse ys = .done (.individual b) →
          (CreationSpecification.parser fs).parse (xs ++ ys) =
            .done (.individual (Accumulator.append a b)) := by
  refine ⟨?_, ?_, ?_, ?_, ?_, ?_, ?_, ?_, ?_⟩
  · exact (bag_flags (by decide)).joins xs ys
  · exact (bag_flags (by decide)).joins xs ys
  · exact (bag_flags (by decide)).joins xs ys
  · exact (bag_flags (by decide)).joins xs ys
  · exact (bag_flags (by decide)).joins xs ys
  · exact (Configuration.bag_settings fs).joins xs ys
  · intro hx hy
    exact ((TargetQuery.bag_criteria.joins xs ys).oneOf_literal hx hy _).described _
  · intro hx hy
    exact ListenInterface.parser_joins hx hy
  · intro a b ha hb
    exact CreationSpecification.parse_append_individual fs ha hb

/-- Of two models both are sought, the last one is created, and two sources are both listened
to. -/
theorem OptionBags.parse_append_models :
    TargetQuery.parser.parse (["iPhone 5"] ++ ["iPad 2"]) =
        .done { devices := .singleton .iPhone5 ∪ .singleton .iPad2 } ∧
      (CreationSpecification.parser FileTree.empty.view).parse (["iPhone 5"] ++ ["iPad 2"]) =
          .done (.individual { model := some .iPad2 }) ∧
        ListenInterface.parser.parse (["--socket", "80"] ++ ["--stdin"]) =
          .done { stdin := true, socket := some 80 } := by
  have hmodels := parse_append FileTree.empty.view ["iPhone 5"] ["iPad 2"]
  have hsources := parse_append FileTree.empty.view ["--socket", "80"] ["--stdin"]
  obtain ⟨_, _, _, _, _, _, hquery, _, hcreation⟩ := hmodels
  obtain ⟨_, _, _, _, _, _, _, hlisten, _⟩ := hsources
  refine ⟨?_, ?_, ?_⟩
  · exact hquery (by decide) (by decide) { devices := .singleton .iPhone5 }
      { devices := .singleton .iPad2 } (by decide +kernel) (by decide +kernel)
  · exact hcreation { model := some .iPhone5 } { model := some .iPad2 } (by decide +kernel)
      (by decide +kernel)
  · exact hlisten (by decide) (by decide) { socket := some 80 } { stdin := true }
      (by decide +kernel) (by decide +kernel)

end SimControl
