/-
Lists of actions, read segment by segment.

Where the items of a separated repetition are closed by the separator, the repetition reads
a token list exactly if the items read the segments between separators, each as a token
list of its own.  An action is closed by the separator, unless the file system has something at
the path that is spelled like it, of the kind that the action asks for.
-/
import SimControl.Proofs.Alike
import SimControl.Proofs.Closed
import SimControl.Proofs.Ensures
import SimControl.FileSystem.Tree
import SimControl.Proofs.Extent

namespace SimControl
namespace Parser

variable {α : Type} {t : Token} {p : Parser α}

/-! ## Separators -/

theorem separatedFrom_of_head?_ne {m : Match (List α)} (h : m.cursor.rest.head? ≠ some t) :
    separatedFrom p (literal t ()) m = .done (m, none) := by
  obtain ⟨f, hf⟩ := literal_run_eq_failed_iff.mpr h
  rw [separatedFrom, hf]

/-- To read what is left after a separator, there has to be an item behind it. -/
theorem separatedFrom_eq_done_iff_of_separator (hp : p.Composed) {m : Match (List α)}
    {tokens : List Token} (hm : m.cursor.rest = t :: tokens) {r : Match (List α) × Option Failure}
    (hr : r.1.cursor.rest = []) :
    separatedFrom p (literal t ()) m = .done r ↔
      ∃ next, p.run ⟨m.cursor.position + 1, tokens⟩ = .done next ∧
        separatedFrom p (literal t ()) (m.push next) = .done r := by
  have hseparator : (literal t ()).run m.cursor =
      .done ⟨(), ⟨m.cursor.position + 1, tokens⟩, none⟩ :=
    literal_run_eq_done_iff.mpr ⟨tokens, hm, rfl⟩
  rw [separatedFrom, hseparator]
  dsimp only
  cases hnext : p.run ⟨m.cursor.position + 1, tokens⟩ with
  | endless => simp
  | failed f =>
    simp only [Outcome.done.injEq, reduceCtorEq, false_and, exists_false, iff_false]
    rintro rfl
    rw [hm] at hr
    cases hr
  | done next =>
    obtain ⟨passed, hpassed, _⟩ := (hp.bounded.done hnext).leads
    have hless : next.cursor.rest.length < m.cursor.rest.length := by
      have htokens : tokens = passed ++ next.cursor.rest := hpassed
      rw [hm, htokens, List.length_cons, List.length_append]
      omega
    simp only [if_pos hless, Outcome.done.injEq, exists_eq_left']

/-- Rounds only add to what was read. -/
theorem length_le_of_separatedFrom {β : Type} {separator : Parser β} {m : Match (List α)}
    {r : Match (List α) × Option Failure} (h : separatedFrom p separator m = .done r) :
    m.value.length ≤ r.1.value.length := by
  fun_induction separatedFrom p separator m with
  | case1 m hend => cases h
  | case2 m failure hfail =>
    obtain rfl := Outcome.done.inj h
    exact Nat.le_refl _
  | case3 m between hbetween hend => cases h
  | case4 m between hbetween failure hfail =>
    obtain rfl := Outcome.done.inj h
    exact Nat.le_refl _
  | case5 m between hbetween next hnext hless ih =>
    have hpush : (m.push next).value.length = m.value.length + 1 := List.length_append
    have hrounds := ih h
    omega
  | case6 m between hbetween next hnext hmore => cases h

/-- A separated repetition of one item or more is an item and the rounds after it. -/
theorem separated_run_eq_done_iff {β : Type} {separator : Parser β} {c : Cursor}
    {m : Match (List α)} :
    (separated 1 p separator).run c = .done m ↔
      ∃ first r, p.run c = .done first ∧
        separatedFrom p separator (first.map ([·])) = .done r ∧ r.1.recovering r.2 = m := by
  simp only [separated]
  cases hfirst : p.run c with
  | endless => simp
  | failed f => simp
  | done first =>
    simp only [Outcome.bind_eq_done_iff]
    constructor
    · rintro ⟨r, hr, hm⟩
      have hlength : 1 ≤ r.1.value.length := length_le_of_separatedFrom hr
      rw [if_neg (Nat.not_lt.mpr hlength)] at hm
      exact ⟨first, r, rfl, hr, Outcome.done.inj hm⟩
    · rintro ⟨_, r, hsame, hr, rfl⟩
      obtain rfl := Outcome.done.inj hsame
      have hlength : 1 ≤ r.1.value.length := length_le_of_separatedFrom hr
      exact ⟨r, hr, if_neg (Nat.not_lt.mpr hlength)⟩

/-! ## Segments -/

theorem length_splitOn (t : Token) (tokens : List Token) :
    (tokens.splitOn t).length = tokens.count t + 1 := by
  induction tokens with
  | nil => rfl
  | cons token tokens ih =>
    rw [List.splitOn_cons_eq_if_modifyHead, List.count_cons]
    by_cases h : (token == t) = true
    · rw [if_pos h, if_pos h, List.length_cons, ih]
    · rw [if_neg h, if_neg h, List.length_modifyHead, ih]

/-- An item at `c` and the repetition after it read all the tokens ahead, and put `values`
together with what `m` has read before. -/
def ReadsAll (p : Parser α) (t : Token) (m : Match (List α)) (c : Cursor) (values : List α) :
    Prop :=
  ∃ next r, p.run c = .done next ∧
    separatedFrom p (literal t ()) (m.push next) = .done r ∧
      r.1.cursor.rest = [] ∧ r.1.value = values

/-- The last item is followed by no separator. -/
theorem readsAll_iff_of_not_mem (hp : p.Composed) {tokens : List Token} (ht : t ∉ tokens)
    {m : Match (List α)} {position : Nat} {values : List α} :
    p.ReadsAll t m ⟨position, tokens⟩ values ↔
      ∃ value, p.parse tokens = .done value ∧ values = m.value ++ [value] := by
  have hstop {next : Match α} (h : p.run ⟨position, tokens⟩ = .done next) :
      separatedFrom p (literal t ()) (m.push next) = .done (m.push next, none) := by
    obtain ⟨passed, hrest, _⟩ := (hp.bounded.done h).leads
    refine separatedFrom_of_head?_ne fun hhead => ht ?_
    have htokens : tokens = passed ++ next.cursor.rest := hrest
    rw [htokens]
    exact List.mem_append_right passed (List.mem_of_mem_head? hhead)
  constructor
  · rintro ⟨next, r, hnext, hr, hrest, rfl⟩
    rw [hstop hnext] at hr
    obtain rfl := Outcome.done.inj hr
    exact ⟨next.value, (hp.parse_eq_done_iff_run position).mpr ⟨next, hnext, hrest, rfl⟩, rfl⟩
  · rintro ⟨value, hvalue, rfl⟩
    obtain ⟨next, hnext, hrest, rfl⟩ := (hp.parse_eq_done_iff_run position).mp hvalue
    exact ⟨next, _, hnext, hstop hnext, hrest, rfl⟩

/-- In front of a separator an item stops inside its segment, as it does alone. -/
theorem ClosedBy.exists_run (hclosed : p.ClosedBy t) {position : Nat}
    {segment tokens : List Token} {next : Match α}
    (h : p.run ⟨position, segment ++ t :: tokens⟩ = .done next) :
    ∃ alone, p.run ⟨position, segment⟩ = .done alone ∧ alone.Agrees (t :: tokens) next := by
  have hrun : (p.run ⟨position, segment⟩).Agrees (t :: tokens)
    (p.run ⟨position, segment ++ t :: tokens⟩) := hclosed tokens ⟨position, segment⟩
  rw [h] at hrun
  generalize p.run ⟨position, segment⟩ = o at hrun ⊢
  cases hrun with
  | done hnext => exact ⟨_, rfl, hnext⟩

/-- A segment is read alone exactly if in front of a separator it is read up to there. -/
theorem ClosedBy.parse_eq_done_iff_run (hclosed : p.ClosedBy t) (hp : p.Composed)
    (position : Nat) {segment : List Token} (tokens : List Token) {value : α} :
    p.parse segment = .done value ↔
      ∃ next, p.run ⟨position, segment ++ t :: tokens⟩ = .done next ∧
        next.cursor.rest = t :: tokens ∧ next.value = value := by
  rw [hp.parse_eq_done_iff_run position]
  constructor
  · rintro ⟨alone, halone, hrest, rfl⟩
    obtain ⟨next, hnext, hagrees⟩ := (hclosed tokens ⟨position, segment⟩).of_done halone
    refine ⟨next, hnext, ?_, hagrees.value⟩
    rw [hagrees.cursor, Cursor.rest_followedBy, hrest, List.nil_append]
  · rintro ⟨next, hnext, hrest, rfl⟩
    obtain ⟨alone, halone, hagrees⟩ := hclosed.exists_run hnext
    refine ⟨alone, halone, ?_, hagrees.value.symm⟩
    rw [hagrees.cursor, Cursor.rest_followedBy] at hrest
    exact List.append_left_eq_self.mp hrest

/-- An item that is followed by a separator ends there, and the rest is for the items after
the separator. -/
theorem readsAll_iff_of_append (hp : p.Composed) (hclosed : p.ClosedBy t)
    {segment : List Token} (ht : t ∉ segment) {tokens : List Token} {m : Match (List α)}
    {position : Nat} {values : List α} :
    p.ReadsAll t m ⟨position, segment ++ t :: tokens⟩ values ↔
      ∃ next, p.run ⟨position, segment ++ t :: tokens⟩ = .done next ∧
        next.cursor.rest = t :: tokens ∧
          p.ReadsAll t (m.push next) ⟨next.cursor.position + 1, tokens⟩ values := by
  constructor
  · rintro ⟨next, r, hnext, hr, hrest, hvalues⟩
    obtain ⟨alone, halone, hagrees⟩ := hclosed.exists_run hnext
    have hcursor : next.cursor.rest = alone.cursor.rest ++ t :: tokens :=
      congrArg Cursor.rest hagrees.cursor
    obtain ⟨passed, hpassed, _⟩ := (hp.bounded.done halone).leads
    have hsegment : segment = passed ++ alone.cursor.rest := hpassed
    cases hleft : alone.cursor.rest with
    | nil =>
      rw [hleft, List.nil_append] at hcursor
      obtain ⟨item, hitem, hr⟩ := (separatedFrom_eq_done_iff_of_separator hp hcursor hrest).mp hr
      exact ⟨next, hnext, hcursor, item, r, hitem, hr, hrest, hvalues⟩
    | cons token left =>
      -- The item stopped early, at a token that is no separator.
      have htoken : token ≠ t := by
        rintro rfl
        apply ht
        rw [hsegment, hleft]
        exact List.mem_append_right passed List.mem_cons_self
      have hhead : (m.push next).cursor.rest.head? ≠ some t := by
        show next.cursor.rest.head? ≠ some t
        rw [hcursor, hleft]
        exact fun h => htoken (Option.some.inj h)
      rw [separatedFrom_of_head?_ne hhead] at hr
      obtain rfl := Outcome.done.inj hr
      have hnil : next.cursor.rest = [] := hrest
      simp [hcursor] at hnil
  · rintro ⟨next, hnext, hrest, item, r, hitem, hr, hend, hvalues⟩
    refine ⟨next, r, hnext, ?_, hend, hvalues⟩
    exact (separatedFrom_eq_done_iff_of_separator hp hrest hend).mpr ⟨item, hitem, hr⟩

/-- The invariant of the repetition: what it reads from some place on are the values of the
segments from there on. -/
theorem readsAll_iff (hp : p.Composed) (hclosed : p.ClosedBy t) (tokens : List Token)
    (m : Match (List α)) (position : Nat) (values : List α) :
    p.ReadsAll t m ⟨position, tokens⟩ values ↔
      ∃ more, values = m.value ++ more ∧
        List.Forall₂ (fun segment value => p.parse segment = .done value)
          (tokens.splitOn t) more := by
  by_cases ht : t ∈ tokens
  · obtain ⟨segment, rest, rfl, hsegment⟩ := List.eq_append_cons_of_mem ht
    rw [readsAll_iff_of_append hp hclosed hsegment,
      List.splitOn_append_cons_self_of_not_mem hsegment]
    constructor
    · rintro ⟨next, hnext, hrest, hreads⟩
      obtain ⟨more, rfl, hmore⟩ := (readsAll_iff hp hclosed rest _ _ _).mp hreads
      refine ⟨next.value :: more, List.append_assoc .., .cons ?_ hmore⟩
      exact (hclosed.parse_eq_done_iff_run hp position rest).mpr ⟨next, hnext, hrest, rfl⟩
    · rintro ⟨_, rfl, hmore⟩
      cases hmore with
      | @cons _ value _ more hvalue hmore =>
        obtain ⟨next, hnext, hrest, rfl⟩ :=
          (hclosed.parse_eq_done_iff_run hp position rest).mp hvalue
        refine ⟨next, hnext, hrest, (readsAll_iff hp hclosed rest _ _ _).mpr ⟨more, ?_, hmore⟩⟩
        exact (List.append_assoc m.value [next.value] more).symm
  · rw [readsAll_iff_of_not_mem hp ht, List.splitOn_eq_singleton ht]
    constructor
    · rintro ⟨value, hvalue, rfl⟩
      exact ⟨[value], rfl, .cons hvalue .nil⟩
    · rintro ⟨_, rfl, hmore⟩
      cases hmore with
      | @cons _ value _ more hvalue hmore =>
        cases hmore
        exact ⟨value, hvalue, rfl⟩
termination_by tokens.length

theorem separated_parse_iff_readsAll {tokens : List Token} {values : List α} :
    (separated 1 p (literal t ())).parse tokens = .done values ↔
      p.ReadsAll t ⟨[], .start tokens, none⟩ (.start tokens) values := by
  rw [Parser.parse_eq_done_iff]
  constructor
  · rintro ⟨m, hm, hrest, rfl⟩
    obtain ⟨first, r, hfirst, hr, rfl⟩ := separated_run_eq_done_iff.mp hm
    exact ⟨first, r, hfirst, hr, hrest, rfl⟩
  · rintro ⟨first, r, hfirst, hr, hrest, rfl⟩
    exact ⟨_, separated_run_eq_done_iff.mpr ⟨first, r, hfirst, hr, rfl⟩, hrest, rfl⟩

/-- Items closed by their separator read a token list together exactly if each of them
reads its segment. -/
theorem separated_parse_eq_done_iff (hp : p.Composed) (hclosed : p.ClosedBy t)
    {tokens : List Token} {values : List α} :
    (separated 1 p (literal t ())).parse tokens = .done values ↔
      List.Forall₂ (fun segment value => p.parse segment = .done value)
        (tokens.splitOn t) values := by
  have hreads := readsAll_iff hp hclosed tokens ⟨[], .start tokens, none⟩ 0 values
  simp only [List.nil_append, exists_eq_left'] at hreads
  rw [separated_parse_iff_readsAll]
  exact hreads

end Parser

open SimControl.Parser

variable {fs : FileSystem}

/-! ## Operands -/

/-- What stands at a path is refused unless it is what is asked for. -/
theorem Operand.existing_error {accepts : Path → Bool} (objection : Path → Objection) {path : Path}
    (h : ¬ accepts path) : ∃ problem, existing fs accepts objection path = .error problem := by
  rw [existing]
  by_cases hpresent : fs.isPresent path
  · rw [if_pos hpresent, if_neg h]
    exact ⟨_, rfl⟩
  · rw [if_neg hpresent]
    exact ⟨_, rfl⟩

/-- The separator does not end like the name of a bundle. -/
theorem Application.ofPath_separator : ∃ problem, ofPath fs separatorToken = .error problem := by
  have hbundle : ¬ isBundle fs separatorToken := by
    rw [isBundle, Bool.and_eq_true]
    rintro ⟨_, hextension⟩
    exact absurd hextension (by decide)
  obtain ⟨problem, hproblem⟩ := Operand.existing_error .notAnApplication hbundle
  refine ⟨problem, ?_⟩
  rw [ofPath, hproblem]
  rfl

namespace Operand

theorem closedBy_directory (h : fs.kind? separatorToken ≠ some .directory) :
    (directory fs).ClosedBy separatorToken :=
  closedBy_single (existing_error _ fun hdirectory => h (eq_of_beq hdirectory))

theorem closedBy_file (h : fs.kind? separatorToken ≠ some .file) :
    (file fs).ClosedBy separatorToken :=
  closedBy_single (existing_error _ fun hfile => h (eq_of_beq hfile))

theorem closedBy_bundleId : (bundleId fs).ClosedBy separatorToken := by
  refine closedBy_single ⟨.objection (.undotted separatorToken), ?_⟩
  have hrefused : ∃ problem, Application.ofPath fs separatorToken = .error problem :=
    Application.ofPath_separator
  obtain ⟨problem, hproblem⟩ := hrefused
  rw [hproblem]
  exact if_neg (by decide)

theorem closedBy_word : word.ClosedBy separatorToken := closedBy_reading (if_pos rfl)

theorem closedBy_double : double.ClosedBy separatorToken := closedBy_reading (by decide)

theorem closedBy_integer : integer.ClosedBy separatorToken := closedBy_reading (by decide)

theorem closedBy_arguments : arguments.ClosedBy separatorToken := closedBy_upTo () _ _

end Operand

/-! ## Operands of actions -/

theorem ApplicationLaunch.closedBy_separator :
    (ApplicationLaunch.parser fs).ClosedBy separatorToken :=
  ((closedBy_triple (closedBy_flagSet 0 (by decide)) Operand.closedBy_bundleId
    Operand.closedBy_arguments).map _).described _

theorem AgentLaunch.closedBy_separator (h : fs.kind? separatorToken ≠ some .file) :
    (AgentLaunch.parser fs).ClosedBy separatorToken :=
  ((closedBy_triple (closedBy_flagSet 0 (by decide)) ((Operand.closedBy_file h).described _)
    Operand.closedBy_arguments).map _).described _

theorem TestLaunch.closedBy_separator (h : fs.kind? separatorToken ≠ some .directory) :
    (TestLaunch.parser fs).ClosedBy separatorToken :=
  ((closedBy_triple (Operand.closedBy_double.keyword (by decide)).optional
    (Operand.closedBy_directory h) ApplicationLaunch.closedBy_separator).map _).described _

theorem BootConfiguration.closedBy_separator :
    BootConfiguration.parser.ClosedBy separatorToken := by
  have hlocale : Locale.parser.ClosedBy separatorToken := closedBy_reading (by decide)
  have hscale : Scale.parser.ClosedBy separatorToken := closedBy_oneSpelled (by decide)
  have hoptions : BootOption.setParser.ClosedBy separatorToken := closedBy_flagSet 1 (by decide)
  exact ((closedBy_triple (hlocale.keyword (by decide)).optional hscale.optional
    hoptions.optional).refine _).described _

theorem CreationSpecification.closedBy_separator (h : fs.kind? separatorToken ≠ some .directory) :
    (CreationSpecification.parser fs).ClosedBy separatorToken := by
  have hmodel : TargetQuery.deviceParser.ClosedBy separatorToken := closedBy_reading (by decide)
  have hos : TargetQuery.osVersionParser.ClosedBy separatorToken := closedBy_reading (by decide)
  refine closedBy_oneOf fun p hp => ?_
  simp only [List.mem_cons, List.not_mem_nil, or_false] at hp
  rcases hp with rfl | rfl
  · exact closedBy_literal _ (by decide)
  · refine (closedBy_gather 0 (fun q hq => ?_) (fun q hq => ?_)).map _
    · cases hq using IndividualCreation.property_cases with
      | model => exact hmodel.map _
      | os => exact hos.map _
      | auxDirectory => exact ((Operand.closedBy_directory h).keyword (by decide)).map _
    · cases hq using IndividualCreation.property_cases with
      | model | os => exact (needsToken_single _ _).map _
      | auxDirectory => exact (needsToken_keyword _ _).map _

theorem DiagnosticQuery.closedBy_separator :
    (DiagnosticQuery.parser fs).ClosedBy separatorToken := by
  have hinstant : Instant.parser.ClosedBy separatorToken := closedBy_reading (by decide)
  have hprocesses : CrashedProcess.setParser.ClosedBy separatorToken :=
    closedBy_flagSet 1 (by decide)
  refine (closedBy_oneOf fun p hp => ?_).described _
  simp only [List.mem_cons, List.not_mem_nil, or_false] at hp
  rcases hp with rfl | rfl | rfl
  · exact (Operand.closedBy_bundleId.pair (closedBy_atLeast 1 Operand.closedBy_word)).map _
  · exact (closedBy_atLeast 1 (Operand.closedBy_word.keyword (by decide))).map _
  · exact ((hinstant.keyword (by decide)).pair hprocesses).map _

theorem ListenInterface.closedBy_separator : ListenInterface.parser.ClosedBy separatorToken := by
  have hport : ListenInterface.portParser.ClosedBy separatorToken :=
    Operand.closedBy_integer.refine _
  refine (closedBy_gather 0 (fun p hp => ?_) (fun p hp => ?_)).map _
  · cases hp using ListenInterface.source_cases with
    | stdin => exact closedBy_literal _ (by decide)
    | socket | http => exact (hport.keyword (by decide)).map _
  · cases hp using ListenInterface.source_cases with
    | stdin => exact needsToken_single _ _
    | socket | http => exact (needsToken_keyword _ _).map _

/-! ## Actions -/

theorem Verb.separator_ne_word (verb : Verb) : separatorToken ≠ verb.word :=
  (by decide : ∀ verb : Verb, separatorToken ≠ verb.word) verb

namespace Action

/-- The kind of entry that the separator has to name, to be taken for a path among the operands
of an action.  A bundle to install is a directory, but its name is no separator. -/
def operandKind? : Action → Option EntryKind
  | create _ | launchTest _ => some .directory
  | install .. | launchAgent _ | upload _ => some .file
  | _ => none

end Action

/-- The paths among the operands of `arm` are of `kind`, if it has any, and the arm is closed by
the separator unless that names such an entry. -/
structure Arm.TakesPaths (fs : FileSystem) (arm : Arm) (kind : Option EntryKind) : Prop where
  operandKind : arm.parser.Ensures fun action => action.operandKind? = kind
  closedBy : (∀ k ∈ kind, fs.kind? separatorToken ≠ some k) → arm.parser.ClosedBy separatorToken

namespace Arm.TakesPaths

theorem bare (verb : Verb) (action : Action) :
    (Arm.bare verb action).TakesPaths fs action.operandKind? where
  operandKind := ensures_literal rfl
  closedBy _ := closedBy_literal action verb.separator_ne_word

variable {α : Type} {p : Parser α} {f : α → Action} {kind : Option EntryKind}

theorem operands (verb : Verb) (hf : ∀ a, (f a).operandKind? = kind)
    (hp : (∀ k ∈ kind, fs.kind? separatorToken ≠ some k) → p.ClosedBy separatorToken) :
    (Arm.operands verb (p.map f)).TakesPaths fs kind where
  operandKind := ((ensures_true p).map fun a _ => hf a).keyword _
  closedBy h := ((hp h).map f).keyword verb.separator_ne_word

/-- Operands that are closed by the separator whatever it names. -/
theorem of_closedBy (verb : Verb) (hf : ∀ a, (f a).operandKind? = none)
    (hp : p.ClosedBy separatorToken) : (Arm.operands verb (p.map f)).TakesPaths fs none :=
  operands verb hf fun _ => hp

end Arm.TakesPaths

namespace Action

theorem closedBy_diagnosis :
    ((DiagnosticFormat.parser.withDefault .current).pair
      ((DiagnosticQuery.parser fs).withDefault .all)).ClosedBy separatorToken := by
  have hformat : DiagnosticFormat.parser.ClosedBy separatorToken :=
    closedBy_oneSpelled (by decide)
  exact (hformat.withDefault _).pair (DiagnosticQuery.closedBy_separator.withDefault _)

/-- Each arm takes paths of one kind, or none. -/
theorem exists_takesPaths {arm : Arm} (harm : arm ∈ arms fs) : ∃ kind, arm.TakesPaths fs kind := by
  have hid : (Operand.bundleId fs).ClosedBy separatorToken := Operand.closedBy_bundleId
  have hlaunch : (ApplicationLaunch.parser fs).ClosedBy separatorToken :=
    ApplicationLaunch.closedBy_separator
  have hdouble := Operand.closedBy_double
  have hurl : Url.parser.ClosedBy separatorToken := closedBy_reading (by decide)
  have hrecording : Recording.parser.ClosedBy separatorToken := closedBy_oneSpelled (by decide)
  have hinstall (h : fs.kind? separatorToken ≠ some .file) :
      ((oneOf [(Application.parser fs).map Application.path, Operand.file fs]).pair
        ((literal "--codesign" true).withDefault false)).ClosedBy separatorToken := by
    refine (closedBy_oneOf fun p hp => ?_).pair ((closedBy_literal _ (by decide)).withDefault _)
    simp only [List.mem_cons, List.not_mem_nil, or_false] at hp
    rcases hp with rfl | rfl
    · exact (closedBy_single Application.ofPath_separator).map _
    · exact Operand.closedBy_file h
  cases harm using arm_cases with
  | approve => exact ⟨_, .of_closedBy _ (fun _ => rfl) (closedBy_atLeast 1 hid)⟩
  | boot => exact ⟨_, .of_closedBy _ (fun _ => rfl) BootConfiguration.closedBy_separator.optional⟩
  | clearKeychain | terminate | uninstall => exact ⟨_, .of_closedBy _ (fun _ => rfl) hid⟩
  | create =>
    exact ⟨some .directory, .operands _ (fun _ => rfl) fun h =>
      CreationSpecification.closedBy_separator (h _ rfl)⟩
  | delete | erase | list | listApps | shutdown => exact ⟨_, .bare ..⟩
  | diagnose => exact ⟨_, .of_closedBy _ (fun _ => rfl) closedBy_diagnosis⟩
  | install => exact ⟨some .file, .operands _ (fun _ => rfl) fun h => hinstall (h _ rfl)⟩
  | launchAgent =>
    exact ⟨some .file, .operands _ (fun _ => rfl) fun h =>
      AgentLaunch.closedBy_separator (h _ rfl)⟩
  | launchApplication | relaunch => exact ⟨_, .of_closedBy _ (fun _ => rfl) hlaunch⟩
  | launchTest =>
    exact ⟨some .directory, .operands _ (fun _ => rfl) fun h =>
      TestLaunch.closedBy_separator (h _ rfl)⟩
  | listen => exact ⟨_, .of_closedBy _ (fun _ => rfl) ListenInterface.closedBy_separator⟩
  | openUrl => exact ⟨_, .of_closedBy _ (fun _ => rfl) hurl⟩
  | record => exact ⟨_, .of_closedBy _ (fun _ => rfl) hrecording⟩
  | tap => exact ⟨_, .of_closedBy _ (fun _ => rfl) (hdouble.pair hdouble)⟩
  | upload =>
    exact ⟨some .file, .operands _ (fun _ => rfl) fun h =>
      closedBy_atLeast 1 (Operand.closedBy_file (h _ rfl))⟩
  | watchdogOverride =>
    exact ⟨_, .of_closedBy _ (fun _ => rfl) (hdouble.pair (closedBy_atLeast 1 hid))⟩

/-- Every action does the same in front of a separator as at the end of the tokens. -/
theorem closedBy_separator (h : fs.kind? separatorToken = none) :
    (Action.parser fs).ClosedBy separatorToken := by
  refine (closedBy_oneOf fun p hp => ?_).described _
  obtain ⟨arm, harm, rfl⟩ := List.mem_map.mp hp
  obtain ⟨kind, harm⟩ := exists_takesPaths harm
  refine harm.closedBy fun k _ => ?_
  rw [h]
  exact fun hk => nomatch hk

/-- A list of actions is read exactly if the segments between separators are read, each as
one action, and the actions come in the order of their segments. -/
theorem listParser_parse_eq_done_iff (h : fs.kind? separatorToken = none) (tokens : List Token)
    (actions : List Action) :
    (tokens.splitOn separatorToken).length = tokens.count separatorToken + 1 ∧
      ((listParser fs).parse tokens = .done actions ↔
        List.Forall₂ (fun segment action => (Action.parser fs).parse segment = .done action)
          (tokens.splitOn separatorToken) actions) :=
  ⟨length_splitOn _ _,
    separated_parse_eq_done_iff (parser_composed fs) (closedBy_separator h)⟩

theorem listParser_parse_two_segments :
    FileTree.empty.view.kind? separatorToken = none ∧
      (listParser FileTree.empty.view).parse ["list", separatorToken, "erase"] =
        .done [list, erase] := by
  have h : FileTree.empty.view.kind? separatorToken = none := by decide
  have hlist : (Action.parser FileTree.empty.view).parse ["list"] = .done list := by rfl
  have herase : (Action.parser FileTree.empty.view).parse ["erase"] = .done erase := by rfl
  refine ⟨h, (listParser_parse_eq_done_iff h _ _).2.mpr ?_⟩
  exact .cons hlist (.cons herase .nil)

end Action
end SimControl
