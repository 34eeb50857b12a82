/-
Runs from the middle of a token list.

A cursor that has been advanced knows how many tokens it has passed, and nothing else tells it
from a cursor at the start of the tokens that are left.  The main statement,
`run_advanced`, is that no parser makes anything of this number but to count its places from
it: the run from the advanced cursor is the run over the tokens that are left, with every place
that it names moved on by the tokens passed.

It holds of the composed parsers, since they are alike to themselves at every distance, and of
the rules of the command language, since these are composed.  `Rule` lists them.
-/
import SimControl.FileSystem.Tree
import SimControl.Proofs.Alike

namespace SimControl

/-! ## Advanced cursors -/

namespace Cursor

/-- The cursor after `k` steps, if there is a token for each of them. -/
def advanced : Nat → Cursor → Option Cursor
  | 0, c => some c
  | k + 1, c => c.advance.bind (advanced k)

theorem advanced_eq_some {k : Nat} {c : Cursor} (h : k ≤ c.rest.length) :
    c.advanced k = some ⟨c.position + k, c.rest.drop k⟩ := by
  induction k generalizing c with
  | zero => rfl
  | succ k ih =>
    obtain ⟨position, rest⟩ := c
    cases rest with
    | nil => exact absurd h (Nat.not_succ_le_zero k)
    | cons token rest =>
      have hrest : k ≤ rest.length := Nat.le_of_succ_le_succ h
      show advanced k ⟨position + 1, rest⟩ = _
      rw [ih hrest]
      show some (⟨position + 1 + k, rest.drop k⟩ : Cursor) = some ⟨position + (k + 1), rest.drop k⟩
      rw [Nat.add_right_comm, Nat.add_assoc]

theorem advanced_start {tokens : List Token} {k : Nat} (h : k ≤ tokens.length) :
    (start tokens).advanced k = some ((start (tokens.drop k)).shift k) := advanced_eq_some h

end Cursor

/-! ## Outcomes further on -/

def Failure.shift (k : Nat) (f : Failure) : Failure := ⟨f.problem, f.offset + k⟩

def Match.shift {α : Type} (k : Nat) (m : Match α) : Match α :=
  ⟨m.value, m.cursor.shift k, m.recovered.map (Failure.shift k)⟩

/-- The outcome with every place that it names `k` tokens further on. -/
def Outcome.shift {α : Type} (k : Nat) : Outcome (Match α) → Outcome (Match α)
  | .done m => .done (m.shift k)
  | .failed f => .failed (f.shift k)
  | .endless => .endless

theorem Failure.Alike.eq_shift {k : Nat} {f g : Failure} (h : f.Alike True k g) :
    g = f.shift k := by
  obtain ⟨problem, offset⟩ := g
  obtain rfl : offset = f.offset + k := h.offset
  obtain rfl : problem = f.problem := h.problem trivial
  rfl

theorem Match.Alike.eq_shift {α : Type} {k : Nat} {m n : Match α} (h : m.Alike True k n) :
    n = m.shift k := by
  have hrecovered : n.recovered = m.recovered.map (Failure.shift k) := by
    have hr := h.recovered
    generalize m.recovered = a, n.recovered = b at hr
    cases hr with
    | none => rfl
    | some hf => exact congrArg some hf.eq_shift
  obtain ⟨value, cursor, recovered⟩ := n
  obtain rfl : value = m.value := h.value
  obtain rfl : cursor = m.cursor.shift k := h.cursor
  exact congrArg (Match.mk m.value (m.cursor.shift k)) hrecovered

theorem Outcome.Alike.eq_shift {α : Type} {k : Nat} {o o' : Outcome (Match α)}
    (h : o.Alike True k (Match.Alike True k) o') : o' = o.shift k := by
  cases h with
  | done hm => exact congrArg Outcome.done hm.eq_shift
  | failed hf => exact congrArg Outcome.failed hf.eq_shift
  | endless => rfl

/-! ## The rules of the command language -/

inductive Rule (fs : FileSystem) : {α : Type} → Parser α → Prop
  | integer : Rule fs Operand.integer
  | double : Rule fs Operand.double
  | any : Rule fs Operand.any
  | word : Rule fs Operand.word
  | separator : Rule fs Operand.separator
  | udid : Rule fs Udid.parser
  | url : Rule fs Url.parser
  | locale : Rule fs Locale.parser
  | instant : Rule fs Instant.parser
  | directory : Rule fs (Operand.directory fs)
  | file : Rule fs (Operand.file fs)
  | binary : Rule fs (Operand.binary fs)
  | application : Rule fs (Application.parser fs)
  | bundleId : Rule fs (Operand.bundleId fs)
  | state : Rule fs TargetQuery.stateParser
  | targetType : Rule fs TargetQuery.typeParser
  | osVersion : Rule fs TargetQuery.osVersionParser
  | device : Rule fs TargetQuery.deviceParser
  | first : Rule fs TargetQuery.firstParser
  | query : Rule fs TargetQuery.parser
  | format : Rule fs TargetFormat.parser
  | outputOptions : Rule fs OutputOption.setParser
  | managementOptions : Rule fs ManagementOption.setParser
  | configuration : Rule fs (Configuration.parser fs)
  | launchOptions : Rule fs LaunchOption.setParser
  | arguments : Rule fs Operand.arguments
  | applicationLaunch : Rule fs (ApplicationLaunch.parser fs)
  | agentLaunch : Rule fs (AgentLaunch.parser fs)
  | testLaunch : Rule fs (TestLaunch.parser fs)
  | scale : Rule fs Scale.parser
  | bootOptions : Rule fs BootOption.setParser
  | bootConfiguration : Rule fs BootConfiguration.parser
  | creation : Rule fs (CreationSpecification.parser fs)
  | diagnosticFormat : Rule fs DiagnosticFormat.parser
  | crashedProcesses : Rule fs CrashedProcess.setParser
  | diagnosticQuery : Rule fs (DiagnosticQuery.parser fs)
  | port : Rule fs ListenInterface.portParser
  | listening : Rule fs ListenInterface.parser
  | recording : Rule fs Recording.parser
  | action : Rule fs (Action.parser fs)
  | actions : Rule fs (Action.listParser fs)
  | command : Rule fs (Command.parser fs)
  | help : Rule fs HelpRequest.parser
  | invocation : Rule fs (Invocation.parser fs)

open SimControl.Parser

theorem Rule.composed {fs : FileSystem} {α : Type} {p : Parser α} (h : Rule fs p) :
    p.Composed := by
  cases h with
  | integer | double | any | word | udid | url | locale | instant => exact .reading ..
  | separator => exact .literal ..
  | directory | file | application => exact .single ..
  | binary => exact (Composed.single ..).described _
  | bundleId => exact Operand.composed_bundleId fs
  | state | scale | diagnosticFormat | recording => exact .oneSpelled _
  | targetType => exact .oneOf fun _ hp => .of_mem_flags hp
  | osVersion | device => exact .reading ..
  | first => exact ((Composed.reading ..).refine _).keyword _
  | query => exact TargetQuery.parser_composed
  | format => exact TargetFormat.parser_composed
  | outputOptions | managementOptions | launchOptions | bootOptions | crashedProcesses =>
    exact .flagSet ..
  | configuration => exact Configuration.parser_composed fs
  | arguments => exact Operand.composed_arguments
  | applicationLaunch => exact ApplicationLaunch.parser_composed fs
  | agentLaunch => exact AgentLaunch.parser_composed fs
  | testLaunch => exact TestLaunch.parser_composed fs
  | bootConfiguration => exact BootConfiguration.parser_composed
  | creation => exact CreationSpecification.parser_composed fs
  | diagnosticQuery => exact DiagnosticQuery.parser_composed fs
  | port => exact (Composed.reading ..).refine _
  | listening => exact ListenInterface.parser_composed
  | action => exact Action.parser_composed fs
  | actions => exact Action.composed_listParser fs
  | command => exact Command.parser_composed fs
  | help => exact HelpRequest.parser_composed
  | invocation => exact Invocation.parser_composed fs

/-! ## Runs from the middle -/

namespace Parser

/-- A composed parser and a rule of the command language read on from the middle of the tokens
as they read the tokens that are left, and count their places from there. -/
theorem run_advanced {fs : FileSystem} {α : Type} {p : Parser α} (hp : p.Composed ∨ Rule fs p)
    {tokens : List Token} {k : Nat} (hk : k ≤ tokens.length) :
    ∃ c, (Cursor.start tokens).advanced k = some c ∧
      p.run c = (p.run (.start (tokens.drop k))).shift k := by
  have hcomposed : p.Composed := hp.elim id Rule.composed
  refine ⟨_, Cursor.advanced_start hk, ?_⟩
  exact ((hcomposed.alike True).run k (.start (tokens.drop k))).eq_shift

/-- A list of actions behind two other tokens recovers from a failure at the end, which is
counted from the first token. -/
theorem run_advanced_actions :
    Rule FileTree.empty.view (Action.listParser FileTree.empty.view) ∧
      2 ≤ ["--json", "all", "list", "--"].length ∧
        (Action.listParser FileTree.empty.view).run ⟨2, ["list", "--"]⟩ =
          .done ⟨[.list], ⟨3, ["--"]⟩,
            some ⟨.uninterpretable "'approve'" none, 4⟩⟩ := by
  have hrule : Rule FileTree.empty.view (Action.listParser FileTree.empty.view) := .actions
  have hk : 2 ≤ ["--json", "all", "list", "--"].length := by decide
  obtain ⟨c, hc, hrun⟩ := run_advanced (.inr hrule) hk
  obtain rfl := Option.some.inj hc
  refine ⟨hrule, hk, hrun.trans ?_⟩
  decide +kernel

end Parser
end SimControl
