/-
Where further actions are accepted from.
-/
import SimControl.Operand.Word
import SimControl.Parser.Gather
import SimControl.Parser.Sequence

namespace SimControl

structure ListenInterface where
  stdin : Bool := false
  /-- The port of a plain socket. -/
  socket : Option UInt16 := none
  /-- The port of a web server. -/
  http : Option UInt16 := none
  deriving DecidableEq, Repr

namespace ListenInterface

instance : Accumulator ListenInterface where
  identity := {}
  append a b :=
    { stdin := Accumulator.append a.stdin b.stdin
      socket := Accumulator.append a.socket b.socket
      http := Accumulator.append a.http b.http }

instance : LawfulAccumulator ListenInterface where
  append_assoc a b c := by
    simp only [Accumulator.append, mk.injEq]
    exact ⟨LawfulAccumulator.append_assoc a.stdin b.stdin c.stdin,
      LawfulAccumulator.append_assoc a.socket b.socket c.socket,
      LawfulAccumulator.append_assoc a.http b.http c.http⟩
  append_identity a := by
    obtain ⟨stdin, socket, http⟩ := a
    simp only [Accumulator.append, mk.injEq]
    exact ⟨LawfulAccumulator.append_identity stdin, LawfulAccumulator.append_identity socket,
      LawfulAccumulator.append_identity http⟩
  identity_append a := by
    obtain ⟨stdin, socket, http⟩ := a
    simp only [Accumulator.append, mk.injEq]
    exact ⟨LawfulAccumulator.identity_append stdin, LawfulAccumulator.identity_append socket,
      LawfulAccumulator.identity_append http⟩

/-- Whether nothing is listened to. -/
def isEmpty (i : ListenInterface) : Bool := decide (i = {})

/-- Standard input, where nothing else was asked for. -/
def orStdin (i : ListenInterface) : ListenInterface := if i.isEmpty then { stdin := true } else i

def portParser : Parser UInt16 :=
  Operand.integer.refine fun n =>
    if 0 ≤ n ∧ n < 65536 then .ok (UInt16.ofNat n.toNat) else .error (.objection (.notAPort n))

/-- The sources, each as an interface of its own. -/
def sources : List (Parser ListenInterface) :=
  [ .literal "--stdin" { stdin := true },
    (Parser.keyword "--socket" portParser).map fun port => { socket := some port },
    (Parser.keyword "--http" portParser).map fun port => { http := some port } ]

/-- A source is one of those listed, each by the name of its field. -/
@[elab_as_elim]
theorem source_cases {motive : (p : Parser ListenInterface) → p ∈ sources → Prop}
    (stdin : ∀ h, motive (.literal "--stdin" { stdin := true }) h)
    (socket : ∀ h, motive
      ((Parser.keyword "--socket" portParser).map fun port => { socket := some port }) h)
    (http : ∀ h, motive
      ((Parser.keyword "--http" portParser).map fun port => { http := some port }) h)
    {p : Parser ListenInterface} (hp : p ∈ sources) : motive p hp := by
  have hcases := hp
  simp only [sources, List.mem_cons, List.not_mem_nil, or_false] at hcases
  rcases hcases with rfl | rfl | rfl
  · exact stdin _
  · exact socket _
  · exact http _

def parser : Parser ListenInterface := (Parser.gather 0 sources).map orStdin

end ListenInterface
end SimControl
