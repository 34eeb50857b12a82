/-
Results of runs over token lists that begin alike.

A result is settled by the token at `k` if no place that it reports lies behind that token.
Over other tokens that are the same up to `k` it should come out as before, except that the
tokens that it lists as left over are those that are really there.
-/
import SimControl.Proofs.Extent

namespace SimControl

/-! ## Token lists that begin alike -/

/-- There is a token at `k`, and the two lists are the same up to that token. -/
structure SameUpTo (k : Nat) (tokens tokens' : List Token) : Prop where
  short : k < tokens.length
  take_eq : tokens'.take (k + 1) = tokens.take (k + 1)

namespace SameUpTo

variable {k n : Nat} {tokens tokens' : List Token}

theorem short' (h : SameUpTo k tokens tokens') : k < tokens'.length := by
  have hlength := congrArg List.length h.take_eq
  have hshort := h.short
  rw [List.length_take, List.length_take] at hlength
  omega

theorem getElem?_eq (h : SameUpTo k tokens tokens') (hn : n ≤ k) : tokens'[n]? = tokens[n]? := by
  have hget := congrArg (fun l => l[n]?) h.take_eq
  simpa only [List.getElem?_take_of_lt (Nat.lt_succ_of_le hn)] using hget

/-- Both lists go on with the same token. -/
theorem exists_token (h : SameUpTo k tokens tokens') (hn : n ≤ k) :
    ∃ token, tokens.drop n = token :: tokens.drop (n + 1) ∧
      tokens'.drop n = token :: tokens'.drop (n + 1) := by
  have hshort : n < tokens.length := Nat.lt_of_le_of_lt hn h.short
  have hshort' : n < tokens'.length := Nat.lt_of_le_of_lt hn h.short'
  have htoken : tokens'[n] = tokens[n] := by
    have hget := h.getElem?_eq hn
    rw [List.getElem?_eq_getElem hshort, List.getElem?_eq_getElem hshort'] at hget
    exact Option.some.inj hget
  refine ⟨tokens[n], List.drop_eq_getElem_cons hshort, ?_⟩
  rw [← htoken]
  exact List.drop_eq_getElem_cons hshort'

theorem head?_eq (h : SameUpTo k tokens tokens') (hn : n ≤ k) :
    (Cursor.ofIndex tokens' n).rest.head? = (Cursor.ofIndex tokens n).rest.head? := by
  obtain ⟨token, hrest, hrest'⟩ := h.exists_token hn
  show (tokens'.drop n).head? = (tokens.drop n).head?
  rw [hrest, hrest']
  rfl

theorem rest_ne_nil (h : SameUpTo k tokens tokens') (hn : n ≤ k) :
    (Cursor.ofIndex tokens n).rest ≠ [] ∧ (Cursor.ofIndex tokens' n).rest ≠ [] := by
  obtain ⟨token, hrest, hrest'⟩ := h.exists_token hn
  show tokens.drop n ≠ [] ∧ tokens'.drop n ≠ []
  rw [hrest, hrest']
  exact ⟨List.cons_ne_nil _ _, List.cons_ne_nil _ _⟩

end SameUpTo

/-! ## Results over other tokens -/

/-- The problem over other tokens: what is left over is what is left of them. -/
def Problem.onto (tokens : List Token) (offset : Nat) : Problem → Problem
  | .leftover _ => .leftover (tokens.drop offset)
  | problem => problem

namespace Failure

def onto (tokens : List Token) (f : Failure) : Failure :=
  ⟨f.problem.onto tokens f.offset, f.offset⟩

variable {tokens : List Token}

theorem onto_furthest (f g : Failure) :
    (f.furthest g).onto tokens = (f.onto tokens).furthest (g.onto tokens) := by
  unfold furthest
  by_cases h : f.offset < g.offset
  · have h' : (f.onto tokens).offset < (g.onto tokens).offset := h
    rw [if_pos h, if_pos h']
  · have h' : ¬ (f.onto tokens).offset < (g.onto tokens).offset := h
    rw [if_neg h, if_neg h']

theorem onto_orRecovered (f : Failure) (recovered : Option Failure) :
    (f.orRecovered recovered).onto tokens =
      (f.onto tokens).orRecovered (recovered.map (onto tokens)) := by
  cases recovered with
  | none => rfl
  | some g => exact onto_furthest f g

theorem onto_deepest (a b : Option Failure) :
    (deepest a b).map (onto tokens) = deepest (a.map (onto tokens)) (b.map (onto tokens)) := by
  cases a with
  | none => rfl
  | some f =>
    cases b with
    | none => rfl
    | some g => exact congrArg some (onto_furthest f g)

end Failure

namespace Match

variable {α β γ : Type} {tokens : List Token}

def onto (tokens : List Token) (m : Match α) : Match α :=
  ⟨m.value, .ofIndex tokens m.cursor.position, m.recovered.map (Failure.onto tokens)⟩

theorem onto_map (m : Match α) (f : α → β) : (m.map f).onto tokens = (m.onto tokens).map f := rfl

theorem onto_andThen (m : Match α) (n : Match β) (f : α → β → γ) :
    (m.andThen n f).onto tokens = (m.onto tokens).andThen (n.onto tokens) f := by
  simp only [onto, andThen, Failure.onto_deepest]

theorem onto_push (m : Match (List α)) (n : Match α) :
    (m.push n).onto tokens = (m.onto tokens).push (n.onto tokens) := onto_andThen m n _

theorem onto_recovering (m : Match α) (failure : Option Failure) :
    (m.recovering failure).onto tokens =
      (m.onto tokens).recovering (failure.map (Failure.onto tokens)) := by
  simp only [onto, recovering, Failure.onto_deepest]

/-- No place that the match reports lies behind the token at `k`. -/
structure SettledBy (k : Nat) (m : Match α) : Prop where
  position : m.cursor.position ≤ k
  recovered : ∀ f ∈ m.recovered, f.offset ≤ k

end Match

def Scan.onto {α : Type} (tokens : List Token) (s : Scan α) : Scan α :=
  ⟨s.found.onto tokens, s.count, s.missed.map (Failure.onto tokens)⟩

@[simp] theorem Scan.onto_found {α : Type} (tokens : List Token) (s : Scan α) :
    (s.onto tokens).found = s.found.onto tokens := rfl

namespace Outcome

variable {α : Type}

def onto (tokens : List Token) : Outcome (Match α) → Outcome (Match α)
  | .done m => .done (m.onto tokens)
  | .failed f => .failed (f.onto tokens)
  | .endless => .endless

/-- There is an answer, and no place that it reports lies behind the token at `k`. -/
def SettledBy (k : Nat) : Outcome (Match α) → Prop
  | .done m => m.SettledBy k
  | .failed f => f.offset ≤ k
  | .endless => False

end Outcome

/-! ### Settled by parts -/

namespace Failure

variable {k : Nat}

theorem offset_orRecovered_le_iff {f : Failure} {recovered : Option Failure} :
    (f.orRecovered recovered).offset ≤ k ↔ f.offset ≤ k ∧ ∀ g ∈ recovered, g.offset ≤ k := by
  cases recovered with
  | none => simp [orRecovered]
  | some g =>
    simp only [orRecovered, offset_furthest, Option.mem_some_iff, forall_eq']
    omega

theorem forall_mem_deepest_iff {a b : Option Failure} :
    (∀ f ∈ deepest a b, f.offset ≤ k) ↔ (∀ f ∈ a, f.offset ≤ k) ∧ ∀ f ∈ b, f.offset ≤ k := by
  cases a with
  | none => simp
  | some f =>
    cases b with
    | none => simp
    | some g =>
      simp only [deepest, Option.mem_some_iff, forall_eq', offset_furthest]
      omega

end Failure

theorem Outcome.SettledBy.start_le {α : Type} {k : Nat} {c : Cursor} {o : Outcome (Match α)}
    (hs : o.SettledBy k) (ho : o.Inside c) : c.position ≤ k := by
  cases o with
  | done m => exact Nat.le_trans ho.leads.position_le hs.position
  | failed f => exact Nat.le_trans ho.1 hs
  | endless => cases hs

/-- The problem does not list tokens that are left over. -/
def Problem.Local (problem : Problem) : Prop := ∀ tokens, problem ≠ .leftover tokens

theorem Problem.local_uninterpretable (expected : String) (actual : Option Token) :
    (Problem.uninterpretable expected actual).Local := fun _ => nofun

theorem Problem.local_objection (reason : Objection) : (Problem.objection reason).Local :=
  fun _ => nofun

/-- The token could not be interpreted, or was and is refused. -/
inductive Problem.Concerns (token : Token) : Problem → Prop
  | uninterpretable (expected : String) : Concerns token (.uninterpretable expected (some token))
  | objection (reason : Objection) : Concerns token (.objection reason)

theorem Problem.Concerns.local {token : Token} {problem : Problem} (h : problem.Concerns token) :
    problem.Local := by
  cases h with
  | uninterpretable expected => exact Problem.local_uninterpretable _ _
  | objection reason => exact Problem.local_objection reason

theorem Failure.onto_eq_self {f : Failure} (h : f.problem.Local) (tokens : List Token) :
    f.onto tokens = f := by
  obtain ⟨problem, offset⟩ := f
  cases problem with
  | leftover tokens => exact absurd rfl (h tokens)
  | uninterpretable | objection => rfl

end SimControl
