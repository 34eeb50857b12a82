/-
Positions in a list of command-line tokens.

A cursor holds how many tokens lie behind it and the tokens still ahead.  The
tokens behind it are gone: a parser started at a cursor can depend on what is
ahead and on the count, and on nothing else.
-/

namespace SimControl

/-- One word of a command line, as the shell delivers it. -/
abbrev Token := String

/-- A place in a token list. -/
structure Cursor where
  /-- The number of tokens already passed. -/
  position : Nat
  /-- The tokens ahead, the next one first. -/
  rest : List Token
  deriving DecidableEq, Repr

namespace Cursor

/-- The cursor before the first of `tokens`. -/
def start (tokens : List Token) : Cursor := ⟨0, tokens⟩

/-- The next token, which stays ahead. -/
def peek (c : Cursor) : Option Token := c.rest.head?

def isAtEnd (c : Cursor) : Bool := c.rest.isEmpty

/-- The number of tokens in the whole list. -/
def sourceLength (c : Cursor) : Nat := c.position + c.rest.length

/-- The cursor one token on, if a token is left. -/
def advance (c : Cursor) : Option Cursor :=
  match c.rest with
  | [] => none
  | _ :: rest => some ⟨c.position + 1, rest⟩

/-- The cursor `n` tokens on, or at the end if fewer are left. -/
def skip : Nat → Cursor → Cursor
  | 0, c => c
  | n + 1, c =>
      match c.rest with
      | [] => c
      | _ :: rest => skip n ⟨c.position + 1, rest⟩

theorem peek_start (tokens : List Token) : (start tokens).peek = tokens.head? := rfl

theorem sourceLength_start (tokens : List Token) :
    (start tokens).sourceLength = tokens.length := by
  simp [start, sourceLength]

/-- Moving on changes what is ahead and not the list that is read. -/
theorem sourceLength_skip (n : Nat) (c : Cursor) :
    (c.skip n).sourceLength = c.sourceLength := by
  induction n generalizing c with
  | zero => rfl
  | succ n ih =>
    obtain ⟨position, rest⟩ := c
    cases rest with
    | nil => rfl
    | cons t rest =>
      rw [skip, ih]
      simp only [sourceLength, List.length_cons]
      omega

/-- What is ahead after `n` steps is the list without its first `n` tokens. -/
theorem rest_skip (n : Nat) (c : Cursor) : (c.skip n).rest = c.rest.drop n := by
  induction n generalizing c with
  | zero => rfl
  | succ n ih =>
    obtain ⟨position, rest⟩ := c
    cases rest with
    | nil => rfl
    | cons t rest => rw [skip, ih]; rfl

end Cursor
end SimControl
