/-
Help in two columns: a usage on the left, and what it is for on the right.
-/
import SimControl.Help.Wrap

namespace SimControl
namespace Help

/-- The blank columns before the left text. -/
def indent : Nat := 1

/-- The blank columns between the two texts. -/
def gap : Nat := 3

def spaces (n : Nat) : String := String.ofList (List.replicate n ' ')

/-- The text with spaces after it, up to `width` characters. -/
def padRight (width : Nat) (text : String) : String := text ++ spaces (width - text.length)

/-- The lines of a row whose right text is wrapped into `lines`: the left text stands
beside the first of them, or alone. -/
def layOut (leftWidth : Nat) (left : String) : List (List Char) → List String
  | [] => [spaces indent ++ left]
  | line :: lines =>
      (spaces indent ++ padRight leftWidth left ++ spaces gap ++ String.ofList line) ::
        lines.map fun line =>
          spaces indent ++ padRight leftWidth "" ++ spaces gap ++ String.ofList line

/-- The lines of any two texts side by side. -/
def render (leftWidth rightWidth : Nat) (left right : String) :
    Except WrapError (List String) :=
  (wrap rightWidth right.toList).map (layOut leftWidth left)

/-- A row of the help page. -/
structure Row where
  usage : String
  purpose : String
  /-- The purpose can be wrapped at any width. -/
  plain : isPlain purpose.toList = true := by decide +kernel

/-- The lines of a row. -/
def Row.lines (row : Row) (leftWidth rightWidth : Nat) (hwidth : 2 ≤ rightWidth) : List String :=
  match h : render leftWidth rightWidth row.usage row.purpose with
  | .ok lines => lines
  | .error _ => absurd h (by
      obtain ⟨lines, hok⟩ := wrap_isOk_of_isPlain hwidth row.plain
      simp [render, hok, Except.map])

end Help
end SimControl
