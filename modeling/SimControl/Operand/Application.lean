/-
Application bundles and their identifiers.

A bundle is a directory whose name ends in `.app`.  It is identified by its property
list, which is looked through as text: the identifier is the first string anywhere
after the key.
-/
import SimControl.FileSystem.Path
import SimControl.Operand.Path
import SimControl.Text.Blank

namespace SimControl

abbrev BundleId := String

structure Application where
  path : Path
  bundleId : BundleId
  deriving DecidableEq, Repr

namespace Application

/-- The identifier in the text of a property list. -/
def identifierIn? (text : List Char) : Option BundleId := do
  let (_, afterKey) ← Text.cutAt "<key>CFBundleIdentifier</key>".toList text
  let (_, value) ← Text.cutAt "<string>".toList afterKey
  let (identifier, _) ← Text.cutAt "</string>".toList value
  let identifier := Text.trim identifier
  if identifier = [] then none else some (String.ofList identifier)

variable (fs : FileSystem)

/-- The identifier of the bundle at `path`. -/
def identifier? (path : Path) : Option BundleId :=
  (fs.text? (Path.child path "Info.plist")).bind fun text => identifierIn? text.toList

def isBundle (path : Path) : Bool :=
  fs.isDirectory path && Path.extension? path == some "app"

def ofPath (path : Path) : Except Problem Application := do
  let path ← Operand.existing fs (isBundle fs) .notAnApplication path
  match identifier? fs path with
  | some identifier => .ok ⟨path, identifier⟩
  | none => .error (.objection (.unidentified path))

def parser : Parser Application := .single "An Application" (ofPath fs)

end Application

namespace Operand

/-- A bundle identifier, of an application bundle or given directly. -/
def bundleId (fs : FileSystem) : Parser BundleId :=
  .single "A Bundle ID" fun token =>
    match Application.ofPath fs token with
    | .ok application => .ok application.bundleId
    | .error _ =>
        if '.' ∈ token.toList then .ok token else .error (.objection (.undotted token))

end Operand
end SimControl
