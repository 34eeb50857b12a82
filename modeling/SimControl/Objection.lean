/-
The reasons for which a token that could be read is still refused.

Every reason is a constructor that carries what its wording needs, and
`Objection.message` is the only place where the wording is spelled out.
-/

namespace SimControl

inductive Objection where
  /-- Nothing exists at the path. -/
  | missing (path : String)
  | notADirectory (path : String)
  | notAFile (path : String)
  | notAnApplication (path : String)
  /-- The bundle's property list gives no identifier. -/
  | unidentified (path : String)
  /-- Neither an application bundle nor text with a dot in it. -/
  | undotted (text : String)
  | negativeCount (count : Int)
  | notAPort (number : Int)
  /-- A boot configuration that would configure nothing. -/
  | emptyBoot
  /-- A repetition stopped short of its minimum without a failing attempt. -/
  | tooFew (description : String) (provided expected : Nat)
  /-- A reason stated by the grammar itself. -/
  | stated (message : String)
  deriving DecidableEq, Repr

namespace Objection

def message : Objection → String
  | missing path => "'" ++ path ++ "' should exist, but doesn't"
  | notADirectory path => "'" ++ path ++ "' should be a directory, but isn't"
  | notAFile path => "'" ++ path ++ "' should be a file, but isn't"
  | notAnApplication path => "'" ++ path ++ "' should be an application bundle, but isn't"
  | unidentified path => "'" ++ path ++ "' has no CFBundleIdentifier in its Info.plist"
  | undotted text => "Bundle ID must contain a '.', but '" ++ text ++ "' doesn't"
  | negativeCount count => "--first must be non-negative, but got " ++ toString count
  | notAPort number => toString number ++ " is not a valid port number"
  | emptyBoot => "Simulator Launch Configuration must contain at least a locale or scale"
  | tooFew description provided expected =>
      "too few values provided for '" ++ description ++ "' (provided=" ++ toString provided ++
        ", expected=" ++ toString expected ++ ")."
  | stated message => message

end Objection
end SimControl
