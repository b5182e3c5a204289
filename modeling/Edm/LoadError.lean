import Edm.Graph
import Edm.Json.Display

/-!
# Errors of loading

Why a description does not give a program.  Most say which part of it is at fault; the others are about
paths, names and numbers that cannot serve as such.
-/

namespace Edm

/-- Why a description cannot be loaded. -/
inductive LoadError
  | pathUnusable
  | fileMissing (path : Text)
  | fileUnreadable (path reason : Text)
  | fileMalformed (path reason : Text)
  | notAnObject
  | missing (key site : Text)
  | notAList (key site : Text)
  | memberValue (site : Text)
  | routeNotText (site : Text)
  | baseNotModel (site tag : Text)
  | invalidReference (value : Json) (site : Text)
  | unknownType (reference site : Text)
  | optionsNotList (site : Text)
  | argumentsNotList (site : Text)
  | invalidDecorator (value : Json) (site : Text)
  | longInteger
  | declaration (e : DeclareError)
  | namespaceNotText
deriving DecidableEq, Repr

namespace LoadError

/-- The wording of an error; some have none. -/
def message : LoadError → Option Text
  | pathUnusable => none
  | fileMissing path => some ("File not found: " ++ path)
  | fileUnreadable path reason => some ("Cannot read " ++ path ++ ": " ++ reason)
  | fileMalformed path reason => some ("Invalid JSON in " ++ path ++ ": " ++ reason)
  | notAnObject => some "Type graph description must be a JSON object"
  | missing key site => some ("Missing '" ++ key ++ "' in " ++ site)
  | notAList key site => some ("'" ++ key ++ "' must be a list in " ++ site)
  | memberValue site => some ("Enum member value must be a string or number in " ++ site)
  | routeNotText site => some ("Route of " ++ site ++ " must be a string")
  | baseNotModel site tag => some ("Base of " ++ site ++ " must be a model, got " ++ tag)
  | invalidReference value site => some ("Invalid type reference " ++ value.quoted ++ " in " ++ site)
  | unknownType reference site => some ("Unknown type '" ++ reference ++ "' referenced from " ++ site)
  | optionsNotList site => some ("Union options must be a list in " ++ site)
  | argumentsNotList site => some ("Decorator args must be a list in " ++ site)
  | invalidDecorator value site => some ("Invalid decorator " ++ value.quoted ++ " in " ++ site)
  | longInteger => none
  | declaration e => e.message
  | namespaceNotText => none

/-- Whether an error says what is wrong with a description, in distinction to a path, a name or a number that
could not be used. -/
def isAboutDescription : LoadError → Bool
  | pathUnusable => false
  | longInteger => false
  | declaration _ => false
  | namespaceNotText => false
  | _ => true

end LoadError

end Edm
