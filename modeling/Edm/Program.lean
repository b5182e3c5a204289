import Edm.Annotation.Standard
import Edm.Diagnostic
import Edm.Graph

/-!
# Programs and decorators

A program is a type graph with its annotations and the diagnostics of its declarations.  A decorator binds
one annotation; one that is rejected leaves a diagnostic and changes nothing else.
-/

namespace Edm

/-- A type graph, its annotations, and what was reported about its declarations. -/
structure Program where
  graph : Graph := {}
  store : AnnotationStore := {}
  diagnostics : List Diagnostic := []
deriving Inhabited

/-- The decorators. -/
inductive Decorator
  | id
  | openModel
  | contains
  | references
deriving DecidableEq, Repr

namespace Decorator

/-- The decorators by name. -/
def named : List (Text × Decorator) :=
  [("id", id), ("openModel", openModel), ("contains", contains), ("references", references)]

/-- The decorator with a name. -/
def ofName? (name : Text) : Option Decorator := (named.find? fun d => d.1 == name).map Prod.snd

/-- How many arguments a decorator takes at most. -/
def mostArguments : Decorator → Nat
  | id => 1
  | _ => 0

end Decorator

namespace AnnotationError

/-- The code under which a rejection is reported. -/
def code : AnnotationError → DiagnosticCode
  | target _ _ => .invalidAnnotationTarget
  | value _ _ => .invalidAnnotationValue

end AnnotationError

namespace Program

/-- Records a diagnostic. -/
def report (p : Program) (d : Diagnostic) : Program := { p with diagnostics := p.diagnostics ++ [d] }

/-- Rejects a declaration at a site. -/
def reject (p : Program) (site : Label) (code : DiagnosticCode) (message : Text) : Bool × Program :=
  (false, p.report { code, message := .text message, site })

/-- Binds an annotation for a declaration at a site. -/
def bind (p : Program) (site : Label) (kind : AnnotationKind) (target : Node) (value : Json) : Bool × Program :=
  match p.store.set kind target value with
  | .ok store => (true, { p with store })
  | .error e => p.reject site e.code e.message

/-- Makes a property a key.  The name of the key is the argument, or the name of the property if there is no
argument or an empty one. -/
def bindKey (p : Program) (site : Label) (target : Node) (argument : Json) : Bool × Program :=
  match target with
  | .property i =>
    let name := (p.graph.properties.get i).name.toJson
    match argument with
    | .null => p.bind site .key target name
    | .string t => p.bind site .key target (if t.isEmpty then name else argument)
    | _ => p.reject site .invalidAnnotationValue
        ("Invalid value " ++ argument.quoted ++ " for @id; expected a string")
  | _ => p.bind site .key target argument

/-- Applies a decorator to a target, with arguments of which there may be too many. -/
def applyDecorator? (p : Program) (site : Label) (d : Decorator) (target : Node) (arguments : List Json) :
    Option (Bool × Program) :=
  match d, arguments with
  | .id, [] => some (p.bindKey site target .null)
  | .id, [argument] => some (p.bindKey site target argument)
  | .openModel, [] => some (p.bind site .openType target (.boolean true))
  | .contains, [] => some (p.bind site .contains target (.boolean true))
  | .references, [] => some (p.bind site .references target (.boolean true))
  | _, _ => none

/-- A decorator's name is written with or without at-signs in front. -/
def bareName (name : Text) : Text := name.dropWhile (· == ('@' : CodePoint))

/-- Applies the decorator with a name to a target, and says whether it was accepted. -/
def decorate (p : Program) (site : Label) (name : Text) (target : Node) (arguments : List Json) :
    Bool × Program :=
  let name := bareName name
  match Decorator.ofName? name with
  | none => p.reject site .unknownDecorator ("Unknown decorator @" ++ name)
  | some d => match p.applyDecorator? site d target arguments with
    | some result => result
    | none => p.reject site .invalidAnnotationValue
        ("@" ++ name ++ " expects at most " ++ Number.integerText d.mostArguments ++ " argument(s), got "
          ++ Number.integerText arguments.length)

/-- The route that is bound to an interface. -/
def routeOf (p : Program) (i : InterfaceId) : Option Text :=
  match p.store.get? .route (.interface i) with
  | some (.string t) => some t
  | _ => none

/-- The bound routes of all interfaces. -/
def routes (p : Program) (i : InterfaceId) : Label :=
  match p.routeOf i with
  | some t => .text t
  | none => .raw .null

end Program

end Edm
