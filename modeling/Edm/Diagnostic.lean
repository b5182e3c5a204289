import Edm.Label

/-!
# Diagnostics

Problems found while declarations are applied or a document is built, each with the site that it is about.
-/

namespace Edm

/-- What a diagnostic is about. -/
inductive DiagnosticCode
  | invalidAnnotationTarget
  | invalidAnnotationValue
  | unknownDecorator
  | unrenderableType
deriving DecidableEq, Repr

/-- The word for a code. -/
def DiagnosticCode.word : DiagnosticCode → Text
  | invalidAnnotationTarget => "invalid-annotation-target"
  | invalidAnnotationValue => "invalid-annotation-value"
  | unknownDecorator => "unknown-decorator"
  | unrenderableType => "unrenderable-type"

/-- How bad a problem is: a declaration was rejected, the output may be degraded, or neither. -/
inductive Severity
  | error
  | warning
  | info
deriving DecidableEq, Repr

/-- The word for a severity. -/
def Severity.word : Severity → Text
  | error => "error"
  | warning => "warning"
  | info => "info"

/-- A problem at a site. -/
structure Diagnostic where
  code : DiagnosticCode
  message : Label
  site : Label := .text []
  severity : Severity := .error
deriving DecidableEq, Repr

namespace Diagnostic

/-- A diagnostic on one line; a site that does not count as present is left out. -/
def text (d : Diagnostic) : Text :=
  let place : Text := if d.site.truthy then d.site.display ++ ": " else []
  "[" ++ d.code.word ++ "] " ++ place ++ d.message.display

/-- How many diagnostics have a severity. -/
def countOf (s : Severity) (ds : List Diagnostic) : Nat := ds.countP fun d => d.severity == s

/-- How many diagnostics are errors. -/
def errorCount (ds : List Diagnostic) : Nat := countOf .error ds

/-- How many diagnostics are warnings. -/
def warningCount (ds : List Diagnostic) : Nat := countOf .warning ds

end Diagnostic

end Edm
