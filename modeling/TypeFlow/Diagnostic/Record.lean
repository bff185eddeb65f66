import TypeFlow.Span
import TypeFlow.Diagnostic.Code

namespace TypeFlow

inductive Severity where
  | error
  | warning
  | note
  deriving DecidableEq, Repr

def Severity.text : Severity → String
  | .error => "error"
  | .warning => "warning"
  | .note => "note"

structure Label where
  span : Span
  message : String
  primary : Bool := true
  deriving DecidableEq, Repr

structure Diagnostic where
  code : ErrorCode
  severity : Severity := .error
  message : String := ""
  labels : List Label := []
  notes : List String := []
  suggestions : List String := []
  deriving DecidableEq, Repr

namespace Diagnostic

def isError (d : Diagnostic) : Bool := d.severity == .error

def primarySpan (d : Diagnostic) : Option Span :=
  (d.labels.find? (·.primary)).map (·.span)

def labelText (l : Label) : String :=
  "\n  " ++ (if l.primary then "-->" else "   ") ++ " " ++ l.span.text ++ ": " ++ l.message

def text (d : Diagnostic) : String :=
  d.severity.text ++ " [" ++ d.code.number ++ "] " ++ d.code.slug ++ ": " ++ d.message
    ++ String.join (d.labels.map labelText)
    ++ String.join (d.notes.map ("\n  = note: " ++ ·))
    ++ String.join (d.suggestions.map ("\n  = help: " ++ ·))

end Diagnostic

end TypeFlow
