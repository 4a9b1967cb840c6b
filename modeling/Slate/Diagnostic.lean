import Slate.Source

/-! # Diagnostics

Problems that do not keep the rest of a program from being lowered.
-/

namespace Slate
set_option autoImplicit false

inductive Complaint where
  | undefinedVariable (name : String)
  | undefinedFunction (name : String)
  /-- A call with too few or too many arguments; a variadic function takes more than `expected`. -/
  | argumentCountMismatch (name : String) (variadic : Bool) (expected given : Nat)
  | alreadyDefined (name : String)
  | arityChanged (name : String) (declared given : Nat)
  | duplicateParameter (parameter function : String)
  | reservedName (name : String)
  /-- The body of a function has no value. -/
  | malformedBody (name : String)
  deriving DecidableEq

namespace Complaint

def kind : Complaint → String
  | .undefinedVariable _ => "undefined-variable"
  | .undefinedFunction _ => "undefined-function"
  | .argumentCountMismatch .. => "argument-count-mismatch"
  | .alreadyDefined _ | .arityChanged .. => "function-redefinition"
  | .duplicateParameter .. => "duplicate-parameter"
  | .reservedName _ => "reserved-name"
  | .malformedBody _ => "malformed-function-body"

def message : Complaint → String
  | .undefinedVariable name => s!"variable `{name}` is undefined"
  | .undefinedFunction name => s!"function `{name}` is undefined"
  | .argumentCountMismatch name variadic expected given =>
    let least := if variadic then "at least " else ""
    s!"function `{name}` expects {least}{expected} argument(s) but was given {given}"
  | .alreadyDefined name => s!"function `{name}` is already defined"
  | .arityChanged name declared given =>
    s!"function `{name}` was declared with {declared} parameter(s) but is redeclared with {given}"
  | .duplicateParameter parameter function =>
    s!"parameter `{parameter}` of function `{function}` is declared more than once"
  | .reservedName name => s!"`{name}` is a reserved name"
  | .malformedBody name => s!"body of function `{name}` does not produce a value"

end Complaint

structure Diagnostic where
  complaint : Complaint
  span : Span
  deriving DecidableEq

namespace Diagnostic

def kind (diagnostic : Diagnostic) : String := diagnostic.complaint.kind

def message (diagnostic : Diagnostic) : String := diagnostic.complaint.message

def report? (source : Source) (diagnostic : Diagnostic) : Option Styled := do
  let location ← source.location? diagnostic.span
  let highlight ← source.highlight? diagnostic.span
  return [.colored .red s!"error[{diagnostic.kind}]", .plain s!": {diagnostic.message} ",
    .colored .white s!"(at {location})", .plain "\n"] ++ highlight ++ [.plain "\n"]

end Diagnostic
end Slate
