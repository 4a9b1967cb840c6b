import Slate.Source
import Slate.Word

/-! # Syntax trees

A program is a list of items. Every node carries the span of the text it was read from; brackets
around an expression widen its span and leave no other trace.
-/

namespace Slate
set_option autoImplicit false

structure Name where
  text : String
  span : Span
  deriving DecidableEq

inductive Expr where
  | int (span : Span) (value : Word)
  | binary (span : Span) (op : Arith) (lhs rhs : Expr)
  | compare (span : Span) (op : Comparison) (lhs rhs : Expr)
  | variable (span : Span) (name : Name)
  | assign (span : Span) (target : Name) (value : Expr)
  /-- An empty arm has the value 0. -/
  | branch (span : Span) (condition : Expr) (positive negative : List Expr)
  | loop (span : Span) (initializer condition step : Expr) (body : List Expr)
  | call (span : Span) (callee : Name) (arguments : List Expr)

namespace Expr

def span : Expr → Span
  | .int span .. | .binary span .. | .compare span .. | .variable span .. | .assign span ..
  | .branch span .. | .loop span .. | .call span .. => span

def withSpan (span : Span) : Expr → Expr
  | .int _ value => .int span value
  | .binary _ op lhs rhs => .binary span op lhs rhs
  | .compare _ op lhs rhs => .compare span op lhs rhs
  | .variable _ name => .variable span name
  | .assign _ target value => .assign span target value
  | .branch _ condition positive negative => .branch span condition positive negative
  | .loop _ initializer condition step body => .loop span initializer condition step body
  | .call _ callee arguments => .call span callee arguments

end Expr

structure Prototype where
  span : Span
  name : Name
  parameters : List Name
  deriving DecidableEq

inductive Item where
  | declaration (span : Span) (prototype : Prototype)
  | definition (span : Span) (prototype : Prototype) (body : Expr)
  /-- An expression evaluated by the entry function. -/
  | expression (body : Expr)

def Item.span : Item → Span
  | .declaration span _ => span
  | .definition span .. => span
  | .expression body => body.span

end Slate
