import Slate.Interner
import Slate.Outline
import Slate.Text.Quoted
import Slate.Tree

/-! # Outlines of programs

Names are shown with the number of their first occurrence among the distinct names of the program.
-/

namespace Slate
set_option autoImplicit false

mutual

def Expr.names : Expr → List String
  | .int .. => []
  | .binary _ _ lhs rhs | .compare _ _ lhs rhs => lhs.names ++ rhs.names
  | .variable _ name => [name.text]
  | .assign _ target value => target.text :: value.names
  | .branch _ condition positive negative =>
    condition.names ++ Expr.namesOf positive ++ Expr.namesOf negative
  | .loop _ initializer condition step body =>
    initializer.names ++ condition.names ++ step.names ++ Expr.namesOf body
  | .call _ callee arguments => callee.text :: Expr.namesOf arguments

def Expr.namesOf : List Expr → List String
  | [] => []
  | first :: rest => first.names ++ Expr.namesOf rest

end

def Prototype.names (head : Prototype) : List String :=
  head.name.text :: head.parameters.map Name.text

def Item.names : Item → List String
  | .declaration _ head => head.names
  | .definition _ head body => head.names ++ body.names
  | .expression body => body.names

namespace Outline

def number (n : Int) : Outline := .atom (toString n)

def span (span : Span) : Outline :=
  .record "Span" [.field "start" (number span.start), .field "end" (number span.stop)]

def name (numbers : Interner) (name : Name) : Outline :=
  .record "Identifier" [
    .field "span" (span name.span),
    .field "symbol" (.apply "InternedSymbol" [
      number (Symbol.make name.text numbers).1.number, .atom (quoted name.text)])]

def arith : Arith → Outline
  | .add => .atom "Add"
  | .subtract => .atom "Subtract"
  | .multiply => .atom "Multiply"

def comparison : Comparison → Outline
  | .greater => .atom "GreaterThan"
  | .less => .atom "LessThan"
  | .equal => .atom "Equals"
  | .greaterOrEqual => .atom "GreaterThanOrEqualTo"
  | .lessOrEqual => .atom "LessThanOrEqualTo"

def node (kind : String) (place : Span) (content : Outline) : Outline :=
  .record kind [.field "span" (span place), .field "kind" content]

mutual

def expr (numbers : Interner) : Expr → Outline
  | .int place value =>
    node "Expression" place (.apply "IntegerConstant" [number value.toInt])
  | .binary place op lhs rhs =>
    node "Expression" place (.record "Binary" [
      .field "lhs" (expr numbers lhs), .field "operator" (arith op),
      .field "rhs" (expr numbers rhs)])
  | .compare place op lhs rhs =>
    node "Expression" place (.record "Comparison" [
      .field "lhs" (expr numbers lhs), .field "operator" (comparison op),
      .field "rhs" (expr numbers rhs)])
  | .variable place id => node "Expression" place (.apply "Variable" [name numbers id])
  | .assign place target value =>
    node "Expression" place (.record "Assignment" [
      .field "target" (name numbers target), .field "value" (expr numbers value)])
  | .branch place condition positive negative =>
    node "Expression" place (.record "If" [
      .field "condition" (expr numbers condition),
      .field "positive" (.list (exprs numbers positive)),
      .field "negative" (.list (exprs numbers negative))])
  | .loop place initializer condition step body =>
    node "Expression" place (.record "For" [
      .field "initializer" (expr numbers initializer),
      .field "condition" (expr numbers condition),
      .field "step" (expr numbers step),
      .field "body" (.list (exprs numbers body))])
  | .call place callee arguments =>
    node "Expression" place (.record "FunctionCall" [
      .field "callee" (name numbers callee),
      .field "arguments" (.list (exprs numbers arguments))])

def exprs (numbers : Interner) : List Expr → List Outline
  | [] => []
  | first :: rest => expr numbers first :: exprs numbers rest

end

def prototype (numbers : Interner) (head : Prototype) : Outline :=
  .record "FunctionPrototype" [
    .field "span" (span head.span),
    .field "name" (name numbers head.name),
    .field "parameters" (.list (head.parameters.map (name numbers)))]

def item (numbers : Interner) : Item → Outline
  | .declaration place head =>
    node "Item" place (.apply "Prototype" [prototype numbers head])
  | .definition place head body =>
    node "Item" place (.apply "Function" [.record "Function" [
      .field "span" (span place),
      .field "prototype" (prototype numbers head),
      .field "body" (expr numbers body)]])
  | .expression body =>
    node "Item" body.span (.apply "TopLevelExpression" [expr numbers body])

def origin : Origin → Outline
  | .memory => .atom "Memory"
  | .file path => .apply "File" [.atom (quoted path)]

def program (source : Source) (items : List Item) : Outline :=
  let numbers := Interner.ofList (items.flatMap Item.names)
  .record "Module" [
    .field "source_file" (.record "SourceFile" [
      .field "contents" (.atom (quoted source.text)),
      .field "origin" (origin source.origin)]),
    .field "items" (.list (items.map (item numbers)))]

end Outline
end Slate
