import Slate.Token
import Slate.Tree

/-! # Reading trees from tokens

Recursive descent with one token of lookahead. Each function returns what it read and the tokens
left over, which are fewer (or no more) than it was given; recursion follows that measure.

    expression := target = expression | comparison
    comparison := sum ((> | < | == | >= | <=) sum)?
    sum        := product ((+ | -) product)*
    product    := atom (* atom)*
    atom       := INT | - INT | NAME | NAME ( arguments ) | ( expression ) | if | for
-/

namespace Slate.Parser
set_option autoImplicit false

inductive Rejection where
  | because (error : ParseError)
  | ended (expected : Expectation)

/-- Something read from the front of `tokens`, of which at least one was used. -/
structure Taken (α : Type) (tokens : List Token) where
  value : α
  rest : List Token
  fewer : rest.length < tokens.length

/-- Something read from the front of `tokens`, of which perhaps none was used. -/
structure Taking (α : Type) (tokens : List Token) where
  value : α
  rest : List Token
  noMore : rest.length ≤ tokens.length

abbrev Read (α : Type) (tokens : List Token) := Except Rejection (Taken α tokens)

abbrev ReadMaybe (α : Type) (tokens : List Token) := Except Rejection (Taking α tokens)

def unexpected (expected : Expectation) (token : Token) : Rejection :=
  .because ⟨.unexpectedToken expected token.lexeme, token.span⟩

def expect (lexeme : Lexeme) (expected : Expectation) : (tokens : List Token) → Read Span tokens
  | [] => .error (.ended expected)
  | token :: rest =>
    if token.lexeme = lexeme then .ok ⟨token.span, rest, by simp⟩
    else .error (unexpected expected token)

/-- Takes the given keyword or punctuation, which is also what an error names. -/
def expectExactly (lexeme : Lexeme) (tokens : List Token) : Read Span tokens :=
  expect lexeme (.exactly lexeme) tokens

def identifier : (tokens : List Token) → Read Name tokens
  | [] => .error (.ended .identifier)
  | token :: rest =>
    match token.lexeme with
    | .identifier name => .ok ⟨⟨name, token.span⟩, rest, by simp⟩
    | _ => .error (unexpected .identifier token)

def eat? (lexeme : Lexeme) : (tokens : List Token) → Option (Taken Span tokens)
  | [] => none
  | token :: rest => if token.lexeme = lexeme then some ⟨token.span, rest, by simp⟩ else none

def skip (lexeme : Lexeme) : (tokens : List Token) → Taking Unit tokens
  | [] => ⟨(), [], by simp⟩
  | token :: rest =>
    if token.lexeme = lexeme then ⟨(), rest, by simp⟩ else ⟨(), token :: rest, by simp⟩

def skipSeparators : (tokens : List Token) → Taking Unit tokens
  | [] => ⟨(), [], by simp⟩
  | token :: rest =>
    if token.lexeme = .semicolon then
      let ⟨_, left, h⟩ := skipSeparators rest
      ⟨(), left, Nat.le_succ_of_le h⟩
    else ⟨(), token :: rest, by simp⟩

def decimalValue (digits : String) : Nat :=
  digits.toList.foldl (fun value c => 10 * value + (c.toNat - '0'.toNat)) 0

def constant (span : Span) (negative : Bool) (digits : String) : Except Rejection Expr :=
  let value : Int := decimalValue digits
  match Word.ofInt? (if negative then -value else value) with
  | some word => .ok (.int span word)
  | none =>
    let literal := if negative then "-" ++ digits else digits
    .error (.because ⟨.integerOutOfRange literal, span⟩)

def negativeConstant (sign : Span) : (tokens : List Token) → Read Expr tokens
  | [] => .error (.ended .integerLiteral)
  | token :: rest =>
    match token.lexeme with
    | .integer digits => do
      let value ← constant (sign.through token.span) true digits
      return ⟨value, rest, by simp⟩
    | _ => .error (unexpected .integerLiteral token)

def comparison? : Lexeme → Option Comparison
  | .greaterThan => some .greater
  | .lessThan => some .less
  | .doubleEquals => some .equal
  | .greaterOrEqual => some .greaterOrEqual
  | .lessOrEqual => some .lessOrEqual
  | _ => none

/-- The two levels of left-associative operators. -/
inductive Level where
  | sum | product
  deriving DecidableEq

def Level.operator? : Level → Lexeme → Option Arith
  | .sum, .plus => some .add
  | .sum, .minus => some .subtract
  | .product, .asterisk => some .multiply
  | _, _ => none

def Level.rank : Level → Nat
  | .sum => 3
  | .product => 1

def target? : Expr → Option Name
  | .variable _ name => some name
  | _ => none

/-- Keywords that end a sequence: `end`, and `else` in the first arm of a conditional. -/
def closes (elseToo : Bool) : Lexeme → Bool
  | .keyword .end_ => true
  | .keyword .else_ => elseToo
  | _ => false

mutual

def expression (tokens : List Token) : Read Expr tokens := do
  let ⟨lhs, rest, h⟩ ← comparison tokens
  match rest, h with
  | [], h => return ⟨lhs, [], h⟩
  | token :: after, h =>
    if token.lexeme = .equals then
      match target? lhs with
      | none => throw (.because ⟨.invalidAssignmentTarget, token.span⟩)
      | some target =>
        let ⟨value, left, hLeft⟩ ← expression after
        return ⟨.assign (lhs.span.through value.span) target value, left, by grind⟩
    else return ⟨lhs, token :: after, h⟩
termination_by (tokens.length, 6)
decreasing_by
  · exact Prod.Lex.right _ (by omega)
  · exact Prod.Lex.left _ _ (by grind)

def comparison (tokens : List Token) : Read Expr tokens := do
  let ⟨lhs, rest, h⟩ ← chain .sum tokens
  match rest, h with
  | [], h => return ⟨lhs, [], h⟩
  | token :: after, h =>
    match comparison? token.lexeme with
    | none => return ⟨lhs, token :: after, h⟩
    | some op =>
      let ⟨rhs, left, hLeft⟩ ← chain .sum after
      return ⟨.compare (lhs.span.through rhs.span) op lhs rhs, left, by grind⟩
termination_by (tokens.length, 5)
decreasing_by
  · exact Prod.Lex.right _ (by simp [Level.rank])
  · exact Prod.Lex.left _ _ (by grind)

def chain (level : Level) (tokens : List Token) : Read Expr tokens := do
  let ⟨first, rest, h⟩ ← operand level tokens
  let ⟨whole, left, hLeft⟩ ← chainFrom level first rest
  return ⟨whole, left, by omega⟩
termination_by (tokens.length, level.rank + 1)
decreasing_by
  · exact Prod.Lex.right _ (by omega)
  · exact Prod.Lex.left _ _ h

/-- Goes on with a chain whose front is already read. -/
def chainFrom (level : Level) (front : Expr) : (tokens : List Token) → ReadMaybe Expr tokens
  | [] => return ⟨front, [], by simp⟩
  | token :: rest =>
    match level.operator? token.lexeme with
    | none => return ⟨front, token :: rest, by simp⟩
    | some op => do
      let ⟨rhs, left, h⟩ ← operand level rest
      let joined := .binary (front.span.through rhs.span) op front rhs
      let ⟨whole, after, hAfter⟩ ← chainFrom level joined left
      return ⟨whole, after, by grind⟩
termination_by tokens => (tokens.length, 0)
decreasing_by
  · exact Prod.Lex.left _ _ (by simp)
  · exact Prod.Lex.left _ _ (by grind)

def operand (level : Level) (tokens : List Token) : Read Expr tokens :=
  match level with
  | .sum => chain .product tokens
  | .product => atom tokens
termination_by (tokens.length, level.rank)
decreasing_by
  · exact Prod.Lex.right _ (by simp [Level.rank])
  · exact Prod.Lex.right _ (by simp [Level.rank])

def atom : (tokens : List Token) → Read Expr tokens
  | [] => .error (.ended .expression)
  | token :: rest =>
    match token.lexeme with
    | .integer digits => do
      let value ← constant token.span false digits
      return ⟨value, rest, by simp⟩
    | .minus => do
      let ⟨value, left, h⟩ ← negativeConstant token.span rest
      return ⟨value, left, by grind⟩
    | .identifier name =>
      match eat? .openParen rest with
      | none => return ⟨.variable token.span ⟨name, token.span⟩, rest, by simp⟩
      | some ⟨_, left, h⟩ => do
        let ⟨(values, close), after, hAfter⟩ ← arguments left
        return ⟨.call (token.span.through close) ⟨name, token.span⟩ values, after, by grind⟩
    | .openParen => do
      let ⟨inner, left, h⟩ ← expression rest
      let ⟨close, after, hAfter⟩ ← expectExactly .closeParen left
      return ⟨inner.withSpan (token.span.through close), after, by grind⟩
    | .keyword .if_ => do
      let ⟨whole, left, h⟩ ← conditional token.span rest
      return ⟨whole, left, by grind⟩
    | .keyword .for_ => do
      let ⟨whole, left, h⟩ ← loop token.span rest
      return ⟨whole, left, by grind⟩
    | _ => .error (unexpected .expression token)
termination_by tokens => (tokens.length, 0)
decreasing_by
  all_goals exact Prod.Lex.left _ _ (by grind)

def arguments (tokens : List Token) : Read (List Expr × Span) tokens :=
  match eat? .closeParen tokens with
  | some ⟨close, rest, h⟩ => return ⟨([], close), rest, h⟩
  | none => do
    let ⟨first, rest, h⟩ ← expression tokens
    let ⟨(others, close), left, hLeft⟩ ← moreArguments rest
    return ⟨(first :: others, close), left, by omega⟩
termination_by (tokens.length, 7)
decreasing_by
  · exact Prod.Lex.right _ (by omega)
  · exact Prod.Lex.left _ _ h

def moreArguments (tokens : List Token) : Read (List Expr × Span) tokens :=
  match eat? .comma tokens with
  | none => do
    let ⟨close, rest, h⟩ ← expect .closeParen .commaOrClose tokens
    return ⟨([], close), rest, h⟩
  | some ⟨_, rest, h⟩ => do
    let ⟨next, left, hLeft⟩ ← expression rest
    let ⟨(others, close), after, hAfter⟩ ← moreArguments left
    return ⟨(next :: others, close), after, by omega⟩
termination_by (tokens.length, 7)
decreasing_by
  · exact Prod.Lex.left _ _ (by omega)
  · exact Prod.Lex.left _ _ (by omega)

def conditional (keyword : Span) (tokens : List Token) : Read Expr tokens := do
  let ⟨condition, rest, h⟩ ← expression tokens
  let ⟨_, body, hBody⟩ := skip (.keyword .then_) rest
  let ⟨positive, left, hLeft⟩ ← sequence true body
  let ⟨negative, final, hFinal⟩ ← otherArm left
  let ⟨close, after, hAfter⟩ ← expectExactly (.keyword .end_) final
  return ⟨.branch (keyword.through close) condition positive negative, after, by omega⟩
termination_by (tokens.length, 7)
decreasing_by
  · exact Prod.Lex.right _ (by omega)
  · exact Prod.Lex.left _ _ (by omega)
  · exact Prod.Lex.left _ _ (by omega)

def otherArm (tokens : List Token) : ReadMaybe (List Expr) tokens :=
  match eat? (.keyword .else_) tokens with
  | none => return ⟨[], tokens, Nat.le_refl _⟩
  | some ⟨_, rest, h⟩ => do
    let ⟨negative, left, hLeft⟩ ← sequence false rest
    return ⟨negative, left, by omega⟩
termination_by (tokens.length, 7)
decreasing_by
  exact Prod.Lex.left _ _ h

def loop (keyword : Span) (tokens : List Token) : Read Expr tokens := do
  let ⟨initializer, rest₁, h₁⟩ ← expression tokens
  let ⟨_, rest₂, h₂⟩ ← expectExactly .semicolon rest₁
  let ⟨condition, rest₃, h₃⟩ ← expression rest₂
  let ⟨_, rest₄, h₄⟩ ← expectExactly .semicolon rest₃
  let ⟨step, rest₅, h₅⟩ ← expression rest₄
  let ⟨_, rest₆, h₆⟩ := skip (.keyword .do_) rest₅
  let ⟨body, rest₇, h₇⟩ ← sequence false rest₆
  let ⟨close, rest₈, h₈⟩ ← expectExactly (.keyword .end_) rest₇
  return ⟨.loop (keyword.through close) initializer condition step body, rest₈, by omega⟩
termination_by (tokens.length, 7)
decreasing_by
  · exact Prod.Lex.right _ (by omega)
  · exact Prod.Lex.left _ _ (by omega)
  · exact Prod.Lex.left _ _ (by omega)
  · exact Prod.Lex.left _ _ (by omega)

/-- Expressions up to a closing keyword, which is left in place. -/
def sequence (elseToo : Bool) (tokens : List Token) : ReadMaybe (List Expr) tokens :=
  match skipSeparators tokens with
  | ⟨_, [], _⟩ => .error (.ended (.exactly (.keyword .end_)))
  | ⟨_, token :: rest, h⟩ =>
    if closes elseToo token.lexeme then return ⟨[], token :: rest, h⟩
    else do
      let ⟨first, left, hLeft⟩ ← expression (token :: rest)
      let ⟨others, after, hAfter⟩ ← sequence elseToo left
      return ⟨first :: others, after, by omega⟩
termination_by (tokens.length, 7)
decreasing_by
  · rcases Nat.lt_or_eq_of_le h with h | h
    · exact Prod.Lex.left _ _ h
    · rw [h]; exact Prod.Lex.right _ (by omega)
  · exact Prod.Lex.left _ _ (by omega)

end

def parameters (tokens : List Token) : Read (List Name × Span) tokens :=
  match eat? .closeParen tokens with
  | some ⟨close, rest, h⟩ => return ⟨([], close), rest, h⟩
  | none => do
    let ⟨first, rest, h⟩ ← identifier tokens
    let ⟨(others, close), left, hLeft⟩ ← moreParameters rest
    return ⟨(first :: others, close), left, by omega⟩
where
  moreParameters (tokens : List Token) : Read (List Name × Span) tokens :=
    match eat? .comma tokens with
    | none => do
      let ⟨close, rest, h⟩ ← expectExactly .closeParen tokens
      return ⟨([], close), rest, h⟩
    | some ⟨_, rest, h⟩ => do
      let ⟨next, left, hLeft⟩ ← identifier rest
      let ⟨(others, close), after, hAfter⟩ ← moreParameters left
      return ⟨(next :: others, close), after, by omega⟩
  termination_by tokens.length

def prototype (tokens : List Token) : Read Prototype tokens := do
  let ⟨name, rest, h⟩ ← identifier tokens
  let ⟨_, left, hLeft⟩ ← expectExactly .openParen rest
  let ⟨(names, close), after, hAfter⟩ ← parameters left
  return ⟨⟨name.span.through close, name, names⟩, after, by omega⟩

def definition (keyword : Span) (tokens : List Token) : Read Item tokens := do
  let ⟨head, rest, h⟩ ← prototype tokens
  let ⟨body, left, hLeft⟩ ← expression rest
  let ⟨_, final, hFinal⟩ := skipSeparators left
  let ⟨close, after, hAfter⟩ ← expectExactly (.keyword .end_) final
  return ⟨.definition (keyword.through close) head body, after, by omega⟩

def item : (tokens : List Token) → Read Item tokens
  | [] => .error (.ended .expression)
  | token :: rest =>
    match token.lexeme with
    | .keyword .def_ => do
      let ⟨whole, left, h⟩ ← definition token.span rest
      return ⟨whole, left, by grind⟩
    | .keyword .extern_ => do
      let ⟨head, left, h⟩ ← prototype rest
      return ⟨.declaration (token.span.through head.span) head, left, by grind⟩
    | _ => do
      let ⟨body, left, h⟩ ← expression (token :: rest)
      return ⟨.expression body, left, h⟩

def items (tokens : List Token) : Except Rejection (List Item) :=
  match skipSeparators tokens with
  | ⟨_, [], _⟩ => return []
  | ⟨_, token :: rest, h⟩ => do
    let ⟨first, left, hLeft⟩ ← item (token :: rest)
    have : left.length < tokens.length := Nat.lt_of_lt_of_le hLeft h
    let others ← items left
    return first :: others
termination_by tokens.length

end Slate.Parser

namespace Slate

/-- The items of a program text. Where its tokens stop at a bad character, that character is the
error unless the tokens before it are already wrong. -/
def Source.parse (source : Source) : Except ParseError (List Item) :=
  let scan := source.scan
  match Parser.items scan.tokens, scan.error with
  | .ok program, none => .ok program
  | .ok _, some error => .error error
  | .error (.because error), _ => .error error
  | .error (.ended _), some error => .error error
  | .error (.ended expected), none => .error ⟨.unexpectedEnd expected, source.endSpan⟩

end Slate
