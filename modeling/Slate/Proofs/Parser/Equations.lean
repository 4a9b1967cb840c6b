import Mathlib
import Slate.Tree.Parser

/-! # The parser without its measures

What a parsing function gives is a tree and the tokens that are left; that these are fewer is only there
for the recursion. `run` forgets it, and every function has an equation in terms of `run`.
-/

namespace Slate.Parser
set_option autoImplicit false

variable {α : Type} {tokens : List Token}

def run (result : Read α tokens) : Except Rejection (α × List Token) :=
  result.map fun taken => (taken.value, taken.rest)

def runMaybe (result : ReadMaybe α tokens) : Except Rejection (α × List Token) :=
  result.map fun taking => (taking.value, taking.rest)

theorem length_of_run {result : Read α tokens} {value : α} {rest : List Token}
    (h : run result = .ok (value, rest)) : rest.length < tokens.length := by
  cases result with
  | error rejection => cases h
  | ok taken =>
    cases h
    exact taken.fewer

theorem length_of_runMaybe {result : ReadMaybe α tokens} {value : α} {rest : List Token}
    (h : runMaybe result = .ok (value, rest)) : rest.length ≤ tokens.length := by
  cases result with
  | error rejection => cases h
  | ok taking =>
    cases h
    exact taking.noMore

theorem run_expect (lexeme : Lexeme) (expected : Expectation) (tokens : List Token) :
    run (expect lexeme expected tokens) = match tokens with
      | [] => .error (.ended expected)
      | token :: rest => if token.lexeme = lexeme then .ok (token.span, rest)
        else .error (unexpected expected token) := by
  cases tokens with
  | nil => rfl
  | cons token rest =>
    rw [expect]
    by_cases h : token.lexeme = lexeme
    · simp only [if_pos h]
      rfl
    · simp only [if_neg h]
      rfl

theorem run_expression (tokens : List Token) :
    run (expression tokens) = (do
      let (lhs, rest) ← run (comparison tokens)
      match rest with
      | [] => return (lhs, [])
      | token :: after =>
        if token.lexeme = .equals then
          match target? lhs with
          | none => .error (.because ⟨.invalidAssignmentTarget, token.span⟩)
          | some target => do
            let (value, left) ← run (expression after)
            return (.assign (lhs.span.through value.span) target value, left)
        else return (lhs, token :: after)) := by
  conv => lhs; rw [expression]
  cases comparison tokens with
  | error rejection => rfl
  | ok first =>
    obtain ⟨lhs, rest, hRest⟩ := first
    cases rest with
    | nil => rfl
    | cons token after =>
      change run (if token.lexeme = .equals then _ else _) = if token.lexeme = .equals then _ else _
      by_cases hEquals : token.lexeme = .equals
      · rw [if_pos hEquals, if_pos hEquals]
        cases target? lhs with
        | none => rfl
        | some target =>
          cases expression after with
          | error rejection => rfl
          | ok second => rfl
      · rw [if_neg hEquals, if_neg hEquals]
        rfl

theorem run_comparison (tokens : List Token) :
    run (comparison tokens) = (do
      let (lhs, rest) ← run (chain .sum tokens)
      match rest with
      | [] => return (lhs, [])
      | token :: after =>
        match comparison? token.lexeme with
        | none => return (lhs, token :: after)
        | some op => do
          let (rhs, left) ← run (chain .sum after)
          return (.compare (lhs.span.through rhs.span) op lhs rhs, left)) := by
  conv => lhs; rw [comparison]
  cases chain .sum tokens with
  | error rejection => rfl
  | ok first =>
    obtain ⟨lhs, rest, hRest⟩ := first
    cases rest with
    | nil => rfl
    | cons token after =>
      change run (match comparison? token.lexeme with | none => _ | some op => _) =
        match comparison? token.lexeme with | none => _ | some op => _
      cases comparison? token.lexeme with
      | none => rfl
      | some op => cases chain .sum after <;> rfl

theorem run_chain (level : Level) (tokens : List Token) :
    run (chain level tokens) = (do
      let (first, rest) ← run (operand level tokens)
      runMaybe (chainFrom level first rest)) := by
  conv => lhs; rw [chain]
  cases operand level tokens with
  | error rejection => rfl
  | ok first =>
    obtain ⟨value, rest, hRest⟩ := first
    change run (chainFrom level value rest >>= _) = runMaybe (chainFrom level value rest)
    cases chainFrom level value rest <;> rfl

theorem run_chainFrom (level : Level) (front : Expr) (tokens : List Token) :
    runMaybe (chainFrom level front tokens) = match tokens with
      | [] => .ok (front, [])
      | token :: rest =>
        match level.operator? token.lexeme with
        | none => .ok (front, token :: rest)
        | some op =>
          run (operand level rest) >>= fun (rhs, left) =>
            runMaybe (chainFrom level (.binary (front.span.through rhs.span) op front rhs) left) := by
  cases tokens with
  | nil =>
    rw [chainFrom]
    rfl
  | cons token rest =>
    rw [chainFrom]
    simp only
    cases level.operator? token.lexeme with
    | none => rfl
    | some op =>
      cases operand level rest with
      | error rejection => rfl
      | ok second =>
        obtain ⟨rhs, left, hLeft⟩ := second
        change runMaybe (chainFrom level _ left >>= _) = runMaybe (chainFrom level _ left)
        cases chainFrom level _ left <;> rfl

theorem run_operand (level : Level) (tokens : List Token) :
    run (operand level tokens) = match level with
      | .sum => run (chain .product tokens)
      | .product => run (atom tokens) := by
  cases level <;> rw [operand]

/-- The given lexeme, if it is next, and the tokens behind it. -/
def next? (lexeme : Lexeme) (tokens : List Token) : Option (Span × List Token) :=
  (eat? lexeme tokens).map fun taken => (taken.value, taken.rest)

theorem run_atom (tokens : List Token) :
    run (atom tokens) = match tokens with
      | [] => .error (.ended .expression)
      | token :: rest =>
        match token.lexeme with
        | .integer digits => (constant token.span false digits).map (·, rest)
        | .minus => run (negativeConstant token.span rest)
        | .identifier name =>
          match next? .openParen rest with
          | none => .ok (.variable token.span ⟨name, token.span⟩, rest)
          | some (_, left) => do
            let ((values, close), after) ← run (arguments left)
            return (.call (token.span.through close) ⟨name, token.span⟩ values, after)
        | .openParen => do
          let (inner, left) ← run (expression rest)
          let (close, after) ← run (expectExactly .closeParen left)
          return (inner.withSpan (token.span.through close), after)
        | .keyword .if_ => run (conditional token.span rest)
        | .keyword .for_ => run (loop token.span rest)
        | _ => .error (unexpected .expression token) := by
  cases tokens with
  | nil => rw [atom]; rfl
  | cons token rest =>
    rw [atom]
    simp only
    cases token.lexeme with
    | integer digits =>
      simp only
      generalize constant token.span false digits = result
      cases result <;> rfl
    | minus => cases negativeConstant token.span rest <;> rfl
    | identifier name =>
      simp only [next?]
      cases eat? .openParen rest with
      | none => rfl
      | some taken =>
        obtain ⟨_, left, hLeft⟩ := taken
        change run (arguments left >>= _) = run (arguments left) >>= _
        cases arguments left <;> rfl
    | openParen =>
      cases expression rest with
      | error rejection => rfl
      | ok first =>
        obtain ⟨inner, left, hLeft⟩ := first
        change run (expectExactly .closeParen left >>= _) = run (expectExactly .closeParen left) >>= _
        cases expectExactly .closeParen left <;> rfl
    | keyword word =>
      cases word with
      | if_ => cases conditional token.span rest <;> rfl
      | for_ => cases loop token.span rest <;> rfl
      | def_ | extern_ | then_ | else_ | do_ | end_ => rfl
    | closeParen | semicolon | comma | plus | asterisk | doubleEquals | lessThan | lessOrEqual
    | greaterThan | greaterOrEqual | equals => rfl

theorem run_arguments (tokens : List Token) :
    run (arguments tokens) = match next? .closeParen tokens with
      | some (close, rest) => .ok (([], close), rest)
      | none => (do
        let (first, rest) ← run (expression tokens)
        let ((others, close), left) ← run (moreArguments rest)
        return ((first :: others, close), left)) := by
  rw [arguments, next?]
  cases eat? .closeParen tokens with
  | some taken => rfl
  | none =>
    cases expression tokens with
    | error rejection => rfl
    | ok first =>
      obtain ⟨value, rest, hRest⟩ := first
      change run (moreArguments rest >>= _) = run (moreArguments rest) >>= _
      cases moreArguments rest <;> rfl

theorem run_moreArguments (tokens : List Token) :
    run (moreArguments tokens) = match next? .comma tokens with
      | none => do
        let (close, rest) ← run (expect .closeParen .commaOrClose tokens)
        return (([], close), rest)
      | some (_, rest) => (do
        let (next, left) ← run (expression rest)
        let ((others, close), after) ← run (moreArguments left)
        return ((next :: others, close), after)) := by
  rw [moreArguments, next?]
  cases eat? .comma tokens with
  | none => cases expect .closeParen .commaOrClose tokens <;> rfl
  | some taken =>
    obtain ⟨_, rest, hRest⟩ := taken
    change run (expression rest >>= _) = run (expression rest) >>= _
    cases expression rest with
    | error rejection => rfl
    | ok first =>
      obtain ⟨value, left, hLeft⟩ := first
      change run (moreArguments left >>= _) = run (moreArguments left) >>= _
      cases moreArguments left <;> rfl

theorem run_conditional (keyword : Span) (tokens : List Token) :
    run (conditional keyword tokens) = (do
      let (condition, rest) ← run (expression tokens)
      let (positive, left) ← runMaybe (sequence true (skip (.keyword .then_) rest).rest)
      let (negative, final) ← runMaybe (otherArm left)
      let (close, after) ← run (expectExactly (.keyword .end_) final)
      return (.branch (keyword.through close) condition positive negative, after)) := by
  rw [conditional]
  cases expression tokens with
  | error rejection => rfl
  | ok first =>
    obtain ⟨condition, rest, hRest⟩ := first
    change run (sequence true (skip (.keyword .then_) rest).rest >>= _) =
      runMaybe (sequence true (skip (.keyword .then_) rest).rest) >>= _
    cases sequence true (skip (.keyword .then_) rest).rest with
    | error rejection => rfl
    | ok second =>
      obtain ⟨positive, left, hLeft⟩ := second
      change run (otherArm left >>= _) = runMaybe (otherArm left) >>= _
      cases otherArm left with
      | error rejection => rfl
      | ok third =>
        obtain ⟨negative, final, hFinal⟩ := third
        change run (expectExactly _ final >>= _) = run (expectExactly _ final) >>= _
        cases expectExactly (.keyword .end_) final <;> rfl

theorem run_otherArm (tokens : List Token) :
    runMaybe (otherArm tokens) = match next? (.keyword .else_) tokens with
      | none => .ok ([], tokens)
      | some (_, rest) => runMaybe (sequence false rest) := by
  rw [otherArm, next?]
  cases eat? (.keyword .else_) tokens with
  | none => rfl
  | some taken =>
    obtain ⟨_, rest, hRest⟩ := taken
    change runMaybe (sequence false rest >>= _) = runMaybe (sequence false rest)
    cases sequence false rest <;> rfl

theorem run_loop (keyword : Span) (tokens : List Token) :
    run (loop keyword tokens) = (do
      let (initializer, rest₁) ← run (expression tokens)
      let (_, rest₂) ← run (expectExactly .semicolon rest₁)
      let (condition, rest₃) ← run (expression rest₂)
      let (_, rest₄) ← run (expectExactly .semicolon rest₃)
      let (step, rest₅) ← run (expression rest₄)
      let (body, rest₇) ← runMaybe (sequence false (skip (.keyword .do_) rest₅).rest)
      let (close, rest₈) ← run (expectExactly (.keyword .end_) rest₇)
      return (.loop (keyword.through close) initializer condition step body, rest₈)) := by
  rw [loop]
  cases expression tokens with
  | error rejection => rfl
  | ok first =>
  obtain ⟨initializer, rest₁, h₁⟩ := first
  change run (expectExactly .semicolon rest₁ >>= _) = run (expectExactly .semicolon rest₁) >>= _
  cases expectExactly .semicolon rest₁ with
  | error rejection => rfl
  | ok second =>
  obtain ⟨_, rest₂, h₂⟩ := second
  change run (expression rest₂ >>= _) = run (expression rest₂) >>= _
  cases expression rest₂ with
  | error rejection => rfl
  | ok third =>
  obtain ⟨condition, rest₃, h₃⟩ := third
  change run (expectExactly .semicolon rest₃ >>= _) = run (expectExactly .semicolon rest₃) >>= _
  cases expectExactly .semicolon rest₃ with
  | error rejection => rfl
  | ok fourth =>
  obtain ⟨_, rest₄, h₄⟩ := fourth
  change run (expression rest₄ >>= _) = run (expression rest₄) >>= _
  cases expression rest₄ with
  | error rejection => rfl
  | ok fifth =>
  obtain ⟨step, rest₅, h₅⟩ := fifth
  change run (sequence false (skip (.keyword .do_) rest₅).rest >>= _) =
    runMaybe (sequence false (skip (.keyword .do_) rest₅).rest) >>= _
  cases sequence false (skip (.keyword .do_) rest₅).rest with
  | error rejection => rfl
  | ok sixth =>
  obtain ⟨body, rest₇, h₇⟩ := sixth
  change run (expectExactly _ rest₇ >>= _) = run (expectExactly _ rest₇) >>= _
  cases expectExactly (.keyword .end_) rest₇ <;> rfl

theorem run_sequence (elseToo : Bool) (tokens : List Token) :
    runMaybe (sequence elseToo tokens) = match (skipSeparators tokens).rest with
      | [] => .error (.ended (.exactly (.keyword .end_)))
      | token :: rest =>
        if closes elseToo token.lexeme then .ok ([], token :: rest)
        else (do
          let (first, left) ← run (expression (token :: rest))
          let (others, after) ← runMaybe (sequence elseToo left)
          return (first :: others, after)) := by
  rw [sequence]
  cases skipSeparators tokens with
  | mk _ left hLeft =>
  cases left with
  | nil => rfl
  | cons token rest =>
    simp only
    by_cases hCloses : closes elseToo token.lexeme = true
    · rw [if_pos hCloses, if_pos hCloses]
      rfl
    · rw [if_neg hCloses, if_neg hCloses]
      cases expression (token :: rest) with
      | error rejection => rfl
      | ok first =>
        obtain ⟨value, left, hLeft⟩ := first
        change runMaybe (sequence elseToo left >>= _) = runMaybe (sequence elseToo left) >>= _
        cases sequence elseToo left <;> rfl

theorem run_parameters (tokens : List Token) :
    run (parameters tokens) = match next? .closeParen tokens with
      | some (close, rest) => .ok (([], close), rest)
      | none => (do
        let (first, rest) ← run (identifier tokens)
        let ((others, close), left) ← run (parameters.moreParameters rest)
        return ((first :: others, close), left)) := by
  rw [parameters, next?]
  cases eat? .closeParen tokens with
  | some taken => rfl
  | none =>
    cases identifier tokens with
    | error rejection => rfl
    | ok first =>
      obtain ⟨value, rest, hRest⟩ := first
      change run (parameters.moreParameters rest >>= _) = run (parameters.moreParameters rest) >>= _
      cases parameters.moreParameters rest <;> rfl

theorem run_moreParameters (tokens : List Token) :
    run (parameters.moreParameters tokens) = match next? .comma tokens with
      | none => do
        let (close, rest) ← run (expectExactly .closeParen tokens)
        return (([], close), rest)
      | some (_, rest) => (do
        let (next, left) ← run (identifier rest)
        let ((others, close), after) ← run (parameters.moreParameters left)
        return ((next :: others, close), after)) := by
  rw [parameters.moreParameters, next?]
  cases eat? .comma tokens with
  | none => cases expectExactly .closeParen tokens <;> rfl
  | some taken =>
    obtain ⟨_, rest, hRest⟩ := taken
    change run (identifier rest >>= _) = run (identifier rest) >>= _
    cases identifier rest with
    | error rejection => rfl
    | ok first =>
      obtain ⟨value, left, hLeft⟩ := first
      change run (parameters.moreParameters left >>= _) = run (parameters.moreParameters left) >>= _
      cases parameters.moreParameters left <;> rfl

theorem run_prototype (tokens : List Token) :
    run (prototype tokens) = (do
      let (name, rest) ← run (identifier tokens)
      let (_, left) ← run (expectExactly .openParen rest)
      let ((names, close), after) ← run (parameters left)
      return (⟨name.span.through close, name, names⟩, after)) := by
  rw [prototype]
  cases identifier tokens with
  | error rejection => rfl
  | ok first =>
  obtain ⟨name, rest, hRest⟩ := first
  change run (expectExactly .openParen rest >>= _) = run (expectExactly .openParen rest) >>= _
  cases expectExactly .openParen rest with
  | error rejection => rfl
  | ok second =>
  obtain ⟨_, left, hLeft⟩ := second
  change run (parameters left >>= _) = run (parameters left) >>= _
  cases parameters left <;> rfl

theorem run_definition (keyword : Span) (tokens : List Token) :
    run (definition keyword tokens) = (do
      let (head, rest) ← run (prototype tokens)
      let (body, left) ← run (expression rest)
      let (close, after) ← run (expectExactly (.keyword .end_) (skipSeparators left).rest)
      return (.definition (keyword.through close) head body, after)) := by
  rw [definition]
  cases prototype tokens with
  | error rejection => rfl
  | ok first =>
  obtain ⟨head, rest, hRest⟩ := first
  change run (expression rest >>= _) = run (expression rest) >>= _
  cases expression rest with
  | error rejection => rfl
  | ok second =>
  obtain ⟨body, left, hLeft⟩ := second
  change run (expectExactly _ (skipSeparators left).rest >>= _) =
    run (expectExactly _ (skipSeparators left).rest) >>= _
  cases expectExactly (.keyword .end_) (skipSeparators left).rest <;> rfl

theorem run_item (tokens : List Token) :
    run (item tokens) = match tokens with
      | [] => .error (.ended .expression)
      | token :: rest =>
        match token.lexeme with
        | .keyword .def_ => run (definition token.span rest)
        | .keyword .extern_ => (do
          let (head, left) ← run (prototype rest)
          return (.declaration (token.span.through head.span) head, left))
        | _ => (do
          let (body, left) ← run (expression (token :: rest))
          return (.expression body, left)) := by
  cases tokens with
  | nil => rfl
  | cons token rest =>
    rw [item]
    simp only
    cases token.lexeme with
    | keyword word =>
      cases word with
      | def_ => cases definition token.span rest <;> rfl
      | extern_ => cases prototype rest <;> rfl
      | if_ | for_ | then_ | else_ | do_ | end_ => cases expression (token :: rest) <;> rfl
    | identifier _ | integer _ | openParen | closeParen | semicolon | comma | plus | minus | asterisk
    | doubleEquals | lessThan | lessOrEqual | greaterThan | greaterOrEqual | equals =>
      cases expression (token :: rest) <;> rfl

theorem run_items (tokens : List Token) :
    items tokens = match (skipSeparators tokens).rest with
      | [] => .ok []
      | token :: rest => (do
        let (first, left) ← run (item (token :: rest))
        let others ← items left
        return first :: others) := by
  conv => lhs; rw [items]
  cases skipSeparators tokens with
  | mk _ left hLeft =>
  cases left with
  | nil => rfl
  | cons token rest =>
    simp only
    cases item (token :: rest) <;> rfl

end Slate.Parser
