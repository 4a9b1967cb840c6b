import Slate.Proofs.Moved
import Slate.Proofs.Parser.Openings

/-! # Places do not matter

Where the tokens stand decides the spans of a tree and of an error, and nothing else: tokens at other places are
read as the same tree, or fail for the same reason, at those places.
-/

namespace Slate
set_option autoImplicit false

namespace Parser

def Rejection.moved (move : Move) : Rejection → Rejection
  | .because error => .because ⟨error.cause, move.place error.span⟩
  | .ended expected => .ended expected

/-- What a reading gives, at other places. -/
def movedResult {α : Type} (move : Move) (change : α → α) :
    Except Rejection (α × List Token) → Except Rejection (α × List Token)
  | .ok result => .ok (change result.1, result.2.map (Token.moved move))
  | .error rejection => .error (rejection.moved move)

theorem movedResult_eq_ok {α : Type} {move : Move} {change : α → α} {value : α} {rest : List Token}
    {result : Except Rejection (α × List Token)} (h : movedResult move change result = .ok (value, rest)) :
    ∃ value' rest', result = .ok (value', rest') ∧ change value' = value := by
  cases result with
  | error rejection => cases h
  | ok pair => exact ⟨pair.1, pair.2, rfl, congrArg Prod.fst (Except.ok.inj h)⟩

theorem movedResult_eq_error {α : Type} {move : Move} {change : α → α} {rejection : Rejection}
    {result : Except Rejection (α × List Token)} (h : movedResult move change result = .error rejection) :
    ∃ rejection', result = .error rejection' ∧ rejection'.moved move = rejection := by
  cases result with
  | ok pair => cases h
  | error rejection' => exact ⟨rejection', rfl, Except.error.inj h⟩

/-- At other places, `other` gives what `read` gives. -/
def Moves {α : Type} (move : Move) (change : α → α) (read other : Reading α) (tokens : List Token) : Prop :=
  other (tokens.map (Token.moved move)) = movedResult move change (read tokens)

variable {tokens : List Token} {move : Move}

section Rules

variable {α β : Type} {change : α → α} {read other : Reading α} {change' : β → β}
  {next otherNext : α → Reading β}

namespace Moves

theorem andThen (h : Moves move change read other tokens)
    (hNext : ∀ value rest, read tokens = .ok (value, rest) →
      Moves move change' (next value) (otherNext (change value)) rest) :
    Moves move change' (andThen read next) (andThen other otherNext) tokens := by
  rw [Moves] at h ⊢
  cases hRead : read tokens with
  | error rejection =>
    rw [hRead] at h
    rw [andThen_of_error hRead, andThen_of_error h]
    rfl
  | ok pair =>
    obtain ⟨value, rest⟩ := pair
    rw [hRead] at h
    rw [andThen_of_ok hRead, andThen_of_ok h]
    exact hNext value rest hRead

theorem pure (value : α) : Moves move change (fun rest => .ok (value, rest))
    (fun rest => .ok (change value, rest)) tokens :=
  rfl

theorem map (h : Moves move change read other tokens) (make otherMake : α → β)
    (hMake : ∀ value, otherMake (change value) = change' (make value)) :
    Moves move change' (Parser.andThen read fun value rest => .ok (make value, rest))
      (Parser.andThen other fun value rest => .ok (otherMake value, rest)) tokens := by
  refine h.andThen fun value rest _ => ?_
  rw [Moves, hMake]
  rfl

theorem cons {following otherFollowing : Reading α} {token : Token}
    (hRead : ∀ rest, read (token :: rest) = following rest)
    (hOther : ∀ rest, other (token.moved move :: rest) = otherFollowing rest)
    (h : Moves move change following otherFollowing tokens) : Moves move change read other (token :: tokens) := by
  rw [Moves, List.map_cons, hOther, hRead]
  exact h

end Moves
end Rules

/-! ## Single tokens -/

theorem lacks_moved {lexeme : Lexeme} :
    Lacks lexeme (tokens.map (Token.moved move)) ↔ Lacks lexeme tokens := by
  cases tokens with
  | nil => rfl
  | cons token rest =>
    constructor
    · rintro h _ ⟨⟩
      exact h (token.moved move) rfl
    · rintro h _ ⟨⟩
      exact h token rfl

theorem expect_moves (lexeme : Lexeme) (expected : Expectation) (tokens : List Token) :
    Moves move move.place (fun tokens => run (expect lexeme expected tokens))
      (fun tokens => run (expect lexeme expected tokens)) tokens := by
  rw [Moves]
  cases tokens with
  | nil => rfl
  | cons token rest =>
    rw [List.map_cons, run_expect, run_expect]
    by_cases hLexeme : token.lexeme = lexeme
    · simp only [if_pos hLexeme]
      exact if_pos hLexeme
    · simp only [if_neg hLexeme]
      exact if_neg hLexeme

theorem identifier_moves (tokens : List Token) :
    Moves move (Name.moved move) (fun tokens => run (identifier tokens)) (fun tokens => run (identifier tokens))
      tokens := by
  cases tokens with
  | nil => rfl
  | cons token rest =>
    obtain ⟨lexeme, span⟩ := token
    cases lexeme <;> rfl

theorem skipping_moves (lexeme : Lexeme) (tokens : List Token) :
    Moves move id (skipping lexeme) (skipping lexeme) tokens := by
  by_cases hNext : Lacks lexeme tokens
  · rw [Moves, skipping, skipping, skip_of_lacks hNext, skip_of_lacks (lacks_moved.mpr hNext)]
    rfl
  · obtain ⟨span, rest, rfl⟩ := exists_of_not_lacks hNext
    refine .cons (fun left => ?_) (fun left => ?_) (.pure ())
    · rw [skipping, rest_skip_self]
    · rw [skipping, Token.moved, rest_skip_self]

theorem separators_moves (tokens : List Token) : Moves move id separators separators tokens := by
  induction tokens with
  | nil => rfl
  | cons token rest ih =>
    by_cases hLexeme : token.lexeme = .semicolon
    · obtain ⟨_, span⟩ := token
      cases hLexeme
      refine .cons (fun left => ?_) (fun left => ?_) ih
      · rw [separators, rest_skipSeparators_self]
        rfl
      · rw [separators, Token.moved, rest_skipSeparators_self]
        rfl
    · have hOther : (token.moved move).lexeme ≠ .semicolon := hLexeme
      rw [Moves, List.map_cons, separators, separators, rest_skipSeparators_of_ne _ hLexeme,
        rest_skipSeparators_of_ne _ hOther]
      rfl

theorem constant_moved (span : Span) (negative : Bool) (digits : String) (rest : List Token) :
    (constant (move.place span) negative digits).map (·, rest.map (Token.moved move)) =
      movedResult move (Expr.moved move) ((constant span negative digits).map (·, rest)) := by
  rw [constant, constant]
  simp only
  cases Word.ofInt? (if negative then -(decimalValue digits : Int) else decimalValue digits) with
  | none => rfl
  | some word => rfl

theorem closing_moves {α : Type} {change : α → α} {finish otherFinish : Span → α}
    (tokens : List Token) (h : ∀ close, otherFinish (move.place close) = change (finish close)) :
    Moves move change (closing finish) (closing otherFinish) tokens :=
  (expect_moves _ _ tokens).map finish otherFinish h

/-! ## Lists in brackets -/

section Lists

variable {α : Type} {change : α → α} {element otherElement : Reading α}
  {more otherMore : Reading (List α × Span)}

def movedList (move : Move) (change : α → α) (values : List α × Span) : List α × Span :=
  (values.1.map change, move.place values.2)

theorem prepend_moves (h : Moves move change element otherElement tokens)
    (hMore : ∀ value rest, element tokens = .ok (value, rest) →
      Moves move (movedList move change) more otherMore rest) :
    Moves move (movedList move change) (andThen element (prepend more)) (andThen otherElement (prepend otherMore))
      tokens :=
  h.andThen fun value rest hRead => (hMore value rest hRead).map _ _ fun _ => rfl

theorem elements_moves (h : Moves move change element otherElement tokens)
    (hMore : ∀ value rest, element tokens = .ok (value, rest) →
      Moves move (movedList move change) more otherMore rest) :
    Moves move (movedList move change) (elements element more) (elements otherElement otherMore) tokens := by
  by_cases hClose : Lacks .closeParen tokens
  · rw [Moves, elements, elements, next?_of_lacks hClose, next?_of_lacks (lacks_moved.mpr hClose)]
    exact prepend_moves h hMore
  · obtain ⟨close, rest, rfl⟩ := exists_of_not_lacks hClose
    rfl

theorem moreElements_moves (expected : Expectation)
    (h : ∀ comma rest, tokens = comma :: rest → Moves move change element otherElement rest)
    (hMore : ∀ comma rest value left, tokens = comma :: rest → element rest = .ok (value, left) →
      Moves move (movedList move change) more otherMore left) :
    Moves move (movedList move change) (moreElements expected element more)
      (moreElements expected otherElement otherMore) tokens := by
  by_cases hComma : Lacks .comma tokens
  · rw [Moves, moreElements, moreElements, next?_of_lacks hComma, next?_of_lacks (lacks_moved.mpr hComma)]
    exact (expect_moves .closeParen expected tokens).map _ _ fun _ => rfl
  · obtain ⟨comma, rest, rfl⟩ := exists_of_not_lacks hComma
    exact prepend_moves (h _ rest rfl) fun value left hValue => hMore _ rest value left rfl hValue

end Lists

/-! ## Expressions -/

theorem target?_moved (e : Expr) : target? (e.moved move) = (target? e).map (Name.moved move) := by
  cases e <;> rfl

theorem negativeConstant_moves (sign : Span) (tokens : List Token) :
    Moves move (Expr.moved move) (fun tokens => run (negativeConstant sign tokens))
      (fun tokens => run (negativeConstant (move.place sign) tokens)) tokens := by
  cases tokens with
  | nil => rfl
  | cons token rest =>
    obtain ⟨lexeme, span⟩ := token
    cases lexeme with
    | integer digits =>
      rw [Moves, run_negativeConstant, List.map_cons]
      refine (run_negativeConstant _ _ _ _).trans ?_
      rw [← move.through]
      exact constant_moved (sign.through span) true digits rest
    | identifier _ | keyword _ | openParen | closeParen | semicolon | comma | plus | minus | asterisk
    | doubleEquals | lessThan | lessOrEqual | greaterThan | greaterOrEqual | equals => rfl

theorem bracketed_moves (open_ : Span) (inner : Expr) (tokens : List Token) :
    Moves move (Expr.moved move) (bracketed open_ inner) (bracketed (move.place open_) (inner.moved move)) tokens := by
  refine (expect_moves .closeParen _ tokens).map _ _ fun close => ?_
  rw [Expr.moved_withSpan, move.through]

theorem through_moved (lhs rhs : Expr) :
    (lhs.moved move).span.through (rhs.moved move).span = move.place (lhs.span.through rhs.span) := by
  rw [Expr.span_moved, Expr.span_moved, move.through]

mutual

theorem expression_moves (tokens : List Token) :
    Moves move (Expr.moved move) (fun tokens => run (expression tokens)) (fun tokens => run (expression tokens))
      tokens := by
  rw [expression_eq]
  refine (comparison_moves tokens).andThen fun lhs rest hRest => ?_
  have hShorter := length_of_run hRest
  exact assigned_moves lhs rest
termination_by (tokens.length, 6)
decreasing_by
  · exact Prod.Lex.right _ (by omega)
  · exact Prod.Lex.left _ _ hShorter

theorem assigned_moves (lhs : Expr) (tokens : List Token) :
    Moves move (Expr.moved move) (assigned lhs) (assigned (lhs.moved move)) tokens := by
  by_cases hEquals : Lacks .equals tokens
  · rw [Moves, assigned_of_lacks hEquals, assigned_of_lacks (lacks_moved.mpr hEquals)]
    rfl
  · obtain ⟨span, after, hTokens⟩ := exists_of_not_lacks hEquals
    have hOther : target? (lhs.moved move) = (target? lhs).map (Name.moved move) := target?_moved lhs
    rw [hTokens]
    cases hTarget : target? lhs with
    | none =>
      rw [hTarget] at hOther
      rw [Moves, assigned_self, hTarget]
      refine (assigned_self (move.place span) _).trans ?_
      rw [hOther]
      rfl
    | some target =>
      rw [hTarget] at hOther
      refine .cons (fun rest => ?_) (fun rest => ?_) ((expression_moves after).map
        (fun value => .assign (lhs.span.through value.span) target value)
        (fun value => .assign ((lhs.moved move).span.through value.span) (target.moved move) value) fun value => ?_)
      · rw [assigned_self, hTarget]
      · refine (assigned_self (move.place span) _).trans ?_
        rw [hOther]
        rfl
      · rw [through_moved]
        rfl
termination_by (tokens.length, 0)
decreasing_by
  exact Prod.Lex.left _ _ (by simp [hTokens])

theorem comparison_moves (tokens : List Token) :
    Moves move (Expr.moved move) (fun tokens => run (comparison tokens)) (fun tokens => run (comparison tokens))
      tokens := by
  rw [comparison_eq]
  refine (chain_moves .sum tokens).andThen fun lhs rest hRest => ?_
  have hShorter := length_of_run hRest
  exact compared_moves lhs rest
termination_by (tokens.length, 5)
decreasing_by
  · exact Prod.Lex.right _ (by simp [Level.rank])
  · exact Prod.Lex.left _ _ hShorter

theorem compared_moves (lhs : Expr) (tokens : List Token) :
    Moves move (Expr.moved move) (compared lhs) (compared (lhs.moved move)) tokens := by
  cases tokens with
  | nil => rfl
  | cons token after =>
    have hOther : comparison? (token.moved move).lexeme = comparison? token.lexeme := rfl
    cases hOp : comparison? token.lexeme with
    | none =>
      rw [Moves, List.map_cons, compared, compared, hOther, hOp]
      rfl
    | some op =>
      refine .cons (fun rest => ?_) (fun rest => ?_) ((chain_moves .sum after).map
        (fun rhs => .compare (lhs.span.through rhs.span) op lhs rhs)
        (fun rhs => .compare ((lhs.moved move).span.through rhs.span) op (lhs.moved move) rhs) fun rhs => ?_)
      · rw [compared, hOp]
      · rw [compared, hOther, hOp]
      · rw [through_moved]
        rfl
termination_by (tokens.length, 0)
decreasing_by
  exact Prod.Lex.left _ _ (by simp)

theorem chain_moves (level : Level) (tokens : List Token) :
    Moves move (Expr.moved move) (fun tokens => run (chain level tokens)) (fun tokens => run (chain level tokens))
      tokens := by
  rw [chain_eq]
  refine (operand_moves level tokens).andThen fun first rest hRest => ?_
  have hShorter := length_of_run hRest
  exact chainFrom_moves level first rest
termination_by (tokens.length, level.rank + 1)
decreasing_by
  · exact Prod.Lex.right _ (by omega)
  · exact Prod.Lex.left _ _ hShorter

theorem chainFrom_moves (level : Level) (front : Expr) (tokens : List Token) :
    Moves move (Expr.moved move) (fun tokens => runMaybe (chainFrom level front tokens))
      (fun tokens => runMaybe (chainFrom level (front.moved move) tokens)) tokens := by
  cases tokens with
  | nil =>
    rw [Moves, run_chainFrom, List.map_nil, run_chainFrom]
    rfl
  | cons token rest =>
    have hOther : level.operator? (token.moved move).lexeme = level.operator? token.lexeme := rfl
    cases hOp : level.operator? token.lexeme with
    | none =>
      rw [Moves, List.map_cons, chainFrom_of_none hOp, chainFrom_of_none (hOther.trans hOp)]
      rfl
    | some op =>
      refine .cons (chainFrom_of_some hOp) (chainFrom_of_some (hOther.trans hOp))
        ((operand_moves level rest).andThen fun rhs left hLeft => ?_)
      have hShorter := length_of_run hLeft
      have hJoined : (.binary ((front.moved move).span.through (rhs.moved move).span) op (front.moved move)
          (rhs.moved move)) = (Expr.binary (front.span.through rhs.span) op front rhs).moved move := by
        rw [through_moved]
        rfl
      rw [Moves, joined, hJoined]
      exact chainFrom_moves level _ left
termination_by (tokens.length, 0)
decreasing_by
  · exact Prod.Lex.left _ _ (by simp)
  · exact Prod.Lex.left _ _ (by grind)

theorem operand_moves (level : Level) (tokens : List Token) :
    Moves move (Expr.moved move) (fun tokens => run (operand level tokens)) (fun tokens => run (operand level tokens))
      tokens := by
  cases level with
  | sum =>
    rw [operand_sum]
    exact chain_moves .product tokens
  | product =>
    rw [operand_product]
    exact atom_moves tokens
termination_by (tokens.length, level.rank)
decreasing_by
  · exact Prod.Lex.right _ (by simp [Level.rank])
  · exact Prod.Lex.right _ (by simp [Level.rank])

theorem atom_moves (tokens : List Token) :
    Moves move (Expr.moved move) (fun tokens => run (atom tokens)) (fun tokens => run (atom tokens)) tokens := by
  cases tokens with
  | nil =>
    rw [Moves, List.map_nil, run_atom]
    rfl
  | cons token rest =>
    obtain ⟨lexeme, span⟩ := token
    cases lexeme with
    | integer digits =>
      rw [Moves, run_atom, List.map_cons, run_atom]
      exact constant_moved span false digits rest
    | minus => exact .cons (fun _ => run_atom _) (fun _ => run_atom _) (negativeConstant_moves span rest)
    | identifier name => exact .cons (fun _ => run_atom _) (fun _ => run_atom _) (called_moves name span rest)
    | openParen =>
      exact .cons (atom_openParen span) (atom_openParen (move.place span))
        ((expression_moves rest).andThen fun inner left _ => bracketed_moves span inner left)
    | keyword word =>
      cases word with
      | if_ => exact .cons (fun _ => run_atom _) (fun _ => run_atom _) (conditional_moves span rest)
      | for_ => exact .cons (fun _ => run_atom _) (fun _ => run_atom _) (loop_moves span rest)
      | def_ | extern_ | then_ | else_ | do_ | end_ =>
        rw [Moves, run_atom, List.map_cons, run_atom]
        rfl
    | closeParen | semicolon | comma | plus | asterisk | doubleEquals | lessThan | lessOrEqual | greaterThan
    | greaterOrEqual | equals =>
      rw [Moves, run_atom, List.map_cons, run_atom]
      rfl
termination_by (tokens.length, 0)
decreasing_by
  all_goals exact Prod.Lex.left _ _ (by simp)

theorem called_moves (name : String) (span : Span) (tokens : List Token) :
    Moves move (Expr.moved move) (called name span) (called name (move.place span)) tokens := by
  by_cases hOpen : Lacks .openParen tokens
  · rw [Moves, called_of_lacks hOpen, called_of_lacks (lacks_moved.mpr hOpen)]
    rfl
  · obtain ⟨open_, left, hTokens⟩ := exists_of_not_lacks hOpen
    rw [hTokens]
    refine .cons (called_self name span open_) (called_self name (move.place span) (move.place open_))
      ((arguments_moves left).map _ _ fun values => ?_)
    rw [Expr.moved, movedAll_eq_map, move.through]
    rfl
termination_by (tokens.length, 0)
decreasing_by
  exact Prod.Lex.left _ _ (by simp [hTokens])

theorem arguments_moves (tokens : List Token) :
    Moves move (movedList move (Expr.moved move)) (fun tokens => run (arguments tokens))
      (fun tokens => run (arguments tokens)) tokens := by
  rw [arguments_eq]
  refine elements_moves (expression_moves tokens) fun first rest hRest => ?_
  have hShorter := length_of_run hRest
  exact moreArguments_moves rest
termination_by (tokens.length, 7)
decreasing_by
  · exact Prod.Lex.right _ (by omega)
  · exact Prod.Lex.left _ _ hShorter

theorem moreArguments_moves (tokens : List Token) :
    Moves move (movedList move (Expr.moved move)) (fun tokens => run (moreArguments tokens))
      (fun tokens => run (moreArguments tokens)) tokens := by
  rw [moreArguments_eq]
  refine moreElements_moves .commaOrClose ?_ ?_
  · intro comma rest hTokens
    exact expression_moves rest
  · intro comma rest next left hTokens hLeft
    have hShorter := length_of_run hLeft
    exact moreArguments_moves left
termination_by (tokens.length, 7)
decreasing_by
  · exact Prod.Lex.left _ _ (by simp [hTokens])
  · exact Prod.Lex.left _ _ (by grind)

theorem conditional_moves (keyword : Span) (tokens : List Token) :
    Moves move (Expr.moved move) (fun tokens => run (conditional keyword tokens))
      (fun tokens => run (conditional (move.place keyword) tokens)) tokens := by
  rw [conditional_eq, conditional_eq]
  refine (expression_moves tokens).andThen fun condition rest hRest => ?_
  have hShorter := length_of_run hRest
  refine (skipping_moves _ rest).andThen fun _ body hBody => ?_
  have hKept := skipping_keeps _ _ _ _ hBody
  refine (sequence_moves true body).andThen fun positive left hLeft => ?_
  have hKept' := length_of_runMaybe hLeft
  refine (otherArm_moves left).andThen fun negative final _ => ?_
  refine closing_moves final fun close => ?_
  rw [Expr.moved, move.through]
termination_by (tokens.length, 7)
decreasing_by
  · exact Prod.Lex.right _ (by omega)
  · exact Prod.Lex.left _ _ (by omega)
  · exact Prod.Lex.left _ _ (by omega)

theorem otherArm_moves (tokens : List Token) :
    Moves move (movedAll move) (fun tokens => runMaybe (otherArm tokens)) (fun tokens => runMaybe (otherArm tokens))
      tokens := by
  by_cases hElse : Lacks (.keyword .else_) tokens
  · rw [Moves, otherArm_of_lacks hElse, otherArm_of_lacks (lacks_moved.mpr hElse)]
    rfl
  · obtain ⟨span, rest, hTokens⟩ := exists_of_not_lacks hElse
    rw [hTokens]
    refine .cons (fun left => ?_) (fun left => ?_) (sequence_moves false rest)
    · rw [run_otherArm, next?_self]
    · rw [run_otherArm, Token.moved, next?_self]
termination_by (tokens.length, 7)
decreasing_by
  exact Prod.Lex.left _ _ (by simp [hTokens])

theorem loop_moves (keyword : Span) (tokens : List Token) :
    Moves move (Expr.moved move) (fun tokens => run (loop keyword tokens)) (fun tokens => run (loop (move.place keyword) tokens))
      tokens := by
  rw [loop_eq, loop_eq]
  refine (expression_moves tokens).andThen fun initializer rest₁ h₁ => ?_
  have hShorter₁ := length_of_run h₁
  refine (expect_moves .semicolon _ rest₁).andThen fun _ rest₂ h₂ => ?_
  have hShorter₂ := length_of_run h₂
  refine (expression_moves rest₂).andThen fun condition rest₃ h₃ => ?_
  have hShorter₃ := length_of_run h₃
  refine (expect_moves .semicolon _ rest₃).andThen fun _ rest₄ h₄ => ?_
  have hShorter₄ := length_of_run h₄
  refine (expression_moves rest₄).andThen fun step rest₅ h₅ => ?_
  have hShorter₅ := length_of_run h₅
  refine (skipping_moves _ rest₅).andThen fun _ rest₆ h₆ => ?_
  have hKept := skipping_keeps _ _ _ _ h₆
  refine (sequence_moves false rest₆).andThen fun body rest₇ _ => ?_
  refine closing_moves rest₇ fun close => ?_
  rw [Expr.moved, move.through]
termination_by (tokens.length, 7)
decreasing_by
  · exact Prod.Lex.right _ (by omega)
  · exact Prod.Lex.left _ _ (by omega)
  · exact Prod.Lex.left _ _ (by omega)
  · exact Prod.Lex.left _ _ (by omega)

theorem sequence_moves (elseToo : Bool) (tokens : List Token) :
    Moves move (movedAll move) (fun tokens => runMaybe (sequence elseToo tokens))
      (fun tokens => runMaybe (sequence elseToo tokens)) tokens := by
  rw [sequence_eq]
  refine (separators_moves tokens).andThen fun _ rest hRest => ?_
  have hNoMore := separators_keeps _ _ _ hRest
  exact sequenced_moves elseToo rest
termination_by (tokens.length, 8)
decreasing_by
  rcases Nat.lt_or_eq_of_le hNoMore with hLess | hEq
  · exact Prod.Lex.left _ _ hLess
  · rw [hEq]
    exact Prod.Lex.right _ (by omega)

theorem sequenced_moves (elseToo : Bool) (tokens : List Token) :
    Moves move (movedAll move) (sequenced elseToo) (sequenced elseToo) tokens := by
  cases tokens with
  | nil => rfl
  | cons token rest =>
    have hOther : closes elseToo (token.moved move).lexeme = closes elseToo token.lexeme := rfl
    cases hCloses : closes elseToo token.lexeme with
    | true =>
      rw [Moves, List.map_cons, sequenced, sequenced, hOther, hCloses]
      rfl
    | false =>
      rw [Moves, List.map_cons, sequenced_of_ne hCloses, sequenced_of_ne (hOther.trans hCloses)]
      refine (expression_moves (token :: rest)).andThen fun first left hLeft => ?_
      have hShorter := length_of_run hLeft
      exact (sequence_moves elseToo left).map _ _ fun _ => rfl
termination_by (tokens.length, 7)
decreasing_by
  · exact Prod.Lex.right _ (by omega)
  · exact Prod.Lex.left _ _ hShorter

end

/-! ## Items -/

theorem moreParameters_moves (tokens : List Token) :
    Moves move (movedList move (Name.moved move)) (fun tokens => run (parameters.moreParameters tokens))
      (fun tokens => run (parameters.moreParameters tokens)) tokens := by
  rw [moreParameters_eq]
  refine moreElements_moves (.exactly .closeParen) (fun _ rest _ => identifier_moves rest) ?_
  intro comma rest next left hTokens hLeft
  have hShorter := length_of_run hLeft
  exact moreParameters_moves left
termination_by tokens.length
decreasing_by
  rw [hTokens, List.length_cons]
  omega

theorem parameters_moves (tokens : List Token) :
    Moves move (movedList move (Name.moved move)) (fun tokens => run (parameters tokens))
      (fun tokens => run (parameters tokens)) tokens := by
  rw [parameters_eq]
  exact elements_moves (identifier_moves tokens) fun _ rest _ => moreParameters_moves rest

theorem prototype_moves (tokens : List Token) :
    Moves move (Prototype.moved move) (fun tokens => run (prototype tokens)) (fun tokens => run (prototype tokens))
      tokens := by
  rw [prototype_eq]
  refine (identifier_moves tokens).andThen fun name rest _ => ?_
  refine (expect_moves .openParen _ rest).andThen fun _ left _ => ?_
  refine (parameters_moves left).map _ _ fun names => ?_
  rw [Prototype.moved, move.through]
  rfl

theorem definition_moves (keyword : Span) (tokens : List Token) :
    Moves move (Item.moved move) (fun tokens => run (definition keyword tokens))
      (fun tokens => run (definition (move.place keyword) tokens)) tokens := by
  rw [definition_eq, definition_eq]
  refine (prototype_moves tokens).andThen fun head rest _ => ?_
  refine (expression_moves rest).andThen fun body left _ => ?_
  refine (separators_moves left).andThen fun _ final _ => ?_
  refine closing_moves final fun close => ?_
  rw [Item.moved, move.through]

theorem item_moves (tokens : List Token) :
    Moves move (Item.moved move) (fun tokens => run (item tokens)) (fun tokens => run (item tokens)) tokens := by
  cases tokens with
  | nil => rfl
  | cons token rest =>
    obtain ⟨lexeme, span⟩ := token
    by_cases hDef : lexeme = .keyword .def_
    · cases hDef
      exact .cons (fun _ => run_item _) (fun _ => run_item _) (definition_moves span rest)
    · by_cases hExtern : lexeme = .keyword .extern_
      · cases hExtern
        refine .cons (item_declaration span) (item_declaration (move.place span))
          ((prototype_moves rest).map _ _ fun head => ?_)
        rw [Item.moved, move.through]
        rfl
      · have hRead : ∀ span left, run (item (⟨lexeme, span⟩ :: left)) = evaluated (⟨lexeme, span⟩ :: left) :=
          fun span left => item_of_ne hDef hExtern left
        rw [Moves, hRead]
        refine (hRead (move.place span) _).trans ?_
        exact (expression_moves (⟨lexeme, span⟩ :: rest)).map _ _ fun _ => rfl

theorem program_moves (tokens : List Token) :
    Moves move (List.map (Item.moved move)) program program tokens := by
  rw [program_eq]
  refine (separators_moves tokens).andThen fun _ rest hRest => ?_
  have hNoMore := separators_keeps _ _ _ hRest
  cases hTokens : rest with
  | nil => rfl
  | cons token after =>
    change Moves move _ itemAndMore itemAndMore (token :: after)
    refine (item_moves (token :: after)).andThen fun first left hLeft => ?_
    have hShorter := length_of_run hLeft
    exact (program_moves left).map _ _ fun _ => rfl
termination_by tokens.length
decreasing_by
  rw [hTokens] at hNoMore
  omega

/-! ## Tokens with the same lexemes -/

section Lexemes

variable {other : List Token} (hLexemes : tokens.map Token.lexeme = other.map Token.lexeme)
include hLexemes

/-- Without their places, the tokens are the same. -/
theorem program_together : movedResult .together (List.map (Item.moved .together)) (program tokens) =
    movedResult .together (List.map (Item.moved .together)) (program other) := by
  have hBare : ∀ ts : List Token, ts.map (Token.moved .together) = (ts.map Token.lexeme).map Token.bare := by
    intro ts
    rw [List.map_map]
    rfl
  rw [← program_moves tokens, ← program_moves other, hBare, hBare, hLexemes]

theorem items_ok_of_lexemes {found : List Item} (h : items tokens = .ok found) :
    ∃ found', found'.map Item.unplaced = found.map Item.unplaced ∧ items other = .ok found' := by
  have hSame := program_together hLexemes
  rw [program_eq_ok.mpr ⟨h, rfl⟩] at hSame
  obtain ⟨found', rest, hOther, hFound⟩ := movedResult_eq_ok hSame.symm
  rw [funext Item.moved_together] at hFound
  exact ⟨found', hFound, (program_eq_ok.mp hOther).1⟩

theorem items_because_of_lexemes {error : ParseError} (h : items tokens = .error (.because error)) :
    ∃ error', error'.cause = error.cause ∧ items other = .error (.because error') := by
  have hSame := program_together hLexemes
  rw [program_eq_error.mpr h] at hSame
  obtain ⟨rejection, hOther, hRejection⟩ := movedResult_eq_error hSame.symm
  cases rejection with
  | ended expected => cases hRejection
  | because error' =>
    have hCause := congrArg ParseError.cause (Rejection.because.inj hRejection)
    exact ⟨error', hCause, program_eq_error.mp hOther⟩

theorem items_ended_of_lexemes {expected : Expectation} (h : items tokens = .error (.ended expected)) :
    items other = .error (.ended expected) := by
  have hSame := program_together hLexemes
  rw [program_eq_error.mpr h] at hSame
  obtain ⟨rejection, hOther, hRejection⟩ := movedResult_eq_error hSame.symm
  cases rejection with
  | because error => cases hRejection
  | ended expected' =>
    cases hRejection
    exact program_eq_error.mp hOther

end Lexemes

end Parser
end Slate
