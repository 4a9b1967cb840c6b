import Slate.Proofs.Parser.Reports

/-! # What the parsing functions can be read from

Each function is cut into readings that follow each other. Wherever reading stands between two of them, some
lexemes complete it: a `0` for an expression, and `end` or a bracket for what is still open.
-/

namespace Slate
set_option autoImplicit false

namespace Parser

variable {tokens : List Token}

/-! ## Lexemes that complete -/

@[simp] theorem keyword_spelled (word : Keyword) : (Lexeme.keyword word).Spelled := trivial

@[simp] theorem openParen_spelled : Lexeme.openParen.Spelled := trivial

@[simp] theorem closeParen_spelled : Lexeme.closeParen.Spelled := trivial

@[simp] theorem semicolon_spelled : Lexeme.semicolon.Spelled := trivial

@[simp] theorem zero_spelled : (Lexeme.integer "0").Spelled := by
  simp [Lexeme.Spelled, isDigit]

@[simp] theorem x_spelled : (Lexeme.identifier "x").Spelled := by
  change isName "x" = true
  decide

/-! ## Single tokens -/

/-- The given lexeme is not next. -/
def Lacks (lexeme : Lexeme) (tokens : List Token) : Prop :=
  ∀ token ∈ tokens.head?, token.lexeme ≠ lexeme

def skipping (lexeme : Lexeme) : Reading Unit := fun tokens => .ok ((), (skip lexeme tokens).rest)

def separators : Reading Unit := fun tokens => .ok ((), (skipSeparators tokens).rest)

theorem Lacks.congr {lexeme : Lexeme} {other : List Token} (h : Lacks lexeme tokens)
    (hHead : other.head? = tokens.head?) : Lacks lexeme other := by
  rw [Lacks, hHead]
  exact h

theorem separators_keeps : Keeps separators := by
  intro tokens value rest hRead
  cases hRead
  exact (skipSeparators tokens).noMore

theorem lacks_of_stops {lexeme : Lexeme} {place : Nat} (h : Stops place tokens)
    (hLexeme : continues? lexeme = some place) : Lacks lexeme tokens := by
  intro token hToken
  cases tokens with
  | nil => cases hToken
  | cons first rest =>
    cases hToken
    exact h.ne hLexeme

theorem exists_of_not_lacks {lexeme : Lexeme} (h : ¬ Lacks lexeme tokens) :
    ∃ span rest, tokens = ⟨lexeme, span⟩ :: rest := by
  cases tokens with
  | nil => exact absurd (fun _ hToken => by cases hToken) h
  | cons token rest =>
    obtain ⟨found, span⟩ := token
    by_cases hLexeme : found = lexeme
    · exact ⟨span, rest, by rw [hLexeme]⟩
    · refine absurd (fun token hToken => ?_) h
      cases hToken
      exact hLexeme

theorem rest_skip_self (lexeme : Lexeme) (span : Span) (rest : List Token) :
    (skip lexeme (⟨lexeme, span⟩ :: rest)).rest = rest := by
  simp [skip]

theorem skip_of_lacks {lexeme : Lexeme} (h : Lacks lexeme tokens) : (skip lexeme tokens).rest = tokens := by
  cases tokens with
  | nil => rfl
  | cons token rest => simp [skip, h token rfl]

theorem skipSeparators_of_lacks (h : Lacks .semicolon tokens) : (skipSeparators tokens).rest = tokens := by
  cases tokens with
  | nil => rfl
  | cons token rest => exact rest_skipSeparators_of_ne rest (h token rfl)

theorem expect_opens (lexeme : Lexeme) (expected : Expectation) :
    Opens [lexeme] (fun tokens => run (expect lexeme expected tokens)) Anything :=
  fun rest _ => ⟨_, run_expect_self lexeme default rest expected⟩

theorem identifier_opens : Opens [.identifier "x"] (fun tokens => run (identifier tokens)) Anything :=
  fun _ _ => ⟨_, rfl⟩

theorem skipping_opens (lexeme : Lexeme) : Opens [] (skipping lexeme) (Lacks lexeme) := by
  intro rest hRest
  refine ⟨(), ?_⟩
  rw [List.map_nil, List.nil_append, skipping, skip_of_lacks hRest]

theorem skipping_keeps (lexeme : Lexeme) : Keeps (skipping lexeme) := by
  intro tokens value rest hRead
  cases hRead
  exact (skip lexeme tokens).noMore

theorem separators_opens : Opens [] separators (Lacks .semicolon) := by
  intro rest hRest
  refine ⟨(), ?_⟩
  rw [List.map_nil, List.nil_append, separators, skipSeparators_of_lacks hRest]

theorem stops_bare {lexeme : Lexeme} (h : continues? lexeme = none) (place : Nat) (rest : List Token) :
    Stops place (Token.bare lexeme :: rest) :=
  .of_none place h

theorem lacks_bare {lexeme other : Lexeme} (h : other ≠ lexeme) (rest : List Token) :
    Lacks lexeme (Token.bare other :: rest) := by
  intro token hToken
  cases hToken
  exact h

theorem next?_of_lacks {lexeme : Lexeme} (h : Lacks lexeme tokens) : next? lexeme tokens = none := by
  cases tokens with
  | nil => rfl
  | cons token rest => exact next?_of_ne _ _ (h token rfl)

theorem shortens_run {α : Type} (read : (tokens : List Token) → Read α tokens) :
    Shortens fun tokens => run (read tokens) :=
  fun _ _ _ h => length_of_run h

theorem keeps_runMaybe {α : Type} (read : (tokens : List Token) → ReadMaybe α tokens) :
    Keeps fun tokens => runMaybe (read tokens) :=
  fun _ _ _ h => length_of_runMaybe h

/-! ## Expressions from nothing -/

theorem atom_opens : Opens [.integer "0"] (fun tokens => run (atom tokens)) (Stops 4) := by
  intro rest _
  have hZero : constant default false "0" = .ok (.int default 0) := by cbv
  refine ⟨.int default 0, ?_⟩
  change run (atom (⟨.integer "0", default⟩ :: rest)) = _
  rw [run_atom]
  simp only [hZero]
  rfl

theorem bridge_nil {α β : Type} {stop stop' : List Token → Prop} {next : α → Reading β}
    (hStop : ∀ rest, stop' rest → stop rest)
    (hNext : ∀ value rest, stop' rest → ∃ result, next value rest = .ok (result, rest)) :
    Bridge [] stop next stop' := by
  refine ⟨?_, hStop, hNext⟩
  intro lexeme hMem
  cases hMem

theorem chainFrom_bridge (level : Level) : Bridge [] (Stops (level.place + 1))
    (fun front tokens => runMaybe (chainFrom level front tokens)) (Stops level.place) :=
  bridge_nil (fun _ hRest => hRest.mono (Nat.le_succ _)) fun value _ hRest => ⟨value, chainFrom_of_stops hRest⟩

/-- What a chain does with the operand behind an operator. -/
def joined (level : Level) (front : Expr) (op : Arith) (rhs : Expr) : Reading Expr := fun tokens =>
  runMaybe (chainFrom level (.binary (front.span.through rhs.span) op front rhs) tokens)

theorem chainFrom_of_none {level : Level} {front : Expr} {token : Token}
    (h : level.operator? token.lexeme = none) (rest : List Token) :
    runMaybe (chainFrom level front (token :: rest)) = .ok (front, token :: rest) := by
  rw [run_chainFrom]
  simp only [h]

theorem chainFrom_of_some {level : Level} {front : Expr} {token : Token} {op : Arith}
    (h : level.operator? token.lexeme = some op) (rest : List Token) :
    runMaybe (chainFrom level front (token :: rest)) =
      andThen (fun tokens => run (operand level tokens)) (joined level front op) rest := by
  rw [run_chainFrom]
  simp only [h]
  rfl

theorem joined_bridge (level : Level) (front : Expr) (op : Arith) :
    Bridge [] (Stops (level.place + 1)) (joined level front op) (Stops level.place) :=
  bridge_nil (fun _ hRest => hRest.mono (Nat.le_succ _)) fun _ _ hRest => ⟨_, chainFrom_of_stops hRest⟩

theorem chain_eq (level : Level) : (fun tokens => run (chain level tokens)) =
    andThen (fun tokens => run (operand level tokens))
      (fun front tokens => runMaybe (chainFrom level front tokens)) := by
  funext tokens
  exact run_chain level tokens

theorem operand_product : (fun tokens => run (operand .product tokens)) = fun tokens => run (atom tokens) := by
  funext tokens
  exact run_operand .product tokens

theorem operand_sum : (fun tokens => run (operand .sum tokens)) = fun tokens => run (chain .product tokens) := by
  funext tokens
  exact run_operand .sum tokens

theorem operand_opens (level : Level) :
    Opens [.integer "0"] (fun tokens => run (operand level tokens)) (Stops (level.place + 1)) := by
  cases level with
  | product =>
    rw [operand_product]
    exact atom_opens
  | sum =>
    rw [operand_sum, chain_eq, operand_product]
    exact atom_opens.andThen (chainFrom_bridge .product)

theorem chain_opens (level : Level) :
    Opens [.integer "0"] (fun tokens => run (chain level tokens)) (Stops level.place) := by
  rw [chain_eq]
  exact (operand_opens level).andThen (chainFrom_bridge level)

/-- What a comparison does with its left side. -/
def compared (lhs : Expr) : Reading Expr
  | [] => .ok (lhs, [])
  | token :: after =>
    match comparison? token.lexeme with
    | none => .ok (lhs, token :: after)
    | some op => andThen (fun tokens => run (chain .sum tokens))
      (fun rhs left => .ok (.compare (lhs.span.through rhs.span) op lhs rhs, left)) after

theorem comparison_eq : (fun tokens => run (comparison tokens)) =
    andThen (fun tokens => run (chain .sum tokens)) compared := by
  funext tokens
  exact run_comparison tokens

theorem compared_of_stops {lhs : Expr} {rest : List Token} (h : Stops 1 rest) :
    compared lhs rest = .ok (lhs, rest) := by
  cases rest with
  | nil => rfl
  | cons token after => rw [compared, comparison?_of_stops h]

theorem compared_bridge : Bridge [] (Stops 2) compared (Stops 1) :=
  bridge_nil (fun _ hRest => hRest.mono (by omega)) fun lhs _ hRest => ⟨lhs, compared_of_stops hRest⟩

theorem comparison_opens : Opens [.integer "0"] (fun tokens => run (comparison tokens)) (Stops 1) := by
  rw [comparison_eq]
  exact (chain_opens .sum).andThen compared_bridge

/-- What an assignment does with its left side. -/
def assigned (lhs : Expr) : Reading Expr
  | [] => .ok (lhs, [])
  | token :: after =>
    if token.lexeme = .equals then
      match target? lhs with
      | none => .error (.because ⟨.invalidAssignmentTarget, token.span⟩)
      | some target => andThen (fun tokens => run (expression tokens))
        (fun value left => .ok (.assign (lhs.span.through value.span) target value, left)) after
    else .ok (lhs, token :: after)

theorem expression_eq : (fun tokens => run (expression tokens)) =
    andThen (fun tokens => run (comparison tokens)) assigned := by
  funext tokens
  exact run_expression tokens

theorem assigned_self {lhs : Expr} (span : Span) (after : List Token) :
    assigned lhs (⟨.equals, span⟩ :: after) = match target? lhs with
      | none => .error (.because ⟨.invalidAssignmentTarget, span⟩)
      | some target => andThen (fun tokens => run (expression tokens))
        (fun value left => .ok (.assign (lhs.span.through value.span) target value, left)) after := by
  rw [assigned, if_pos rfl]

theorem assigned_of_lacks {lhs : Expr} (h : Lacks .equals tokens) : assigned lhs tokens = .ok (lhs, tokens) := by
  cases tokens with
  | nil => rfl
  | cons token after => rw [assigned, if_neg (h token rfl)]

theorem assigned_of_stops {lhs : Expr} {rest : List Token} (h : Stops 0 rest) :
    assigned lhs rest = .ok (lhs, rest) :=
  assigned_of_lacks (lacks_of_stops h rfl)

theorem assigned_bridge : Bridge [] (Stops 1) assigned (Stops 0) :=
  bridge_nil (fun _ hRest => hRest.mono (Nat.zero_le _)) fun lhs _ hRest => ⟨lhs, assigned_of_stops hRest⟩

theorem expression_opens : Opens [.integer "0"] (fun tokens => run (expression tokens)) (Stops 0) := by
  rw [expression_eq]
  exact comparison_opens.andThen assigned_bridge

/-! ## Lists in brackets

Arguments and parameters are read in the same way.
-/

section Lists

variable {α : Type} {element : Reading α} {more : Reading (List α × Span)}

def prepend (more : Reading (List α × Span)) (first : α) : Reading (List α × Span) :=
  andThen more fun others rest => .ok ((first :: others.1, others.2), rest)

/-- Elements up to a closing bracket. -/
def elements (element : Reading α) (more : Reading (List α × Span)) : Reading (List α × Span) := fun tokens =>
  match next? .closeParen tokens with
  | some (close, rest) => .ok (([], close), rest)
  | none => andThen element (prepend more) tokens

/-- Elements after the first, each behind a comma. -/
def moreElements (expected : Expectation) (element : Reading α) (more : Reading (List α × Span)) :
    Reading (List α × Span) := fun tokens =>
  match next? .comma tokens with
  | none => andThen (fun tokens => run (expect .closeParen expected tokens))
    (fun close rest => .ok (([], close), rest)) tokens
  | some (_, rest) => andThen element (prepend more) rest

theorem elements_opens : Opens [.closeParen] (elements element more) Anything :=
  fun _ _ => ⟨_, rfl⟩

theorem moreElements_opens (expected : Expectation) :
    Opens [.closeParen] (moreElements expected element more) Anything :=
  fun _ _ => ⟨_, rfl⟩

end Lists

theorem arguments_eq : (fun tokens => run (arguments tokens)) =
    elements (fun tokens => run (expression tokens)) fun tokens => run (moreArguments tokens) := by
  funext tokens
  exact run_arguments tokens

theorem moreArguments_eq : (fun tokens => run (moreArguments tokens)) =
    moreElements .commaOrClose (fun tokens => run (expression tokens))
      fun tokens => run (moreArguments tokens) := by
  funext tokens
  exact run_moreArguments tokens

theorem moreArguments_finishes : Finishes [.closeParen] fun tokens => run (moreArguments tokens) := by
  refine ⟨?_, shortens_run _⟩
  rw [moreArguments_eq]
  exact moreElements_opens .commaOrClose

/-! ## Arms and rounds -/

/-- A keyword that closes a sequence is next. -/
def Closes (elseToo : Bool) (tokens : List Token) : Prop :=
  ∃ token rest, tokens = token :: rest ∧ closes elseToo token.lexeme = true

theorem closes_cases {elseToo : Bool} {lexeme : Lexeme} (h : closes elseToo lexeme = true) :
    lexeme = .keyword .end_ ∨ elseToo = true ∧ lexeme = .keyword .else_ := by
  cases lexeme with
  | keyword word =>
    cases word with
    | end_ => exact .inl rfl
    | else_ => exact .inr ⟨h, rfl⟩
    | def_ | extern_ | if_ | then_ | for_ | do_ => cases h
  | identifier _ | integer _ | openParen | closeParen | semicolon | comma | plus | minus | asterisk
  | doubleEquals | lessThan | lessOrEqual | greaterThan | greaterOrEqual | equals => cases h

namespace Closes

variable {elseToo : Bool}

theorem end_ (rest : List Token) : Closes elseToo (Token.bare (.keyword .end_) :: rest) :=
  ⟨_, rest, rfl, rfl⟩

theorem lacks (h : Closes elseToo tokens) {lexeme : Lexeme} (hLexeme : closes elseToo lexeme = false) :
    Lacks lexeme tokens := by
  obtain ⟨token, rest, rfl, hCloses⟩ := h
  intro other hOther hFound
  cases hOther
  rw [hFound, hLexeme] at hCloses
  cases hCloses

theorem stops (h : Closes elseToo tokens) : Stops 0 tokens := by
  obtain ⟨token, rest, rfl, hCloses⟩ := h
  apply Stops.of_none
  rcases closes_cases hCloses with hLexeme | ⟨_, hLexeme⟩
  · rw [hLexeme]
    rfl
  · rw [hLexeme]
    rfl

theorem congr (h : Closes elseToo tokens) {other : List Token} (hHead : other.head? = tokens.head?) :
    Closes elseToo other := by
  obtain ⟨token, rest, rfl, hCloses⟩ := h
  cases other with
  | nil => cases hHead
  | cons first more =>
    cases hHead
    exact ⟨token, more, rfl, hCloses⟩

end Closes

/-- The keyword `end`, and what it closes. -/
def closing {α : Type} (finish : Span → α) : Reading α :=
  andThen (fun tokens => run (expectExactly (.keyword .end_) tokens))
    fun close rest => .ok (finish close, rest)

theorem closing_finishes {α : Type} (finish : Span → α) : Finishes [.keyword .end_] (closing finish) :=
  ⟨fun _ _ => ⟨_, rfl⟩, (shortens_run _).map finish⟩

/-- A first expression and the rest of its sequence. -/
def oneAndMore (elseToo : Bool) : Reading (List Expr) :=
  andThen (fun tokens => run (expression tokens)) fun first =>
    andThen (fun tokens => runMaybe (sequence elseToo tokens)) fun others after => .ok (first :: others, after)

/-- A sequence where no separator is next. -/
def sequenced (elseToo : Bool) : Reading (List Expr)
  | [] => .error (.ended (.exactly (.keyword .end_)))
  | token :: rest =>
    if closes elseToo token.lexeme then .ok ([], token :: rest) else oneAndMore elseToo (token :: rest)

theorem sequence_eq (elseToo : Bool) : (fun tokens => runMaybe (sequence elseToo tokens)) =
    andThen separators fun _ => sequenced elseToo := by
  funext tokens
  exact run_sequence elseToo tokens

theorem sequenced_of_closes {elseToo : Bool} (h : Closes elseToo tokens) :
    sequenced elseToo tokens = .ok ([], tokens) := by
  obtain ⟨token, rest, rfl, hCloses⟩ := h
  rw [sequenced, if_pos hCloses]

theorem sequenced_of_ne {elseToo : Bool} {token : Token} (h : closes elseToo token.lexeme = false)
    (rest : List Token) : sequenced elseToo (token :: rest) = oneAndMore elseToo (token :: rest) := by
  rw [sequenced, h]
  rfl

theorem sequenced_bridge (elseToo : Bool) :
    Bridge [] (Lacks .semicolon) (fun _ : Unit => sequenced elseToo) (Closes elseToo) :=
  bridge_nil (fun _ hRest => hRest.lacks rfl) fun _ _ hRest => ⟨[], sequenced_of_closes hRest⟩

theorem sequence_opens (elseToo : Bool) :
    Opens [] (fun tokens => runMaybe (sequence elseToo tokens)) (Closes elseToo) := by
  rw [sequence_eq]
  exact separators_opens.andThen (sequenced_bridge elseToo)

theorem oneAndMore_shortens (elseToo : Bool) : Shortens (oneAndMore elseToo) :=
  (shortens_run _).andThen fun _ => (keeps_runMaybe _).map _

theorem sequence_bridge (elseToo : Bool) : Bridge [] (Stops 0) (fun first : Expr =>
    andThen (fun tokens => runMaybe (sequence elseToo tokens)) fun others after => .ok (first :: others, after))
    (Closes elseToo) := by
  refine bridge_nil (fun _ hRest => hRest.stops) fun first left hLeft => ?_
  obtain ⟨others, hOthers⟩ := sequence_opens elseToo left hLeft
  exact ⟨_, andThen_of_ok hOthers⟩

theorem otherArm_of_lacks (h : Lacks (.keyword .else_) tokens) :
    runMaybe (otherArm tokens) = .ok ([], tokens) := by
  rw [run_otherArm, next?_of_lacks h]

theorem otherArm_opens : Opens [] (fun tokens => runMaybe (otherArm tokens)) (Closes false) :=
  fun _ hRest => ⟨[], otherArm_of_lacks (hRest.lacks rfl)⟩

/-- What is left of a conditional behind its first arm. -/
def afterArm (keyword : Span) (condition : Expr) (positive : List Expr) : Reading Expr :=
  andThen (fun tokens => runMaybe (otherArm tokens)) fun negative =>
    closing fun close => .branch (keyword.through close) condition positive negative

/-- What is left of a conditional behind its condition. -/
def arms (keyword : Span) (condition : Expr) : Reading Expr :=
  andThen (skipping (.keyword .then_)) fun _ =>
    andThen (fun tokens => runMaybe (sequence true tokens)) (afterArm keyword condition)

theorem conditional_eq (keyword : Span) : (fun tokens => run (conditional keyword tokens)) =
    andThen (fun tokens => run (expression tokens)) (arms keyword) := by
  funext tokens
  exact run_conditional keyword tokens

section Conditional

variable (keyword : Span) (condition : Expr)

theorem afterArm_finishes (positive : List Expr) :
    Finishes [.keyword .end_] (afterArm keyword condition positive) :=
  Finishes.behind (fun _ => closing_finishes _) Closes.end_ otherArm_opens (keeps_runMaybe _)

theorem bothArms_finishes : Finishes [.keyword .end_]
    (andThen (fun tokens => runMaybe (sequence true tokens)) (afterArm keyword condition)) :=
  Finishes.behind (afterArm_finishes keyword condition) Closes.end_ (sequence_opens true) (keeps_runMaybe _)

theorem arms_finishes : Finishes [.keyword .end_] (arms keyword condition) :=
  Finishes.behind (fun _ => bothArms_finishes keyword condition) (lacks_bare (by decide)) (skipping_opens _)
    (skipping_keeps _)

end Conditional

/-- The body of a loop, and its end. -/
def bodied (keyword : Span) (initializer condition step : Expr) : Reading Expr :=
  andThen (fun tokens => runMaybe (sequence false tokens)) fun body =>
    closing fun close => .loop (keyword.through close) initializer condition step body

/-- What is left of a loop behind its step. -/
def rounds (keyword : Span) (initializer condition step : Expr) : Reading Expr :=
  andThen (skipping (.keyword .do_)) fun _ => bodied keyword initializer condition step

/-- What is left of a loop behind its condition. -/
def stepped (keyword : Span) (initializer condition : Expr) : Reading Expr :=
  andThen (fun tokens => run (expectExactly .semicolon tokens)) fun _ =>
    andThen (fun tokens => run (expression tokens)) (rounds keyword initializer condition)

/-- What is left of a loop behind its initializer. -/
def conditioned (keyword : Span) (initializer : Expr) : Reading Expr :=
  andThen (fun tokens => run (expectExactly .semicolon tokens)) fun _ =>
    andThen (fun tokens => run (expression tokens)) (stepped keyword initializer)

theorem loop_eq (keyword : Span) : (fun tokens => run (loop keyword tokens)) =
    andThen (fun tokens => run (expression tokens)) (conditioned keyword) := by
  funext tokens
  exact run_loop keyword tokens

section Loop

variable (keyword : Span) (initializer condition step : Expr)

theorem bodied_finishes : Finishes [.keyword .end_] (bodied keyword initializer condition step) :=
  Finishes.behind (fun _ => closing_finishes _) Closes.end_ (sequence_opens false) (keeps_runMaybe _)

theorem rounds_finishes : Finishes [.keyword .end_] (rounds keyword initializer condition step) :=
  Finishes.behind (fun _ => bodied_finishes keyword initializer condition step) (lacks_bare (by decide))
    (skipping_opens _) (skipping_keeps _)

theorem step_finishes : Finishes [.integer "0", .keyword .end_]
    (andThen (fun tokens => run (expression tokens)) (rounds keyword initializer condition)) :=
  Finishes.behind (rounds_finishes keyword initializer condition) (stops_bare rfl 0) expression_opens
    (shortens_run _).keeps

theorem stepped_finishes : Finishes [.semicolon, .integer "0", .keyword .end_]
    (stepped keyword initializer condition) :=
  Finishes.behind (fun _ => step_finishes keyword initializer condition) (fun _ => trivial)
    (expect_opens .semicolon _) (shortens_run _).keeps

theorem condition_finishes : Finishes [.integer "0", .semicolon, .integer "0", .keyword .end_]
    (andThen (fun tokens => run (expression tokens)) (stepped keyword initializer)) :=
  Finishes.behind (stepped_finishes keyword initializer) (stops_bare rfl 0) expression_opens
    (shortens_run _).keeps

theorem conditioned_finishes : Finishes [.semicolon, .integer "0", .semicolon, .integer "0", .keyword .end_]
    (conditioned keyword initializer) :=
  Finishes.behind (fun _ => condition_finishes keyword initializer) (fun _ => trivial)
    (expect_opens .semicolon _) (shortens_run _).keeps

end Loop

/-! ## Atoms -/

theorem run_negativeConstant (sign span : Span) (digits : String) (rest : List Token) :
    run (negativeConstant sign (⟨.integer digits, span⟩ :: rest)) =
      (constant (sign.through span) true digits).map (·, rest) := by
  rw [negativeConstant]
  simp only
  generalize constant (sign.through span) true digits = result
  cases result <;> rfl

/-- What follows a name: perhaps the arguments of a call. -/
def called (name : String) (span : Span) : Reading Expr := fun tokens =>
  match next? .openParen tokens with
  | none => .ok (.variable span ⟨name, span⟩, tokens)
  | some (_, left) => andThen (fun tokens => run (arguments tokens))
    (fun values after => .ok (.call (span.through values.2) ⟨name, span⟩ values.1, after)) left

theorem called_self (name : String) (span open_ : Span) (left : List Token) :
    called name span (⟨.openParen, open_⟩ :: left) = andThen (fun tokens => run (arguments tokens))
      (fun values after => .ok (.call (span.through values.2) ⟨name, span⟩ values.1, after)) left := by
  rw [called, next?_self]

theorem called_of_lacks {name : String} {span : Span} (h : Lacks .openParen tokens) :
    called name span tokens = .ok (.variable span ⟨name, span⟩, tokens) := by
  rw [called, next?_of_lacks h]

/-- What follows an opening bracket. -/
def bracketed (open_ : Span) (inner : Expr) : Reading Expr :=
  andThen (fun tokens => run (expectExactly .closeParen tokens))
    fun close rest => .ok (inner.withSpan (open_.through close), rest)

theorem atom_openParen (open_ : Span) (rest : List Token) : run (atom (⟨.openParen, open_⟩ :: rest)) =
    andThen (fun tokens => run (expression tokens)) (bracketed open_) rest :=
  run_atom _

theorem bracketed_finishes (open_ : Span) (inner : Expr) : Finishes [.closeParen] (bracketed open_ inner) :=
  ⟨fun _ _ => ⟨_, rfl⟩, (shortens_run _).map _⟩

/-! ## Items -/

theorem parameters_eq : (fun tokens => run (parameters tokens)) =
    elements (fun tokens => run (identifier tokens)) fun tokens => run (parameters.moreParameters tokens) := by
  funext tokens
  exact run_parameters tokens

theorem moreParameters_eq : (fun tokens => run (parameters.moreParameters tokens)) =
    moreElements (.exactly .closeParen) (fun tokens => run (identifier tokens))
      fun tokens => run (parameters.moreParameters tokens) := by
  funext tokens
  exact run_moreParameters tokens

theorem moreParameters_finishes : Finishes [.closeParen] fun tokens => run (parameters.moreParameters tokens) := by
  refine ⟨?_, shortens_run _⟩
  rw [moreParameters_eq]
  exact moreElements_opens (.exactly .closeParen)

/-- The parameters of a prototype. -/
def named (name : Name) : Reading Prototype :=
  andThen (fun tokens => run (parameters tokens))
    fun names rest => .ok (⟨name.span.through names.2, name, names.1⟩, rest)

/-- What is left of a prototype behind its name. -/
def headed (name : Name) : Reading Prototype :=
  andThen (fun tokens => run (expectExactly .openParen tokens)) fun _ => named name

theorem prototype_eq : (fun tokens => run (prototype tokens)) =
    andThen (fun tokens => run (identifier tokens)) headed := by
  funext tokens
  exact run_prototype tokens

theorem named_finishes (name : Name) : Finishes [.closeParen] (named name) := by
  have hParameters : Finishes [.closeParen] fun tokens => run (parameters tokens) := by
    refine ⟨?_, shortens_run _⟩
    rw [parameters_eq]
    exact elements_opens
  exact hParameters.map _

theorem headed_finishes (name : Name) : Finishes [.openParen, .closeParen] (headed name) :=
  Finishes.behind (fun _ => named_finishes name) (fun _ => trivial) (expect_opens .openParen _)
    (shortens_run _).keeps

/-- What is left of a definition behind its body. -/
def ending (keyword : Span) (head : Prototype) (body : Expr) : Reading Item :=
  andThen separators fun _ => closing fun close => .definition (keyword.through close) head body

/-- What is left of a definition behind its prototype. -/
def defined (keyword : Span) (head : Prototype) : Reading Item :=
  andThen (fun tokens => run (expression tokens)) (ending keyword head)

theorem definition_eq (keyword : Span) : (fun tokens => run (definition keyword tokens)) =
    andThen (fun tokens => run (prototype tokens)) (defined keyword) := by
  funext tokens
  exact run_definition keyword tokens

theorem ending_finishes (keyword : Span) (head : Prototype) (body : Expr) :
    Finishes [.keyword .end_] (ending keyword head body) :=
  Finishes.behind (fun _ => closing_finishes _) (lacks_bare (by decide)) separators_opens separators_keeps

theorem defined_finishes (keyword : Span) (head : Prototype) :
    Finishes [.integer "0", .keyword .end_] (defined keyword head) :=
  Finishes.behind (ending_finishes keyword head) (stops_bare rfl 0) expression_opens (shortens_run _).keeps

/-- An expression as an item. -/
def evaluated : Reading Item :=
  andThen (fun tokens => run (expression tokens)) fun body rest => .ok (.expression body, rest)

theorem item_declaration (keyword : Span) (rest : List Token) : run (item (⟨.keyword .extern_, keyword⟩ :: rest)) =
    andThen (fun tokens => run (prototype tokens))
      (fun head left => .ok (.declaration (keyword.through head.span) head, left)) rest :=
  run_item _

theorem item_of_ne {token : Token} (hDef : token.lexeme ≠ .keyword .def_)
    (hExtern : token.lexeme ≠ .keyword .extern_) (rest : List Token) :
    run (item (token :: rest)) = evaluated (token :: rest) := by
  obtain ⟨lexeme, span⟩ := token
  rw [run_item]
  cases lexeme with
  | keyword word =>
    cases word with
    | def_ => exact absurd rfl hDef
    | extern_ => exact absurd rfl hExtern
    | if_ | then_ | else_ | for_ | do_ | end_ => rfl
  | identifier _ | integer _ | openParen | closeParen | semicolon | comma | plus | minus | asterisk
  | doubleEquals | lessThan | lessOrEqual | greaterThan | greaterOrEqual | equals => rfl

theorem item_opens : Opens [.integer "0"] (fun tokens => run (item tokens)) (Stops 0) := by
  intro rest hRest
  obtain ⟨body, hBody⟩ := expression_opens rest hRest
  refine ⟨.expression body, (item_of_ne (by decide) (by decide) rest).trans ?_⟩
  exact andThen_of_ok hBody

/-- All items, after which nothing is left. -/
def program : Reading (List Item) := fun tokens => (items tokens).map (·, [])

/-- An item and those behind it. -/
def itemAndMore : Reading (List Item) :=
  andThen (fun tokens => run (item tokens)) fun first =>
    andThen program fun others rest => .ok (first :: others, rest)

/-- A program where no separator is next. -/
def programmed : Reading (List Item)
  | [] => .ok ([], [])
  | token :: rest => itemAndMore (token :: rest)

theorem program_eq : program = andThen separators fun _ => programmed := by
  funext tokens
  change (items tokens).map _ = programmed (skipSeparators tokens).rest
  rw [run_items]
  cases (skipSeparators tokens).rest with
  | nil => rfl
  | cons token rest =>
    change Except.map _ (run (item (token :: rest)) >>= _) = run (item (token :: rest)) >>= _
    cases run (item (token :: rest)) with
    | error rejection => rfl
    | ok pair =>
      obtain ⟨first, left⟩ := pair
      change Except.map _ (items left >>= _) = (items left).map _ >>= _
      cases items left <;> rfl

theorem program_eq_ok {found : List Item} {rest : List Token} :
    program tokens = .ok (found, rest) ↔ items tokens = .ok found ∧ rest = [] := by
  rw [program]
  cases items tokens with
  | error rejection =>
    constructor
    · intro h
      cases h
    · rintro ⟨h, _⟩
      cases h
  | ok found' =>
    constructor
    · intro h
      cases h
      exact ⟨rfl, rfl⟩
    · rintro ⟨h, rfl⟩
      cases h
      rfl

theorem program_eq_error {rejection : Rejection} :
    program tokens = .error rejection ↔ items tokens = .error rejection := by
  rw [program]
  cases items tokens with
  | error rejection' =>
    constructor
    · intro h
      cases h
      rfl
    · intro h
      cases h
      rfl
  | ok found =>
    constructor
    · intro h
      cases h
    · intro h
      cases h

theorem program_keeps : Keeps program := by
  intro tokens found rest hRead
  rw [(program_eq_ok.mp hRead).2]
  exact Nat.zero_le _

theorem program_nil : program [] = .ok ([], []) := by
  rw [program, run_items]
  rfl

theorem programmed_bridge : Bridge [] (Lacks .semicolon) (fun _ : Unit => programmed) (· = []) := by
  refine bridge_nil ?_ ?_
  · rintro _ rfl token ⟨⟩
  · rintro _ _ rfl
    exact ⟨[], rfl⟩

theorem program_bridge : Bridge [] (Stops 0) (fun first : Item =>
    andThen program fun others rest => .ok (first :: others, rest)) (· = []) := by
  refine bridge_nil ?_ ?_
  · rintro _ rfl
    trivial
  · rintro first _ rfl
    exact ⟨[first], andThen_of_ok program_nil⟩

theorem itemAndMore_shortens : Shortens itemAndMore :=
  (shortens_run _).andThen fun _ => program_keeps.map _

end Parser
end Slate
