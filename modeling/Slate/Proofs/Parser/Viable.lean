import Slate.Proofs.Parser.Openings

/-! # The parsing functions report early

Every reading of the parser fails at the first token that cannot be right. For the functions that call each
other, the argument follows their recursion: each is put together from readings of fewer tokens.
-/

namespace Slate
set_option autoImplicit false

namespace Parser

variable {tokens : List Token}

/-! ## Single tokens -/

theorem expect_reports (lexeme : Lexeme) (expected : Expectation) (hSpelled : lexeme.Spelled)
    (tokens : List Token) : Reports (fun tokens => run (expect lexeme expected tokens)) Anything tokens := by
  have hOpens := (expect_opens lexeme expected).completes (by simpa using hSpelled)
  cases tokens with
  | nil => exact .of_ended rfl hOpens
  | cons token rest =>
    by_cases hLexeme : token.lexeme = lexeme
    · have hRead : ∀ other, run (expect lexeme expected (token :: other)) = .ok (token.span, other) := by
        intro other
        rw [run_expect]
        exact if_pos hLexeme
      exact .take token.span hRead
    · have hRead : ∀ other, run (expect lexeme expected (token :: other)) =
          .error (unexpected expected token) := by
        intro other
        rw [run_expect]
        exact if_neg hLexeme
      exact .reject rfl hRead hOpens

theorem identifier_reports (tokens : List Token) :
    Reports (fun tokens => run (identifier tokens)) Anything tokens := by
  have hOpens := identifier_opens.completes (by simp)
  cases tokens with
  | nil => exact .of_ended rfl hOpens
  | cons token rest =>
    obtain ⟨lexeme, span⟩ := token
    cases lexeme with
    | identifier name => exact .take ⟨name, span⟩ fun _ => rfl
    | keyword _ | integer _ | openParen | closeParen | semicolon | comma | plus | minus | asterisk
    | doubleEquals | lessThan | lessOrEqual | greaterThan | greaterOrEqual | equals =>
      exact .reject rfl (fun _ => rfl) hOpens

theorem skipping_reports (lexeme : Lexeme) (tokens : List Token) :
    Reports (skipping lexeme) (Lacks lexeme) tokens := by
  have hLacks : ∀ other, Lacks lexeme other → skipping lexeme other = .ok ((), other) := by
    intro other hOther
    rw [skipping, skip_of_lacks hOther]
  by_cases hNext : Lacks lexeme tokens
  · exact .idle (fun other hHead => hLacks other (hNext.congr hHead)) hLacks
  · obtain ⟨span, rest, rfl⟩ := exists_of_not_lacks hNext
    refine .take () fun other => ?_
    rw [skipping, rest_skip_self]

theorem separators_reports (tokens : List Token) : Reports separators (Lacks .semicolon) tokens := by
  have hLacks : ∀ other, Lacks .semicolon other → separators other = .ok ((), other) := by
    intro other hOther
    rw [separators, skipSeparators_of_lacks hOther]
  induction tokens with
  | nil =>
    have hNext : Lacks .semicolon [] := by
      rintro token ⟨⟩
    exact .idle (fun other hHead => hLacks other (hNext.congr hHead)) hLacks
  | cons token rest ih =>
    by_cases hLexeme : token.lexeme = .semicolon
    · obtain ⟨_, span⟩ := token
      cases hLexeme
      refine ih.cons fun other => ?_
      rw [separators, rest_skipSeparators_self]
      rfl
    · have hNext : Lacks .semicolon (token :: rest) := by
        intro other hOther
        cases hOther
        exact hLexeme
      exact .idle (fun other hHead => hLacks other (hNext.congr hHead)) hLacks

theorem closing_reports {α : Type} (finish : Span → α) (tokens : List Token) :
    Reports (closing finish) Anything tokens :=
  (expect_reports (.keyword .end_) _ trivial tokens).map finish

/-! ## Lists in brackets -/

section Lists

variable {α : Type} {element : Reading α} {more : Reading (List α × Span)} {stop : List Token → Prop}
  (hFinishes : Finishes [.closeParen] more) (hStop : ∀ rest, stop (Token.bare .closeParen :: rest))
include hFinishes hStop

theorem prepend_reports (h : Reports element stop tokens)
    (hMore : ∀ value rest, element tokens = .ok (value, rest) → Reports more Anything rest) :
    Reports (andThen element (prepend more)) Anything tokens :=
  Finishes.reports (fun first => hFinishes.map _) hStop (by simp) h
    fun value rest hRead => (hMore value rest hRead).map _

theorem elements_reports (hKeeps : Keeps element) (h : Reports element stop tokens)
    (hMore : ∀ value rest, element tokens = .ok (value, rest) → Reports more Anything rest) :
    Reports (elements element more) Anything tokens := by
  by_cases hClose : Lacks .closeParen tokens
  · have hRead : ∀ rest, rest.head? = tokens.head? →
        elements element more rest = andThen element (prepend more) rest := by
      intro rest hRest
      rw [elements, next?_of_lacks (hClose.congr hRest)]
    have hShort : Shortens (andThen element (prepend more)) :=
      hKeeps.andThen fun _ => hFinishes.shortens.map _
    exact .of_head hRead (elements_opens.completes (by simp)) hShort
      (prepend_reports hFinishes hStop h hMore)
  · obtain ⟨close, rest, rfl⟩ := exists_of_not_lacks hClose
    refine .take ([], close) fun other => ?_
    rw [elements, next?_self]

theorem moreElements_reports (expected : Expectation)
    (h : ∀ comma rest, tokens = comma :: rest → Reports element stop rest)
    (hMore : ∀ comma rest value left, tokens = comma :: rest → element rest = .ok (value, left) →
      Reports more Anything left) : Reports (moreElements expected element more) Anything tokens := by
  by_cases hComma : Lacks .comma tokens
  · have hRead : ∀ rest, rest.head? = tokens.head? → moreElements expected element more rest =
        andThen (fun tokens => run (expect .closeParen expected tokens))
          (fun close rest => .ok (([], close), rest)) rest := by
      intro rest hRest
      rw [moreElements, next?_of_lacks (hComma.congr hRest)]
    exact .of_head hRead ((moreElements_opens expected).completes (by simp)) ((shortens_run _).map _)
      ((expect_reports .closeParen expected trivial tokens).map _)
  · obtain ⟨comma, rest, rfl⟩ := exists_of_not_lacks hComma
    have hRead : ∀ other, moreElements expected element more (⟨.comma, comma⟩ :: other) =
        andThen element (prepend more) other := by
      intro other
      rw [moreElements, next?_self]
    exact .cons hRead (prepend_reports hFinishes hStop (h _ rest rfl)
      fun value left hValue => hMore _ rest value left rfl hValue)

end Lists

/-! ## Atoms -/

theorem atom_completes : Completes (fun tokens => run (atom tokens)) (Stops 4) [] :=
  atom_opens.completes (by simp)

theorem error_of_constant {span : Span} {negative : Bool} {digits : String} {rejection : Rejection}
    (h : constant span negative digits = .error rejection) :
    ∃ literal, rejection = .because ⟨.integerOutOfRange literal, span⟩ := by
  rw [constant] at h
  simp only at h
  split at h
  · cases h
  · cases h
    exact ⟨_, rfl⟩

theorem integer_reports (digits : String) (span : Span) (rest : List Token) :
    Reports (fun tokens => run (atom tokens)) (Stops 4) (⟨.integer digits, span⟩ :: rest) := by
  have hAtom : ∀ other, run (atom (⟨.integer digits, span⟩ :: other)) =
      (constant span false digits).map (·, other) := fun other => run_atom _
  cases hConstant : constant span false digits with
  | ok value =>
    refine .take value fun other => ?_
    rw [hAtom, hConstant]
    rfl
  | error rejection =>
    obtain ⟨literal, rfl⟩ := error_of_constant hConstant
    have hRead : ∀ other, run (atom (⟨.integer digits, span⟩ :: other)) =
        .error (.because ⟨.integerOutOfRange literal, span⟩) := by
      intro other
      rw [hAtom, hConstant]
      rfl
    exact .reject rfl hRead atom_completes

/-- A number that is too small is an error from its sign to its digits. So where the digits are wrong, what can be
completed is what stands before the sign. -/
theorem minus_reports (sign : Span) (rest : List Token) :
    Reports (fun tokens => run (atom tokens)) (Stops 4) (⟨.minus, sign⟩ :: rest) := by
  have hAtom : ∀ other, run (atom (⟨.minus, sign⟩ :: other)) = run (negativeConstant sign other) :=
    fun other => run_atom _
  have hSign : Completes (fun tokens => run (atom tokens)) (Stops 4) [⟨.minus, sign⟩] := by
    refine ⟨[.integer "0"], by simp, fun other _ => ⟨.int (sign.through default) 0, ?_⟩⟩
    have hZero : constant (sign.through default) true "0" = .ok (.int (sign.through default) 0) := by cbv
    change run (atom (⟨.minus, sign⟩ :: ⟨.integer "0", default⟩ :: other)) = _
    rw [hAtom, run_negativeConstant, hZero]
    rfl
  cases rest with
  | nil => exact .of_ended (hAtom []) hSign
  | cons token rest =>
    obtain ⟨lexeme, span⟩ := token
    cases lexeme with
    | integer digits =>
      have hDigits : ∀ other, run (atom (⟨.minus, sign⟩ :: ⟨.integer digits, span⟩ :: other)) =
          (constant (sign.through span) true digits).map (·, other) := by
        intro other
        rw [hAtom, run_negativeConstant]
      cases hConstant : constant (sign.through span) true digits with
      | ok value =>
        have hRead : ∀ other, run (atom (⟨.minus, sign⟩ :: ⟨.integer digits, span⟩ :: other)) =
            .ok (value, other) := by
          intro other
          rw [hDigits, hConstant]
          rfl
        exact .of_ok (hRead rest) [⟨.minus, sign⟩, ⟨.integer digits, span⟩] rfl fun other _ => hRead other
      | error rejection =>
        obtain ⟨literal, rfl⟩ := error_of_constant hConstant
        have hCovers : Covers ⟨.integerOutOfRange literal, sign.through span⟩
            [⟨.minus, sign⟩, ⟨.integer digits, span⟩] := ⟨rfl, _, _, rfl, rfl, rfl⟩
        refine .of_because [] [⟨.minus, sign⟩, ⟨.integer digits, span⟩] rest rfl hCovers ?_ atom_completes
        intro other
        change run (atom (⟨.minus, sign⟩ :: ⟨.integer digits, span⟩ :: other)) = _
        rw [hDigits, hConstant]
        rfl
    | identifier _ | keyword _ | openParen | closeParen | semicolon | comma | plus | minus | asterisk
    | doubleEquals | lessThan | lessOrEqual | greaterThan | greaterOrEqual | equals =>
      exact .of_because [⟨.minus, sign⟩] [⟨_, span⟩] rest rfl ⟨rfl, _, _, rfl, rfl, rfl⟩ (fun other => hAtom _) hSign

theorem bracketed_reports (open_ : Span) (inner : Expr) (tokens : List Token) :
    Reports (bracketed open_ inner) Anything tokens :=
  (expect_reports .closeParen _ trivial tokens).map _

/-! ## Expressions -/

-- The measure is that of the parsing functions: what a reading leaves is shorter, and on the same tokens
-- the functions call each other downwards, from sequences to atoms.
mutual

theorem expression_reports (tokens : List Token) :
    Reports (fun tokens => run (expression tokens)) (Stops 0) tokens := by
  rw [expression_eq]
  refine assigned_bridge.reports (comparison_reports tokens) ?_
  intro lhs rest hRest
  have hShorter := length_of_run hRest
  exact assigned_reports lhs rest
termination_by (tokens.length, 6)
decreasing_by
  · exact Prod.Lex.right _ (by omega)
  · exact Prod.Lex.left _ _ hShorter

theorem assigned_reports (lhs : Expr) (tokens : List Token) : Reports (assigned lhs) (Stops 0) tokens := by
  by_cases hEquals : Lacks .equals tokens
  · exact .idle (fun other hHead => assigned_of_lacks (hEquals.congr hHead)) fun other => assigned_of_stops
  · obtain ⟨span, after, hTokens⟩ := exists_of_not_lacks hEquals
    rw [hTokens]
    cases hTarget : target? lhs with
    | none =>
      have hRead : ∀ other, assigned lhs (⟨.equals, span⟩ :: other) =
          .error (.because ⟨.invalidAssignmentTarget, span⟩) := by
        intro other
        rw [assigned_self, hTarget]
      exact .reject rfl hRead (.now fun rest hRest => ⟨lhs, assigned_of_stops hRest⟩)
    | some target =>
      refine .cons (fun other => ?_) ((expression_reports after).map
        fun value => .assign (lhs.span.through value.span) target value)
      rw [assigned_self, hTarget]
termination_by (tokens.length, 0)
decreasing_by
  exact Prod.Lex.left _ _ (by simp [hTokens])

theorem comparison_reports (tokens : List Token) :
    Reports (fun tokens => run (comparison tokens)) (Stops 1) tokens := by
  rw [comparison_eq]
  refine compared_bridge.reports (chain_reports .sum tokens) ?_
  intro lhs rest hRest
  have hShorter := length_of_run hRest
  exact compared_reports lhs rest
termination_by (tokens.length, 5)
decreasing_by
  · exact Prod.Lex.right _ (by simp [Level.rank])
  · exact Prod.Lex.left _ _ hShorter

theorem compared_reports (lhs : Expr) (tokens : List Token) : Reports (compared lhs) (Stops 1) tokens := by
  cases tokens with
  | nil =>
    refine .idle (fun other hHead => ?_) fun other => compared_of_stops
    rw [List.head?_eq_none_iff.mp hHead]
    rfl
  | cons token after =>
    cases hOp : comparison? token.lexeme with
    | none =>
      refine .idle (fun other hHead => ?_) fun other => compared_of_stops
      obtain ⟨others, rfl⟩ := List.head?_eq_some_iff.mp hHead
      rw [compared, hOp]
    | some op =>
      have hStop : ∀ rest, Stops 1 rest → Stops 2 rest := fun _ hRest => hRest.mono (by omega)
      refine .cons (fun other => ?_) (((chain_reports .sum after).mono hStop).map
        fun rhs => .compare (lhs.span.through rhs.span) op lhs rhs)
      rw [compared, hOp]
termination_by (tokens.length, 0)
decreasing_by
  exact Prod.Lex.left _ _ (by simp)

theorem chain_reports (level : Level) (tokens : List Token) :
    Reports (fun tokens => run (chain level tokens)) (Stops level.place) tokens := by
  rw [chain_eq]
  refine (chainFrom_bridge level).reports (operand_reports level tokens) ?_
  intro first rest hRest
  have hShorter := length_of_run hRest
  exact chainFrom_reports level first rest
termination_by (tokens.length, level.rank + 1)
decreasing_by
  · exact Prod.Lex.right _ (by omega)
  · exact Prod.Lex.left _ _ hShorter

theorem chainFrom_reports (level : Level) (front : Expr) (tokens : List Token) :
    Reports (fun tokens => runMaybe (chainFrom level front tokens)) (Stops level.place) tokens := by
  cases tokens with
  | nil =>
    refine .idle (fun other hHead => ?_) fun other => chainFrom_of_stops
    rw [List.head?_eq_none_iff.mp hHead]
    exact run_chainFrom level front []
  | cons token rest =>
    cases hOp : level.operator? token.lexeme with
    | none =>
      refine .idle (fun other hHead => ?_) fun other => chainFrom_of_stops
      obtain ⟨others, rfl⟩ := List.head?_eq_some_iff.mp hHead
      exact chainFrom_of_none hOp others
    | some op =>
      refine .cons (chainFrom_of_some hOp) ((joined_bridge level front op).reports (operand_reports level rest) ?_)
      intro rhs left hLeft
      have hShorter := length_of_run hLeft
      exact chainFrom_reports level _ left
termination_by (tokens.length, 0)
decreasing_by
  · exact Prod.Lex.left _ _ (by simp)
  · exact Prod.Lex.left _ _ (by grind)

theorem operand_reports (level : Level) (tokens : List Token) :
    Reports (fun tokens => run (operand level tokens)) (Stops (level.place + 1)) tokens := by
  cases level with
  | sum =>
    rw [operand_sum]
    exact chain_reports .product tokens
  | product =>
    rw [operand_product]
    exact atom_reports tokens
termination_by (tokens.length, level.rank)
decreasing_by
  · exact Prod.Lex.right _ (by simp [Level.rank])
  · exact Prod.Lex.right _ (by simp [Level.rank])

theorem atom_reports (tokens : List Token) : Reports (fun tokens => run (atom tokens)) (Stops 4) tokens := by
  cases tokens with
  | nil => exact .of_ended (run_atom []) atom_completes
  | cons token rest =>
    obtain ⟨lexeme, span⟩ := token
    cases lexeme with
    | integer digits => exact integer_reports digits span rest
    | minus => exact minus_reports span rest
    | identifier name => exact .cons (fun other => run_atom _) (called_reports name span rest)
    | openParen =>
      have hInner : Reports (andThen (fun tokens => run (expression tokens)) (bracketed span)) Anything rest :=
        Finishes.reports (bracketed_finishes span) (stops_bare rfl 0) (by simp) (expression_reports rest)
          fun inner left _ => bracketed_reports span inner left
      exact .cons (atom_openParen span) (hInner.mono fun _ _ => trivial)
    | keyword word =>
      cases word with
      | if_ => exact .cons (fun other => run_atom _) ((conditional_reports span rest).mono fun _ _ => trivial)
      | for_ => exact .cons (fun other => run_atom _) ((loop_reports span rest).mono fun _ _ => trivial)
      | def_ | extern_ | then_ | else_ | do_ | end_ =>
        exact .reject rfl (fun other => run_atom _) atom_completes
    | closeParen | semicolon | comma | plus | asterisk | doubleEquals | lessThan | lessOrEqual | greaterThan
    | greaterOrEqual | equals =>
      exact .reject rfl (fun other => run_atom _) atom_completes
termination_by (tokens.length, 0)
decreasing_by
  all_goals exact Prod.Lex.left _ _ (by simp)

theorem called_reports (name : String) (span : Span) (tokens : List Token) :
    Reports (called name span) (Stops 4) tokens := by
  by_cases hOpen : Lacks .openParen tokens
  · exact .idle (fun other hHead => called_of_lacks (hOpen.congr hHead))
      fun other hStops => called_of_lacks (lacks_of_stops hStops rfl)
  · obtain ⟨open_, left, hTokens⟩ := exists_of_not_lacks hOpen
    rw [hTokens]
    exact .cons (called_self name span open_) (((arguments_reports left).mono fun _ _ => trivial).map _)
termination_by (tokens.length, 0)
decreasing_by
  exact Prod.Lex.left _ _ (by simp [hTokens])

theorem arguments_reports (tokens : List Token) :
    Reports (fun tokens => run (arguments tokens)) Anything tokens := by
  rw [arguments_eq]
  refine elements_reports moreArguments_finishes (stops_bare rfl 0) (shortens_run _).keeps
    (expression_reports tokens) fun first rest hRest => ?_
  have hShorter := length_of_run hRest
  exact moreArguments_reports rest
termination_by (tokens.length, 7)
decreasing_by
  · exact Prod.Lex.right _ (by omega)
  · exact Prod.Lex.left _ _ hShorter

theorem moreArguments_reports (tokens : List Token) :
    Reports (fun tokens => run (moreArguments tokens)) Anything tokens := by
  rw [moreArguments_eq]
  refine moreElements_reports moreArguments_finishes (stops_bare rfl 0) .commaOrClose ?_ ?_
  · intro comma rest hTokens
    exact expression_reports rest
  · intro comma rest next left hTokens hLeft
    have hShorter := length_of_run hLeft
    exact moreArguments_reports left
termination_by (tokens.length, 7)
decreasing_by
  · exact Prod.Lex.left _ _ (by simp [hTokens])
  · exact Prod.Lex.left _ _ (by grind)

theorem conditional_reports (keyword : Span) (tokens : List Token) :
    Reports (fun tokens => run (conditional keyword tokens)) Anything tokens := by
  rw [conditional_eq]
  refine Finishes.reports (arms_finishes keyword) (stops_bare rfl 0) (by simp) (expression_reports tokens) ?_
  intro condition rest hRest
  have hShorter := length_of_run hRest
  refine Finishes.reports (fun _ => bothArms_finishes keyword condition) (lacks_bare (by decide)) (by simp)
    (skipping_reports _ rest) ?_
  intro _ body hBody
  have hKept := skipping_keeps _ _ _ _ hBody
  refine Finishes.reports (afterArm_finishes keyword condition) Closes.end_ (by simp)
    (sequence_reports true body) ?_
  intro positive left hLeft
  have hKept' := length_of_runMaybe hLeft
  exact Finishes.reports (fun _ => closing_finishes _) Closes.end_ (by simp) (otherArm_reports left)
    fun _ final _ => closing_reports _ final
termination_by (tokens.length, 7)
decreasing_by
  · exact Prod.Lex.right _ (by omega)
  · exact Prod.Lex.left _ _ (by omega)
  · exact Prod.Lex.left _ _ (by omega)

theorem otherArm_reports (tokens : List Token) :
    Reports (fun tokens => runMaybe (otherArm tokens)) (Closes false) tokens := by
  by_cases hElse : Lacks (.keyword .else_) tokens
  · exact .idle (fun other hHead => otherArm_of_lacks (hElse.congr hHead))
      fun other hCloses => otherArm_of_lacks (hCloses.lacks rfl)
  · obtain ⟨span, rest, hTokens⟩ := exists_of_not_lacks hElse
    rw [hTokens]
    refine .cons (fun other => ?_) (sequence_reports false rest)
    rw [run_otherArm, next?_self]
termination_by (tokens.length, 7)
decreasing_by
  exact Prod.Lex.left _ _ (by simp [hTokens])

theorem loop_reports (keyword : Span) (tokens : List Token) :
    Reports (fun tokens => run (loop keyword tokens)) Anything tokens := by
  rw [loop_eq]
  refine Finishes.reports (conditioned_finishes keyword) (stops_bare rfl 0) (by simp)
    (expression_reports tokens) ?_
  intro initializer rest₁ h₁
  have hShorter₁ := length_of_run h₁
  refine Finishes.reports (fun _ => condition_finishes keyword initializer) (fun _ => trivial)
    (by simp) (expect_reports .semicolon _ trivial rest₁) ?_
  intro _ rest₂ h₂
  have hShorter₂ := length_of_run h₂
  refine Finishes.reports (stepped_finishes keyword initializer) (stops_bare rfl 0) (by simp)
    (expression_reports rest₂) ?_
  intro condition rest₃ h₃
  have hShorter₃ := length_of_run h₃
  refine Finishes.reports (fun _ => step_finishes keyword initializer condition) (fun _ => trivial)
    (by simp) (expect_reports .semicolon _ trivial rest₃) ?_
  intro _ rest₄ h₄
  have hShorter₄ := length_of_run h₄
  refine Finishes.reports (rounds_finishes keyword initializer condition) (stops_bare rfl 0) (by simp)
    (expression_reports rest₄) ?_
  intro step rest₅ h₅
  have hShorter₅ := length_of_run h₅
  refine Finishes.reports (fun _ => bodied_finishes keyword initializer condition step) (lacks_bare (by decide))
    (by simp) (skipping_reports _ rest₅) ?_
  intro _ rest₆ h₆
  have hKept := skipping_keeps _ _ _ _ h₆
  exact Finishes.reports (fun _ => closing_finishes _) Closes.end_ (by simp) (sequence_reports false rest₆)
    fun _ rest₇ _ => closing_reports _ rest₇
termination_by (tokens.length, 7)
decreasing_by
  · exact Prod.Lex.right _ (by omega)
  · exact Prod.Lex.left _ _ (by omega)
  · exact Prod.Lex.left _ _ (by omega)
  · exact Prod.Lex.left _ _ (by omega)

theorem sequence_reports (elseToo : Bool) (tokens : List Token) :
    Reports (fun tokens => runMaybe (sequence elseToo tokens)) (Closes elseToo) tokens := by
  rw [sequence_eq]
  refine (sequenced_bridge elseToo).reports (separators_reports tokens) ?_
  intro _ rest hRest
  have hNoMore := separators_keeps _ _ _ hRest
  exact sequenced_reports elseToo rest
termination_by (tokens.length, 8)
decreasing_by
  rcases Nat.lt_or_eq_of_le hNoMore with hLess | hEq
  · exact Prod.Lex.left _ _ hLess
  · rw [hEq]
    exact Prod.Lex.right _ (by omega)

theorem sequenced_reports (elseToo : Bool) (tokens : List Token) :
    Reports (sequenced elseToo) (Closes elseToo) tokens := by
  have hCompletes : Completes (sequenced elseToo) (Closes elseToo) [] :=
    .now fun rest hRest => ⟨[], sequenced_of_closes hRest⟩
  cases tokens with
  | nil => exact .of_ended rfl hCompletes
  | cons token rest =>
    cases hCloses : closes elseToo token.lexeme with
    | true =>
      have hHere : Closes elseToo (token :: rest) := ⟨token, rest, rfl, hCloses⟩
      exact .idle (fun other hHead => sequenced_of_closes (hHere.congr hHead)) fun other => sequenced_of_closes
    | false =>
      have hRead : ∀ other, other.head? = (token :: rest).head? →
          sequenced elseToo other = oneAndMore elseToo other := by
        intro other hHead
        obtain ⟨others, rfl⟩ := List.head?_eq_some_iff.mp hHead
        exact sequenced_of_ne hCloses others
      refine .of_head hRead hCompletes (oneAndMore_shortens elseToo)
        ((sequence_bridge elseToo).reports (expression_reports (token :: rest)) ?_)
      intro first left hLeft
      have hShorter := length_of_run hLeft
      exact (sequence_reports elseToo left).map _
termination_by (tokens.length, 7)
decreasing_by
  · exact Prod.Lex.right _ (by omega)
  · exact Prod.Lex.left _ _ hShorter

end

/-! ## Items -/

theorem moreParameters_reports (tokens : List Token) :
    Reports (fun tokens => run (parameters.moreParameters tokens)) Anything tokens := by
  rw [moreParameters_eq]
  refine moreElements_reports moreParameters_finishes (fun _ => trivial) (.exactly .closeParen)
    (fun _ rest _ => identifier_reports rest) ?_
  intro comma rest next left hTokens hLeft
  have hShorter := length_of_run hLeft
  exact moreParameters_reports left
termination_by tokens.length
decreasing_by
  rw [hTokens, List.length_cons]
  omega

theorem parameters_reports (tokens : List Token) :
    Reports (fun tokens => run (parameters tokens)) Anything tokens := by
  rw [parameters_eq]
  exact elements_reports moreParameters_finishes (fun _ => trivial) (shortens_run _).keeps
    (identifier_reports tokens) fun _ rest _ => moreParameters_reports rest

theorem prototype_reports (tokens : List Token) :
    Reports (fun tokens => run (prototype tokens)) Anything tokens := by
  rw [prototype_eq]
  refine Finishes.reports headed_finishes (fun _ => trivial) (by simp)
    (identifier_reports tokens) ?_
  intro name rest _
  exact Finishes.reports (fun _ => named_finishes name) (fun _ => trivial) (by simp)
    (expect_reports .openParen _ trivial rest) fun _ left _ => (parameters_reports left).map _

theorem definition_reports (keyword : Span) (tokens : List Token) :
    Reports (fun tokens => run (definition keyword tokens)) Anything tokens := by
  rw [definition_eq]
  refine Finishes.reports (defined_finishes keyword) (fun _ => trivial) (by simp)
    (prototype_reports tokens) ?_
  intro head rest _
  refine Finishes.reports (ending_finishes keyword head) (stops_bare rfl 0) (by simp)
    (expression_reports rest) ?_
  intro body left _
  exact Finishes.reports (fun _ => closing_finishes _) (lacks_bare (by decide)) (by simp)
    (separators_reports left) fun _ final _ => closing_reports _ final

theorem item_reports (tokens : List Token) : Reports (fun tokens => run (item tokens)) (Stops 0) tokens := by
  have hCompletes := item_opens.completes (by simp)
  cases tokens with
  | nil => exact .of_ended (run_item []) hCompletes
  | cons token rest =>
    obtain ⟨lexeme, span⟩ := token
    by_cases hDef : lexeme = .keyword .def_
    · cases hDef
      exact .cons (fun _ => run_item _) ((definition_reports span rest).mono fun _ _ => trivial)
    · by_cases hExtern : lexeme = .keyword .extern_
      · cases hExtern
        exact .cons (item_declaration span) (((prototype_reports rest).mono fun _ _ => trivial).map _)
      · refine .of_head (fun other hHead => ?_) hCompletes ((shortens_run _).map _)
          ((expression_reports (⟨lexeme, span⟩ :: rest)).map .expression)
        obtain ⟨others, rfl⟩ := List.head?_eq_some_iff.mp hHead
        exact item_of_ne hDef hExtern others

theorem program_reports (tokens : List Token) : Reports program (· = []) tokens := by
  rw [program_eq]
  refine programmed_bridge.reports (separators_reports tokens) ?_
  intro _ rest hRest
  have hNoMore := separators_keeps _ _ _ hRest
  cases hTokens : rest with
  | nil =>
    have hNil : ∀ other, other = [] → programmed other = .ok ([], other) := by
      rintro _ rfl
      rfl
    exact .idle (fun other hHead => hNil other (List.head?_eq_none_iff.mp hHead)) hNil
  | cons token after =>
    have hCompletes : Completes programmed (· = []) [] := .now (programmed_bridge.opens ())
    refine .of_head (fun other hHead => ?_) hCompletes itemAndMore_shortens
      (program_bridge.reports (item_reports (token :: after)) ?_)
    · obtain ⟨others, rfl⟩ := List.head?_eq_some_iff.mp hHead
      rfl
    · intro first left hLeft
      have hShorter := length_of_run hLeft
      exact (program_reports left).map _
termination_by tokens.length
decreasing_by
  rw [hTokens] at hNoMore
  omega

end Parser
end Slate
