import Slate.Proofs.Grammar
import Slate.Proofs.Parser.Equations
import Slate.Proofs.Scan

/-! # What the parser accepts is a program

Whatever a parsing function takes from the front of the tokens is a word of the grammar, and what it
gives is the tree of that word.
-/

namespace Slate
set_option autoImplicit false

theorem Word.toInt_of_ofInt? {value : Int} {word : Word} (h : Word.ofInt? value = some word) :
    word.toInt = value := by
  rw [Word.ofInt?] at h
  split at h
  · rename_i hRange
    cases h
    exact Int32.toInt_ofInt_of_le hRange.1 hRange.2
  · cases h

namespace Parser

variable {tokens rest : List Token}

/-! ## Single tokens -/

theorem expect_eq {lexeme : Lexeme} {expected : Expectation} {span : Span}
    (h : run (expect lexeme expected tokens) = .ok (span, rest)) : tokens = ⟨lexeme, span⟩ :: rest := by
  rw [run_expect] at h
  cases tokens with
  | nil => cases h
  | cons token left =>
    simp only at h
    split at h
    · rename_i hLexeme
      cases h
      rw [← hLexeme]
    · cases h

theorem identifier_eq {name : Name} (h : run (identifier tokens) = .ok (name, rest)) :
    tokens = ⟨.identifier name.text, name.span⟩ :: rest := by
  cases tokens with
  | nil => cases h
  | cons token left =>
    obtain ⟨lexeme, span⟩ := token
    cases lexeme with
    | identifier text =>
      cases h
      rfl
    | keyword _ | integer _ | openParen | closeParen | semicolon | comma | plus | minus | asterisk
    | doubleEquals | lessThan | lessOrEqual | greaterThan | greaterOrEqual | equals => cases h

theorem next?_eq {lexeme : Lexeme} {span : Span} (h : next? lexeme tokens = some (span, rest)) :
    tokens = ⟨lexeme, span⟩ :: rest := by
  cases tokens with
  | nil => cases h
  | cons token left =>
    rw [next?, eat?] at h
    split at h
    · rename_i hLexeme
      cases h
      rw [← hLexeme]
    · cases h

theorem skip_eq (lexeme : Lexeme) (tokens : List Token) :
    ∃ ts, tokens = ts ++ (skip lexeme tokens).rest ∧ Grammar.Optional lexeme ts := by
  cases tokens with
  | nil => exact ⟨[], rfl, .absent⟩
  | cons token left =>
    rw [skip]
    split
    · rename_i hLexeme
      refine ⟨[token], rfl, ?_⟩
      rw [show token = ⟨lexeme, token.span⟩ by rw [← hLexeme]]
      exact .present token.span
    · exact ⟨[], rfl, .absent⟩

theorem skipSeparators_eq (tokens : List Token) :
    ∃ ts, tokens = ts ++ (skipSeparators tokens).rest ∧ Grammar.Separators ts := by
  induction tokens with
  | nil => exact ⟨[], rfl, .none⟩
  | cons token left ih =>
    rw [skipSeparators]
    split
    · rename_i hLexeme
      obtain ⟨ts, hTokens, hSeparators⟩ := ih
      refine ⟨token :: ts, congrArg (token :: ·) hTokens, ?_⟩
      rw [show token = ⟨.semicolon, token.span⟩ by rw [← hLexeme]]
      exact .more token.span hSeparators
    · exact ⟨[], rfl, .none⟩

/-! ## Constants -/

theorem decimalValue_eq (digits : String) : decimalValue digits = Grammar.value digits := by
  have hFold : ∀ list : List Char, list.foldl (fun value c => 10 * value + (c.toNat - '0'.toNat)) 0 =
      Nat.ofDigits 10 (list.reverse.map fun c => c.toNat - '0'.toNat) := by
    intro list
    induction list using List.reverseRecOn with
    | nil => rfl
    | append_singleton front last ih =>
      rw [List.foldl_append, List.reverse_append, List.reverse_singleton, List.singleton_append,
        List.map_cons, Nat.ofDigits_cons, ← ih, List.foldl_cons, List.foldl_nil]
      omega
  exact hFold digits.toList

theorem constant_eq {span : Span} {negative : Bool} {digits : String} {e : Expr}
    (h : constant span negative digits = .ok e) : ∃ word : Word, e = .int span word ∧
      word.toInt = if negative then -(Grammar.value digits : Int) else Grammar.value digits := by
  rw [constant, decimalValue_eq] at h
  simp only at h
  split at h
  · rename_i word hWord
    cases h
    exact ⟨word, rfl, Word.toInt_of_ofInt? hWord⟩
  · cases h

theorem negativeConstant_sound {sign : Span} {e : Expr}
    (h : run (negativeConstant sign tokens) = .ok (e, rest)) :
    ∃ us, tokens = us ++ rest ∧ Grammar.Atom (⟨.minus, sign⟩ :: us) e := by
  cases tokens with
  | nil => cases h
  | cons token left =>
    obtain ⟨lexeme, span⟩ := token
    cases lexeme with
    | integer digits =>
      rw [negativeConstant] at h
      simp only at h
      cases hConstant : constant (sign.through span) true digits with
      | error rejection =>
        rw [hConstant] at h
        cases h
      | ok value =>
        rw [hConstant] at h
        cases h
        obtain ⟨word, rfl, hWord⟩ := constant_eq hConstant
        exact ⟨[⟨.integer digits, span⟩], rfl, .negative digits sign span hWord⟩
    | keyword _ | identifier _ | openParen | closeParen | semicolon | comma | plus | minus | asterisk
    | doubleEquals | lessThan | lessOrEqual | greaterThan | greaterOrEqual | equals => cases h

/-! ## Targets -/

theorem span_withSpan (span : Span) (e : Expr) : (e.withSpan span).span = span := by
  cases e <;> rfl

theorem target?_withSpan (span : Span) (e : Expr) : target? (e.withSpan span) = target? e := by
  cases e <;> rfl

mutual

/-- An expression that stands for a variable is its name in brackets. -/
theorem target_of_expression {ts : List Token} {e : Expr} {name : Name} :
    Grammar.Expression ts e → target? e = some name → Grammar.Target ts name e.span
  | .comparison h, hTarget => target_of_comparison h hTarget

theorem target_of_comparison {ts : List Token} {e : Expr} {name : Name} :
    Grammar.Comparison ts e → target? e = some name → Grammar.Target ts name e.span
  | .sum h, hTarget => target_of_sum h hTarget

theorem target_of_sum {ts : List Token} {e : Expr} {name : Name} :
    Grammar.Sum ts e → target? e = some name → Grammar.Target ts name e.span
  | .product h, hTarget => target_of_product h hTarget

theorem target_of_product {ts : List Token} {e : Expr} {name : Name} :
    Grammar.Product ts e → target? e = some name → Grammar.Target ts name e.span
  | .atom h, hTarget => target_of_atom h hTarget

theorem target_of_atom {ts : List Token} {e : Expr} {name : Name} :
    Grammar.Atom ts e → target? e = some name → Grammar.Target ts name e.span
  | .variable text span, hTarget => by
    cases hTarget
    exact .name text span
  | .bracketed first last h, hTarget => by
    have hInner := target_of_expression h ((target?_withSpan _ _).symm.trans hTarget)
    rw [span_withSpan]
    exact .bracketed first last hInner

end

/-! ## Expressions -/

theorem exists_of_bind {α β : Type} {first : Except Rejection α} {next : α → Except Rejection β} {value : β}
    (h : first >>= next = .ok value) : ∃ found, first = .ok found ∧ next found = .ok value := by
  cases first with
  | error rejection => cases h
  | ok found => exact ⟨found, rfl, h⟩

theorem lexeme_of_comparison? {lexeme : Lexeme} {op : Comparison} (h : comparison? lexeme = some op) :
    lexeme = op.lexeme := by
  cases lexeme <;> cases h <;> rfl

/-- The words that a level joins, and the words it makes of them. -/
def Operand : Level → List Token → Expr → Prop
  | .sum => Grammar.Product
  | .product => Grammar.Atom

def Chain : Level → List Token → Expr → Prop
  | .sum => Grammar.Sum
  | .product => Grammar.Product

theorem Operand.chain {level : Level} {ts : List Token} {e : Expr} (h : Operand level ts e) :
    Chain level ts e := by
  cases level with
  | sum => exact .product h
  | product => exact .atom h

theorem Chain.append {level : Level} {ts us : List Token} {lhs rhs : Expr} {token : Token} {op : Arith}
    (h : Chain level ts lhs) (hOp : level.operator? token.lexeme = some op)
    (hOperand : Operand level us rhs) :
    Chain level (ts ++ token :: us) (.binary (lhs.span.through rhs.span) op lhs rhs) := by
  obtain ⟨lexeme, at_⟩ := token
  cases level with
  | sum =>
    have hSum : op ≠ .multiply := by
      rintro rfl
      cases lexeme <;> cases hOp
    cases lexeme <;> cases hOp <;> exact Grammar.Sum.more _ at_ hSum h hOperand
  | product =>
    cases lexeme <;> cases hOp
    exact Grammar.Product.more at_ h hOperand

mutual

theorem expression_sound (tokens : List Token) {e : Expr} {rest : List Token}
    (h : run (expression tokens) = .ok (e, rest)) :
    ∃ ts, tokens = ts ++ rest ∧ Grammar.Expression ts e := by
  rw [run_expression] at h
  obtain ⟨⟨lhs, left⟩, hLeft, hRest⟩ := exists_of_bind h
  obtain ⟨ts, hTokens, hComparison⟩ := comparison_sound tokens hLeft
  have hFewer := length_of_run hLeft
  cases left with
  | nil =>
    cases hRest
    exact ⟨ts, hTokens, .comparison hComparison⟩
  | cons token after =>
    simp only at hRest
    split at hRest
    · rename_i hEquals
      cases hTarget : target? lhs with
      | none =>
        rw [hTarget] at hRest
        cases hRest
      | some name =>
        rw [hTarget] at hRest
        obtain ⟨⟨value, final⟩, hValue, hResult⟩ := exists_of_bind hRest
        cases hResult
        obtain ⟨us, hAfter, hExpression⟩ := expression_sound after hValue
        refine ⟨ts ++ token :: us, by rw [hTokens, hAfter]; simp, ?_⟩
        rw [show token = ⟨.equals, token.span⟩ by rw [← hEquals]]
        exact .assign token.span (target_of_comparison hComparison hTarget) hExpression
    · cases hRest
      exact ⟨ts, hTokens, .comparison hComparison⟩
termination_by (tokens.length, 6)
decreasing_by
  · exact Prod.Lex.right _ (by omega)
  · exact Prod.Lex.left _ _ (by grind)

theorem comparison_sound (tokens : List Token) {e : Expr} {rest : List Token}
    (h : run (comparison tokens) = .ok (e, rest)) :
    ∃ ts, tokens = ts ++ rest ∧ Grammar.Comparison ts e := by
  rw [run_comparison] at h
  obtain ⟨⟨lhs, left⟩, hLeft, hRest⟩ := exists_of_bind h
  obtain ⟨ts, hTokens, hSum⟩ := chain_sound .sum tokens hLeft
  have hFewer := length_of_run hLeft
  cases left with
  | nil =>
    cases hRest
    exact ⟨ts, hTokens, .sum hSum⟩
  | cons token after =>
    simp only at hRest
    split at hRest
    · cases hRest
      exact ⟨ts, hTokens, .sum hSum⟩
    · rename_i op hOp
      obtain ⟨⟨rhs, final⟩, hRight, hResult⟩ := exists_of_bind hRest
      cases hResult
      obtain ⟨us, hAfter, hOther⟩ := chain_sound .sum after hRight
      refine ⟨ts ++ token :: us, by rw [hTokens, hAfter]; simp, ?_⟩
      rw [show token = ⟨op.lexeme, token.span⟩ by rw [← lexeme_of_comparison? hOp]]
      exact .compare op token.span hSum hOther
termination_by (tokens.length, 5)
decreasing_by
  · exact Prod.Lex.right _ (by simp [Level.rank])
  · exact Prod.Lex.left _ _ (by grind)

theorem chain_sound (level : Level) (tokens : List Token) {e : Expr} {rest : List Token}
    (h : run (chain level tokens) = .ok (e, rest)) :
    ∃ ts, tokens = ts ++ rest ∧ Chain level ts e := by
  rw [run_chain] at h
  obtain ⟨⟨first, left⟩, hFirst, hRest⟩ := exists_of_bind h
  obtain ⟨ts, hTokens, hOperand⟩ := operand_sound level tokens hFirst
  have hFewer := length_of_run hFirst
  obtain ⟨us, hLeft, hChain⟩ := chainFrom_sound level left hOperand.chain hRest
  exact ⟨ts ++ us, by rw [hTokens, hLeft]; simp, hChain⟩
termination_by (tokens.length, level.rank + 1)
decreasing_by
  · exact Prod.Lex.right _ (by omega)
  · exact Prod.Lex.left _ _ hFewer

theorem chainFrom_sound (level : Level) (tokens : List Token) {front e : Expr} {ts rest : List Token}
    (hFront : Chain level ts front) (h : runMaybe (chainFrom level front tokens) = .ok (e, rest)) :
    ∃ us, tokens = us ++ rest ∧ Chain level (ts ++ us) e := by
  rw [run_chainFrom] at h
  cases hTokens : tokens with
  | nil =>
    rw [hTokens] at h
    cases h
    exact ⟨[], rfl, by simpa using hFront⟩
  | cons token left =>
    rw [hTokens] at h
    simp only at h
    split at h
    · cases h
      exact ⟨[], rfl, by simpa using hFront⟩
    · rename_i op hOp
      obtain ⟨⟨rhs, after⟩, hRight, hRest⟩ := exists_of_bind h
      have hFewer := length_of_run hRight
      obtain ⟨us, hLeft, hOperand⟩ := operand_sound level left hRight
      obtain ⟨vs, hAfter, hChain⟩ := chainFrom_sound level after (hFront.append hOp hOperand) hRest
      refine ⟨token :: us ++ vs, by rw [hLeft, hAfter]; simp, ?_⟩
      simpa using hChain
termination_by (tokens.length, 0)
decreasing_by
  · exact Prod.Lex.left _ _ (by grind)
  · exact Prod.Lex.left _ _ (by grind)

theorem operand_sound (level : Level) (tokens : List Token) {e : Expr} {rest : List Token}
    (h : run (operand level tokens) = .ok (e, rest)) :
    ∃ ts, tokens = ts ++ rest ∧ Operand level ts e := by
  rw [run_operand] at h
  cases hLevel : level with
  | sum =>
    rw [hLevel] at h
    exact chain_sound .product tokens h
  | product =>
    rw [hLevel] at h
    exact atom_sound tokens h
termination_by (tokens.length, level.rank)
decreasing_by
  · exact Prod.Lex.right _ (by simp [hLevel, Level.rank])
  · exact Prod.Lex.right _ (by simp [hLevel, Level.rank])

theorem atom_sound (tokens : List Token) {e : Expr} {rest : List Token}
    (h : run (atom tokens) = .ok (e, rest)) : ∃ ts, tokens = ts ++ rest ∧ Grammar.Atom ts e := by
  rw [run_atom] at h
  cases hTokens : tokens with
  | nil =>
    rw [hTokens] at h
    cases h
  | cons token left =>
    rw [hTokens] at h
    obtain ⟨lexeme, span⟩ := token
    cases lexeme with
    | integer digits =>
      simp only at h
      cases hConstant : constant span false digits with
      | error rejection =>
        rw [hConstant] at h
        cases h
      | ok value =>
        rw [hConstant] at h
        cases h
        obtain ⟨word, rfl, hWord⟩ := constant_eq hConstant
        exact ⟨[⟨.integer digits, span⟩], rfl, .int digits span hWord⟩
    | minus =>
      obtain ⟨us, hLeft, hAtom⟩ := negativeConstant_sound h
      exact ⟨⟨.minus, span⟩ :: us, by rw [hLeft]; rfl, hAtom⟩
    | identifier name =>
      simp only at h
      cases hNext : next? .openParen left with
      | none =>
        rw [hNext] at h
        cases h
        exact ⟨[⟨.identifier name, span⟩], rfl, .variable name span⟩
      | some found =>
        obtain ⟨first, inner⟩ := found
        rw [hNext] at h
        have hLeft := next?_eq hNext
        obtain ⟨⟨⟨values, last⟩, after⟩, hArguments, hResult⟩ := exists_of_bind h
        cases hResult
        obtain ⟨ts, hInner, hWord⟩ := arguments_sound inner hArguments
        refine ⟨⟨.identifier name, span⟩ :: ⟨.openParen, first⟩ :: (ts ++ [⟨.closeParen, last⟩]), ?_,
          .call name span first last hWord⟩
        rw [hLeft, hInner]
        simp
    | openParen =>
      obtain ⟨⟨inner, after⟩, hInner, hRest⟩ := exists_of_bind h
      obtain ⟨⟨last, final⟩, hClose, hResult⟩ := exists_of_bind hRest
      cases hResult
      obtain ⟨ts, hLeft, hExpression⟩ := expression_sound left hInner
      refine ⟨⟨.openParen, span⟩ :: (ts ++ [⟨.closeParen, last⟩]), ?_, .bracketed span last hExpression⟩
      rw [hLeft, expect_eq hClose]
      simp
    | keyword word =>
      cases word with
      | if_ =>
        obtain ⟨ts, hLeft, hAtom⟩ := conditional_sound span left h
        exact ⟨⟨.keyword .if_, span⟩ :: ts, by rw [hLeft]; rfl, hAtom⟩
      | for_ =>
        obtain ⟨ts, hLeft, hAtom⟩ := loop_sound span left h
        exact ⟨⟨.keyword .for_, span⟩ :: ts, by rw [hLeft]; rfl, hAtom⟩
      | def_ | extern_ | then_ | else_ | do_ | end_ => cases h
    | closeParen | semicolon | comma | plus | asterisk | doubleEquals | lessThan | lessOrEqual
    | greaterThan | greaterOrEqual | equals => cases h
termination_by (tokens.length, 0)
decreasing_by
  · exact Prod.Lex.left _ _ (by grind)
  · exact Prod.Lex.left _ _ (by grind)
  · exact Prod.Lex.left _ _ (by grind)
  · exact Prod.Lex.left _ _ (by grind)

theorem arguments_sound (tokens : List Token) {values : List Expr} {last : Span} {rest : List Token}
    (h : run (arguments tokens) = .ok ((values, last), rest)) :
    ∃ ts, tokens = ts ++ ⟨.closeParen, last⟩ :: rest ∧ Grammar.Arguments ts values := by
  rw [run_arguments] at h
  cases hNext : next? .closeParen tokens with
  | some found =>
    rw [hNext] at h
    cases h
    exact ⟨[], next?_eq hNext, .none⟩
  | none =>
    rw [hNext] at h
    obtain ⟨⟨first, left⟩, hFirst, hRest⟩ := exists_of_bind h
    obtain ⟨⟨⟨others, close⟩, after⟩, hOthers, hResult⟩ := exists_of_bind hRest
    cases hResult
    have hFewer := length_of_run hFirst
    obtain ⟨ts, hTokens, hExpression⟩ := expression_sound tokens hFirst
    obtain ⟨us, hLeft, hList⟩ := moreArguments_sound left hExpression hOthers
    exact ⟨ts ++ us, by rw [hTokens, hLeft]; simp, .some hList⟩
termination_by (tokens.length, 7)
decreasing_by
  · exact Prod.Lex.right _ (by omega)
  · exact Prod.Lex.left _ _ hFewer

theorem moreArguments_sound (tokens : List Token) {ts : List Token} {e : Expr} {values : List Expr}
    {last : Span} {rest : List Token} (hFirst : Grammar.Expression ts e)
    (h : run (moreArguments tokens) = .ok ((values, last), rest)) :
    ∃ us, tokens = us ++ ⟨.closeParen, last⟩ :: rest ∧
      Grammar.ArgumentList (ts ++ us) (e :: values) := by
  rw [run_moreArguments] at h
  cases hNext : next? .comma tokens with
  | none =>
    rw [hNext] at h
    obtain ⟨⟨close, after⟩, hClose, hResult⟩ := exists_of_bind h
    cases hResult
    exact ⟨[], expect_eq hClose, by simpa using .one hFirst⟩
  | some found =>
    obtain ⟨at_, left⟩ := found
    rw [hNext] at h
    have hTokens := next?_eq hNext
    obtain ⟨⟨next, after⟩, hExpression, hRest⟩ := exists_of_bind h
    obtain ⟨⟨⟨others, close⟩, final⟩, hOthers, hResult⟩ := exists_of_bind hRest
    cases hResult
    have hFewer := length_of_run hExpression
    obtain ⟨us, hLeft, hNextWord⟩ := expression_sound left hExpression
    obtain ⟨vs, hAfter, hList⟩ := moreArguments_sound after hNextWord hOthers
    exact ⟨⟨.comma, at_⟩ :: (us ++ vs), by rw [hTokens, hLeft, hAfter]; simp, .more at_ hFirst hList⟩
termination_by (tokens.length, 7)
decreasing_by
  · exact Prod.Lex.left _ _ (by grind)
  · exact Prod.Lex.left _ _ (by grind)

theorem conditional_sound (first : Span) (tokens : List Token) {e : Expr} {rest : List Token}
    (h : run (conditional first tokens) = .ok (e, rest)) :
    ∃ ts, tokens = ts ++ rest ∧ Grammar.Atom (⟨.keyword .if_, first⟩ :: ts) e := by
  rw [run_conditional] at h
  obtain ⟨⟨condition, left⟩, hCondition, h₁⟩ := exists_of_bind h
  obtain ⟨⟨positive, after⟩, hPositive, h₂⟩ := exists_of_bind h₁
  obtain ⟨⟨negative, final⟩, hNegative, h₃⟩ := exists_of_bind h₂
  obtain ⟨⟨last, behind⟩, hClose, hResult⟩ := exists_of_bind h₃
  cases hResult
  have hFewer := length_of_run hCondition
  have hSkipped := (skip (.keyword .then_) left).noMore
  have hNoMore := length_of_runMaybe hPositive
  obtain ⟨cs, hTokens, hExpression⟩ := expression_sound tokens hCondition
  obtain ⟨ks, hLeft, hThen⟩ := skip_eq (.keyword .then_) left
  obtain ⟨ps, hBody, hSequence⟩ := sequence_sound true (skip (.keyword .then_) left).rest hPositive
  obtain ⟨ns, hAfter, hOther⟩ := otherArm_sound after hNegative
  refine ⟨cs ++ ks ++ ps ++ ns ++ [⟨.keyword .end_, last⟩], ?_,
    .branch first last hExpression hThen hSequence hOther⟩
  rw [hTokens, hLeft, hBody, hAfter, expect_eq hClose]
  simp
termination_by (tokens.length, 7)
decreasing_by
  · exact Prod.Lex.right _ (by omega)
  · exact Prod.Lex.left _ _ (by omega)
  · exact Prod.Lex.left _ _ (by omega)

theorem otherArm_sound (tokens : List Token) {es : List Expr} {rest : List Token}
    (h : runMaybe (otherArm tokens) = .ok (es, rest)) :
    ∃ ts, tokens = ts ++ rest ∧ Grammar.OtherArm ts es := by
  rw [run_otherArm] at h
  cases hNext : next? (.keyword .else_) tokens with
  | none =>
    rw [hNext] at h
    cases h
    exact ⟨[], rfl, .absent⟩
  | some found =>
    obtain ⟨at_, left⟩ := found
    rw [hNext] at h
    have hTokens := next?_eq hNext
    obtain ⟨ts, hLeft, hSequence⟩ := sequence_sound false left h
    exact ⟨⟨.keyword .else_, at_⟩ :: ts, by rw [hTokens, hLeft]; rfl, .present at_ hSequence⟩
termination_by (tokens.length, 7)
decreasing_by
  exact Prod.Lex.left _ _ (by grind)

theorem loop_sound (first : Span) (tokens : List Token) {e : Expr} {rest : List Token}
    (h : run (loop first tokens) = .ok (e, rest)) :
    ∃ ts, tokens = ts ++ rest ∧ Grammar.Atom (⟨.keyword .for_, first⟩ :: ts) e := by
  rw [run_loop] at h
  obtain ⟨⟨initializer, rest₁⟩, hInitializer, h₁⟩ := exists_of_bind h
  obtain ⟨⟨after₁, rest₂⟩, hFirst, h₂⟩ := exists_of_bind h₁
  obtain ⟨⟨condition, rest₃⟩, hCondition, h₃⟩ := exists_of_bind h₂
  obtain ⟨⟨after₂, rest₄⟩, hSecond, h₄⟩ := exists_of_bind h₃
  obtain ⟨⟨step, rest₅⟩, hStep, h₅⟩ := exists_of_bind h₄
  obtain ⟨⟨body, rest₇⟩, hBody, h₆⟩ := exists_of_bind h₅
  obtain ⟨⟨last, rest₈⟩, hClose, hResult⟩ := exists_of_bind h₆
  cases hResult
  have hFewer₁ := length_of_run hInitializer
  have hFewer₂ := length_of_run hFirst
  have hFewer₃ := length_of_run hCondition
  have hFewer₄ := length_of_run hSecond
  have hFewer₅ := length_of_run hStep
  have hSkipped := (skip (.keyword .do_) rest₅).noMore
  obtain ⟨is, hTokens, hInitializerWord⟩ := expression_sound tokens hInitializer
  obtain ⟨cs, hRest₂, hConditionWord⟩ := expression_sound rest₂ hCondition
  obtain ⟨ss, hRest₄, hStepWord⟩ := expression_sound rest₄ hStep
  obtain ⟨ks, hRest₅, hDo⟩ := skip_eq (.keyword .do_) rest₅
  obtain ⟨bs, hRest₆, hSequence⟩ := sequence_sound false (skip (.keyword .do_) rest₅).rest hBody
  refine ⟨is ++ ⟨.semicolon, after₁⟩ :: (cs ++ ⟨.semicolon, after₂⟩ ::
    (ss ++ ks ++ bs ++ [⟨.keyword .end_, last⟩])), ?_,
    .loop first after₁ after₂ last hInitializerWord hConditionWord hStepWord hDo hSequence⟩
  rw [hTokens, expect_eq hFirst, hRest₂, expect_eq hSecond, hRest₄, hRest₅, hRest₆, expect_eq hClose]
  simp
termination_by (tokens.length, 7)
decreasing_by
  · exact Prod.Lex.right _ (by omega)
  · exact Prod.Lex.left _ _ (by omega)
  · exact Prod.Lex.left _ _ (by omega)
  · exact Prod.Lex.left _ _ (by omega)

theorem sequence_sound (elseToo : Bool) (tokens : List Token) {es : List Expr} {rest : List Token}
    (h : runMaybe (sequence elseToo tokens) = .ok (es, rest)) :
    ∃ ts, tokens = ts ++ rest ∧ Grammar.Sequence ts es := by
  rw [run_sequence] at h
  obtain ⟨ss, hTokens, hSeparators⟩ := skipSeparators_eq tokens
  cases hLeft : (skipSeparators tokens).rest with
  | nil =>
    rw [hLeft] at h
    cases h
  | cons token left =>
    have hNoMore : (token :: left).length ≤ tokens.length := hLeft ▸ (skipSeparators tokens).noMore
    rw [hLeft] at h hTokens
    simp only at h
    split at h
    · cases h
      exact ⟨ss, hTokens, .done hSeparators⟩
    · obtain ⟨⟨first, after⟩, hFirst, hRest⟩ := exists_of_bind h
      obtain ⟨⟨others, final⟩, hOthers, hResult⟩ := exists_of_bind hRest
      cases hResult
      have hFewer := length_of_run hFirst
      obtain ⟨ts, hWord, hExpression⟩ := expression_sound (token :: left) hFirst
      obtain ⟨us, hAfter, hSequence⟩ := sequence_sound elseToo after hOthers
      refine ⟨ss ++ ts ++ us, ?_, .more hSeparators hExpression hSequence⟩
      rw [hTokens, hWord, hAfter]
      simp
termination_by (tokens.length, 7)
decreasing_by
  · rcases Nat.lt_or_eq_of_le hNoMore with hLess | hEq
    · exact Prod.Lex.left _ _ hLess
    · rw [hEq]
      exact Prod.Lex.right _ (by omega)
  · exact Prod.Lex.left _ _ (by omega)

end

/-! ## Items -/

theorem moreParameters_sound (tokens : List Token) {text : String} {span : Span} {names : List Name}
    {last : Span} {rest : List Token}
    (h : run (parameters.moreParameters tokens) = .ok ((names, last), rest)) :
    ∃ ts, tokens = ts ++ ⟨.closeParen, last⟩ :: rest ∧
      Grammar.ParameterList (⟨.identifier text, span⟩ :: ts) (⟨text, span⟩ :: names) := by
  rw [run_moreParameters] at h
  cases hNext : next? .comma tokens with
  | none =>
    rw [hNext] at h
    obtain ⟨⟨close, after⟩, hClose, hResult⟩ := exists_of_bind h
    cases hResult
    exact ⟨[], expect_eq hClose, .one text span⟩
  | some found =>
    obtain ⟨at_, left⟩ := found
    rw [hNext] at h
    have hTokens := next?_eq hNext
    obtain ⟨⟨next, after⟩, hName, hRest⟩ := exists_of_bind h
    obtain ⟨⟨⟨others, close⟩, final⟩, hOthers, hResult⟩ := exists_of_bind hRest
    cases hResult
    have hFewer := length_of_run hName
    obtain ⟨ts, hAfter, hList⟩ := moreParameters_sound after hOthers
    refine ⟨⟨.comma, at_⟩ :: ⟨.identifier next.text, next.span⟩ :: ts, ?_, .more text span at_ hList⟩
    rw [hTokens, identifier_eq hName, hAfter]
    rfl
termination_by tokens.length
decreasing_by
  rw [hTokens, List.length_cons]
  omega

theorem parameters_sound {names : List Name} {last : Span}
    (h : run (parameters tokens) = .ok ((names, last), rest)) :
    ∃ ts, tokens = ts ++ ⟨.closeParen, last⟩ :: rest ∧ Grammar.Parameters ts names := by
  rw [run_parameters] at h
  cases hNext : next? .closeParen tokens with
  | some found =>
    rw [hNext] at h
    cases h
    exact ⟨[], next?_eq hNext, .none⟩
  | none =>
    rw [hNext] at h
    obtain ⟨⟨first, left⟩, hFirst, hRest⟩ := exists_of_bind h
    obtain ⟨⟨⟨others, close⟩, after⟩, hOthers, hResult⟩ := exists_of_bind hRest
    cases hResult
    obtain ⟨ts, hLeft, hList⟩ := moreParameters_sound left hOthers
    refine ⟨⟨.identifier first.text, first.span⟩ :: ts, ?_, .some hList⟩
    rw [identifier_eq hFirst, hLeft]
    rfl

theorem prototype_sound {head : Prototype} (h : run (prototype tokens) = .ok (head, rest)) :
    ∃ ts, tokens = ts ++ rest ∧ Grammar.Head ts head := by
  rw [run_prototype] at h
  obtain ⟨⟨name, left⟩, hName, h₁⟩ := exists_of_bind h
  obtain ⟨⟨first, inner⟩, hOpen, h₂⟩ := exists_of_bind h₁
  obtain ⟨⟨⟨names, last⟩, after⟩, hNames, hResult⟩ := exists_of_bind h₂
  cases hResult
  obtain ⟨ts, hInner, hParameters⟩ := parameters_sound hNames
  refine ⟨_, ?_, .mk name.text name.span first last hParameters⟩
  rw [identifier_eq hName, expect_eq hOpen, hInner]
  simp

theorem definition_sound {first : Span} {item : Item}
    (h : run (definition first tokens) = .ok (item, rest)) :
    ∃ ts, tokens = ts ++ rest ∧ Grammar.Item (⟨.keyword .def_, first⟩ :: ts) item := by
  rw [run_definition] at h
  obtain ⟨⟨head, left⟩, hHead, h₁⟩ := exists_of_bind h
  obtain ⟨⟨body, after⟩, hBody, h₂⟩ := exists_of_bind h₁
  obtain ⟨⟨last, final⟩, hClose, hResult⟩ := exists_of_bind h₂
  cases hResult
  obtain ⟨hs, hTokens, hHeadWord⟩ := prototype_sound hHead
  obtain ⟨es, hLeft, hExpression⟩ := expression_sound left hBody
  obtain ⟨ss, hAfter, hSeparators⟩ := skipSeparators_eq after
  refine ⟨_, ?_, .definition first last hHeadWord hExpression hSeparators⟩
  rw [hTokens, hLeft, hAfter, expect_eq hClose]
  simp

theorem item_sound {item : Item} (h : run (Parser.item tokens) = .ok (item, rest)) :
    ∃ ts, tokens = ts ++ rest ∧ Grammar.Item ts item := by
  rw [run_item] at h
  cases tokens with
  | nil => cases h
  | cons token left =>
    have hExpression : ∀ {body : Expr}, run (expression (token :: left)) = .ok (body, rest) →
        ∃ ts, token :: left = ts ++ rest ∧ Grammar.Item ts (.expression body) := by
      intro body hBody
      obtain ⟨ts, hTokens, hWord⟩ := expression_sound (token :: left) hBody
      exact ⟨ts, hTokens, .expression hWord⟩
    obtain ⟨lexeme, span⟩ := token
    cases lexeme with
    | keyword word =>
      cases word with
      | def_ =>
        obtain ⟨ts, hLeft, hItem⟩ := definition_sound h
        exact ⟨⟨.keyword .def_, span⟩ :: ts, by rw [hLeft]; rfl, hItem⟩
      | extern_ =>
        obtain ⟨⟨head, after⟩, hHead, hResult⟩ := exists_of_bind h
        cases hResult
        obtain ⟨ts, hLeft, hWord⟩ := prototype_sound hHead
        exact ⟨⟨.keyword .extern_, span⟩ :: ts, by rw [hLeft]; rfl, .declaration span hWord⟩
      | if_ | for_ | then_ | else_ | do_ | end_ =>
        obtain ⟨⟨body, after⟩, hBody, hResult⟩ := exists_of_bind h
        cases hResult
        exact hExpression hBody
    | identifier _ | integer _ | openParen | closeParen | semicolon | comma | plus | minus | asterisk
    | doubleEquals | lessThan | lessOrEqual | greaterThan | greaterOrEqual | equals =>
      obtain ⟨⟨body, after⟩, hBody, hResult⟩ := exists_of_bind h
      cases hResult
      exact hExpression hBody

/-- The run lemma: what the items take is the whole list of tokens. -/
theorem items_sound (tokens : List Token) {program : List Item} (h : items tokens = .ok program) :
    Grammar.Program tokens program := by
  rw [run_items] at h
  obtain ⟨ss, hTokens, hSeparators⟩ := skipSeparators_eq tokens
  cases hLeft : (skipSeparators tokens).rest with
  | nil =>
    rw [hLeft] at h hTokens
    cases h
    rw [hTokens]
    exact .mk hSeparators .none
  | cons token left =>
    have hNoMore : (token :: left).length ≤ tokens.length := hLeft ▸ (skipSeparators tokens).noMore
    rw [hLeft] at h hTokens
    obtain ⟨⟨first, after⟩, hFirst, hRest⟩ := exists_of_bind h
    obtain ⟨others, hOthers, hResult⟩ := exists_of_bind hRest
    cases hResult
    have hFewer := length_of_run hFirst
    obtain ⟨ts, hWord, hItem⟩ := item_sound hFirst
    cases items_sound after hOthers with
    | mk hBetween hItems =>
      have hProgram := Grammar.Program.mk hSeparators (.more hItem hBetween hItems)
      rw [hTokens, hWord]
      simpa using hProgram
termination_by tokens.length
decreasing_by
  omega

end Parser

theorem Source.items_of_parse {source : Source} {program : List Item} (h : source.parse = .ok program) :
    Parser.items source.scan.tokens = .ok program ∧ source.scan.error = none := by
  unfold Source.parse at h
  simp only at h
  split at h
  · rename_i hItems hError
    cases h
    exact ⟨hItems, hError⟩
  · cases h
  · cases h
  · cases h
  · cases h

/-- A text that is accepted is a program, all of it, and the items are its tree. -/
theorem Source.parse_sound (source : Source) (program : List Item) (h : source.parse = .ok program) :
    source.scan.error = none ∧ Grammar.Program source.scan.tokens program ∧
      ∀ digits span, (⟨.integer digits, span⟩ : Token) ∈ source.scan.tokens →
        digits.toList ≠ [] ∧ ∀ c ∈ digits.toList, isDigit c = true := by
  obtain ⟨hItems, hError⟩ := Source.items_of_parse h
  exact ⟨hError, Parser.items_sound _ hItems, fun _ _ hMem => digits_of_mem_scan hMem⟩

def bracketedTarget : Source := ⟨"def f(a) a * -2 + 1; end (x) = f(3);", .memory⟩

def bracketedTargetItems : List Item :=
  [.definition ⟨0, 24⟩ ⟨⟨4, 8⟩, ⟨"f", 4, 5⟩, [⟨"a", 6, 7⟩]⟩
    (.binary ⟨9, 19⟩ .add
      (.binary ⟨9, 15⟩ .multiply (.variable ⟨9, 10⟩ ⟨"a", 9, 10⟩) (.int ⟨13, 15⟩ (-2))) (.int ⟨18, 19⟩ 1)),
    .expression (.assign ⟨25, 35⟩ ⟨"x", 26, 27⟩ (.call ⟨31, 35⟩ ⟨"f", 31, 32⟩ [.int ⟨33, 34⟩ 3]))]

theorem Source.parse_sound_bracketedTarget :
    bracketedTarget.parse = .ok bracketedTargetItems ∧
      Grammar.Program bracketedTarget.scan.tokens bracketedTargetItems := by
  have hParse : bracketedTarget.parse = .ok bracketedTargetItems := by cbv
  exact ⟨hParse, (Source.parse_sound _ _ hParse).2.1⟩

end Slate
