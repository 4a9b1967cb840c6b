import Slate.Proofs.Parser.Soundness
import Slate.Proofs.Scan.Longest

/-! # Names of programs that were read

Every name in a tree comes from an identifier among the tokens, so the names of a program that was parsed
are words.
-/

namespace Slate
set_option autoImplicit false

def allSpelled (tokens : List Token) : Prop := ∀ token ∈ tokens, token.lexeme.Spelled

theorem allSpelled_append {tokens tokens' : List Token} :
    allSpelled (tokens ++ tokens') ↔ allSpelled tokens ∧ allSpelled tokens' := List.forall_mem_append

theorem allSpelled_cons {token : Token} {tokens : List Token} :
    allSpelled (token :: tokens) ↔ token.lexeme.Spelled ∧ allSpelled tokens := List.forall_mem_cons

theorem Expr.named_withSpan (e : Expr) (span : Span) : (e.withSpan span).named = e.named := by
  cases e <;> rfl

namespace Grammar

theorem Target.named {ts : List Token} {name : Name} {span : Span} (h : Target ts name span)
    (hTokens : allSpelled ts) : isName name.text = true := by
  induction h with
  | name text span => exact (allSpelled_cons.mp hTokens).1
  | bracketed first last _ ih =>
    simp only [allSpelled_cons, allSpelled_append] at hTokens
    exact ih hTokens.2.1

mutual

theorem Expression.named {ts : List Token} {e : Expr} (h : Expression ts e) (hTokens : allSpelled ts) :
    e.named = true := by
  cases h with
  | comparison h => exact h.named hTokens
  | assign at_ hTarget hValue =>
    simp only [allSpelled_cons, allSpelled_append] at hTokens
    rw [Expr.named, hTarget.named hTokens.1, hValue.named hTokens.2.2]
    rfl
termination_by (ts.length, 4, 0)
decreasing_by all_goals subst_vars; simp only [Prod.lex_def, List.length_append, List.length_cons, true_and]; omega

theorem Comparison.named {ts : List Token} {e : Expr} (h : Comparison ts e) (hTokens : allSpelled ts) :
    e.named = true := by
  cases h with
  | sum h => exact h.named hTokens
  | compare op at_ hLhs hRhs =>
    simp only [allSpelled_cons, allSpelled_append] at hTokens
    rw [Expr.named, hLhs.named hTokens.1, hRhs.named hTokens.2.2]
    rfl
termination_by (ts.length, 3, 0)
decreasing_by all_goals subst_vars; simp only [Prod.lex_def, List.length_append, List.length_cons, true_and]; omega

theorem Sum.named {ts : List Token} {e : Expr} (h : Sum ts e) (hTokens : allSpelled ts) : e.named = true := by
  cases h with
  | product h => exact h.named hTokens
  | more op at_ _ hLhs hRhs =>
    simp only [allSpelled_cons, allSpelled_append] at hTokens
    rw [Expr.named, hLhs.named hTokens.1, hRhs.named hTokens.2.2]
    rfl
termination_by (ts.length, 2, 0)
decreasing_by all_goals subst_vars; simp only [Prod.lex_def, List.length_append, List.length_cons, true_and]; omega

theorem Product.named {ts : List Token} {e : Expr} (h : Product ts e) (hTokens : allSpelled ts) :
    e.named = true := by
  cases h with
  | atom h => exact h.named hTokens
  | more at_ hLhs hRhs =>
    simp only [allSpelled_cons, allSpelled_append] at hTokens
    rw [Expr.named, hLhs.named hTokens.1, hRhs.named hTokens.2.2]
    rfl
termination_by (ts.length, 1, 0)
decreasing_by all_goals subst_vars; simp only [Prod.lex_def, List.length_append, List.length_cons, true_and]; omega

theorem Atom.named {ts : List Token} {e : Expr} (h : Atom ts e) (hTokens : allSpelled ts) : e.named = true := by
  cases h with
  | int | negative => rfl
  | «variable» name span => exact (allSpelled_cons.mp hTokens).1
  | call name span first last hArguments =>
    simp only [allSpelled_cons, allSpelled_append] at hTokens
    have hName : isName name = true := hTokens.1
    rw [Expr.named, hName, hArguments.named hTokens.2.2.1]
    rfl
  | bracketed first last hExpression =>
    simp only [allSpelled_cons, allSpelled_append] at hTokens
    rw [Expr.named_withSpan]
    exact hExpression.named hTokens.2.1
  | branch first last hCondition _ hPositive hNegative =>
    simp only [allSpelled_cons, allSpelled_append] at hTokens
    obtain ⟨-, ⟨⟨⟨hConditionTokens, -⟩, hPositiveTokens⟩, hNegativeTokens⟩, -⟩ := hTokens
    rw [Expr.named, hCondition.named hConditionTokens, hPositive.named hPositiveTokens,
      hNegative.named hNegativeTokens]
    rfl
  | loop first after₁ after₂ last hInitializer hCondition hStep _ hBody =>
    simp only [allSpelled_cons, allSpelled_append] at hTokens
    obtain ⟨-, hInitializerTokens, -, hConditionTokens, -, ⟨⟨hStepTokens, -⟩, hBodyTokens⟩, -⟩ := hTokens
    rw [Expr.named, hInitializer.named hInitializerTokens, hCondition.named hConditionTokens,
      hStep.named hStepTokens, hBody.named hBodyTokens]
    rfl
termination_by (ts.length, 0, 0)
decreasing_by all_goals subst_vars; simp only [Prod.lex_def, List.length_append, List.length_cons]; omega

theorem Arguments.named {ts : List Token} {es : List Expr} (h : Arguments ts es) (hTokens : allSpelled ts) :
    allNamed es = true := by
  cases h with
  | none => rfl
  | some h => exact h.named hTokens
termination_by (ts.length, 6, 0)
decreasing_by all_goals subst_vars; simp only [Prod.lex_def, true_and]; omega

theorem ArgumentList.named {ts : List Token} {es : List Expr} (h : ArgumentList ts es) (hTokens : allSpelled ts) :
    allNamed es = true := by
  cases h with
  | one hFirst => rw [allNamed, hFirst.named hTokens]; rfl
  | more at_ hFirst hRest =>
    simp only [allSpelled_cons, allSpelled_append] at hTokens
    rw [allNamed, hFirst.named hTokens.1, hRest.named hTokens.2.2]
    rfl
termination_by (ts.length, 5, 0)
decreasing_by all_goals subst_vars; simp only [Prod.lex_def, List.length_append, List.length_cons, true_and]; omega

theorem OtherArm.named {ts : List Token} {es : List Expr} (h : OtherArm ts es) (hTokens : allSpelled ts) :
    allNamed es = true := by
  cases h with
  | absent => rfl
  | present at_ hSequence =>
    rw [allSpelled_cons] at hTokens
    exact hSequence.named hTokens.2
termination_by (ts.length, 6, 0)
decreasing_by all_goals subst_vars; simp only [Prod.lex_def, List.length_cons]; omega

theorem Sequence.named {ts : List Token} {es : List Expr} (h : Sequence ts es) (hTokens : allSpelled ts) :
    allNamed es = true := by
  cases h with
  | done _ => rfl
  | more _ hFirst hRest =>
    simp only [allSpelled_append] at hTokens
    rw [allNamed, hFirst.named hTokens.1.2, hRest.named hTokens.2]
    rfl
termination_by (ts.length, 5, es.length)
decreasing_by all_goals subst_vars; simp only [Prod.lex_def, List.length_append, List.length_cons, true_and]; omega

end

theorem ParameterList.named {ts : List Token} {names : List Name} (h : ParameterList ts names)
    (hTokens : allSpelled ts) : ∀ name ∈ names, isName name.text = true := by
  induction h with
  | one name span =>
    rw [List.forall_mem_singleton]
    exact (allSpelled_cons.mp hTokens).1
  | more name span at_ _ ih =>
    simp only [allSpelled_cons] at hTokens
    rw [List.forall_mem_cons]
    exact ⟨hTokens.1, ih hTokens.2.2⟩

theorem Head.named {ts : List Token} {head : Prototype} (h : Head ts head) (hTokens : allSpelled ts) :
    head.named = true := by
  cases h with
  | mk name span first last hParameters =>
    simp only [allSpelled_cons, allSpelled_append] at hTokens
    simp only [Prototype.named, Bool.and_eq_true, List.all_eq_true]
    refine ⟨hTokens.1, ?_⟩
    cases hParameters with
    | none => simp
    | some hList => exact hList.named hTokens.2.2.1

theorem Item.named {ts : List Token} {item : Slate.Item} (h : Item ts item) (hTokens : allSpelled ts) :
    item.named = true := by
  cases h with
  | definition first last hHead hBody _ =>
    simp only [allSpelled_cons, allSpelled_append] at hTokens
    obtain ⟨-, ⟨⟨hHeadTokens, hBodyTokens⟩, -⟩, -⟩ := hTokens
    rw [Slate.Item.named, hHead.named hHeadTokens, hBody.named hBodyTokens]
    rfl
  | declaration first hHead => exact hHead.named (allSpelled_cons.mp hTokens).2
  | expression hBody => exact hBody.named hTokens

theorem Items.named {ts : List Token} {items : List Slate.Item} (h : Items ts items) (hTokens : allSpelled ts) :
    ∀ item ∈ items, item.named = true := by
  induction h with
  | none => simp
  | more hItem _ _ ih =>
    simp only [allSpelled_append] at hTokens
    rw [List.forall_mem_cons]
    exact ⟨hItem.named hTokens.1.1, ih hTokens.2⟩

end Grammar

theorem Source.allSpelled_scan (source : Source) : allSpelled source.scan.tokens := by
  intro token hMem
  obtain ⟨front, back, hTokens⟩ := List.append_of_mem hMem
  exact (tokenAt_of_mem hTokens).spelled

theorem Source.named_of_parse {source : Source} {program : List Item} (h : source.parse = .ok program) :
    ∀ item ∈ program, item.named = true := by
  have hTokens := source.allSpelled_scan
  have hProgram := Parser.items_sound _ (items_of_parse h).1
  generalize source.scan.tokens = tokens at hTokens hProgram
  cases hProgram with
  | mk _ hItems => exact hItems.named (allSpelled_append.mp hTokens).2

end Slate
