import Slate.Proofs.Parser.Viable

/-! # The tokens of a node

Every node of a tree has tokens of its own: they stand next to each other, and by themselves they are read as
that node. The tokens of its children are among them, one after the other.
-/

namespace Slate
set_option autoImplicit false

/-- Whatever of a program has a span. -/
inductive Node where
  | item (it : Item)
  | prototype (head : Prototype)
  | identifier (name : Name)
  | expression (e : Expr)

/-- The nodes right below an expression, from left to right. -/
def Expr.children : Expr → List Node
  | .int _ _ => []
  | .binary _ _ lhs rhs | .compare _ _ lhs rhs => [.expression lhs, .expression rhs]
  | .variable _ name => [.identifier name]
  | .assign _ target value => [.identifier target, .expression value]
  | .branch _ condition positive negative =>
    .expression condition :: (positive.map .expression ++ negative.map .expression)
  | .loop _ initializer condition step body =>
    .expression initializer :: .expression condition :: .expression step :: body.map .expression
  | .call _ callee arguments => .identifier callee :: arguments.map .expression

namespace Node

def span : Node → Span
  | .item it => it.span
  | .prototype head => head.span
  | .identifier name => name.span
  | .expression e => e.span

def children : Node → List Node
  | .item (.declaration _ head) => [.prototype head]
  | .item (.definition _ head body) => [.prototype head, .expression body]
  | .item (.expression body) => [.expression body]
  | .prototype head => .identifier head.name :: head.parameters.map .identifier
  | .identifier _ => []
  | .expression e => e.children

/-- These tokens, and no others, are read as the node. -/
def Reads (tokens : List Token) : Node → Prop
  | .item it => Parser.run (Parser.item tokens) = .ok (it, [])
  | .prototype head => Grammar.Head tokens head
  | .identifier name => tokens = [⟨.identifier name.text, name.span⟩]
  | .expression e => Parser.run (Parser.expression tokens) = .ok (e, [])

end Node

theorem Expr.children_withSpan (span : Span) (e : Expr) : (e.withSpan span).children = e.children := by
  cases e <;> rfl

/-- The nodes are found one after the other among the tokens in front of the rest. -/
inductive Finds : List Token → List Node → List Token → Prop
  | done (tokens : List Token) : Finds tokens [] tokens
  | skip {tokens rest : List Token} {nodes : List Node} (token : Token) :
    Finds tokens nodes rest → Finds (token :: tokens) nodes rest
  | node {used tokens rest : List Token} {node : Node} {nodes : List Node} :
    node.Reads used → Finds tokens nodes rest → Finds (used ++ tokens) (node :: nodes) rest

namespace Finds

variable {tokens rest left : List Token} {nodes others : List Node}

theorem trans (h : Finds tokens nodes rest) (hOthers : Finds rest others left) :
    Finds tokens (nodes ++ others) left := by
  induction h with
  | done => exact hOthers
  | skip token _ ih => exact .skip token (ih hOthers)
  | node hReads _ ih => exact .node hReads (ih hOthers)

/-- What is left out. -/
theorem skipped {used : List Token} (h : tokens = used ++ rest) : Finds tokens [] rest := by
  induction used generalizing tokens with
  | nil =>
    rw [h]
    exact .done rest
  | cons token used ih =>
    rw [h]
    exact .skip token (ih rfl)

/-- Nothing is looked for. -/
theorem none (tokens : List Token) : Finds tokens [] [] := skipped (List.append_nil tokens).symm

theorem append (h : Finds tokens nodes rest) (more : List Token) : Finds (tokens ++ more) nodes (rest ++ more) := by
  induction h with
  | done tokens => exact .done _
  | skip token _ ih => exact .skip token ih
  | node hReads _ ih =>
    rw [List.append_assoc]
    exact .node hReads ih

theorem single {node : Node} (h : node.Reads tokens) : Finds tokens [node] [] := by
  have hNode := Finds.node h (.done [])
  rw [List.append_nil] at hNode
  exact hNode

theorem identifier (text : String) (span : Span) (h : Finds tokens nodes rest) :
    Finds (⟨.identifier text, span⟩ :: tokens) (.identifier ⟨text, span⟩ :: nodes) rest :=
  @Finds.node [⟨.identifier text, span⟩] _ _ (.identifier ⟨text, span⟩) _ rfl h

/-- The tokens of each node. -/
theorem exists_reads (h : Finds tokens nodes rest) {node : Node} (hMem : node ∈ nodes) :
    ∃ front used back, tokens = front ++ (used ++ back) ∧ node.Reads used := by
  induction h with
  | done => cases hMem
  | skip token _ ih =>
    obtain ⟨front, used, back, rfl, hReads⟩ := ih hMem
    exact ⟨token :: front, used, back, rfl, hReads⟩
  | @node first tokens _ _ _ hFirst _ ih =>
    rcases List.mem_cons.mp hMem with rfl | hMem
    · exact ⟨[], first, tokens, rfl, hFirst⟩
    · obtain ⟨front, used, back, rfl, hReads⟩ := ih hMem
      exact ⟨first ++ front, used, back, by simp, hReads⟩

end Finds

namespace Parser

variable {tokens rest : List Token} {e : Expr}

/-! ## Expressions by themselves -/

/-- What was read is read from the tokens it took, where nothing follows them. -/
theorem Reports.exists_used {α : Type} {read : Reading α} {stop : List Token → Prop} {value : α}
    (h : Reports read stop tokens) (hStop : stop []) (hRead : read tokens = .ok (value, rest)) :
    ∃ used, tokens = used ++ rest ∧ read used = .ok (value, []) := by
  obtain ⟨used, hTokens, hOther⟩ := h.ok value rest hRead
  have hUsed := hOther [] (.inr hStop)
  rw [List.append_nil] at hUsed
  exact ⟨used, hTokens, hUsed⟩

theorem expression_of_comparison (h : run (comparison tokens) = .ok (e, [])) :
    run (expression tokens) = .ok (e, []) := by
  refine (congrFun expression_eq tokens).trans ?_
  rw [andThen_of_ok h]
  rfl

theorem chainFrom_nil (level : Level) (front : Expr) : runMaybe (chainFrom level front []) = .ok (front, []) :=
  chainFrom_of_stops trivial

theorem chain_of_operand (level : Level) (h : run (operand level tokens) = .ok (e, [])) :
    run (chain level tokens) = .ok (e, []) := by
  refine (congrFun (chain_eq level) tokens).trans ?_
  rw [andThen_of_ok h]
  exact chainFrom_nil level e

theorem expression_of_chain {level : Level} (h : run (chain level tokens) = .ok (e, [])) :
    run (expression tokens) = .ok (e, []) := by
  have hSum : run (chain .sum tokens) = .ok (e, []) := by
    cases level with
    | sum => exact h
    | product => exact chain_of_operand .sum ((congrFun operand_sum tokens).trans h)
  apply expression_of_comparison
  refine (congrFun comparison_eq tokens).trans ?_
  rw [andThen_of_ok hSum]
  rfl

theorem expression_finds (h : run (expression tokens) = .ok (e, rest)) : Finds tokens [.expression e] rest := by
  obtain ⟨used, rfl, hUsed⟩ := (expression_reports tokens).exists_used trivial h
  exact .node hUsed (.done rest)

/-! ## Parts of an expression -/

theorem separators_finds {value : Unit} (h : separators tokens = .ok (value, rest)) : Finds tokens [] rest := by
  cases h
  obtain ⟨used, hTokens, _⟩ := skipSeparators_eq tokens
  exact .skipped hTokens

theorem skipping_finds {lexeme : Lexeme} {value : Unit} (h : skipping lexeme tokens = .ok (value, rest)) :
    Finds tokens [] rest := by
  cases h
  obtain ⟨used, hTokens, _⟩ := skip_eq lexeme tokens
  exact .skipped hTokens

theorem expect_finds {lexeme : Lexeme} {expected : Expectation} {span : Span}
    (h : run (expect lexeme expected tokens) = .ok (span, rest)) : Finds tokens [] rest := by
  rw [expect_eq h]
  exact .skip _ (.done rest)

theorem closing_finds {α : Type} {finish : Span → α} {value : α} (h : closing finish tokens = .ok (value, rest)) :
    Finds tokens [] rest ∧ ∃ close, value = finish close := by
  obtain ⟨close, left, hClose, hValue⟩ := andThen_eq_ok h
  cases hValue
  exact ⟨expect_finds hClose, close, rfl⟩

theorem moreArguments_finds (tokens : List Token) {values : List Expr × Span} {rest : List Token}
    (h : run (moreArguments tokens) = .ok (values, rest)) : Finds tokens (values.1.map .expression) rest := by
  replace h := (congrFun moreArguments_eq tokens).symm.trans h
  unfold moreElements at h
  cases hComma : next? .comma tokens with
  | none =>
    rw [hComma] at h
    obtain ⟨close, left, hClose, hValue⟩ := andThen_eq_ok h
    cases hValue
    exact expect_finds hClose
  | some pair =>
    obtain ⟨comma, after⟩ := pair
    rw [hComma] at h
    obtain ⟨first, left, hFirst, hMore⟩ := andThen_eq_ok h
    obtain ⟨others, final, hOthers, hValue⟩ := andThen_eq_ok hMore
    cases hValue
    have hTokens := next?_eq hComma
    have hShorter := length_of_run hFirst
    rw [hTokens]
    exact .skip _ ((expression_finds hFirst).trans (moreArguments_finds left hOthers))
termination_by tokens.length
decreasing_by
  rw [hTokens, List.length_cons]
  omega

theorem arguments_finds {values : List Expr × Span} (h : run (arguments tokens) = .ok (values, rest)) :
    Finds tokens (values.1.map .expression) rest := by
  replace h := (congrFun arguments_eq tokens).symm.trans h
  unfold elements at h
  cases hClose : next? .closeParen tokens with
  | some pair =>
    rw [hClose] at h
    cases h
    rw [next?_eq hClose]
    exact .skip _ (.done _)
  | none =>
    rw [hClose] at h
    obtain ⟨first, left, hFirst, hMore⟩ := andThen_eq_ok h
    obtain ⟨others, final, hOthers, hValue⟩ := andThen_eq_ok hMore
    cases hValue
    exact (expression_finds hFirst).trans (moreArguments_finds left hOthers)

theorem sequence_finds (elseToo : Bool) (tokens : List Token) {es : List Expr} {rest : List Token}
    (h : runMaybe (sequence elseToo tokens) = .ok (es, rest)) : Finds tokens (es.map .expression) rest := by
  replace h := (congrFun (sequence_eq elseToo) tokens).symm.trans h
  obtain ⟨_, left, hSeparators, hSequenced⟩ := andThen_eq_ok h
  have hFinds := separators_finds hSeparators
  have hNoMore := separators_keeps _ _ _ hSeparators
  cases left with
  | nil => cases hSequenced
  | cons token after =>
    rw [sequenced] at hSequenced
    split at hSequenced
    · cases hSequenced
      exact hFinds
    · obtain ⟨first, final, hFirst, hMore⟩ := andThen_eq_ok hSequenced
      obtain ⟨others, last, hOthers, hValue⟩ := andThen_eq_ok hMore
      cases hValue
      have hShorter := length_of_run hFirst
      exact hFinds.trans ((expression_finds hFirst).trans (sequence_finds elseToo final hOthers))
termination_by tokens.length

theorem otherArm_finds {es : List Expr} (h : runMaybe (otherArm tokens) = .ok (es, rest)) :
    Finds tokens (es.map .expression) rest := by
  rw [run_otherArm] at h
  cases hElse : next? (.keyword .else_) tokens with
  | none =>
    rw [hElse] at h
    cases h
    exact .done _
  | some pair =>
    rw [hElse] at h
    rw [next?_eq hElse]
    exact .skip _ (sequence_finds false pair.2 h)

theorem conditional_finds {keyword : Span} (h : run (conditional keyword tokens) = .ok (e, rest)) :
    Finds tokens e.children rest := by
  replace h := (congrFun (conditional_eq keyword) tokens).symm.trans h
  obtain ⟨condition, rest₁, hCondition, h⟩ := andThen_eq_ok h
  obtain ⟨_, rest₂, hThen, h⟩ := andThen_eq_ok h
  obtain ⟨positive, rest₃, hPositive, h⟩ := andThen_eq_ok h
  obtain ⟨negative, rest₄, hNegative, h⟩ := andThen_eq_ok h
  obtain ⟨hClosing, close, rfl⟩ := closing_finds h
  have hArms := (sequence_finds true _ hPositive).trans ((otherArm_finds hNegative).trans hClosing)
  rw [List.append_nil] at hArms
  exact (expression_finds hCondition).trans ((skipping_finds hThen).trans hArms)

theorem loop_finds {keyword : Span} (h : run (loop keyword tokens) = .ok (e, rest)) :
    Finds tokens e.children rest := by
  replace h := (congrFun (loop_eq keyword) tokens).symm.trans h
  obtain ⟨initializer, rest₁, hInitializer, h⟩ := andThen_eq_ok h
  obtain ⟨_, rest₂, hFirst, h⟩ := andThen_eq_ok h
  obtain ⟨condition, rest₃, hCondition, h⟩ := andThen_eq_ok h
  obtain ⟨_, rest₄, hSecond, h⟩ := andThen_eq_ok h
  obtain ⟨step, rest₅, hStep, h⟩ := andThen_eq_ok h
  obtain ⟨_, rest₆, hDo, h⟩ := andThen_eq_ok h
  obtain ⟨body, rest₇, hBody, h⟩ := andThen_eq_ok h
  obtain ⟨hClosing, close, rfl⟩ := closing_finds h
  have hRounds := (skipping_finds hDo).trans ((sequence_finds false _ hBody).trans hClosing)
  rw [List.append_nil] at hRounds
  exact (expression_finds hInitializer).trans ((expect_finds hFirst).trans
    ((expression_finds hCondition).trans ((expect_finds hSecond).trans
      ((expression_finds hStep).trans hRounds))))

theorem target_finds {name : Name} {span : Span} (h : Grammar.Target tokens name span) :
    Finds tokens [.identifier name] [] := by
  induction h with
  | name text span => exact .single rfl
  | bracketed first last _ ih => exact .skip _ ((ih.append [⟨.closeParen, last⟩]).trans (.none _))

/-- The step and run lemma of a chain. What stands before the next operator is a chain by itself, whatever is
left of the operands behind it. -/
theorem chainFrom_finds (level : Level) (used tokens : List Token) {front e : Expr}
    (hUsed : ∀ other, other.head? = tokens.head? ∨ Stops (level.place + 1) other →
      run (chain level (used ++ other)) = runMaybe (chainFrom level front other))
    (hFront : Finds used front.children []) (h : runMaybe (chainFrom level front tokens) = .ok (e, [])) :
    Finds (used ++ tokens) e.children [] := by
  cases tokens with
  | nil =>
    rw [chainFrom_nil] at h
    cases h
    rw [List.append_nil]
    exact hFront
  | cons token rest =>
    cases hOp : level.operator? token.lexeme with
    | none =>
      rw [chainFrom_of_none hOp] at h
      cases h
    | some op =>
      rw [chainFrom_of_some hOp] at h
      obtain ⟨rhs, left, hRhs, hJoined⟩ := andThen_eq_ok h
      obtain ⟨taken, rfl, hTaken⟩ := (operand_reports level rest).ok rhs left hRhs
      have hShorter := length_of_run hRhs
      have hLeftReads : (Node.expression front).Reads used := by
        have hAlone := hUsed [] (.inr trivial)
        rw [List.append_nil, chainFrom_nil] at hAlone
        exact expression_of_chain hAlone
      have hRightReads : (Node.expression rhs).Reads taken := by
        have hAlone := hTaken [] (.inr trivial)
        rw [List.append_nil] at hAlone
        exact expression_of_chain (chain_of_operand level hAlone)
      have hMore : ∀ other, other.head? = left.head? ∨ Stops (level.place + 1) other →
          run (chain level ((used ++ token :: taken) ++ other)) =
            runMaybe (chainFrom level (.binary (front.span.through rhs.span) op front rhs) other) := by
        intro other hOther
        rw [List.append_assoc, List.cons_append, hUsed (token :: (taken ++ other)) (.inl rfl), chainFrom_of_some hOp,
          andThen_of_ok (hTaken other hOther)]
        rfl
      have hWhole := chainFrom_finds level (used ++ token :: taken) left hMore
        (.node hLeftReads (.skip token (.single hRightReads))) hJoined
      rw [List.append_assoc] at hWhole
      exact hWhole
termination_by tokens.length

/-! ## The children of an expression -/

-- Only what stands in brackets has fewer tokens; the other calls go down on the same tokens.
mutual

theorem children_of_expression (tokens : List Token) {e : Expr} (h : run (expression tokens) = .ok (e, [])) :
    Finds tokens e.children [] := by
  replace h := (congrFun expression_eq tokens).symm.trans h
  obtain ⟨lhs, rest, hLhs, hRest⟩ := andThen_eq_ok h
  cases rest with
  | nil =>
    cases hRest
    exact children_of_comparison tokens hLhs
  | cons token after =>
    rw [assigned] at hRest
    split at hRest
    · cases hTarget : target? lhs with
      | none =>
        rw [hTarget] at hRest
        cases hRest
      | some target =>
        rw [hTarget] at hRest
        obtain ⟨value, left, hValue, hResult⟩ := andThen_eq_ok hRest
        cases hResult
        obtain ⟨used, hTokens, hComparison⟩ := comparison_sound tokens hLhs
        have hName := (target_finds (target_of_comparison hComparison hTarget)).append (token :: after)
        rw [← hTokens] at hName
        exact hName.trans (.skip token (.single hValue))
    · cases hRest
termination_by (tokens.length, 6)
decreasing_by
  exact Prod.Lex.right _ (by omega)

theorem children_of_comparison (tokens : List Token) {e : Expr} (h : run (comparison tokens) = .ok (e, [])) :
    Finds tokens e.children [] := by
  replace h := (congrFun comparison_eq tokens).symm.trans h
  obtain ⟨lhs, rest, hLhs, hRest⟩ := andThen_eq_ok h
  cases rest with
  | nil =>
    cases hRest
    exact children_of_chain .sum tokens hLhs
  | cons token after =>
    rw [compared] at hRest
    cases hOp : comparison? token.lexeme with
    | none =>
      rw [hOp] at hRest
      cases hRest
    | some op =>
      rw [hOp] at hRest
      obtain ⟨rhs, left, hRhs, hResult⟩ := andThen_eq_ok hRest
      cases hResult
      obtain ⟨used, rfl, hUsed⟩ := (chain_reports .sum tokens).exists_used trivial hLhs
      exact .node (expression_of_chain hUsed) (.skip token (.single (expression_of_chain hRhs)))
termination_by (tokens.length, 5)
decreasing_by
  exact Prod.Lex.right _ (by simp [Level.rank])

theorem children_of_chain (level : Level) (tokens : List Token) {e : Expr}
    (h : run (chain level tokens) = .ok (e, [])) : Finds tokens e.children [] := by
  replace h := (congrFun (chain_eq level) tokens).symm.trans h
  obtain ⟨first, rest, hFirst, hRest⟩ := andThen_eq_ok h
  obtain ⟨used, hTokens, hUsed⟩ := (operand_reports level tokens).ok first rest hFirst
  have hAlone := hUsed [] (.inr trivial)
  rw [List.append_nil] at hAlone
  have hChain : ∀ other, other.head? = rest.head? ∨ Stops (level.place + 1) other →
      run (chain level (used ++ other)) = runMaybe (chainFrom level first other) := by
    intro other hOther
    refine (congrFun (chain_eq level) (used ++ other)).trans ?_
    rw [andThen_of_ok (hUsed other hOther)]
  have hLength : used.length ≤ tokens.length := by
    rw [hTokens, List.length_append]
    omega
  rw [hTokens]
  exact chainFrom_finds level used rest hChain (children_of_operand level used hAlone) hRest
termination_by (tokens.length, level.rank + 1)
decreasing_by
  rcases Nat.lt_or_eq_of_le hLength with hLess | hEq
  · exact Prod.Lex.left _ _ hLess
  · rw [hEq]
    exact Prod.Lex.right _ (by omega)

theorem children_of_operand (level : Level) (tokens : List Token) {e : Expr}
    (h : run (operand level tokens) = .ok (e, [])) : Finds tokens e.children [] := by
  cases hLevel : level with
  | sum =>
    rw [hLevel] at h
    exact children_of_chain .product tokens ((congrFun operand_sum tokens).symm.trans h)
  | product =>
    rw [hLevel] at h
    exact children_of_atom tokens ((congrFun operand_product tokens).symm.trans h)
termination_by (tokens.length, level.rank)
decreasing_by
  · exact Prod.Lex.right _ (by simp [hLevel, Level.rank])
  · exact Prod.Lex.right _ (by simp [hLevel, Level.rank])

theorem children_of_atom (tokens : List Token) {e : Expr} (h : run (atom tokens) = .ok (e, [])) :
    Finds tokens e.children [] := by
  cases hTokens : tokens with
  | nil =>
    rw [hTokens, run_atom] at h
    cases h
  | cons token rest =>
    obtain ⟨lexeme, span⟩ := token
    rw [hTokens, run_atom] at h
    cases lexeme with
    | integer digits =>
      cases hConstant : constant span false digits with
      | error rejection =>
        simp only [hConstant] at h
        cases h
      | ok value =>
        obtain ⟨word, rfl, _⟩ := constant_eq hConstant
        simp only [hConstant] at h
        cases h
        exact .none _
    | minus =>
      obtain ⟨us, _, hAtom⟩ := negativeConstant_sound h
      cases hAtom with
      | negative => exact .none _
    | identifier name =>
      change called name span rest = .ok (e, []) at h
      by_cases hOpen : Lacks .openParen rest
      · rw [called_of_lacks hOpen] at h
        cases h
        exact .single rfl
      · obtain ⟨open_, left, rfl⟩ := exists_of_not_lacks hOpen
        rw [called_self] at h
        obtain ⟨values, after, hValues, hResult⟩ := andThen_eq_ok h
        cases hResult
        exact .identifier name span (.skip _ (arguments_finds hValues))
    | openParen =>
      change andThen (fun tokens => run (expression tokens)) (bracketed span) rest = .ok (e, []) at h
      obtain ⟨inner, left, hInner, hClose⟩ := andThen_eq_ok h
      obtain ⟨close, after, hExpect, hResult⟩ := andThen_eq_ok hClose
      cases hResult
      obtain ⟨used, hRest, hUsed⟩ := (expression_reports rest).exists_used trivial hInner
      have hLength : used.length < tokens.length := by
        rw [hTokens, hRest, List.length_cons, List.length_append]
        omega
      rw [Expr.children_withSpan, hRest]
      have hChildren := ((children_of_expression used hUsed).append left).trans (expect_finds hExpect)
      rw [List.append_nil] at hChildren
      exact .skip _ hChildren
    | keyword word =>
      cases word with
      | if_ => exact .skip _ (conditional_finds h)
      | for_ => exact .skip _ (loop_finds h)
      | def_ | extern_ | then_ | else_ | do_ | end_ => cases h
    | closeParen | semicolon | comma | plus | asterisk | doubleEquals | lessThan | lessOrEqual
    | greaterThan | greaterOrEqual | equals => cases h
termination_by (tokens.length, 0)
decreasing_by
  exact Prod.Lex.left _ _ hLength

end

/-! ## Items -/

theorem children_of_parameterList {names : List Name} (h : Grammar.ParameterList tokens names) :
    Finds tokens (names.map .identifier) [] := by
  induction h with
  | one name span => exact .single rfl
  | more name span at_ _ ih => exact .identifier name span (.skip _ ih)

theorem children_of_head {head : Prototype} (h : Grammar.Head tokens head) :
    Finds tokens (Node.prototype head).children [] := by
  cases h with
  | @mk ts names name span first last hParameters =>
    have hNames : Finds ts (names.map .identifier) [] := by
      cases hParameters with
      | none => exact .done []
      | some hList => exact children_of_parameterList hList
    have hAll := (hNames.append [⟨.closeParen, last⟩]).trans (.none _)
    rw [List.append_nil] at hAll
    exact .identifier name span (.skip _ hAll)

theorem prototype_finds {head : Prototype} (h : run (prototype tokens) = .ok (head, rest)) :
    Finds tokens [.prototype head] rest := by
  obtain ⟨used, rfl, hHead⟩ := prototype_sound h
  exact @Finds.node used _ _ (.prototype head) _ hHead (.done rest)

theorem children_of_item {it : Item} (h : run (item tokens) = .ok (it, [])) :
    Finds tokens (Node.item it).children [] := by
  cases tokens with
  | nil =>
    rw [run_item] at h
    cases h
  | cons token rest =>
    obtain ⟨lexeme, span⟩ := token
    by_cases hDef : lexeme = .keyword .def_
    · cases hDef
      rw [run_item] at h
      replace h := (congrFun (definition_eq span) rest).symm.trans h
      obtain ⟨head, rest₁, hHead, h⟩ := andThen_eq_ok h
      obtain ⟨body, rest₂, hBody, h⟩ := andThen_eq_ok h
      obtain ⟨_, rest₃, hSeparators, h⟩ := andThen_eq_ok h
      obtain ⟨hClosing, close, rfl⟩ := closing_finds h
      exact .skip _ ((prototype_finds hHead).trans ((expression_finds hBody).trans
        ((separators_finds hSeparators).trans hClosing)))
    · by_cases hExtern : lexeme = .keyword .extern_
      · cases hExtern
        rw [item_declaration] at h
        obtain ⟨head, left, hHead, hResult⟩ := andThen_eq_ok h
        cases hResult
        exact .skip _ (prototype_finds hHead)
      · rw [item_of_ne hDef hExtern] at h
        obtain ⟨body, left, hBody, hResult⟩ := andThen_eq_ok h
        cases hResult
        exact expression_finds hBody

theorem items_finds (tokens : List Token) {program : List Item} (h : items tokens = .ok program) :
    Finds tokens (program.map .item) [] := by
  have hProgram : Parser.program tokens = .ok (program, []) := program_eq_ok.mpr ⟨h, rfl⟩
  rw [program_eq] at hProgram
  obtain ⟨_, left, hSeparators, hProgrammed⟩ := andThen_eq_ok hProgram
  have hFinds := separators_finds hSeparators
  have hNoMore := separators_keeps _ _ _ hSeparators
  cases left with
  | nil =>
    cases hProgrammed
    exact hFinds
  | cons token after =>
    rw [programmed, itemAndMore] at hProgrammed
    obtain ⟨first, final, hFirst, hMore⟩ := andThen_eq_ok hProgrammed
    obtain ⟨others, last, hOthers, hValue⟩ := andThen_eq_ok hMore
    cases hValue
    have hShorter := length_of_run hFirst
    obtain ⟨used, hUsed, hReads⟩ := (item_reports (token :: after)).exists_used trivial hFirst
    have hItem : Finds (token :: after) [.item first] final := by
      rw [hUsed]
      exact @Finds.node used _ _ (.item first) _ hReads (.done final)
    exact hFinds.trans (hItem.trans (items_finds final (program_eq_ok.mp hOthers).1))
termination_by tokens.length

end Parser

/-! ## All nodes of a program -/

/-- The step: among the tokens of a node, those of its children are found. -/
theorem Node.Reads.children {tokens : List Token} {node : Node} (h : node.Reads tokens) :
    Finds tokens node.children [] := by
  cases node with
  | item it => exact Parser.children_of_item h
  | prototype head => exact Parser.children_of_head h
  | identifier name => exact .none tokens
  | expression e => exact Parser.children_of_expression tokens h

/-- The items of a program, and whatever is below them. -/
inductive Occurs (program : List Item) : Node → Prop
  | item {it : Item} : it ∈ program → Occurs program (.item it)
  | child {node child : Node} : Occurs program node → child ∈ node.children → Occurs program child

/-- The run: all nodes have tokens of their own. -/
theorem Occurs.exists_reads {program : List Item} {node : Node} (h : Occurs program node) {tokens : List Token}
    (hItems : Parser.items tokens = .ok program) :
    ∃ front used back, tokens = front ++ (used ++ back) ∧ node.Reads used := by
  induction h with
  | item hMem => exact (Parser.items_finds tokens hItems).exists_reads (List.mem_map_of_mem hMem)
  | child _ hMem ih =>
    obtain ⟨front, used, back, rfl, hReads⟩ := ih
    obtain ⟨before, inner, behind, rfl, hInner⟩ := hReads.children.exists_reads hMem
    exact ⟨front ++ before, inner, behind ++ back, by simp, hInner⟩

end Slate
