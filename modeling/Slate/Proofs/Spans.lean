import Slate.Proofs.Parser.Moved
import Slate.Proofs.Parser.Nodes
import Slate.Proofs.Scan.Part

/-! # Spans are exact

The span of a node reaches from the first to the last of its tokens. So spans are nested as nodes are, and the text
of a span is all that is needed to read the node again.
-/

namespace Slate
set_option autoImplicit false

/-! ## From the first to the last token -/

namespace Spanned

variable {ts us : List Token} {first second : Span}

theorem enclosed (open_ close : Token) (ts : List Token) :
    Spanned (open_ :: (ts ++ [close])) (open_.span.through close.span) :=
  ⟨open_, close, rfl, by rw [← List.cons_append, List.getLast?_concat], rfl⟩

theorem single (token : Token) : Spanned [token] token.span := ⟨token, token, rfl, rfl, rfl⟩

theorem append (h : Spanned ts first) (middle : List Token) (hOther : Spanned us second) :
    Spanned (ts ++ (middle ++ us)) (first.through second) := by
  obtain ⟨a, b, hHead, _, rfl⟩ := h
  obtain ⟨c, d, _, hLast, rfl⟩ := hOther
  refine ⟨a, d, ?_, ?_, rfl⟩
  · rw [List.head?_append, hHead]
    rfl
  · rw [List.getLast?_append, List.getLast?_append, hLast]
    rfl

end Spanned

namespace Grammar

theorem target_spanned {ts : List Token} {name : Name} {span : Span} (h : Target ts name span) :
    Spanned ts span := by
  cases h with
  | name text span => exact .single _
  | bracketed first last _ => exact .enclosed ⟨.openParen, first⟩ ⟨.closeParen, last⟩ _

mutual

theorem expression_spanned {ts : List Token} {e : Expr} : Expression ts e → Spanned ts e.span
  | .comparison h => comparison_spanned h
  | .assign at_ hTarget hValue => (target_spanned hTarget).append [⟨.equals, at_⟩] (expression_spanned hValue)

theorem comparison_spanned {ts : List Token} {e : Expr} : Comparison ts e → Spanned ts e.span
  | .sum h => sum_spanned h
  | .compare op at_ hLeft hRight => (sum_spanned hLeft).append [⟨op.lexeme, at_⟩] (sum_spanned hRight)

theorem sum_spanned {ts : List Token} {e : Expr} : Sum ts e → Spanned ts e.span
  | .product h => product_spanned h
  | .more op at_ _ hLeft hRight => (sum_spanned hLeft).append [⟨op.lexeme, at_⟩] (product_spanned hRight)

theorem product_spanned {ts : List Token} {e : Expr} : Product ts e → Spanned ts e.span
  | .atom h => atom_spanned h
  | .more at_ hLeft hRight => (product_spanned hLeft).append [⟨.asterisk, at_⟩] (atom_spanned hRight)

theorem atom_spanned {ts : List Token} {e : Expr} : Atom ts e → Spanned ts e.span
  | .int digits span _ => .single ⟨.integer digits, span⟩
  | .negative digits sign span _ => .enclosed ⟨.minus, sign⟩ ⟨.integer digits, span⟩ []
  | .variable name span => .single ⟨.identifier name, span⟩
  | .call name span first last _ =>
    .enclosed ⟨.identifier name, span⟩ ⟨.closeParen, last⟩ (⟨.openParen, first⟩ :: _)
  | .bracketed first last _ => by
    rw [Parser.span_withSpan]
    exact .enclosed ⟨.openParen, first⟩ ⟨.closeParen, last⟩ _
  | .branch first last _ _ _ _ => .enclosed ⟨.keyword .if_, first⟩ ⟨.keyword .end_, last⟩ _
  | .loop first after₁ after₂ last _ _ _ _ _ =>
    ⟨⟨.keyword .for_, first⟩, ⟨.keyword .end_, last⟩, rfl, by simp [List.getLast?_cons, List.getLast?_append], rfl⟩

end

theorem head_spanned {ts : List Token} {head : Prototype} (h : Head ts head) : Spanned ts head.span := by
  cases h with
  | mk name span first last _ =>
    exact .enclosed ⟨.identifier name, span⟩ ⟨.closeParen, last⟩ (⟨.openParen, first⟩ :: _)

theorem item_spanned {ts : List Token} {it : Slate.Item} (h : Item ts it) : Spanned ts it.span := by
  cases h with
  | definition first last _ _ _ => exact .enclosed ⟨.keyword .def_, first⟩ ⟨.keyword .end_, last⟩ _
  | declaration first hHead => exact (Spanned.single ⟨.keyword .extern_, first⟩).append [] (head_spanned hHead)
  | expression hBody => exact expression_spanned hBody

end Grammar

theorem Node.Reads.spanned {tokens : List Token} {node : Node} (h : node.Reads tokens) :
    Spanned tokens node.span := by
  cases node with
  | item it =>
    obtain ⟨ts, rfl, hItem⟩ := Parser.item_sound h
    rw [List.append_nil]
    exact Grammar.item_spanned hItem
  | prototype head => exact Grammar.head_spanned h
  | identifier name =>
    obtain rfl : tokens = _ := h
    exact .single _
  | expression e =>
    obtain ⟨ts, rfl, hExpression⟩ := Parser.expression_sound tokens h
    rw [List.append_nil]
    exact Grammar.expression_spanned hExpression

/-! ## Tokens in the order of the text -/

/-- Tokens that are not empty and follow each other in the text. -/
structure InOrder (tokens : List Token) : Prop where
  nonempty : ∀ token ∈ tokens, token.span.start < token.span.stop
  pairwise : tokens.Pairwise fun first second => first.span.stop ≤ second.span.start

namespace InOrder

variable {tokens : List Token} {span : Span}

theorem sublist {inner : List Token} (h : InOrder tokens) (hInner : inner.Sublist tokens) : InOrder inner :=
  ⟨fun token hMem => h.nonempty token (hInner.subset hMem), h.pairwise.sublist hInner⟩

theorem part {front inner back : List Token} (h : InOrder (front ++ (inner ++ back))) : InOrder inner :=
  h.sublist ((List.sublist_append_left inner back).trans (List.sublist_append_right front _))

/-- The span of all tokens is around that of each. -/
theorem around (h : InOrder tokens) (hSpan : Spanned tokens span) {token : Token} (hMem : token ∈ tokens) :
    span.start ≤ token.span.start ∧ token.span.stop ≤ span.stop := by
  obtain ⟨first, last, hFirst, hLast, rfl⟩ := hSpan
  constructor
  · obtain ⟨more, rfl⟩ := List.head?_eq_some_iff.mp hFirst
    change first.span.start ≤ token.span.start
    rcases List.mem_cons.mp hMem with rfl | hMore
    · exact Nat.le_refl _
    · have hFollows := List.rel_of_pairwise_cons h.pairwise hMore
      have hNonempty := h.nonempty first List.mem_cons_self
      omega
  · obtain ⟨before, rfl⟩ := List.getLast?_eq_some_iff.mp hLast
    change token.span.stop ≤ last.span.stop
    rcases List.mem_append.mp hMem with hBefore | hEnd
    · have hFollows := (List.pairwise_append.mp h.pairwise).2.2 token hBefore last List.mem_cons_self
      have hNonempty := h.nonempty last (List.mem_append_right _ List.mem_cons_self)
      omega
    · rw [List.mem_singleton.mp hEnd]

theorem start_lt_stop (h : InOrder tokens) (hSpan : Spanned tokens span) : span.start < span.stop := by
  obtain ⟨first, _, hFirst, _⟩ := id hSpan
  have hMem := List.mem_of_head? hFirst
  have hAround := h.around hSpan hMem
  have hNonempty := h.nonempty first hMem
  omega

end InOrder

theorem Spanned.exists_start {tokens : List Token} {span : Span} (h : Spanned tokens span) :
    ∃ first ∈ tokens, span.start = first.span.start := by
  obtain ⟨first, _, hFirst, _, rfl⟩ := h
  exact ⟨first, List.mem_of_head? hFirst, rfl⟩

theorem Spanned.exists_stop {tokens : List Token} {span : Span} (h : Spanned tokens span) :
    ∃ last ∈ tokens, span.stop = last.span.stop := by
  obtain ⟨_, last, _, hLast, rfl⟩ := h
  exact ⟨last, List.mem_of_getLast? hLast, rfl⟩

/-- Nodes that are found one after the other do not overlap. -/
theorem Finds.pairwise {tokens rest : List Token} {nodes : List Node} (h : Finds tokens nodes rest)
    (hOrder : InOrder tokens) : nodes.Pairwise fun first second => first.span.stop ≤ second.span.start := by
  induction h with
  | done => exact .nil
  | skip token _ ih => exact ih (hOrder.sublist (List.sublist_cons_self token _))
  | @node used tokens _ node nodes hReads hRest ih =>
    refine List.pairwise_cons.mpr ⟨fun other hMem => ?_, ih (hOrder.sublist (List.sublist_append_right used _))⟩
    obtain ⟨front, inner, back, rfl, hOther⟩ := hRest.exists_reads hMem
    obtain ⟨last, hLast, hStop⟩ := hReads.spanned.exists_stop
    obtain ⟨first, hFirst, hStart⟩ := hOther.spanned.exists_start
    have hBehind : first ∈ front ++ (inner ++ back) := by simp [hFirst]
    rw [hStop, hStart]
    exact (List.pairwise_append.mp hOrder.pairwise).2.2 last hLast first hBehind

theorem Node.Reads.nested {tokens : List Token} {node child : Node} (h : node.Reads tokens)
    (hOrder : InOrder tokens) (hChild : child ∈ node.children) :
    node.span.start ≤ child.span.start ∧ child.span.stop ≤ node.span.stop := by
  obtain ⟨front, inner, back, rfl, hInner⟩ := h.children.exists_reads hChild
  obtain ⟨first, hFirst, hStart⟩ := hInner.spanned.exists_start
  obtain ⟨last, hLast, hStop⟩ := hInner.spanned.exists_stop
  rw [hStart, hStop]
  exact ⟨(hOrder.around h.spanned (by simp [hFirst])).1, (hOrder.around h.spanned (by simp [hLast])).2⟩

/-! ## Expressions read again -/

namespace Parser

variable {tokens rest : List Token} {e : Expr}

/-- An expression starts with an atom. -/
theorem exists_atom (h : run (expression tokens) = .ok (e, rest)) :
    ∃ first left, run (atom tokens) = .ok (first, left) := by
  obtain ⟨_, _, hComparison, _⟩ := andThen_eq_ok ((congrFun expression_eq tokens).symm.trans h)
  obtain ⟨_, _, hSum, _⟩ := andThen_eq_ok ((congrFun comparison_eq tokens).symm.trans hComparison)
  obtain ⟨_, _, hOperand, _⟩ := andThen_eq_ok ((congrFun (chain_eq .sum) tokens).symm.trans hSum)
  have hProduct := (congrFun operand_sum tokens).symm.trans hOperand
  obtain ⟨first, left, hAtom, _⟩ := andThen_eq_ok ((congrFun (chain_eq .product) tokens).symm.trans hProduct)
  exact ⟨first, left, (congrFun operand_product tokens).symm.trans hAtom⟩

/-- The tokens of an expression are a program by themselves. -/
theorem items_of_expression (h : run (expression tokens) = .ok (e, [])) : items tokens = .ok [.expression e] := by
  obtain ⟨first, left, hAtom⟩ := exists_atom h
  rw [run_atom] at hAtom
  cases tokens with
  | nil => cases hAtom
  | cons token after =>
    -- what starts an atom is no separator and starts no other item
    have hStarts : token.lexeme ≠ .semicolon ∧ token.lexeme ≠ .keyword .def_ ∧
        token.lexeme ≠ .keyword .extern_ := by
      refine ⟨?_, ?_, ?_⟩ <;>
      · intro hLexeme
        simp only [hLexeme] at hAtom
        cases hAtom
    have hSeparators : separators (token :: after) = .ok ((), token :: after) := by
      rw [separators, rest_skipSeparators_of_ne _ hStarts.1]
    have hItem : run (item (token :: after)) = .ok (.expression e, []) := by
      rw [item_of_ne hStarts.2.1 hStarts.2.2, evaluated, andThen_of_ok h]
    have hProgram : program (token :: after) = .ok ([.expression e], []) := by
      rw [program_eq, andThen_of_ok hSeparators, programmed, itemAndMore, andThen_of_ok hItem,
        andThen_of_ok program_nil]
    exact (program_eq_ok.mp hProgram).1

/-- What is an expression at other places is one here. -/
theorem items_of_moved {move : Move} (h : items (tokens.map (Token.moved move)) = .ok [.expression e]) :
    ∃ e' : Expr, items tokens = .ok [.expression e'] ∧ e'.moved move = e := by
  have hMoves : Moves move (List.map (Item.moved move)) program program tokens := program_moves tokens
  rw [Moves, program_eq_ok.mpr ⟨h, rfl⟩] at hMoves
  obtain ⟨found, rest, hRead, hFound⟩ := movedResult_eq_ok hMoves.symm
  have hItems := (program_eq_ok.mp hRead).1
  obtain ⟨it, rfl, hIt⟩ := List.map_eq_singleton_iff.mp hFound
  cases it with
  | declaration | definition => cases hIt
  | expression body =>
    cases hIt
    exact ⟨body, hItems, rfl⟩

end Parser

/-! ## Nodes of a source -/

/-- A node that stands in a source where its span says. -/
structure Node.Exact (source : Source) (node : Node) : Prop where
  nonempty : node.span.start < node.span.stop
  inside : node.span.stop ≤ source.size
  boundaries : source.Boundary node.span.start ∧ source.Boundary node.span.stop
  nested : ∀ child ∈ node.children, node.span.start ≤ child.span.start ∧ child.span.stop ≤ node.span.stop
  ordered : node.children.Pairwise fun first second => first.span.stop ≤ second.span.start
  named : ∀ name, node = .identifier name → source.slice? name.span = some name.text.toList
  alone : ∀ e, node = .expression e → ∃ text, source.slice? e.span = some text ∧
    ∀ origin, ∃ e', (Source.mk (String.ofList text) origin).parse = .ok [.expression e'] ∧
      e'.moved (.shift e.span.start) = e

namespace Source

variable {source : Source}

theorem inOrder_scan (source : Source) : InOrder source.scan.tokens := by
  refine ⟨fun token hMem => ?_, source.pairwise_scan⟩
  obtain ⟨front, back, hTokens⟩ := List.append_of_mem hMem
  exact (tokenAt_of_mem hTokens).nonempty

theorem exact_of_reads {node : Node} {front used back : List Token}
    (hTokens : source.scan.tokens = front ++ (used ++ back)) (h : node.Reads used) : node.Exact source := by
  have hOrder : InOrder used := by
    have hScan := source.inOrder_scan
    rw [hTokens] at hScan
    exact hScan.part
  have hWithin := within_of_spanned hTokens h.spanned
  refine ⟨hOrder.start_lt_stop h.spanned, hWithin.inside, hWithin.boundaries, fun _ => h.nested hOrder,
    h.children.pairwise hOrder, ?_, ?_⟩
  · rintro name rfl
    obtain rfl : used = _ := h
    exact (tokenAt_of_mem (by simpa using hTokens)).text
  · rintro e rfl
    obtain ⟨part, hPart, hScan⟩ := scan_part hTokens h.spanned
    refine ⟨part, hPart, fun origin => ?_⟩
    obtain ⟨tokens, hAlone, hMoved⟩ := hScan origin
    have hItems := Parser.items_of_expression h
    rw [← hMoved] at hItems
    obtain ⟨e', hRead, hSame⟩ := Parser.items_of_moved hItems
    refine ⟨e', ?_, hSame⟩
    rw [parse, hAlone]
    simp only [hRead]

/-- The spans of a program are exact, and items follow each other. -/
theorem spans_exact {program : List Item} (h : source.parse = .ok program) :
    (program.Pairwise fun first second => first.span.stop ≤ second.span.start) ∧
      ∀ node, Occurs program node → node.Exact source := by
  have hItems := (items_of_parse h).1
  constructor
  · exact List.pairwise_map.mp ((Parser.items_finds _ hItems).pairwise source.inOrder_scan)
  · intro node hOccurs
    obtain ⟨front, used, back, hTokens, hReads⟩ := hOccurs.exists_reads hItems
    exact exact_of_reads hTokens hReads

/-- Brackets belong to the span of the variable in them, and not to that of its name. -/
def layered : Source := { text := "# é\ndef g(a) if (a) < 2 x = a; x - -1 end end\n(g(3))" }

def layeredCondition : Expr :=
  .compare ⟨17, 24⟩ .less (.variable ⟨17, 20⟩ ⟨"a", 18, 19⟩) (.int ⟨23, 24⟩ 2)

def layeredBody : Expr :=
  .branch ⟨14, 42⟩ layeredCondition
    [.assign ⟨25, 30⟩ ⟨"x", 25, 26⟩ (.variable ⟨29, 30⟩ ⟨"a", 29, 30⟩),
      .binary ⟨32, 38⟩ .subtract (.variable ⟨32, 33⟩ ⟨"x", 32, 33⟩) (.int ⟨36, 38⟩ (-1))] []

def layeredItems : List Item :=
  [.definition ⟨5, 46⟩ ⟨⟨9, 13⟩, ⟨"g", 9, 10⟩, [⟨"a", 11, 12⟩]⟩ layeredBody,
    .expression (.call ⟨47, 53⟩ ⟨"g", 48, 49⟩ [.int ⟨50, 51⟩ 3])]

theorem spans_exact_layered :
    layered.parse = .ok layeredItems ∧
    (layeredItems.Pairwise fun first second => first.span.stop ≤ second.span.start) ∧
    Occurs layeredItems (.expression layeredCondition) ∧ (Node.expression layeredCondition).Exact layered := by
  have hParse : layered.parse = .ok layeredItems := by cbv
  have hBody : Occurs layeredItems (.expression layeredBody) :=
    .child (.item List.mem_cons_self) (List.mem_cons_of_mem _ List.mem_cons_self)
  have hCondition : Occurs layeredItems (.expression layeredCondition) := .child hBody List.mem_cons_self
  obtain ⟨hItems, hNodes⟩ := spans_exact hParse
  exact ⟨hParse, hItems, hCondition, hNodes _ hCondition⟩

end Source

end Slate
