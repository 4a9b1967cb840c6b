import Slate.Proofs.Lowering.Reports
import Slate.Proofs.Spans

/-! # Where the problems of a program lie

Every name, head and body of a parsed program is one of its nodes, and so its span is one of the text. What
lowering reports lies there too.
-/

namespace Slate
set_option autoImplicit false

section Occurring

variable {at_ : Span → Prop} {program : List Item}

mutual

theorem placed_of_occurs (h : ∀ node, Occurs program node → at_ node.span) :
    ∀ e : Expr, Occurs program (.expression e) → e.Placed at_
  | .int _ _, _ => by
    rw [Expr.Placed]
    trivial
  | .binary _ _ lhs rhs, hOccurs | .compare _ _ lhs rhs, hOccurs => by
    rw [Expr.Placed]
    exact ⟨placed_of_occurs h lhs (.child hOccurs List.mem_cons_self),
      placed_of_occurs h rhs (.child hOccurs (List.mem_cons_of_mem _ List.mem_cons_self))⟩
  | .variable _ name, hOccurs => by
    rw [Expr.Placed]
    exact h (.identifier name) (.child hOccurs List.mem_cons_self)
  | .assign _ target value, hOccurs => by
    rw [Expr.Placed]
    exact placed_of_occurs h value (.child hOccurs (List.mem_cons_of_mem _ List.mem_cons_self))
  | .branch _ condition positive negative, hOccurs => by
    have hArms : ∀ e ∈ positive ++ negative, Occurs program (.expression e) := by
      intro e hMem
      refine .child hOccurs (List.mem_cons_of_mem _ ?_)
      rw [← List.map_append]
      exact List.mem_map_of_mem hMem
    rw [List.forall_mem_append] at hArms
    rw [Expr.Placed]
    exact ⟨placed_of_occurs h condition (.child hOccurs List.mem_cons_self), allPlaced_of_occurs h positive hArms.1,
      allPlaced_of_occurs h negative hArms.2⟩
  | .loop _ initializer condition step body, hOccurs => by
    rw [Expr.Placed]
    refine ⟨placed_of_occurs h initializer (.child hOccurs ?_), placed_of_occurs h condition (.child hOccurs ?_),
      placed_of_occurs h step (.child hOccurs ?_), allPlaced_of_occurs h body fun e hMem => .child hOccurs ?_⟩
    · simp [Node.children, Expr.children]
    · simp [Node.children, Expr.children]
    · simp [Node.children, Expr.children]
    · simp [Node.children, Expr.children, hMem]
  | .call _ callee arguments, hOccurs => by
    rw [Expr.Placed]
    refine ⟨h (.identifier callee) (.child hOccurs List.mem_cons_self), allPlaced_of_occurs h arguments ?_⟩
    intro e hMem
    exact .child hOccurs (List.mem_cons_of_mem _ (List.mem_map_of_mem hMem))

theorem allPlaced_of_occurs (h : ∀ node, Occurs program node → at_ node.span) :
    ∀ es : List Expr, (∀ e ∈ es, Occurs program (.expression e)) → AllPlaced at_ es
  | [], _ => by
    rw [AllPlaced]
    trivial
  | first :: rest, hOccurs => by
    rw [List.forall_mem_cons] at hOccurs
    rw [AllPlaced]
    exact ⟨placed_of_occurs h first hOccurs.1, allPlaced_of_occurs h rest hOccurs.2⟩

end

variable (h : ∀ node, Occurs program node → at_ node.span)
include h

theorem Prototype.placed_of_occurs {head : Prototype} (hOccurs : Occurs program (.prototype head)) :
    head.Placed at_ := by
  refine ⟨h _ hOccurs, h (.identifier head.name) (.child hOccurs List.mem_cons_self), fun parameter hMem => ?_⟩
  exact h (.identifier parameter) (.child hOccurs (List.mem_cons_of_mem _ (List.mem_map_of_mem hMem)))

theorem Item.placed_of_occurs {it : Item} (hMem : it ∈ program) : it.Placed at_ := by
  have hOccurs : Occurs program (.item it) := .item hMem
  cases it with
  | declaration span head => exact Prototype.placed_of_occurs h (.child hOccurs List.mem_cons_self)
  | definition span head body =>
    have hBody : Occurs program (.expression body) := .child hOccurs (List.mem_cons_of_mem _ List.mem_cons_self)
    exact ⟨Prototype.placed_of_occurs h (.child hOccurs List.mem_cons_self), h _ hBody,
      Slate.placed_of_occurs h body hBody⟩
  | expression body => exact Slate.placed_of_occurs h body (.child hOccurs List.mem_cons_self)

end Occurring

theorem Source.placed_of_parse {source : Source} {program : List Item} (h : source.parse = .ok program) :
    ∀ it ∈ program, it.Placed source.Within := by
  intro it hMem
  refine Item.placed_of_occurs (fun node hOccurs => ?_) hMem
  obtain ⟨front, used, back, hTokens, hReads⟩ := hOccurs.exists_reads (items_of_parse h).1
  exact within_of_spanned hTokens hReads.spanned

/-- A problem that is reported between two characters can be shown to the reader. -/
theorem Diagnostic.isSome_report? {source : Source} {problem : Diagnostic}
    (h : source.Boundary problem.span.start) : (problem.report? source).isSome = true := by
  obtain ⟨front, hFront⟩ := Option.isSome_iff_exists.mp h.isSome_before?
  simp [report?, Source.location?, Source.highlight?, Source.row?, Source.column?, hFront]

end Slate
