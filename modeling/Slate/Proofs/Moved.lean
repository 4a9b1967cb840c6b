import Slate.Proofs.Parser.Printed

/-! # Trees at other places

The spans of a tree can be changed all at once, and nothing else of it. Leaving out the places is one such
change, and moving a tree along the text is another.
-/

namespace Slate
set_option autoImplicit false

/-- A change of spans that keeps what reaches from one to another. -/
structure Move where
  place : Span → Span
  through : ∀ first last, place (first.through last) = (place first).through (place last)

/-- Towards the end of the text, by the given number of bytes. -/
def Move.shift (offset : Nat) : Move where
  place span := ⟨span.start + offset, span.stop + offset⟩
  through _ _ := rfl

/-- All spans are the same. -/
def Move.together : Move where
  place _ := default
  through _ _ := rfl

variable (move : Move)

def Name.moved (name : Name) : Name := ⟨name.text, move.place name.span⟩

theorem Name.text_moved (name : Name) : (name.moved move).text = name.text := rfl

def Token.moved (token : Token) : Token := ⟨token.lexeme, move.place token.span⟩

mutual

def Expr.moved : Expr → Expr
  | .int span value => .int (move.place span) value
  | .binary span op lhs rhs => .binary (move.place span) op lhs.moved rhs.moved
  | .compare span op lhs rhs => .compare (move.place span) op lhs.moved rhs.moved
  | .variable span name => .variable (move.place span) (name.moved move)
  | .assign span target value => .assign (move.place span) (target.moved move) value.moved
  | .branch span condition positive negative =>
    .branch (move.place span) condition.moved (movedAll positive) (movedAll negative)
  | .loop span initializer condition step body =>
    .loop (move.place span) initializer.moved condition.moved step.moved (movedAll body)
  | .call span callee arguments => .call (move.place span) (callee.moved move) (movedAll arguments)

def movedAll : List Expr → List Expr
  | [] => []
  | first :: rest => first.moved :: movedAll rest

end

def Prototype.moved (head : Prototype) : Prototype :=
  ⟨move.place head.span, head.name.moved move, head.parameters.map (Name.moved move)⟩

def Item.moved : Item → Item
  | .declaration span head => .declaration (move.place span) (head.moved move)
  | .definition span head body => .definition (move.place span) (head.moved move) (body.moved move)
  | .expression body => .expression (body.moved move)

theorem movedAll_eq_map (es : List Expr) : movedAll move es = es.map (Expr.moved move) := by
  induction es with
  | nil => rfl
  | cons e rest ih => rw [movedAll, ih, List.map_cons]

theorem Expr.span_moved (e : Expr) : (e.moved move).span = move.place e.span := by
  cases e <;> rfl

theorem Expr.moved_withSpan (span : Span) (e : Expr) :
    (e.withSpan span).moved move = (e.moved move).withSpan (move.place span) := by
  cases e <;> rfl

/-! ## Leaving out the places -/

mutual

theorem Expr.moved_together : ∀ e : Expr, e.moved .together = e.unplaced
  | .int _ _ => rfl
  | .binary _ _ lhs rhs | .compare _ _ lhs rhs => by
    rw [Expr.moved, Expr.unplaced, lhs.moved_together, rhs.moved_together]
    rfl
  | .variable _ _ => rfl
  | .assign _ _ value => by
    rw [Expr.moved, Expr.unplaced, value.moved_together]
    rfl
  | .branch _ condition positive negative => by
    rw [Expr.moved, Expr.unplaced, condition.moved_together, movedAll_together positive, movedAll_together negative]
    rfl
  | .loop _ initializer condition step body => by
    rw [Expr.moved, Expr.unplaced, initializer.moved_together, condition.moved_together, step.moved_together,
      movedAll_together body]
    rfl
  | .call _ _ arguments => by
    rw [Expr.moved, Expr.unplaced, movedAll_together arguments]
    rfl

theorem movedAll_together : ∀ es : List Expr, movedAll .together es = unplacedAll es
  | [] => rfl
  | first :: rest => by rw [movedAll, unplacedAll, first.moved_together, movedAll_together rest]

end

theorem Item.moved_together (it : Item) : it.moved .together = it.unplaced := by
  cases it with
  | declaration span head => rfl
  | definition span head body =>
    rw [Item.moved, Item.unplaced, body.moved_together]
    rfl
  | expression body => rw [Item.moved, Item.unplaced, body.moved_together]

end Slate
