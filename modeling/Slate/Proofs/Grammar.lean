import Mathlib
import Slate.Tree.Parser

/-! # The grammar of programs

Each relation holds of a list of tokens, all of them used and in order, and the tree they are read as.

    program    := ;* (item ;*)*
    item       := def prototype expression ;* end | extern prototype | expression
    prototype  := NAME ( (NAME (, NAME)*)? )
    expression := target = expression | comparison
    target     := NAME | ( target )
    comparison := sum ((> | < | == | >= | <=) sum)?
    sum        := product ((+ | -) product)*
    product    := atom (* atom)*
    atom       := INT | - INT | NAME | NAME ( (expression (, expression)*)? ) | ( expression )
                | if expression then? sequence (else sequence)? end
                | for expression ; expression ; expression do? sequence end
    sequence   := (;* expression)* ;*

Chains of `+`, `-` and `*` lean to the left, and an integer is the word with its decimal value.
-/

namespace Slate
set_option autoImplicit false

def Arith.lexeme : Arith → Lexeme
  | .add => .plus
  | .subtract => .minus
  | .multiply => .asterisk

def Comparison.lexeme : Comparison → Lexeme
  | .greater => .greaterThan
  | .less => .lessThan
  | .equal => .doubleEquals
  | .greaterOrEqual => .greaterOrEqual
  | .lessOrEqual => .lessOrEqual

namespace Grammar

/-- The value of decimal digits, the last of which counts ones. -/
def value (digits : String) : Nat :=
  Nat.ofDigits 10 (digits.toList.reverse.map fun c => c.toNat - '0'.toNat)

inductive Separators : List Token → Prop
  | none : Separators []
  | more {ts : List Token} (span : Span) : Separators ts → Separators (⟨.semicolon, span⟩ :: ts)

/-- A lexeme that may be left out. -/
inductive Optional (lexeme : Lexeme) : List Token → Prop
  | absent : Optional lexeme []
  | present (span : Span) : Optional lexeme [⟨lexeme, span⟩]

/-- A name in any number of brackets, and the span of all of it. -/
inductive Target : List Token → Name → Span → Prop
  | name (text : String) (span : Span) : Target [⟨.identifier text, span⟩] ⟨text, span⟩ span
  | bracketed {ts : List Token} {name : Name} {span : Span} (first last : Span) :
    Target ts name span →
      Target (⟨.openParen, first⟩ :: (ts ++ [⟨.closeParen, last⟩])) name (first.through last)

mutual

inductive Expression : List Token → Expr → Prop
  | comparison {ts : List Token} {e : Expr} : Comparison ts e → Expression ts e
  | assign {ts us : List Token} {name : Name} {span : Span} {value : Expr} (at_ : Span) :
    Target ts name span → Expression us value →
      Expression (ts ++ ⟨.equals, at_⟩ :: us) (.assign (span.through value.span) name value)

inductive Comparison : List Token → Expr → Prop
  | sum {ts : List Token} {e : Expr} : Sum ts e → Comparison ts e
  | compare {ts us : List Token} {lhs rhs : Expr} (op : Slate.Comparison) (at_ : Span) :
    Sum ts lhs → Sum us rhs →
      Comparison (ts ++ ⟨op.lexeme, at_⟩ :: us) (.compare (lhs.span.through rhs.span) op lhs rhs)

inductive Sum : List Token → Expr → Prop
  | product {ts : List Token} {e : Expr} : Product ts e → Sum ts e
  | more {ts us : List Token} {lhs rhs : Expr} (op : Arith) (at_ : Span) : op ≠ .multiply →
    Sum ts lhs → Product us rhs →
      Sum (ts ++ ⟨op.lexeme, at_⟩ :: us) (.binary (lhs.span.through rhs.span) op lhs rhs)

inductive Product : List Token → Expr → Prop
  | atom {ts : List Token} {e : Expr} : Atom ts e → Product ts e
  | more {ts us : List Token} {lhs rhs : Expr} (at_ : Span) : Product ts lhs → Atom us rhs →
      Product (ts ++ ⟨.asterisk, at_⟩ :: us) (.binary (lhs.span.through rhs.span) .multiply lhs rhs)

inductive Atom : List Token → Expr → Prop
  | int {word : Word} (digits : String) (span : Span) : word.toInt = value digits →
      Atom [⟨.integer digits, span⟩] (.int span word)
  | negative {word : Word} (digits : String) (sign span : Span) : word.toInt = -value digits →
      Atom [⟨.minus, sign⟩, ⟨.integer digits, span⟩] (.int (sign.through span) word)
  | variable (name : String) (span : Span) :
      Atom [⟨.identifier name, span⟩] (.variable span ⟨name, span⟩)
  | call {ts : List Token} {arguments : List Expr} (name : String) (span first last : Span) :
    Arguments ts arguments →
      Atom (⟨.identifier name, span⟩ :: ⟨.openParen, first⟩ :: (ts ++ [⟨.closeParen, last⟩]))
        (.call (span.through last) ⟨name, span⟩ arguments)
  | bracketed {ts : List Token} {e : Expr} (first last : Span) : Expression ts e →
      Atom (⟨.openParen, first⟩ :: (ts ++ [⟨.closeParen, last⟩])) (e.withSpan (first.through last))
  | branch {cs ks ps ns : List Token} {condition : Expr} {positive negative : List Expr}
    (first last : Span) :
    Expression cs condition → Optional (.keyword .then_) ks → Sequence ps positive →
    OtherArm ns negative →
      Atom (⟨.keyword .if_, first⟩ :: (cs ++ ks ++ ps ++ ns ++ [⟨.keyword .end_, last⟩]))
        (.branch (first.through last) condition positive negative)
  | loop {is cs ss ks bs : List Token} {initializer condition step : Expr} {body : List Expr}
    (first after₁ after₂ last : Span) :
    Expression is initializer → Expression cs condition → Expression ss step →
    Optional (.keyword .do_) ks → Sequence bs body →
      Atom (⟨.keyword .for_, first⟩ :: (is ++ ⟨.semicolon, after₁⟩ :: (cs ++ ⟨.semicolon, after₂⟩ ::
          (ss ++ ks ++ bs ++ [⟨.keyword .end_, last⟩]))))
        (.loop (first.through last) initializer condition step body)

/-- The arguments of a call. -/
inductive Arguments : List Token → List Expr → Prop
  | none : Arguments [] []
  | some {ts : List Token} {es : List Expr} : ArgumentList ts es → Arguments ts es

inductive ArgumentList : List Token → List Expr → Prop
  | one {ts : List Token} {e : Expr} : Expression ts e → ArgumentList ts [e]
  | more {ts us : List Token} {e : Expr} {es : List Expr} (at_ : Span) :
    Expression ts e → ArgumentList us es → ArgumentList (ts ++ ⟨.comma, at_⟩ :: us) (e :: es)

/-- The arm behind `else`, or none. -/
inductive OtherArm : List Token → List Expr → Prop
  | absent : OtherArm [] []
  | present {ts : List Token} {es : List Expr} (at_ : Span) :
    Sequence ts es → OtherArm (⟨.keyword .else_, at_⟩ :: ts) es

inductive Sequence : List Token → List Expr → Prop
  | done {ss : List Token} : Separators ss → Sequence ss []
  | more {ss ts us : List Token} {e : Expr} {es : List Expr} :
    Separators ss → Expression ts e → Sequence us es → Sequence (ss ++ ts ++ us) (e :: es)

end

inductive ParameterList : List Token → List Name → Prop
  | one (name : String) (span : Span) : ParameterList [⟨.identifier name, span⟩] [⟨name, span⟩]
  | more {ts : List Token} {names : List Name} (name : String) (span at_ : Span) :
    ParameterList ts names →
      ParameterList (⟨.identifier name, span⟩ :: ⟨.comma, at_⟩ :: ts) (⟨name, span⟩ :: names)

inductive Parameters : List Token → List Name → Prop
  | none : Parameters [] []
  | some {ts : List Token} {names : List Name} : ParameterList ts names → Parameters ts names

inductive Head : List Token → Prototype → Prop
  | mk {ts : List Token} {names : List Name} (name : String) (span first last : Span) :
    Parameters ts names →
      Head (⟨.identifier name, span⟩ :: ⟨.openParen, first⟩ :: (ts ++ [⟨.closeParen, last⟩]))
        ⟨span.through last, ⟨name, span⟩, names⟩

inductive Item : List Token → Slate.Item → Prop
  | definition {hs es ss : List Token} {head : Prototype} {body : Expr} (first last : Span) :
    Head hs head → Expression es body → Separators ss →
      Item (⟨.keyword .def_, first⟩ :: (hs ++ es ++ ss ++ [⟨.keyword .end_, last⟩]))
        (.definition (first.through last) head body)
  | declaration {hs : List Token} {head : Prototype} (first : Span) : Head hs head →
      Item (⟨.keyword .extern_, first⟩ :: hs) (.declaration (first.through head.span) head)
  | expression {ts : List Token} {body : Expr} : Expression ts body → Item ts (.expression body)

inductive Items : List Token → List Slate.Item → Prop
  | none : Items [] []
  | more {ts ss us : List Token} {item : Slate.Item} {items : List Slate.Item} :
    Item ts item → Separators ss → Items us items → Items (ts ++ ss ++ us) (item :: items)

inductive Program : List Token → List Slate.Item → Prop
  | mk {ss ts : List Token} {items : List Slate.Item} :
    Separators ss → Items ts items → Program (ss ++ ts) items

end Grammar
end Slate
