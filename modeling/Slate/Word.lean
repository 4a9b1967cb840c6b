/-! # 32-bit words

Program integers are two's complement words of 32 bits, and arithmetic on them wraps around.
-/

namespace Slate
set_option autoImplicit false

abbrev Word := Int32

def Word.text (word : Word) : String := toString word.toInt

def Word.ofInt? (value : Int) : Option Word :=
  if -2147483648 ≤ value ∧ value < 2147483648 then some (Int32.ofInt value) else none

inductive Arith where
  | add | subtract | multiply
  deriving DecidableEq

namespace Arith

def apply : Arith → Word → Word → Word
  | .add, lhs, rhs => lhs + rhs
  | .subtract, lhs, rhs => lhs - rhs
  | .multiply, lhs, rhs => lhs * rhs

def symbol : Arith → String
  | .add => "+"
  | .subtract => "-"
  | .multiply => "*"

/-- Spelling in the intermediate form. -/
def mnemonic : Arith → String
  | .add => "add"
  | .subtract => "sub"
  | .multiply => "mul"

end Arith

/-- Signed comparisons of words. -/
inductive Predicate where
  | eq | ne | sgt | slt | sge | sle
  deriving DecidableEq

namespace Predicate

def apply : Predicate → Word → Word → Bool
  | .eq, lhs, rhs => decide (lhs = rhs)
  | .ne, lhs, rhs => decide (lhs ≠ rhs)
  | .sgt, lhs, rhs => decide (rhs < lhs)
  | .slt, lhs, rhs => decide (lhs < rhs)
  | .sge, lhs, rhs => decide (rhs ≤ lhs)
  | .sle, lhs, rhs => decide (lhs ≤ rhs)

def mnemonic : Predicate → String
  | .eq => "eq"
  | .ne => "ne"
  | .sgt => "sgt"
  | .slt => "slt"
  | .sge => "sge"
  | .sle => "sle"

end Predicate

inductive Comparison where
  | greater | less | equal | greaterOrEqual | lessOrEqual
  deriving DecidableEq

namespace Comparison

def predicate : Comparison → Predicate
  | .greater => .sgt
  | .less => .slt
  | .equal => .eq
  | .greaterOrEqual => .sge
  | .lessOrEqual => .sle

def symbol : Comparison → String
  | .greater => ">"
  | .less => "<"
  | .equal => "=="
  | .greaterOrEqual => ">="
  | .lessOrEqual => "<="

end Comparison
end Slate
