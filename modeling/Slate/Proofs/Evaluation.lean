import Mathlib
import Slate.Host
import Slate.Tree

/-! # Direct evaluation

Expressions evaluated on the tree, without blocks, registers or slots. Loops and calls use up fuel, so
evaluation may end without an answer; with enough fuel it gives one, unless the program runs forever.

A loop has no value, nor has a call of `puts`, nor an expression that needs the value of one. Such an
expression still evaluates its parts up to the point where the value is missing.

Words are taken as the whole numbers they stand for: operators compute and compare these, and `puts` writes them.
-/

namespace Slate
set_option autoImplicit false

mutual

/-- Whether an expression has a value, which can be seen from its form. -/
def Expr.valued : Expr → Bool
  | .int .. | .variable .. => true
  | .binary _ _ lhs rhs | .compare _ _ lhs rhs => lhs.valued && rhs.valued
  | .assign _ _ value => value.valued
  | .branch _ condition positive negative =>
    condition.valued && (lastValued true positive && lastValued true negative)
  | .loop .. => false
  | .call _ callee arguments => decide (callee.text ≠ "puts") && allValued arguments

/-- Whether the last expression of a sequence has a value; an empty sequence is as given. -/
def lastValued (otherwise : Bool) : List Expr → Bool
  | [] => otherwise
  | first :: rest => lastValued first.valued rest

def allValued : List Expr → Bool
  | [] => true
  | first :: rest => first.valued && allValued rest

end

namespace Evaluation

/-- The result as a whole number, brought back into the range of words by going round. -/
def compute : Arith → Word → Word → Word
  | .add, a, b => Int32.ofInt (a.toInt + b.toInt)
  | .subtract, a, b => Int32.ofInt (a.toInt - b.toInt)
  | .multiply, a, b => Int32.ofInt (a.toInt * b.toInt)

def holds : Comparison → Int → Int → Bool
  | .greater, a, b => decide (b < a)
  | .less, a, b => decide (a < b)
  | .equal, a, b => decide (a = b)
  | .greaterOrEqual, a, b => decide (b ≤ a)
  | .lessOrEqual, a, b => decide (a ≤ b)

/-- Numbers in decimal with blanks between them, and a newline. -/
def line : List Word → String
  | [] => "\n"
  | [word] => toString word.toInt ++ "\n"
  | word :: next :: rest => toString word.toInt ++ (" " ++ line (next :: rest))

/-- The variables of the current call, and all that was written. -/
structure Store where
  env : String → Word := fun _ => 0
  written : String := ""

/-- Why evaluation stops early. -/
inductive Halt where
  | error (error : ExecutionError)
  /-- There was too little fuel. -/
  | exhausted

abbrev Eval := ExceptT Halt (StateM Store)

def assign (name : String) (word : Word) : Eval Unit := modify fun store =>
  { store with env := fun other => if other = name then word else store.env other }

/-- Writes a line of words. Their number has to fit into a word. -/
def print (values : List Word) : Eval (Option Word) := do
  if values.length < 2 ^ 31 then
    modify fun store => { store with written := store.written ++ line values }
    return none
  else
    let count : Word := Int32.ofInt values.length
    throw (.error (.argumentCountMismatch "_puts" (count.toInt.toNat + 1) (values.length + 1)))

/-- Repeats while a test succeeds, for a limited number of rounds. -/
def iterate (test : Eval Bool) (body : Eval Unit) : Nat → Eval Unit
  | 0 => throw .exhausted
  | rounds + 1 => do
    if ← test then
      body
      iterate test body rounds

section Expressions

variable (invoke : String → List Word → Eval (Option Word)) (rounds : Nat)

mutual

def eval : Expr → Eval (Option Word)
  | .int _ value => return some value
  | .binary _ op lhs rhs => do
    let left ← eval lhs
    let right ← eval rhs
    return left.bind fun a => right.map fun b => compute op a b
  | .compare _ op lhs rhs => do
    let left ← eval lhs
    let right ← eval rhs
    return left.bind fun a => right.map fun b => if holds op a.toInt b.toInt then 1 else 0
  | .variable _ name => return some ((← get).env name.text)
  | .assign _ target value => do
    match ← eval value with
    | none => return none
    | some word =>
      assign target.text word
      return some word
  | .branch _ condition positive negative => do
    match ← eval condition with
    | none => return none
    | some word =>
      let result ← if word ≠ 0 then sequence (some 0) positive else sequence (some 0) negative
      return if lastValued true positive && lastValued true negative then result else none
  | .loop _ initializer condition step body => do
    let _ ← eval initializer
    let test : Eval Bool := do
      match ← eval condition with
      | none => return false
      | some word => return decide (word ≠ 0)
    let round : Eval Unit := do
      let _ ← sequence none body
      let _ ← eval step
    iterate test round rounds
    return none
  | .call _ callee arguments => do
    match ← values arguments with
    | none => return none
    | some words => invoke callee.text words

/-- The value of a sequence is that of its last expression. -/
def sequence (value : Option Word) : List Expr → Eval (Option Word)
  | [] => return value
  | first :: rest => do
    let result ← eval first
    sequence result rest

def values : List Expr → Eval (Option (List Word))
  | [] => return some []
  | first :: rest => do
    let value ← eval first
    let others ← values rest
    return value.bind fun word => others.map fun words => word :: words

end

end Expressions

/-- The parameters and the body of the function of the given name. -/
def definition? (program : List Item) (name : String) : Option (List Name × Expr) :=
  program.findSome? fun
    | .definition _ head body => if head.name.text = name then some (head.parameters, body) else none
    | _ => none

/-- Evaluates a body with variables of its own. -/
def apply (parameters : List Name) (arguments : List Word) (body : Eval (Option Word)) :
    Eval (Option Word) := do
  let outer := (← get).env
  modify fun store => { store with env := fun _ => 0 }
  (parameters.zip arguments).forM fun (parameter, argument) => assign parameter.text argument
  let result ← body
  modify fun store => { store with env := outer }
  return result

/-- Calls a function while the given number of calls are live. -/
def invoke (program : List Item) (limit fuel live : Nat) (name : String) (arguments : List Word) :
    Eval (Option Word) :=
  if name = "puts" then print arguments
  else match definition? program name with
    | none => throw (.error (.unresolvedExternal name))
    | some (parameters, body) =>
      if max limit 1 ≤ live then throw (.error (.callDepthExceeded limit))
      else match fuel with
        | 0 => throw .exhausted
        | fuel + 1 =>
          apply parameters arguments (eval (invoke program limit fuel (live + 1)) fuel body)

/-- The result and the output, unless there was too little fuel. -/
def answer (action : Eval (Option Word)) :
    Option (Except ExecutionError (Option Word) × String) :=
  match action {} with
  | (.ok value, store) => some (.ok value, store.written)
  | (.error (.error error), store) => some (.error error, store.written)
  | (.error .exhausted, _) => none

def topLevel (program : List Item) : List Expr :=
  program.filterMap fun
    | .expression body => some body
    | _ => none

/-- All top-level expressions in order, with one set of variables. -/
def main (program : List Item) (limit fuel : Nat) :
    Option (Except ExecutionError (Option Word) × String) :=
  answer do
    let _ ← sequence (invoke program limit fuel 1) fuel none (topLevel program)
    return none

/-- One call of a function that the program defines. -/
def call (program : List Item) (limit fuel : Nat) (name : String) (arguments : List Word) :
    Option (Except ExecutionError (Option Word) × String) :=
  match definition? program name with
  | none => some (.error (.unknownFunction name), "")
  | some (parameters, body) =>
    answer (apply parameters arguments (eval (invoke program limit fuel 1) fuel body))

/-! ## The operations of the machine -/

theorem compute_eq_apply (op : Arith) (a b : Word) : compute op a b = op.apply a b := by
  cases op with
  | add => exact (Int32.ofInt_add _ _).trans (by simp [Arith.apply])
  | subtract => exact (Int32.ofInt_sub _ _).trans (by simp [Arith.apply])
  | multiply => exact (Int32.ofInt_mul _ _).trans (by simp [Arith.apply])

theorem holds_eq_apply (op : Comparison) (a b : Word) : holds op a.toInt b.toInt = op.predicate.apply a b := by
  cases op with
  | greater | less =>
    simp only [holds, Comparison.predicate, Predicate.apply, Int32.lt_iff_toInt_lt]
  | equal => simp only [holds, Comparison.predicate, Predicate.apply, Int32.toInt_inj]
  | greaterOrEqual | lessOrEqual =>
    simp only [holds, Comparison.predicate, Predicate.apply, Int32.le_iff_toInt_le]

theorem line_eq_putsLine (values : List Word) : line values = putsLine values := by
  rw [putsLine]
  induction values with
  | nil => rfl
  | cons first rest ih =>
    cases rest with
    | nil => rfl
    | cons second rest =>
      rw [line, ih]
      simp only [List.map_cons, String.intercalate_cons_cons, Word.text, String.append_assoc]

end Evaluation
end Slate
