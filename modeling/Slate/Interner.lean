import Slate.NameTable

/-! # Interning

An interner numbers distinct texts 0, 1, 2, … in the order they first come in. It keeps the texts by
number and the numbers by text. A symbol stands for a text by its number.
-/

namespace Slate
set_option autoImplicit false

structure Interner where
  texts : Array String := #[]
  numbers : NameTable Nat := {}

namespace Interner

def empty : Interner := {}

def get? (interner : Interner) (index : Nat) : Option String := interner.texts[index]?

def indexOf? (interner : Interner) (text : String) : Option Nat := interner.numbers.find? text

/-- The number of a text, a new one if it has none yet. Numbers have 32 bits, higher ones are
dropped. -/
def insert (interner : Interner) (text : String) : Nat × Interner :=
  match interner.indexOf? text with
  | some index => (index, interner)
  | none =>
    let index := interner.texts.size % 4294967296
    (index, ⟨interner.texts.push text, interner.numbers.insert text index⟩)

def ofList (texts : List String) : Interner :=
  texts.foldl (fun interner text => (interner.insert text).2) empty

end Interner

structure Symbol where
  number : Nat
  deriving DecidableEq

namespace Symbol

def make (text : String) (interner : Interner) : Symbol × Interner :=
  let (number, after) := interner.insert text
  (⟨number⟩, after)

def text? (symbol : Symbol) (interner : Interner) : Option String := interner.get? symbol.number

end Symbol
end Slate
