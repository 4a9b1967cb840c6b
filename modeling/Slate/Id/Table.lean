import Slate.Id

/-! # Tables indexed by ids

A table gives its rows the ids 0, 1, 2, … in the order they are added.
-/

namespace Slate
set_option autoImplicit false

structure Table (kind : IdKind) (α : Type) where
  rows : Array α := #[]
  deriving DecidableEq

namespace Table

variable {kind : IdKind} {α β : Type}

def empty : Table kind α := {}

def ofList (rows : List α) : Table kind α := ⟨rows.toArray⟩

def toList (table : Table kind α) : List α := table.rows.toList

def size (table : Table kind α) : Nat := table.rows.size

def isEmpty (table : Table kind α) : Bool := table.rows.isEmpty

def nextId (table : Table kind α) : Id kind := ⟨table.rows.size⟩

def push (table : Table kind α) (row : α) : Table kind α := ⟨table.rows.push row⟩

def contains (table : Table kind α) (id : Id kind) : Bool := decide (id.index < table.rows.size)

def get? (table : Table kind α) (id : Id kind) : Option α := table.rows[id.index]?

/-- Replaces a row; a table without that row stays as it is. -/
def set (table : Table kind α) (id : Id kind) (row : α) : Table kind α :=
  ⟨table.rows.setIfInBounds id.index row⟩

def modify (table : Table kind α) (id : Id kind) (change : α → α) : Table kind α :=
  ⟨table.rows.modify id.index change⟩

def truncate (table : Table kind α) (n : Nat) : Table kind α := ⟨table.rows.take n⟩

def entries (table : Table kind α) : List (Id kind × α) :=
  table.toList.zipIdx.map fun (row, index) => (⟨index⟩, row)

def text (render : α → String) (table : Table kind α) : String :=
  "[" ++ ", ".intercalate (table.toList.map render) ++ "]"

end Table
end Slate
