/-! # Name tables

What names stand for, with the latest binding of a name in force.
-/

namespace Slate
set_option autoImplicit false

structure NameTable (α : Type) where
  entries : List (String × α) := []
  deriving DecidableEq

namespace NameTable

variable {α : Type}

def empty : NameTable α := {}

def find? (table : NameTable α) (name : String) : Option α := table.entries.lookup name

def erase (table : NameTable α) (name : String) : NameTable α :=
  ⟨table.entries.filter fun (key, _) => key != name⟩

def insert (table : NameTable α) (name : String) (value : α) : NameTable α :=
  ⟨(name, value) :: (table.erase name).entries⟩

end NameTable
end Slate
