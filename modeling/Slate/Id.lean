/-! # Ids

An id names a row of a table: a function of a module, or a block, register or stack slot of a
function. Ids of different kinds do not mix.
-/

namespace Slate
set_option autoImplicit false

inductive IdKind where
  | function | block | register | slot
  deriving DecidableEq

structure Id (kind : IdKind) where
  index : Nat
  deriving DecidableEq, Inhabited

abbrev FunctionId := Id .function
abbrev BlockId := Id .block
abbrev RegisterId := Id .register
abbrev SlotId := Id .slot

namespace Id

variable {kind : IdKind}

/-- The id with the given number. Ids have 32 bits, higher ones are dropped. -/
def ofNat (n : Nat) : Id kind := ⟨n % 4294967296⟩

/-- The id after this one; the last one is followed by the first. -/
def successor (id : Id kind) : Id kind := .ofNat (id.index + 1)

end Id

def RegisterId.text (id : RegisterId) : String := s!"%{id.index}"

def SlotId.text (id : SlotId) : String := s!"${id.index}"

def BlockId.text (id : BlockId) : String := s!"bb{id.index}"

end Slate
