import Slate.Ir.Draft

/-! # Modules under construction

An assembly gives out function ids in order and never gives one out twice.
-/

namespace Slate
set_option autoImplicit false

structure Assembly where
  module : Module
  next : FunctionId := ⟨0⟩

namespace Assembly

def new (name : String) : Assembly := { module := { name } }

def get? (assembly : Assembly) (id : FunctionId) : Option Function := assembly.module.get? id

def put (assembly : Assembly) (id : FunctionId) (function : Function) : Assembly :=
  { assembly with
    module := { assembly.module with functions := assembly.module.functions.insert id function } }

def declare (assembly : Assembly) (name : String) (signature : Signature) (linkage : Linkage) :
    Assembly :=
  let function : Function := {
    name, signature, linkage
    registers := .ofList signature.parameters
    parameters := (List.range signature.parameters.length).map Id.mk }
  { assembly.put assembly.next function with next := ⟨assembly.next.index + 1⟩ }

/-- Deletes the body of a function. Only a function that is still called somewhere keeps its
declaration. -/
def discard (assembly : Assembly) (id : FunctionId) (function : Function) : Assembly :=
  let bare := assembly.put id function.withoutBody
  if bare.module.isReferenced id then bare
  else { bare with
    module := { bare.module with functions := bare.module.functions.erase id } }

end Assembly
end Slate
