import Slate.Id

/-! # Sets and maps of ids

Both are lists in increasing order of ids, without repetition when built by `insert`, so equal
contents mean equal values.
-/

namespace Slate
set_option autoImplicit false

/-- A set of ids, in increasing order. -/
structure IdSet (kind : IdKind) where
  ids : List (Id kind) := []
  deriving DecidableEq

namespace IdSet

variable {kind : IdKind}

def empty : IdSet kind := {}

def isEmpty (set : IdSet kind) : Bool := set.ids.isEmpty

def contains (set : IdSet kind) (id : Id kind) : Bool := set.ids.contains id

def insert (set : IdSet kind) (id : Id kind) : IdSet kind := ⟨go set.ids⟩
where
  go : List (Id kind) → List (Id kind)
    | [] => [id]
    | first :: rest =>
      if id.index < first.index then id :: first :: rest
      else if id = first then first :: rest
      else first :: go rest

def ofList (ids : List (Id kind)) : IdSet kind := ids.foldl insert empty

end IdSet

/-- A map from ids, in increasing order of its keys. -/
structure IdMap (kind : IdKind) (α : Type) where
  entries : List (Id kind × α) := []
  deriving DecidableEq

namespace IdMap

variable {kind : IdKind} {α : Type}

def empty : IdMap kind α := {}

def size (map : IdMap kind α) : Nat := map.entries.length

def keys (map : IdMap kind α) : List (Id kind) := map.entries.map Prod.fst

def values (map : IdMap kind α) : List α := map.entries.map Prod.snd

def get? (map : IdMap kind α) (id : Id kind) : Option α := map.entries.lookup id

def insert (map : IdMap kind α) (id : Id kind) (value : α) : IdMap kind α := ⟨go map.entries⟩
where
  go : List (Id kind × α) → List (Id kind × α)
    | [] => [(id, value)]
    | (key, old) :: rest =>
      if id.index < key.index then (id, value) :: (key, old) :: rest
      else if id = key then (id, value) :: rest
      else (key, old) :: go rest

def erase (map : IdMap kind α) (id : Id kind) : IdMap kind α :=
  ⟨map.entries.filter fun (key, _) => key != id⟩

def ofList (entries : List (Id kind × α)) : IdMap kind α :=
  entries.foldl (fun map (id, value) => map.insert id value) empty

def find? (map : IdMap kind α) (test : α → Bool) : Option (Id kind × α) :=
  map.entries.find? fun (_, value) => test value

def findLast? (map : IdMap kind α) (test : α → Bool) : Option (Id kind × α) :=
  map.entries.reverse.find? fun (_, value) => test value

end IdMap
end Slate
