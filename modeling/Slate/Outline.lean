/-! # Outlines

The shape of a value, printed with one part to a line and four spaces of indentation a level.
-/

namespace Slate
set_option autoImplicit false

inductive Outline where
  | atom (text : String)
  /-- A name and fields: `Name { … }`. -/
  | record (name : String) (fields : List Outline)
  | field (label : String) (value : Outline)
  /-- A name and arguments: `Name( … )`. -/
  | apply (name : String) (arguments : List Outline)
  /-- Items in brackets: `[ … ]`. -/
  | list (items : List Outline)

namespace Outline

def indentation (level : Nat) : String := String.ofList (List.replicate (4 * level) ' ')

mutual

/-- The text at a level; its first line is not indented. -/
def renderAt (level : Nat) : Outline → String
  | .atom text => text
  | .record name fields =>
    name ++ " \x7b\n" ++ renderParts (level + 1) fields ++ indentation level ++ "\x7d"
  | .field label value => label ++ ": " ++ renderAt level value
  | .apply name arguments =>
    name ++ "(\n" ++ renderParts (level + 1) arguments ++ indentation level ++ ")"
  | .list [] => "[]"
  | .list (first :: rest) =>
    "[\n" ++ renderParts (level + 1) (first :: rest) ++ indentation level ++ "]"

def renderParts (level : Nat) : List Outline → String
  | [] => ""
  | first :: rest =>
    indentation level ++ renderAt level first ++ ",\n" ++ renderParts level rest

end

def render (outline : Outline) : String := renderAt 0 outline

end Outline
end Slate
