/-! # Text with terminal colours

A styled text is a list of pieces. Its plain form drops the styles; its coloured form puts each
styled piece between a style sequence and a reset, also when the piece is empty. A reset that the
text itself holds does not end the style early: the style is switched on again behind it.
-/

namespace Slate
set_option autoImplicit false

inductive Color where
  | red | green | yellow | blue | magenta | cyan | white | brightRed | brightGreen
  deriving DecidableEq

def Color.code : Color → String
  | .red => "31"
  | .green => "32"
  | .yellow => "33"
  | .blue => "34"
  | .magenta => "35"
  | .cyan => "36"
  | .white => "37"
  | .brightRed => "91"
  | .brightGreen => "92"

structure Style where
  bold : Bool := false
  dim : Bool := false
  underline : Bool := false
  color : Option Color := none
  /-- Whether each attribute has a style sequence of its own. -/
  split : Bool := false
  deriving DecidableEq

def Style.codes (style : Style) : List String :=
  (if style.bold then ["1"] else []) ++ (if style.dim then ["2"] else []) ++
    (if style.underline then ["4"] else []) ++ (style.color.map Color.code).toList

def Style.start (style : Style) : String :=
  if style.split then String.join (style.codes.map fun code => s!"\x1b[{code}m")
  else
    let codes := ";".intercalate style.codes
    s!"\x1b[{codes}m"

def renewAfterResets (start : List Char) : List Char → List Char
  | '\x1b' :: '[' :: '0' :: 'm' :: rest =>
    '\x1b' :: '[' :: '0' :: 'm' :: (start ++ renewAfterResets start rest)
  | c :: rest => c :: renewAfterResets start rest
  | [] => []

/-- A text as it stands inside of a style. A style whose attributes have sequences of their own
leaves the text as it is; any other goes on behind the resets of the text. -/
def Style.inner (style : Style) (text : String) : String :=
  if style.split then text
  else String.ofList (renewAfterResets style.start.toList text.toList)

structure Piece where
  text : String
  style : Option Style := none
  deriving DecidableEq

namespace Piece

def plain (text : String) : Piece := ⟨text, none⟩

def colored (color : Color) (text : String) : Piece := ⟨text, some { color := some color }⟩

def dimmed (text : String) : Piece := ⟨text, some { dim := true }⟩

def ansi (piece : Piece) : String :=
  match piece.style with
  | none => piece.text
  | some style => s!"{style.start}{style.inner piece.text}\x1b[0m"

end Piece

abbrev Styled := List Piece

namespace Styled

/-- Drops the styles only: control characters in the pieces themselves stay. Where the names in a text are
printable, this is what removing the control sequences from the coloured form leaves. -/
def plain (text : Styled) : String := String.join (text.map Piece.text)

def ansi (text : Styled) : String := String.join (text.map Piece.ansi)

def render (color : Bool) (text : Styled) : String := if color then text.ansi else text.plain

def join (separator : Piece) (texts : List Styled) : Styled :=
  (texts.intersperse [separator]).flatten

end Styled
end Slate
