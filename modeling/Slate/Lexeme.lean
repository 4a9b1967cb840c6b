/-! # Lexemes

What a token says, apart from where it stands. Every lexeme has one spelling.
-/

namespace Slate
set_option autoImplicit false

inductive Keyword where
  | def_ | extern_ | if_ | then_ | else_ | for_ | do_ | end_
  deriving DecidableEq

namespace Keyword

def all : List Keyword := [.def_, .extern_, .if_, .then_, .else_, .for_, .do_, .end_]

def text : Keyword → String
  | .def_ => "def"
  | .extern_ => "extern"
  | .if_ => "if"
  | .then_ => "then"
  | .else_ => "else"
  | .for_ => "for"
  | .do_ => "do"
  | .end_ => "end"

def ofText? (word : String) : Option Keyword := all.find? (·.text = word)

end Keyword

inductive Lexeme where
  | keyword (word : Keyword)
  | identifier (name : String)
  | integer (digits : String)
  | openParen | closeParen | semicolon | comma
  | plus | minus | asterisk
  | doubleEquals | lessThan | lessOrEqual | greaterThan | greaterOrEqual
  | equals
  deriving DecidableEq

namespace Lexeme

def text : Lexeme → String
  | .keyword word => word.text
  | .identifier name => name
  | .integer digits => digits
  | .openParen => "("
  | .closeParen => ")"
  | .semicolon => ";"
  | .comma => ","
  | .plus => "+"
  | .minus => "-"
  | .asterisk => "*"
  | .doubleEquals => "=="
  | .lessThan => "<"
  | .lessOrEqual => "<="
  | .greaterThan => ">"
  | .greaterOrEqual => ">="
  | .equals => "="

def ofWord (word : String) : Lexeme :=
  match Keyword.ofText? word with
  | some reserved => .keyword reserved
  | none => .identifier word

end Lexeme
end Slate
