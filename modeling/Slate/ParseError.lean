import Slate.Lexeme
import Slate.Source

/-! # Why a text is not a program -/

namespace Slate
set_option autoImplicit false

inductive Expectation where
  | identifier
  | integerLiteral
  | expression
  | commaOrClose
  | exactly (lexeme : Lexeme)
  deriving DecidableEq

def Expectation.text : Expectation → String
  | .identifier => "identifier"
  | .integerLiteral => "integer literal"
  | .expression => "expression"
  | .commaOrClose => "`,` or `)`"
  | .exactly lexeme => s!"`{lexeme.text}`"

inductive ParseError.Cause where
  | unexpectedCharacter (character : Char)
  | unexpectedToken (expected : Expectation) (found : Lexeme)
  | unexpectedEnd (expected : Expectation)
  | integerOutOfRange (literal : String)
  | invalidAssignmentTarget
  deriving DecidableEq

def ParseError.Cause.message : ParseError.Cause → String
  | .unexpectedCharacter character => s!"unexpected character `{character}`"
  | .unexpectedToken expected found => s!"expected {expected.text} but found `{found.text}`"
  | .unexpectedEnd expected => s!"expected {expected.text} but reached end of file"
  | .integerOutOfRange literal => s!"integer literal `{literal}` does not fit in 32 bits"
  | .invalidAssignmentTarget => "only variables can be assigned to"

structure ParseError where
  cause : ParseError.Cause
  span : Span
  deriving DecidableEq

def ParseError.message (error : ParseError) : String := error.cause.message

end Slate
