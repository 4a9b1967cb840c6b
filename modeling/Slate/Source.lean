import Slate.Text
import Slate.Text.Styled

/-! # Program texts and places in them

Places are byte offsets into the UTF-8 form of the text. A place inside a character has no row and
no column, so the functions below answer with an `Option`.
-/

namespace Slate
set_option autoImplicit false

/-- The bytes from `start` up to, not including, `stop`. -/
structure Span where
  start : Nat
  stop : Nat
  deriving DecidableEq, Inhabited

def Span.through (first last : Span) : Span := ⟨first.start, last.stop⟩

inductive Origin where
  | memory
  | file (path : String)
  deriving DecidableEq

def Origin.text : Origin → String
  | .memory => "<memory>"
  | .file path => path

structure Source where
  text : String
  origin : Origin := .memory
  deriving DecidableEq

namespace Source

def chars (source : Source) : List Char := source.text.toList

def size (source : Source) : Nat := byteLength source.chars

def endSpan (source : Source) : Span := ⟨source.size, source.size⟩

/-- The text before a place; a place beyond the end counts as the end. -/
def before? (source : Source) (place : Nat) : Option (List Char) :=
  (splitAtByte? (min place source.size) source.chars).map Prod.fst

/-- The text of a span whose ends are in order, in range and between characters. -/
def slice? (source : Source) (span : Span) : Option (List Char) :=
  if span.start ≤ span.stop then
    (splitAtByte? span.start source.chars).bind fun (_, rest) =>
      (splitAtByte? (span.stop - span.start) rest).map Prod.fst
  else none

/-- Line number of a place, from 1. -/
def row? (source : Source) (place : Nat) : Option Nat :=
  (source.before? place).map rowAfter

/-- Byte column of a place in its line, from 1. -/
def column? (source : Source) (place : Nat) : Option Nat :=
  (source.before? place).map columnAfter

/-- The line with the given number, without its line ending; empty if there is no such line. -/
def line (source : Source) (row : Nat) : List Char :=
  firstLine (skipLines (row - 1) source.chars)

def location? (source : Source) (span : Span) : Option String := do
  let row ← source.row? span.start
  let column ← source.column? span.start
  return s!"{source.origin.text}:{row}:{column}"

/-- How many carets mark a span on its first line: at least one, and none beyond the column
behind the line's last byte. -/
def caretCount (width lineLength column : Nat) : Nat :=
  max 1 (min width (max 1 (lineLength + 1 - column)))

/-- The line on which a span starts, and under it carets below the part of the span on that line. -/
def highlight? (source : Source) (span : Span) : Option Styled := do
  let row ← source.row? span.start
  let column ← source.column? span.start
  let line := source.line row
  let gutter := s!"{row} | "
  let carets := caretCount (span.stop - span.start) (byteLength line) column
  return [
    Piece.colored .blue gutter,
    Piece.plain (String.ofList line ++ "\n"),
    Piece.plain (String.ofList (List.replicate (gutter.length + column - 1) ' ')),
    Piece.colored .red (String.ofList (List.replicate carets '^'))]

end Source
end Slate
