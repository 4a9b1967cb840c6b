/-! # Terminal control sequences

A sequence starts with an escape character. What follows decides how it ends: a control sequence
(`ESC [`) at its first letter or similar character, a device control string (`ESC P`), an operating
system command (`ESC ]`) or another string at a terminator. `withoutControls` removes sequences and
control characters and keeps the rest, blanks among it.
-/

namespace Slate
set_option autoImplicit false

inductive SequenceState where
  | ground
  | escape
  | escapeIntermediate
  | control
  | deviceEntry
  | deviceParameter
  | deviceIntermediate
  | deviceData
  | command
  /-- A string that has no meaning. -/
  | ignored
  deriving DecidableEq

def isBlankControl (c : Char) : Bool := c = '\t' || c = '\n' || c = '\x0c' || c = '\r'

def isControl (c : Char) : Bool := decide (c.toNat < 0x20)

/-- Whether the byte 0x9C, which ends strings, is in the encoding of a character. -/
def holdsTerminator (c : Char) : Bool := c.toString.toUTF8.data.contains 0x9c

namespace SequenceState

/-- Whether a character is shown here. Blanks are also shown inside of sequences that are no
strings. -/
def shows (state : SequenceState) (c : Char) : Bool :=
  match state with
  | .ground => if isControl c then isBlankControl c else c != '\x7f'
  | .escape | .escapeIntermediate | .control => isBlankControl c
  | _ => false

def opened (c : Char) : SequenceState :=
  if c < '0' then .escapeIntermediate
  else if c = '[' then .control
  else if c = ']' then .command
  else if c = 'P' then .deviceEntry
  else if c = 'X' || c = '^' || c = '_' then .ignored
  else .ground

def afterGraphic (state : SequenceState) (c : Char) : SequenceState :=
  match state with
  | .ground => .ground
  | .escape => opened c
  | .escapeIntermediate => if c < '0' then .escapeIntermediate else .ground
  | .control => if c < '@' then .control else .ground
  | .deviceEntry =>
    if c < '0' then .deviceIntermediate else if c < '@' then .deviceParameter else .deviceData
  | .deviceParameter =>
    if c < '0' then .deviceIntermediate else if c < '<' then .deviceParameter else .deviceData
  | .deviceIntermediate => if c < '0' then .deviceIntermediate else .deviceData
  | .deviceData => .deviceData
  | .command => .command
  | .ignored => .ignored

def next (state : SequenceState) (c : Char) : SequenceState :=
  if c = '\x1b' then .escape
  else if c = '\x18' || c = '\x1a' then .ground
  else if c = '\x07' && state = .command then .ground
  else if isControl c || c = '\x7f' then state
  else if c < '\x7f' then state.afterGraphic c
  else if (state = .deviceData || state = .ignored) && holdsTerminator c then .ground
  else state

end SequenceState

/-- Removes sequences from a text that starts in the given state. A blank inside of a sequence is
shown, and so is what follows it, up to a control character, which goes on with the sequence. -/
def stripFrom (state : SequenceState) (showing : Bool) : List Char → List Char
  | [] => []
  | c :: rest =>
    if (if showing then .ground else state).shows c then
      c :: stripFrom (if c < '\x7f' then state else .ground) true rest
    else stripFrom (state.next c) false rest

def withoutControls (text : String) : String :=
  String.ofList (stripFrom .ground true text.toList)

end Slate
