/-! # Bytes and lines of a character list

A text is read as a list of characters; places in it are counted in UTF-8 bytes. `splitAtByte?`
cuts only between characters. Lines end before a newline, and a carriage return in front of that
newline belongs to the line ending.
-/

namespace Slate
set_option autoImplicit false

def byteLength : List Char → Nat
  | [] => 0
  | c :: rest => c.utf8Size + byteLength rest

@[simp] theorem byteLength_nil : byteLength [] = 0 := rfl

@[simp] theorem byteLength_cons (c : Char) (rest : List Char) :
    byteLength (c :: rest) = c.utf8Size + byteLength rest := rfl

@[simp] theorem byteLength_append (xs ys : List Char) :
    byteLength (xs ++ ys) = byteLength xs + byteLength ys := by
  induction xs with
  | nil => simp
  | cons c rest ih => simp [ih, Nat.add_assoc]

/-- Cuts a text after the given number of bytes, if no character lies across the cut. -/
def splitAtByte? : Nat → List Char → Option (List Char × List Char)
  | 0, rest => some ([], rest)
  | _ + 1, [] => none
  | n + 1, c :: rest =>
    if c.utf8Size ≤ n + 1 then
      (splitAtByte? (n + 1 - c.utf8Size) rest).map fun (front, back) => (c :: front, back)
    else none

def rowAfter (front : List Char) : Nat := front.count '\n' + 1

def columnAfter (front : List Char) : Nat :=
  byteLength (front.reverse.takeWhile (· != '\n')) + 1

def skipLines : Nat → List Char → List Char
  | 0, text => text
  | n + 1, text => skipLines n ((text.dropWhile (· != '\n')).drop 1)

/-- A line that a newline follows, without the carriage return before the newline. -/
def dropReturn (line : List Char) : List Char :=
  if line.getLast? = some '\r' then line.dropLast else line

def firstLine (text : List Char) : List Char :=
  let line := text.takeWhile (· != '\n')
  if text.contains '\n' then dropReturn line else line

end Slate
