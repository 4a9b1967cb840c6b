import Slate.ParseError

/-! # Tokens

`nextToken` skips the gap in front of a token (blanks and comments) and reads the longest lexeme that
starts there. `scan` reads a whole text. A `Reader` hands out tokens one at a time, with one token of
lookahead.
-/

namespace Slate
set_option autoImplicit false

def isBlank (c : Char) : Bool :=
  c = ' ' || c = '\t' || c = '\n' || c = '\x0c' || c = '\r'

def isDigit (c : Char) : Bool := '0' ≤ c && c ≤ '9'

def isLetter (c : Char) : Bool := 'a' ≤ c && c ≤ 'z' || 'A' ≤ c && c ≤ 'Z'

def isWordStart (c : Char) : Bool := isLetter c || c = '_'

def isWordPart (c : Char) : Bool := isWordStart c || isDigit c

/-- The longest gap in front of a text, and the text behind it. A comment runs from `#` to just
before the end of its line. -/
def splitGap (text : List Char) : List Char × List Char :=
  go false text
where
  go : Bool → List Char → List Char × List Char
    | _, [] => ([], [])
    | inComment, c :: rest =>
      if inComment && c != '\n' || c = '#' || isBlank c then
        let (gap, back) := go (c = '#' || inComment && c != '\n') rest
        (c :: gap, back)
      else ([], c :: rest)

/-- The longest lexeme at the front of a text, and the text behind it. -/
def Lexeme.read? : List Char → Option (Lexeme × List Char)
  | '=' :: '=' :: rest => some (.doubleEquals, rest)
  | '<' :: '=' :: rest => some (.lessOrEqual, rest)
  | '>' :: '=' :: rest => some (.greaterOrEqual, rest)
  | '(' :: rest => some (.openParen, rest)
  | ')' :: rest => some (.closeParen, rest)
  | ';' :: rest => some (.semicolon, rest)
  | ',' :: rest => some (.comma, rest)
  | '+' :: rest => some (.plus, rest)
  | '-' :: rest => some (.minus, rest)
  | '*' :: rest => some (.asterisk, rest)
  | '=' :: rest => some (.equals, rest)
  | '<' :: rest => some (.lessThan, rest)
  | '>' :: rest => some (.greaterThan, rest)
  | c :: rest =>
    if isDigit c then
      some (.integer (String.ofList (c :: rest.takeWhile isDigit)), rest.dropWhile isDigit)
    else if isWordStart c then
      some (.ofWord (String.ofList (c :: rest.takeWhile isWordPart)), rest.dropWhile isWordPart)
    else none
  | [] => none

structure Token where
  lexeme : Lexeme
  span : Span
  deriving DecidableEq

inductive NextToken where
  /-- A token, and the place and text behind it. -/
  | token (token : Token) (place : Nat) (rest : List Char)
  | finished
  /-- A character, at the given place, that can start neither gap nor lexeme. -/
  | stuck (character : Char) (place : Nat) (rest : List Char)

def nextToken (place : Nat) (text : List Char) : NextToken :=
  let (gap, back) := splitGap text
  let start := place + byteLength gap
  match back with
  | [] => .finished
  | c :: rest =>
    match Lexeme.read? (c :: rest) with
    | some (lexeme, after) =>
      let stop := start + byteLength lexeme.text.toList
      .token ⟨lexeme, start, stop⟩ stop after
    | none => .stuck c start (c :: rest)

def ParseError.badCharacter (character : Char) (place : Nat) : ParseError :=
  ⟨.unexpectedCharacter character, place, place + character.utf8Size⟩

theorem splitGap_go_length (inComment : Bool) (text : List Char) :
    (splitGap.go inComment text).2.length ≤ text.length := by
  induction text generalizing inComment with
  | nil => simp [splitGap.go]
  | cons c rest ih =>
    rw [splitGap.go]
    split
    · exact Nat.le_succ_of_le (ih _)
    · exact Nat.le_refl _

theorem Lexeme.read?_length {text rest : List Char} {lexeme : Lexeme}
    (h : Lexeme.read? text = some (lexeme, rest)) : rest.length < text.length := by
  have hDrop (p : Char → Bool) (list : List Char) : (list.dropWhile p).length ≤ list.length :=
    (List.dropWhile_sublist p).length_le
  unfold Lexeme.read? at h
  split at h <;> grind

/-- Reading a token takes at least one character. -/
theorem nextToken_length {place after : Nat} {text rest : List Char} {token : Token}
    (h : nextToken place text = .token token after rest) : rest.length < text.length := by
  unfold nextToken at h
  have hGap : (splitGap text).2.length ≤ text.length := splitGap_go_length false text
  simp only at h
  split at h
  · cases h
  · next c back hBack =>
    rw [hBack] at hGap
    split at h
    · next lexeme behind hRead =>
      cases h
      exact Nat.lt_of_lt_of_le (Lexeme.read?_length hRead) hGap
    · cases h

/-- The tokens of a text, and the error of the character, if any, at which reading stopped. -/
structure Scan where
  tokens : List Token
  error : Option ParseError
  deriving DecidableEq

def scanFrom (place : Nat) (text : List Char) : Scan :=
  match h : nextToken place text with
  | .token token after rest =>
    have : rest.length < text.length := nextToken_length h
    let scan := scanFrom after rest
    { scan with tokens := token :: scan.tokens }
  | .finished => ⟨[], none⟩
  | .stuck character at_ _ => ⟨[], some (.badCharacter character at_)⟩
termination_by text.length

def Source.scan (source : Source) : Scan := scanFrom 0 source.chars

structure Reader where
  source : Source
  place : Nat
  rest : List Char
  ahead : Option Token := none

namespace Reader

def ofSource (source : Source) : Reader := { source, place := 0, rest := source.chars }

def endSpan (reader : Reader) : Span := reader.source.endSpan

/-- Takes a token from the text, past any token read ahead. -/
def advance (reader : Reader) : Except ParseError (Option Token) × Reader :=
  match nextToken reader.place reader.rest with
  | .token token place rest => (.ok (some token), { reader with place, rest })
  | .finished => (.ok none, reader)
  | .stuck character place rest =>
    (.error (.badCharacter character place), { reader with place, rest })

/-- Takes the next token; `none` at the end. -/
def next (reader : Reader) : Except ParseError (Option Token) × Reader :=
  match reader.ahead with
  | some token => (.ok (some token), { reader with ahead := none })
  | none => reader.advance

def peek (reader : Reader) : Except ParseError (Option Token) × Reader :=
  match reader.ahead with
  | some token => (.ok (some token), reader)
  | none =>
    match reader.advance with
    | (.ok token, after) => (.ok token, { after with ahead := token })
    | (.error error, after) => (.error error, after)

end Reader
end Slate
