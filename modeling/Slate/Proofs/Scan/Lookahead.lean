import Slate.Proofs.Scan.Cut

/-! # Looking ahead takes nothing

A reader can be asked for its next token, for a look at that token, and for the place where the text ends, in
any order. What it answers depends only on how many tokens were taken: looks do not count, and where nothing is
left, or a character cannot be read, the answer stays the same.
-/

namespace Slate
set_option autoImplicit false

theorem byteLength_eq_utf8ByteSize (text : List Char) : byteLength text = (String.ofList text).utf8ByteSize := by
  induction text with
  | nil => rfl
  | cons c rest ih =>
    rw [String.ofList_cons, String.utf8ByteSize_append, String.utf8ByteSize_singleton, byteLength_cons, ih]

theorem Source.size_eq (source : Source) : source.size = source.text.utf8ByteSize := by
  rw [size, byteLength_eq_utf8ByteSize, chars, String.ofList_toList]

namespace Scan

/-- What a reader with these tokens in front of it gives next. -/
def first (scan : Scan) : Except ParseError (Option Token) :=
  match scan.tokens, scan.error with
  | token :: _, _ => .ok (some token)
  | [], none => .ok none
  | [], some error => .error error

/-- What is left after some tokens. -/
def drop (count : Nat) (scan : Scan) : Scan := ⟨scan.tokens.drop count, scan.error⟩

theorem drop_drop (first second : Nat) (scan : Scan) :
    (scan.drop first).drop second = scan.drop (first + second) := by
  rw [drop, drop, drop, List.drop_drop]

/-- Where no token is next, none comes later. -/
theorem drop_of_first {scan : Scan} {result : Except ParseError (Option Token)} (h : scan.first = result)
    (hNone : ∀ token, result ≠ .ok (some token)) (count : Nat) : scan.drop count = scan := by
  obtain ⟨tokens, error⟩ := scan
  cases tokens with
  | nil => rw [drop, List.drop_nil]
  | cons token rest => exact absurd h.symm (hNone token)

end Scan

namespace Reader

/-- What stands in front of a reader, the token that was read ahead included. -/
def remaining (reader : Reader) : Scan := (scanFrom reader.place reader.rest).behind reader.ahead.toList

/-! ## One request -/

/-- A reader that has not read ahead moves by one token, or stays in front of the end or of a bad character. -/
theorem advance_spec {reader : Reader} (h : reader.ahead = none) :
    reader.advance.1 = reader.remaining.first ∧ reader.advance.2.ahead = none ∧
      reader.advance.2.source = reader.source ∧ reader.advance.2.remaining = reader.remaining.drop 1 := by
  obtain ⟨source, place, rest, _⟩ := reader
  cases h
  rw [advance, remaining]
  cases hNext : nextToken place rest with
  | token token after left =>
    rw [scanFrom_of_token hNext]
    exact ⟨rfl, rfl, rfl, rfl⟩
  | finished =>
    refine ⟨?_, rfl, rfl, ?_⟩
    · rw [scanFrom_of_finished hNext]
      rfl
    · rw [remaining, scanFrom_of_finished hNext]
      rfl
  | stuck character at_ left =>
    -- the gap in front of the character is gone, so the same character is met once more
    obtain ⟨hAt, hLeft, _⟩ := splitGap_of_stuck hNext
    have hAgain : nextToken at_ left = .stuck character at_ left := by
      rw [hAt, ← hLeft, nextToken_behind, hNext, hAt, hLeft]
    rw [scanFrom_of_stuck hNext, remaining, scanFrom_of_stuck hAgain]
    exact ⟨rfl, rfl, rfl, rfl⟩

theorem next_spec (reader : Reader) :
    reader.next.1 = reader.remaining.first ∧ reader.next.2.source = reader.source ∧
      reader.next.2.remaining = reader.remaining.drop 1 := by
  cases hAhead : reader.ahead with
  | some token =>
    rw [next, remaining, hAhead]
    exact ⟨rfl, rfl, rfl⟩
  | none =>
    obtain ⟨hFirst, _, hSource, hRest⟩ := advance_spec hAhead
    rw [next, hAhead]
    exact ⟨hFirst, hSource, hRest⟩

theorem peek_spec (reader : Reader) :
    reader.peek.1 = reader.remaining.first ∧ reader.peek.2.source = reader.source ∧
      reader.peek.2.remaining = reader.remaining := by
  cases hAhead : reader.ahead with
  | some token =>
    rw [peek, hAhead, remaining, hAhead]
    exact ⟨rfl, rfl, rfl⟩
  | none =>
    obtain ⟨hFirst, hNone, hSource, hRest⟩ := advance_spec hAhead
    rw [peek, hAhead]
    generalize reader.remaining = scan at hFirst hRest ⊢
    generalize reader.advance = advanced at hFirst hNone hSource hRest ⊢
    obtain ⟨result, at_, place, rest, ahead⟩ := advanced
    obtain ⟨tokens, error⟩ := scan
    subst hFirst hNone
    have hBehind : scanFrom place rest = Scan.drop 1 ⟨tokens, error⟩ := hRest
    cases tokens with
    | cons token left =>
      refine ⟨rfl, hSource, ?_⟩
      simp only [Scan.first, remaining, hBehind]
      rfl
    | nil =>
      cases error with
      | none => exact ⟨rfl, hSource, hRest⟩
      | some bad => exact ⟨rfl, hSource, hRest⟩

/-! ## Requests one after the other -/

/-- What a reader can be asked for. -/
inductive Request where
  | peek | next | endSpan
  deriving DecidableEq

inductive Answer where
  | read (result : Except ParseError (Option Token))
  | place (span : Span)

def ask (reader : Reader) : Request → Answer × Reader
  | .peek => (.read reader.peek.1, reader.peek.2)
  | .next => (.read reader.next.1, reader.next.2)
  | .endSpan => (.place reader.endSpan, reader)

def answers (reader : Reader) : List Request → List Answer
  | [] => []
  | request :: later => (reader.ask request).1 :: (reader.ask request).2.answers later

/-- The reader after some requests. -/
def after (reader : Reader) : List Request → Reader
  | [] => reader
  | request :: later => (reader.ask request).2.after later

/-- The answers to those requests that take a token. -/
def taken (reader : Reader) (requests : List Request) : List Answer :=
  ((requests.zip (reader.answers requests)).filter (·.1 = .next)).map Prod.snd

/-- Only `next` takes a token, and no request changes the text. -/
theorem ask_spec (reader : Reader) (request : Request) :
    (reader.ask request).2.source = reader.source ∧
      (reader.ask request).2.remaining = reader.remaining.drop ([request].count .next) := by
  cases request with
  | peek => exact reader.peek_spec.2
  | next => exact reader.next_spec.2
  | endSpan => exact ⟨rfl, rfl⟩

theorem after_spec (reader : Reader) (requests : List Request) :
    (reader.after requests).source = reader.source ∧
      (reader.after requests).remaining = reader.remaining.drop (requests.count .next) := by
  induction requests generalizing reader with
  | nil => exact ⟨rfl, rfl⟩
  | cons request later ih =>
    obtain ⟨hSource, hRest⟩ := reader.ask_spec request
    obtain ⟨hSource', hRest'⟩ := ih (reader.ask request).2
    refine ⟨hSource'.trans hSource, hRest'.trans ?_⟩
    rw [hRest, Scan.drop_drop, ← List.count_append, List.singleton_append]

/-- Readers with the same in front of them hand out the same tokens, whatever else they are asked. -/
theorem taken_eq (reader other : Reader) (requests : List Request) (h : reader.remaining = other.remaining) :
    reader.taken requests = other.answers (List.replicate (requests.count .next) .next) := by
  induction requests generalizing reader other with
  | nil => rfl
  | cons request later ih =>
    cases request with
    | next =>
      obtain ⟨hFirst, _, hLeft⟩ := reader.next_spec
      obtain ⟨hFirst', _, hLeft'⟩ := other.next_spec
      have hSame : reader.next.1 = other.next.1 := by rw [hFirst, hFirst', h]
      have hLater := ih reader.next.2 other.next.2 (by rw [hLeft, hLeft', h])
      rw [List.count_cons_self]
      change Answer.read reader.next.1 :: reader.next.2.taken later = Answer.read other.next.1 :: _
      rw [hSame, hLater]
      rfl
    | peek => exact ih reader.peek.2 other (reader.peek_spec.2.2.trans h)
    | endSpan => exact ih reader other h

end Reader

/-- Looks do not change what is taken, a look gives what is taken next, and the end of the text stays where it is.
Once a reader has arrived at the end, or at a character that starts no token, it stays there. -/
theorem Source.lookahead_transparent (source : Source) (before : List Reader.Request) :
    let start := Reader.ofSource source
    let reader := start.after before
    start.taken before = start.answers (List.replicate (before.count .next) .next) ∧
    reader.peek.1 = reader.peek.2.next.1 ∧
    reader.endSpan = ⟨source.text.utf8ByteSize, source.text.utf8ByteSize⟩ ∧
    (source.scan.error = none → source.scan.tokens.length ≤ before.count .next →
      reader.peek.1 = .ok none ∧ reader.next.1 = .ok none) ∧
    ∀ result, reader.peek.1 = result ∨ reader.next.1 = result → (∀ token, result ≠ .ok (some token)) →
      ∀ later, (reader.after later).peek.1 = result ∧ (reader.after later).next.1 = result := by
  intro start reader
  obtain ⟨hSource, hRest⟩ := start.after_spec before
  obtain ⟨hPeek, _, hPeeked⟩ := reader.peek_spec
  obtain ⟨hNext, _⟩ := reader.next_spec
  refine ⟨start.taken_eq start before rfl, ?_, ?_, ?_, ?_⟩
  · rw [hPeek, reader.peek.2.next_spec.1, hPeeked]
  · rw [Reader.endSpan, hSource, ← source.size_eq]
    rfl
  · intro hError hTaken
    have hFirst : reader.remaining.first = .ok none := by
      change reader.remaining = source.scan.drop (before.count .next) at hRest
      rw [hRest, Scan.drop, List.drop_eq_nil_of_le hTaken, hError]
      rfl
    exact ⟨hPeek.trans hFirst, hNext.trans hFirst⟩
  · intro result hResult hNone later
    have hFirst : reader.remaining.first = result := by
      rcases hResult with hResult | hResult
      · exact hPeek.symm.trans hResult
      · exact hNext.symm.trans hResult
    have hSame : (reader.after later).remaining = reader.remaining := by
      rw [(reader.after_spec later).2]
      exact Scan.drop_of_first hFirst hNone _
    rw [(reader.after later).peek_spec.1, (reader.after later).next_spec.1, hSame]
    exact ⟨hFirst, hFirst⟩

/-- Behind `a` the reader meets `$`, and again however often it is asked. -/
theorem Source.lookahead_transparent_stuck :
    let reader := (Reader.ofSource { text := "a $" }).after [.peek, .next, .endSpan]
    reader.peek.1 = .error (.badCharacter '$' 2) ∧
      ∀ later, (reader.after later).next.1 = .error (.badCharacter '$' 2) := by
  intro reader
  have hStuck : reader.peek.1 = .error (.badCharacter '$' 2) := by cbv
  obtain ⟨_, _, _, _, hStays⟩ := lookahead_transparent { text := "a $" } [.peek, .next, .endSpan]
  refine ⟨hStuck, fun later => ?_⟩
  exact (hStays _ (.inl hStuck) (fun token hToken => by cases hToken) later).2

end Slate
