import Slate.Proofs.Parser.Moved
import Slate.Proofs.Parser.Viable
import Slate.Proofs.Scan.Cut

/-! # Parse errors at the earliest place

A text that cannot be parsed is reported where it first goes wrong. What stands before the error is the start of
some program, and no text that is the same up to the end of the error is a program.
-/

namespace Slate
set_option autoImplicit false

/-- The tokens that end no later than the given place. -/
def Source.tokensThrough (source : Source) (place : Nat) : List Token :=
  source.scan.tokens.takeWhile (·.span.stop ≤ place)

/-- Another text that is the same up to and including what an error is about: in its characters for a bad
character, in its lexemes for bad tokens. Behind the end of a text there is nothing to agree on. -/
def Source.AgreesThrough (source : Source) (error : ParseError) (other : Source) : Prop :=
  match error.cause with
  | .unexpectedCharacter _ => ∀ front back,
    splitAtByte? error.span.stop source.chars = some (front, back) → front <+: other.chars
  | .unexpectedEnd _ => False
  | .unexpectedToken _ _ | .integerOutOfRange _ | .invalidAssignmentTarget =>
    (source.tokensThrough error.span.stop).map Token.lexeme <+: other.scan.tokens.map Token.lexeme

/-! ## What stands before an error -/

namespace Parser

/-- The front of a program, completed by tokens wherever they stand. -/
theorem Completes.items {front : List Token} (h : Completes program (· = []) front) :
    ∃ lexemes : List Lexeme, (∀ lexeme ∈ lexemes, lexeme.Spelled) ∧
      ∀ tokens : List Token, tokens.map Token.lexeme = lexemes → ∃ found, items (front ++ tokens) = .ok found := by
  obtain ⟨lexemes, hSpelled, hRead⟩ := h
  refine ⟨lexemes, hSpelled, fun tokens hTokens => ?_⟩
  obtain ⟨found, hFound⟩ := hRead [] rfl
  have hLexemes : (front ++ (lexemes.map Token.bare ++ [])).map Token.lexeme =
      (front ++ tokens).map Token.lexeme := by
    have hBare : (lexemes.map Token.bare).map Token.lexeme = lexemes := by
      rw [List.map_map]
      exact List.map_id lexemes
    rw [List.append_nil, List.map_append, List.map_append, hBare, hTokens]
  obtain ⟨found', _, hFound'⟩ := items_ok_of_lexemes hLexemes (program_eq_ok.mp hFound).1
  exact ⟨found', hFound'⟩

end Parser

namespace Source

variable {source : Source} {front back : List Token}

theorem parse_of_ok {found : List Item} (hItems : Parser.items source.scan.tokens = .ok found)
    (hError : source.scan.error = none) : source.parse = .ok found := by
  unfold parse
  simp only [hItems, hError]

theorem parse_of_because {error : ParseError}
    (hItems : Parser.items source.scan.tokens = .error (.because error)) : source.parse = .error error := by
  unfold parse
  simp only [hItems]

/-- Where some tokens can be completed, so can the text before what follows them. -/
theorem viable_of_completes (hTokens : source.scan.tokens = front ++ back)
    (h : Parser.Completes Parser.program (· = []) front) :
    ∃ before behind,
      splitAtByte? (Scan.start ⟨back, source.scan.error⟩ source.size) source.chars = some (before, behind) ∧
      ∃ more program, (Source.mk (String.ofList (before ++ '\n' :: more)) source.origin).parse = .ok program := by
  obtain ⟨before, behind, hChars, hBehind, hScan, hCut⟩ := scanFrom_cut hTokens
  obtain ⟨lexemes, hSpelled, hItems⟩ := h.items
  obtain ⟨tokens, hPrinted, hLexemes⟩ := scanFrom_printed (.inl rfl) hSpelled (0 + byteLength before + 1)
  obtain ⟨program, hProgram⟩ := hItems tokens hLexemes
  refine ⟨before, behind, ?_, Print.chars lexemes, program, ?_⟩
  · have hStart := start_scanFrom (0 + byteLength before) behind
    have hSize : 0 + byteLength before + byteLength behind = source.size := by
      rw [size, hChars, byteLength_append, Nat.zero_add]
    rw [hScan, hBehind, hSize] at hStart
    change Scan.start ⟨back, source.scan.error⟩ source.size = 0 + byteLength before + 0 at hStart
    rw [hStart, hChars, Nat.add_zero, Nat.zero_add, splitAtByte?_append]
  · have hNewline : GoesOn behind ('\n' :: Print.chars lexemes) := ⟨'\n', rfl, .inr rfl⟩
    have hText : scanFrom 0 (before ++ '\n' :: Print.chars lexemes) = ⟨front ++ tokens, none⟩ := by
      rw [hCut _ hNewline, scanFrom_congr (nextToken_newline _ _)]
      exact congrArg (Scan.behind front) hPrinted
    have hSource : (Source.mk (String.ofList (before ++ '\n' :: Print.chars lexemes)) source.origin).scan =
        ⟨front ++ tokens, none⟩ := by
      rw [scan, chars, String.toList_ofList, hText]
    exact parse_of_ok (by rw [hSource, hProgram]) (by rw [hSource])

/-- What makes a parse fail: a bad token, or a bad character or the end behind tokens that can be completed. -/
theorem parse_error_cases {error : ParseError} (h : source.parse = .error error) :
    Parser.items source.scan.tokens = .error (.because error) ∨
    Parser.Completes Parser.program (· = []) source.scan.tokens ∧
      (source.scan.error = some error ∨
        source.scan.error = none ∧ ∃ expected, error = ⟨.unexpectedEnd expected, source.endSpan⟩) := by
  have hReports := Parser.program_reports source.scan.tokens
  unfold parse at h
  cases hItems : Parser.items source.scan.tokens with
  | ok found =>
    have hCompletes : Parser.Completes Parser.program (· = []) source.scan.tokens := by
      refine .now ?_
      rintro _ rfl
      exact ⟨found, Parser.program_eq_ok.mpr ⟨by rw [List.append_nil, hItems], rfl⟩⟩
    cases hError : source.scan.error with
    | none =>
      simp only [hItems, hError] at h
      cases h
    | some bad =>
      simp only [hItems, hError] at h
      cases h
      exact .inr ⟨hCompletes, .inl rfl⟩
  | error rejection =>
    cases rejection with
    | because bad =>
      simp only [hItems] at h
      cases h
      exact .inl rfl
    | ended expected =>
      have hCompletes := hReports.ended expected (Parser.program_eq_error.mpr hItems)
      cases hError : source.scan.error with
      | none =>
        simp only [hItems, hError] at h
        cases h
        exact .inr ⟨hCompletes, .inr ⟨rfl, expected, rfl⟩⟩
      | some bad =>
        simp only [hItems, hError] at h
        cases h
        exact .inr ⟨hCompletes, .inl rfl⟩

/-- The text before an error is the start of a program. -/
theorem viable_of_parse_error {error : ParseError} (h : source.parse = .error error) :
    ∃ before behind, splitAtByte? error.span.start source.chars = some (before, behind) ∧
      ∃ more program, (Source.mk (String.ofList (before ++ '\n' :: more)) source.origin).parse = .ok program := by
  rcases parse_error_cases h with hItems | ⟨hCompletes, hEnd⟩
  · obtain ⟨front, bad, back, hTokens, hCovers, _, hCompletes⟩ :=
      (Parser.program_reports source.scan.tokens).because error (Parser.program_eq_error.mpr hItems)
    obtain ⟨_, first, last, hFirst, _, hSpan⟩ := hCovers
    obtain ⟨more, rfl⟩ := List.head?_eq_some_iff.mp hFirst
    have hStart : error.span.start = first.span.start := by rw [hSpan]; rfl
    rw [hStart]
    exact viable_of_completes hTokens hCompletes
  · have hViable := viable_of_completes (List.append_nil _).symm hCompletes
    rcases hEnd with hError | ⟨hError, expected, rfl⟩
    · rw [hError] at hViable
      exact hViable
    · rw [hError] at hViable
      exact hViable

/-! ## What agrees with an error -/

/-- Tokens end one after the other, so those up to the end of one of them are found by their places. -/
theorem tokensThrough_eq {used : List Token} {last : Token} (hTokens : source.scan.tokens = used ++ back)
    (hLast : used.getLast? = some last) : source.tokensThrough last.span.stop = used := by
  obtain ⟨before, rfl⟩ := List.getLast?_eq_some_iff.mp hLast
  have hPairwise : source.scan.tokens.Pairwise fun first second => first.span.stop < second.span.stop :=
    pairwise_stop_scanFrom 0 source.chars
  rw [hTokens, List.pairwise_append, List.pairwise_append] at hPairwise
  obtain ⟨⟨_, _, hBefore⟩, _, hBack⟩ := hPairwise
  have hUsed : ∀ token ∈ before ++ [last], decide (token.span.stop ≤ last.span.stop) = true := by
    intro token hMem
    apply decide_eq_true
    rcases List.mem_append.mp hMem with hMem | hMem
    · exact Nat.le_of_lt (hBefore token hMem last List.mem_cons_self)
    · rw [List.mem_singleton.mp hMem]
  have hNext : ∀ next ∈ back.head?, decide (next.span.stop ≤ last.span.stop) = false := by
    intro next hNext
    have hLater := hBack last (List.mem_append_right _ List.mem_cons_self) next (List.mem_of_mem_head? hNext)
    exact decide_eq_false (Nat.not_le.mpr hLater)
  rw [tokensThrough, hTokens, takeWhile_all_append hUsed hNext]

section Agreement

variable {error : ParseError} {other : Source} (hAgrees : source.AgreesThrough error other)
include hAgrees

theorem AgreesThrough.lexemes (hCause : error.cause.ofToken = true) :
    (source.tokensThrough error.span.stop).map Token.lexeme <+: other.scan.tokens.map Token.lexeme := by
  obtain ⟨cause, span⟩ := error
  cases cause with
  | unexpectedCharacter character => cases hCause
  | unexpectedEnd expected => cases hCause
  | unexpectedToken _ _ | integerOutOfRange _ | invalidAssignmentTarget => exact hAgrees

theorem error_of_bad_token (h : Parser.items source.scan.tokens = .error (.because error)) :
    ∃ error', other.parse = .error error' ∧ error'.cause = error.cause := by
  obtain ⟨front, bad, back, hTokens, ⟨hCause, first, last, _, hLast, hSpan⟩, hSame, _⟩ :=
    (Parser.program_reports source.scan.tokens).because error (Parser.program_eq_error.mpr h)
  rw [← List.append_assoc] at hTokens
  have hThrough : source.tokensThrough error.span.stop = front ++ bad := by
    rw [hSpan]
    refine tokensThrough_eq hTokens ?_
    rw [List.getLast?_append, hLast]
    rfl
  have hPrefix := hAgrees.lexemes hCause
  rw [hThrough] at hPrefix
  obtain ⟨more, hMore⟩ := hPrefix
  obtain ⟨used, rest, hOther, hUsed, _⟩ := List.map_eq_append_iff.mp hMore.symm
  have hItems : Parser.items (front ++ bad ++ rest) = .error (.because error) := by
    rw [List.append_assoc]
    exact Parser.program_eq_error.mp (hSame rest)
  have hLexemes : (front ++ bad ++ rest).map Token.lexeme = other.scan.tokens.map Token.lexeme := by
    rw [hOther, List.map_append, ← hUsed, ← List.map_append]
  obtain ⟨error', hSameCause, hError⟩ := Parser.items_because_of_lexemes hLexemes hItems
  exact ⟨error', parse_of_because hError, hSameCause⟩

theorem error_of_bad_character (hParse : source.parse = .error error) (h : source.scan.error = some error) :
    other.parse = .error error := by
  have hScan : other.scan = source.scan := by
    obtain ⟨before, character, behind, hChars, rfl, hSame⟩ := scanFrom_stuck h
    rw [List.append_cons] at hChars
    have hStop : (ParseError.badCharacter character (0 + byteLength before)).span.stop =
        byteLength (before ++ [character]) := by
      rw [byteLength_append, ParseError.badCharacter, Nat.zero_add]
      rfl
    have hSplit := splitAtByte?_append (before ++ [character]) behind
    rw [← hChars, ← hStop] at hSplit
    obtain ⟨rest, hRest⟩ := hAgrees (before ++ [character]) behind hSplit
    rw [scan, ← hRest, ← List.append_cons]
    exact hSame rest
  unfold parse at hParse ⊢
  rw [hScan]
  cases hItems : Parser.items source.scan.tokens with
  | ok found =>
    simp only [hItems, h] at hParse ⊢
  | error rejection =>
    cases rejection with
    | because bad => simpa only [hItems] using hParse
    | ended expected => simp only [hItems, h]

end Agreement

/-- Where a text does not parse, what stands before the error can be completed, and every text that agrees with
it through the error fails for the same cause. -/
theorem parse_error_earliest {source : Source} {error : ParseError} (h : source.parse = .error error) :
    (∃ before behind, splitAtByte? error.span.start source.chars = some (before, behind) ∧
      ∃ more program, (Source.mk (String.ofList (before ++ '\n' :: more)) source.origin).parse = .ok program) ∧
    ∀ other, source.AgreesThrough error other →
      ∃ error', other.parse = .error error' ∧ error'.cause = error.cause := by
  refine ⟨viable_of_parse_error h, fun other hAgrees => ?_⟩
  rcases parse_error_cases h with hItems | ⟨_, hError | ⟨_, expected, rfl⟩⟩
  · exact error_of_bad_token hAgrees hItems
  · exact ⟨error, error_of_bad_character hAgrees h hError, rfl⟩
  · exact hAgrees.elim

/-- A negative number is wrong only with its digits, so the sign alone is not enough to agree on. -/
def tooSmall : Source := { text := "x = -99999999999 + y" }

/-- The same up to the digits, and no more. -/
def alsoTooSmall : Source := { text := "x=- # below\n99999999999)" }

theorem parse_error_earliest_tooSmall :
    tooSmall.parse = .error ⟨.integerOutOfRange "-99999999999", 4, 16⟩ ∧
    (∃ before behind, splitAtByte? 4 tooSmall.chars = some (before, behind) ∧
      ∃ more program, (Source.mk (String.ofList (before ++ '\n' :: more)) .memory).parse = .ok program) ∧
    ∃ error, alsoTooSmall.parse = .error error ∧ error.cause = .integerOutOfRange "-99999999999" := by
  have hError : tooSmall.parse = .error ⟨.integerOutOfRange "-99999999999", 4, 16⟩ := by cbv
  have hAgrees : tooSmall.AgreesThrough ⟨.integerOutOfRange "-99999999999", 4, 16⟩ alsoTooSmall :=
    ⟨[.closeParen], by cbv⟩
  obtain ⟨hViable, hOther⟩ := parse_error_earliest hError
  exact ⟨hError, hViable, hOther alsoTooSmall hAgrees⟩

end Source
end Slate
