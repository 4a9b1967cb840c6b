import Slate.Proofs.Parser.Printed
import Slate.Proofs.Parser.Soundness

/-! # Errors at the earliest token

Reading goes from left to right and looks one token ahead. So what a parsing function gives depends on
the tokens that it took and on the next one, and where it fails, it fails at the first token that
cannot be right: what stands before can be completed, and whatever stands behind, the error is the same.
-/

namespace Slate
set_option autoImplicit false

/-- A token whose place does not matter. -/
def Token.bare (lexeme : Lexeme) : Token := ⟨lexeme, default⟩

/-- Whether an error is one of a token, and not of a character or of the end of the text. -/
def ParseError.Cause.ofToken : ParseError.Cause → Bool
  | .unexpectedCharacter _ | .unexpectedEnd _ => false
  | .unexpectedToken _ _ | .integerOutOfRange _ | .invalidAssignmentTarget => true

namespace Parser

/-- What a parsing function gives, without its measure. -/
abbrev Reading (α : Type) := List Token → Except Rejection (α × List Token)

/-- The tokens in front can be completed: with the given lexemes behind them, reading goes up to any rest that
`stop` admits. -/
def Completes {α : Type} (read : Reading α) (stop : List Token → Prop) (front : List Token) : Prop :=
  ∃ lexemes : List Lexeme, (∀ lexeme ∈ lexemes, lexeme.Spelled) ∧
    ∀ rest, stop rest → ∃ value, read (front ++ (lexemes.map Token.bare ++ rest)) = .ok (value, rest)

/-- The lexemes by themselves are read, up to any rest that `stop` admits. -/
def Opens {α : Type} (lexemes : List Lexeme) (read : Reading α) (stop : List Token → Prop) : Prop :=
  ∀ rest, stop rest → ∃ value, read (lexemes.map Token.bare ++ rest) = .ok (value, rest)

/-- An error about tokens reaches from the first to the last of them. -/
def Covers (error : ParseError) (bad : List Token) : Prop :=
  error.cause.ofToken = true ∧ ∃ first last, bad.head? = some first ∧ bad.getLast? = some last ∧
    error.span = first.span.through last.span

/-- Reading is done as early as possible. A value depends on the tokens that were used and on the next one,
for which any that `stop` admits will do. An error depends on the tokens up to those that it covers, and
those before it can be completed. If the tokens end too early, they can be completed. -/
structure Reports {α : Type} (read : Reading α) (stop : List Token → Prop) (tokens : List Token) :
    Prop where
  ok : ∀ value rest, read tokens = .ok (value, rest) → ∃ used, tokens = used ++ rest ∧
    ∀ other, other.head? = rest.head? ∨ stop other → read (used ++ other) = .ok (value, other)
  because : ∀ error, read tokens = .error (.because error) → ∃ front bad back,
    tokens = front ++ (bad ++ back) ∧ Covers error bad ∧
    (∀ other, read (front ++ (bad ++ other)) = .error (.because error)) ∧ Completes read stop front
  ended : ∀ expected, read tokens = .error (.ended expected) → Completes read stop tokens

/-- One reading after another. -/
def andThen {α β : Type} (read : Reading α) (next : α → Reading β) : Reading β :=
  fun tokens => read tokens >>= fun result => next result.1 result.2

/-- The second reading can be done from nothing, with lexemes at which the first one stops. -/
structure Bridge {α β : Type} (lexemes : List Lexeme) (stop : List Token → Prop) (next : α → Reading β)
    (stop' : List Token → Prop) : Prop where
  spelled : ∀ lexeme ∈ lexemes, lexeme.Spelled
  stops : ∀ rest, stop' rest → stop (lexemes.map Token.bare ++ rest)
  opens : ∀ value, Opens lexemes (next value) stop'

/-- Where every rest will do. -/
def Anything (_ : List Token) : Prop := True

/-- No value comes with more tokens than there were. -/
def Keeps {α : Type} (read : Reading α) : Prop :=
  ∀ tokens value rest, read tokens = .ok (value, rest) → rest.length ≤ tokens.length

/-- Every value takes a token. -/
def Shortens {α : Type} (read : Reading α) : Prop :=
  ∀ tokens value rest, read tokens = .ok (value, rest) → rest.length < tokens.length

/-- A reading of the last part of something: it takes a token, and with the given lexemes it is done whatever
follows. -/
structure Finishes {α : Type} (lexemes : List Lexeme) (read : Reading α) : Prop where
  opens : Opens lexemes read Anything
  shortens : Shortens read

section Rules

variable {α β : Type} {read : Reading α} {next : α → Reading β} {stop stop' : List Token → Prop}
  {tokens rest : List Token} {token : Token}

theorem andThen_of_ok {value : α} (h : read tokens = .ok (value, rest)) :
    andThen read next tokens = next value rest := by
  rw [andThen, h]
  rfl

theorem andThen_of_error {rejection : Rejection} (h : read tokens = .error rejection) :
    andThen read next tokens = .error rejection := by
  rw [andThen, h]
  rfl

theorem andThen_eq_ok {result : β} {left : List Token} (h : andThen read next tokens = .ok (result, left)) :
    ∃ value rest, read tokens = .ok (value, rest) ∧ next value rest = .ok (result, left) := by
  cases hRead : read tokens with
  | error rejection =>
    rw [andThen_of_error hRead] at h
    cases h
  | ok pair =>
    obtain ⟨value, rest⟩ := pair
    rw [andThen_of_ok hRead] at h
    exact ⟨value, rest, rfl, h⟩

theorem Shortens.keeps (h : Shortens read) : Keeps read :=
  fun tokens value rest hRead => Nat.le_of_lt (h tokens value rest hRead)

theorem Keeps.andThen (h : Keeps read) (hNext : ∀ value, Shortens (next value)) :
    Shortens (andThen read next) := by
  intro tokens result left hResult
  obtain ⟨value, rest, hRead, hLeft⟩ := andThen_eq_ok hResult
  have hRest := h tokens value rest hRead
  have hShort := hNext value rest result left hLeft
  omega

theorem Shortens.andThen (h : Shortens read) (hNext : ∀ value, Keeps (next value)) :
    Shortens (andThen read next) := by
  intro tokens result left hResult
  obtain ⟨value, rest, hRead, hLeft⟩ := andThen_eq_ok hResult
  have hRest := h tokens value rest hRead
  have hKept := hNext value rest result left hLeft
  omega

theorem Keeps.map (h : Keeps read) (change : α → β) :
    Keeps (Parser.andThen read fun value rest => .ok (change value, rest)) := by
  intro tokens result left hResult
  obtain ⟨value, rest, hRead, hLeft⟩ := andThen_eq_ok hResult
  cases hLeft
  exact h tokens value left hRead

theorem Shortens.map (h : Shortens read) (change : α → β) :
    Shortens (Parser.andThen read fun value rest => .ok (change value, rest)) := by
  intro tokens result left hResult
  obtain ⟨value, rest, hRead, hLeft⟩ := andThen_eq_ok hResult
  cases hLeft
  exact h tokens value left hRead

theorem Covers.ne_nil {error : ParseError} {bad : List Token} (h : Covers error bad) : bad ≠ [] := by
  rintro rfl
  obtain ⟨_, first, _, hFirst, _⟩ := h
  cases hFirst

theorem Completes.mono {front : List Token} (h : Completes read stop front)
    (hStop : ∀ rest, stop' rest → stop rest) : Completes read stop' front := by
  obtain ⟨lexemes, hSpelled, hRead⟩ := h
  exact ⟨lexemes, hSpelled, fun rest hRest => hRead rest (hStop rest hRest)⟩

/-- Nothing needs to be added. -/
theorem Completes.now {front : List Token}
    (h : ∀ rest, stop rest → ∃ value, read (front ++ rest) = .ok (value, rest)) :
    Completes read stop front := by
  refine ⟨[], ?_, h⟩
  intro lexeme hMem
  cases hMem

theorem Completes.cons {following : Reading α} {front : List Token}
    (hRead : ∀ rest, read (token :: rest) = following rest) (h : Completes following stop front) :
    Completes read stop (token :: front) := by
  obtain ⟨lexemes, hSpelled, hFollowing⟩ := h
  refine ⟨lexemes, hSpelled, fun rest hRest => ?_⟩
  rw [List.cons_append, hRead]
  exact hFollowing rest hRest

/-- Another reading that does the same on everything that starts like this. -/
theorem Completes.congr {other : Reading α} {front : List Token} (hFront : front ≠ [])
    (hRead : ∀ rest, rest.head? = front.head? → read rest = other rest)
    (h : Completes other stop front) : Completes read stop front := by
  obtain ⟨lexemes, hSpelled, hOther⟩ := h
  refine ⟨lexemes, hSpelled, fun rest hRest => ?_⟩
  rw [hRead]
  · exact hOther rest hRest
  · exact List.head?_append_of_ne_nil _ hFront

section Sequence

variable {lexemes : List Lexeme} (hBridge : Bridge lexemes stop next stop')
include hBridge

theorem Completes.andThen {front : List Token} (h : Completes read stop front) :
    Completes (andThen read next) stop' front := by
  obtain ⟨first, hFirst, hRead⟩ := h
  refine ⟨first ++ lexemes, ?_, ?_⟩
  · intro lexeme hMem
    rcases List.mem_append.mp hMem with hMem | hMem
    · exact hFirst lexeme hMem
    · exact hBridge.spelled lexeme hMem
  · intro rest hRest
    obtain ⟨value, hValue⟩ := hRead _ (hBridge.stops rest hRest)
    rw [List.map_append, List.append_assoc, andThen_of_ok hValue]
    exact hBridge.opens value rest hRest

theorem Opens.andThen {first : List Lexeme} (h : Opens first read stop) :
    Opens (first ++ lexemes) (andThen read next) stop' := by
  intro rest hRest
  obtain ⟨value, hValue⟩ := h _ (hBridge.stops rest hRest)
  rw [List.map_append, List.append_assoc, andThen_of_ok hValue]
  exact hBridge.opens value rest hRest

/-- The first reading is done, and what the second one has so far can be completed. -/
theorem Completes.behind {value : α} {used front : List Token}
    (hUsed : ∀ other, other.head? = rest.head? ∨ stop other →
      Parser.andThen read next (used ++ other) = next value other)
    (hFront : front ≠ [] → front.head? = rest.head?) (h : Completes (next value) stop' front) :
    Completes (Parser.andThen read next) stop' (used ++ front) := by
  cases front with
  | nil =>
    refine ⟨lexemes, hBridge.spelled, fun other hOther => ?_⟩
    rw [List.append_nil, hUsed _ (.inr (hBridge.stops other hOther))]
    exact hBridge.opens value other hOther
  | cons first more =>
    obtain ⟨added, hAdded, hRead⟩ := h
    refine ⟨added, hAdded, fun other hOther => ?_⟩
    have hHead : (first :: more ++ (added.map Token.bare ++ other)).head? = rest.head? :=
      hFront (List.cons_ne_nil _ _)
    rw [List.append_assoc, hUsed _ (.inl hHead)]
    exact hRead other hOther

end Sequence

theorem Opens.completes {lexemes : List Lexeme} (h : Opens lexemes read stop)
    (hSpelled : ∀ lexeme ∈ lexemes, lexeme.Spelled) : Completes read stop [] :=
  ⟨lexemes, hSpelled, h⟩

theorem head?_append_of_covers {error : ParseError} {bad : List Token} (h : Covers error bad)
    (front other back : List Token) :
    (front ++ (bad ++ other)).head? = (front ++ (bad ++ back)).head? := by
  have hNonempty := List.append_ne_nil_of_right_ne_nil front h.ne_nil
  rw [← List.append_assoc, ← List.append_assoc, List.head?_append_of_ne_nil _ hNonempty,
    List.head?_append_of_ne_nil _ hNonempty]

namespace Reports

theorem of_ok {value : α} (hRead : read tokens = .ok (value, rest)) (used : List Token)
    (hUsed : tokens = used ++ rest)
    (h : ∀ other, other.head? = rest.head? ∨ stop other → read (used ++ other) = .ok (value, other)) :
    Reports read stop tokens := by
  refine ⟨?_, ?_, ?_⟩
  · intro value' rest' hOk
    rw [hRead] at hOk
    cases hOk
    exact ⟨used, hUsed, h⟩
  · intro error hError
    rw [hRead] at hError
    cases hError
  · intro expected hEnded
    rw [hRead] at hEnded
    cases hEnded

/-- No token is taken, and none before any rest that `stop` admits. -/
theorem idle {value : α} (hHead : ∀ other, other.head? = tokens.head? → read other = .ok (value, other))
    (hStop : ∀ other, stop other → read other = .ok (value, other)) : Reports read stop tokens := by
  refine of_ok (hHead tokens rfl) [] rfl fun other hNext => ?_
  rcases hNext with hNext | hNext
  · exact hHead other hNext
  · exact hStop other hNext

theorem of_because {error : ParseError} (front bad back : List Token)
    (hTokens : tokens = front ++ (bad ++ back)) (hCovers : Covers error bad)
    (hRead : ∀ other, read (front ++ (bad ++ other)) = .error (.because error))
    (hCompletes : Completes read stop front) : Reports read stop tokens := by
  have hHere : read tokens = .error (.because error) := by
    rw [hTokens]
    exact hRead back
  refine ⟨?_, ?_, ?_⟩
  · intro value rest hOk
    rw [hHere] at hOk
    cases hOk
  · intro error' hError
    rw [hHere] at hError
    cases hError
    exact ⟨front, bad, back, hTokens, hCovers, hRead, hCompletes⟩
  · intro expected hEnded
    rw [hHere] at hEnded
    cases hEnded

theorem of_ended {expected : Expectation} (hRead : read tokens = .error (.ended expected))
    (hCompletes : Completes read stop tokens) : Reports read stop tokens := by
  refine ⟨?_, ?_, fun _ _ => hCompletes⟩
  · intro value rest hOk
    rw [hRead] at hOk
    cases hOk
  · intro error hError
    rw [hRead] at hError
    cases hError

/-- A single token is taken. -/
theorem take (value : α) (h : ∀ other, read (token :: other) = .ok (value, other)) :
    Reports read stop (token :: tokens) :=
  of_ok (h tokens) [token] rfl fun other _ => h other

/-- A single token is rejected where another could have stood. -/
theorem reject {cause : ParseError.Cause} (hCause : cause.ofToken = true)
    (h : ∀ other, read (token :: other) = .error (.because ⟨cause, token.span⟩))
    (hCompletes : Completes read stop []) : Reports read stop (token :: tokens) :=
  of_because [] [token] tokens rfl ⟨hCause, token, token, rfl, rfl, rfl⟩ h hCompletes

theorem mono (h : Reports read stop tokens) (hStop : ∀ rest, stop' rest → stop rest) :
    Reports read stop' tokens := by
  refine ⟨?_, ?_, fun expected hEnded => (h.ended expected hEnded).mono hStop⟩
  · intro value rest hOk
    obtain ⟨used, hUsed, hOther⟩ := h.ok value rest hOk
    exact ⟨used, hUsed, fun other hNext => hOther other (hNext.imp_right (hStop other))⟩
  · intro error hError
    obtain ⟨front, bad, back, hTokens, hCovers, hOther, hCompletes⟩ := h.because error hError
    exact ⟨front, bad, back, hTokens, hCovers, hOther, hCompletes.mono hStop⟩

/-- A token is taken first. -/
theorem cons {following : Reading α} (hRead : ∀ rest, read (token :: rest) = following rest)
    (h : Reports following stop tokens) : Reports read stop (token :: tokens) := by
  refine ⟨?_, ?_, ?_⟩
  · intro value rest hOk
    rw [hRead] at hOk
    obtain ⟨used, hUsed, hOther⟩ := h.ok value rest hOk
    refine ⟨token :: used, by rw [hUsed, List.cons_append], fun other hNext => ?_⟩
    rw [List.cons_append, hRead]
    exact hOther other hNext
  · intro error hError
    rw [hRead] at hError
    obtain ⟨front, bad, back, hTokens, hCovers, hOther, hCompletes⟩ := h.because error hError
    refine ⟨token :: front, bad, back, by rw [hTokens, List.cons_append], hCovers, fun other => ?_,
      hCompletes.cons hRead⟩
    rw [List.cons_append, hRead]
    exact hOther other
  · intro expected hEnded
    rw [hRead] at hEnded
    exact (h.ended expected hEnded).cons hRead

/-- A reading that is the same as another on everything that starts with the same token. -/
theorem of_head {other : Reading α} (hRead : ∀ rest, rest.head? = tokens.head? → read rest = other rest)
    (hOpens : Completes read stop []) (hShort : Shortens other) (h : Reports other stop tokens) :
    Reports read stop tokens := by
  refine ⟨?_, ?_, ?_⟩
  · intro value rest hOk
    rw [hRead tokens rfl] at hOk
    obtain ⟨used, hUsed, hOther⟩ := h.ok value rest hOk
    refine ⟨used, hUsed, fun behind hNext => ?_⟩
    cases used with
    | nil =>
      obtain rfl : tokens = rest := hUsed
      exact absurd (hShort tokens value tokens hOk) (Nat.lt_irrefl _)
    | cons first more =>
      rw [hRead _ (by rw [hUsed]; rfl)]
      exact hOther behind hNext
  · intro error hError
    rw [hRead tokens rfl] at hError
    obtain ⟨front, bad, back, hTokens, hCovers, hOther, hCompletes⟩ := h.because error hError
    refine ⟨front, bad, back, hTokens, hCovers, fun behind => ?_, ?_⟩
    · rw [hRead _ (by rw [hTokens, head?_append_of_covers hCovers front behind back])]
      exact hOther behind
    · cases front with
      | nil => exact hOpens
      | cons first more =>
        refine hCompletes.congr (List.cons_ne_nil _ _) fun rest hRest => hRead rest (hRest.trans ?_)
        rw [hTokens]
        rfl
  · intro expected hEnded
    rw [hRead tokens rfl] at hEnded
    have hCompletes := h.ended expected hEnded
    cases tokens with
    | nil => exact hOpens
    | cons first more => exact hCompletes.congr (List.cons_ne_nil _ _) hRead

/-- One reading after another, of which the second takes a token or stops only where the first does. -/
theorem andThen {lexemes : List Lexeme} (hBridge : Bridge lexemes stop next stop')
    (hIdle : (∀ rest, stop' rest → stop rest) ∨ ∀ value, Shortens (next value)) (h : Reports read stop tokens)
    (hNext : ∀ value rest, read tokens = .ok (value, rest) → Reports (next value) stop' rest) :
    Reports (andThen read next) stop' tokens := by
  cases hRead : read tokens with
  | error rejection =>
    cases rejection with
    | because error =>
      obtain ⟨front, bad, back, hTokens, hCovers, hOther, hCompletes⟩ := h.because error hRead
      exact of_because front bad back hTokens hCovers (fun other => andThen_of_error (hOther other))
        (hCompletes.andThen hBridge)
    | ended expected =>
      exact of_ended (andThen_of_error hRead) ((h.ended expected hRead).andThen hBridge)
  | ok pair =>
    obtain ⟨value, rest⟩ := pair
    obtain ⟨used, hTokens, hOther⟩ := h.ok value rest hRead
    have hUsed : ∀ other, other.head? = rest.head? ∨ stop other →
        Parser.andThen read next (used ++ other) = next value other :=
      fun other hHead => andThen_of_ok (hOther other hHead)
    have hHere : Parser.andThen read next tokens = next value rest := andThen_of_ok hRead
    have hSecond := hNext value rest hRead
    cases hResult : next value rest with
    | ok pair =>
      obtain ⟨result, left⟩ := pair
      obtain ⟨more, hRest, hLeft⟩ := hSecond.ok result left hResult
      refine of_ok (hHere.trans hResult) (used ++ more) (by rw [hTokens, hRest, List.append_assoc]) ?_
      intro other hHead
      have hFirst : (more ++ other).head? = rest.head? ∨ stop (more ++ other) := by
        cases more with
        | cons first others =>
          rw [hRest]
          exact .inl rfl
        | nil =>
          obtain rfl : rest = left := hRest
          rcases hHead with hHead | hHead
          · exact .inl hHead
          · rcases hIdle with hIdle | hIdle
            · exact .inr (hIdle other hHead)
            · exact absurd (hIdle value rest result rest hResult) (Nat.lt_irrefl _)
      rw [List.append_assoc, hUsed _ hFirst]
      exact hLeft other hHead
    | error rejection =>
      cases rejection with
      | because error =>
        obtain ⟨front, bad, back, hRest, hCovers, hSame, hCompletes⟩ := hSecond.because error hResult
        refine of_because (used ++ front) bad back (by rw [hTokens, hRest, List.append_assoc]) hCovers ?_ ?_
        · intro other
          rw [List.append_assoc, hUsed _ (.inl ?_)]
          · exact hSame other
          · rw [hRest, head?_append_of_covers hCovers front other back]
        · refine hCompletes.behind hBridge hUsed fun hFront => ?_
          rw [hRest, List.head?_append_of_ne_nil _ hFront]
      | ended expected =>
        refine of_ended (hHere.trans hResult) ?_
        rw [hTokens]
        exact (hSecond.ended expected hResult).behind hBridge hUsed fun _ => rfl

theorem pure (value : α) : Reports (fun tokens => .ok (value, tokens)) stop tokens :=
  idle (fun _ _ => rfl) fun _ _ => rfl

theorem map (change : α → β) (h : Reports read stop tokens) :
    Reports (Parser.andThen read fun value rest => .ok (change value, rest)) stop tokens := by
  have hBridge : Bridge [] stop (fun value rest => .ok (change value, rest)) stop := by
    refine ⟨?_, fun _ hRest => hRest, fun value rest _ => ⟨change value, rfl⟩⟩
    intro lexeme hMem
    cases hMem
  exact Reports.andThen hBridge (.inl fun _ hRest => hRest) h fun value _ _ => pure (change value)

end Reports

/-- The second reading takes nothing where it stops, and stops only where the first one does. -/
theorem Bridge.reports (hBridge : Bridge [] stop next stop') (h : Reports read stop tokens)
    (hNext : ∀ value rest, read tokens = .ok (value, rest) → Reports (next value) stop' rest) :
    Reports (andThen read next) stop' tokens :=
  h.andThen hBridge (.inl hBridge.stops) hNext

namespace Finishes

variable {lexemes : List Lexeme}

theorem map (h : Finishes lexemes read) (change : α → β) :
    Finishes lexemes (Parser.andThen read fun value rest => .ok (change value, rest)) := by
  refine ⟨fun rest hRest => ?_, h.shortens.map change⟩
  obtain ⟨value, hValue⟩ := h.opens rest hRest
  exact ⟨change value, andThen_of_ok hValue⟩

variable (hNext : ∀ value, Finishes lexemes (next value))
  (hStop : ∀ rest, stop (lexemes.map Token.bare ++ rest))
include hNext hStop

/-- Something in front of the last part. -/
theorem behind {first : List Lexeme} (h : Opens first read stop) (hKeeps : Keeps read) :
    Finishes (first ++ lexemes) (andThen read next) := by
  refine ⟨fun rest hRest => ?_, hKeeps.andThen fun value => (hNext value).shortens⟩
  obtain ⟨value, hValue⟩ := h _ (hStop rest)
  rw [List.map_append, List.append_assoc, andThen_of_ok hValue]
  exact (hNext value).opens rest hRest

theorem reports (hSpelled : ∀ lexeme ∈ lexemes, lexeme.Spelled) (h : Reports read stop tokens)
    (hReports : ∀ value rest, read tokens = .ok (value, rest) → Reports (next value) Anything rest) :
    Reports (andThen read next) Anything tokens := by
  have hBridge : Bridge lexemes stop next Anything :=
    ⟨hSpelled, fun rest _ => hStop rest, fun value => (hNext value).opens⟩
  exact h.andThen hBridge (.inr fun value => (hNext value).shortens) hReports

end Finishes
end Rules
end Parser
end Slate
