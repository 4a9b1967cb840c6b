import Slate.Proofs.Lowering.Moved
import Slate.Proofs.Parser.Earliest
import Slate.Proofs.Scan.Longest

/-! # Layout has no meaning

Gaps only keep tokens apart. A source that is written with other gaps has the same lexemes, so it is read as the
same program, and that is lowered to the same module.
-/

namespace Slate
set_option autoImplicit false

/-! ## Scanning other gaps -/

/-- No lexeme goes on with what a gap starts with. -/
theorem Lexeme.goesOn_of_gap {c : Char} (h : isBlank c = true ∨ c = '#') (lexeme : Lexeme) :
    lexeme.goesOn c = false := by
  have hCases : c = ' ' ∨ c = '\t' ∨ c = '\n' ∨ c = '\x0c' ∨ c = '\r' ∨ c = '#' := by
    simpa [isBlank, or_assoc] using h
  rcases hCases with rfl | rfl | rfl | rfl | rfl | rfl <;> cases lexeme <;> rfl

theorem Layout.ends {final : Bool} {gap : List Char} (h : Layout final gap) (lexeme : Lexeme) :
    lexeme.Ends gap := by
  cases h with
  | nil =>
    intro c hc
    cases hc
  | blank hBlank _ =>
    rintro c ⟨⟩
    exact lexeme.goesOn_of_gap (.inl hBlank)
  | comment | last =>
    rintro c ⟨⟩
    exact lexeme.goesOn_of_gap (.inr rfl)

theorem Layout.ends_append {final : Bool} {gap : List Char} (h : Layout final gap) (hGap : gap ≠ [])
    (lexeme : Lexeme) (rest : List Char) : lexeme.Ends (gap ++ rest) :=
  (h.ends lexeme).congr (List.head?_append_of_ne_nil gap hGap)

/-- Gaps and texts of tokens in turn, and a last gap. -/
def interleave (pieces : List (List Char × List Char)) (last : List Char) : List Char :=
  pieces.flatMap (fun piece => piece.1 ++ piece.2) ++ last

theorem interleave_cons (gap text : List Char) (pieces : List (List Char × List Char)) (last : List Char) :
    interleave ((gap, text) :: pieces) last = gap ++ (text ++ interleave pieces last) := by
  simp [interleave]

/-- Lexemes that are written with gaps are found again. -/
theorem tokenizes_interleave {pieces : List (List Char × List Char)} {last : List Char} {lexemes : List Lexeme}
    (hTexts : (lexemes.map fun lexeme => some lexeme.text.toList) = pieces.map fun piece => some piece.2)
    (hSpelled : ∀ lexeme ∈ lexemes, lexeme.Spelled) (hGaps : ∀ piece ∈ pieces, Layout false piece.1)
    (hBetween : ∀ piece ∈ pieces.tail, piece.1 ≠ []) (hLast : Layout true last) (place : Nat) :
    ∃ tokens, tokens.map Token.lexeme = lexemes ∧ Tokenizes place (interleave pieces last) tokens none := by
  induction pieces generalizing lexemes place with
  | nil =>
    rw [List.map_nil, List.map_eq_nil_iff] at hTexts
    exact ⟨[], hTexts.symm, .finished place hLast⟩
  | cons piece pieces ih =>
    obtain ⟨gap, text⟩ := piece
    obtain ⟨lexeme, lexemes, rfl, hText, hMore⟩ := List.map_eq_cons_iff.mp hTexts
    obtain rfl : lexeme.text.toList = text := Option.some.inj hText
    rw [List.forall_mem_cons] at hSpelled hGaps
    -- the character behind the lexeme starts a gap
    have hEnds : lexeme.Ends (interleave pieces last) := by
      cases pieces with
      | nil => exact hLast.ends lexeme
      | cons next pieces =>
        obtain ⟨nextGap, nextText⟩ := next
        rw [interleave_cons]
        exact (hGaps.2 _ List.mem_cons_self).ends_append (hBetween _ List.mem_cons_self) _ _
    have hBetween' : ∀ piece ∈ pieces.tail, piece.1 ≠ [] :=
      fun piece hMem => hBetween piece (List.mem_of_mem_tail hMem)
    obtain ⟨tokens, hTokens, hTokenizes⟩ := ih hMore hSpelled.2 hGaps.2 hBetween'
      (place + byteLength gap + byteLength lexeme.text.toList)
    have hToken := Tokenizes.token hGaps.1 hSpelled.1 hEnds rfl rfl hTokenizes
    rw [← interleave_cons] at hToken
    refine ⟨_, ?_, hToken⟩
    rw [List.map_cons, hTokens]

/-! ## Reading and lowering the same lexemes -/

def complaints (events : List Event) : List Complaint := (events.filterMap Event.diagnostic?).map Diagnostic.complaint

theorem complaints_moved (move : Move) (events : List Event) :
    complaints (events.map (Event.moved move)) = complaints events := by
  have hEach : ∀ event : Event, ((event.moved move).diagnostic?).map Diagnostic.complaint =
      event.diagnostic?.map Diagnostic.complaint := by
    intro event
    cases event <;> rfl
  rw [complaints, complaints, List.map_filterMap, List.map_filterMap, List.filterMap_map]
  exact congrArg (fun f => events.filterMap f) (funext hEach)

theorem lowerProgram_of_unplaced {program other : List Item}
    (h : other.map Item.unplaced = program.map Item.unplaced) (module : String) :
    (lowerProgram module other).1 = (lowerProgram module program).1 ∧
      complaints (lowerProgram module other).2 = complaints (lowerProgram module program).2 := by
  rw [← funext Item.moved_together] at h
  have hSame := congrArg (lowerProgram module) h
  rw [lowerProgram_moved, lowerProgram_moved] at hSame
  obtain ⟨hModule, hEvents⟩ := Prod.mk.inj hSame
  refine ⟨hModule, ?_⟩
  rw [← complaints_moved .together, hEvents, complaints_moved]

namespace Source

variable {source other : Source}

theorem parse_of_ended {expected : Expectation} (hItems : Parser.items source.scan.tokens = .error (.ended expected))
    (hError : source.scan.error = none) : source.parse = .error ⟨.unexpectedEnd expected, source.endSpan⟩ := by
  unfold parse
  simp only [hItems, hError]

section Lexemes

variable (hError : source.scan.error = none) (hOther : other.scan.error = none)
  (hLexemes : source.scan.tokens.map Token.lexeme = other.scan.tokens.map Token.lexeme)
include hOther hLexemes

theorem parse_ok_of_lexemes {program : List Item} (h : source.parse = .ok program) :
    ∃ program', other.parse = .ok program' ∧ program'.map Item.unplaced = program.map Item.unplaced := by
  obtain ⟨program', hSame, hItems⟩ := Parser.items_ok_of_lexemes hLexemes (items_of_parse h).1
  exact ⟨program', parse_of_ok hItems hOther, hSame⟩

include hError

theorem parse_error_of_lexemes {error : ParseError} (h : source.parse = .error error) :
    ∃ error', other.parse = .error error' ∧ error'.cause = error.cause := by
  cases hItems : Parser.items source.scan.tokens with
  | ok program =>
    rw [parse_of_ok hItems hError] at h
    cases h
  | error rejection =>
    cases rejection with
    | because bad =>
      rw [parse_of_because hItems] at h
      cases h
      obtain ⟨error', hCause, hItems'⟩ := Parser.items_because_of_lexemes hLexemes hItems
      exact ⟨error', parse_of_because hItems', hCause⟩
    | ended expected =>
      rw [parse_of_ended hItems hError] at h
      cases h
      exact ⟨_, parse_of_ended (Parser.items_ended_of_lexemes hLexemes hItems) hOther, rfl⟩

end Lexemes

/-! ## The same source with other gaps -/

def tokenTexts (source : Source) : List (Option (List Char)) :=
  source.scan.tokens.map fun token => source.slice? token.span

/-- The other source has the texts of the tokens of this one, which is scanned to its end, with the given gaps
before and behind them. The gaps between two tokens are not empty. -/
structure Respaced (source other : Source) (pieces : List (List Char × List Char)) (last : List Char) :
    Prop where
  complete : source.scan.error = none
  texts : source.tokenTexts = pieces.map fun piece => some piece.2
  gaps : ∀ piece ∈ pieces, Layout false piece.1
  between : ∀ piece ∈ pieces.tail, piece.1 ≠ []
  ending : Layout true last
  chars : other.chars = interleave pieces last

/-- The sources have the same tokens, and the same program and module or the same error, up to places. -/
structure SameMeaning (source other : Source) : Prop where
  complete : other.scan.error = none
  lexemes : other.scan.tokens.map Token.lexeme = source.scan.tokens.map Token.lexeme
  texts : other.tokenTexts = source.tokenTexts
  failure : ∀ error, source.parse = .error error →
    ∃ error', other.parse = .error error' ∧ error'.cause = error.cause
  success : ∀ program, source.parse = .ok program →
    ∃ program', other.parse = .ok program' ∧ program'.map Item.unplaced = program.map Item.unplaced ∧
      ∀ module, (lowerProgram module program').1 = (lowerProgram module program).1 ∧
        complaints (lowerProgram module program').2 = complaints (lowerProgram module program).2

theorem slice?_of_mem {token : Token} (h : token ∈ source.scan.tokens) :
    source.slice? token.span = some token.lexeme.text.toList ∧ token.lexeme.Spelled := by
  obtain ⟨front, back, hTokens⟩ := List.append_of_mem h
  have hToken := tokenAt_of_mem hTokens
  exact ⟨hToken.text, hToken.spelled⟩

theorem tokenTexts_eq (source : Source) :
    source.tokenTexts = (source.scan.tokens.map Token.lexeme).map fun lexeme => some lexeme.text.toList := by
  rw [tokenTexts, List.map_map]
  exact List.map_congr_left fun token hMem => (slice?_of_mem hMem).1

theorem Respaced.scan {pieces : List (List Char × List Char)} {last : List Char}
    (h : source.Respaced other pieces last) :
    other.scan.error = none ∧ other.scan.tokens.map Token.lexeme = source.scan.tokens.map Token.lexeme := by
  have hTexts := h.texts
  rw [tokenTexts_eq] at hTexts
  have hSpelled : ∀ lexeme ∈ source.scan.tokens.map Token.lexeme, lexeme.Spelled := by
    rw [List.forall_mem_map]
    exact fun token hMem => (slice?_of_mem hMem).2
  obtain ⟨written, hWritten, hTokenizes⟩ := tokenizes_interleave hTexts hSpelled h.gaps h.between h.ending 0
  have hScan : other.scan = ⟨written, none⟩ := by
    rw [Source.scan, h.chars, hTokenizes.scanFrom_eq]
  rw [hScan]
  exact ⟨rfl, hWritten⟩

/-- What a source means does not depend on the gaps between its tokens. -/
theorem layout_insignificant {pieces : List (List Char × List Char)} {last : List Char}
    (h : source.Respaced other pieces last) : source.SameMeaning other := by
  obtain ⟨hOther, hLexemes⟩ := h.scan
  refine ⟨hOther, hLexemes, ?_, ?_, ?_⟩
  · rw [tokenTexts_eq, tokenTexts_eq, hLexemes]
  · intro error hParse
    exact parse_error_of_lexemes h.complete hOther hLexemes.symm hParse
  · intro program hParse
    obtain ⟨program', hParse', hSame⟩ := parse_ok_of_lexemes hOther hLexemes.symm hParse
    exact ⟨program', hParse', hSame, lowerProgram_of_unplaced hSame⟩

def crowded : Source := { text := "x=-1;f(x)# all" }

def spacious : Source := { text := "#!\nx =\t-\n 1 ; f # call\n( x )\n# end" }

def spaciousPieces : List (List Char × List Char) :=
  [("#!\n".toList, ['x']), ([' '], ['=']), (['\t'], ['-']), (['\n', ' '], ['1']), ([' '], [';']), ([' '], ['f']),
    (" # call\n".toList, ['(']), ([' '], ['x']), ([' '], [')'])]

theorem layout_insignificant_crowded :
    crowded.Respaced spacious spaciousPieces "\n# end".toList ∧ crowded.SameMeaning spacious := by
  have hSpace : Layout false [' '] := .blank rfl .nil
  have hBlanks : Layout false ['\t'] ∧ Layout false ['\n', ' '] := ⟨.blank rfl .nil, .blank rfl hSpace⟩
  have hComments : Layout false "#!\n".toList ∧ Layout false " # call\n".toList :=
    ⟨@Layout.comment _ ['!'] [] (by decide) .nil,
      .blank rfl (@Layout.comment _ " call".toList [] (by decide) .nil)⟩
  have h : crowded.Respaced spacious spaciousPieces "\n# end".toList := by
    refine ⟨by cbv, by cbv, ?_, by decide, .blank rfl (.last rfl (by decide)), by cbv⟩
    simp only [spaciousPieces, List.forall_mem_cons]
    exact ⟨hComments.1, hSpace, hBlanks.1, hBlanks.2, hSpace, hSpace, hComments.2, hSpace, hSpace,
      List.forall_mem_nil _⟩
  exact ⟨h, layout_insignificant h⟩

end Source

end Slate
