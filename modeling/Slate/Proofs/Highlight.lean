import Slate.Proofs.Compiling
import Slate.Proofs.Parser.Earliest
import Slate.Proofs.Render.Text
import Slate.Proofs.Scan.Lookahead

/-! # Rows, columns and highlights

A place of a text stands behind whole lines and the front of another one: the number of the lines gives its row, and
the bytes of the front give its column. A highlight shows the line on which a span starts and marks
what the span has of it. All problems of a text have spans that can be shown so. What a line is, where it
starts and where a place stands on it is said here by the text alone, with the sizes of the library.
-/

namespace Slate
set_option autoImplicit false

open Render (unlines unlines_cons splitOn_unlines)

/-! ## Texts in lines -/

theorem forall_ne_newline {line : List Char} (h : '\n' ∉ line) : ∀ c ∈ line, (c != '\n') = true := by
  intro c hMem
  rw [bne_iff_ne]
  rintro rfl
  exact h hMem

/-- A text is whole lines and the front of another. -/
theorem exists_lines (text : List Char) : ∃ lines last, text = unlines lines ++ last ∧
    (∀ line ∈ lines, '\n' ∉ line) ∧ '\n' ∉ last := by
  induction text with
  | nil => exact ⟨[], [], rfl, List.forall_mem_nil _, List.not_mem_nil⟩
  | cons c rest ih =>
    obtain ⟨lines, last, rfl, hLines, hLast⟩ := ih
    by_cases hEnd : '\n' = c
    · refine ⟨[] :: lines, last, ?_, ?_, hLast⟩
      · rw [unlines_cons, hEnd]
        rfl
      · rw [List.forall_mem_cons]
        exact ⟨List.not_mem_nil, hLines⟩
    · -- the character belongs to the first line, which is the last one if there is no other
      cases lines with
      | nil => exact ⟨[], c :: last, rfl, hLines, by simp [hEnd, hLast]⟩
      | cons first more =>
        rw [List.forall_mem_cons] at hLines
        refine ⟨(c :: first) :: more, last, by simp [unlines_cons], ?_, hLast⟩
        rw [List.forall_mem_cons]
        exact ⟨by simp [hEnd, hLines.1], hLines.2⟩

theorem byteLength_reverse (text : List Char) : byteLength text.reverse = byteLength text := by
  induction text with
  | nil => rfl
  | cons c rest ih =>
    rw [List.reverse_cons, byteLength_append, ih]
    simp [Nat.add_comm]

theorem byteLength_unlines (lines : List (List Char)) :
    byteLength (unlines lines) = (lines.map fun line => byteLength line + 1).sum := by
  induction lines with
  | nil => rfl
  | cons line lines ih =>
    have hEnd : '\n'.utf8Size = 1 := by decide
    simp [unlines_cons, ih, hEnd, Nat.add_assoc]

section Lines

variable {lines : List (List Char)}

/-- What stands behind a newline starts a line of its own. -/
theorem takeWhile_reverse_unlines (lines : List (List Char)) :
    (unlines lines).reverse.takeWhile (· != '\n') = [] := by
  induction lines using List.reverseRecOn with
  | nil => rfl
  | append_singleton lines line _ => simp [unlines]

theorem columnAfter_unlines (lines : List (List Char)) {last : List Char} (hLast : '\n' ∉ last) :
    columnAfter (unlines lines ++ last) = byteLength last + 1 := by
  rw [← List.mem_reverse] at hLast
  rw [columnAfter, List.reverse_append, List.takeWhile_append_of_pos (forall_ne_newline hLast),
    takeWhile_reverse_unlines, List.append_nil, byteLength_reverse]

variable (hLines : ∀ line ∈ lines, '\n' ∉ line)
include hLines

theorem count_unlines : (unlines lines).count '\n' = lines.length := by
  induction lines with
  | nil => rfl
  | cons line lines ih =>
    rw [List.forall_mem_cons] at hLines
    rw [unlines_cons, List.count_append, List.count_cons_self, ih hLines.2, List.count_eq_zero.mpr hLines.1,
      Nat.zero_add, List.length_cons]

theorem rowAfter_unlines {last : List Char} (hLast : '\n' ∉ last) :
    rowAfter (unlines lines ++ last) = lines.length + 1 := by
  rw [rowAfter, List.count_append, count_unlines hLines, List.count_eq_zero.mpr hLast, Nat.add_zero]

theorem skipLines_unlines (rest : List Char) : skipLines lines.length (unlines lines ++ rest) = rest := by
  induction lines with
  | nil => rfl
  | cons line lines ih =>
    rw [List.forall_mem_cons] at hLines
    rw [List.length_cons, skipLines, unlines_cons, List.append_assoc,
      List.dropWhile_append_of_pos (forall_ne_newline hLines.1)]
    exact ih hLines.2

end Lines

/-! ## The first line of a text -/

/-- What stands behind a line: its ending and the rest of the text. A carriage return in front of a newline belongs
to the ending. -/
inductive EndsLine (line : List Char) : List Char → List Char → Prop
  | newline (rest : List Char) : line.getLast? ≠ some '\r' → EndsLine line ['\n'] rest
  | returnAndNewline (rest : List Char) : EndsLine line ['\r', '\n'] rest
  | endOfText : EndsLine line [] []

theorem firstLine_of_newline {line : List Char} (h : '\n' ∉ line) (rest : List Char) :
    firstLine (line ++ '\n' :: rest) = dropReturn line := by
  have hLine : (line ++ '\n' :: rest).takeWhile (· != '\n') = line :=
    takeWhile_all_append (forall_ne_newline h) (by simp)
  simp [firstLine, hLine]

theorem firstLine_of_notMem {text : List Char} (h : '\n' ∉ text) : firstLine text = text := by
  simp [firstLine, h, List.takeWhile_eq_self_iff.mpr (forall_ne_newline h)]

theorem firstLine_spec (text : List Char) : ∃ ending rest, text = firstLine text ++ (ending ++ rest) ∧
    '\n' ∉ firstLine text ∧ EndsLine (firstLine text) ending rest := by
  by_cases hEnd : '\n' ∈ text
  · obtain ⟨line, rest, rfl, hLine⟩ := List.eq_append_cons_of_mem hEnd
    rw [firstLine_of_newline hLine, dropReturn]
    split
    · rename_i hReturn
      obtain ⟨front, rfl⟩ := List.getLast?_eq_some_iff.mp hReturn
      rw [List.dropLast_concat]
      exact ⟨['\r', '\n'], rest, by simp, fun hMem => hLine (List.mem_append_left _ hMem), .returnAndNewline rest⟩
    · rename_i hReturn
      exact ⟨['\n'], rest, rfl, hLine, .newline rest hReturn⟩
  · rw [firstLine_of_notMem hEnd]
    exact ⟨[], [], by simp, hEnd, .endOfText⟩

/-! ## Places of a source -/

/-- Size in bytes. -/
def byteCount (text : List Char) : Nat := (String.ofList text).utf8ByteSize

namespace Source

/-- Where a line starts: behind the lines before it and their newlines. -/
def lineStart (source : Source) (row : Nat) : Nat :=
  (((source.text.toList.splitOn '\n').take (row - 1)).map fun line => byteCount line + 1).sum

/-- The text of a line, without its ending. -/
def Shows (source : Source) (row : Nat) (line : List Char) : Prop :=
  ∃ front ending rest, source.text.toList = front ++ (line ++ (ending ++ rest)) ∧
    byteCount front = source.lineStart row ∧ '\n' ∉ line ∧ EndsLine line ending rest

/-- Where a place stands: on the line of the given number, behind a part of it that reaches up to the column. -/
def Stands (source : Source) (place row column : Nat) : Prop :=
  ∃ lines part rest, source.text.toList = unlines lines ++ (part ++ rest) ∧
    (∀ line ∈ lines, '\n' ∉ line) ∧ '\n' ∉ part ∧ row = lines.length + 1 ∧ column = byteCount part + 1 ∧
    place = byteCount (unlines lines) + byteCount part

/-- The row and the column that are told for a place. -/
def At (source : Source) (place row column : Nat) : Prop :=
  source.row? place = some row ∧ source.column? place = some column

theorem At.unique {source : Source} {place row row' column column' : Nat} (h : source.At place row column)
    (h' : source.At place row' column') : row = row' ∧ column = column' :=
  ⟨Option.some.inj (h.1.symm.trans h'.1), Option.some.inj (h.2.symm.trans h'.2)⟩

/-- A place behind whole lines and the front of another one. -/
structure Cut (source : Source) (place : Nat) (lines : List (List Char)) (last rest : List Char) : Prop where
  chars : source.chars = unlines lines ++ (last ++ rest)
  place : place = byteLength (unlines lines) + byteLength last
  lines : ∀ line ∈ lines, '\n' ∉ line
  last : '\n' ∉ last

variable {source : Source} {place : Nat}

theorem Boundary.exists_cut (h : source.Boundary place) : ∃ lines last rest, source.Cut place lines last rest := by
  obtain ⟨front, rest, hChars, rfl⟩ := h
  obtain ⟨lines, last, rfl, hLines, hLast⟩ := exists_lines front
  rw [List.append_assoc] at hChars
  exact ⟨lines, last, rest, hChars, byteLength_append _ _, hLines, hLast⟩

namespace Cut

variable {lines : List (List Char)} {last rest : List Char} (h : source.Cut place lines last rest)
include h

theorem before? : source.before? place = some (unlines lines ++ last) := by
  rw [h.place, ← byteLength_append]
  exact before?_eq (by rw [h.chars, List.append_assoc])

theorem at_ : source.At place (lines.length + 1) (byteLength last + 1) := by
  constructor
  · rw [row?, h.before?, Option.map_some, rowAfter_unlines h.lines h.last]
  · rw [column?, h.before?, Option.map_some, columnAfter_unlines lines h.last]

theorem stands : source.Stands place (lines.length + 1) (byteLength last + 1) := by
  refine ⟨lines, last, rest, h.chars, h.lines, h.last, rfl, ?_, ?_⟩
  · rw [byteLength_eq_utf8ByteSize, byteCount]
  · rw [h.place, byteLength_eq_utf8ByteSize, byteLength_eq_utf8ByteSize, byteCount, byteCount]

theorem lineStart : source.lineStart (lines.length + 1) = byteLength (unlines lines) := by
  have hChars : source.text.toList = unlines lines ++ (last ++ rest) := h.chars
  rw [Source.lineStart, hChars, splitOn_unlines h.lines, Nat.add_sub_cancel, List.take_left, byteLength_unlines]
  simp only [byteLength_eq_utf8ByteSize, byteCount]

theorem lineStart_add : source.lineStart (lines.length + 1) + (byteLength last + 1) - 1 = place := by
  rw [h.lineStart, h.place]
  omega

theorem shows : source.Shows (lines.length + 1) (source.line (lines.length + 1)) := by
  have hLine : source.line (lines.length + 1) = firstLine (last ++ rest) := by
    rw [Source.line, h.chars, Nat.add_sub_cancel, skipLines_unlines h.lines]
  obtain ⟨ending, behind, hText, hFree, hEnds⟩ := firstLine_spec (last ++ rest)
  rw [hLine]
  refine ⟨unlines lines, ending, behind, ?_, ?_, hFree, hEnds⟩
  · rw [← hText]
    exact h.chars
  · rw [h.lineStart, byteLength_eq_utf8ByteSize, byteCount]

end Cut

/-- The row and the column of a place say where it stands. -/
theorem Boundary.exists_at (h : source.Boundary place) : ∃ row column, source.At place row column ∧
    source.Stands place row column ∧ source.lineStart row + column - 1 = place := by
  obtain ⟨lines, last, rest, hCut⟩ := h.exists_cut
  exact ⟨lines.length + 1, byteLength last + 1, hCut.at_, hCut.stands, hCut.lineStart_add⟩

theorem Stands.one_le {row column : Nat} (h : source.Stands place row column) : 1 ≤ row ∧ 1 ≤ column := by
  obtain ⟨lines, part, rest, -, -, -, rfl, rfl, -⟩ := h
  exact ⟨Nat.le_add_left _ _, Nat.le_add_left _ _⟩

section Order

variable {first second row row' column column' : Nat} (hFirst : source.Boundary first)
  (hSecond : source.Boundary second) (hLess : first < second) (hAt : source.At first row column)
  (hAt' : source.At second row' column')
include hFirst hSecond hLess hAt hAt'

/-- What stands between two places has newlines or not, so rows do not go down. -/
theorem row_le : row ≤ row' := by
  obtain ⟨front, back, hChars, rfl⟩ := hFirst
  obtain ⟨front', back', hChars', rfl⟩ := hSecond
  have hRow := hAt.1
  have hRow' := hAt'.1
  rw [row?, before?_eq hChars] at hRow
  rw [row?, before?_eq hChars'] at hRow'
  cases hRow
  cases hRow'
  rcases List.append_eq_append_iff.mp (hChars.symm.trans hChars') with ⟨middle, rfl, _⟩ | ⟨middle, rfl, _⟩
  · simp only [rowAfter, List.count_append]
    omega
  · rw [byteLength_append] at hLess
    omega

theorem at_lt : row < row' ∨ row = row' ∧ column < column' := by
  have hRows := row_le hFirst hSecond hLess hAt hAt'
  obtain ⟨_, _, hSame, hStands, hPlace⟩ := hFirst.exists_at
  obtain ⟨_, _, hSame', hStands', hPlace'⟩ := hSecond.exists_at
  obtain ⟨rfl, rfl⟩ := hAt.unique hSame
  obtain ⟨rfl, rfl⟩ := hAt'.unique hSame'
  have hColumn := hStands.one_le.2
  have hColumn' := hStands'.one_le.2
  rcases Nat.lt_or_eq_of_le hRows with hLower | rfl
  · exact .inl hLower
  · -- both places are counted from the start of one line
    exact .inr ⟨rfl, by omega⟩

end Order

/-! ## Highlights -/

/-- A highlight shows the line on which a span starts, and under it as many carets as the span has bytes up to the
end of that line, but at least one. -/
def Marks (source : Source) (span : Span) (highlight : Styled) : Prop :=
  ∃ row column line, source.Stands span.start row column ∧ source.Shows row line ∧
    highlight.plain.toList = s!"{row} | ".toList ++ line ++ '\n' ::
      (List.replicate (s!"{row} | ".length + column - 1) ' ' ++
        List.replicate (max 1 (min span.stop (source.lineStart row + byteCount line) - span.start)) '^')

theorem caretCount_eq {start lineStart column : Nat} (stop lineLength : Nat) (hColumn : 1 ≤ column)
    (hStart : lineStart + column - 1 = start) :
    caretCount (stop - start) lineLength column = max 1 (min stop (lineStart + lineLength) - start) := by
  rw [caretCount]
  omega

theorem Boundary.highlight? {span : Span} (h : source.Boundary span.start) :
    ∃ highlight, source.highlight? span = some highlight ∧ source.Marks span highlight := by
  obtain ⟨lines, last, rest, hCut⟩ := h.exists_cut
  have hCarets := caretCount_eq span.stop (byteLength (source.line (lines.length + 1))) (Nat.le_add_left 1 _)
    hCut.lineStart_add
  simp only [Source.highlight?, hCut.at_.1, hCut.at_.2]
  refine ⟨_, rfl, lines.length + 1, byteLength last + 1, _, hCut.stands, hCut.shows, ?_⟩
  rw [byteCount, ← byteLength_eq_utf8ByteSize, ← hCarets, ← Styled.chars_eq]
  simp [Piece.plain, Piece.colored]

/-! ## Problems of a source -/

theorem within_of_stuck {error : ParseError} (h : source.scan.error = some error) : source.Within error.span := by
  obtain ⟨before, behind, hChars, hPlace, hBehind⟩ := exists_behind (List.append_nil source.scan.tokens).symm
  rw [h] at hBehind
  cases hBehind with
  | @stuck gap c place rest hGap hStart =>
    refine within_of_part (before ++ gap) [c] rest (by simp [hChars]) ?_ rfl
    exact (byteLength_append before gap).symm

theorem within_endSpan (source : Source) : source.Within source.endSpan :=
  within_of_part source.chars [] [] (by simp) rfl rfl

theorem within_of_parse_error {error : ParseError} (h : source.parse = .error error) : source.Within error.span := by
  rcases parse_error_cases h with hItems | ⟨_, hError | ⟨_, expected, rfl⟩⟩
  · obtain ⟨front, bad, back, hTokens, hCovers, _⟩ :=
      (Parser.program_reports source.scan.tokens).because error (Parser.program_eq_error.mpr hItems)
    exact within_of_spanned hTokens hCovers.2
  · exact within_of_stuck hError
  · exact within_endSpan source

/-- The row and the column of a place say where it stands, and tell places apart in their order. Spans are marked
on the line on which they start, among them those of all problems of the source. -/
theorem places_exact (source : Source) :
    (∀ place, source.Boundary place → ∃ row column, source.At place row column ∧
      source.Stands place row column ∧ source.lineStart row + column - 1 = place) ∧
    (∀ first second row row' column column', source.Boundary first → source.Boundary second → first < second →
      source.At first row column → source.At second row' column' → row < row' ∨ row = row' ∧ column < column') ∧
    (∀ span, source.Within span →
      ∃ highlight, source.highlight? span = some highlight ∧ source.Marks span highlight) ∧
    (∀ error, source.scan.error = some error ∨ source.parse = .error error → source.Within error.span) ∧
    ∀ program, source.parse = .ok program →
      ∀ problem ∈ (Session.compile source program).diagnostics, source.Within problem.span := by
  refine ⟨fun place h => h.exists_at, fun _ _ _ _ _ _ => at_lt, fun span h => h.boundaries.1.highlight?,
    ?_, fun program hParse problem => within_of_diagnostic hParse⟩
  rintro error (hError | hError)
  · exact within_of_stuck hError
  · exact within_of_parse_error hError

example : ((Source.mk "x = 1\r\ny = é\n" .memory).highlight? ⟨7, 14⟩).map Styled.plain =
    some "2 | y = é\n    ^^^^^^" := by cbv

end Source
end Slate
