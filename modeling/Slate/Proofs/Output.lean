import Slate.Host
import Slate.Proofs.Parser.Printed
import Slate.Proofs.Render.Text

/-! # The output of a program

Calls of `_puts` share one sink. What it holds behind them is what one write of all their lines would leave there, so
it is cut at one place only. A sink that takes everything can be read back: its lines are the
calls, and the numbers between the blanks of a line are the values of a call.
-/

namespace Slate
set_option autoImplicit false

/-! ## One write for many -/

namespace Sink

variable (sink : Sink)

/-- The sink behind calls of `_puts`. -/
def afterPuts (calls : List (List Word)) : Sink :=
  calls.foldl (fun sink arguments => (standardHost.call "_puts" arguments sink).2) sink

theorem write_empty : (sink.write "").2 = sink := by
  obtain ⟨written, capacity⟩ := sink
  cases capacity <;> simp [write]

/-- What is written in two parts is there as if it had been written at once. -/
theorem write_append (first second : String) :
    (sink.write (first ++ second)).2 = ((sink.write first).2.write second).2 := by
  obtain ⟨written, capacity⟩ := sink
  cases capacity with
  | none => simp [write, String.append_assoc]
  | some room =>
    have hLeft : room - (first.length + second.length) = room - first.length - second.length := by omega
    simp [write, List.take_append, String.append_assoc, String.length_append, String.length_toList, hLeft]

/-- All of a text fits if and only if its last part does, unless there is none. -/
theorem fits_append (first : String) {second : String} (h : 0 < second.length) :
    ((sink.write first).2.write second).1 = (sink.write (first ++ second)).1 := by
  obtain ⟨written, capacity⟩ := sink
  cases capacity with
  | none => rfl
  | some room =>
    simp only [write, String.length_append, decide_eq_decide]
    omega

end Sink

namespace Output

/-! ## Calls and their lines -/

/-- Arguments of `_puts` whose first one is the number of the others. -/
def Counted : List Word → Prop
  | [] => False
  | count :: values => count.toInt = values.length

instance : DecidablePred Counted
  | [] => inferInstanceAs (Decidable False)
  | count :: values => inferInstanceAs (Decidable (count.toInt = values.length))

theorem counted_cons (count : Word) (values : List Word) :
    Counted (count :: values) ↔ count.toInt = values.length :=
  Iff.rfl

/-- The values that calls of `_puts` print: one list for each call that is not rejected. -/
def printed (calls : List (List Word)) : List (List Word) :=
  (calls.filter fun call => decide (Counted call)).map List.tail

/-- Their lines, one behind the other. -/
def printedText (calls : List (List Word)) : String := String.join ((printed calls).map putsLine)

theorem printedText_append (calls others : List (List Word)) :
    printedText (calls ++ others) = printedText calls ++ printedText others := by
  apply String.toList_inj.mp
  simp [printedText, printed, String.toList_join]

theorem printedText_of_counted {arguments : List Word} (h : Counted arguments) :
    printedText [arguments] = putsLine arguments.tail := by
  simp [printedText, printed, h]

theorem printedText_of_not_counted {arguments : List Word} (h : ¬Counted arguments) :
    printedText [arguments] = "" := by
  simp [printedText, printed, h]

theorem length_putsLine_pos (values : List Word) : 0 < (putsLine values).length := by
  have hEnd : "\n".length = 1 := rfl
  rw [putsLine, String.length_append]
  omega

/-- A line without its end. -/
def lineText (values : List Word) : List Char := [' '].intercalate (values.map fun value => value.text.toList)

theorem putsLine_eq (values : List Word) : (putsLine values).toList = lineText values ++ ['\n'] := by
  simp [putsLine, String.toList_intercalate, lineText, Function.comp_def]

/-! ## One call and many -/

variable {arguments : List Word} (sink : Sink)

theorem call_of_not_counted (h : ¬Counted arguments) : ∃ expected found,
    standardHost.call "_puts" arguments sink = (.error (.argumentCountMismatch "_puts" expected found), sink) := by
  change ∃ expected found, puts Sink.write arguments sink = _
  cases arguments with
  | nil => exact ⟨1, 0, rfl⟩
  | cons count values =>
    refine ⟨count.toInt.toNat + 1, (count :: values).length, ?_⟩
    rw [counted_cons] at h
    rw [puts, if_neg h]

theorem call_of_counted (h : Counted arguments) : standardHost.call "_puts" arguments sink =
    (if (sink.write (putsLine arguments.tail)).1 = true then .ok none else .error .output,
      (sink.write (putsLine arguments.tail)).2) := by
  change puts Sink.write arguments sink = _
  cases arguments with
  | nil => exact h.elim
  | cons count values =>
    rw [counted_cons] at h
    rw [puts, if_pos h, List.tail_cons]

/-- The step: a call leaves what its line leaves. -/
theorem call_sink (arguments : List Word) :
    (standardHost.call "_puts" arguments sink).2 = (sink.write (printedText [arguments])).2 := by
  by_cases h : Counted arguments
  · rw [call_of_counted sink h, printedText_of_counted h]
  · obtain ⟨expected, found, hCall⟩ := call_of_not_counted sink h
    rw [hCall, printedText_of_not_counted h, Sink.write_empty]

/-- The run: calls leave what all their lines leave. -/
theorem afterPuts_eq (calls : List (List Word)) : sink.afterPuts calls = (sink.write (printedText calls)).2 := by
  induction calls generalizing sink with
  | nil => exact (Sink.write_empty sink).symm
  | cons arguments rest ih =>
    change ((standardHost.call "_puts" arguments sink).2).afterPuts rest = _
    rw [ih, call_sink, ← Sink.write_append, ← printedText_append, List.singleton_append]

/-! ## Bytes -/

/-- The bytes of a text in UTF-8. -/
def bytes (text : String) : List UInt8 := text.toUTF8.data.toList

theorem bytes_ofList (chars : List Char) : bytes (String.ofList chars) = chars.flatMap String.utf8EncodeChar := by
  simp [bytes, String.toUTF8, String.toByteArray_ofList, List.utf8Encode]

/-- A text in which each character takes one byte. -/
def Ascii (text : List Char) : Prop := ∀ c ∈ text, c.utf8Size = 1

theorem Ascii.bytes_eq {text : List Char} (h : Ascii text) :
    bytes (String.ofList text) = text.map fun c => c.val.toUInt8 := by
  rw [bytes_ofList]
  induction text with
  | nil => rfl
  | cons c rest ih =>
    rw [Ascii, List.forall_mem_cons] at h
    rw [List.flatMap_cons, String.utf8EncodeChar_eq_singleton h.1, ih h.2]
    rfl

theorem Ascii.bytes_take {text : List Char} (h : Ascii text) (room : Nat) :
    bytes (String.ofList (text.take room)) = (bytes (String.ofList text)).take room := by
  have hTake : Ascii (text.take room) := fun c hMem => h c (List.mem_of_mem_take hMem)
  rw [h.bytes_eq, hTake.bytes_eq, List.map_take]

theorem utf8Size_solid {c : Char} (h : Render.isSolid c = true) : c.utf8Size = 1 := by
  rw [Char.utf8Size_eq_one_iff, UInt32.le_iff_toNat_le]
  simp only [Render.isSolid, isWordPart, isWordStart, isLetter, isDigit, Char.le_def, Bool.or_eq_true,
    Bool.and_eq_true, decide_eq_true_eq, List.contains_iff_mem, List.mem_cons, List.not_mem_nil, or_false,
    UInt32.le_iff_toNat_le] at h
  rcases h with (((hLower | hUpper) | rfl) | hDigit) | hMark
  · exact hLower.2.trans (by decide)
  · exact hUpper.2.trans (by decide)
  · decide
  · exact hDigit.2.trans (by decide)
  · rcases hMark with rfl | rfl | rfl | rfl | rfl <;> decide

/-- Solid words with blanks between them. -/
theorem lineText_cases (values : List Word) {c : Char} (h : c ∈ lineText values) :
    Render.isSolid c = true ∨ c = ' ' := by
  induction values with
  | nil => cases h
  | cons first rest ih =>
    cases rest with
    | nil => exact .inl (Render.solid_word first c (by simpa [lineText] using h))
    | cons second rest =>
      simp only [lineText, List.map_cons, List.intercalate_cons_cons, List.mem_append] at h ih
      rcases h with (hFirst | hBlank) | hRest
      · exact .inl (Render.solid_word first c hFirst)
      · exact .inr (List.mem_singleton.mp hBlank)
      · exact ih hRest

theorem printedText_eq (calls : List (List Word)) :
    (printedText calls).toList = Render.unlines ((printed calls).map lineText) := by
  simp [printedText, String.toList_join, Render.unlines, List.flatMap_map, putsLine_eq]

theorem ascii_printedText (calls : List (List Word)) : Ascii (printedText calls).toList := by
  intro c hMem
  rw [printedText_eq, Render.unlines, List.flatMap_map, List.mem_flatMap] at hMem
  obtain ⟨values, _, hLine⟩ := hMem
  rcases List.mem_append.mp hLine with hText | hEnd
  · rcases lineText_cases values hText with hSolid | rfl
    · exact utf8Size_solid hSolid
    · decide
  · rw [List.mem_singleton.mp hEnd]
    decide

/-! ## Reading back -/

/-- A word in decimal. -/
def readWord? (text : List Char) : Option Word := (String.ofList text).toInt?.bind Word.ofInt?

/-- The words between the blanks of a line. -/
def readLine? (line : List Char) : Option (List Word) :=
  if line = [] then some [] else (line.splitOn ' ').mapM readWord?

/-- The lines of an output, each of which ends with a newline. -/
def readOutput? (text : String) : Option (List (List Word)) := (text.toList.splitOn '\n').dropLast.mapM readLine?

theorem readWord?_text (word : Word) : readWord? word.text.toList = some word := by
  change (String.ofList word.toInt.repr.toList).toInt?.bind Word.ofInt? = some word
  rw [String.ofList_toList, Int.toInt?_repr]
  exact Parser.ofInt?_toInt word

theorem readLine?_lineText (values : List Word) : readLine? (lineText values) = some values := by
  cases values with
  | nil => rfl
  | cons first rest =>
    -- a line with words is not empty, and blanks stand only between them
    have hWords : (lineText (first :: rest)).splitOn ' ' = (first :: rest).map fun value => value.text.toList := by
      refine List.splitOn_intercalate ' ' (fun text hText => ?_) (by simp)
      obtain ⟨value, _, rfl⟩ := List.mem_map.mp hText
      exact (Render.solid_word value).notMem rfl
    have hText : lineText (first :: rest) ≠ [] := by
      intro hNil
      rw [hNil, List.splitOn_nil, List.map_cons] at hWords
      obtain ⟨c, more, hWord, -⟩ := Render.word_text first
      cases (List.cons.inj hWords).1.trans hWord
    rw [readLine?, if_neg hText, hWords]
    exact mapM_map_eq_some fun value _ => readWord?_text value

theorem readOutput?_printedText (calls : List (List Word)) :
    readOutput? (printedText calls) = some (printed calls) := by
  have hLines : ∀ line ∈ (printed calls).map lineText, '\n' ∉ line := by
    intro line hLine hEnd
    obtain ⟨values, _, rfl⟩ := List.mem_map.mp hLine
    rcases lineText_cases values hEnd with hSolid | hBlank
    · cases hSolid
    · cases hBlank
  rw [readOutput?, printedText_eq, ← List.append_nil (Render.unlines _), Render.splitOn_unlines hLines,
    List.splitOn_nil, List.dropLast_concat]
  exact mapM_map_eq_some fun values _ => readLine?_lineText values

/-! ## Calls on one sink -/

/-- A call of `_puts` behind others, on a sink that had the given capacity. -/
def putsAfter (capacity : Option Nat) (calls : List (List Word)) (arguments : List Word) :
    Except ExecutionError (Option Word) × Sink :=
  standardHost.call "_puts" arguments (Sink.afterPuts { capacity } calls)

theorem bytes_printedText (calls : List (List Word)) :
    (bytes (printedText calls)).length = (printedText calls).length := by
  have hBytes := (ascii_printedText calls).bytes_eq
  rw [String.ofList_toList] at hBytes
  rw [hBytes, List.length_map, String.length_toList]

section Answers

variable (capacity : Option Nat) (calls : List (List Word))

theorem written_afterPuts : bytes (Sink.afterPuts { capacity } calls).written =
    capacity.elim (bytes (printedText calls)) fun room => (bytes (printedText calls)).take room := by
  rw [afterPuts_eq]
  cases capacity with
  | none => simp [Sink.write]
  | some room =>
    have hTake := (ascii_printedText calls).bytes_take room
    rw [String.ofList_toList] at hTake
    simpa [Sink.write] using hTake

/-- A call that is not rejected succeeds where all lines up to its own fit. -/
theorem putsAfter_of_counted (h : Counted arguments) : (putsAfter capacity calls arguments).1 =
    if ∀ room ∈ capacity, (bytes (printedText (calls ++ [arguments]))).length ≤ room then .ok none
    else .error .output := by
  have hFits : ((Sink.afterPuts { capacity } calls).write (putsLine arguments.tail)).1 = true ↔
      ∀ room ∈ capacity, (bytes (printedText (calls ++ [arguments]))).length ≤ room := by
    rw [afterPuts_eq, Sink.fits_append _ _ (length_putsLine_pos _), ← printedText_of_counted h, ← printedText_append,
      bytes_printedText]
    cases capacity <;> simp [Sink.write]
  rw [putsAfter, call_of_counted _ h]
  simp only [hFits]

theorem rejected_iff : (∃ expected found, putsAfter capacity calls arguments =
      (.error (.argumentCountMismatch "_puts" expected found), Sink.afterPuts { capacity } calls)) ↔
    ¬Counted arguments := by
  constructor
  · rintro ⟨expected, found, hCall⟩ h
    have hAnswer := putsAfter_of_counted capacity calls h
    rw [hCall] at hAnswer
    split at hAnswer <;> cases hAnswer
  · intro h
    exact call_of_not_counted (Sink.afterPuts { capacity } calls) h

theorem ok_iff : (putsAfter capacity calls arguments).1 = .ok none ↔
    Counted arguments ∧ ∀ room ∈ capacity, (bytes (printedText (calls ++ [arguments]))).length ≤ room := by
  by_cases h : Counted arguments
  · rw [putsAfter_of_counted capacity calls h]
    simp [h]
  · obtain ⟨expected, found, hCall⟩ := (rejected_iff capacity calls).mpr h
    simp [hCall, h]

theorem output_iff : (putsAfter capacity calls arguments).1 = .error .output ↔
    Counted arguments ∧ ∃ room ∈ capacity, room < (bytes (printedText (calls ++ [arguments]))).length := by
  by_cases h : Counted arguments
  · rw [putsAfter_of_counted capacity calls h]
    simp [h]
  · obtain ⟨expected, found, hCall⟩ := (rejected_iff capacity calls).mpr h
    simp [hCall, h]

end Answers

/-- Calls of `_puts` on one sink: which of them are rejected, which do not fit, which bytes are taken, and that
without a limit they can be read back. -/
theorem puts_exact (capacity : Option Nat) (calls : List (List Word)) :
    (∀ arguments,
      ((∃ expected found, putsAfter capacity calls arguments =
        (.error (.argumentCountMismatch "_puts" expected found), Sink.afterPuts { capacity } calls)) ↔
        ¬Counted arguments) ∧
      ((putsAfter capacity calls arguments).1 = .error .output ↔
        Counted arguments ∧ ∃ room ∈ capacity, room < (bytes (printedText (calls ++ [arguments]))).length) ∧
      ((putsAfter capacity calls arguments).1 = .ok none ↔
        Counted arguments ∧ ∀ room ∈ capacity, (bytes (printedText (calls ++ [arguments]))).length ≤ room)) ∧
    bytes (Sink.afterPuts { capacity } calls).written = capacity.elim (bytes (printedText calls)) (fun room =>
      (bytes (printedText calls)).take (min room (bytes (printedText calls)).length)) ∧
    readOutput? (Sink.afterPuts {} calls).written = some (printed calls) := by
  refine ⟨fun _ => ⟨rejected_iff capacity calls, output_iff capacity calls, ok_iff capacity calls⟩, ?_, ?_⟩
  · rw [written_afterPuts]
    cases capacity with
    | none => rfl
    | some room => exact List.take_eq_take_min
  · have hWritten : (Sink.write {} (printedText calls)).2.written = printedText calls := String.empty_append
    rw [afterPuts_eq, hWritten, readOutput?_printedText]

example : (Sink.afterPuts { capacity := some 5 } [[2, 10, -3], [1], [0]]).written = "10 -3" := by cbv

end Output
end Slate
