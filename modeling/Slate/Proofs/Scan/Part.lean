import Slate.Proofs.Moved
import Slate.Proofs.Scan.Longest

/-! # Parts of a text

What stands from one token of a text to another one is a text by itself, with the tokens in between. Only their
places are counted from its start.
-/

namespace Slate
set_option autoImplicit false

/-- The span reaches from the first of some tokens to the last one. -/
def Spanned (tokens : List Token) (span : Span) : Prop :=
  ∃ first last, tokens.head? = some first ∧ tokens.getLast? = some last ∧ span = first.span.through last.span

/-- A text that starts later has its tokens later. -/
theorem Tokenizes.shift {place : Nat} {text : List Char} {tokens : List Token} {error : Option ParseError}
    (h : Tokenizes place text tokens error) (offset : Nat) :
    Tokenizes (place + offset) text (tokens.map (Token.moved (.shift offset)))
      (error.map fun bad => ⟨bad.cause, (Move.shift offset).place bad.span⟩) := by
  induction h with
  | finished place hGap => exact .finished (place + offset) hGap
  | @stuck gap c place rest hGap hStart =>
    have hStuck := Tokenizes.stuck (place + offset) rest hGap hStart
    rw [Nat.add_right_comm place, Nat.add_right_comm _ offset] at hStuck
    exact hStuck
  | @token gap rest lexeme _ _ place start stop hGap hSpelled hEnds hStart hStop _ ih =>
    refine .token hGap hSpelled hEnds ?_ ?_ ih
    · change start + offset = place + offset + byteLength gap
      omega
    · change stop + offset = start + offset + byteLength lexeme.text.toList
      omega

/-- The gap in front of a token can be left out. -/
theorem Tokenizes.dropGap {place : Nat} {text : List Char} {token : Token} {tokens : List Token}
    {error : Option ParseError} (h : Tokenizes place text (token :: tokens) error) :
    ∃ gap behind, text = gap ++ behind ∧ token.span.start = place + byteLength gap ∧
      Tokenizes token.span.start behind (token :: tokens) error := by
  cases h with
  | @token gap rest lexeme _ _ _ start stop hGap hSpelled hEnds hStart hStop hRest =>
    exact ⟨gap, lexeme.text.toList ++ rest, rfl, hStart, .token .nil hSpelled hEnds rfl hStop hRest⟩

theorem lastStop_of_getLast? {place : Nat} {tokens : List Token} {last : Token} (h : tokens.getLast? = some last) :
    lastStop place tokens = last.span.stop := by
  rw [lastStop, h]
  rfl

namespace Source

variable {source : Source} {front used back : List Token} {span : Span}

/-- The text from the first to the last of some tokens that stand next to each other. -/
theorem exists_part (h : source.scan.tokens = front ++ (used ++ back)) (hSpan : Spanned used span) :
    ∃ before text behind, source.chars = before ++ (text ++ behind) ∧ span.start = byteLength before ∧
      span.stop = span.start + byteLength text ∧ Tokenizes span.start text used none := by
  obtain ⟨first, last, hFirst, hLast, rfl⟩ := hSpan
  obtain ⟨more, rfl⟩ := List.head?_eq_some_iff.mp hFirst
  obtain ⟨before, _, hChars, _, hBehind⟩ := exists_behind h
  rw [List.cons_append] at hBehind
  obtain ⟨gap, _, rfl, hStart, hPart⟩ := hBehind.dropGap
  rw [← List.cons_append] at hPart
  obtain ⟨text, behind, rfl, hStop, hText, _⟩ := hPart.split
  rw [lastStop_of_getLast? hLast] at hStop
  refine ⟨before ++ gap, text, behind, ?_, ?_, hStop, hText⟩
  · rw [hChars, List.append_assoc]
  · rw [byteLength_append]
    exact hStart

theorem within_of_spanned (h : source.scan.tokens = front ++ (used ++ back)) (hSpan : Spanned used span) :
    source.Within span := by
  obtain ⟨before, text, behind, hChars, hStart, hStop, _⟩ := exists_part h hSpan
  exact within_of_part before text behind hChars hStart hStop

/-- By itself, that text has the same tokens, at places that are counted from its start. -/
theorem scan_part (h : source.scan.tokens = front ++ (used ++ back)) (hSpan : Spanned used span) :
    ∃ text, source.slice? span = some text ∧ ∀ origin, ∃ tokens,
      (Source.mk (String.ofList text) origin).scan = ⟨tokens, none⟩ ∧
        tokens.map (Token.moved (.shift span.start)) = used := by
  obtain ⟨before, text, behind, hChars, hStart, hStop, hText⟩ := exists_part h hSpan
  refine ⟨text, slice?_eq before text behind hChars hStart hStop, fun origin => ?_⟩
  have hShifted := (tokenizes_scanFrom 0 text).shift span.start
  rw [Nat.zero_add] at hShifted
  have hSame := hShifted.scanFrom_eq.symm.trans hText.scanFrom_eq
  obtain ⟨hTokens, hError⟩ := Scan.mk.inj hSame
  refine ⟨(scanFrom 0 text).tokens, ?_, hTokens⟩
  rw [Option.map_eq_none_iff] at hError
  rw [scan, chars, String.toList_ofList, ← hError]

end Source

end Slate
