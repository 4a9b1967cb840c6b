import Mathlib
import Slate.Token

/-! # What scanning takes from a text

A token is the gap before it and its own spelling, taken off the front of the text, and the digits of an
integer are digits. Places of a text are those between two characters.
-/

namespace Slate
set_option autoImplicit false

theorem splitGap_go_append (inComment : Bool) (text : List Char) :
    (splitGap.go inComment text).1 ++ (splitGap.go inComment text).2 = text := by
  induction text generalizing inComment with
  | nil => rfl
  | cons c rest ih =>
    rw [splitGap.go]
    split
    · simp [ih]
    · simp

theorem splitGap_append (text : List Char) : (splitGap text).1 ++ (splitGap text).2 = text :=
  splitGap_go_append false text

theorem Keyword.text_of_ofText? {word : String} {keyword : Keyword} (h : ofText? word = some keyword) :
    keyword.text = word := by
  have hFound := List.find?_some h
  simpa using hFound

namespace Lexeme

theorem text_ofWord (word : String) : (ofWord word).text = word := by
  rw [ofWord]
  split
  · rename_i keyword hKeyword
    exact Keyword.text_of_ofText? hKeyword
  · rfl

theorem ofWord_ne_integer (word digits : String) : ofWord word ≠ .integer digits := by
  rw [ofWord]
  split <;> exact nofun

/-- A lexeme is read off the front of a text. -/
theorem append_of_read? {text rest : List Char} {lexeme : Lexeme}
    (h : read? text = some (lexeme, rest)) : lexeme.text.toList ++ rest = text := by
  unfold read? at h
  split at h
  case h_14 c left _ _ _ _ _ _ _ _ _ _ _ _ _ =>
    split at h
    · cases h
      simp [text, String.toList_ofList]
    · split at h
      · cases h
        simp [text_ofWord, String.toList_ofList]
      · cases h
  all_goals cases h <;> rfl

theorem digits_of_read? {text rest : List Char} {digits : String}
    (h : read? text = some (.integer digits, rest)) :
    digits.toList ≠ [] ∧ ∀ c ∈ digits.toList, isDigit c = true := by
  unfold read? at h
  split at h
  case h_14 c left _ _ _ _ _ _ _ _ _ _ _ _ _ =>
    split at h
    · rename_i hDigit
      cases h
      rw [String.toList_ofList]
      refine ⟨List.cons_ne_nil _ _, fun d hMem => ?_⟩
      rcases List.mem_cons.mp hMem with rfl | hMem
      · exact hDigit
      · exact List.mem_takeWhile_imp hMem
    · split at h
      · exact absurd (congrArg Prod.fst (Option.some.inj h)) (ofWord_ne_integer _ _)
      · cases h
  all_goals cases h

end Lexeme

/-- What a token is made of. -/
theorem nextToken_eq {place after : Nat} {text rest : List Char} {token : Token}
    (h : nextToken place text = .token token after rest) :
    ∃ gap, text = gap ++ (token.lexeme.text.toList ++ rest) ∧
      token.span = ⟨place + byteLength gap, after⟩ ∧
      after = place + byteLength gap + byteLength token.lexeme.text.toList ∧
      Lexeme.read? (token.lexeme.text.toList ++ rest) = some (token.lexeme, rest) := by
  have hGap := splitGap_append text
  rw [nextToken] at h
  simp only at h
  split at h
  · cases h
  · rename_i c back hBack
    split at h
    · rename_i lexeme behind hRead
      cases h
      have hText := Lexeme.append_of_read? hRead
      refine ⟨(splitGap text).1, ?_, rfl, rfl, ?_⟩
      · rw [hText, ← hBack, hGap]
      · rw [hText, hRead]
    · cases h

/-- The step and run lemma of scanning: what every token has, given what holds of the text before it. -/
theorem forall_mem_scanFrom (invariant : Nat → List Char → Prop) (property : Token → Prop)
    (hStep : ∀ place text token after rest, invariant place text →
      nextToken place text = .token token after rest → property token ∧ invariant after rest)
    (place : Nat) (text : List Char) (hText : invariant place text) :
    ∀ token ∈ (scanFrom place text).tokens, property token := by
  intro token hMem
  rw [scanFrom] at hMem
  split at hMem
  · rename_i first after rest hFirst
    have hShorter := nextToken_length hFirst
    obtain ⟨hProperty, hRest⟩ := hStep place text first after rest hText hFirst
    rcases List.mem_cons.mp hMem with rfl | hMem
    · exact hProperty
    · exact forall_mem_scanFrom invariant property hStep after rest hRest token hMem
  · cases hMem
  · cases hMem
termination_by text.length

theorem digits_of_mem_scan {source : Source} {digits : String} {span : Span}
    (h : ⟨.integer digits, span⟩ ∈ source.scan.tokens) :
    digits.toList ≠ [] ∧ ∀ c ∈ digits.toList, isDigit c = true := by
  refine forall_mem_scanFrom (fun _ _ => True)
    (fun token => ∀ digits, token.lexeme = .integer digits →
      digits.toList ≠ [] ∧ ∀ c ∈ digits.toList, isDigit c = true)
    ?_ 0 source.chars trivial _ h digits rfl
  intro place text token after rest _ hToken
  obtain ⟨gap, _, _, _, hRead⟩ := nextToken_eq hToken
  refine ⟨fun digits hLexeme => ?_, trivial⟩
  rw [hLexeme] at hRead
  exact Lexeme.digits_of_read? hRead

/-! ## Places between characters -/

/-- A place of a source that no character lies across. -/
def Source.Boundary (source : Source) (place : Nat) : Prop :=
  ∃ front back, source.chars = front ++ back ∧ place = byteLength front

theorem splitAtByte?_append (front back : List Char) :
    splitAtByte? (byteLength front) (front ++ back) = some (front, back) := by
  induction front with
  | nil => simp [splitAtByte?]
  | cons c rest ih =>
    have hSize : 0 < c.utf8Size := c.utf8Size_pos
    obtain ⟨n, hn⟩ : ∃ n, byteLength (c :: rest) = n + 1 := ⟨byteLength (c :: rest) - 1, by
      rw [byteLength_cons]
      omega⟩
    have hRest : n + 1 - c.utf8Size = byteLength rest := by
      rw [byteLength_cons] at hn
      omega
    rw [hn, List.cons_append, splitAtByte?, if_pos (by rw [byteLength_cons] at hn; omega), hRest, ih]
    rfl

namespace Source

/-- A span whose ends are in order and between characters. -/
structure Within (source : Source) (span : Span) : Prop where
  ordered : span.start ≤ span.stop
  inside : span.stop ≤ source.size
  boundaries : source.Boundary span.start ∧ source.Boundary span.stop

theorem within_of_part {source : Source} {span : Span} (front middle back : List Char)
    (h : source.chars = front ++ (middle ++ back)) (hStart : span.start = byteLength front)
    (hStop : span.stop = span.start + byteLength middle) : source.Within span := by
  have hEnd : byteLength (front ++ middle) = span.stop := by rw [byteLength_append, hStop, hStart]
  refine ⟨by omega, ?_, ⟨front, middle ++ back, h, hStart⟩, ⟨front ++ middle, back, ?_, hEnd.symm⟩⟩
  · rw [size, h, byteLength_append, byteLength_append]
    omega
  · rw [h, List.append_assoc]

variable {source : Source}

theorem before?_eq {front back : List Char} (h : source.chars = front ++ back) :
    source.before? (byteLength front) = some front := by
  have hSize : byteLength front ≤ source.size := by
    rw [size, h, byteLength_append]
    omega
  rw [before?, Nat.min_eq_left hSize, h, splitAtByte?_append]
  rfl

theorem Boundary.isSome_before? {place : Nat} (h : source.Boundary place) :
    (source.before? place).isSome = true := by
  obtain ⟨front, back, hChars, rfl⟩ := h
  rw [before?_eq hChars]
  rfl

end Source
end Slate
