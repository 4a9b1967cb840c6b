import Slate.Proofs.Print

/-! # Scanning a text up to a cut

A lexeme is read as far as it goes, which the character behind it decides. So a text can be cut where a gap
ends: whatever goes on there, with the character that was there before or with a newline, the tokens before
the cut are the same.
-/

namespace Slate
set_option autoImplicit false

/-! ## The longest lexeme -/

namespace Lexeme

/-- The characters that would belong to a lexeme if they followed it. -/
def goesOn : Lexeme → Char → Bool
  | .keyword _, c | .identifier _, c => isWordPart c
  | .integer _, c => isDigit c
  | .equals, c | .lessThan, c | .greaterThan, c => c = '='
  | _, _ => false

/-- The lexeme is over where this text starts. -/
def Ends (lexeme : Lexeme) (rest : List Char) : Prop := ∀ c ∈ rest.head?, lexeme.goesOn c = false

theorem goesOn_ofWord (word : String) : (ofWord word).goesOn = isWordPart := by
  rw [ofWord]
  split <;> rfl

theorem ends_newline (lexeme : Lexeme) (rest : List Char) : lexeme.Ends ('\n' :: rest) := by
  rintro c ⟨⟩
  cases lexeme <;> rfl

theorem Ends.congr {lexeme : Lexeme} {rest other : List Char} (h : lexeme.Ends rest)
    (hHead : other.head? = rest.head?) : lexeme.Ends other := by
  rw [Ends, hHead]
  exact h

theorem head?_dropWhile_false (p : Char → Bool) (text : List Char) :
    ∀ c ∈ (text.dropWhile p).head?, p c = false := by
  intro c hc
  have hNot := List.head?_dropWhile_not p text
  rw [Option.mem_def.mp hc] at hNot
  simpa using hNot

theorem ends_of_ne {lexeme : Lexeme} {rest : List Char} (hLexeme : ∀ c, lexeme.goesOn c = decide (c = '='))
    (h : ∀ left, rest = '=' :: left → False) : lexeme.Ends rest := by
  intro c hc
  obtain ⟨left, rfl⟩ := List.head?_eq_some_iff.mp hc
  rw [hLexeme, decide_eq_false_iff_not]
  rintro rfl
  exact h left rfl

theorem ends_of_read? {text rest : List Char} {lexeme : Lexeme} (h : read? text = some (lexeme, rest)) :
    lexeme.Ends rest := by
  unfold read? at h
  split at h
  case h_14 c left _ _ _ _ _ _ _ _ _ _ _ _ _ =>
    split at h
    · cases h
      exact head?_dropWhile_false isDigit left
    · split at h
      · cases h
        rw [Ends, goesOn_ofWord]
        exact head?_dropWhile_false isWordPart left
      · cases h
  case h_11 hNot | h_12 hNot | h_13 hNot =>
    cases h
    exact ends_of_ne (fun _ => rfl) hNot
  all_goals cases h <;> exact fun _ _ => rfl

/-- What a lexeme is read from can be followed by anything that does not belong to it. -/
theorem read?_of_ends {text rest other : List Char} {lexeme : Lexeme} (h : read? text = some (lexeme, rest))
    (hEnds : lexeme.Ends other) : read? (lexeme.text.toList ++ other) = some (lexeme, other) := by
  unfold read? at h
  split at h
  case h_14 c left _ _ _ _ _ _ _ _ _ _ _ _ _ =>
    split at h
    · rename_i hDigit
      cases h
      have hTake : ∀ d ∈ left.takeWhile isDigit, isDigit d = true := fun _ hMem => List.mem_takeWhile_imp hMem
      rw [text, String.toList_ofList, List.cons_append, read?_cons (by simp [isWordPart, hDigit]), if_pos hDigit,
        takeWhile_all_append hTake hEnds, dropWhile_all_append hTake hEnds]
    · rename_i hDigit
      split at h
      · rename_i hStart
        cases h
        have hTake : ∀ d ∈ left.takeWhile isWordPart, isWordPart d = true :=
          fun _ hMem => List.mem_takeWhile_imp hMem
        rw [Ends, goesOn_ofWord] at hEnds
        rw [text_ofWord, String.toList_ofList, List.cons_append, read?_cons (by simp [isWordPart, hStart]),
          if_neg hDigit, if_pos hStart, takeWhile_all_append hTake hEnds, dropWhile_all_append hTake hEnds]
      · cases h
  case h_11 | h_12 | h_13 =>
    cases h
    cases other with
    | nil => rfl
    | cons c left =>
      have hNe : c ≠ '=' := by simpa [goesOn] using hEnds c rfl
      simp [text, read?, hNe]
  all_goals cases h <;> rfl

/-- Whether a text starts with a lexeme is decided by its first character. -/
theorem read?_eq_none_of_head {c : Char} {rest : List Char} (h : read? (c :: rest) = none) (other : List Char) :
    read? (c :: other) = none := by
  unfold read? at h ⊢
  split at h
  case h_14 hText =>
    cases hText
    split <;> grind
  all_goals cases h <;> contradiction

end Lexeme

/-! ## Gaps -/

/-- How a text may go on at a cut: with the character that was there, or with a newline. -/
def GoesOn (behind rest : List Char) : Prop := ∃ c, rest.head? = some c ∧ (behind.head? = some c ∨ c = '\n')

/-- A newline ends a comment, so behind it nothing is left of the gap before it. -/
theorem splitGap_go_newline (inComment : Bool) (rest : List Char) :
    splitGap.go inComment ('\n' :: rest) = splitGap ('\n' :: rest) := by
  cases inComment <;> rfl

/-- A character that goes on no gap, and neither starts one. -/
theorem splitGap_of_not {inComment : Bool} {c : Char}
    (h : ¬(inComment && c != '\n' || c = '#' || isBlank c) = true) (rest : List Char) :
    splitGap.go inComment (c :: rest) = ([], c :: rest) ∧ splitGap (c :: rest) = ([], c :: rest) := by
  have hPlain : ¬(false && c != '\n' || c = '#' || isBlank c) = true := by
    simp only [Bool.or_eq_true, not_or] at h ⊢
    exact ⟨⟨Bool.false_ne_true, h.1.2⟩, h.2⟩
  rw [splitGap, splitGap.go, splitGap.go, if_neg h, if_neg hPlain]
  exact ⟨rfl, rfl⟩

/-- What stands behind a gap decides with its first character that the gap is over. -/
theorem splitGap_go_behind {inComment : Bool} {text behind : List Char} {c : Char}
    (h : (splitGap.go inComment text).2 = c :: behind) (rest : List Char) :
    splitGap (c :: rest) = ([], c :: rest) := by
  induction text generalizing inComment with
  | nil => cases h
  | cons first text ih =>
    rw [splitGap.go] at h
    by_cases hGap : (inComment && first != '\n' || first = '#' || isBlank first) = true
    · rw [if_pos hGap] at h
      exact ih h
    · rw [if_neg hGap] at h
      cases h
      exact (splitGap_of_not hGap rest).2

theorem splitGap_behind (text : List Char) : splitGap (splitGap text).2 = ([], (splitGap text).2) := by
  cases hBehind : (splitGap text).2 with
  | nil => rfl
  | cons c behind => exact splitGap_go_behind hBehind behind

theorem splitGap_go_goesOn (inComment : Bool) (text rest : List Char)
    (h : GoesOn (splitGap.go inComment text).2 rest) :
    splitGap.go inComment ((splitGap.go inComment text).1 ++ rest) =
      ((splitGap.go inComment text).1 ++ (splitGap rest).1, (splitGap rest).2) := by
  induction text generalizing inComment with
  | nil =>
    obtain ⟨c, hHead, hBehind | rfl⟩ := h
    · cases hBehind
    · obtain ⟨left, rfl⟩ := List.head?_eq_some_iff.mp hHead
      exact splitGap_go_newline inComment left
  | cons first text ih =>
    rw [splitGap.go] at h ⊢
    by_cases hGap : (inComment && first != '\n' || first = '#' || isBlank first) = true
    · rw [if_pos hGap] at h ⊢
      simp only [List.cons_append]
      rw [splitGap.go, if_pos hGap]
      simp only [ih _ h]
    · rw [if_neg hGap] at h ⊢
      obtain ⟨c, hHead, hBehind | rfl⟩ := h
      · obtain ⟨left, rfl⟩ := List.head?_eq_some_iff.mp hHead
        cases hBehind
        obtain ⟨hHere, hPlain⟩ := splitGap_of_not hGap left
        rw [List.nil_append, hHere, hPlain]
        rfl
      · obtain ⟨left, rfl⟩ := List.head?_eq_some_iff.mp hHead
        exact splitGap_go_newline inComment left

theorem nextToken_goesOn {text rest : List Char} (place : Nat) (h : GoesOn (splitGap text).2 rest) :
    nextToken place ((splitGap text).1 ++ rest) = nextToken (place + byteLength (splitGap text).1) rest := by
  have hGap : splitGap ((splitGap text).1 ++ rest) = ((splitGap text).1 ++ (splitGap rest).1, (splitGap rest).2) :=
    splitGap_go_goesOn false text rest h
  rw [nextToken, nextToken, hGap]
  simp only [byteLength_append, Nat.add_assoc]

theorem nextToken_behind (place : Nat) (text : List Char) :
    nextToken (place + byteLength (splitGap text).1) (splitGap text).2 = nextToken place text := by
  rw [nextToken, splitGap_behind, nextToken]
  rfl

theorem nextToken_newline (place : Nat) (text : List Char) :
    nextToken place ('\n' :: text) = nextToken (place + 1) text := by
  have hGap : splitGap ('\n' :: text) = ('\n' :: (splitGap text).1, (splitGap text).2) := rfl
  rw [nextToken, nextToken, hGap]
  simp only [byteLength_cons, Nat.add_assoc]
  rfl

section NextToken

variable {place after : Nat} {text rest : List Char} {token : Token} {character : Char}

theorem read?_of_token (h : nextToken place text = .token token after rest) :
    Lexeme.read? (splitGap text).2 = some (token.lexeme, rest) ∧
      token.span = ⟨place + byteLength (splitGap text).1, after⟩ ∧
      after = place + byteLength (splitGap text).1 + byteLength token.lexeme.text.toList := by
  rw [nextToken] at h
  simp only at h
  split at h
  · cases h
  · rename_i hBack
    split at h
    · rename_i hRead
      cases h
      exact ⟨hBack ▸ hRead, rfl, rfl⟩
    · cases h

theorem splitGap_of_finished (h : nextToken place text = .finished) : (splitGap text).2 = [] := by
  rw [nextToken] at h
  simp only at h
  split at h
  · rename_i hBack
    exact hBack
  · split at h <;> cases h

theorem splitGap_of_stuck (h : nextToken place text = .stuck character after rest) :
    after = place + byteLength (splitGap text).1 ∧ (splitGap text).2 = rest ∧ rest.head? = some character ∧
      Lexeme.read? rest = none := by
  rw [nextToken] at h
  simp only at h
  split at h
  · cases h
  · rename_i hBack
    split at h
    · cases h
    · rename_i hRead
      cases h
      exact ⟨rfl, hBack, rfl, hRead⟩

end NextToken

theorem nextToken_of_read? {text rest : List Char} {lexeme : Lexeme} (place : Nat)
    (h : Lexeme.read? text = some (lexeme, rest)) :
    nextToken place text = .token ⟨lexeme, place, place + byteLength lexeme.text.toList⟩
      (place + byteLength lexeme.text.toList) rest := by
  rw [nextToken, Lexeme.splitGap_of_read? h]
  cases text with
  | nil => cases h
  | cons c left =>
    simp only [h]
    rfl

theorem scanFrom_of_stuck {place at_ : Nat} {text rest : List Char} {character : Char}
    (h : nextToken place text = .stuck character at_ rest) :
    scanFrom place text = ⟨[], some (.badCharacter character at_)⟩ := by
  rw [scanFrom]
  split <;> simp_all

theorem scanFrom_congr {place place' : Nat} {text text' : List Char}
    (h : nextToken place text = nextToken place' text') : scanFrom place text = scanFrom place' text' := by
  cases hNext : nextToken place text with
  | token token after rest => rw [scanFrom_of_token hNext, scanFrom_of_token (h.symm.trans hNext)]
  | finished => rw [scanFrom_of_finished hNext, scanFrom_of_finished (h.symm.trans hNext)]
  | stuck character at_ rest => rw [scanFrom_of_stuck hNext, scanFrom_of_stuck (h.symm.trans hNext)]

/-! ## Cuts -/

/-- More tokens in front of a scan. -/
def Scan.behind (front : List Token) (scan : Scan) : Scan := ⟨front ++ scan.tokens, scan.error⟩

/-- Where the first thing of a scan starts: a token, a bad character, or the given end of the text. -/
def Scan.start (scan : Scan) (stop : Nat) : Nat :=
  match scan.tokens, scan.error with
  | token :: _, _ => token.span.start
  | [], some error => error.span.start
  | [], none => stop

theorem start_scanFrom (place : Nat) (text : List Char) :
    (scanFrom place text).start (place + byteLength text) = place + byteLength (splitGap text).1 := by
  cases hNext : nextToken place text with
  | token token after rest =>
    obtain ⟨_, hSpan, _⟩ := read?_of_token hNext
    rw [scanFrom_of_token hNext]
    exact congrArg Span.start hSpan
  | finished =>
    have hText := splitGap_append text
    rw [splitGap_of_finished hNext, List.append_nil] at hText
    rw [scanFrom_of_finished hNext, Scan.start, hText]
  | stuck character at_ rest =>
    obtain ⟨hAt, _⟩ := splitGap_of_stuck hNext
    rw [scanFrom_of_stuck hNext, Scan.start, ← hAt]
    rfl

/-- The step of a cut: a token is the same whatever follows the text behind it. -/
theorem nextToken_cut {place after : Nat} {text before behind rest : List Char} {token : Token}
    (h : nextToken place text = .token token after (before ++ behind)) (hRest : GoesOn behind rest) :
    nextToken place ((splitGap text).1 ++ (token.lexeme.text.toList ++ (before ++ rest))) =
      .token token after (before ++ rest) := by
  obtain ⟨hRead, hSpan, hAfter⟩ := read?_of_token h
  have hText := Lexeme.append_of_read? hRead
  have hEnds : token.lexeme.Ends (before ++ rest) := by
    obtain ⟨c, hHead, hBehind⟩ := hRest
    cases before with
    | cons first more => exact (Lexeme.ends_of_read? hRead).congr rfl
    | nil =>
      rcases hBehind with hBehind | rfl
      · exact (Lexeme.ends_of_read? hRead).congr (hHead.trans hBehind.symm)
      · obtain ⟨left, rfl⟩ := List.head?_eq_some_iff.mp hHead
        exact token.lexeme.ends_newline left
  have hOther := Lexeme.read?_of_ends hRead hEnds
  have hGoesOn : GoesOn (splitGap text).2 (token.lexeme.text.toList ++ (before ++ rest)) := by
    rw [← hText]
    cases hSpelling : token.lexeme.text.toList with
    | nil =>
      rw [hSpelling] at hOther
      exact absurd (Lexeme.read?_length hOther) (Nat.lt_irrefl _)
    | cons first more => exact ⟨first, rfl, .inl rfl⟩
  rw [nextToken_goesOn place hGoesOn, nextToken_of_read? _ hOther, ← hAfter, ← hSpan]

/-- The text can be cut between any two of its tokens, where the gap between them ends. -/
theorem scanFrom_cut {front back : List Token} {place : Nat} {text : List Char}
    (h : (scanFrom place text).tokens = front ++ back) :
    ∃ before behind, text = before ++ behind ∧ splitGap behind = ([], behind) ∧
      scanFrom (place + byteLength before) behind = ⟨back, (scanFrom place text).error⟩ ∧
      ∀ rest, GoesOn behind rest →
        scanFrom place (before ++ rest) = (scanFrom (place + byteLength before) rest).behind front := by
  induction front generalizing place text with
  | nil =>
    refine ⟨(splitGap text).1, (splitGap text).2, (splitGap_append text).symm, splitGap_behind text, ?_,
      fun rest hRest => scanFrom_congr (nextToken_goesOn place hRest)⟩
    rw [scanFrom_congr (nextToken_behind place text), ← List.nil_append back, ← h]
  | cons token front ih =>
    cases hNext : nextToken place text with
    | finished =>
      rw [scanFrom_of_finished hNext] at h
      cases h
    | stuck character at_ rest =>
      rw [scanFrom_of_stuck hNext] at h
      cases h
    | token first after rest =>
      rw [scanFrom_of_token hNext] at h ⊢
      obtain ⟨rfl, hTokens⟩ := List.cons.inj h
      obtain ⟨before, behind, rfl, hBehind, hScan, hCut⟩ := ih hTokens
      obtain ⟨hRead, _, hAfter⟩ := read?_of_token hNext
      have hText : (splitGap text).1 ++ (first.lexeme.text.toList ++ (before ++ behind)) = text := by
        rw [Lexeme.append_of_read? hRead, splitGap_append]
      have hPlace : place + byteLength ((splitGap text).1 ++ (first.lexeme.text.toList ++ before)) =
          after + byteLength before := by
        rw [byteLength_append, byteLength_append, hAfter]
        omega
      refine ⟨(splitGap text).1 ++ (first.lexeme.text.toList ++ before), behind, ?_, hBehind, ?_,
        fun rest hRest => ?_⟩
      · rw [List.append_assoc, List.append_assoc, hText]
      · rw [hPlace, hScan]
      · rw [hPlace, List.append_assoc, List.append_assoc, scanFrom_of_token (nextToken_cut hNext hRest),
          hCut rest hRest]
        rfl

/-- A character that starts no token stops the scan whatever stands behind it. -/
theorem scanFrom_stuck {place : Nat} {text : List Char} {error : ParseError}
    (h : (scanFrom place text).error = some error) :
    ∃ before character behind, text = before ++ character :: behind ∧
      error = .badCharacter character (place + byteLength before) ∧
      ∀ rest, scanFrom place (before ++ character :: rest) = scanFrom place text := by
  have hAll := (List.append_nil (scanFrom place text).tokens).symm
  obtain ⟨before, behind, rfl, hBehind, hScan, hCut⟩ := scanFrom_cut hAll
  rw [h] at hScan
  cases hNext : nextToken (place + byteLength before) behind with
  | token token after rest =>
    rw [scanFrom_of_token hNext] at hScan
    cases hScan
  | finished =>
    rw [scanFrom_of_finished hNext] at hScan
    cases hScan
  | stuck character at_ rest =>
    obtain ⟨hAt, hRest, hHead, hRead⟩ := splitGap_of_stuck hNext
    rw [scanFrom_of_stuck hNext] at hScan
    rw [hBehind] at hAt hRest
    obtain rfl : behind = rest := hRest
    obtain ⟨left, rfl⟩ := List.head?_eq_some_iff.mp hHead
    refine ⟨before, character, left, rfl, ?_, fun rest => ?_⟩
    · have hError := Option.some.inj (congrArg Scan.error hScan)
      rw [← hError, hAt]
      rfl
    · have hStuck : ∀ other, scanFrom (place + byteLength before) (character :: other) =
          ⟨[], some (.badCharacter character (place + byteLength before))⟩ := by
        intro other
        apply scanFrom_of_stuck
        rw [nextToken, splitGap_go_behind (congrArg Prod.snd hBehind) other]
        simp only [Lexeme.read?_eq_none_of_head hRead other]
        rfl
      refine (hCut _ ⟨character, rfl, .inl rfl⟩).trans ?_
      rw [hStuck rest, ← hStuck left]
      exact (hCut _ ⟨character, rfl, .inl rfl⟩).symm

/-! ## Places of tokens -/

theorem byteLength_text_pos {text rest : List Char} {lexeme : Lexeme}
    (h : Lexeme.read? text = some (lexeme, rest)) : 0 < byteLength lexeme.text.toList := by
  have hText := Lexeme.append_of_read? h
  have hShorter := Lexeme.read?_length h
  cases hSpelling : lexeme.text.toList with
  | nil =>
    rw [hSpelling] at hText
    rw [← hText] at hShorter
    exact absurd hShorter (Nat.lt_irrefl _)
  | cons c more =>
    rw [byteLength_cons]
    exact Nat.add_pos_left c.utf8Size_pos _

theorem lt_stop_of_mem_scanFrom {place : Nat} {text : List Char} {token : Token}
    (h : token ∈ (scanFrom place text).tokens) : place < token.span.stop := by
  refine forall_mem_scanFrom (fun at_ _ => place ≤ at_) (fun token => place < token.span.stop) ?_ place text
    (Nat.le_refl _) token h
  intro at_ text token after rest hAt hToken
  obtain ⟨hRead, hSpan, hAfter⟩ := read?_of_token hToken
  have hPositive := byteLength_text_pos hRead
  rw [hSpan]
  change place < after ∧ place ≤ after
  omega

theorem pairwise_stop_scanFrom (place : Nat) (text : List Char) :
    (scanFrom place text).tokens.Pairwise fun first second => first.span.stop < second.span.stop := by
  cases hNext : nextToken place text with
  | token token after rest =>
    have hShorter := nextToken_length hNext
    obtain ⟨_, hSpan, _⟩ := read?_of_token hNext
    rw [scanFrom_of_token hNext]
    refine List.pairwise_cons.mpr ⟨fun other hMem => ?_, pairwise_stop_scanFrom after rest⟩
    rw [hSpan]
    exact lt_stop_of_mem_scanFrom hMem
  | finished =>
    rw [scanFrom_of_finished hNext]
    exact .nil
  | stuck character at_ rest =>
    rw [scanFrom_of_stuck hNext]
    exact .nil
termination_by text.length

end Slate
