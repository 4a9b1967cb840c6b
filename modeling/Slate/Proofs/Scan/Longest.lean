import Slate.Proofs.Scan.Layout
import Slate.Proofs.Scan.Lookahead

/-! # The longest match

A text is cut into gaps and lexemes in one way only, if every lexeme goes on as far as it can. Scanning finds that
way.
-/

namespace Slate
set_option autoImplicit false

/-- The first characters of the lexemes that are neither words nor integers. -/
def isSymbol (c : Char) : Bool := "();,+-*=<>".toList.contains c

/-- A gap or a lexeme can start with this character. -/
def canStart (c : Char) : Bool := isBlank c || c = '#' || isDigit c || isWordStart c || isSymbol c

/-- A text from the given place on is cut into gaps and lexemes, each as long as possible, up to its end or to a
character that starts neither. -/
inductive Tokenizes : Nat → List Char → List Token → Option ParseError → Prop
  | finished {gap : List Char} (place : Nat) : Layout true gap → Tokenizes place gap [] none
  | stuck {gap : List Char} {c : Char} (place : Nat) (rest : List Char) :
    Layout false gap → canStart c = false →
      Tokenizes place (gap ++ c :: rest) []
        (some ⟨.unexpectedCharacter c, place + byteLength gap, place + byteLength gap + c.utf8Size⟩)
  | token {gap rest : List Char} {lexeme : Lexeme} {tokens : List Token} {error : Option ParseError} {place start stop : Nat} :
    Layout false gap → lexeme.Spelled → lexeme.Ends rest → start = place + byteLength gap →
    stop = start + byteLength lexeme.text.toList → Tokenizes stop rest tokens error →
      Tokenizes place (gap ++ (lexeme.text.toList ++ rest)) (⟨lexeme, start, stop⟩ :: tokens) error

/-! ## Lexemes at the front of a text -/

namespace Lexeme

/-- Whether a text starts with a lexeme is decided by its first character. -/
theorem read?_eq_none_iff {c : Char} {rest : List Char} :
    read? (c :: rest) = none ↔ (isDigit c || isWordStart c || isSymbol c) = false := by
  unfold read?
  split
  case h_14 h₁ h₂ h₃ h₄ h₅ h₆ h₇ h₈ h₉ h₁₀ hText =>
    cases hText
    have hSymbol : isSymbol c = false := by simpa [isSymbol] using ⟨h₁, h₂, h₃, h₄, h₅, h₆, h₇, h₈, h₉, h₁₀⟩
    rw [hSymbol]
    cases isDigit c <;> cases isWordStart c <;> simp
  case h_15 hText => cases hText
  all_goals
    rename_i hText
    obtain ⟨rfl, _⟩ := List.cons.inj hText
    constructor
    · intro h
      cases h
    · intro h
      exact absurd h (by decide)

theorem ofWord_eq_identifier {word name : String} (h : ofWord word = .identifier name) :
    word = name ∧ (Keyword.ofText? word).isNone = true := by
  unfold ofWord at h
  split at h
  · cases h
  · rename_i hNone
    cases h
    exact ⟨rfl, Option.isNone_iff_eq_none.mpr hNone⟩

theorem isName_of_read? {text rest : List Char} {name : String}
    (h : read? text = some (.identifier name, rest)) : isName name = true := by
  unfold read? at h
  split at h
  case h_14 c left _ _ _ _ _ _ _ _ _ _ _ _ _ =>
    split at h
    · cases h
    · split at h
      · rename_i hStart
        obtain ⟨rfl, hNone⟩ := ofWord_eq_identifier (congrArg Prod.fst (Option.some.inj h))
        have hMore : ∀ d ∈ left.takeWhile isWordPart, isWordPart d = true :=
          fun _ hMem => List.mem_takeWhile_imp hMem
        rw [isName, String.toList_ofList]
        simp only [hStart, hNone, List.all_eq_true.mpr hMore, Bool.and_self]
      · cases h
  all_goals cases h

/-- What is read is spelled as a lexeme of its kind. -/
theorem spelled_of_read? {text rest : List Char} {lexeme : Lexeme} (h : read? text = some (lexeme, rest)) :
    lexeme.Spelled := by
  cases lexeme with
  | identifier name => exact isName_of_read? h
  | integer digits => exact digits_of_read? h
  | keyword _ | openParen | closeParen | semicolon | comma | plus | minus | asterisk | doubleEquals | lessThan
  | lessOrEqual | greaterThan | greaterOrEqual | equals => trivial

/-- A lexeme that is over where the rest starts is read as what it is. -/
theorem read?_of_spelled {lexeme : Lexeme} {rest : List Char} (h : lexeme.Spelled) (hEnds : lexeme.Ends rest) :
    read? (lexeme.text.toList ++ rest) = some (lexeme, rest) :=
  read?_of_ends (read?_printed h []) hEnds

/-- Where less of the text follows, the lexeme is over too. -/
theorem Ends.of_append {lexeme : Lexeme} {before behind : List Char} (h : lexeme.Ends (before ++ behind)) :
    lexeme.Ends before := by
  intro c hc
  refine h c ?_
  rw [List.head?_append, hc]
  rfl

end Lexeme

/-! ## Cutting a text -/

theorem splitGap_cons_eq_nil_iff {c : Char} {rest : List Char} :
    splitGap (c :: rest) = ([], c :: rest) ↔ (isBlank c || c = '#') = false := by
  have hGap : (false && c != '\n' || decide (c = '#') || isBlank c) = (isBlank c || decide (c = '#')) := by
    rw [Bool.false_and, Bool.false_or, Bool.or_comm]
  rw [splitGap, splitGap.go, hGap]
  cases isBlank c || decide (c = '#') with
  | true => simp
  | false => simp

theorem Tokenizes.scanFrom_eq {place : Nat} {text : List Char} {tokens : List Token} {error : Option ParseError}
    (h : Tokenizes place text tokens error) : scanFrom place text = ⟨tokens, error⟩ := by
  induction h with
  | finished place hGap =>
    apply scanFrom_of_finished
    rw [nextToken, hGap.splitGap_all]
  | @stuck gap c place rest hGap hStart =>
    have hBehind : splitGap (c :: rest) = ([], c :: rest) := by
      rw [splitGap_cons_eq_nil_iff]
      grind [canStart]
    have hRead : Lexeme.read? (c :: rest) = none := by
      rw [Lexeme.read?_eq_none_iff]
      grind [canStart]
    have hNext : nextToken place (gap ++ c :: rest) = .stuck c (place + byteLength gap) (c :: rest) := by
      rw [nextToken, hGap.splitGap_append hBehind]
      simp only [hRead]
    exact scanFrom_of_stuck hNext
  | @token gap rest lexeme tokens error place start stop hGap hSpelled hEnds hStart hStop _ ih =>
    have hRead := Lexeme.read?_of_spelled hSpelled hEnds
    have hSplit := hGap.splitGap_append (Lexeme.splitGap_of_read? hRead)
    have hNext : nextToken place (gap ++ (lexeme.text.toList ++ rest)) = .token ⟨lexeme, start, stop⟩ stop rest := by
      have hBehind := nextToken_behind place (gap ++ (lexeme.text.toList ++ rest))
      rw [hSplit] at hBehind
      rw [← hBehind, nextToken_of_read? _ hRead, hStop, hStart]
    rw [scanFrom_of_token hNext, ih]

theorem tokenizes_scanFrom (place : Nat) (text : List Char) :
    Tokenizes place text (scanFrom place text).tokens (scanFrom place text).error := by
  have hLayout := layout_splitGap text
  have hText := splitGap_append text
  cases hNext : nextToken place text with
  | finished =>
    have hBehind := splitGap_of_finished hNext
    rw [hBehind] at hLayout hText
    rw [List.append_nil] at hText
    rw [scanFrom_of_finished hNext, ← hText]
    exact .finished place hLayout
  | stuck character at_ rest =>
    obtain ⟨hAt, hBehind, hHead, hRead⟩ := splitGap_of_stuck hNext
    obtain ⟨left, rfl⟩ := List.head?_eq_some_iff.mp hHead
    have hOver := splitGap_behind text
    rw [hBehind] at hLayout hText hOver
    rw [splitGap_cons_eq_nil_iff] at hOver
    rw [Lexeme.read?_eq_none_iff] at hRead
    have hStart : canStart character = false := by grind [canStart]
    rw [scanFrom_of_stuck hNext, ParseError.badCharacter, hAt, ← hText]
    have hStuck := Tokenizes.stuck place left hLayout hStart
    rw [hText] at hStuck ⊢
    exact hStuck
  | token token after rest =>
    have hShorter := nextToken_length hNext
    obtain ⟨hRead, hSpan, hAfter⟩ := read?_of_token hNext
    have hSpelling := Lexeme.append_of_read? hRead
    have hSome : (splitGap text).2.isEmpty = false := by
      cases hBehind : (splitGap text).2 with
      | nil =>
        rw [hBehind] at hRead
        cases hRead
      | cons c left => rfl
    rw [hSome] at hLayout
    obtain ⟨lexeme, span⟩ := token
    cases hSpan
    have hToken := Tokenizes.token hLayout (Lexeme.spelled_of_read? hRead) (Lexeme.ends_of_read? hRead) rfl hAfter
      (tokenizes_scanFrom after rest)
    rw [hSpelling, hText] at hToken
    rw [scanFrom_of_token hNext]
    exact hToken
termination_by text.length

/-- Where the last of some tokens ends, or else the given place. -/
def lastStop (place : Nat) (tokens : List Token) : Nat := (tokens.getLast?.map (·.span.stop)).getD place

theorem lastStop_cons (place : Nat) (token : Token) (tokens : List Token) :
    lastStop place (token :: tokens) = lastStop token.span.stop tokens := by
  rw [lastStop, lastStop, List.getLast?_cons]
  cases tokens.getLast? <;> rfl

/-- Some of the tokens take the front of the text, up to where the last of them ends, and the other tokens what is
behind. -/
theorem Tokenizes.split {place : Nat} {text : List Char} {front back : List Token} {error : Option ParseError}
    (h : Tokenizes place text (front ++ back) error) :
    ∃ before behind, text = before ++ behind ∧ lastStop place front = place + byteLength before ∧
      Tokenizes place before front none ∧ Tokenizes (lastStop place front) behind back error := by
  induction front generalizing place text with
  | nil => exact ⟨[], text, rfl, rfl, .finished place .nil, h⟩
  | cons token front ih =>
    cases h with
    | @token gap rest lexeme _ _ _ start stop hGap hSpelled hEnds hStart hStop hRest =>
      obtain ⟨before, behind, rfl, hPlace, hBefore, hBehind⟩ := ih hRest
      refine ⟨gap ++ (lexeme.text.toList ++ before), behind, by simp, ?_, ?_, ?_⟩
      · rw [lastStop_cons, hPlace, byteLength_append, byteLength_append]
        omega
      · exact .token hGap hSpelled hEnds.of_append hStart hStop hBefore
      · rw [lastStop_cons]
        exact hBehind

/-- Tokens do not overlap and come in the order of the text. -/
theorem Tokenizes.ordered {place : Nat} {text : List Char} {tokens : List Token} {error : Option ParseError}
    (h : Tokenizes place text tokens error) : (∀ token ∈ tokens, place ≤ token.span.start) ∧
      tokens.Pairwise fun first second => first.span.stop ≤ second.span.start := by
  induction h with
  | finished => exact ⟨List.forall_mem_nil _, .nil⟩
  | stuck => exact ⟨List.forall_mem_nil _, .nil⟩
  | token _ _ _ hStart hStop _ ih =>
    constructor
    · rw [List.forall_mem_cons]
      refine ⟨Nat.le.intro hStart.symm, fun token hMem => ?_⟩
      have hAfter := ih.1 token hMem
      omega
    · exact List.pairwise_cons.mpr ⟨ih.1, ih.2⟩

/-! ## Slices of a source -/

namespace Source

variable {source : Source}

theorem slice?_eq (front middle back : List Char) {span : Span} (h : source.chars = front ++ (middle ++ back))
    (hStart : span.start = byteLength front) (hStop : span.stop = span.start + byteLength middle) :
    source.slice? span = some middle := by
  have hWidth : span.stop - span.start = byteLength middle := by omega
  rw [slice?, if_pos (by omega), h, hStart, splitAtByte?_append, Option.bind_some, ← hStart, hWidth]
  simp only [splitAtByte?_append, Option.map_some]

/-- The text between two places is a gap. -/
def GapBetween (source : Source) (final : Bool) (start stop : Nat) : Prop :=
  ∃ gap, source.slice? ⟨start, stop⟩ = some gap ∧ Layout final gap

/-- A token as it stands in a text, behind a gap that starts at the given place. -/
structure TokenAt (source : Source) (place : Nat) (token : Token) : Prop where
  gap : source.GapBetween false place token.span.start
  nonempty : token.span.start < token.span.stop
  boundaries : source.Boundary token.span.start ∧ source.Boundary token.span.stop
  text : source.slice? token.span = some token.lexeme.text.toList
  spelled : token.lexeme.Spelled
  keyword : (∃ word, token.lexeme = .keyword word) ↔ token.lexeme.text ∈ Keyword.all.map Keyword.text
  longest : ∃ rest, source.slice? ⟨token.span.stop, source.size⟩ = some rest ∧ token.lexeme.Ends rest

end Source

/-! ## Keywords -/

theorem Keyword.mem_all (word : Keyword) : word ∈ Keyword.all := by
  cases word <;> decide

theorem Keyword.isNone_ofText?_iff {text : String} :
    (Keyword.ofText? text).isNone = true ↔ text ∉ Keyword.all.map Keyword.text := by
  simp [ofText?]

theorem Lexeme.Spelled.keyword_iff {lexeme : Lexeme} (h : lexeme.Spelled) :
    (∃ word, lexeme = .keyword word) ↔ lexeme.text ∈ Keyword.all.map Keyword.text := by
  cases lexeme with
  | keyword word =>
    constructor
    · intro _
      exact List.mem_map_of_mem word.mem_all
    · intro _
      exact ⟨word, rfl⟩
  | identifier name =>
    have hName : name ∉ Keyword.all.map Keyword.text := by
      change isName name = true at h
      unfold isName at h
      split at h
      · cases h
      · simp only [Bool.and_eq_true] at h
        exact Keyword.isNone_ofText?_iff.mp h.2
    constructor
    · rintro ⟨_, ⟨⟩⟩
    · intro hMem
      exact absurd hMem hName
  | integer digits =>
    constructor
    · rintro ⟨_, ⟨⟩⟩
    · intro hMem
      -- no keyword has a digit in it
      obtain ⟨word, _, hText⟩ := List.mem_map.mp hMem
      have hDigits : ∀ c ∈ word.text.toList, isDigit c = true := by
        rw [hText]
        exact h.2
      cases word <;> simp [Keyword.text, isDigit] at hDigits
  | openParen | closeParen | semicolon | comma | plus | minus | asterisk | doubleEquals | lessThan
  | lessOrEqual | greaterThan | greaterOrEqual | equals =>
    constructor
    · rintro ⟨_, ⟨⟩⟩
    · intro hMem
      exact absurd hMem (by decide)

/-! ## Scanning a source -/

namespace Source

variable {source : Source} {front back : List Token}

/-- The text of a source behind some of its tokens. -/
theorem exists_behind (h : source.scan.tokens = front ++ back) :
    ∃ before behind, source.chars = before ++ behind ∧ lastStop 0 front = byteLength before ∧
      Tokenizes (byteLength before) behind back source.scan.error := by
  have hAll : Tokenizes 0 source.chars source.scan.tokens source.scan.error := tokenizes_scanFrom 0 source.chars
  rw [h] at hAll
  obtain ⟨before, behind, hChars, hPlace, _, hBehind⟩ := hAll.split
  rw [Nat.zero_add] at hPlace
  rw [hPlace] at hBehind
  exact ⟨before, behind, hChars, hPlace, hBehind⟩

theorem tokenAt_of_mem {token : Token} (h : source.scan.tokens = front ++ token :: back) :
    source.TokenAt (lastStop 0 front) token := by
  obtain ⟨before, behind, hChars, hPlace, hBehind⟩ := exists_behind h
  cases hBehind with
  | @token gap rest lexeme _ _ _ start stop hGap hSpelled hEnds hStart hStop _ =>
    have hPositive := byteLength_text_pos (Lexeme.read?_of_spelled hSpelled hEnds)
    have hFront : byteLength (before ++ gap) = start := by rw [byteLength_append, hStart]
    have hThrough : byteLength (before ++ gap ++ lexeme.text.toList) = stop := by
      rw [byteLength_append, hFront, hStop]
    have hSize : source.size = stop + byteLength rest := by
      rw [size, hChars, ← hThrough]
      simp only [byteLength_append]
      omega
    refine ⟨⟨gap, ?_, hGap⟩, ?_, ⟨?_, ?_⟩, ?_, hSpelled, hSpelled.keyword_iff, rest, ?_, hEnds⟩
    · rw [hPlace]
      exact slice?_eq before gap _ hChars rfl hStart
    · change start < stop
      omega
    · exact ⟨before ++ gap, lexeme.text.toList ++ rest, by simp [hChars], hFront.symm⟩
    · exact ⟨before ++ gap ++ lexeme.text.toList, rest, by simp [hChars], hThrough.symm⟩
    · exact slice?_eq (before ++ gap) lexeme.text.toList rest (by simp [hChars]) hFront.symm hStop
    · exact slice?_eq (before ++ gap ++ lexeme.text.toList) rest [] (by simp [hChars]) hThrough.symm hSize

theorem pairwise_scan (source : Source) :
    source.scan.tokens.Pairwise fun first second => first.span.stop ≤ second.span.start :=
  (tokenizes_scanFrom 0 source.chars).ordered.2

theorem gap_of_finished (h : source.scan.error = none) :
    source.GapBetween true (lastStop 0 source.scan.tokens) source.size := by
  obtain ⟨before, behind, hChars, hPlace, hBehind⟩ := exists_behind (List.append_nil source.scan.tokens).symm
  rw [h] at hBehind
  cases hBehind with
  | finished place hGap =>
    refine ⟨behind, ?_, hGap⟩
    rw [hPlace]
    refine slice?_eq before behind [] (by simp [hChars]) rfl ?_
    rw [size, hChars, byteLength_append]

theorem not_gap_of_stuck {error : ParseError} (h : source.scan.error = some error) :
    ∃ c, error.cause = .unexpectedCharacter c ∧ source.slice? error.span = some [c] ∧ canStart c = false ∧
      source.GapBetween false (lastStop 0 source.scan.tokens) error.span.start ∧
      ¬source.GapBetween true (lastStop 0 source.scan.tokens) source.size := by
  obtain ⟨before, behind, hChars, hPlace, hBehind⟩ := exists_behind (List.append_nil source.scan.tokens).symm
  rw [h] at hBehind
  cases hBehind with
  | @stuck gap c place rest hGap hStart =>
    have hFront : byteLength (before ++ gap) = byteLength before + byteLength gap := byteLength_append _ _
    refine ⟨c, rfl, ?_, hStart, ⟨gap, ?_, hGap⟩, ?_⟩
    · exact slice?_eq (before ++ gap) [c] rest (by simp [hChars]) hFront.symm rfl
    · rw [hPlace]
      exact slice?_eq before gap (c :: rest) hChars rfl rfl
    · rintro ⟨all, hSlice, hAll⟩
      have hRest : source.slice? ⟨byteLength before, source.size⟩ = some (gap ++ c :: rest) := by
        refine slice?_eq before _ [] (by simp [hChars]) rfl ?_
        rw [size, hChars, byteLength_append]
      rw [hPlace, hRest] at hSlice
      obtain rfl := Option.some.inj hSlice
      have hOver : splitGap (c :: rest) = ([], c :: rest) := by
        rw [splitGap_cons_eq_nil_iff]
        grind [canStart]
      have hTwice := (hGap.splitGap_append hOver).symm.trans hAll.splitGap_all
      exact absurd (congrArg Prod.snd hTwice) (List.cons_ne_nil _ _)

/-- Asking for one token after the other cuts a source into gaps and lexemes that are as long as possible. It ends
where only a gap is left, or else at the first character that starts neither. -/
theorem scan_longest_match (source : Source) :
    (∀ count, ((Reader.ofSource source).after (List.replicate count .next)).next.1 =
      (source.scan.drop count).first) ∧
    (∀ front token back, source.scan.tokens = front ++ token :: back →
      source.TokenAt (lastStop 0 front) token) ∧
    source.scan.tokens.Pairwise (fun first second => first.span.stop ≤ second.span.start) ∧
    (source.scan.error = none ↔ source.GapBetween true (lastStop 0 source.scan.tokens) source.size) ∧
    ∀ error, source.scan.error = some error →
      ∃ c, error.cause = .unexpectedCharacter c ∧ source.slice? error.span = some [c] ∧ canStart c = false ∧
        source.GapBetween false (lastStop 0 source.scan.tokens) error.span.start := by
  refine ⟨fun count => ?_, fun _ _ _ h => tokenAt_of_mem h, pairwise_scan source, ⟨gap_of_finished, ?_⟩, ?_⟩
  · have hRest := ((Reader.ofSource source).after_spec (List.replicate count .next)).2
    rw [List.count_replicate_self] at hRest
    rw [(Reader.next_spec _).1, hRest]
    rfl
  · intro hGap
    cases hError : source.scan.error with
    | none => rfl
    | some error =>
      obtain ⟨_, _, _, _, _, hNot⟩ := not_gap_of_stuck hError
      exact absurd hGap hNot
  · intro error hError
    obtain ⟨c, hCause, hSlice, hStart, hGap, _⟩ := not_gap_of_stuck hError
    exact ⟨c, hCause, hSlice, hStart, hGap⟩

end Source

end Slate
