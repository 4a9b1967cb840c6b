import Slate.Proofs.Grammar
import Slate.Proofs.Lists
import Slate.Proofs.Scan

/-! # Printing programs

A tree is printed with brackets only where the grammar would read it differently without them:
assignments bind least and lean to the right, comparisons do not lean, sums and products lean to the left.
A separator stands behind every item and every expression of an arm or a loop's body.
-/

namespace Slate
set_option autoImplicit false

/-! ## Trees without places -/

def Name.unplaced (name : Name) : Name := ⟨name.text, default⟩

mutual

def Expr.unplaced : Expr → Expr
  | .int _ value => .int default value
  | .binary _ op lhs rhs => .binary default op lhs.unplaced rhs.unplaced
  | .compare _ op lhs rhs => .compare default op lhs.unplaced rhs.unplaced
  | .variable _ name => .variable default name.unplaced
  | .assign _ target value => .assign default target.unplaced value.unplaced
  | .branch _ condition positive negative =>
    .branch default condition.unplaced (unplacedAll positive) (unplacedAll negative)
  | .loop _ initializer condition step body =>
    .loop default initializer.unplaced condition.unplaced step.unplaced (unplacedAll body)
  | .call _ callee arguments => .call default callee.unplaced (unplacedAll arguments)

def unplacedAll : List Expr → List Expr
  | [] => []
  | first :: rest => first.unplaced :: unplacedAll rest

end

def Prototype.unplaced (head : Prototype) : Prototype :=
  ⟨default, head.name.unplaced, head.parameters.map Name.unplaced⟩

def Item.unplaced : Item → Item
  | .declaration _ head => .declaration default head.unplaced
  | .definition _ head body => .definition default head.unplaced body.unplaced
  | .expression body => .expression body.unplaced

theorem Expr.unplaced_withSpan (span : Span) (e : Expr) : (e.withSpan span).unplaced = e.unplaced := by
  cases e <;> simp [withSpan, unplaced]

/-! ## Names that can be written -/

/-- An ASCII word that does not start with a digit and is no keyword. -/
def isName (text : String) : Bool :=
  match text.toList with
  | [] => false
  | first :: rest => isWordStart first && rest.all isWordPart && (Keyword.ofText? text).isNone

mutual

def Expr.named : Expr → Bool
  | .int _ _ => true
  | .binary _ _ lhs rhs | .compare _ _ lhs rhs => lhs.named && rhs.named
  | .variable _ name => isName name.text
  | .assign _ target value => isName target.text && value.named
  | .branch _ condition positive negative =>
    condition.named && allNamed positive && allNamed negative
  | .loop _ initializer condition step body =>
    initializer.named && condition.named && step.named && allNamed body
  | .call _ callee arguments => isName callee.text && allNamed arguments

def allNamed : List Expr → Bool
  | [] => true
  | first :: rest => first.named && allNamed rest

end

def Prototype.named (head : Prototype) : Bool :=
  isName head.name.text && head.parameters.all fun name => isName name.text

def Item.named : Item → Bool
  | .declaration _ head => head.named
  | .definition _ head body => head.named && body.named
  | .expression body => body.named

/-! ## The printer -/

namespace Print

/-- How tightly an operator binds its operands. -/
def operatorRank : Arith → Nat
  | .add | .subtract => 2
  | .multiply => 3

/-- How tightly a tree holds together. -/
def rank : Expr → Nat
  | .assign .. => 0
  | .compare .. => 1
  | .binary _ op _ _ => operatorRank op
  | .int .. | .variable .. | .branch .. | .loop .. | .call .. => 4

/-- Brackets around a tree that does not hold together as tightly as its place asks for. -/
def wrap (place : Nat) (e : Expr) (lexemes : List Lexeme) : List Lexeme :=
  if rank e < place then .openParen :: (lexemes ++ [.closeParen]) else lexemes

def constant (value : Word) : List Lexeme :=
  if value.toInt < 0 then [.minus, .integer (toString value.toInt.natAbs)]
  else [.integer (toString value.toInt.natAbs)]

/-- The second arm of a conditional. An empty one is left out, or spelled as `else` alone. -/
def otherArm (spelled : Bool) (negative : List Expr) (lexemes : List Lexeme) : List Lexeme :=
  if negative.isEmpty && !spelled then [] else .keyword .else_ :: lexemes

mutual

def expression (spelled : Bool) : Expr → List Lexeme
  | .int _ value => constant value
  | .binary _ op lhs rhs =>
    wrap (operatorRank op) lhs (expression spelled lhs) ++
      op.lexeme :: wrap (operatorRank op + 1) rhs (expression spelled rhs)
  | .compare _ op lhs rhs =>
    wrap 2 lhs (expression spelled lhs) ++ op.lexeme :: wrap 2 rhs (expression spelled rhs)
  | .variable _ name => [.identifier name.text]
  | .assign _ target value => .identifier target.text :: .equals :: expression spelled value
  | .branch _ condition positive negative =>
    .keyword .if_ :: (expression spelled condition ++ .keyword .then_ :: (sequence spelled positive ++
      (otherArm spelled negative (sequence spelled negative) ++ [.keyword .end_])))
  | .loop _ initializer condition step body =>
    .keyword .for_ :: (expression spelled initializer ++ .semicolon ::
      (expression spelled condition ++ .semicolon :: (expression spelled step ++ .keyword .do_ ::
        (sequence spelled body ++ [.keyword .end_]))))
  | .call _ callee arguments =>
    .identifier callee.text :: .openParen :: (argumentList spelled arguments ++ [.closeParen])

/-- Expressions with a separator behind each. -/
def sequence (spelled : Bool) : List Expr → List Lexeme
  | [] => []
  | first :: rest => expression spelled first ++ .semicolon :: sequence spelled rest

def argumentList (spelled : Bool) : List Expr → List Lexeme
  | [] => []
  | first :: rest => expression spelled first ++ moreArguments spelled rest

def moreArguments (spelled : Bool) : List Expr → List Lexeme
  | [] => []
  | first :: rest => .comma :: (expression spelled first ++ moreArguments spelled rest)

end

def moreParameters : List Name → List Lexeme
  | [] => []
  | first :: rest => .comma :: .identifier first.text :: moreParameters rest

def parameters : List Name → List Lexeme
  | [] => []
  | first :: rest => .identifier first.text :: moreParameters rest

def prototype (head : Prototype) : List Lexeme :=
  .identifier head.name.text :: .openParen :: (parameters head.parameters ++ [.closeParen])

def item (spelled : Bool) : Item → List Lexeme
  | .declaration _ head => .keyword .extern_ :: prototype head
  | .definition _ head body =>
    .keyword .def_ :: (prototype head ++ (expression spelled body ++ [.keyword .end_]))
  | .expression body => expression spelled body

/-- Items with a separator behind each. -/
def program (spelled : Bool) : List Item → List Lexeme
  | [] => []
  | first :: rest => item spelled first ++ .semicolon :: program spelled rest

/-- What stands behind a lexeme: a blank, and nothing behind a minus sign. -/
def gap : Lexeme → List Char
  | .minus => []
  | _ => [' ']

def chars (lexemes : List Lexeme) : List Char :=
  lexemes.flatMap fun lexeme => lexeme.text.toList ++ gap lexeme

def text (lexemes : List Lexeme) : String := String.ofList (chars lexemes)

end Print

/-! ## Scanning what was printed -/

/-- The names and integers that can be written. -/
def Lexeme.Spelled : Lexeme → Prop
  | .identifier name => isName name = true
  | .integer digits => digits.toList ≠ [] ∧ ∀ c ∈ digits.toList, isDigit c = true
  | _ => True

namespace Lexeme

/-- Letters and digits are no punctuation. -/
theorem read?_cons {first : Char} (hFirst : isWordPart first = true) (rest : List Char) :
    read? (first :: rest) =
      if isDigit first then
        some (.integer (String.ofList (first :: rest.takeWhile isDigit)), rest.dropWhile isDigit)
      else if isWordStart first then
        some (.ofWord (String.ofList (first :: rest.takeWhile isWordPart)), rest.dropWhile isWordPart)
      else none := by
  conv => lhs; unfold read?
  split
  case h_14 c left _ _ _ _ _ _ _ _ _ _ _ _ _ hText =>
    cases hText
    rfl
  case h_15 hText => cases hText
  all_goals
    rename_i hText
    obtain ⟨rfl, _⟩ := List.cons.inj hText
    exact absurd hFirst (by decide)

theorem read?_integer {digits : String} (h : (integer digits).Spelled) (rest : List Char) :
    read? (digits.toList ++ ' ' :: rest) = some (.integer digits, ' ' :: rest) := by
  obtain ⟨hSome, hDigits⟩ := h
  obtain ⟨first, more, hList⟩ := List.exists_cons_of_ne_nil hSome
  rw [hList] at hDigits
  have hFirst : isDigit first = true := hDigits first List.mem_cons_self
  have hMore : ∀ c ∈ more, isDigit c = true := fun c hMem => hDigits c (List.mem_cons_of_mem _ hMem)
  have hBlank : ∀ c ∈ (' ' :: rest).head?, isDigit c = false := by
    rintro c ⟨⟩
    decide
  rw [hList, List.cons_append, read?_cons (by simp [isWordPart, hFirst]), if_pos hFirst,
    takeWhile_all_append hMore hBlank, dropWhile_all_append hMore hBlank, ← hList, String.ofList_toList]

theorem ofWord_of_isNone {word : String} (h : (Keyword.ofText? word).isNone = true) :
    ofWord word = .identifier word := by
  rw [ofWord, Option.isNone_iff_eq_none.mp h]

/-- A word that is followed by a blank is read as the lexeme it spells. -/
theorem read?_word {first : Char} {more : List Char} (hFirst : isWordStart first = true)
    (hMore : ∀ c ∈ more, isWordPart c = true) (rest : List Char) :
    read? (first :: (more ++ ' ' :: rest)) = some (.ofWord (String.ofList (first :: more)), ' ' :: rest) := by
  have hBlank : ∀ c ∈ (' ' :: rest).head?, isWordPart c = false := by
    rintro c ⟨⟩
    decide
  -- digits lie below the letters and the underscore
  have hDigit : ¬isDigit first = true := by
    simp only [isWordStart, isLetter, isDigit, Bool.or_eq_true, Bool.and_eq_true, decide_eq_true_eq] at hFirst ⊢
    rintro ⟨hLow, hHigh⟩
    rcases hFirst with (⟨hFirst, _⟩ | ⟨hFirst, _⟩) | rfl
    · exact absurd (hFirst.trans hHigh) (by decide)
    · exact absurd (hFirst.trans hHigh) (by decide)
    · exact absurd hHigh (by decide)
  rw [read?_cons (by simp [isWordPart, hFirst]), if_neg hDigit, if_pos hFirst,
    takeWhile_all_append hMore hBlank, dropWhile_all_append hMore hBlank]

theorem read?_name {name : String} (h : isName name = true) (rest : List Char) :
    read? (name.toList ++ ' ' :: rest) = some (.identifier name, ' ' :: rest) := by
  unfold isName at h
  split at h
  · cases h
  · rename_i first more hList
    simp only [Bool.and_eq_true, List.all_eq_true] at h
    rw [hList, List.cons_append, read?_word h.1.1 h.1.2, ← hList, String.ofList_toList, ofWord_of_isNone h.2]

/-- What was printed is read as what it is. -/
theorem read?_printed {lexeme : Lexeme} (h : lexeme.Spelled) (rest : List Char) :
    read? (lexeme.text.toList ++ (Print.gap lexeme ++ rest)) = some (lexeme, Print.gap lexeme ++ rest) := by
  cases lexeme with
  | identifier name => exact read?_name h rest
  | integer digits => exact read?_integer h rest
  | keyword word => cases word <;> rfl
  | openParen | closeParen | semicolon | comma | plus | minus | asterisk | doubleEquals | lessThan
  | lessOrEqual | greaterThan | greaterOrEqual | equals => rfl

/-- No lexeme starts where a gap could go on. -/
theorem splitGap_of_read? {text rest : List Char} {lexeme : Lexeme} (h : read? text = some (lexeme, rest)) :
    splitGap text = ([], text) := by
  cases text with
  | nil => cases h
  | cons c back =>
    -- nothing is read off a blank or the start of a comment
    have hGap : ¬(c = '#' ∨ isBlank c = true) := by
      rintro (rfl | hBlank)
      · cases h
      · simp only [isBlank, Bool.or_eq_true, decide_eq_true_eq] at hBlank
        rcases hBlank with (((rfl | rfl) | rfl) | rfl) | rfl <;> cases h
    rw [splitGap, splitGap.go, if_neg (by simpa using hGap)]

end Lexeme

/-- A blank, or nothing. -/
def Gap (lead : List Char) : Prop := lead = [] ∨ lead = [' ']

theorem gap_of_printed (lexeme : Lexeme) : Gap (Print.gap lexeme) := by
  cases lexeme with
  | minus => exact .inl rfl
  | _ => exact .inr rfl

theorem nextToken_printed {lead : List Char} {lexeme : Lexeme} (hLead : Gap lead) (h : lexeme.Spelled)
    (place : Nat) (rest : List Char) :
    ∃ span after, nextToken place (lead ++ (lexeme.text.toList ++ (Print.gap lexeme ++ rest))) =
      .token ⟨lexeme, span⟩ after (Print.gap lexeme ++ rest) := by
  have hRead := Lexeme.read?_printed h rest
  have hSplit : splitGap (lead ++ (lexeme.text.toList ++ (Print.gap lexeme ++ rest))) =
      (lead, lexeme.text.toList ++ (Print.gap lexeme ++ rest)) := by
    have hText := Lexeme.splitGap_of_read? hRead
    rcases hLead with rfl | rfl
    · exact hText
    · rw [splitGap] at hText
      simp [splitGap, splitGap.go, isBlank, hText]
  rw [nextToken, hSplit]
  generalize lexeme.text.toList ++ (Print.gap lexeme ++ rest) = text at hRead
  cases text with
  | nil => cases hRead
  | cons c back =>
    simp only [hRead]
    exact ⟨_, _, rfl⟩

theorem scanFrom_of_token {place after : Nat} {text rest : List Char} {token : Token}
    (h : nextToken place text = .token token after rest) :
    scanFrom place text = ⟨token :: (scanFrom after rest).tokens, (scanFrom after rest).error⟩ := by
  rw [scanFrom]
  split <;> simp_all

theorem scanFrom_of_finished {place : Nat} {text : List Char} (h : nextToken place text = .finished) :
    scanFrom place text = ⟨[], none⟩ := by
  rw [scanFrom]
  split <;> simp_all

theorem scanFrom_printed {lead : List Char} {lexemes : List Lexeme} (hLead : Gap lead)
    (h : ∀ lexeme ∈ lexemes, lexeme.Spelled) (place : Nat) :
    ∃ tokens, scanFrom place (lead ++ Print.chars lexemes) = ⟨tokens, none⟩ ∧
      tokens.map Token.lexeme = lexemes := by
  induction lexemes generalizing lead place with
  | nil =>
    refine ⟨[], ?_, rfl⟩
    rw [Print.chars, List.flatMap_nil, List.append_nil]
    apply scanFrom_of_finished
    rcases hLead with rfl | rfl <;> rfl
  | cons lexeme rest ih =>
    obtain ⟨span, after, hToken⟩ :=
      nextToken_printed hLead (h lexeme List.mem_cons_self) place (Print.chars rest)
    obtain ⟨tokens, hScan, hLexemes⟩ := ih (gap_of_printed lexeme)
      (fun other hMem => h other (List.mem_cons_of_mem _ hMem)) after
    refine ⟨⟨lexeme, span⟩ :: tokens, ?_, by rw [List.map_cons, hLexemes]⟩
    have hChars : Print.chars (lexeme :: rest) =
        lexeme.text.toList ++ (Print.gap lexeme ++ Print.chars rest) := by
      simp [Print.chars]
    rw [hChars, scanFrom_of_token hToken, hScan]

/-! ## Printed programs are spelled well -/

namespace Print

theorem spelled_digits (n : Nat) : (Lexeme.integer (toString n)).Spelled := by
  have hList : (toString n).toList = Nat.toDigits 10 n := Nat.toList_repr
  refine ⟨hList ▸ Nat.toDigits_ne_nil, fun c hMem => ?_⟩
  rw [hList] at hMem
  simpa [isDigit, Char.isDigit, Char.le_def] using Nat.isDigit_of_mem_toDigits (by decide) (by decide) hMem

theorem spelled_constant (value : Word) : ∀ lexeme ∈ constant value, lexeme.Spelled := by
  have hDigits := spelled_digits value.toInt.natAbs
  rw [constant]
  split
  · simp only [List.forall_mem_cons]
    exact ⟨trivial, hDigits, List.forall_mem_nil _⟩
  · simpa using hDigits

theorem spelled_wrap {place : Nat} {e : Expr} {lexemes : List Lexeme}
    (h : ∀ lexeme ∈ lexemes, lexeme.Spelled) : ∀ lexeme ∈ wrap place e lexemes, lexeme.Spelled := by
  rw [wrap]
  split
  · rw [List.forall_mem_cons, List.forall_mem_append, List.forall_mem_singleton]
    exact ⟨trivial, h, trivial⟩
  · exact h

theorem spelled_otherArm {spelled : Bool} {negative : List Expr} {lexemes : List Lexeme}
    (h : ∀ lexeme ∈ lexemes, lexeme.Spelled) :
    ∀ lexeme ∈ otherArm spelled negative lexemes, lexeme.Spelled := by
  rw [otherArm]
  split
  · exact List.forall_mem_nil _
  · rw [List.forall_mem_cons]
    exact ⟨trivial, h⟩

theorem spelled_arith (op : Arith) : op.lexeme.Spelled := by
  cases op <;> trivial

theorem spelled_comparison (op : Comparison) : op.lexeme.Spelled := by
  cases op <;> trivial

variable (spelled : Bool)

mutual

theorem spelled_expression : ∀ e : Expr, e.named = true → ∀ lexeme ∈ expression spelled e, lexeme.Spelled
  | .int _ value, _ => by
    rw [expression]
    exact spelled_constant value
  | .binary _ op lhs rhs, h => by
    rw [Expr.named, Bool.and_eq_true] at h
    rw [expression, List.forall_mem_append, List.forall_mem_cons]
    exact ⟨spelled_wrap (spelled_expression lhs h.1), spelled_arith op,
      spelled_wrap (spelled_expression rhs h.2)⟩
  | .compare _ op lhs rhs, h => by
    rw [Expr.named, Bool.and_eq_true] at h
    rw [expression, List.forall_mem_append, List.forall_mem_cons]
    exact ⟨spelled_wrap (spelled_expression lhs h.1), spelled_comparison op,
      spelled_wrap (spelled_expression rhs h.2)⟩
  | .variable _ name, h => by
    rw [Expr.named] at h
    rw [expression, List.forall_mem_singleton]
    exact h
  | .assign _ target value, h => by
    rw [Expr.named, Bool.and_eq_true] at h
    rw [expression, List.forall_mem_cons, List.forall_mem_cons]
    exact ⟨h.1, trivial, spelled_expression value h.2⟩
  | .branch _ condition positive negative, h => by
    simp only [Expr.named, Bool.and_eq_true] at h
    simp only [expression, List.forall_mem_append, List.forall_mem_cons]
    exact ⟨trivial, spelled_expression condition h.1.1, trivial, spelled_sequence positive h.1.2,
      spelled_otherArm (spelled_sequence negative h.2), trivial, List.forall_mem_nil _⟩
  | .loop _ initializer condition step body, h => by
    simp only [Expr.named, Bool.and_eq_true] at h
    simp only [expression, List.forall_mem_append, List.forall_mem_cons]
    exact ⟨trivial, spelled_expression initializer h.1.1.1, trivial, spelled_expression condition h.1.1.2,
      trivial, spelled_expression step h.1.2, trivial, spelled_sequence body h.2, trivial, List.forall_mem_nil _⟩
  | .call _ callee arguments, h => by
    rw [Expr.named, Bool.and_eq_true] at h
    simp only [expression, List.forall_mem_append, List.forall_mem_cons]
    exact ⟨h.1, trivial, spelled_argumentList arguments h.2, trivial, List.forall_mem_nil _⟩

theorem spelled_sequence : ∀ es : List Expr, allNamed es = true → ∀ lexeme ∈ sequence spelled es, lexeme.Spelled
  | [], _ => by simp [sequence]
  | first :: rest, h => by
    rw [allNamed, Bool.and_eq_true] at h
    rw [sequence, List.forall_mem_append, List.forall_mem_cons]
    exact ⟨spelled_expression first h.1, trivial, spelled_sequence rest h.2⟩

theorem spelled_argumentList :
    ∀ es : List Expr, allNamed es = true → ∀ lexeme ∈ argumentList spelled es, lexeme.Spelled
  | [], _ => by simp [argumentList]
  | first :: rest, h => by
    rw [allNamed, Bool.and_eq_true] at h
    rw [argumentList, List.forall_mem_append]
    exact ⟨spelled_expression first h.1, spelled_moreArguments rest h.2⟩

theorem spelled_moreArguments :
    ∀ es : List Expr, allNamed es = true → ∀ lexeme ∈ moreArguments spelled es, lexeme.Spelled
  | [], _ => by simp [moreArguments]
  | first :: rest, h => by
    rw [allNamed, Bool.and_eq_true] at h
    rw [moreArguments, List.forall_mem_cons, List.forall_mem_append]
    exact ⟨trivial, spelled_expression first h.1, spelled_moreArguments rest h.2⟩

end

theorem spelled_moreParameters {names : List Name} (h : ∀ name ∈ names, isName name.text = true) :
    ∀ lexeme ∈ moreParameters names, lexeme.Spelled := by
  induction names with
  | nil => simp [moreParameters]
  | cons first rest ih =>
    rw [List.forall_mem_cons] at h
    simp only [moreParameters, List.forall_mem_cons]
    exact ⟨trivial, h.1, ih h.2⟩

theorem spelled_prototype {head : Prototype} (h : head.named = true) :
    ∀ lexeme ∈ prototype head, lexeme.Spelled := by
  rw [Prototype.named, Bool.and_eq_true, List.all_eq_true] at h
  simp only [prototype, List.forall_mem_append, List.forall_mem_cons]
  refine ⟨h.1, trivial, ?_, trivial, List.forall_mem_nil _⟩
  cases hNames : head.parameters with
  | nil => simp [parameters]
  | cons first rest =>
    rw [hNames, List.forall_mem_cons] at h
    rw [parameters, List.forall_mem_cons]
    exact ⟨h.2.1, spelled_moreParameters h.2.2⟩

theorem spelled_item : ∀ {it : Item}, it.named = true → ∀ lexeme ∈ item spelled it, lexeme.Spelled
  | .declaration _ head, h => by
    rw [item, List.forall_mem_cons]
    exact ⟨trivial, spelled_prototype h⟩
  | .definition _ head body, h => by
    rw [Item.named, Bool.and_eq_true] at h
    simp only [item, List.forall_mem_append, List.forall_mem_cons]
    exact ⟨trivial, spelled_prototype h.1, spelled_expression spelled body h.2, trivial, List.forall_mem_nil _⟩
  | .expression body, h => spelled_expression spelled body h

theorem spelled_program {items : List Item} (h : ∀ it ∈ items, it.named = true) :
    ∀ lexeme ∈ program spelled items, lexeme.Spelled := by
  induction items with
  | nil => simp [program]
  | cons first rest ih =>
    rw [List.forall_mem_cons] at h
    rw [program, List.forall_mem_append, List.forall_mem_cons]
    exact ⟨spelled_item spelled h.1, trivial, ih h.2⟩

end Print

/-- The tokens of a printed program are the lexemes that were printed. -/
theorem scan_printed (spelled : Bool) (origin : Origin) {items : List Item}
    (h : ∀ it ∈ items, it.named = true) :
    ∃ tokens, (Source.mk (Print.text (Print.program spelled items)) origin).scan = ⟨tokens, none⟩ ∧
      tokens.map Token.lexeme = Print.program spelled items := by
  have hScan := scanFrom_printed (.inl rfl) (Print.spelled_program spelled h) 0
  rw [List.nil_append] at hScan
  simpa [Source.scan, Source.chars, Print.text] using hScan

end Slate
