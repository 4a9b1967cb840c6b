import Slate.Proofs.Parser.Equations
import Slate.Proofs.Print

/-! # Reading what was printed

The places of an expression are numbered by how tightly a tree has to hold together to stand there without
brackets: `0` takes any expression, `1` comparisons, `2` sums, `3` products and `4` atoms.
What a tree was printed as at a place is read back at that place, if the next token does not carry it on.
-/

namespace Slate.Parser
set_option autoImplicit false

/-! ## Single tokens -/

section Tokens

variable (lexeme : Lexeme) (span : Span) (rest : List Token)

theorem ok_bind {α β : Type} (value : α) (next : α → Except Rejection β) :
    (Except.ok value >>= next) = next value := rfl

theorem run_expect_self (expected : Expectation) :
    run (expect lexeme expected (⟨lexeme, span⟩ :: rest)) = .ok (span, rest) := by
  rw [run_expect]
  exact if_pos rfl

theorem next?_self : next? lexeme (⟨lexeme, span⟩ :: rest) = some (span, rest) := by
  simp [next?, eat?]

theorem next?_of_ne {token : Token} (h : token.lexeme ≠ lexeme) : next? lexeme (token :: rest) = none := by
  simp [next?, eat?, h]

theorem run_sequence_skip (elseToo : Bool) :
    runMaybe (sequence elseToo (skip lexeme (⟨lexeme, span⟩ :: rest)).rest) =
      runMaybe (sequence elseToo rest) := by
  have hRest : (skip lexeme (⟨lexeme, span⟩ :: rest)).rest = rest := by
    simp [skip]
  rw [hRest]

theorem rest_skipSeparators_self :
    (skipSeparators (⟨.semicolon, span⟩ :: rest)).rest = (skipSeparators rest).rest := by
  simp [skipSeparators]

theorem rest_skipSeparators_of_ne {token : Token} (h : token.lexeme ≠ .semicolon) :
    (skipSeparators (token :: rest)).rest = token :: rest := by
  simp [skipSeparators, h]

theorem eq_cons_of_map {ts : List Token} {lexemes : List Lexeme} (h : ts.map Token.lexeme = lexeme :: lexemes) :
    ∃ span us, ts = ⟨lexeme, span⟩ :: us ∧ us.map Token.lexeme = lexemes := by
  obtain ⟨⟨_, span⟩, us, hTokens, rfl, hMore⟩ := List.map_eq_cons_iff.mp h
  exact ⟨span, us, hTokens, hMore⟩

theorem eq_singleton_of_map {ts : List Token} (h : ts.map Token.lexeme = [lexeme]) :
    ∃ span, ts = [⟨lexeme, span⟩] := by
  obtain ⟨span, us, rfl, hMore⟩ := eq_cons_of_map lexeme h
  exact ⟨span, by rw [List.map_eq_nil_iff.mp hMore]⟩

theorem run_identifier_self (name : String) :
    run (identifier (⟨.identifier name, span⟩ :: rest)) = .ok (⟨name, span⟩, rest) := rfl

end Tokens

/-! ## What carries an expression on -/

/-- The tightest place at which a lexeme carries an expression on. -/
def continues? : Lexeme → Option Nat
  | .openParen => some 4
  | .asterisk => some 3
  | .plus | .minus => some 2
  | .doubleEquals | .lessThan | .lessOrEqual | .greaterThan | .greaterOrEqual => some 1
  | .equals => some 0
  | _ => none

/-- The next token does not carry on what was read at a place. -/
def Stops (place : Nat) : List Token → Prop
  | [] => True
  | token :: _ => ∀ other ∈ continues? token.lexeme, other < place

theorem Stops.mono {low high : Nat} {tokens : List Token} (h : Stops low tokens) (hLe : low ≤ high) :
    Stops high tokens := by
  cases tokens with
  | nil => trivial
  | cons token rest => exact fun other hOther => Nat.lt_of_lt_of_le (h other hOther) hLe

theorem Stops.of_none {token : Token} {rest : List Token} (place : Nat)
    (h : continues? token.lexeme = none) : Stops place (token :: rest) := by
  intro other hOther
  rw [h] at hOther
  cases hOther

def Level.place : Level → Nat
  | .sum => 2
  | .product => 3

/-- Reading an expression at a place. -/
def readAt : Nat → List Token → Except Rejection (Expr × List Token)
  | 0, tokens => run (expression tokens)
  | 1, tokens => run (comparison tokens)
  | 2, tokens => run (chain .sum tokens)
  | 3, tokens => run (chain .product tokens)
  | _, tokens => run (atom tokens)

/-- What is done after the tokens of a tree: a chain looks for more operands. -/
def carryOn : Nat → Expr → List Token → Except Rejection (Expr × List Token)
  | 2, e, tokens => runMaybe (chainFrom .sum e tokens)
  | 3, e, tokens => runMaybe (chainFrom .product e tokens)
  | _, e, tokens => .ok (e, tokens)

/-- A chain may go on behind the tree. -/
def reach : Nat → Nat
  | 2 => 3
  | 3 => 4
  | place => place

theorem le_reach (place : Nat) : place ≤ reach place := by
  unfold reach
  split <;> omega

theorem continues?_of_operator? {level : Level} {lexeme : Lexeme} {op : Arith}
    (h : level.operator? lexeme = some op) : continues? lexeme = some level.place := by
  unfold Level.operator? at h
  split at h
  · rfl
  · rfl
  · rfl
  · cases h

theorem continues?_of_comparison? {lexeme : Lexeme} {op : Comparison} (h : comparison? lexeme = some op) :
    continues? lexeme = some 1 := by
  unfold comparison? at h
  split at h
  · rfl
  · rfl
  · rfl
  · rfl
  · rfl
  · cases h

theorem comparison?_of_stops {token : Token} {rest : List Token} (h : Stops 1 (token :: rest)) :
    comparison? token.lexeme = none := by
  cases hOp : comparison? token.lexeme with
  | none => rfl
  | some op => exact absurd (h _ (continues?_of_comparison? hOp)) (by decide)

theorem Stops.ne {place : Nat} {token : Token} {rest : List Token} {lexeme : Lexeme}
    (h : Stops place (token :: rest)) (hLexeme : continues? lexeme = some place) : token.lexeme ≠ lexeme := by
  intro hEq
  rw [← hEq] at hLexeme
  exact absurd (h place hLexeme) (Nat.lt_irrefl place)

theorem chainFrom_of_stops {level : Level} {e : Expr} {tokens : List Token} (h : Stops level.place tokens) :
    runMaybe (chainFrom level e tokens) = .ok (e, tokens) := by
  rw [run_chainFrom]
  cases tokens with
  | nil => rfl
  | cons token rest =>
    cases hOp : level.operator? token.lexeme with
    | none => simp only [hOp]
    | some op =>
      have hLess := h _ (continues?_of_operator? hOp)
      omega

theorem carryOn_of_stops {place : Nat} {e : Expr} {tokens : List Token} (h : Stops place tokens) :
    carryOn place e tokens = .ok (e, tokens) := by
  unfold carryOn
  split
  · exact chainFrom_of_stops h
  · exact chainFrom_of_stops h
  · rfl

/-- What a tree was printed as at a place is read there. -/
def ReadsAt (spelled : Bool) (e : Expr) (place : Nat) : Prop :=
  ∀ ts rest : List Token, ts.map Token.lexeme = Print.wrap place e (Print.expression spelled e) →
    Stops (reach place) rest →
      ∃ e' : Expr, e'.unplaced = e.unplaced ∧ readAt place (ts ++ rest) = carryOn place e' rest

section Places

variable {spelled : Bool} {e : Expr} {place : Nat}

theorem ReadsAt.read (h : ReadsAt spelled e place) (ts rest : List Token)
    (hTokens : ts.map Token.lexeme = Print.wrap place e (Print.expression spelled e))
    (hRest : Stops place rest) :
    ∃ e' : Expr, e'.unplaced = e.unplaced ∧ readAt place (ts ++ rest) = .ok (e', rest) := by
  obtain ⟨e', hSame, hRead⟩ := h ts rest hTokens (hRest.mono (le_reach place))
  exact ⟨e', hSame, hRead.trans (carryOn_of_stops hRest)⟩

theorem wrap_eq_of_le {lexemes : List Lexeme} (h : place ≤ Print.rank e) :
    Print.wrap place e lexemes = lexemes := by
  rw [Print.wrap, if_neg (by omega)]

/-- A tree that is not of a place itself is read there as it is read one place further in. -/
theorem ReadsAt.step (h : ReadsAt spelled e (place + 1)) (hPlace : place < 4) (hRank : Print.rank e ≠ place) :
    ReadsAt spelled e place := by
  intro ts rest hTokens hRest
  -- only a tree of this very place stands bare here and in brackets one place further in
  have hWrap : Print.wrap place e (Print.expression spelled e) =
      Print.wrap (place + 1) e (Print.expression spelled e) := by
    rw [Print.wrap, Print.wrap]
    congr 1
    simp only [eq_iff_iff]
    omega
  rw [hWrap] at hTokens
  obtain rfl | rfl | rfl | rfl : place = 3 ∨ place = 2 ∨ place = 1 ∨ place = 0 := by omega
  · obtain ⟨e', hSame, hRead⟩ := h.read ts rest hTokens hRest
    refine ⟨e', hSame, ?_⟩
    rw [readAt, run_chain, run_operand]
    exact congrArg (· >>= _) hRead
  · obtain ⟨e', hSame, hRead⟩ := h.read ts rest hTokens hRest
    refine ⟨e', hSame, ?_⟩
    rw [readAt, run_chain, run_operand]
    exact congrArg (· >>= _) hRead
  · obtain ⟨e', hSame, hRead⟩ := h.read ts rest hTokens (hRest.mono (by decide))
    refine ⟨e', hSame, ?_⟩
    rw [readAt, run_comparison]
    refine (congrArg (· >>= _) hRead).trans ?_
    rw [ok_bind]
    cases rest with
    | nil => rfl
    | cons token after =>
      simp only [comparison?_of_stops hRest]
      rfl
  · obtain ⟨e', hSame, hRead⟩ := h.read ts rest hTokens (hRest.mono (by decide))
    refine ⟨e', hSame, ?_⟩
    rw [readAt, run_expression]
    refine (congrArg (· >>= _) hRead).trans ?_
    rw [ok_bind]
    cases rest with
    | nil => rfl
    | cons token after => exact if_neg (Stops.ne hRest rfl)

theorem ReadsAt.descend {low high : Nat} (h : ReadsAt spelled e high) (hHigh : high ≤ 4) (hLe : low ≤ high)
    (hRank : ∀ place, low ≤ place → place < high → Print.rank e ≠ place) : ReadsAt spelled e low := by
  induction high, hLe using Nat.le_induction with
  | base => exact h
  | succ high hLe ih =>
    exact ih (h.step (by omega) (hRank high hLe (by omega))) (by omega)
      fun place hLow hLess => hRank place hLow (by omega)

/-- In brackets any tree is an atom. -/
theorem ReadsAt.brackets (h : ReadsAt spelled e 0) (hRank : Print.rank e < 4) : ReadsAt spelled e 4 := by
  intro ts rest hTokens hRest
  rw [Print.wrap, if_pos hRank] at hTokens
  obtain ⟨first, _, rfl, hMore⟩ := eq_cons_of_map _ hTokens
  obtain ⟨inner, _, rfl, hInner, hBack⟩ := List.map_eq_append_iff.mp hMore
  obtain ⟨last, rfl⟩ := eq_singleton_of_map _ hBack
  obtain ⟨e', hSame, hRead⟩ := h.read inner (⟨.closeParen, last⟩ :: rest)
    (hInner.trans (wrap_eq_of_le (by omega)).symm) (.of_none 0 rfl)
  refine ⟨e'.withSpan (first.through last), (Expr.unplaced_withSpan _ _).trans hSame, ?_⟩
  rw [readAt] at hRead
  simp only [readAt, run_atom, List.cons_append, List.append_assoc, List.nil_append, hRead, ok_bind,
    expectExactly, run_expect_self]
  rfl

/-- What a tree was printed as is read at the tree's own place. -/
def Reads (spelled : Bool) (e : Expr) : Prop :=
  ∀ ts rest : List Token, ts.map Token.lexeme = Print.expression spelled e → Stops (reach (Print.rank e)) rest →
    ∃ e' : Expr, e'.unplaced = e.unplaced ∧ readAt (Print.rank e) (ts ++ rest) = carryOn (Print.rank e) e' rest

/-- Then it is read at all places. -/
theorem Reads.everywhere (hOwn : Reads spelled e) (place : Nat) (hPlace : place ≤ 4) :
    ReadsAt spelled e place := by
  have h : ReadsAt spelled e (Print.rank e) := fun ts rest hTokens =>
    hOwn ts rest (hTokens.trans (wrap_eq_of_le (Nat.le_refl _)))
  have hRank : Print.rank e ≤ 4 := by
    cases e with
    | binary _ op _ _ => cases op <;> simp [Print.rank, Print.operatorRank]
    | int | compare | «variable» | assign | branch | loop | call => simp [Print.rank]
  -- outwards from its own place a tree stands bare; further in, it is the brackets that are read
  by_cases hLe : place ≤ Print.rank e
  · exact h.descend hRank hLe fun other _ hLess => by omega
  · have hZero : ReadsAt spelled e 0 := h.descend hRank (by omega) fun other _ hLess => by omega
    exact (hZero.brackets (by omega)).descend (by omega) hPlace fun other hLow _ => by omega

theorem Reads.read (h : Reads spelled e) (ts rest : List Token)
    (hTokens : ts.map Token.lexeme = Print.expression spelled e) (hRest : Stops 0 rest) :
    ∃ e' : Expr, e'.unplaced = e.unplaced ∧ run (expression (ts ++ rest)) = .ok (e', rest) :=
  (h.everywhere 0 (by decide)).read ts rest (hTokens.trans (wrap_eq_of_le (Nat.zero_le _)).symm) hRest

end Places

/-! ## Operators -/

section Operators

variable {spelled : Bool} {lhs rhs : Expr}

theorem reach_operatorRank (op : Arith) : reach (Print.operatorRank op) = Print.operatorRank op + 1 := by
  cases op <;> rfl

theorem stops_operator (op : Arith) (span : Span) (rest : List Token) :
    Stops (reach (Print.operatorRank op)) (⟨op.lexeme, span⟩ :: rest) := by
  cases op <;> rintro other ⟨⟩ <;> decide

/-- One more operand of a chain. -/
theorem carryOn_operator (op : Arith) (span : Span) (e : Expr) (tokens : List Token) :
    carryOn (Print.operatorRank op) e (⟨op.lexeme, span⟩ :: tokens) =
      readAt (Print.operatorRank op + 1) tokens >>= fun (rhs, left) =>
        carryOn (Print.operatorRank op) (.binary (e.span.through rhs.span) op e rhs) left := by
  cases op <;> exact (run_chainFrom _ _ _).trans (congrArg (· >>= _) (run_operand _ _))

theorem reads_binary (span : Span) (op : Arith) (hLeft : Reads spelled lhs) (hRight : Reads spelled rhs) :
    Reads spelled (.binary span op lhs rhs) := by
  intro ts rest hTokens hRest
  have hRank : Print.operatorRank op + 1 ≤ 4 := by
    cases op <;> decide
  rw [Print.expression] at hTokens
  obtain ⟨ls, _, rfl, hLs, hMore⟩ := List.map_eq_append_iff.mp hTokens
  obtain ⟨at_, rs, rfl, hRs⟩ := eq_cons_of_map _ hMore
  rw [Print.rank, reach_operatorRank] at hRest
  -- the left operand is no expression of its own: the loop that reads the chain is already running
  obtain ⟨l, hL, hReadL⟩ := hLeft.everywhere _ (by omega) ls (⟨op.lexeme, at_⟩ :: (rs ++ rest)) hLs
    (stops_operator op at_ _)
  obtain ⟨r, hR, hReadR⟩ := (hRight.everywhere _ hRank).read rs rest hRs hRest
  refine ⟨.binary (l.span.through r.span) op l r, by simp only [Expr.unplaced, hL, hR], ?_⟩
  rw [List.append_assoc, List.cons_append, Print.rank, hReadL, carryOn_operator, hReadR, ok_bind]

theorem comparison?_lexeme (op : Comparison) : comparison? op.lexeme = some op := by
  cases op <;> rfl

theorem reads_compare (span : Span) (op : Comparison) (hLeft : Reads spelled lhs) (hRight : Reads spelled rhs) :
    Reads spelled (.compare span op lhs rhs) := by
  intro ts rest hTokens hRest
  rw [Print.rank] at hRest
  rw [Print.expression] at hTokens
  obtain ⟨ls, _, rfl, hLs, hMore⟩ := List.map_eq_append_iff.mp hTokens
  obtain ⟨at_, rs, rfl, hRs⟩ := eq_cons_of_map _ hMore
  have hStops : Stops 2 (⟨op.lexeme, at_⟩ :: (rs ++ rest)) := by
    cases op <;> rintro other ⟨⟩ <;> decide
  obtain ⟨l, hL, hReadL⟩ :=
    (hLeft.everywhere 2 (by decide)).read ls (⟨op.lexeme, at_⟩ :: (rs ++ rest)) hLs hStops
  obtain ⟨r, hR, hReadR⟩ := (hRight.everywhere 2 (by decide)).read rs rest hRs (hRest.mono (by decide))
  refine ⟨.compare (l.span.through r.span) op l r, by simp only [Expr.unplaced, hL, hR], ?_⟩
  rw [readAt] at hReadL hReadR
  rw [List.append_assoc, List.cons_append, Print.rank, readAt, run_comparison, hReadL, ok_bind]
  simp only [comparison?_lexeme, hReadR, ok_bind]
  rfl

end Operators

/-! ## Constants and names -/

section Leaves

variable {spelled : Bool}

theorem ofInt?_toInt (word : Word) : Word.ofInt? word.toInt = some word := by
  have hLow := Int32.le_toInt word
  have hHigh := Int32.toInt_lt word
  rw [Word.ofInt?, if_pos (by omega), Int32.ofInt_toInt]

theorem decimalValue_toString (n : Nat) : decimalValue (toString n) = n := by
  have hList : (toString n).toList = Nat.toDigits 10 n := Nat.toList_repr
  rw [decimalValue, hList]
  exact Nat.ofDigitChars_toDigits (by decide) (by decide)

theorem constant_toString (span : Span) (word : Word) :
    constant span (decide (word.toInt < 0)) (toString word.toInt.natAbs) = .ok (.int span word) := by
  have hValue : (if decide (word.toInt < 0) = true then -(word.toInt.natAbs : Int) else word.toInt.natAbs) =
      word.toInt := by
    simp only [decide_eq_true_eq]
    split <;> omega
  simp only [constant, decimalValue_toString, hValue, ofInt?_toInt]

theorem reads_int (span : Span) (word : Word) : Reads spelled (.int span word) := by
  intro ts rest hTokens _
  rw [Print.expression, Print.constant] at hTokens
  split at hTokens
  · rename_i hNegative
    obtain ⟨sign, _, rfl, hMore⟩ := eq_cons_of_map _ hTokens
    obtain ⟨at_, rfl⟩ := eq_singleton_of_map _ hMore
    refine ⟨.int (sign.through at_) word, rfl, ?_⟩
    have hConstant := constant_toString (sign.through at_) word
    rw [decide_eq_true hNegative] at hConstant
    simp only [Print.rank, readAt, run_atom, List.cons_append, List.nil_append, negativeConstant, hConstant]
    rfl
  · rename_i hPositive
    obtain ⟨at_, rfl⟩ := eq_singleton_of_map _ hTokens
    refine ⟨.int at_ word, rfl, ?_⟩
    have hConstant := constant_toString at_ word
    rw [decide_eq_false hPositive] at hConstant
    simp only [Print.rank, readAt, run_atom, List.cons_append, List.nil_append, hConstant]
    rfl

theorem reads_variable (span : Span) (name : Name) : Reads spelled (.variable span name) := by
  intro ts rest hTokens hRest
  rw [Print.rank] at hRest
  rw [Print.expression] at hTokens
  obtain ⟨at_, rfl⟩ := eq_singleton_of_map _ hTokens
  refine ⟨.variable at_ ⟨name.text, at_⟩, rfl, ?_⟩
  have hNone : next? .openParen rest = none := by
    cases rest with
    | nil => rfl
    | cons token after => exact next?_of_ne _ _ (Stops.ne hRest rfl)
  simp only [Print.rank, readAt, run_atom, List.cons_append, List.nil_append, hNone]
  rfl

theorem reads_assign (span : Span) (target : Name) {value : Expr} (h : Reads spelled value) :
    Reads spelled (.assign span target value) := by
  intro ts rest hTokens hRest
  rw [Print.expression] at hTokens
  obtain ⟨at_, _, rfl, hMore⟩ := eq_cons_of_map _ hTokens
  obtain ⟨equals, vs, rfl, hVs⟩ := eq_cons_of_map _ hMore
  have hVariable : ReadsAt spelled (.variable default target) 1 :=
    (reads_variable default target).everywhere 1 (by decide)
  obtain ⟨left, hLeft, hReadLeft⟩ := hVariable.read [⟨.identifier target.text, at_⟩]
    (⟨.equals, equals⟩ :: (vs ++ rest)) (by rw [wrap_eq_of_le (by simp [Print.rank])]; rfl)
    (by rintro other ⟨⟩; decide)
  obtain ⟨v, hV, hReadV⟩ := h.read vs rest hVs hRest
  cases left with
  | «variable» span' name =>
    have hName : name.unplaced = target.unplaced := by simpa [Expr.unplaced] using hLeft
    refine ⟨.assign (span'.through v.span) name v, by simp only [Expr.unplaced, hName, hV], ?_⟩
    rw [readAt] at hReadLeft
    change run (expression _) = _
    rw [run_expression]
    simp only [List.cons_append, List.nil_append] at hReadLeft ⊢
    simp only [hReadLeft, ok_bind, if_pos, target?, hReadV]
    rfl
  | _ => simp [Expr.unplaced] at hLeft

end Leaves

/-! ## How printed expressions start -/

/-- The lexemes an expression starts with. -/
def opens : Lexeme → Bool
  | .integer _ | .minus | .identifier _ | .openParen | .keyword .if_ | .keyword .for_ => true
  | _ => false

theorem opens_wrap {place : Nat} {e : Expr} {lexemes : List Lexeme}
    (h : ∃ first ∈ lexemes.head?, opens first = true) :
    ∃ first ∈ (Print.wrap place e lexemes).head?, opens first = true := by
  rw [Print.wrap]
  split
  · exact ⟨_, rfl, rfl⟩
  · exact h

theorem opens_append {lexemes more : List Lexeme} (h : ∃ first ∈ lexemes.head?, opens first = true) :
    ∃ first ∈ (lexemes ++ more).head?, opens first = true := by
  cases lexemes with
  | nil =>
    obtain ⟨first, hFirst, _⟩ := h
    cases hFirst
  | cons first rest => exact h

theorem opens_expression (spelled : Bool) :
    ∀ e : Expr, ∃ first ∈ (Print.expression spelled e).head?, opens first = true
  | .int _ value => by
    rw [Print.expression, Print.constant]
    split <;> exact ⟨_, rfl, rfl⟩
  | .binary _ _ lhs _ => by
    rw [Print.expression]
    exact opens_append (opens_wrap (opens_expression spelled lhs))
  | .compare _ _ lhs _ => by
    rw [Print.expression]
    exact opens_append (opens_wrap (opens_expression spelled lhs))
  | .variable .. | .assign .. | .branch .. | .loop .. | .call .. => by
    rw [Print.expression]
    exact ⟨_, rfl, rfl⟩

theorem exists_opens {spelled : Bool} {e : Expr} {ts : List Token}
    (h : ts.map Token.lexeme = Print.expression spelled e) :
    ∃ token us, ts = token :: us ∧ opens token.lexeme = true := by
  obtain ⟨first, hFirst, hOpens⟩ := opens_expression spelled e
  rw [← h] at hFirst
  cases ts with
  | nil => cases hFirst
  | cons token us =>
    cases hFirst
    exact ⟨token, us, rfl, hOpens⟩

theorem ne_of_opens {lexeme other : Lexeme} (h : opens lexeme = true) (hOther : opens other = false) :
    lexeme ≠ other := by
  rintro rfl
  rw [h] at hOther
  cases hOther

theorem closes_of_opens {lexeme : Lexeme} (h : opens lexeme = true) (elseToo : Bool) :
    closes elseToo lexeme = false := by
  unfold closes
  split
  · cases h
  · cases h
  · rfl

/-! ## Lists of expressions -/

section Lists

variable {spelled : Bool} {es : List Expr}

/-- A printed sequence is read up to the keyword that closes it. -/
theorem sequence_printed (h : ∀ e ∈ es, Reads spelled e) (elseToo : Bool) (ts : List Token) (close : Token)
    (rest : List Token) (hTokens : ts.map Token.lexeme = Print.sequence spelled es)
    (hClose : closes elseToo close.lexeme = true) :
    ∃ es', unplacedAll es' = unplacedAll es ∧
      runMaybe (sequence elseToo (ts ++ close :: rest)) = .ok (es', close :: rest) := by
  induction es generalizing ts with
  | nil =>
    rw [Print.sequence, List.map_eq_nil_iff] at hTokens
    subst hTokens
    refine ⟨[], rfl, ?_⟩
    have hNot : close.lexeme ≠ .semicolon := by
      intro hEq
      rw [hEq] at hClose
      cases hClose
    rw [List.nil_append, run_sequence, rest_skipSeparators_of_ne _ hNot]
    exact if_pos hClose
  | cons first others ih =>
    rw [Print.sequence] at hTokens
    obtain ⟨fs, _, rfl, hFs, hMore⟩ := List.map_eq_append_iff.mp hTokens
    obtain ⟨at_, us, rfl, hUs⟩ := eq_cons_of_map _ hMore
    obtain ⟨e', hE, hReadE⟩ := (h first List.mem_cons_self).read fs
      (⟨.semicolon, at_⟩ :: (us ++ close :: rest)) hFs (.of_none 0 rfl)
    obtain ⟨es', hEs, hReadEs⟩ := ih (fun e hMem => h e (List.mem_cons_of_mem _ hMem)) us hUs
    refine ⟨e' :: es', by simp only [unplacedAll, hE, hEs], ?_⟩
    obtain ⟨token, fs, rfl, hOpens⟩ := exists_opens hFs
    have hSeparator : runMaybe (sequence elseToo (⟨.semicolon, at_⟩ :: (us ++ close :: rest))) =
        .ok (es', close :: rest) := by
      rw [run_sequence, rest_skipSeparators_self, ← run_sequence, hReadEs]
    rw [List.append_assoc, List.cons_append, List.cons_append, run_sequence,
      rest_skipSeparators_of_ne _ (ne_of_opens hOpens rfl)]
    rw [List.cons_append] at hReadE
    simp only [closes_of_opens hOpens, hReadE, ok_bind, hSeparator]
    rfl

theorem stops_moreArguments (place : Nat) {ts : List Token} {close : Span} {rest : List Token}
    (h : ts.map Token.lexeme = Print.moreArguments spelled es) :
    Stops place (ts ++ ⟨.closeParen, close⟩ :: rest) := by
  cases es with
  | nil =>
    obtain rfl := List.map_eq_nil_iff.mp h
    exact .of_none place rfl
  | cons first others =>
    rw [Print.moreArguments] at h
    obtain ⟨at_, us, rfl, _⟩ := eq_cons_of_map _ h
    exact .of_none place rfl

theorem moreArguments_printed (h : ∀ e ∈ es, Reads spelled e) (ts : List Token) (close : Span)
    (rest : List Token) (hTokens : ts.map Token.lexeme = Print.moreArguments spelled es) :
    ∃ es', unplacedAll es' = unplacedAll es ∧
      run (moreArguments (ts ++ ⟨.closeParen, close⟩ :: rest)) = .ok ((es', close), rest) := by
  induction es generalizing ts with
  | nil =>
    rw [Print.moreArguments, List.map_eq_nil_iff] at hTokens
    subst hTokens
    refine ⟨[], rfl, ?_⟩
    rw [List.nil_append, run_moreArguments, next?_of_ne _ _ (by simp)]
    simp only [run_expect_self, ok_bind]
    rfl
  | cons first others ih =>
    rw [Print.moreArguments] at hTokens
    obtain ⟨at_, _, rfl, hMore⟩ := eq_cons_of_map _ hTokens
    obtain ⟨fs, us, rfl, hFs, hUs⟩ := List.map_eq_append_iff.mp hMore
    obtain ⟨e', hE, hReadE⟩ := (h first List.mem_cons_self).read fs (us ++ ⟨.closeParen, close⟩ :: rest) hFs
      (stops_moreArguments 0 hUs)
    obtain ⟨es', hEs, hReadEs⟩ := ih (fun e hMem => h e (List.mem_cons_of_mem _ hMem)) us hUs
    refine ⟨e' :: es', by simp only [unplacedAll, hE, hEs], ?_⟩
    rw [List.cons_append, List.append_assoc, run_moreArguments, next?_self]
    simp only [hReadE, ok_bind, hReadEs]
    rfl

theorem arguments_printed (h : ∀ e ∈ es, Reads spelled e) (ts : List Token) (close : Span) (rest : List Token)
    (hTokens : ts.map Token.lexeme = Print.argumentList spelled es) :
    ∃ es', unplacedAll es' = unplacedAll es ∧
      run (arguments (ts ++ ⟨.closeParen, close⟩ :: rest)) = .ok ((es', close), rest) := by
  cases es with
  | nil =>
    rw [Print.argumentList, List.map_eq_nil_iff] at hTokens
    subst hTokens
    refine ⟨[], rfl, ?_⟩
    rw [List.nil_append, run_arguments, next?_self]
  | cons first others =>
    rw [Print.argumentList] at hTokens
    obtain ⟨fs, us, rfl, hFs, hUs⟩ := List.map_eq_append_iff.mp hTokens
    obtain ⟨e', hE, hReadE⟩ := (h first List.mem_cons_self).read fs (us ++ ⟨.closeParen, close⟩ :: rest) hFs
      (stops_moreArguments 0 hUs)
    obtain ⟨es', hEs, hReadEs⟩ := moreArguments_printed
      (fun e hMem => h e (List.mem_cons_of_mem _ hMem)) us close rest hUs
    refine ⟨e' :: es', by simp only [unplacedAll, hE, hEs], ?_⟩
    obtain ⟨token, fs, rfl, hOpens⟩ := exists_opens hFs
    rw [List.append_assoc, List.cons_append, run_arguments, next?_of_ne _ _ (ne_of_opens hOpens rfl)]
    rw [List.cons_append] at hReadE
    simp only [hReadE, ok_bind, hReadEs]
    rfl

theorem reads_call (span : Span) (callee : Name) (h : ∀ e ∈ es, Reads spelled e) :
    Reads spelled (.call span callee es) := by
  intro ts rest hTokens _
  rw [Print.expression] at hTokens
  obtain ⟨at_, _, rfl, hMore⟩ := eq_cons_of_map _ hTokens
  obtain ⟨opened, _, rfl, hBehind⟩ := eq_cons_of_map _ hMore
  obtain ⟨vs, _, rfl, hVs, hLast⟩ := List.map_eq_append_iff.mp hBehind
  obtain ⟨close, rfl⟩ := eq_singleton_of_map _ hLast
  obtain ⟨es', hEs, hReadEs⟩ := arguments_printed h vs close rest hVs
  refine ⟨.call (at_.through close) ⟨callee.text, at_⟩ es', by simp only [Expr.unplaced, hEs, Name.unplaced], ?_⟩
  simp only [Print.rank, readAt, run_atom, List.cons_append, List.append_assoc, List.nil_append, next?_self,
    hReadEs, ok_bind]
  rfl

theorem otherArm_printed (h : ∀ e ∈ es, Reads spelled e) (ts : List Token) (close : Span) (rest : List Token)
    (hTokens : ts.map Token.lexeme = Print.otherArm spelled es (Print.sequence spelled es)) :
    ∃ es', unplacedAll es' = unplacedAll es ∧
      runMaybe (otherArm (ts ++ ⟨.keyword .end_, close⟩ :: rest)) =
        .ok (es', ⟨.keyword .end_, close⟩ :: rest) := by
  rw [Print.otherArm] at hTokens
  split at hTokens
  · rename_i hAbsent
    rw [Bool.and_eq_true, List.isEmpty_iff] at hAbsent
    obtain ⟨rfl, _⟩ := hAbsent
    obtain rfl := List.map_eq_nil_iff.mp hTokens
    refine ⟨[], rfl, ?_⟩
    rw [List.nil_append, run_otherArm, next?_of_ne _ _ (by simp)]
  · obtain ⟨at_, us, rfl, hUs⟩ := eq_cons_of_map _ hTokens
    obtain ⟨es', hEs, hReadEs⟩ := sequence_printed h false us ⟨.keyword .end_, close⟩ rest hUs rfl
    refine ⟨es', hEs, ?_⟩
    rw [List.cons_append, run_otherArm, next?_self]
    exact hReadEs

/-- The first arm of a conditional ends where the second starts or the conditional ends. -/
theorem exists_closes (ts : List Token) (close : Span) (rest : List Token)
    (hTokens : ts.map Token.lexeme = Print.otherArm spelled es (Print.sequence spelled es)) :
    ∃ token after, ts ++ ⟨.keyword .end_, close⟩ :: rest = token :: after ∧ closes true token.lexeme = true := by
  rw [Print.otherArm] at hTokens
  split at hTokens
  · obtain rfl := List.map_eq_nil_iff.mp hTokens
    exact ⟨_, _, rfl, rfl⟩
  · obtain ⟨at_, us, rfl, _⟩ := eq_cons_of_map _ hTokens
    exact ⟨_, _, rfl, rfl⟩

theorem reads_branch (span : Span) {condition : Expr} {positive negative : List Expr}
    (hCondition : Reads spelled condition) (hPositive : ∀ e ∈ positive, Reads spelled e)
    (hNegative : ∀ e ∈ negative, Reads spelled e) :
    Reads spelled (.branch span condition positive negative) := by
  intro ts rest hTokens _
  rw [Print.expression] at hTokens
  obtain ⟨keyword, _, rfl, hMore⟩ := eq_cons_of_map _ hTokens
  obtain ⟨cs, _, rfl, hCs, hBehind⟩ := List.map_eq_append_iff.mp hMore
  obtain ⟨then_, _, rfl, hArms⟩ := eq_cons_of_map _ hBehind
  obtain ⟨ps, _, rfl, hPs, hOther⟩ := List.map_eq_append_iff.mp hArms
  obtain ⟨ns, _, rfl, hNs, hLast⟩ := List.map_eq_append_iff.mp hOther
  obtain ⟨close, rfl⟩ := eq_singleton_of_map _ hLast
  obtain ⟨c, hC, hReadC⟩ := hCondition.read cs
    (⟨.keyword .then_, then_⟩ :: (ps ++ (ns ++ ⟨.keyword .end_, close⟩ :: rest))) hCs (.of_none 0 rfl)
  obtain ⟨token, after, hToken, hCloses⟩ := exists_closes ns close rest hNs
  obtain ⟨p, hP, hReadP⟩ := sequence_printed hPositive true ps token after hPs hCloses
  obtain ⟨n, hN, hReadN⟩ := otherArm_printed hNegative ns close rest hNs
  rw [← hToken] at hReadP
  refine ⟨.branch (keyword.through close) c p n, by simp only [Expr.unplaced, hC, hP, hN], ?_⟩
  simp only [Print.rank, readAt, run_atom, List.cons_append, List.append_assoc, List.nil_append, run_conditional,
    hReadC, ok_bind, run_sequence_skip, hReadP, hReadN, expectExactly, run_expect_self]
  rfl

theorem reads_loop (span : Span) {initializer condition step : Expr} {body : List Expr}
    (hInitializer : Reads spelled initializer) (hCondition : Reads spelled condition)
    (hStep : Reads spelled step) (hBody : ∀ e ∈ body, Reads spelled e) :
    Reads spelled (.loop span initializer condition step body) := by
  intro ts rest hTokens _
  rw [Print.expression] at hTokens
  obtain ⟨keyword, _, rfl, hMore⟩ := eq_cons_of_map _ hTokens
  obtain ⟨is, _, rfl, hIs, hFirst⟩ := List.map_eq_append_iff.mp hMore
  obtain ⟨at₁, _, rfl, hBehind⟩ := eq_cons_of_map _ hFirst
  obtain ⟨cs, _, rfl, hCs, hSecond⟩ := List.map_eq_append_iff.mp hBehind
  obtain ⟨at₂, _, rfl, hThird⟩ := eq_cons_of_map _ hSecond
  obtain ⟨ss, _, rfl, hSs, hFourth⟩ := List.map_eq_append_iff.mp hThird
  obtain ⟨do_, _, rfl, hFifth⟩ := eq_cons_of_map _ hFourth
  obtain ⟨bs, _, rfl, hBs, hLast⟩ := List.map_eq_append_iff.mp hFifth
  obtain ⟨close, rfl⟩ := eq_singleton_of_map _ hLast
  obtain ⟨b, hB, hReadB⟩ := sequence_printed hBody false bs ⟨.keyword .end_, close⟩ rest hBs rfl
  obtain ⟨s, hS, hReadS⟩ := hStep.read ss (⟨.keyword .do_, do_⟩ :: (bs ++ ⟨.keyword .end_, close⟩ :: rest)) hSs
    (.of_none 0 rfl)
  obtain ⟨c, hC, hReadC⟩ := hCondition.read cs
    (⟨.semicolon, at₂⟩ :: (ss ++ ⟨.keyword .do_, do_⟩ :: (bs ++ ⟨.keyword .end_, close⟩ :: rest))) hCs
    (.of_none 0 rfl)
  obtain ⟨i, hI, hReadI⟩ := hInitializer.read is
    (⟨.semicolon, at₁⟩ :: (cs ++ ⟨.semicolon, at₂⟩ ::
      (ss ++ ⟨.keyword .do_, do_⟩ :: (bs ++ ⟨.keyword .end_, close⟩ :: rest)))) hIs (.of_none 0 rfl)
  refine ⟨.loop (keyword.through close) i c s b, by simp only [Expr.unplaced, hI, hC, hS, hB], ?_⟩
  simp only [Print.rank, readAt, run_atom, List.cons_append, List.append_assoc, List.nil_append, run_loop,
    hReadI, hReadC, hReadS, hReadB, ok_bind, run_sequence_skip, expectExactly, run_expect_self]
  rfl

end Lists

/-! ## All expressions -/

mutual

theorem reads (spelled : Bool) : ∀ e : Expr, Reads spelled e
  | .int span value => reads_int span value
  | .binary span op lhs rhs => reads_binary span op (reads spelled lhs) (reads spelled rhs)
  | .compare span op lhs rhs => reads_compare span op (reads spelled lhs) (reads spelled rhs)
  | .variable span name => reads_variable span name
  | .assign span target value => reads_assign span target (reads spelled value)
  | .branch span condition positive negative =>
    reads_branch span (reads spelled condition) (readsAll spelled positive) (readsAll spelled negative)
  | .loop span initializer condition step body =>
    reads_loop span (reads spelled initializer) (reads spelled condition) (reads spelled step)
      (readsAll spelled body)
  | .call span callee arguments => reads_call span callee (readsAll spelled arguments)

theorem readsAll (spelled : Bool) : ∀ es : List Expr, ∀ e ∈ es, Reads spelled e
  | [] => List.forall_mem_nil _
  | first :: rest => List.forall_mem_cons.mpr ⟨reads spelled first, readsAll spelled rest⟩

end

end Slate.Parser
