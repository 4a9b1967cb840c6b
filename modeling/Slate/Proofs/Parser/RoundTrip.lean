import Slate.Proofs.Parser.Printed

/-! # Parsing undoes printing

The main statement is `parse_print`: a program that is printed and parsed is the same program, with other
places.
-/

namespace Slate
set_option autoImplicit false

namespace Parser

/-! ## Heads of functions -/

theorem moreParameters_printed (names : List Name) (ts : List Token) (close : Span) (rest : List Token)
    (hTokens : ts.map Token.lexeme = Print.moreParameters names) :
    ∃ names', names'.map Name.unplaced = names.map Name.unplaced ∧
      run (parameters.moreParameters (ts ++ ⟨.closeParen, close⟩ :: rest)) = .ok ((names', close), rest) := by
  induction names generalizing ts with
  | nil =>
    obtain rfl := List.map_eq_nil_iff.mp hTokens
    refine ⟨[], rfl, ?_⟩
    rw [List.nil_append, run_moreParameters, next?_of_ne _ _ (by simp)]
    simp only [expectExactly, run_expect_self, ok_bind]
    rfl
  | cons first others ih =>
    obtain ⟨comma, _, rfl, hMore⟩ := eq_cons_of_map _ hTokens
    obtain ⟨at_, us, rfl, hUs⟩ := eq_cons_of_map _ hMore
    obtain ⟨names', hNames, hRead⟩ := ih us hUs
    refine ⟨⟨first.text, at_⟩ :: names', by simp only [List.map_cons, hNames, Name.unplaced], ?_⟩
    rw [List.cons_append, List.cons_append, run_moreParameters, next?_self]
    simp only [run_identifier_self, ok_bind, hRead]
    rfl

theorem parameters_printed (names : List Name) (ts : List Token) (close : Span) (rest : List Token)
    (hTokens : ts.map Token.lexeme = Print.parameters names) :
    ∃ names', names'.map Name.unplaced = names.map Name.unplaced ∧
      run (parameters (ts ++ ⟨.closeParen, close⟩ :: rest)) = .ok ((names', close), rest) := by
  cases names with
  | nil =>
    obtain rfl := List.map_eq_nil_iff.mp hTokens
    refine ⟨[], rfl, ?_⟩
    rw [List.nil_append, run_parameters, next?_self]
  | cons first others =>
    obtain ⟨at_, us, rfl, hUs⟩ := eq_cons_of_map _ hTokens
    obtain ⟨names', hNames, hRead⟩ := moreParameters_printed others us close rest hUs
    refine ⟨⟨first.text, at_⟩ :: names', by simp only [List.map_cons, hNames, Name.unplaced], ?_⟩
    rw [List.cons_append, run_parameters, next?_of_ne _ _ (by simp)]
    simp only [run_identifier_self, ok_bind, hRead]
    rfl

theorem prototype_printed (head : Prototype) (ts rest : List Token)
    (hTokens : ts.map Token.lexeme = Print.prototype head) :
    ∃ head' : Prototype, head'.unplaced = head.unplaced ∧ run (prototype (ts ++ rest)) = .ok (head', rest) := by
  obtain ⟨at_, _, rfl, hMore⟩ := eq_cons_of_map _ hTokens
  obtain ⟨opened, _, rfl, hBehind⟩ := eq_cons_of_map _ hMore
  obtain ⟨ps, _, rfl, hPs, hLast⟩ := List.map_eq_append_iff.mp hBehind
  obtain ⟨close, rfl⟩ := eq_singleton_of_map _ hLast
  obtain ⟨names', hNames, hRead⟩ := parameters_printed head.parameters ps close rest hPs
  refine ⟨⟨at_.through close, ⟨head.name.text, at_⟩, names'⟩, ?_, ?_⟩
  · simp only [Prototype.unplaced, hNames, Name.unplaced]
  · simp only [List.cons_append, List.append_assoc, List.nil_append, run_prototype, run_identifier_self, ok_bind,
      expectExactly, run_expect_self, hRead]
    rfl

/-! ## Items -/

theorem run_end_self (close : Span) (rest : List Token) :
    run (expectExactly (.keyword .end_) (skipSeparators (⟨.keyword .end_, close⟩ :: rest)).rest) =
      .ok (close, rest) := by
  rw [rest_skipSeparators_of_ne _ (by simp), expectExactly, run_expect_self]

theorem item_printed (spelled : Bool) (it : Item) (ts rest : List Token)
    (hTokens : ts.map Token.lexeme = Print.item spelled it) (hRest : Stops 0 rest) :
    ∃ it' : Item, it'.unplaced = it.unplaced ∧ run (item (ts ++ rest)) = .ok (it', rest) := by
  cases it with
  | declaration span head =>
    obtain ⟨keyword, us, rfl, hUs⟩ := eq_cons_of_map _ hTokens
    obtain ⟨head', hHead, hRead⟩ := prototype_printed head us rest hUs
    refine ⟨.declaration (keyword.through head'.span) head', by simp only [Item.unplaced, hHead], ?_⟩
    simp only [List.cons_append, run_item, hRead, ok_bind]
    rfl
  | definition span head body =>
    obtain ⟨keyword, _, rfl, hMore⟩ := eq_cons_of_map _ hTokens
    obtain ⟨hs, _, rfl, hHs, hBehind⟩ := List.map_eq_append_iff.mp hMore
    obtain ⟨bs, _, rfl, hBs, hLast⟩ := List.map_eq_append_iff.mp hBehind
    obtain ⟨close, rfl⟩ := eq_singleton_of_map _ hLast
    obtain ⟨head', hHead, hReadHead⟩ := prototype_printed head hs (bs ++ ⟨.keyword .end_, close⟩ :: rest) hHs
    obtain ⟨body', hBody, hReadBody⟩ := (reads spelled body).read bs (⟨.keyword .end_, close⟩ :: rest) hBs
      (.of_none 0 rfl)
    refine ⟨.definition (keyword.through close) head' body', by simp only [Item.unplaced, hHead, hBody], ?_⟩
    rw [List.cons_append, List.append_assoc, List.append_assoc, List.singleton_append]
    simp only [run_item, run_definition, hReadHead, hReadBody, ok_bind, run_end_self]
    rfl
  | expression body =>
    obtain ⟨body', hBody, hRead⟩ := (reads spelled body).read ts rest hTokens hRest
    refine ⟨.expression body', by simp only [Item.unplaced, hBody], ?_⟩
    obtain ⟨token, us, rfl, hOpens⟩ := exists_opens hTokens
    rw [List.cons_append] at hRead
    rw [List.cons_append, run_item]
    -- the keywords of the other items open no expression
    split
    · rename_i hEnd
      cases hEnd
    · rename_i hCons
      cases hCons
      split
      · rename_i hDef
        rw [hDef] at hOpens
        cases hOpens
      · rename_i hExtern
        rw [hExtern] at hOpens
        cases hOpens
      · simp only [hRead, ok_bind]
        rfl

theorem exists_starts {spelled : Bool} {it : Item} {ts : List Token}
    (h : ts.map Token.lexeme = Print.item spelled it) :
    ∃ token us, ts = token :: us ∧ token.lexeme ≠ .semicolon := by
  cases it with
  | declaration span head =>
    obtain ⟨keyword, us, rfl, _⟩ := eq_cons_of_map _ h
    exact ⟨_, _, rfl, by simp⟩
  | definition span head body =>
    obtain ⟨keyword, us, rfl, _⟩ := eq_cons_of_map _ h
    exact ⟨_, _, rfl, by simp⟩
  | expression body =>
    obtain ⟨token, us, rfl, hOpens⟩ := exists_opens h
    exact ⟨token, us, rfl, ne_of_opens hOpens rfl⟩

theorem items_printed (spelled : Bool) (program : List Item) (ts : List Token)
    (hTokens : ts.map Token.lexeme = Print.program spelled program) :
    ∃ parsed, parsed.map Item.unplaced = program.map Item.unplaced ∧ items ts = .ok parsed := by
  induction program generalizing ts with
  | nil =>
    obtain rfl := List.map_eq_nil_iff.mp hTokens
    refine ⟨[], rfl, ?_⟩
    rw [run_items]
    rfl
  | cons first others ih =>
    obtain ⟨fs, _, rfl, hFs, hMore⟩ := List.map_eq_append_iff.mp hTokens
    obtain ⟨at_, us, rfl, hUs⟩ := eq_cons_of_map _ hMore
    obtain ⟨it', hItem, hReadItem⟩ :=
      item_printed spelled first fs (⟨.semicolon, at_⟩ :: us) hFs (.of_none 0 rfl)
    obtain ⟨parsed, hParsed, hReadOthers⟩ := ih us hUs
    refine ⟨it' :: parsed, by simp only [List.map_cons, hItem, hParsed], ?_⟩
    have hSeparator : items (⟨.semicolon, at_⟩ :: us) = .ok parsed := by
      rw [run_items, rest_skipSeparators_self, ← run_items, hReadOthers]
    obtain ⟨token, fs, rfl, hToken⟩ := exists_starts hFs
    rw [List.cons_append] at hReadItem ⊢
    rw [run_items, rest_skipSeparators_of_ne _ hToken]
    simp only [hReadItem, ok_bind, hSeparator]
    rfl

end Parser

/-- A printed program is parsed as the same program, up to places. -/
theorem Source.parse_print (spelled : Bool) (origin : Origin) (program : List Item)
    (hNamed : ∀ it ∈ program, it.named = true) :
    ∃ parsed, (Source.mk (Print.text (Print.program spelled program)) origin).parse = .ok parsed ∧
      parsed.map Item.unplaced = program.map Item.unplaced := by
  obtain ⟨tokens, hScan, hTokens⟩ := scan_printed spelled origin hNamed
  obtain ⟨parsed, hSame, hItems⟩ := Parser.items_printed spelled program tokens hTokens
  refine ⟨parsed, ?_, hSame⟩
  rw [Source.parse, hScan]
  simp only [hItems]

def nested : List Item :=
  let named (text : String) : Expr := .variable default ⟨text, default⟩
  [.declaration default ⟨default, ⟨"now", default⟩, []⟩,
    .definition default ⟨default, ⟨"f", default⟩, [⟨"a", default⟩, ⟨"_b1", default⟩]⟩
      (.binary default .subtract (named "a")
        (.binary default .subtract (.binary default .multiply (named "_b1") (.int default (-2147483648)))
          (.compare default .less (named "a") (.int default 3)))),
    .expression (.assign default ⟨"x", default⟩ (.assign default ⟨"y", default⟩
      (.branch default (.compare default .equal (.assign default ⟨"a", default⟩ (.int default 1)) (named "a"))
        [.call default ⟨"f", default⟩ [named "x", .int default (-1)], .int default 2] [])))]

theorem Source.parse_print_nested :
    (∀ it ∈ nested, it.named = true) ∧
      Print.text (Print.program false nested) =
        "extern now ( ) ; def f ( a , _b1 ) a -( _b1 * -2147483648 -( a < 3 ) ) end ; " ++
          "x = y = if ( a = 1 ) == a then f ( x , -1 ) ; 2 ; end ; " ∧
      ∃ parsed, (Source.mk (Print.text (Print.program false nested)) .memory).parse = .ok parsed ∧
        parsed.map Item.unplaced = nested.map Item.unplaced := by
  have hNamed : ∀ it ∈ nested, it.named = true := by decide
  exact ⟨hNamed, by cbv, Source.parse_print false .memory nested hNamed⟩

end Slate
