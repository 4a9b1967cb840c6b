import Slate.Proofs.Scan.Cut

/-! # Gaps

What stands between two tokens is made of blanks and comments, and `splitGap` takes as much of that as there is.
-/

namespace Slate
set_option autoImplicit false

/-- Blanks and comments. A comment runs to just before a newline; the last one of a text may also run to its
end. -/
inductive Layout (final : Bool) : List Char → Prop
  | nil : Layout final []
  | blank {c : Char} {rest : List Char} : isBlank c = true → Layout final rest → Layout final (c :: rest)
  | comment {words rest : List Char} : '\n' ∉ words → Layout final rest →
      Layout final ('#' :: (words ++ '\n' :: rest))
  | last {words : List Char} : final = true → '\n' ∉ words → Layout final ('#' :: words)

variable {final : Bool} {gap rest : List Char}

/-- A comment takes one more character. -/
theorem Layout.cons_comment {c : Char} (h : Layout final ('#' :: gap)) (hNe : c ≠ '\n') :
    Layout final ('#' :: c :: gap) := by
  cases h with
  | blank hBlank => cases hBlank
  | @comment words rest hWords hRest =>
    have hMore : '\n' ∉ c :: words := by
      rw [List.mem_cons, not_or]
      exact ⟨hNe.symm, hWords⟩
    exact .comment hMore hRest
  | last hFinal hWords =>
    refine .last hFinal ?_
    rw [List.mem_cons, not_or]
    exact ⟨hNe.symm, hWords⟩

/-- What is taken is a gap. Where the text before it was a comment, so is its start. -/
theorem layout_splitGap_go (inComment : Bool) (text : List Char) :
    Layout (splitGap.go inComment text).2.isEmpty
      ((if inComment then ['#'] else []) ++ (splitGap.go inComment text).1) := by
  induction text generalizing inComment with
  | nil =>
    cases inComment with
    | true => exact .last rfl List.not_mem_nil
    | false => exact .nil
  | cons c text ih =>
    rw [splitGap.go]
    by_cases hGap : (inComment && c != '\n' || c = '#' || isBlank c) = true
    · rw [if_pos hGap]
      cases inComment with
      | true =>
        by_cases hNewline : c = '\n'
        · cases hNewline
          exact @Layout.comment _ [] _ List.not_mem_nil (ih false)
        · have hFlag : (decide (c = '#') || true && c != '\n') = true := by simp [hNewline]
          simp only [hFlag]
          exact (ih true).cons_comment hNewline
      | false =>
        by_cases hComment : c = '#'
        · cases hComment
          exact ih true
        · have hFlag : (decide (c = '#') || false && c != '\n') = false := by simp [hComment]
          have hBlank : isBlank c = true := by simpa [hComment] using hGap
          simp only [hFlag]
          exact .blank hBlank (ih false)
    · rw [if_neg hGap]
      cases inComment with
      | true =>
        -- only a newline ends a comment, and it is a blank itself
        have hNewline : c = '\n' := by
          by_contra hNe
          simp [hNe] at hGap
        rw [hNewline] at hGap
        exact absurd rfl hGap
      | false => exact .nil

theorem layout_splitGap (text : List Char) : Layout (splitGap text).2.isEmpty (splitGap text).1 :=
  layout_splitGap_go false text

/-! ## As much as there is -/

theorem splitGap_go_comment {words : List Char} (h : '\n' ∉ words) (rest : List Char) :
    splitGap.go true (words ++ '\n' :: rest) =
      (words ++ '\n' :: (splitGap rest).1, (splitGap rest).2) := by
  induction words with
  | nil => rfl
  | cons c words ih =>
    rw [List.mem_cons, not_or] at h
    have hNe : (c != '\n') = true := bne_iff_ne.mpr fun hEq => h.1 hEq.symm
    simp only [List.cons_append, splitGap.go, hNe, Bool.and_self, Bool.true_or, Bool.or_true, if_true, ih h.2]

theorem splitGap_go_last {words : List Char} (h : '\n' ∉ words) : splitGap.go true words = (words, []) := by
  induction words with
  | nil => rfl
  | cons c words ih =>
    rw [List.mem_cons, not_or] at h
    have hNe : (c != '\n') = true := bne_iff_ne.mpr fun hEq => h.1 hEq.symm
    simp only [splitGap.go, hNe, Bool.and_self, Bool.true_or, Bool.or_true, if_true, ih h.2]

theorem splitGap_blank {c : Char} (h : isBlank c = true) (rest : List Char) :
    splitGap (c :: rest) = (c :: (splitGap rest).1, (splitGap rest).2) := by
  have hComment : c ≠ '#' := by
    rintro rfl
    cases h
  rw [splitGap, splitGap.go]
  simp [h, hComment, splitGap]

theorem splitGap_comment (rest : List Char) :
    splitGap ('#' :: rest) = ('#' :: (splitGap.go true rest).1, (splitGap.go true rest).2) := rfl

/-- A gap is taken whole, up to what cannot go on with it. -/
theorem Layout.splitGap_append (h : Layout false gap) (hRest : splitGap rest = ([], rest)) :
    splitGap (gap ++ rest) = (gap, rest) := by
  induction h with
  | nil => exact hRest
  | blank hBlank _ ih => rw [List.cons_append, splitGap_blank hBlank, ih]
  | @comment words more hWords _ ih =>
    rw [List.cons_append, List.append_assoc, List.cons_append, splitGap_comment, splitGap_go_comment hWords, ih]
  | last hFinal => cases hFinal

theorem Layout.splitGap_all (h : Layout true gap) : splitGap gap = (gap, []) := by
  induction h with
  | nil => rfl
  | blank hBlank _ ih => rw [splitGap_blank hBlank, ih]
  | comment hWords _ ih => rw [splitGap_comment, splitGap_go_comment hWords, ih]
  | last _ hWords => rw [splitGap_comment, splitGap_go_last hWords]

end Slate
