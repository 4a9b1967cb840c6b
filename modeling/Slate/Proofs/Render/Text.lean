import Slate.Ir.Render
import Slate.Proofs.Print
import Slate.Proofs.Tables

/-! # Words in the text of a module

The numbers, names and types in the text of a module are solid: they hold none of the characters that the
text puts between them. So a text can be cut behind such a word in one way only, and a list of
texts without commas is what stands between the commas.
-/

namespace Slate
set_option autoImplicit false

def Styled.chars (text : Styled) : List Char := text.flatMap (·.text.toList)

theorem Styled.chars_eq (text : Styled) : text.chars = text.plain.toList := by
  rw [Styled.plain, String.toList_join, List.flatMap_map]
  rfl

@[simp] theorem Styled.chars_nil : Styled.chars [] = [] := rfl

@[simp] theorem Styled.chars_cons (piece : Piece) (text : Styled) :
    Styled.chars (piece :: text) = piece.text.toList ++ Styled.chars text := List.flatMap_cons

@[simp] theorem Styled.chars_append (first second : Styled) :
    Styled.chars (first ++ second) = first.chars ++ second.chars := List.flatMap_append

namespace Render

/-! ## Where to cut -/

section Cutting

variable {α : Type} {p : α → Bool}

/-- Nothing that would go on with a part of the given kind. -/
def Stops (p : α → Bool) (rest : List α) : Prop := ∀ a ∈ rest.head?, p a = false

@[simp] theorem stops_nil : Stops p [] := by simp [Stops]

@[simp] theorem stops_cons (a : α) (rest : List α) : Stops p (a :: rest) ↔ p a = false := by simp [Stops]

theorem split {part part' rest rest' : List α} (h : part ++ rest = part' ++ rest')
    (hPart : ∀ a ∈ part, p a = true) (hPart' : ∀ a ∈ part', p a = true) (hRest : Stops p rest)
    (hRest' : Stops p rest') : part = part' ∧ rest = rest' := by
  have hEq : part = part' := by rw [← takeWhile_all_append hPart hRest, h, takeWhile_all_append hPart' hRest']
  subst hEq
  exact ⟨rfl, List.append_cancel_left h⟩

theorem cut [DecidableEq α] {c : α} {part part' rest rest' : List α}
    (h : part ++ c :: rest = part' ++ c :: rest') (hPart : c ∉ part) (hPart' : c ∉ part') :
    part = part' ∧ rest = rest' := by
  have hOther : ∀ {text : List α}, c ∉ text → ∀ a ∈ text, (decide (a ≠ c)) = true := by
    intro text hText a hMem
    simp only [decide_eq_true_eq]
    rintro rfl
    exact hText hMem
  obtain ⟨hEq, hRest⟩ := split h (hOther hPart) (hOther hPart') (by simp) (by simp)
  exact ⟨hEq, (List.cons.inj hRest).2⟩

/-- Parts that start with an element of the given kind and go on with others. -/
def parts (list : List (α × List α)) : List α := list.flatMap fun part => part.1 :: part.2

theorem parts_inj {list list' : List (α × List α)} (h : parts list = parts list')
    (hList : ∀ part ∈ list, p part.1 = false ∧ ∀ a ∈ part.2, p a = true)
    (hList' : ∀ part ∈ list', p part.1 = false ∧ ∀ a ∈ part.2, p a = true) : list = list' := by
  have hStops : ∀ {more : List (α × List α)}, (∀ part ∈ more, p part.1 = false ∧ ∀ a ∈ part.2, p a = true) →
      Stops p (parts more) := by
    intro more hMore
    cases more with
    | nil => exact stops_nil
    | cons first more => exact (stops_cons _ _).mpr (hMore first List.mem_cons_self).1
  induction list generalizing list' with
  | nil =>
    cases list' with
    | nil => rfl
    | cons first rest => cases h
  | cons first rest ih =>
    cases list' with
    | nil => cases h
    | cons first' rest' =>
      rw [List.forall_mem_cons] at hList hList'
      obtain ⟨hHead, hTail⟩ := List.cons.inj h
      obtain ⟨hPart, hRest⟩ := split hTail hList.1.2 hList'.1.2 (hStops hList.2) (hStops hList'.2)
      rw [ih hRest hList.2 hList'.2, Prod.ext hHead hPart]

end Cutting

def commas (texts : List (List Char)) : List Char := [',', ' '].intercalate texts

@[simp] theorem commas_singleton (text : List Char) : commas [text] = text := by
  simp [commas, List.intercalate]

@[simp] theorem commas_cons_cons (first second : List Char) (rest : List (List Char)) :
    commas (first :: second :: rest) = first ++ ',' :: ' ' :: commas (second :: rest) := by
  simp [commas, List.intercalate]

theorem commas_inj {texts texts' : List (List Char)} (h : commas texts = commas texts')
    (hTexts : ∀ text ∈ texts, text ≠ [] ∧ ',' ∉ text) (hTexts' : ∀ text ∈ texts', text ≠ [] ∧ ',' ∉ text) :
    texts = texts' := by
  induction texts generalizing texts' with
  | nil =>
    cases texts' with
    | nil => rfl
    | cons first rest =>
      rw [List.forall_mem_cons] at hTexts'
      cases rest <;> simp [commas, List.intercalate, hTexts'.1.1] at h
  | cons first rest ih =>
    rw [List.forall_mem_cons] at hTexts
    cases texts' with
    | nil => cases rest <;> simp [commas, List.intercalate, hTexts.1.1] at h
    | cons first' rest' =>
      rw [List.forall_mem_cons] at hTexts'
      cases rest with
      | nil =>
        cases rest' with
        | nil => simpa using h
        | cons second' rest' =>
          -- A comma behind the first text would be part of the only one.
          rw [commas_singleton, commas_cons_cons] at h
          exact absurd (by simp [h]) hTexts.1.2
      | cons second rest =>
        cases rest' with
        | nil =>
          rw [commas_singleton, commas_cons_cons] at h
          exact absurd (by simp [← h]) hTexts'.1.2
        | cons second' rest' =>
          rw [commas_cons_cons, commas_cons_cons] at h
          obtain ⟨hFirst, hRest⟩ := cut h hTexts.1.2 hTexts'.1.2
          rw [hFirst, ih (List.cons.inj hRest).2 hTexts.2 hTexts'.2]

def unlines (lines : List (List Char)) : List Char := lines.flatMap (· ++ ['\n'])

theorem unlines_inj {lines lines' : List (List Char)} (h : unlines lines = unlines lines')
    (hLines : ∀ line ∈ lines, '\n' ∉ line) (hLines' : ∀ line ∈ lines', '\n' ∉ line) : lines = lines' := by
  induction lines generalizing lines' with
  | nil =>
    cases lines' with
    | nil => rfl
    | cons first rest => simp [unlines] at h
  | cons first rest ih =>
    cases lines' with
    | nil => simp [unlines] at h
    | cons first' rest' =>
      rw [List.forall_mem_cons] at hLines hLines'
      simp only [unlines, List.flatMap_cons, List.append_assoc, List.singleton_append] at h
      obtain ⟨hFirst, hRest⟩ := cut h hLines.1 hLines'.1
      rw [hFirst, ih hRest hLines.2 hLines'.2]

theorem unlines_cons (line : List Char) (lines : List (List Char)) :
    unlines (line :: lines) = line ++ '\n' :: unlines lines := by
  simp [unlines]

theorem splitOn_unlines {lines : List (List Char)} (h : ∀ line ∈ lines, '\n' ∉ line) (rest : List Char) :
    (unlines lines ++ rest).splitOn '\n' = lines ++ rest.splitOn '\n' := by
  induction lines with
  | nil => rfl
  | cons line lines ih =>
    rw [List.forall_mem_cons] at h
    rw [unlines_cons, List.append_assoc, List.cons_append, List.splitOn_append_cons_self_of_not_mem h.1, ih h.2,
      List.cons_append]

/-! ## Solid texts -/

def isSolid (c : Char) : Bool := isWordPart c || ['%', '$', '-', '<', '>'].contains c

def Solid (text : List Char) : Prop := ∀ c ∈ text, isSolid c = true

instance (text : List Char) : Decidable (Solid text) := decidable_of_iff (text.all isSolid = true) List.all_eq_true

theorem solid_of_word {text : List Char} (h : ∀ c ∈ text, isWordPart c = true) : Solid text := by
  intro c hMem
  simp [isSolid, h c hMem]

theorem Solid.cons {c : Char} {text : List Char} (hFirst : isSolid c = true) (h : Solid text) :
    Solid (c :: text) := by
  rw [Solid, List.forall_mem_cons]
  exact ⟨hFirst, h⟩

theorem Solid.notMem {text : List Char} {c : Char} (h : Solid text) (hOther : isSolid c = false) : c ∉ text := by
  intro hMem
  rw [h c hMem] at hOther
  cases hOther

theorem Solid.cut {c : Char} {word word' rest rest' : List Char}
    (h : word ++ c :: rest = word' ++ c :: rest') (hWord : Solid word) (hWord' : Solid word')
    (hOther : isSolid c = false) : word = word' ∧ rest = rest' :=
  Render.cut h (hWord.notMem hOther) (hWord'.notMem hOther)

theorem solid_name {name : String} (h : isName name = true) : Solid name.toList := by
  apply solid_of_word
  unfold isName at h
  split at h
  · cases h
  · rename_i first rest hText
    simp only [Bool.and_eq_true, List.all_eq_true] at h
    rw [hText, List.forall_mem_cons]
    exact ⟨by simp [isWordPart, h.1.1], h.1.2⟩

theorem solid_number (n : Nat) : Solid n.repr.toList := by
  apply solid_of_word
  intro c hMem
  simp [isWordPart, (Print.spelled_digits n).2 c hMem]

theorem number_ne_nil (n : Nat) : n.repr.toList ≠ [] := (Print.spelled_digits n).1

theorem toList_number_inj {m n : Nat} (h : m.repr.toList = n.repr.toList) : m = n :=
  Nat.repr_inj.mp (String.toList_inj.mp h)

/-- The text of a word starts with a digit or a sign. -/
theorem word_text (word : Word) : ∃ first rest, word.text.toList = first :: rest ∧
    (isDigit first = true ∨ first = '-') ∧ Solid (first :: rest) := by
  change ∃ first rest, word.toInt.repr.toList = first :: rest ∧ _
  rw [Int.repr_eq_if]
  split
  · obtain ⟨first, rest, hText⟩ := List.exists_cons_of_ne_nil (number_ne_nil word.toInt.toNat)
    have hDigits := (Print.spelled_digits word.toInt.toNat).2
    have hSolid := solid_number word.toInt.toNat
    change ∀ c ∈ word.toInt.toNat.repr.toList, isDigit c = true at hDigits
    rw [hText] at hDigits hSolid
    exact ⟨first, rest, hText, .inl (hDigits first List.mem_cons_self), hSolid⟩
  · exact ⟨'-', _, by rw [String.toList_append]; rfl, .inr rfl, .cons rfl (solid_number _)⟩

theorem solid_word (word : Word) : Solid word.text.toList := by
  obtain ⟨first, rest, hText, -, hSolid⟩ := word_text word
  rwa [hText]

theorem register_text (id : RegisterId) : id.text.toList = '%' :: id.index.repr.toList := by
  simp [RegisterId.text, toString]

theorem slot_text (id : SlotId) : id.text.toList = '$' :: id.index.repr.toList := by
  simp [SlotId.text, toString]

theorem block_text (id : BlockId) : id.text.toList = 'b' :: 'b' :: id.index.repr.toList := by
  simp [BlockId.text, toString]

theorem solid_register (id : RegisterId) : Solid id.text.toList := by
  rw [register_text]
  exact .cons rfl (solid_number _)

theorem solid_slot (id : SlotId) : Solid id.text.toList := by
  rw [slot_text]
  exact .cons rfl (solid_number _)

theorem solid_block (id : BlockId) : Solid id.text.toList := by
  rw [block_text]
  exact .cons rfl (.cons rfl (solid_number _))

theorem solid_operand (operand : Operand) : Solid operand.text.toList := by
  cases operand with
  | register id => exact solid_register id
  | const value =>
    cases value with
    | int word => exact solid_word word
    | bool bit => cases bit <;> decide

theorem operand_ne_nil (operand : Operand) : operand.text.toList ≠ [] := by
  cases operand with
  | register id =>
    change id.text.toList ≠ []
    simp [register_text]
  | const value =>
    cases value with
    | int word =>
      obtain ⟨first, rest, hText, -⟩ := word_text word
      exact List.ne_nil_of_mem (hText ▸ List.mem_cons_self)
    | bool bit => cases bit <;> decide

theorem solid_ty (ty : Ty) : Solid ty.text.toList := by
  cases ty <;> decide

/-! ## Texts of their own -/

theorem register_inj {id id' : RegisterId} (h : id.text.toList = id'.text.toList) : id = id' := by
  rw [register_text, register_text] at h
  exact (Id.eq_iff _ _).mpr (toList_number_inj (List.cons.inj h).2)

theorem slot_inj {id id' : SlotId} (h : id.text.toList = id'.text.toList) : id = id' := by
  rw [slot_text, slot_text] at h
  exact (Id.eq_iff _ _).mpr (toList_number_inj (List.cons.inj h).2)

theorem block_inj {id id' : BlockId} (h : id.text.toList = id'.text.toList) : id = id' := by
  rw [block_text, block_text] at h
  exact (Id.eq_iff _ _).mpr (toList_number_inj (List.cons.inj (List.cons.inj h).2).2)

theorem ty_inj {ty ty' : Ty} (h : ty.text.toList = ty'.text.toList) : ty = ty' := by
  revert h
  cases ty <;> cases ty' <;> decide

theorem word_inj {word word' : Word} (h : word.text.toList = word'.text.toList) : word = word' := by
  have hInt : word.toInt.repr = word'.toInt.repr := String.toList_inj.mp h
  exact Int32.toInt_inj.mp (Int.repr_inj.mp hInt)

theorem word_ne {word : Word} {c : Char} {rest : List Char} (h : word.text.toList = c :: rest) :
    c ∉ ['%', 't', 'f', 'v'] := by
  obtain ⟨first, rest', hText, hFirst, -⟩ := word_text word
  obtain ⟨rfl, -⟩ := List.cons.inj (h.symm.trans hText)
  rcases hFirst with hDigit | rfl
  · intro hMem
    have hNone := (by decide : ['%', 't', 'f', 'v'].all fun c => !isDigit c)
    rw [List.all_eq_true] at hNone
    simpa [hDigit] using hNone c hMem
  · decide

theorem value_inj {value value' : Value} (h : value.text.toList = value'.text.toList) : value = value' := by
  cases value with
  | int word =>
    cases value' with
    | int word' => rw [word_inj h]
    | bool bit => cases bit <;> exact absurd (by decide) (word_ne h)
  | bool bit =>
    cases value' with
    | int word => cases bit <;> exact absurd (by decide) (word_ne h.symm)
    | bool bit' =>
      revert h
      cases bit <;> cases bit' <;> decide

theorem value_ne {value : Value} {c : Char} {rest : List Char} (h : value.text.toList = c :: rest) :
    c ∉ ['%', 'v'] := by
  cases value with
  | int word =>
    intro hMem
    exact word_ne h ((by decide : ['%', 'v'] ⊆ ['%', 't', 'f', 'v']) hMem)
  | bool bit => cases bit <;> cases h <;> decide

theorem operand_inj {operand operand' : Operand} (h : operand.text.toList = operand'.text.toList) :
    operand = operand' := by
  cases operand with
  | register id =>
    cases operand' with
    | register id' => rw [register_inj h]
    | const value => exact absurd (by decide) (value_ne (h.symm.trans (register_text id)))
  | const value =>
    cases operand' with
    | register id => exact absurd (by decide) (value_ne (h.trans (register_text id)))
    | const value' => rw [value_inj h]

theorem operand_ne_void (operand : Operand) : operand.text.toList ≠ Ty.void.text.toList := by
  intro hEq
  cases operand with
  | register id => cases (register_text id).symm.trans hEq
  | const value => exact absurd (by decide) (value_ne hEq)

end Render
end Slate
