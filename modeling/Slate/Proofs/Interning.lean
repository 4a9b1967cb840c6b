import Mathlib.Data.Finset.Card
import Slate.Interner
import Slate.Proofs.Tables

/-! # Interning is a bijection

Whatever was asked of an interner, its texts and its numbers mirror each other: the texts are those that came in,
each once and in the order of their first coming, and the number of a text is its place among them.
So symbols can be compared instead of texts, however far apart they were made.
-/

namespace Slate
set_option autoImplicit false

namespace Interner

/-- What can be asked of an interner. -/
inductive Request where
  | insert (text : String)
  | indexOf (text : String)
  | get (index : Nat)

/-- The interner behind a request. Only a text that comes in can change it. -/
def step (interner : Interner) : Request → Interner
  | .insert text => (interner.insert text).2
  | .indexOf _ | .get _ => interner

/-- A fresh interner behind a history of requests. -/
def after (history : List Request) : Interner := history.foldl step empty

def Request.inserted? : Request → Option String
  | .insert text => some text
  | .indexOf _ | .get _ => none

/-- The texts that came in, each as often as it did. -/
def inserted (history : List Request) : List String := history.filterMap Request.inserted?

/-- The texts that came in, in the order in which each first did. -/
def distinct (history : List Request) : List String := (inserted history).eraseDups

/-! ## The texts of a history -/

theorem inserted_append (earlier later : List Request) :
    inserted (earlier ++ later) = inserted earlier ++ inserted later :=
  List.filterMap_append

theorem mem_distinct {history : List Request} {text : String} : text ∈ distinct history ↔ text ∈ inserted history :=
  List.mem_eraseDups

theorem distinct_isPrefix (earlier later : List Request) : distinct earlier <+: distinct (earlier ++ later) := by
  rw [distinct, distinct, inserted_append, List.eraseDups_append]
  exact List.prefix_append _ _

theorem distinct_concat (history : List Request) (text : String) :
    distinct (history ++ [.insert text]) =
      if text ∈ distinct history then distinct history else distinct history ++ [text] := by
  have hInserted : inserted [.insert text] = [text] := rfl
  rw [distinct, inserted_append, hInserted, List.eraseDups_append]
  by_cases hMem : text ∈ inserted history
  · simp [List.removeAll, distinct, hMem]
  · simp [List.removeAll, List.eraseDups_cons, distinct, hMem]

theorem distinct_query {request : Request} (history : List Request) (h : request.inserted? = none) :
    distinct (history ++ [request]) = distinct history := by
  simp [distinct, inserted, h]

theorem nodup_distinct (history : List Request) : (distinct history).Nodup := by
  induction history using List.reverseRecOn with
  | nil => exact List.nodup_nil
  | append_singleton history request ih =>
    cases request with
    | insert text =>
      rw [distinct_concat]
      split
      · exact ih
      · rename_i hNew
        rw [List.nodup_append_comm, List.singleton_append, List.nodup_cons]
        exact ⟨hNew, ih⟩
    | indexOf | get =>
      rw [distinct_query history rfl]
      exact ih

theorem length_distinct (history : List Request) : (distinct history).length = (inserted history).toFinset.card := by
  have hSame : (distinct history).toFinset = (inserted history).toFinset := by
    ext text
    simp [mem_distinct]
  rw [← hSame, List.toFinset_card_of_nodup (nodup_distinct history)]

/-! ## Texts and numbers -/

/-- The interner holds these texts, each under its place among them. -/
structure Mirrors (interner : Interner) (texts : List String) : Prop where
  toList : interner.texts.toList = texts
  indexOf? : ∀ text index, interner.indexOf? text = some index ↔ texts[index]? = some text

theorem mirrors_empty : Mirrors empty [] := by
  refine ⟨rfl, fun text index => ?_⟩
  simp [empty, Interner.indexOf?, NameTable.find?]

namespace Mirrors

variable {interner : Interner} {texts : List String} (h : Mirrors interner texts)
include h

theorem get? (index : Nat) : interner.get? index = texts[index]? := by
  rw [Interner.get?, ← h.toList, Array.getElem?_toList]

theorem indexOf?_eq_none {text : String} (hNew : text ∉ texts) : interner.indexOf? text = none := by
  rw [Option.eq_none_iff_forall_ne_some]
  intro index hFound
  exact hNew (List.mem_of_getElem? ((h.indexOf? text index).mp hFound))

/-- A text that is there keeps its number, and nothing changes. -/
theorem insert_of_mem {text : String} (hMem : text ∈ texts) :
    ∃ index, texts[index]? = some text ∧ interner.insert text = (index, interner) := by
  obtain ⟨index, hIndex⟩ := List.mem_iff_getElem?.mp hMem
  refine ⟨index, hIndex, ?_⟩
  rw [Interner.insert, (h.indexOf? text index).mpr hIndex]

/-- A new text gets the next number. -/
theorem insert_of_notMem {text : String} (hNew : text ∉ texts) (hFew : texts.length < 4294967296) :
    (interner.insert text).1 = texts.length ∧ Mirrors (interner.insert text).2 (texts ++ [text]) := by
  have hNumber : interner.texts.size % 4294967296 = texts.length := by
    rw [← Array.length_toList, h.toList, Nat.mod_eq_of_lt hFew]
  simp only [Interner.insert, h.indexOf?_eq_none hNew, hNumber]
  refine ⟨trivial, ?_, fun other index => ?_⟩
  · rw [Array.toList_push, h.toList]
  · have hOther : interner.numbers.find? other = some index ↔ texts[index]? = some other := h.indexOf? other index
    change (interner.numbers.insert text texts.length).find? other = some index ↔ _
    rw [NameTable.find?_insert, List.getElem?_append]
    -- the new text stands at the end and nowhere else, and the others stay where they are
    by_cases hSame : other = text
    · subst hSame
      have hPlace : texts[index]? ≠ some other := fun hFound => hNew (List.mem_of_getElem? hFound)
      grind
    · grind

end Mirrors

theorem after_concat (history : List Request) (request : Request) :
    after (history ++ [request]) = (after history).step request :=
  List.foldl_append

/-- The run: an interner mirrors the texts of its whole history. -/
theorem mirrors_after (history : List Request) (hFew : (distinct history).length < 4294967296) :
    Mirrors (after history) (distinct history) := by
  induction history using List.reverseRecOn with
  | nil => exact mirrors_empty
  | append_singleton history request ih =>
    have hBefore : (distinct history).length < 4294967296 := by
      have hLength := (distinct_isPrefix history [request]).length_le
      omega
    have hMirrors := ih hBefore
    rw [after_concat]
    cases request with
    | insert text =>
      rw [distinct_concat]
      change Mirrors ((after history).insert text).2 _
      split
      · rename_i hMem
        obtain ⟨index, _, hInsert⟩ := hMirrors.insert_of_mem hMem
        rw [hInsert]
        exact hMirrors
      · rename_i hNew
        exact (hMirrors.insert_of_notMem hNew hBefore).2
    | indexOf | get =>
      rw [distinct_query history rfl]
      exact hMirrors

/-- What an interner held at some point of its history is there at the end. -/
theorem get?_after_append {earlier later : List Request} (hFew : (distinct (earlier ++ later)).length < 4294967296)
    {text : String} {index : Nat} (h : (after earlier).get? index = some text) :
    (after (earlier ++ later)).get? index = some text := by
  obtain ⟨more, hMore⟩ := distinct_isPrefix earlier later
  have hLength := congrArg List.length hMore
  rw [List.length_append] at hLength
  have hEarlier := mirrors_after earlier (by omega)
  have hAll := mirrors_after (earlier ++ later) hFew
  rw [hEarlier.get?] at h
  rw [hAll.get?, ← hMore, List.getElem?_append_left (List.getElem?_eq_some_iff.mp h).1]
  exact h

end Interner

open Interner

/-! ## Symbols -/

namespace Symbol

/-- A symbol that was made of the text at some point of the history. -/
def MadeIn (history : List Request) (text : String) (symbol : Symbol) : Prop :=
  ∃ earlier later, history = earlier ++ .insert text :: later ∧ (make text (after earlier)).1 = symbol

theorem text?_make {interner : Interner} {texts : List String} (h : Mirrors interner texts)
    (hFew : texts.length < 4294967296) (text : String) :
    (make text interner).1.text? (make text interner).2 = some text := by
  change (interner.insert text).2.get? (interner.insert text).1 = some text
  by_cases hMem : text ∈ texts
  · obtain ⟨index, hIndex, hInsert⟩ := h.insert_of_mem hMem
    rw [hInsert, h.get?]
    exact hIndex
  · obtain ⟨hNumber, hMirrors⟩ := h.insert_of_notMem hMem hFew
    rw [hNumber, hMirrors.get?, List.getElem?_concat_length]

theorem MadeIn.text? {history : List Request} {text : String} {symbol : Symbol} (h : symbol.MadeIn history text)
    (hFew : (distinct history).length < 4294967296) : symbol.text? (after history) = some text := by
  obtain ⟨earlier, later, rfl, rfl⟩ := h
  have hLength := (distinct_isPrefix earlier (.insert text :: later)).length_le
  have hMade := text?_make (mirrors_after earlier (by omega)) (by omega) text
  rw [← List.singleton_append, ← List.append_assoc] at hFew ⊢
  refine get?_after_append hFew ?_
  rw [after_concat]
  exact hMade

end Symbol

namespace Interner

/-- Texts and numbers correspond one to one, in the order of the history and for good, and symbols are equal
where their texts are. -/
structure Bijection (history : List Request) : Prop where
  paired : ∀ text index, (after history).indexOf? text = some index ↔ (after history).get? index = some text
  used : ∀ index, ((after history).get? index).isSome = true ↔ index < (inserted history).toFinset.card
  ordered : ∀ index, (after history).get? index = (inserted history).eraseDups[index]?
  kept : ∀ earlier later, history = earlier ++ later → ∀ text index,
    ((after earlier).get? index = some text → (after history).get? index = some text) ∧
    ((after earlier).indexOf? text = some index → (after history).indexOf? text = some index)
  resolved : ∀ (symbol : Symbol) text, symbol.MadeIn history text → symbol.text? (after history) = some text
  compared : ∀ (first second : Symbol) text other, first.MadeIn history text → second.MadeIn history other →
    (first = second ↔ text = other)

theorem bijection_of_history (history : List Request) (hFew : (inserted history).toFinset.card < 4294967296) :
    Bijection history := by
  have hLength : (distinct history).length < 4294967296 := by
    rw [length_distinct]
    exact hFew
  have hMirrors := mirrors_after history hLength
  have hPaired : ∀ text index,
      (after history).indexOf? text = some index ↔ (after history).get? index = some text := by
    intro text index
    rw [hMirrors.indexOf?, hMirrors.get?]
  refine ⟨hPaired, fun index => ?_, hMirrors.get?, ?_, fun _ _ hMade => hMade.text? hLength, ?_⟩
  · rw [hMirrors.get?, ← length_distinct, Option.isSome_iff_ne_none, ne_eq, List.getElem?_eq_none_iff, not_le]
  · rintro earlier later rfl text index
    have hPrefix := (distinct_isPrefix earlier later).length_le
    have hEarlier := mirrors_after earlier (by omega)
    refine ⟨get?_after_append hLength, fun hFound => ?_⟩
    rw [hEarlier.indexOf?, ← hEarlier.get?] at hFound
    exact (hPaired text index).mpr (get?_after_append hLength hFound)
  · intro first second text other hFirst hSecond
    have hText := hFirst.text? hLength
    have hOther := hSecond.text? hLength
    constructor
    · rintro rfl
      exact Option.some.inj (hText.symm.trans hOther)
    · rintro rfl
      have hNumber := (hPaired text first.number).mpr hText
      have hOtherNumber := (hPaired text second.number).mpr hOther
      cases first
      cases second
      exact congrArg Symbol.mk (Option.some.inj (hNumber.symm.trans hOtherNumber))

/-- Two texts, one of which comes in again between questions. -/
def repeated : List Request := [.insert "counter", .get 1, .insert "other", .indexOf "none", .insert "counter"]

theorem bijection_of_history_repeated :
    (inserted repeated).toFinset.card < 4294967296 ∧ Bijection repeated ∧ (after repeated).get? 1 = some "other" ∧
      (after repeated).indexOf? "other" = some 1 ∧
      (Symbol.make "counter" (after [])).1 = (Symbol.make "counter" (after (repeated.take 4))).1 := by
  have hFew : (inserted repeated).toFinset.card < 4294967296 := by decide
  have hBijection := bijection_of_history repeated hFew
  have hOther : (after repeated).get? 1 = some "other" := by
    rw [hBijection.ordered]
    decide
  refine ⟨hFew, hBijection, hOther, (hBijection.paired "other" 1).mpr hOther, ?_⟩
  exact (hBijection.compared _ _ "counter" "counter" ⟨[], repeated.tail, rfl, rfl⟩
    ⟨repeated.take 4, [], rfl, rfl⟩).mpr rfl

end Interner
end Slate
