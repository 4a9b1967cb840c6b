/-! # Lists

A list can be cut behind its elements of one kind. An action that may fail gives results for a list exactly if it
gives one for each element.
-/

namespace Slate
set_option autoImplicit false

/-! ## The front of a list -/

section Cutting

variable {α : Type} {p : α → Bool} {front back : List α}

theorem takeWhile_all_append (hFront : ∀ a ∈ front, p a = true) (hBack : ∀ a ∈ back.head?, p a = false) :
    (front ++ back).takeWhile p = front := by
  rw [List.takeWhile_append_of_pos hFront]
  cases back with
  | nil => simp
  | cons a rest => simp [hBack a rfl]

theorem dropWhile_all_append (hFront : ∀ a ∈ front, p a = true) (hBack : ∀ a ∈ back.head?, p a = false) :
    (front ++ back).dropWhile p = back := by
  rw [List.dropWhile_append_of_pos hFront]
  cases back with
  | nil => simp
  | cons a rest => simp [hBack a rfl]

end Cutting

/-! ## Actions that may fail -/

section Actions

variable {α β γ : Type} {action : α → Option β} {list : List α}

theorem mapM_eq_some_iff {results : List β} :
    list.mapM action = some results ↔ list.map action = results.map some := by
  induction list generalizing results with
  | nil => cases results <;> simp
  | cons first rest ih =>
    rw [List.mapM_cons, List.map_cons]
    cases results with
    | nil => cases action first <;> cases rest.mapM action <;> simp
    | cons result others =>
      rw [List.map_cons, List.cons.injEq, ← ih]
      cases action first <;> cases rest.mapM action <;> simp

theorem mapM_eq_some_map {result : α → β} (h : ∀ a ∈ list, action a = some (result a)) :
    list.mapM action = some (list.map result) := by
  rw [mapM_eq_some_iff, List.map_map]
  exact List.map_congr_left h

theorem isSome_mapM_iff : (list.mapM action).isSome = true ↔ ∀ a ∈ list, (action a).isSome = true := by
  induction list with
  | nil => simp
  | cons first rest ih =>
    rw [List.mapM_cons, List.forall_mem_cons, ← ih]
    cases action first <;> cases rest.mapM action <;> simp

/-- The results are those of the elements, whatever stands in for one that is missing. -/
theorem of_mapM_eq_some {results : List β} (h : list.mapM action = some results) (fallback : β) :
    results = list.map (fun a => (action a).getD fallback) ∧ ∀ a ∈ list, (action a).isSome = true := by
  have hMap := congrArg (List.map (Option.getD · fallback)) (mapM_eq_some_iff.mp h)
  rw [List.map_map, List.map_map] at hMap
  refine ⟨(List.map_id' results).symm.trans hMap.symm, isSome_mapM_iff.mp ?_⟩
  rw [h]
  rfl

theorem mapM_map_of_eq {change : α → γ} {action' : γ → Option β}
    (h : ∀ a ∈ list, action' (change a) = action a) : (list.map change).mapM action' = list.mapM action := by
  have hMap : list.map (action' ∘ change) = list.map action := List.map_congr_left h
  refine Option.ext fun results => ?_
  rw [mapM_eq_some_iff, mapM_eq_some_iff, List.map_map, hMap]

theorem mapM_map_eq_some {write : β → α} {values : List β} (h : ∀ b ∈ values, action (write b) = some b) :
    (values.map write).mapM action = some values := by
  rw [mapM_eq_some_iff, List.map_map]
  exact List.map_congr_left h

end Actions
end Slate
