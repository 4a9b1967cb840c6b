import Mathlib
import Slate.Id.Map
import Slate.Id.Table
import Slate.NameTable

/-! # Laws of tables, maps and sets

Every operation on a table, a map or a name table is described by what `get?` or `find?` gives
afterwards. Maps and sets that are built by `insert` are sorted, and sorted sets with the same
members are equal.
-/

namespace Slate
set_option autoImplicit false

variable {kind : IdKind} {α : Type}

@[simp] theorem Id.mk_index (id : Id kind) : (⟨id.index⟩ : Id kind) = id := rfl

theorem Id.eq_iff (a b : Id kind) : a = b ↔ a.index = b.index := by
  cases a
  cases b
  simp

theorem lookup_cons_ite {β : Type} [DecidableEq β] (key first : β) (value : α)
    (rest : List (β × α)) :
    ((first, value) :: rest).lookup key = if key = first then some value else rest.lookup key := by
  rw [List.lookup_cons]
  by_cases hKey : key = first
  · simp [hKey]
  · rw [beq_false_of_ne hKey, if_neg hKey]

theorem lookup_filter_ne {β : Type} [DecidableEq β] (entries : List (β × α)) (id key : β) :
    (entries.filter fun (key, _) => key != id).lookup key =
      if key = id then none else entries.lookup key := by
  induction entries with
  | nil => simp
  | cons entry rest ih =>
    obtain ⟨first, value⟩ := entry
    by_cases hFirst : first = id
    · subst hFirst
      rw [List.filter_cons_of_neg (by simp), ih, lookup_cons_ite]
      split <;> rfl
    · rw [List.filter_cons_of_pos (by simpa using hFirst), lookup_cons_ite, ih, lookup_cons_ite]
      by_cases hKey : key = first
      · subst hKey
        rw [if_pos rfl, if_neg hFirst, if_pos rfl]
      · rw [if_neg hKey, if_neg hKey]

theorem Id.ne_of_index_lt {a b : Id kind} (h : a.index < b.index) : a ≠ b := by
  rintro rfl
  exact Nat.lt_irrefl _ h

namespace Table

@[simp] theorem size_empty : (empty : Table kind α).size = 0 := rfl

@[simp] theorem size_push (table : Table kind α) (row : α) :
    (table.push row).size = table.size + 1 := by
  simp [push, size]

@[simp] theorem size_modify (table : Table kind α) (id : Id kind) (change : α → α) :
    (table.modify id change).size = table.size := by
  simp [modify, size]

@[simp] theorem size_set (table : Table kind α) (id : Id kind) (row : α) :
    (table.set id row).size = table.size := by
  simp [set, size]

@[simp] theorem index_nextId (table : Table kind α) : table.nextId.index = table.size := rfl

@[simp] theorem get?_empty (id : Id kind) : (empty : Table kind α).get? id = none := by
  simp [empty, get?]

theorem get?_push (table : Table kind α) (row : α) (id : Id kind) :
    (table.push row).get? id = if id = table.nextId then some row else table.get? id := by
  simp only [get?, push, Array.getElem?_push, Id.eq_iff]
  rfl

theorem get?_modify (table : Table kind α) (id key : Id kind) (change : α → α) :
    (table.modify id change).get? key =
      if key = id then (table.get? key).map change else table.get? key := by
  simp only [get?, modify, Array.getElem?_modify, Id.eq_iff, eq_comm]

/-- What a change leaves alone in every row. -/
theorem map_get?_modify {β : Type} (table : Table kind α) (id key : Id kind) {change : α → α} {view : α → β}
    (h : ∀ row, view (change row) = view row) :
    ((table.modify id change).get? key).map view = (table.get? key).map view := by
  rw [get?_modify]
  split
  · rw [Option.map_map]
    exact congrArg (Option.map · _) (funext h)
  · rfl

theorem get?_set (table : Table kind α) (id key : Id kind) (row : α) :
    (table.set id row).get? key =
      if key = id ∧ id.index < table.size then some row else table.get? key := by
  simp only [get?, set, Array.getElem?_setIfInBounds, Id.eq_iff, size]
  by_cases hKey : key.index = id.index
  · by_cases hId : id.index < table.rows.size
    · simp [hKey, hId]
    · simp [hKey, hId]
  · have hKey' : ¬ id.index = key.index := fun h => hKey h.symm
    simp [hKey, hKey']

theorem contains_iff (table : Table kind α) (id : Id kind) :
    table.contains id = true ↔ id.index < table.size := by
  simp [contains, size]

theorem get?_eq_none_iff (table : Table kind α) (id : Id kind) :
    table.get? id = none ↔ table.size ≤ id.index := by
  simp [get?, size]

theorem lt_of_get? {table : Table kind α} {id : Id kind} {row : α}
    (h : table.get? id = some row) : id.index < table.size := by
  by_contra hLarge
  rw [(get?_eq_none_iff table id).mpr (Nat.not_lt.mp hLarge)] at h
  cases h

theorem exists_of_lt {table : Table kind α} {id : Id kind} (h : id.index < table.size) :
    ∃ row, table.get? id = some row := by
  cases hRow : table.get? id with
  | some row => exact ⟨row, rfl⟩
  | none => exact absurd ((get?_eq_none_iff table id).mp hRow) (Nat.not_le.mpr h)

theorem mem_entries_iff (table : Table kind α) (id : Id kind) (row : α) :
    (id, row) ∈ table.entries ↔ table.get? id = some row := by
  simp only [entries, List.mem_map, Prod.exists, Prod.mk.injEq, get?, toList]
  constructor
  · rintro ⟨found, index, hFound, rfl, rfl⟩
    simpa using List.mk_mem_zipIdx_iff_getElem?.mp hFound
  · intro h
    exact ⟨row, id.index, List.mk_mem_zipIdx_iff_getElem?.mpr (by simpa using h), rfl, rfl⟩

theorem mem_toList_iff (table : Table kind α) (row : α) :
    row ∈ table.toList ↔ ∃ id, table.get? id = some row := by
  simp only [toList, get?, Array.mem_toList_iff, Array.mem_iff_getElem?]
  constructor
  · rintro ⟨index, h⟩
    exact ⟨⟨index⟩, h⟩
  · rintro ⟨id, h⟩
    exact ⟨id.index, h⟩

/-- The ids of the rows. -/
def ids (table : Table kind α) : List (Id kind) := (List.range table.size).map Id.mk

@[simp] theorem length_ids (table : Table kind α) : table.ids.length = table.size := by simp [ids]

theorem mem_ids_iff (table : Table kind α) (id : Id kind) : id ∈ table.ids ↔ id.index < table.size := by
  rw [ids, List.mem_map]
  constructor
  · rintro ⟨index, hIndex, rfl⟩
    exact List.mem_range.mp hIndex
  · intro h
    exact ⟨id.index, List.mem_range.mpr h, rfl⟩

@[simp] theorem ids_empty : (empty : Table kind α).ids = [] := rfl

theorem ids_push (table : Table kind α) (row : α) : (table.push row).ids = table.ids ++ [table.nextId] := by
  rw [ids, size_push, List.range_succ, List.map_append]
  rfl

theorem toList_push (table : Table kind α) (row : α) : (table.push row).toList = table.toList ++ [row] :=
  Array.toList_push

theorem isEmpty_iff (table : Table kind α) : table.isEmpty = true ↔ table.size = 0 := by
  simp [isEmpty, size]

theorem ext_get? {table table' : Table kind α} (h : ∀ id, table.get? id = table'.get? id) : table = table' := by
  obtain ⟨rows⟩ := table
  obtain ⟨rows'⟩ := table'
  exact congrArg mk (Array.ext_getElem? fun i => h ⟨i⟩)

/-- One table continues another. -/
def Grows (table table' : Table kind α) : Prop :=
  ∀ id row, table.get? id = some row → table'.get? id = some row

theorem Grows.refl (table : Table kind α) : table.Grows table := fun _ _ h => h

theorem Grows.trans {a b c : Table kind α} (hab : a.Grows b) (hbc : b.Grows c) : a.Grows c :=
  fun id row h => hbc id row (hab id row h)

theorem grows_push (table : Table kind α) (row : α) : table.Grows (table.push row) := by
  intro id other h
  rw [get?_push, if_neg]
  · exact h
  · rintro rfl
    exact Nat.lt_irrefl _ (lt_of_get? h)

theorem Grows.size_le {a b : Table kind α} (h : a.Grows b) : a.size ≤ b.size := by
  by_contra hLarge
  have hLast : (⟨b.size⟩ : Id kind).index < a.size := Nat.not_le.mp hLarge
  obtain ⟨row, hRow⟩ := exists_of_lt hLast
  exact Nat.lt_irrefl _ (lt_of_get? (h _ _ hRow))

theorem Grows.antisymm {table table' : Table kind α} (h : table.Grows table') (h' : table'.Grows table) :
    table = table' := by
  apply ext_get?
  intro id
  cases hRow : table.get? id with
  | some row => exact (h id row hRow).symm
  | none =>
    cases hRow' : table'.get? id with
    | none => rfl
    | some row => exact hRow.symm.trans (h' id row hRow')

/-- What a table held before it grew. -/
theorem Grows.truncate {a b : Table kind α} (h : a.Grows b) : b.truncate a.size = a := by
  have hSize := h.size_le
  obtain ⟨rows⟩ := a
  obtain ⟨rows'⟩ := b
  change rows.size ≤ rows'.size at hSize
  refine congrArg Table.mk (Array.ext_getElem? fun i => ?_)
  change (rows'.extract 0 rows.size)[i]? = rows[i]?
  rw [Array.getElem?_extract, Nat.sub_zero, Nat.zero_add, Nat.min_eq_left hSize]
  by_cases hi : i < rows.size
  · rw [if_pos hi]
    exact (h ⟨i⟩ rows[i] (Array.getElem?_eq_getElem hi)).trans (Array.getElem?_eq_getElem hi).symm
  · rw [if_neg hi]
    exact (Array.getElem?_eq_none (Nat.le_of_not_lt hi)).symm

end Table

namespace IdSet

@[simp] theorem ids_empty : (empty : IdSet kind).ids = [] := rfl

theorem mem_insert (set : IdSet kind) (id key : Id kind) :
    key ∈ (set.insert id).ids ↔ key = id ∨ key ∈ set.ids := by
  obtain ⟨ids⟩ := set
  change key ∈ insert.go id ids ↔ _
  induction ids with
  | nil => simp [insert.go]
  | cons first rest ih =>
    rw [insert.go]
    split
    · simp
    · split
      · rename_i hEq
        subst hEq
        simp
      · rw [List.mem_cons, ih, List.mem_cons]
        exact or_left_comm

/-- The ids increase. -/
def Sorted (set : IdSet kind) : Prop := set.ids.Pairwise fun a b => a.index < b.index

theorem sorted_empty : (empty : IdSet kind).Sorted := List.Pairwise.nil

theorem Sorted.insert {set : IdSet kind} (h : set.Sorted) (id : Id kind) :
    (set.insert id).Sorted := by
  obtain ⟨ids⟩ := set
  change (insert.go id ids).Pairwise _
  change ids.Pairwise _ at h
  induction ids with
  | nil => simp [insert.go]
  | cons first rest ih =>
    obtain ⟨hFirst, hRest⟩ := List.pairwise_cons.mp h
    rw [insert.go]
    split
    · rename_i hLess
      refine List.pairwise_cons.mpr ⟨?_, h⟩
      intro other hOther
      rcases List.mem_cons.mp hOther with rfl | hOther
      · exact hLess
      · exact Nat.lt_trans hLess (hFirst other hOther)
    · split
      · exact h
      · rename_i hNotLess hNe
        have hLess : first.index < id.index :=
          Nat.lt_of_le_of_ne (Nat.not_lt.mp hNotLess) fun hEq =>
            hNe ((Id.eq_iff id first).mpr hEq.symm)
        refine List.pairwise_cons.mpr ⟨?_, ih hRest⟩
        intro other hOther
        rcases (mem_insert ⟨rest⟩ id other).mp hOther with rfl | hOther
        · exact hLess
        · exact hFirst other hOther

theorem Sorted.foldl_insert {set : IdSet kind} (h : set.Sorted) (ids : List (Id kind)) :
    (ids.foldl IdSet.insert set).Sorted := by
  induction ids generalizing set with
  | nil => exact h
  | cons first rest ih => exact ih (h.insert first)

theorem sorted_ofList (ids : List (Id kind)) : (ofList ids).Sorted :=
  sorted_empty.foldl_insert ids

theorem mem_foldl_insert (set : IdSet kind) (ids : List (Id kind)) (key : Id kind) :
    key ∈ (ids.foldl insert set).ids ↔ key ∈ set.ids ∨ key ∈ ids := by
  induction ids generalizing set with
  | nil => simp
  | cons first rest ih =>
    rw [List.foldl_cons, ih, mem_insert, List.mem_cons]
    constructor
    · rintro ((h | h) | h)
      · exact .inr (.inl h)
      · exact .inl h
      · exact .inr (.inr h)
    · rintro (h | h | h)
      · exact .inl (.inr h)
      · exact .inl (.inl h)
      · exact .inr h

theorem mem_ofList (ids : List (Id kind)) (key : Id kind) : key ∈ (ofList ids).ids ↔ key ∈ ids := by
  rw [ofList, mem_foldl_insert]
  simp

theorem Sorted.ext {a b : IdSet kind} (ha : a.Sorted) (hb : b.Sorted)
    (h : ∀ id, id ∈ a.ids ↔ id ∈ b.ids) : a = b := by
  obtain ⟨as⟩ := a
  obtain ⟨bs⟩ := b
  have hNodup : ∀ {ids : List (Id kind)}, ids.Pairwise (fun a b => a.index < b.index) → ids.Nodup :=
    fun hIds => hIds.imp fun hLess => Id.ne_of_index_lt hLess
  have hPerm : as.Perm bs := (List.perm_ext_iff_of_nodup (hNodup ha) (hNodup hb)).mpr h
  congr
  refine hPerm.eq_of_pairwise ?_ ha hb
  intro a b _ _ hab hba
  exact absurd hab (Nat.lt_asymm hba)

end IdSet

namespace IdMap

@[simp] theorem get?_empty (id : Id kind) : (empty : IdMap kind α).get? id = none := rfl

theorem get?_insert (map : IdMap kind α) (id key : Id kind) (value : α) :
    (map.insert id value).get? key = if key = id then some value else map.get? key := by
  obtain ⟨entries⟩ := map
  change (insert.go id value entries).lookup key =
    if key = id then some value else entries.lookup key
  induction entries with
  | nil => rw [insert.go, lookup_cons_ite]
  | cons entry rest ih =>
    obtain ⟨first, old⟩ := entry
    rw [insert.go]
    split
    · rw [lookup_cons_ite]
    · split
      · rename_i hEq
        subst hEq
        simp only [lookup_cons_ite]
        split <;> rfl
      · rename_i hNe
        rw [lookup_cons_ite, ih, lookup_cons_ite]
        by_cases hFirst : key = first
        · subst hFirst
          rw [if_pos rfl, if_neg (Ne.symm hNe), if_pos rfl]
        · rw [if_neg hFirst, if_neg hFirst]

theorem get?_erase (map : IdMap kind α) (id key : Id kind) :
    (map.erase id).get? key = if key = id then none else map.get? key := by
  obtain ⟨entries⟩ := map
  exact lookup_filter_ne entries id key

/-- The keys increase. -/
def Sorted (map : IdMap kind α) : Prop := map.entries.Pairwise fun a b => a.1.index < b.1.index

theorem sorted_empty : (empty : IdMap kind α).Sorted := List.Pairwise.nil

theorem mem_of_get? {map : IdMap kind α} {id : Id kind} {value : α}
    (h : map.get? id = some value) : (id, value) ∈ map.entries := by
  obtain ⟨before, after, hEntries, -⟩ := List.lookup_eq_some_iff.mp h
  rw [hEntries]
  simp

theorem keys_insert (map : IdMap kind α) (id : Id kind) (value : α) :
    (map.insert id value).keys = (IdSet.insert ⟨map.keys⟩ id).ids := by
  obtain ⟨entries⟩ := map
  change (insert.go id value entries).map Prod.fst = IdSet.insert.go id (entries.map Prod.fst)
  induction entries with
  | nil => rfl
  | cons entry rest ih =>
    obtain ⟨first, old⟩ := entry
    rw [insert.go, List.map_cons, IdSet.insert.go]
    split
    · rfl
    · split
      · rename_i hEq
        subst hEq
        rfl
      · rw [List.map_cons, ih]

theorem sorted_iff_keys (map : IdMap kind α) :
    map.Sorted ↔ (⟨map.keys⟩ : IdSet kind).Sorted := by
  simp only [Sorted, IdSet.Sorted, keys, List.pairwise_map]

theorem Sorted.insert {map : IdMap kind α} (h : map.Sorted) (id : Id kind) (value : α) :
    (map.insert id value).Sorted := by
  rw [sorted_iff_keys, keys_insert]
  exact ((sorted_iff_keys map).mp h).insert id

theorem Sorted.erase {map : IdMap kind α} (h : map.Sorted) (id : Id kind) : (map.erase id).Sorted :=
  List.Pairwise.filter _ h

theorem Sorted.get?_of_mem {map : IdMap kind α} (h : map.Sorted) {id : Id kind} {value : α}
    (hMem : (id, value) ∈ map.entries) : map.get? id = some value := by
  obtain ⟨entries⟩ := map
  change entries.lookup id = some value
  change entries.Pairwise _ at h
  induction entries with
  | nil => cases hMem
  | cons entry rest ih =>
    obtain ⟨hFirst, hRest⟩ := List.pairwise_cons.mp h
    rcases List.mem_cons.mp hMem with rfl | hMem
    · simp
    · have hNe : id ≠ entry.1 := (Id.ne_of_index_lt (hFirst _ hMem)).symm
      rw [lookup_cons_ite, if_neg hNe]
      exact ih hMem hRest

theorem Sorted.mem_entries_iff {map : IdMap kind α} (h : map.Sorted) (id : Id kind) (value : α) :
    (id, value) ∈ map.entries ↔ map.get? id = some value :=
  ⟨h.get?_of_mem, mem_of_get?⟩

theorem Sorted.mem_values_iff {map : IdMap kind α} (h : map.Sorted) (value : α) :
    value ∈ map.values ↔ ∃ id, map.get? id = some value := by
  simp only [values, List.mem_map, Prod.exists, exists_eq_right, h.mem_entries_iff]

theorem insert_go_go (id : Id kind) (value value' : α) (entries : List (Id kind × α)) :
    insert.go id value' (insert.go id value entries) = insert.go id value' entries := by
  induction entries with
  | nil => simp [insert.go]
  | cons entry rest ih =>
    obtain ⟨key, old⟩ := entry
    by_cases hLess : id.index < key.index
    · simp [insert.go, hLess]
    · by_cases hEq : id = key
      · simp [insert.go, hEq]
      · simp [insert.go, hLess, hEq, ih]

theorem insert_insert (map : IdMap kind α) (id : Id kind) (value value' : α) :
    (map.insert id value).insert id value' = map.insert id value' :=
  congrArg IdMap.mk (insert_go_go id value value' map.entries)

/-- A binding that is there already. -/
theorem Sorted.insert_self {map : IdMap kind α} (h : map.Sorted) {id : Id kind} {value : α}
    (hFound : map.get? id = some value) : map.insert id value = map := by
  obtain ⟨entries⟩ := map
  refine congrArg IdMap.mk ?_
  rw [Sorted] at h
  change entries.lookup id = some value at hFound
  induction entries with
  | nil => cases hFound
  | cons entry rest ih =>
    obtain ⟨key, old⟩ := entry
    rw [lookup_cons_ite] at hFound
    by_cases hEq : id = key
    · rw [if_pos hEq] at hFound
      cases hFound
      simp [insert.go, hEq]
    · rw [if_neg hEq] at hFound
      have hRest : (id, value) ∈ rest := mem_of_get? hFound
      have hLess := List.rel_of_pairwise_cons h hRest
      change key.index < id.index at hLess
      rw [insert.go, if_neg (Nat.lt_asymm hLess), if_neg hEq,
        ih h.of_cons hFound]

end IdMap

namespace NameTable

@[simp] theorem find?_empty (name : String) : (empty : NameTable α).find? name = none := rfl

theorem find?_erase (table : NameTable α) (name key : String) :
    (table.erase name).find? key = if key = name then none else table.find? key := by
  obtain ⟨entries⟩ := table
  exact lookup_filter_ne entries name key

theorem isSome_find?_iff (table : NameTable α) (name : String) :
    (table.find? name).isSome = true ↔ name ∈ table.entries.map Prod.fst := by
  rw [find?]
  induction table.entries with
  | nil => simp
  | cons entry rest ih =>
    rw [lookup_cons_ite, List.map_cons, List.mem_cons]
    split
    · simp [*]
    · simp [*]

theorem entries_insert_of_fresh {table : NameTable α} {name : String} (h : table.find? name = none) (value : α) :
    (table.insert name value).entries = (name, value) :: table.entries := by
  have hFresh : name ∉ table.entries.map Prod.fst := by
    rw [← isSome_find?_iff, h]
    exact Bool.false_ne_true
  have hKept : (table.erase name).entries = table.entries := by
    apply List.filter_eq_self.mpr
    intro entry hEntry
    rw [bne_iff_ne]
    rintro rfl
    exact hFresh (List.mem_map.mpr ⟨entry, hEntry, rfl⟩)
  rw [insert, hKept]

theorem find?_insert (table : NameTable α) (name key : String) (value : α) :
    (table.insert name value).find? key = if key = name then some value else table.find? key := by
  change ((name, value) :: (table.erase name).entries).lookup key = _
  rw [lookup_cons_ite]
  change (if key = name then some value else (table.erase name).find? key) = _
  rw [find?_erase]
  split <;> rfl

end NameTable
end Slate
