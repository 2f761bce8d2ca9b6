/-!
# Attributes

Facts recorded on a node under text keys.  `Attributes` keeps its entries in increasing
order of the keys, each key once, so that two tables with the same facts are equal.
-/

namespace Amend

/-- A table from keys to values, its keys increasing. -/
structure Attributes where
  entries : List (String × String) := []
  increasing : entries.Pairwise (·.1 < ·.1) := by simp
deriving DecidableEq

namespace Attributes

/-- Put a value under a key into a list of entries, in place of the value already there. -/
def insertEntry (key value : String) : List (String × String) → List (String × String)
  | [] => [(key, value)]
  | (k, v) :: rest =>
    if key < k then (key, value) :: (k, v) :: rest
    else if key = k then (key, value) :: rest
    else (k, v) :: insertEntry key value rest

theorem fst_of_mem_insertEntry {key value : String} {entries : List (String × String)}
    {e : String × String} (h : e ∈ insertEntry key value entries) :
  e.1 = key ∨ e ∈ entries
  := by
  induction entries with
  | nil => simp_all [insertEntry]
  | cons head rest ih =>
    obtain ⟨k, v⟩ := head
    simp only [insertEntry] at h
    split at h
    · grind
    · split at h <;> grind

/-- Entries stay in the order of their keys when one is inserted. -/
theorem pairwise_insertEntry (key value : String) {entries : List (String × String)}
    (h : entries.Pairwise (·.1 < ·.1)) :
  (insertEntry key value entries).Pairwise (·.1 < ·.1)
  := by
  induction entries with
  | nil => simp [insertEntry]
  | cons head rest ih =>
    obtain ⟨k, v⟩ := head
    rw [List.pairwise_cons] at h
    simp only [insertEntry]
    split
    · rename_i hlt
      rw [List.pairwise_cons, List.pairwise_cons]
      refine ⟨fun e he => ?_, h⟩
      rcases List.mem_cons.1 he with rfl | he
      · exact hlt
      · exact String.lt_trans hlt (h.1 e he)
    · rename_i hlt
      split
      · rename_i heq
        rw [List.pairwise_cons]
        exact ⟨fun e he => heq ▸ h.1 e he, h.2⟩
      · rename_i hne
        rw [List.pairwise_cons]
        refine ⟨fun e he => ?_, ih h.2⟩
        rcases fst_of_mem_insertEntry he with hk | he
        · have hle : k ≤ key := String.not_lt.1 hlt
          rw [hk]
          exact Decidable.byContradiction fun hn =>
            hne (String.le_antisymm (String.not_lt.1 hn) hle)
        · exact h.1 e he

/-- The table without entries. -/
def empty : Attributes := {}

/-- Record a value under a key, in place of the value already there. -/
def insert (a : Attributes) (key value : String) : Attributes :=
  ⟨insertEntry key value a.entries, pairwise_insertEntry key value a.increasing⟩

/-- The value under a key. -/
def get? (a : Attributes) (key : String) : Option String := a.entries.lookup key

/-- The table of a list of entries; a later entry replaces an earlier one of its key. -/
def ofList (entries : List (String × String)) : Attributes :=
  entries.foldl (fun a e => a.insert e.1 e.2) empty

theorem lookup_cons_ite (k v other : String) (rest : List (String × String)) :
  ((k, v) :: rest).lookup other = if other = k then some v else rest.lookup other
  := by
  rw [List.lookup_cons]
  by_cases h : other = k
  · simp [h]
  · rw [beq_false_of_ne h, if_neg h]

theorem lookup_insertEntry (key value other : String) (entries : List (String × String)) :
  (insertEntry key value entries).lookup other =
    if other = key then some value else entries.lookup other
  := by
  induction entries with
  | nil => simp [insertEntry]
  | cons head rest ih =>
    obtain ⟨k, v⟩ := head
    simp only [insertEntry]
    split
    · simp [lookup_cons_ite]
    · split
      · simp_all [lookup_cons_ite]
      · rename_i hne
        by_cases h : other = k
        · simp [h, Ne.symm hne]
        · simp [lookup_cons_ite, h, ih]

/-- A value is found under the key that it was inserted under, and under other keys what was there.
-/
@[simp]
theorem get?_insert (a : Attributes) (key value other : String) :
  (a.insert key value).get? other = if other = key then some value else a.get? other
  := lookup_insertEntry key value other a.entries

end Attributes

end Amend
