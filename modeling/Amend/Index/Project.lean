import Amend.Index.Declaration
import Amend.Log

/-!
# The project index

All declarations of a project, one for each key.  A declaration that is inserted later
replaces an earlier one of the same key.
-/

namespace Amend

/-- Declarations under their keys, each key once. -/
structure ProjectIndex where
  entries : List (String × Declaration) := []
  nodup : (entries.map Prod.fst).Nodup := by simp

namespace ProjectIndex

/-- The index without declarations. -/
def empty : ProjectIndex := {}

/-- Put a declaration under a key, in the place of the one already there. -/
def replace (k : String) (d : Declaration) :
    List (String × Declaration) → List (String × Declaration)
  | [] => [(k, d)]
  | e :: rest => if e.1 = k then (k, d) :: rest else e :: replace k d rest

/-- The keys of the entries are those that were there and the new one. -/
theorem mem_keys_replace {k x : String} {d : Declaration} {entries : List (String × Declaration)} :
  x ∈ (replace k d entries).map Prod.fst ↔ x = k ∨ x ∈ entries.map Prod.fst
  := by
  induction entries with
  | nil => simp [replace]
  | cons e rest ih =>
    by_cases h : e.1 = k
    · simp [replace, h]
    · simp only [replace, h, if_false, List.map_cons, List.mem_cons, ih]
      grind

/-- Replacing an entry repeats no key. -/
theorem nodup_replace (k : String) (d : Declaration) {entries : List (String × Declaration)}
    (h : (entries.map Prod.fst).Nodup) :
  ((replace k d entries).map Prod.fst).Nodup
  := by
  induction entries with
  | nil => simp [replace]
  | cons e rest ih =>
    rw [List.map_cons, List.nodup_cons] at h
    by_cases hk : e.1 = k
    · simp only [replace, hk, if_true, List.map_cons, List.nodup_cons]
      exact ⟨hk ▸ h.1, h.2⟩
    · rw [replace, if_neg hk, List.map_cons, List.nodup_cons, mem_keys_replace, not_or]
      exact ⟨⟨hk, h.1⟩, ih h.2⟩

/-- The declaration under a key. -/
def atKey? (index : ProjectIndex) (k : String) : Option Declaration := index.entries.lookup k

/-- The declaration of a name. -/
def get? (index : ProjectIndex) (name : String) : Option Declaration := index.atKey? (key name)

/-- The number of declarations. -/
def size (index : ProjectIndex) : Nat := index.entries.length

/-- The index with a declaration under the key of its name. -/
def put (index : ProjectIndex) (d : Declaration) : ProjectIndex :=
  ⟨replace (key d.name) d index.entries, nodup_replace (key d.name) d index.nodup⟩

/-- Insert a declaration; replacing another one leaves a record. -/
def insert (index : ProjectIndex) (d : Declaration) : Logged ProjectIndex := do
  if (index.get? d.name).isSome then
    Logged.write .debug .index "Duplicate declaration replaced in project index"
  return index.put d

/-- Insert declarations one after the other. -/
def insertAll (index : ProjectIndex) (ds : List Declaration) : Logged ProjectIndex :=
  ds.foldlM insert index

/-- The new declaration is found under its key, and under other keys what was there. -/
theorem lookup_replace (k other : String) (d : Declaration) (entries : List (String × Declaration)) :
  (replace k d entries).lookup other = if other = k then some d else entries.lookup other
  := by
  induction entries with
  | nil =>
    by_cases h : other = k
    · simp [replace, h]
    · simp [replace, List.lookup_cons, beq_false_of_ne h, h]
  | cons e rest ih =>
    obtain ⟨x, v⟩ := e
    by_cases hx : x = k
    · subst hx
      by_cases h : other = x
      · simp [replace, h]
      · simp [replace, List.lookup_cons, beq_false_of_ne h, h]
    · simp only [replace, hx, if_false, List.lookup_cons, ih]
      by_cases h : other = x
      · simp [h, hx]
      · rw [beq_false_of_ne h]

/-- A declaration that is put into the index is found under its key. -/
@[simp]
theorem atKey?_put (index : ProjectIndex) (d : Declaration) (k : String) :
  (index.put d).atKey? k = if k = key d.name then some d else index.atKey? k
  := lookup_replace (key d.name) k d index.entries

/-- What is found under a key makes it one of the keys of the index. -/
theorem mem_keys_of_atKey? {index : ProjectIndex} {k : String} {d : Declaration}
    (h : index.atKey? k = some d) :
  k ∈ index.entries.map Prod.fst
  := by
  unfold atKey? at h
  generalize index.entries = entries at h
  induction entries with
  | nil => simp at h
  | cons e rest ih =>
    obtain ⟨x, v⟩ := e
    by_cases hx : k = x
    · simp [hx]
    · rw [List.lookup_cons, beq_false_of_ne hx] at h
      exact List.mem_cons_of_mem x (ih h)

end ProjectIndex

end Amend
