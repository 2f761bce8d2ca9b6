import Amend.Proofs.Lookup
import Amend.Proofs.Scoping
import Amend.Run
import Mathlib.Data.List.Dedup

/-!
# The index of a project

A run collects the declarations of all its files in one index, which keeps the last one of each
key (`Run.atKey?_indexed`).  When no two declarations have one key, the index knows each of
them (`Run.atKey?_indexOf`).
-/

namespace Amend

/-- The first declaration of a key. -/
def declaredAt (ds : List Declaration) (k : String) : Option Declaration :=
  ds.find? fun d => key d.name = k

/-- No two declarations have one key: their names differ by more than letter case and leading
backslashes. -/
def DistinctKeys (ds : List Declaration) : Prop := ds.Pairwise fun c d => key c.name ≠ key d.name

instance (ds : List Declaration) : Decidable (DistinctKeys ds) :=
  inferInstanceAs (Decidable (ds.Pairwise _))

/-- The last declaration of each key. -/
def latest : List Declaration → List Declaration
  | [] => []
  | d :: ds => if ∃ c ∈ ds, key c.name = key d.name then latest ds else d :: latest ds

variable {ds : List Declaration} {d : Declaration} {k : String}

/-- Nothing is declared under a key that no declaration has. -/
theorem declaredAt_eq_none (h : ∀ d ∈ ds, key d.name ≠ k) :
  declaredAt ds k = none
  := by
  rw [declaredAt, List.find?_eq_none]
  intro d hd
  rw [decide_eq_true_eq]
  apply h d hd

/-- When no two declarations have one key, each is the one of its key. -/
theorem declaredAt_of_mem (hdistinct : DistinctKeys ds) (hd : d ∈ ds) :
  declaredAt ds (key d.name) = some d
  := by
  induction ds with
  | nil => cases hd
  | cons c ds ih =>
    obtain ⟨hc, hds⟩ := List.pairwise_cons.1 hdistinct
    rw [declaredAt, List.find?_cons]
    obtain rfl | hd := List.mem_cons.1 hd
    · simp
    · rw [decide_eq_false (hc d hd)]
      apply ih hds hd

/-! ### The last declaration of each key -/

/-- A declaration is left out when a later one has its key. -/
theorem latest_of_replaced (h : ∃ c ∈ ds, key c.name = key d.name) :
  latest (d :: ds) = latest ds
  := if_pos h

/-- A declaration stays when no later one has its key. -/
theorem latest_of_kept (h : ¬ ∃ c ∈ ds, key c.name = key d.name) :
  latest (d :: ds) = d :: latest ds
  := if_neg h

/-- The last declarations have the keys of all declarations, each key once. -/
theorem map_key_latest (ds : List Declaration) :
  (latest ds).map (fun d => key d.name) = (ds.map fun d => key d.name).dedup
  := by
  induction ds with
  | nil => rfl
  | cons d ds ih =>
    by_cases h : ∃ c ∈ ds, key c.name = key d.name
    · rw [latest_of_replaced h, ih, List.map_cons, List.dedup_cons_of_mem (List.mem_map.2 h)]
    · rw [latest_of_kept h, List.map_cons, ih, List.map_cons,
        List.dedup_cons_of_notMem (mt List.mem_map.1 h)]

/-- Keys differ when none of them occurs twice. -/
theorem distinctKeys_iff :
  DistinctKeys ds ↔ (ds.map fun d => key d.name).Nodup
  := by
  rw [DistinctKeys, List.Nodup, List.pairwise_map]

/-- The last declarations of each key have different keys. -/
theorem distinctKeys_latest (ds : List Declaration) :
  DistinctKeys (latest ds)
  := by
  rw [distinctKeys_iff, map_key_latest]
  apply List.nodup_dedup

/-- Declarations of different keys are the last ones of their keys. -/
theorem latest_of_distinctKeys (h : DistinctKeys ds) :
  latest ds = ds
  := by
  induction ds with
  | nil => rfl
  | cons d ds ih =>
    obtain ⟨hd, hds⟩ := List.pairwise_cons.1 h
    rw [latest_of_kept, ih hds]
    rintro ⟨c, hc, hkey⟩
    apply hd c hc hkey.symm

/-- The last declaration of a key is the one that is kept of it. -/
theorem find?_reverse_eq (ds : List Declaration) (k : String) :
  (ds.reverse.find? fun d => key d.name = k) = declaredAt (latest ds) k
  := by
  induction ds with
  | nil => rfl
  | cons d ds ih =>
    rw [List.reverse_cons, List.find?_append, ih]
    by_cases h : ∃ c ∈ ds, key c.name = key d.name
    · rw [latest_of_replaced h]
      by_cases hk : key d.name = k
      · have hsome : (declaredAt (latest ds) k).isSome := by
          rw [← ih, List.find?_isSome]
          obtain ⟨c, hc, hkey⟩ := h
          exact ⟨c, List.mem_reverse.2 hc, by simp [hkey, hk]⟩
        rw [Option.or_of_isSome hsome]
      · simp [hk]
    · rw [latest_of_kept h]
      by_cases hk : key d.name = k
      · have hnone : declaredAt (latest ds) k = none := by
          rw [← ih, List.find?_eq_none]
          intro c hc hkey
          apply h ⟨c, List.mem_reverse.1 hc, _⟩
          rw [hk, of_decide_eq_true hkey]
        rw [hnone]
        simp [declaredAt, hk]
      · simp [declaredAt, hk]

/-- A declaration is the last one of its key. -/
def IsLast (ds : List Declaration) (d : Declaration) : Prop :=
  ∃ before after, ds = before ++ d :: after ∧ ∀ e ∈ after, key e.name ≠ key d.name

/-- The declaration that is kept of a key is the last one of it. -/
theorem isLast_of_declaredAt (h : declaredAt (latest ds) k = some d) :
  IsLast ds d ∧ key d.name = k
  := by
  rw [← find?_reverse_eq, List.find?_eq_some_iff_append] at h
  obtain ⟨hkey, after, before, hreverse, hafter⟩ := h
  obtain rfl := of_decide_eq_true hkey
  refine ⟨⟨before.reverse, after.reverse, ?_, ?_⟩, rfl⟩
  · rw [← ds.reverse_reverse, hreverse]
    simp
  · intro e he
    simpa using hafter e (List.mem_reverse.1 he)

/-- Some declaration is kept of the key of each declaration. -/
theorem exists_declaredAt_latest (hd : d ∈ ds) :
  ∃ last, declaredAt (latest ds) (key d.name) = some last
  := by
  rw [← find?_reverse_eq, ← Option.isSome_iff_exists, List.find?_isSome]
  exact ⟨d, List.mem_reverse.2 hd, decide_eq_true rfl⟩

/-- The index has under each key what is declared last under it. -/
theorem ProjectIndex.atKey?_insertAll_empty (ds : List Declaration) :
  (empty.insertAll ds).value.atKey? = declaredAt (latest ds)
  := by
  funext k
  have hempty : empty.atKey? k = none := rfl
  rw [atKey?_insertAll, hempty, Option.or_none, find?_reverse_eq]

namespace Run

/-- A file with its text and the parse tree of its text. -/
structure ParsedFile where
  path : String
  text : String
  parse : ParseTree

/-- The tree of a file as it was parsed, before its names are resolved. -/
def ParsedFile.tree (f : ParsedFile) : Node := f.parse.toNode f.text

/-- The file as it is read. -/
def ParsedFile.unit (f : ParsedFile) : ParsedUnit := ⟨f.path, f.text, Php.resolveNames f.tree⟩

/-- The index of a project. -/
def indexOf (files : List ParsedFile) : ProjectIndex :=
  (collectAll .empty (files.map ParsedFile.unit)).value

/-- The declarations of a project, as its names are meant. -/
def declarations (files : List ParsedFile) : List Declaration :=
  files.flatMap fun f => Php.meantDeclarations f.tree

/-- What a file is said to declare is what its tree means. -/
theorem declarationsOf_unit (f : ParsedFile) :
  Php.declarationsOf f.unit.tree = Php.meantDeclarations f.tree
  := by
  apply Php.declarationsOf_resolveNames
  apply ParseTree.isBare_toNode

/-- Collecting files inserts what they declare, file by file. -/
theorem value_collectAll (index : ProjectIndex) (units : List ParsedUnit) :
  (collectAll index units).value
    = (index.insertAll (units.flatMap fun u => Php.declarationsOf u.tree)).value
  := by
  induction units generalizing index with
  | nil => rfl
  | cons u units ih =>
    rw [collectAll, Logged.value_bind, ih, List.flatMap_cons, ProjectIndex.insertAll,
      ProjectIndex.insertAll, List.foldlM_append, Logged.value_bind]
    rfl

/-- The declarations of files that have been read, in order. -/
def declared (units : List ParsedUnit) : List Declaration :=
  units.flatMap fun u => Php.declarationsOf u.tree

/-- The index of files whose declarations are collected in order. -/
def indexed (units : List ParsedUnit) : ProjectIndex := (collectAll .empty units).value

/-- The index of some files holds what they declare. -/
theorem indexed_eq (units : List ParsedUnit) :
  indexed units = (ProjectIndex.empty.insertAll (declared units)).value
  := value_collectAll _ units

/-- The index keeps the last declaration of each key. -/
theorem atKey?_indexed (units : List ParsedUnit) :
  (indexed units).atKey? = declaredAt (latest (declared units))
  := by
  rw [indexed_eq, ProjectIndex.atKey?_insertAll_empty]

/-- When no two declarations of a project have one key, the index knows each of them. -/
theorem atKey?_indexOf {files : List ParsedFile} (hdistinct : DistinctKeys (declarations files)) :
  (indexOf files).atKey? = declaredAt (declarations files)
  := by
  have hdeclared : declared (files.map ParsedFile.unit) = declarations files := by
    rw [declared, List.flatMap_map]
    simp only [declarationsOf_unit]
    rfl
  have hindex : indexOf files = indexed (files.map ParsedFile.unit) := rfl
  rw [hindex, atKey?_indexed, hdeclared, latest_of_distinctKeys hdistinct]

end Run

end Amend
