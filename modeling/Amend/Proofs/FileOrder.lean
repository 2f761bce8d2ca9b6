import Amend.Proofs.Project
import Amend.Proofs.Reach

/-!
# The order of the files

The index of a project has what the last declaration of each key says, whatever else was declared
under that key before (`latest`).  So when no two declarations have one key, the files may be
collected in any order: every question to the index has the same answer, and every file is amended
in the same way (`Run.collectAll_order`).
-/

namespace Amend

variable {ds ds' : List Declaration} {d : Declaration} {k : String}

/-! ### Declarations in another order -/

/-- Keys that differ do so in any order. -/
theorem DistinctKeys.perm (hdistinct : DistinctKeys ds) (hperm : ds.Perm ds') :
  DistinctKeys ds'
  := by
  rw [distinctKeys_iff] at hdistinct ⊢
  apply (hperm.map _).nodup_iff.1 hdistinct

/-- When no two declarations have one key, their order does not matter. -/
theorem declaredAt_perm (hdistinct : DistinctKeys ds) (hperm : ds.Perm ds') (k : String) :
  declaredAt ds' k = declaredAt ds k
  := by
  have hdistinct' := hdistinct.perm hperm
  cases hfound : declaredAt ds k with
  | none =>
    apply declaredAt_eq_none
    intro d hd hkey
    rw [← hkey, declaredAt_of_mem hdistinct (hperm.mem_iff.2 hd)] at hfound
    cases hfound
  | some d =>
    have hkey := List.find?_some hfound
    rw [decide_eq_true_eq] at hkey
    rw [← hkey]
    apply declaredAt_of_mem hdistinct' (hperm.mem_iff.1 (List.mem_of_find?_eq_some hfound))

/-! ### The answers of an index -/

/-- Whatever is asked, the answers of two indexes are the same, and so are the records that they
leave; so every file is amended in the same way. -/
structure SameAnswers (index index' : ProjectIndex) : Prop where
  get?_eq : ∀ name, index'.get? name = index.get? name
  isStaticMember_eq : ∀ member declaration,
    index'.isStaticMember member declaration = index.isStaticMember member declaration
  isSubtype_eq : ∀ declaration ancestor,
    index'.isSubtype declaration ancestor = index.isSubtype declaration ancestor
  amendUnit_eq : ∀ dispatcher u,
    Run.amendUnit dispatcher index'.queries u = Run.amendUnit dispatcher index.queries u

/-- The answers depend on what is declared under each key. -/
theorem SameAnswers.of_atKey? {index index' : ProjectIndex} (h : index'.atKey? = index.atKey?) :
  SameAnswers index index'
  := by
  have halike (name : String) : Queries.AnswersAlike index.queries index'.queries name := by
    apply ProjectIndex.answersAlike_of_agreeFrom
    intro k _
    rw [h]
  have hqueries : index'.queries = index.queries := by
    rw [ProjectIndex.queries, ProjectIndex.queries, Queries.mk.injEq]
    constructor
    · funext member declaration
      apply (halike declaration).isStaticMember_eq
    · funext declaration ancestor
      apply (halike declaration).isSubtype_eq
  constructor
  · intro name
    rw [ProjectIndex.get?, h]
    rfl
  · intro member declaration
    apply (halike declaration).isStaticMember_eq
  · intro declaration ancestor
    apply (halike declaration).isSubtype_eq
  · intro dispatcher u
    rw [hqueries]

/-! ### The number of declarations -/

namespace ProjectIndex

/-- The keys of the index are those that were there and those of the declarations. -/
theorem mem_keys_insertAll {index : ProjectIndex} :
  k ∈ (index.insertAll ds).value.entries.map Prod.fst
    ↔ k ∈ ds.map (fun d => key d.name) ∨ k ∈ index.entries.map Prod.fst
  := by
  induction ds generalizing index with
  | nil => simp [insertAll]
  | cons d ds ih =>
    rw [value_insertAll_cons, ih, put, mem_keys_replace, List.map_cons, List.mem_cons]
    grind

/-- The index has as many declarations as there are keys. -/
theorem size_insertAll (ds : List Declaration) :
  (empty.insertAll ds).value.size = (ds.map fun d => key d.name).dedup.length
  := by
  have hperm : ((empty.insertAll ds).value.entries.map Prod.fst).Perm
      (ds.map fun d => key d.name).dedup := by
    rw [List.perm_ext_iff_of_nodup (empty.insertAll ds).value.nodup (List.nodup_dedup _)]
    intro k
    have hempty : k ∉ empty.entries.map Prod.fst := List.not_mem_nil
    rw [mem_keys_insertAll, List.mem_dedup, or_iff_left hempty]
  rw [size, ← hperm.length_eq, List.length_map]

end ProjectIndex

/-! ### The files of a project -/

namespace Run

/-- When no two declarations of some files have one key, the files may be collected in any other
order: all questions to the index have the same answers, and every file is amended in the same way.
However that may be, the answers are those that the last declarations of each key give, and the
index counts one declaration for each key. -/
theorem collectAll_order (units : List ParsedUnit) :
  (∀ units', units.Perm units' → DistinctKeys (declared units) →
    SameAnswers (indexed units) (indexed units'))
  ∧ SameAnswers (ProjectIndex.empty.insertAll (latest (declared units))).value (indexed units)
  ∧ (indexed units).size = ((declared units).map fun d => key d.name).dedup.length
  := by
  refine ⟨?_, ?_, ?_⟩
  · intro units' hperm hdistinct
    have hdeclared : (declared units).Perm (declared units') := hperm.flatMap_right _
    apply SameAnswers.of_atKey?
    funext k
    rw [atKey?_indexed, atKey?_indexed, latest_of_distinctKeys hdistinct,
      latest_of_distinctKeys (hdistinct.perm hdeclared)]
    apply declaredAt_perm hdistinct hdeclared
  · apply SameAnswers.of_atKey?
    rw [atKey?_indexed, ProjectIndex.atKey?_insertAll_empty,
      latest_of_distinctKeys (distinctKeys_latest _)]
  · rw [indexed_eq, ProjectIndex.size_insertAll]

/-- A file with one class, which extends another one. -/
def extendingUnit (path name parent : String) : ParsedUnit where
  path := path
  source := ""
  tree :=
    (Node.inner Php.classDeclaration [(Node.token Php.name name).withField "name"]).withAttribute
      Php.parentNameKey parent

/-- Two files with classes that extend each other. -/
def catAndDog : List ParsedUnit :=
  [extendingUnit "Dog.php" "Dog" "\\CAT", extendingUnit "Cat.php" "\\cat" "dog"]

/-- Two classes that extend each other, in either order of their files. -/
theorem collectAll_order_catAndDog :
  catAndDog.Perm catAndDog.reverse ∧ DistinctKeys (declared catAndDog)
  ∧ SameAnswers (indexed catAndDog) (indexed catAndDog.reverse)
  ∧ SameAnswers (ProjectIndex.empty.insertAll (latest (declared catAndDog))).value
    (indexed catAndDog)
  ∧ (indexed catAndDog).size = ((declared catAndDog).map fun d => key d.name).dedup.length
  := by
  have hperm : catAndDog.Perm catAndDog.reverse := catAndDog.reverse_perm.symm
  have hdistinct : DistinctKeys (declared catAndDog) := by decide +kernel
  obtain ⟨horder, hlatest⟩ := collectAll_order catAndDog
  exact ⟨hperm, hdistinct, horder _ hperm hdistinct, hlatest⟩

end Run

end Amend
