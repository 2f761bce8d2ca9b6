import Amend.Proofs.Overwriting
import Amend.Run
import Mathlib.Data.List.Forall2

/-!
# The stages of a run

A run comes to a result exactly when the rules come to an end on every file that has been read
(`Run.value_processUnits_eq_some_iff`, `Run.exists_become_iff`).  What becomes of a file is decided
on its own, from the disk as it was before the run and from the index (`Run.Becomes`), and then
what has changed is written (`Run.lookup?_writeAll_of_writes`,
`Run.lookup?_writeAll_of_not_writes`).  A file that cannot be read or parsed has no part in the
index and is not written, so the others come out as if it had not been given
(`Run.failures_stay_apart`).
-/

namespace Amend

/-- The results for the items of a list are found one by one. -/
theorem Logged.value_mapM {α β : Type} (f : α → Logged β) (xs : List α) :
  (xs.mapM f).value = xs.map fun x => (f x).value
  := by
  induction xs with
  | nil => rfl
  | cons x xs ih =>
    rw [List.mapM_cons, value_bind, value_bind, ih]
    rfl

/-- There are results for the items of a list when there is one for each item. -/
theorem Logged.value_run_mapM_eq_some_iff {α β : Type} (f : α → OptionT Logged β) (xs : List α)
    (ys : List β) :
  (xs.mapM f).run.value = some ys ↔ List.Forall₂ (fun x y => (f x).run.value = some y) xs ys
  := by
  induction xs generalizing ys with
  | nil =>
    rw [List.mapM_nil, value_run_pure, Option.some.injEq, List.forall₂_nil_left_iff, eq_comm]
  | cons x xs ih =>
    simp only [List.mapM_cons, value_run_bind, value_run_pure, Option.bind_eq_some_iff, ih,
      List.forall₂_cons_left_iff, Option.some.injEq]
    constructor
    · rintro ⟨y, hy, ys, hys, rfl⟩
      exact ⟨y, ys, hy, hys, rfl⟩
    · rintro ⟨y, ys, hy, hys, rfl⟩
      exact ⟨y, hy, ys, hys, rfl⟩

section Related

variable {α β : Type} {R : α → β → Prop} {xs : List α} {ys : List β}

/-- All items of a list are related to something when each of them is. -/
theorem exists_forall₂_iff :
  (∃ ys, List.Forall₂ R xs ys) ↔ ∀ x ∈ xs, ∃ y, R x y
  := by
  induction xs with
  | nil => simp
  | cons x xs ih =>
    rw [List.forall_mem_cons, ← ih]
    constructor
    · rintro ⟨_, _ | ⟨hy, hys⟩⟩
      exact ⟨⟨_, hy⟩, ⟨_, hys⟩⟩
    · rintro ⟨⟨y, hy⟩, ys, hys⟩
      exact ⟨y :: ys, .cons hy hys⟩

/-- Every item of the first list is related to one of the second list. -/
theorem exists_mem_of_forall₂_left (h : List.Forall₂ R xs ys) {x : α} (hx : x ∈ xs) :
  ∃ y ∈ ys, R x y
  := by
  induction h with
  | nil => cases hx
  | cons hxy _ ih =>
    obtain rfl | hx := List.mem_cons.1 hx
    · exact ⟨_, List.mem_cons_self, hxy⟩
    · obtain ⟨y, hy, hxy⟩ := ih hx
      exact ⟨y, List.mem_cons_of_mem _ hy, hxy⟩

/-- Every item of the second list is related to one of the first list. -/
theorem exists_mem_of_forall₂_right (h : List.Forall₂ R xs ys) {y : β} (hy : y ∈ ys) :
  ∃ x ∈ xs, R x y
  := exists_mem_of_forall₂_left h.flip hy

end Related

namespace Run

/-- A file is read as its text and the tree of its text. -/
structure Parses (grammar : Php.Grammar) (d : Disk) (u : ParsedUnit) : Prop where
  read_eq : d.read u.path = .ok u.source
  parse_eq : Php.read grammar u.path u.source = .ok u.tree

/-- Why a file is not read into a tree: it cannot be read, or its text cannot be parsed. -/
inductive FailsWith (grammar : Php.Grammar) (d : Disk) (path : String) : (reason : String) → Prop
  | unread {e : OsError} (h : d.read path = .error e) :
      FailsWith grammar d path s!"read failed: {e.message}"
  | unparsed {source : String} {e : Failure} (hread : d.read path = .ok source)
      (hparse : Php.read grammar path source = .error e) : FailsWith grammar d path e.message

/-- What is read of a file, if it can be read and parsed. -/
def parsed? (grammar : Php.Grammar) (d : Disk) (path : String) : Option ParsedUnit :=
  (readUnit grammar d path).value.toOption

/-- The index of the files that can be read and parsed. -/
def indexFor (grammar : Php.Grammar) (d : Disk) (paths : List String) : ProjectIndex :=
  (collectAll .empty (paths.filterMap (parsed? grammar d))).value

/-- How a plan has its rules applied. -/
def Plan.dispatcher (plan : Plan) : Dispatcher := { registry := plan.registry, mode := plan.mode }

/-- In a run over the files of `paths` the rules come to the outcome `o` on the file `u`. -/
structure Amends (plan : Plan) (d : Disk) (paths : List String) (u : ParsedUnit) (o : Outcome) :
    Prop where
  parses : Parses plan.grammar d u
  outcome_eq : plan.dispatcher.applyAll? (indexFor plan.grammar d paths).queries u.tree
    (activityOn u.path) = some o

/-- In a run over the files of `paths` the rules come to an end on every file that is read and
parsed, none of their passes going on without end. -/
def RulesEnd (plan : Plan) (d : Disk) (paths : List String) : Prop :=
  ∀ u, u.path ∈ paths → Parses plan.grammar d u → ∃ o, Amends plan d paths u o

/-- What becomes of a file before anything is written. -/
inductive Becomes (plan : Plan) (d : Disk) (paths : List String) (path : String) :
    Except UnitReport AmendedUnit → Prop
  | skipped {reason : String} (h : FailsWith plan.grammar d path reason) :
      Becomes plan d paths path (.error (.skip path reason))
  | amended {u : ParsedUnit} {o : Outcome} (h : Amends plan d paths u o) (hpath : u.path = path) :
      Becomes plan d paths path (.ok (u.amended o))

/-- What becomes of all files of a run before anything is written. -/
def Become (plan : Plan) (d : Disk) (paths : List String)
    (units : List (Except UnitReport AmendedUnit)) : Prop :=
  List.Forall₂ (Becomes plan d paths) paths units

/-- What the run leaves behind when this has become of its files. -/
def resultOf (plan : Plan) (d : Disk) (paths : List String)
    (units : List (Except UnitReport AmendedUnit)) : Result where
  disk := (writeAll plan.dryRun d units).value.1
  units := (writeAll plan.dryRun d units).value.2
  progress := ⟨(paths.filterMap (parsed? plan.grammar d)).length, paths.length⟩

/-- The file that fails is skipped at its position without changes, and it stays as it is; the other
run, which is without it, comes to the same reports on the others and to the same disk. -/
def StaysApart (d : Disk) (path reason : String) (position : Nat) (result others : Result) : Prop :=
  ∃ reports reports', reports.length = position
    ∧ result.units = reports ++ ⟨path, .skipped, [], 0, some reason⟩ :: reports'
    ∧ result.disk.entryOf? path = d.entryOf? path
    ∧ others.units = reports ++ reports' ∧ others.disk = result.disk

/-- The file that it is about. -/
def unitPath : Except UnitReport AmendedUnit → String
  | .error report => report.path
  | .ok u => u.path

variable {plan : Plan} {grammar : Php.Grammar} {d d' : Disk} {path reason s : String}
  {place : Location} {paths paths' : List String} {u : ParsedUnit} {a : AmendedUnit} {o : Outcome}
  {unit : Except UnitReport AmendedUnit} {units : List (Except UnitReport AmendedUnit)}
  {dryRun : Bool}

/-! ### Reading -/

/-- A file that cannot be read or parsed is skipped, for that reason. -/
theorem value_readUnit_of_failsWith (h : FailsWith grammar d path reason) :
  (readUnit grammar d path).value = .error (.skip path reason)
  := by
  rw [readUnit]
  cases h with
  | unread h =>
    rw [h]
    rfl
  | unparsed hread hparse =>
    rw [hread]
    dsimp only
    rw [hparse]
    rfl

/-- A file that can be read and parsed is. -/
theorem value_readUnit_of_parses (h : Parses grammar d u) :
  (readUnit grammar d u.path).value = .ok u
  := by
  rw [readUnit, h.read_eq]
  dsimp only
  rw [h.parse_eq]
  rfl

/-- A file is read and parsed, or there is a reason why not. -/
theorem failsWith_or_parses (grammar : Php.Grammar) (d : Disk) (path : String) :
  (∃ reason, FailsWith grammar d path reason) ∨ ∃ u, Parses grammar d u ∧ u.path = path
  := by
  cases hread : d.read path with
  | error e => exact .inl ⟨_, .unread hread⟩
  | ok source =>
    cases hparse : Php.read grammar path source with
    | error e => exact .inl ⟨_, .unparsed hread hparse⟩
    | ok tree => exact .inr ⟨⟨path, source, tree⟩, ⟨hread, hparse⟩, rfl⟩

/-- There is one reason why a file is not read. -/
theorem FailsWith.unique {reason' : String} (h : FailsWith grammar d path reason)
    (h' : FailsWith grammar d path reason') :
  reason' = reason
  := by
  have hskipped := (value_readUnit_of_failsWith h').symm.trans (value_readUnit_of_failsWith h)
  injection hskipped with hskipped
  injection hskipped with _ _ _ _ hreason
  exact Option.some.inj hreason

/-- What is read of a file is one thing. -/
theorem Parses.unique {u' : ParsedUnit} (h : Parses grammar d u) (h' : Parses grammar d u')
    (hpath : u'.path = u.path) :
  u' = u
  := by
  have hread := value_readUnit_of_parses h'
  rw [hpath, value_readUnit_of_parses h] at hread
  exact (Except.ok.inj hread).symm

/-- A file that fails has no part in the index. -/
theorem parsed?_of_failsWith (h : FailsWith grammar d path reason) :
  parsed? grammar d path = none
  := by
  rw [parsed?, value_readUnit_of_failsWith h]
  rfl

/-- A file that is read and parsed does not fail. -/
theorem Parses.not_failsWith (h : Parses grammar d u) :
  ¬ FailsWith grammar d u.path reason
  := by
  intro hfails
  cases (value_readUnit_of_parses h).symm.trans (value_readUnit_of_failsWith hfails)

/-- The text of a file decides whether it can be parsed, its path does not. -/
theorem Parses.of_locate_eq (h : Parses grammar d u) (hlocate : d.locate path = d.locate u.path) :
  Parses grammar d { u with path }
  := by
  constructor
  · rw [Disk.read_eq_of_locate_eq hlocate, h.read_eq]
  · have hparse := h.parse_eq
    rw [Php.read] at hparse ⊢
    cases htree : grammar u.source with
    | none =>
      rw [htree] at hparse
      cases hparse
    | some root =>
      rw [htree] at hparse
      dsimp only at hparse ⊢
      rw [Php.readTree] at hparse ⊢
      split at hparse
      · cases hparse
      · rename_i hfault
        rw [if_neg hfault]
        exact hparse

/-! ### What becomes of a file -/

/-- The rules make of a file what their outcome comes to. -/
theorem value_run_amendUnit (dispatcher : Dispatcher) (queries : Queries) (u : ParsedUnit) :
  (Except.ok (ε := UnitReport) <$> amendUnit dispatcher queries u).run.value
    = (dispatcher.applyAll? queries u.tree (activityOn u.path)).map fun o => .ok (u.amended o)
  := by
  rw [amendUnit]
  cases dispatcher.applyAll? queries u.tree (activityOn u.path) <;> rfl

/-- The relation tells what the stages before the last one do with a file. -/
theorem becomes_iff :
  Becomes plan d paths path unit
    ↔ (amendRead plan.dispatcher (indexFor plan.grammar d paths).queries
        (readUnit plan.grammar d path).value).run.value = some unit
  := by
  obtain ⟨reason, hfails⟩ | ⟨u, hparses, rfl⟩ := failsWith_or_parses plan.grammar d path
  · rw [value_readUnit_of_failsWith hfails, amendRead, Logged.value_run_pure, Option.some.injEq]
    constructor
    · rintro (hfails' | ⟨hamends, rfl⟩)
      · rw [hfails.unique hfails']
      · cases hamends.parses.not_failsWith hfails
    · rintro rfl
      exact .skipped hfails
  · rw [value_readUnit_of_parses hparses, amendRead, value_run_amendUnit]
    constructor
    · rintro (hfails | ⟨hamends, hpath⟩)
      · cases hparses.not_failsWith hfails
      · obtain rfl := hparses.unique hamends.parses hpath
        rw [hamends.outcome_eq]
        rfl
    · intro hunit
      obtain ⟨o, houtcome, rfl⟩ := Option.map_eq_some_iff.1 hunit
      exact .amended ⟨hparses, houtcome⟩ rfl

/-- What becomes of a file bears its path. -/
theorem Becomes.unitPath_eq (h : Becomes plan d paths path unit) :
  unitPath unit = path
  := by
  cases h with
  | skipped => rfl
  | amended _ hpath => exact hpath

/-- What is to be written comes of a file that has been read and parsed. -/
theorem Becomes.exists_parses (h : Becomes plan d paths path (.ok a)) :
  ∃ u, Parses plan.grammar d u ∧ u.path = path ∧ a.path = path
  := by
  cases h with
  | amended hamends hpath => exact ⟨_, hamends.parses, hpath, hpath⟩

/-- What becomes of a file depends on the others through the index only. -/
theorem Becomes.of_indexFor_eq (h : Becomes plan d paths path unit)
    (hindex : indexFor plan.grammar d paths' = indexFor plan.grammar d paths) :
  Becomes plan d paths' path unit
  := by
  rw [becomes_iff] at h ⊢
  rw [hindex, h]

/-- Something becomes of every file when the rules come to an end. -/
theorem exists_become_iff :
  (∃ units, Become plan d paths units) ↔ RulesEnd plan d paths
  := by
  simp only [Become]
  rw [exists_forall₂_iff]
  constructor
  · intro h u hpath hparses
    obtain ⟨unit, hfails | ⟨hamends, hpath'⟩⟩ := h u.path hpath
    · cases hparses.not_failsWith hfails
    · obtain rfl := hparses.unique hamends.parses hpath'
      exact ⟨_, hamends⟩
  · intro hend path hpath
    obtain ⟨reason, hfails⟩ | ⟨u, hparses, rfl⟩ := failsWith_or_parses plan.grammar d path
    · exact ⟨_, .skipped hfails⟩
    · obtain ⟨o, hamends⟩ := hend u hpath hparses
      exact ⟨_, .amended hamends rfl⟩

/-- All files are read before any is written. -/
theorem value_processUnits_eq_some_iff {result : Result} :
  (processUnits plan d paths).run.value = some result
    ↔ ∃ units, Become plan d paths units ∧ result = resultOf plan d paths units
  := by
  have hparsed : parsedUnits (paths.map fun path => (readUnit plan.grammar d path).value)
      = paths.filterMap (parsed? plan.grammar d) := by
    rw [parsedUnits, List.filterMap_map]
    rfl
  have hbecome (units : List (Except UnitReport AmendedUnit)) : Become plan d paths units
      ↔ ((paths.map fun path => (readUnit plan.grammar d path).value).mapM
          (amendRead plan.dispatcher (indexFor plan.grammar d paths).queries)).run.value
        = some units := by
    rw [Logged.value_run_mapM_eq_some_iff, List.forall₂_map_left_iff]
    simp only [← becomes_iff]
    rfl
  simp only [hbecome, processUnits, Logged.value_run_bind, Logged.value_run_lift,
    Logged.value_run_pure, Option.bind_some, Logged.value_mapM, hparsed, Option.bind_eq_some_iff,
    Option.some.injEq]
  apply exists_congr
  intro units
  apply and_congr_right
  intro _
  exact eq_comm

/-- A run comes to a result when the rules come to an end. -/
theorem exists_result_iff :
  (∃ result, (processUnits plan d paths).run.value = some result) ↔ RulesEnd plan d paths
  := by
  rw [← exists_become_iff]
  simp only [value_processUnits_eq_some_iff]
  constructor
  · rintro ⟨_, units, hunits, -⟩
    exact ⟨units, hunits⟩
  · rintro ⟨units, hunits⟩
    exact ⟨_, units, hunits, rfl⟩

/-! ### Writing back -/

/-- What is reported on a file that is written if it has changed. -/
def report (a : AmendedUnit) : UnitReport where
  path := a.path
  status := if a.output.isSome then .changed else .unchanged
  applied := a.applied
  passes := a.passes

/-- The text `s` is to be written to the place. -/
def Writes (d : Disk) (units : List (Except UnitReport AmendedUnit)) (place : Location)
    (s : String) : Prop :=
  ∃ a, .ok a ∈ units ∧ a.output = some s ∧ d.locate a.path = .ok place

/-- Every file that is to be written is there. -/
def AllOpen (d : Disk) (units : List (Except UnitReport AmendedUnit)) : Prop :=
  ∀ a s, .ok a ∈ units → a.output = some s → ∃ place, d.Opens a.path place

/-- The report on a file bears its path, whether it could be written or not. -/
theorem path_writeBack (dryRun : Bool) (d : Disk) (a : AmendedUnit) :
  (writeBack dryRun d a).value.2.path = a.path
  := by
  rw [writeBack]
  cases a.output with
  | none => rfl
  | some s =>
    dsimp only
    split
    · rfl
    · cases d.write a.path s <;> rfl

/-- When nothing is to be written, a changed file is reported as such. -/
theorem writeBack_true (d : Disk) (a : AmendedUnit) :
  (writeBack true d a).value = (d, report a)
  := by
  rw [writeBack, report]
  cases a.output <;> rfl

/-- A file without changes is not written. -/
theorem disk_writeBack_of_none (h : a.output = none) (dryRun : Bool) (d : Disk) :
  (writeBack dryRun d a).value = (d, report a)
  := by
  rw [writeBack, report, h]
  rfl

/-- A changed file is written, and reported as such if that succeeds. -/
theorem writeBack_of_some (h : a.output = some s) (d : Disk) :
  (writeBack false d a).value.1 = d.afterWriting a.path s
    ∧ ∀ d', d.write a.path s = .ok d' → (writeBack false d a).value.2 = report a
  := by
  rw [writeBack, report, h, Disk.afterWriting]
  dsimp only
  cases d.write a.path s with
  | error e => exact ⟨rfl, fun _ h => by cases h⟩
  | ok d' => exact ⟨rfl, fun _ _ => rfl⟩

/-- A changed file holds its new text afterwards. -/
theorem lookup?_writeBack (houtput : a.output = some s) (hopens : d.Opens a.path place) :
  (writeBack false d a).value.1.lookup? place = (d.lookup? place).map (Entry.withText s)
  := by
  obtain ⟨hdisk, -⟩ := writeBack_of_some houtput d
  rw [hdisk, (hopens.overwrites s).lookup?_eq, if_pos rfl]

/-- Writing back one file leaves the disk alone, or overwrites the file if it has changed. -/
theorem writeBack_cases (dryRun : Bool)
    (hopens : ∀ s, a.output = some s → ∃ place, d.Opens a.path place) :
  ((writeBack dryRun d a).value.1 = d ∧ (a.output = none ∨ dryRun = true))
    ∨ ∃ s place, a.output = some s ∧ d.Opens a.path place
      ∧ d.Overwrites place s (writeBack dryRun d a).value.1
  := by
  cases houtput : a.output with
  | none =>
    rw [disk_writeBack_of_none houtput]
    exact .inl ⟨rfl, .inl rfl⟩
  | some s =>
    cases dryRun with
    | true =>
      rw [writeBack_true]
      exact .inl ⟨rfl, .inr rfl⟩
    | false =>
      obtain ⟨place, hplace⟩ := hopens s houtput
      obtain ⟨hdisk, -⟩ := writeBack_of_some houtput d
      rw [hdisk]
      exact .inr ⟨s, place, rfl, hplace, hplace.overwrites s⟩

/-- Writing back one file leaves every entry where it was. -/
theorem sameLayout_writeBack (dryRun : Bool)
    (hopens : ∀ s, a.output = some s → ∃ place, d.Opens a.path place) :
  d.SameLayout (writeBack dryRun d a).value.1
  := by
  obtain ⟨hsame, -⟩ | ⟨s, place, -, -, hoverwrites⟩ := writeBack_cases dryRun hopens
  · rw [hsame]
    apply Disk.SameLayout.refl
  · apply hoverwrites.sameLayout

theorem AllOpen.of_error {r : UnitReport} (h : AllOpen d (.error r :: units)) :
  AllOpen d units
  := fun a s ha => h a s (List.mem_cons_of_mem _ ha)

/-- The first file is there if it is to be written. -/
theorem AllOpen.head (h : AllOpen d (.ok a :: units)) :
  ∀ s, a.output = some s → ∃ place, d.Opens a.path place
  := fun s => h a s List.mem_cons_self

/-- The files are still there once the first one has been written. -/
theorem AllOpen.tail (h : AllOpen d (.ok a :: units)) (hlayout : d.SameLayout d') :
  AllOpen d' units
  := by
  intro a' s ha' houtput
  obtain ⟨place, hplace⟩ := h a' s (List.mem_cons_of_mem _ ha') houtput
  exact ⟨place, hlayout.opens hplace⟩

/-- What is to be written where depends on the layout of the disk only. -/
theorem writes_congr (h : d.SameLayout d') :
  Writes d' units place s ↔ Writes d units place s
  := by
  simp only [Writes, h.locate_eq]

/-- A file that is skipped is not to be written. -/
theorem writes_cons_error {r : UnitReport} :
  Writes d (.error r :: units) place s ↔ Writes d units place s
  := by
  simp [Writes]

/-- The first file or one of the others is to be written to the place. -/
theorem writes_cons_ok :
  Writes d (.ok a :: units) place s
    ↔ a.output = some s ∧ d.locate a.path = .ok place ∨ Writes d units place s
  := by
  simp [Writes, or_and_right, exists_or]

/-! ### Writing all files -/

/-- A file that is skipped is reported as such. -/
theorem value_writeAll_error (dryRun : Bool) (d : Disk) (r : UnitReport)
    (units : List (Except UnitReport AmendedUnit)) :
  (writeAll dryRun d (.error r :: units)).value
    = ((writeAll dryRun d units).value.1, r :: (writeAll dryRun d units).value.2)
  := rfl

/-- The first file is written, and then the others. -/
theorem value_writeAll_ok (dryRun : Bool) (d : Disk) (a : AmendedUnit)
    (units : List (Except UnitReport AmendedUnit)) :
  (writeAll dryRun d (.ok a :: units)).value
    = ((writeAll dryRun (writeBack dryRun d a).value.1 units).value.1,
        (writeBack dryRun d a).value.2
          :: (writeAll dryRun (writeBack dryRun d a).value.1 units).value.2)
  := rfl

/-- There is one report on every file, in order. -/
theorem map_path_writeAll (dryRun : Bool) (d : Disk)
    (units : List (Except UnitReport AmendedUnit)) :
  (writeAll dryRun d units).value.2.map (·.path) = units.map unitPath
  := by
  induction units generalizing d with
  | nil => rfl
  | cons unit units ih =>
    cases unit with
    | error r =>
      rw [value_writeAll_error, List.map_cons, List.map_cons, ih]
      rfl
    | ok a =>
      rw [value_writeAll_ok, List.map_cons, List.map_cons, ih, path_writeBack]
      rfl

/-- A file that is skipped makes no difference to the others. -/
theorem writeAll_append_error (dryRun : Bool) (d : Disk)
    (before after : List (Except UnitReport AmendedUnit)) (r : UnitReport) :
  ∃ d' reports reports', reports.length = before.length
    ∧ (writeAll dryRun d (before ++ .error r :: after)).value = (d', reports ++ r :: reports')
    ∧ (writeAll dryRun d (before ++ after)).value = (d', reports ++ reports')
  := by
  induction before generalizing d with
  | nil => exact ⟨_, [], _, rfl, value_writeAll_error dryRun d r after, rfl⟩
  | cons unit before ih =>
    cases unit with
    | error r' =>
      obtain ⟨d', reports, reports', hlength, hwith, hwithout⟩ := ih d
      refine ⟨d', r' :: reports, reports', ?_, ?_, ?_⟩
      · rw [List.length_cons, hlength, List.length_cons]
      · rw [List.cons_append, value_writeAll_error, hwith]
        rfl
      · rw [List.cons_append, value_writeAll_error, hwithout]
        rfl
    | ok a =>
      obtain ⟨d', reports, reports', hlength, hwith, hwithout⟩ :=
        ih (writeBack dryRun d a).value.1
      refine ⟨d', (writeBack dryRun d a).value.2 :: reports, reports', ?_, ?_, ?_⟩
      · rw [List.length_cons, hlength, List.length_cons]
      · rw [List.cons_append, value_writeAll_ok, hwith]
        rfl
      · rw [List.cons_append, value_writeAll_ok, hwithout]
        rfl

/-- Writing files back leaves every entry where it was. -/
theorem sameLayout_writeAll (hopen : AllOpen d units) :
  d.SameLayout (writeAll dryRun d units).value.1
  := by
  induction units generalizing d with
  | nil => apply Disk.SameLayout.refl
  | cons unit units ih =>
    cases unit with
    | error r => exact ih hopen.of_error
    | ok a =>
      rw [value_writeAll_ok]
      have hlayout := sameLayout_writeBack dryRun hopen.head
      apply hlayout.trans (ih (hopen.tail hlayout))

/-- What is not to be written stays as it is. -/
theorem lookup?_writeAll_of_not_writes (hopen : AllOpen d units)
    (hnot : ∀ s, ¬ Writes d units place s) :
  (writeAll dryRun d units).value.1.lookup? place = d.lookup? place
  := by
  induction units generalizing d with
  | nil => rfl
  | cons unit units ih =>
    cases unit with
    | error r =>
      simp only [writes_cons_error] at hnot
      exact ih hopen.of_error hnot
    | ok a =>
      simp only [writes_cons_ok, not_or] at hnot
      have hlayout := sameLayout_writeBack dryRun hopen.head
      rw [value_writeAll_ok, ih (hopen.tail hlayout) fun s hs =>
        (hnot s).2 ((writes_congr hlayout).1 hs)]
      obtain ⟨hsame, -⟩ | ⟨s, place', houtput, hopens, hoverwrites⟩ :=
        writeBack_cases dryRun hopen.head
      · rw [hsame]
      · rw [hoverwrites.lookup?_eq, if_neg]
        rintro rfl
        apply (hnot s).1 ⟨houtput, hopens.locate_eq⟩

/-- A file is overwritten with the text that is to be written to it, if there is one such text only,
by however many of the files it is to be written. -/
theorem lookup?_writeAll_of_writes (hopen : AllOpen d units) (hwrites : Writes d units place s)
    (hunique : ∀ s', Writes d units place s' → s' = s) :
  (writeAll false d units).value.1.lookup? place = (d.lookup? place).map (Entry.withText s)
  := by
  induction units generalizing d with
  | nil =>
    obtain ⟨a, ha, -⟩ := hwrites
    cases ha
  | cons unit units ih =>
    cases unit with
    | error r =>
      simp only [writes_cons_error] at hwrites hunique
      exact ih hopen.of_error hwrites hunique
    | ok a =>
      rw [writes_cons_ok] at hwrites
      simp only [writes_cons_ok] at hunique
      have hlayout := sameLayout_writeBack false hopen.head
      rw [value_writeAll_ok]
      by_cases hrest : Writes d units place s
      · rw [ih (hopen.tail hlayout) ((writes_congr hlayout).2 hrest) fun s' hs' =>
          hunique s' (.inr ((writes_congr hlayout).1 hs')), hlayout.map_withText_eq]
      · obtain ⟨houtput, hlocate⟩ := hwrites.resolve_right hrest
        obtain ⟨place', hopens⟩ := hopen.head s houtput
        cases hlocate.symm.trans hopens.locate_eq
        rw [lookup?_writeAll_of_not_writes (hopen.tail hlayout), lookup?_writeBack houtput hopens]
        intro s' hs'
        rw [writes_congr hlayout] at hs'
        rw [hunique s' (.inr hs')] at hs'
        apply hrest hs'

/-! ### Files that fail -/

/-- What is to be written was read and parsed, so it is there. -/
theorem Become.allOpen (h : Become plan d paths units) :
  AllOpen d units
  := by
  intro a s ha _
  obtain ⟨path, -, hbecomes⟩ := exists_mem_of_forall₂_right h ha
  obtain ⟨u, hparses, rfl, hpath⟩ := hbecomes.exists_parses
  rw [hpath]
  apply Disk.opens_of_read hparses.read_eq

/-- Nothing is written where a path leads that cannot be read or parsed. -/
theorem Become.not_writes_of_failsWith (h : Become plan d paths units)
    (hfails : FailsWith plan.grammar d path reason) (hlocate : d.locate path = .ok place) :
  ¬ Writes d units place s
  := by
  rintro ⟨a, ha, -, hplace⟩
  obtain ⟨path', -, hbecomes⟩ := exists_mem_of_forall₂_right h ha
  obtain ⟨u, hparses, rfl, hpath⟩ := hbecomes.exists_parses
  rw [hpath] at hplace
  apply (hparses.of_locate_eq (hlocate.trans hplace.symm)).not_failsWith hfails

/-- A path that cannot be read or parsed leads to the same thing after a run. -/
theorem Become.entryOf?_resultOf (h : Become plan d paths units)
    (hfails : FailsWith plan.grammar d path reason) :
  (resultOf plan d paths units).disk.entryOf? path = d.entryOf? path
  := by
  rw [resultOf, Disk.entryOf?, Disk.entryOf?, (sameLayout_writeAll h.allOpen).locate_eq]
  cases hlocate : d.locate path with
  | error e => rfl
  | ok place =>
    apply lookup?_writeAll_of_not_writes h.allOpen
    intro s
    apply h.not_writes_of_failsWith hfails hlocate

/-- There is one report on every file, in order. -/
theorem Become.map_path_resultOf (h : Become plan d paths units) :
  (resultOf plan d paths units).units.map (·.path) = paths
  := by
  have hpaths : List.Forall₂ Eq (units.map unitPath) paths := by
    rw [List.forall₂_map_left_iff]
    apply h.flip.imp
    intro unit path hbecomes
    exact hbecomes.unitPath_eq
  rw [resultOf, map_path_writeAll]
  rw [List.forall₂_eq_eq_eq] at hpaths
  exact hpaths

/-- The index does not depend on a file that fails. -/
theorem indexFor_append_cons (hfails : FailsWith grammar d path reason)
    (before after : List String) :
  indexFor grammar d (before ++ path :: after) = indexFor grammar d (before ++ after)
  := by
  rw [indexFor, indexFor, List.filterMap_append, List.filterMap_append, List.filterMap_cons,
    parsed?_of_failsWith hfails]

/-- A file that fails is skipped, and the same becomes of the others without it. -/
theorem Become.exists_of_failsWith {before after : List String}
    (h : Become plan d (before ++ path :: after) units)
    (hfails : FailsWith plan.grammar d path reason) :
  ∃ front back, units = front ++ .error (.skip path reason) :: back
    ∧ front.length = before.length ∧ Become plan d (before ++ after) (front ++ back)
  := by
  have hindex : indexFor plan.grammar d (before ++ after)
      = indexFor plan.grammar d (before ++ path :: after) :=
    (indexFor_append_cons hfails before after).symm
  have hfront := List.forall₂_take before.length h
  have hback := List.forall₂_drop before.length h
  rw [List.take_left] at hfront
  rw [List.drop_left, List.forall₂_cons_left_iff] at hback
  obtain ⟨unit, back, hunit, hback, hdrop⟩ := hback
  have hskipped : unit = .error (.skip path reason) := by
    rw [becomes_iff, value_readUnit_of_failsWith hfails, amendRead, Logged.value_run_pure] at hunit
    exact (Option.some.inj hunit).symm
  refine ⟨units.take before.length, back, ?_, hfront.length_eq.symm, ?_⟩
  · rw [← hskipped, ← hdrop, List.take_append_drop]
  · apply List.rel_append (R := Becomes plan d (before ++ after))
    · apply hfront.imp
      intro _ _ hbecomes
      apply hbecomes.of_indexFor_eq hindex
    · apply hback.imp
      intro _ _ hbecomes
      apply hbecomes.of_indexFor_eq hindex

/-- The rules come to an end with a file that fails if they do without it. -/
theorem RulesEnd.append_cons {before after : List String}
    (hends : RulesEnd plan d (before ++ after)) (hfails : FailsWith plan.grammar d path reason) :
  RulesEnd plan d (before ++ path :: after)
  := by
  intro u hu hparses
  have hne : u.path ≠ path := by
    rintro rfl
    apply hparses.not_failsWith hfails
  have hothers : u.path ∈ before ++ after := by
    rw [List.mem_append, List.mem_cons] at hu
    rw [List.mem_append]
    exact hu.imp_right fun hafter => hafter.resolve_left hne
  obtain ⟨o, hamends⟩ := hends u hothers hparses
  use o, hparses
  rw [indexFor_append_cons hfails]
  apply hamends.outcome_eq

/-- With a file that fails a run comes to nothing just when it does without it, and else to a
result that differs in the report on this file only. -/
theorem rel_processUnits_of_failsWith {before after : List String}
    (hfails : FailsWith plan.grammar d path reason) :
  Option.Rel (StaysApart d path reason before.length)
    (processUnits plan d (before ++ path :: after)).run.value
    (processUnits plan d (before ++ after)).run.value
  := by
  cases hresult : (processUnits plan d (before ++ path :: after)).run.value with
  | none =>
    cases hothers : (processUnits plan d (before ++ after)).run.value with
    | none => exact .none
    | some others =>
      have hends : RulesEnd plan d (before ++ after) := exists_result_iff.1 ⟨others, hothers⟩
      obtain ⟨result, hsome⟩ := exists_result_iff.2 (hends.append_cons hfails)
      cases hresult.symm.trans hsome
  | some result =>
    obtain ⟨units, hunits, rfl⟩ := value_processUnits_eq_some_iff.1 hresult
    have hentry := hunits.entryOf?_resultOf hfails
    obtain ⟨front, back, rfl, hlength, hrest⟩ := hunits.exists_of_failsWith hfails
    obtain ⟨d', reports, reports', hlength', hwith, hwithout⟩ :=
      writeAll_append_error plan.dryRun d front back (.skip path reason)
    rw [value_processUnits_eq_some_iff.2 ⟨_, hrest, rfl⟩]
    refine .some ⟨reports, reports', hlength'.trans hlength, ?_, hentry, ?_, ?_⟩
    · rw [resultOf, hwith]
      rfl
    · rw [resultOf, hwithout]
    · rw [resultOf, resultOf, hwith, hwithout]

/-- A run comes to a result exactly when the rules come to an end on every file that is read and
parsed, and then there is one report on every file, in order.  A file that cannot be read or parsed
is skipped without changes and for that reason, and it stays as it is.  Without it the run comes to
the same reports on the others and to the same disk, or to nothing as it does with it. -/
theorem failures_stay_apart (plan : Plan) (d : Disk) (paths : List String) :
  ((∃ result, (processUnits plan d paths).run.value = some result) ↔ RulesEnd plan d paths)
  ∧ (∀ result, (processUnits plan d paths).run.value = some result →
      result.units.map (·.path) = paths)
  ∧ ∀ before path after reason, paths = before ++ path :: after →
      FailsWith plan.grammar d path reason →
      Option.Rel (StaysApart d path reason before.length)
        (processUnits plan d paths).run.value (processUnits plan d (before ++ after)).run.value
  := by
  refine ⟨exists_result_iff, ?_, ?_⟩
  · intro result hresult
    obtain ⟨units, hunits, rfl⟩ := value_processUnits_eq_some_iff.1 hresult
    exact hunits.map_path_resultOf
  · rintro before path after reason rfl hfails
    exact rel_processUnits_of_failsWith hfails

/-- A grammar by which every text is a name. -/
def nameGrammar : Php.Grammar := fun text =>
  some (.node Php.program 0 text.utf8ByteSize none false false false
    [.node Php.name 0 text.utf8ByteSize none false false false []])

/-- A disk with a file that holds `a` and a file that holds `b`. -/
def twoNames : Disk where
  entries := [(["a.php"], .file (.text "a")), (["b.php"], .file (.text "b"))]

/-- A run without rules. -/
def namePlan : Plan where
  grammar := nameGrammar
  registry := .empty
  mode := .single
  dryRun := false

/-- A file that is not there is skipped, and the two files beside it come out as without it. -/
theorem failures_stay_apart_twoNames :
  FailsWith namePlan.grammar twoNames "lost.php"
    "read failed: No such file or directory (os error 2)"
  ∧ RulesEnd namePlan twoNames ["a.php", "lost.php", "b.php"]
  ∧ ∃ result others,
    (processUnits namePlan twoNames ["a.php", "lost.php", "b.php"]).run.value = some result
    ∧ (processUnits namePlan twoNames ["a.php", "b.php"]).run.value = some others
    ∧ result.units.map (·.path) = ["a.php", "lost.php", "b.php"]
    ∧ StaysApart twoNames "lost.php" "read failed: No such file or directory (os error 2)" 1
        result others
  := by
  have hfails : FailsWith namePlan.grammar twoNames "lost.php" _ := .unread (e := .notFound) rfl
  have hsome : (processUnits namePlan twoNames
      ["a.php", "lost.php", "b.php"]).run.value.isSome = true := by decide +kernel
  obtain ⟨result, hresult⟩ := Option.isSome_iff_exists.1 hsome
  obtain ⟨hends, hpaths, hwithout⟩ :=
    failures_stay_apart namePlan twoNames ["a.php", "lost.php", "b.php"]
  have happart := hwithout ["a.php"] "lost.php" ["b.php"] _ rfl hfails
  rw [hresult] at happart
  cases hothers : (processUnits namePlan twoNames ["a.php", "b.php"]).run.value with
  | none =>
    rw [List.singleton_append, hothers] at happart
    cases happart
  | some others =>
    rw [List.singleton_append, hothers] at happart
    cases happart with
    | some happart =>
      exact ⟨hfails, hends.1 ⟨result, hresult⟩, result, others, hresult, rfl, hpaths result hresult,
        happart⟩

end Run

end Amend
