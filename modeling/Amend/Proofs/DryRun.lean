import Amend.Proofs.InHand
import Amend.Proofs.RoundTrip
import Amend.Proofs.Stages
import Amend.Proofs.Untouched

/-!
# A run that writes nothing

A run that writes nothing comes to the same reports as the run that writes, if all that is to be
written can be (`Run.dryRun_foretells`).  The run that writes overwrites the files that are
reported as changed, each with the text that its tree prints, and no others; and a file is
reported as changed when that text is not the one that was read.  A tree that no rule has changed
is not printed, but it would print the text that was read (`Run.Parses.source_tree`).
-/

namespace Amend.Run

/-- The tree of the outcome is printed and gives another text than the one that was read. -/
structure Changes (plan : Plan) (d : Disk) (paths : List String) (u : ParsedUnit) (o : Outcome) :
    Prop extends Amends plan d paths u o where
  applications_ne : o.applications ≠ []
  source_ne : o.tree.source ≠ u.source

/-- What the trees of changed files print can be written to the files. -/
def WritesSucceed (plan : Plan) (d : Disk) (paths : List String) : Prop :=
  ∀ u o, u.path ∈ paths → Changes plan d paths u o → ∃ d', d.write u.path o.tree.source = .ok d'

/-- What a run that writes nothing tells of the run that writes. -/
structure Foretells (plan : Plan) (d : Disk) (paths : List String) (dry real : Result) : Prop where
  disk_eq : dry.disk = d
  units_eq : dry.units = real.units
  /-- There is one report on every file, in order. -/
  path_eq : real.units.map (·.path) = paths
  /-- A file the parse tree of which is nested well is reported as changed if the tree that the
  rules make of it prints another text than the one that was read. -/
  changed_iff : ∀ r ∈ real.units, ∀ u o, Amends plan d paths u o → u.path = r.path →
    (∀ root, plan.grammar u.source = some root → root.Placed u.source) →
      (r.status = .changed ↔ o.tree.source ≠ u.source)
  /-- A file that is reported as changed holds another text than the one that was read, which is
  what the tree prints that the rules make of it. -/
  overwritten : ∀ r ∈ real.units, r.status = .changed →
    ∃ u o place, Amends plan d paths u o ∧ u.path = r.path ∧ d.locate r.path = .ok place
      ∧ o.tree.source ≠ u.source
      ∧ ∀ content, d.lookup? place = some (.file content) →
        real.disk.lookup? place = some (.file (.text o.tree.source))
  /-- Everything else is left alone. -/
  left_alone : ∀ place, (∀ r ∈ real.units, r.status = .changed → d.locate r.path ≠ .ok place) →
    real.disk.lookup? place = d.lookup? place
  locate_eq : ∀ path, real.disk.locate path = d.locate path

/-- What is reported on a file if all that is to be written can be. -/
def foretold : Except UnitReport AmendedUnit → UnitReport
  | .error r => r
  | .ok a => report a

variable {plan : Plan} {grammar : Php.Grammar} {d : Disk} {path s s' : String}
  {place : Location} {paths : List String} {u u' : ParsedUnit} {a : AmendedUnit} {o o' : Outcome}
  {unit : Except UnitReport AmendedUnit} {units : List (Except UnitReport AmendedUnit)}
  {dryRun : Bool}

/-! ### Reports -/

/-- Every text that is to be written can be. -/
def AllWritable (d : Disk) (units : List (Except UnitReport AmendedUnit)) : Prop :=
  ∀ a s, .ok a ∈ units → a.output = some s → ∃ d', d.write a.path s = .ok d'

/-- Nothing is written when nothing is to be written. -/
theorem disk_writeAll_true (d : Disk) (units : List (Except UnitReport AmendedUnit)) :
  (writeAll true d units).value.1 = d
  := by
  induction units with
  | nil => rfl
  | cons unit units ih =>
    cases unit with
    | error r => exact ih
    | ok a =>
      rw [value_writeAll_ok, writeBack_true]
      exact ih

/-- If a file can be written, its report does not tell whether it has been. -/
theorem report_writeBack (hwritable : ∀ s, a.output = some s → ∃ d', d.write a.path s = .ok d') :
  (writeBack dryRun d a).value.2 = report a
  := by
  cases houtput : a.output with
  | none => rw [disk_writeBack_of_none houtput]
  | some s =>
    cases dryRun with
    | true => rw [writeBack_true]
    | false =>
      obtain ⟨d', hd'⟩ := hwritable s houtput
      obtain ⟨-, hreport⟩ := writeBack_of_some houtput d
      apply hreport d' hd'

/-- The other files can still be written once the first one has been. -/
theorem AllWritable.tail (h : AllWritable d (.ok a :: units)) (hopen : AllOpen d (.ok a :: units)) :
  AllWritable (writeBack dryRun d a).value.1 units
  := by
  intro a' s ha' houtput
  have hmem : .ok a' ∈ .ok a :: units := List.mem_cons_of_mem _ ha'
  obtain ⟨place, hplace⟩ := hopen a' s hmem houtput
  apply (sameLayout_writeBack dryRun hopen.head).exists_write hplace (h a' s hmem houtput)

/-- The reports do not tell whether anything has been written. -/
theorem reports_writeAll (hopen : AllOpen d units) (hwritable : AllWritable d units) :
  (writeAll dryRun d units).value.2 = units.map foretold
  := by
  induction units generalizing d with
  | nil => rfl
  | cons unit units ih =>
    cases unit with
    | error r =>
      rw [value_writeAll_error, List.map_cons, ih hopen.of_error]
      · rfl
      · intro a s ha
        apply hwritable a s (List.mem_cons_of_mem _ ha)
    | ok a =>
      have hfirst : (writeBack dryRun d a).value.2 = report a := by
        apply report_writeBack
        intro s
        apply hwritable a s List.mem_cons_self
      rw [value_writeAll_ok, List.map_cons, hfirst,
        ih (hopen.tail (sameLayout_writeBack dryRun hopen.head)) (hwritable.tail hopen)]
      rfl

/-! ### The text that is written -/

/-- The tree of a file prints the text of the file. -/
theorem Parses.source_tree (h : Parses grammar d u)
    (hplaced : ∀ root, grammar u.source = some root → root.Placed u.source) :
  u.tree.source = u.source
  := by
  have hparse := h.parse_eq
  rw [Php.read] at hparse
  cases hroot : grammar u.source with
  | none =>
    rw [hroot] at hparse
    cases hparse
  | some root =>
    rw [hroot] at hparse
    dsimp only at hparse
    rw [Php.readTree] at hparse
    split at hparse
    · cases hparse
    · rw [← Except.ok.inj hparse, Php.source_resolveNames,
        ParseTree.source_toNode (hplaced root hroot)]

/-- A tree that prints another text than the one that was read is printed. -/
theorem Amends.changes (h : Amends plan d paths u o)
    (hplaced : ∀ root, plan.grammar u.source = some root → root.Placed u.source)
    (hsource : o.tree.source ≠ u.source) :
  Changes plan d paths u o
  := by
  refine ⟨h, ?_, hsource⟩
  intro hnone
  apply hsource
  rw [Dispatcher.eq_self_of_applyAll? h.outcome_eq hnone, h.parses.source_tree hplaced]

/-- At a path there is one file that is read, and one outcome on it. -/
theorem Amends.unique (h : Amends plan d paths u o) (h' : Amends plan d paths u' o')
    (hpath : u'.path = u.path) :
  u' = u ∧ o' = o
  := by
  obtain rfl := h.parses.unique h'.parses hpath
  exact ⟨rfl, Option.some.inj (h'.outcome_eq.symm.trans h.outcome_eq)⟩

/-- Another path that leads to the file gives the same text to write. -/
theorem Amends.source_eq (h : Amends plan d paths u o) (h' : Amends plan d paths u' o')
    (hlocate : d.locate u'.path = d.locate u.path) :
  o'.tree.source = o.tree.source
  := by
  have hu' := (h.parses.of_locate_eq hlocate).unique h'.parses rfl
  have houtcome := h'.outcome_eq
  rw [hu'] at houtcome
  rw [Dispatcher.tree_eq_of_applyAll? h.outcome_eq houtcome]

/-- What is to be written to a file is what its tree prints, if this has been changed. -/
theorem Amends.output_eq_some_iff (h : Amends plan d paths u o) :
  (u.amended o).output = some s ↔ Changes plan d paths u o ∧ o.tree.source = s
  := by
  rw [ParsedUnit.amended]
  dsimp only
  rw [Option.ite_none_right_eq_some, Outcome.applied, gt_iff_lt, List.length_pos_iff,
    Option.some.injEq]
  apply and_congr_left
  intro _
  constructor
  · rintro ⟨happlied, hsource⟩
    exact ⟨h, happlied, hsource⟩
  · intro hchanges
    exact ⟨hchanges.applications_ne, hchanges.source_ne⟩

/-- A file is reported as changed if the rules change what it prints. -/
theorem Becomes.status_foretold (h : Becomes plan d paths path unit) :
  (foretold unit).status = .changed ↔ ∃ u o, Changes plan d paths u o ∧ u.path = path
  := by
  cases h with
  | skipped hfails =>
    constructor
    · rintro ⟨⟩
    · rintro ⟨u, o, hchanges, rfl⟩
      cases hchanges.parses.not_failsWith hfails
  | @amended u o hamends hpath =>
    rw [foretold, report]
    dsimp only
    constructor
    · intro hstatus
      cases houtput : (u.amended o).output with
      | none =>
        rw [houtput] at hstatus
        cases hstatus
      | some s => exact ⟨u, o, (hamends.output_eq_some_iff.1 houtput).1, hpath⟩
    · rintro ⟨u', o', hchanges, rfl⟩
      obtain ⟨rfl, rfl⟩ := hchanges.toAmends.unique hamends hpath
      rw [hamends.output_eq_some_iff.2 ⟨hchanges, rfl⟩]
      rfl

/-- A report is on the file that it was foretold of. -/
theorem path_foretold (unit : Except UnitReport AmendedUnit) :
  (foretold unit).path = unitPath unit
  := by
  cases unit <;> rfl

/-- There is a report on a changed file that says so. -/
theorem Become.mem_foretold (h : Become plan d paths units) (hchanges : Changes plan d paths u o)
    (hpath : u.path ∈ paths) :
  ∃ r ∈ units.map foretold, r.path = u.path ∧ r.status = .changed
  := by
  obtain ⟨unit, hunit, hbecomes⟩ := exists_mem_of_forall₂_left h hpath
  refine ⟨_, List.mem_map_of_mem hunit, ?_, ?_⟩
  · rw [path_foretold, hbecomes.unitPath_eq]
  · apply hbecomes.status_foretold.2 ⟨u, o, hchanges, rfl⟩

/-- A report says of a file at its path whether it is changed. -/
theorem Become.status_of_mem_foretold {r : UnitReport} (h : Become plan d paths units)
    (hr : r ∈ units.map foretold) :
  r.path ∈ paths ∧ (r.status = .changed ↔ ∃ u o, Changes plan d paths u o ∧ u.path = r.path)
  := by
  obtain ⟨unit, hunit, rfl⟩ := List.mem_map.1 hr
  obtain ⟨path, hpath, hbecomes⟩ := exists_mem_of_forall₂_right h hunit
  rw [path_foretold, hbecomes.unitPath_eq]
  exact ⟨hpath, hbecomes.status_foretold⟩

/-! ### The two runs -/

/-- A text that is to be written is printed by a changed tree. -/
theorem Become.exists_changes (h : Become plan d paths units) (ha : .ok a ∈ units)
    (hs : a.output = some s) :
  ∃ u o, u.path ∈ paths ∧ Changes plan d paths u o ∧ a.path = u.path ∧ o.tree.source = s
  := by
  obtain ⟨path, hpath, hbecomes⟩ := exists_mem_of_forall₂_right h ha
  cases hbecomes with
  | @amended u o hamends hpath' =>
    obtain ⟨hchanges, hsource⟩ := hamends.output_eq_some_iff.1 hs
    rw [← hpath'] at hpath
    exact ⟨u, o, hpath, hchanges, rfl, hsource⟩

/-- What is to be written is what the changed trees print. -/
theorem Become.writes_iff (h : Become plan d paths units) :
  Writes d units place s
    ↔ ∃ u o, u.path ∈ paths ∧ Changes plan d paths u o ∧ d.locate u.path = .ok place
      ∧ o.tree.source = s
  := by
  constructor
  · rintro ⟨a, ha, hs, hlocate⟩
    obtain ⟨u, o, hpath, hchanges, hpath', hsource⟩ := h.exists_changes ha hs
    rw [hpath'] at hlocate
    exact ⟨u, o, hpath, hchanges, hlocate, hsource⟩
  · rintro ⟨u, o, hpath, hchanges, hlocate, rfl⟩
    obtain ⟨unit, hunit, hfails | ⟨hamends, hpath'⟩⟩ := exists_mem_of_forall₂_left h hpath
    · cases hchanges.parses.not_failsWith hfails
    · obtain ⟨rfl, rfl⟩ := hchanges.toAmends.unique hamends hpath'
      exact ⟨_, hunit, hamends.output_eq_some_iff.2 ⟨hchanges, rfl⟩, hlocate⟩

/-- There is one text only that is to be written to a place. -/
theorem Become.writes_unique (h : Become plan d paths units) (hs : Writes d units place s)
    (hs' : Writes d units place s') :
  s' = s
  := by
  obtain ⟨u, o, -, hchanges, hlocate, rfl⟩ := h.writes_iff.1 hs
  obtain ⟨u', o', -, hchanges', hlocate', rfl⟩ := h.writes_iff.1 hs'
  apply hchanges.toAmends.source_eq hchanges'.toAmends (hlocate'.trans hlocate.symm)

/-- All that is to be written can be, as has been supposed of the changed trees. -/
theorem Become.allWritable (h : Become plan d paths units) (hsucceed : WritesSucceed plan d paths) :
  AllWritable d units
  := by
  intro a s ha hs
  obtain ⟨u, o, hpath, hchanges, hpath', rfl⟩ := h.exists_changes ha hs
  rw [hpath']
  apply hsucceed u o hpath hchanges

/-- Files can be written, if no path leads to a device. -/
theorem writesSucceed_of_files (h : ∀ path ∈ paths, ∀ place, d.locate path = .ok place →
    ∃ content, d.lookup? place = some (.file content)) :
  WritesSucceed plan d paths
  := by
  intro u o hpath hchanges
  obtain ⟨place, hopens⟩ := Disk.opens_of_read hchanges.parses.read_eq
  obtain ⟨content, hfile⟩ := h u.path hpath place hopens.locate_eq
  exact ⟨_, hopens.write_file hfile _⟩

/-- A file that is changed is overwritten with what its tree prints. -/
theorem Become.lookup?_of_changes (h : Become plan d paths units) (hchanges : Changes plan d paths u o)
    (hpath : u.path ∈ paths) (hlocate : d.locate u.path = .ok place) :
  (writeAll false d units).value.1.lookup? place
    = (d.lookup? place).map (Entry.withText o.tree.source)
  := by
  have hwrites : Writes d units place o.tree.source :=
    h.writes_iff.2 ⟨u, o, hpath, hchanges, hlocate, rfl⟩
  apply lookup?_writeAll_of_writes h.allOpen hwrites
  intro s' hwrites'
  apply h.writes_unique hwrites hwrites'

/-- Whether anything is to be written makes no difference to what becomes of the files. -/
theorem become_withDryRun (dryRun : Bool) :
  Become { plan with dryRun } d paths units ↔ Become plan d paths units
  := by
  have hbecomes : Becomes { plan with dryRun } d paths = Becomes plan d paths := by
    funext path unit
    rw [eq_iff_iff, becomes_iff, becomes_iff]
    rfl
  rw [Become, Become, hbecomes]

/-- What becomes of the files tells what both runs leave behind. -/
theorem Become.foretells (h : Become plan d paths units) (hsucceed : WritesSucceed plan d paths) :
  Foretells plan d paths (resultOf { plan with dryRun := true } d paths units)
    (resultOf { plan with dryRun := false } d paths units)
  := by
  have hreports (dryRun : Bool) :
      (resultOf { plan with dryRun } d paths units).units = units.map foretold :=
    reports_writeAll h.allOpen (h.allWritable hsucceed)
  constructor
  case disk_eq => apply disk_writeAll_true
  case units_eq => rw [hreports, hreports]
  case path_eq => apply ((become_withDryRun false).2 h).map_path_resultOf
  case changed_iff =>
    intro r hr u o hamends hpath hplaced
    rw [hreports] at hr
    rw [(h.status_of_mem_foretold hr).2]
    constructor
    · rintro ⟨u', o', hchanges, hpath'⟩
      obtain ⟨rfl, rfl⟩ := hamends.unique hchanges.toAmends (hpath'.trans hpath.symm)
      exact hchanges.source_ne
    · intro hsource
      exact ⟨u, o, hamends.changes hplaced hsource, hpath⟩
  case overwritten =>
    intro r hr hstatus
    rw [hreports] at hr
    obtain ⟨hmem, hiff⟩ := h.status_of_mem_foretold hr
    obtain ⟨u, o, hchanges, hpath⟩ := hiff.1 hstatus
    obtain ⟨place, hopens⟩ := Disk.opens_of_read hchanges.parses.read_eq
    rw [← hpath] at hmem ⊢
    refine ⟨u, o, place, hchanges.toAmends, rfl, hopens.locate_eq, hchanges.source_ne, ?_⟩
    intro content hfile
    rw [resultOf, h.lookup?_of_changes hchanges hmem hopens.locate_eq, hfile]
    rfl
  case left_alone =>
    intro place hnot
    apply lookup?_writeAll_of_not_writes h.allOpen
    intro s hwrites
    obtain ⟨u, o, hpath, hchanges, hlocate, -⟩ := h.writes_iff.1 hwrites
    obtain ⟨r, hr, hrpath, hstatus⟩ := h.mem_foretold hchanges hpath
    rw [← hreports] at hr
    rw [← hrpath] at hlocate
    apply hnot r hr hstatus hlocate
  case locate_eq =>
    intro path
    apply (sameLayout_writeAll h.allOpen).locate_eq

/-- When the rules come to an end on every file that is read and parsed, a run that writes nothing
leaves the disk as it is and comes to the same reports as the run that writes; and else neither
comes to anything.  The run that writes overwrites the files that are reported as changed, each
with what the tree prints that the rules make of it, and nothing else; and a file is reported as
changed if this is another text than the one that was read. -/
theorem dryRun_foretells (plan : Plan) (d : Disk) (paths : List String)
    (hsucceed : WritesSucceed plan d paths) :
  (RulesEnd plan d paths →
    ∃ dry real, (processUnits { plan with dryRun := true } d paths).run.value = some dry
      ∧ (processUnits { plan with dryRun := false } d paths).run.value = some real
      ∧ Foretells plan d paths dry real)
  ∧ (¬ RulesEnd plan d paths →
    (processUnits { plan with dryRun := true } d paths).run.value = none
      ∧ (processUnits { plan with dryRun := false } d paths).run.value = none)
  := by
  constructor
  · intro hends
    obtain ⟨units, hunits⟩ := exists_become_iff.2 hends
    have hresult (dryRun : Bool) : (processUnits { plan with dryRun } d paths).run.value
        = some (resultOf { plan with dryRun } d paths units) :=
      value_processUnits_eq_some_iff.2 ⟨units, (become_withDryRun dryRun).2 hunits, rfl⟩
    exact ⟨_, _, hresult true, hresult false, hunits.foretells hsucceed⟩
  · intro hendless
    have hnone (dryRun : Bool) :
        (processUnits { plan with dryRun } d paths).run.value = none := by
      rw [Option.eq_none_iff_forall_ne_some]
      intro result hresult
      obtain ⟨units, hunits, -⟩ := value_processUnits_eq_some_iff.1 hresult
      apply hendless (exists_become_iff.1 ⟨units, (become_withDryRun dryRun).1 hunits⟩)
    exact ⟨hnone true, hnone false⟩

/-- A run that makes every name `b`. -/
def tidyingPlan : Plan where
  grammar := nameGrammar
  registry := .ofList [Pass.tidying]
  mode := .single
  dryRun := false

/-- One of the two names is another one afterwards, and the file that is not there is skipped. -/
theorem dryRun_foretells_twoNames :
  WritesSucceed tidyingPlan twoNames ["a.php", "lost.php", "b.php"]
  ∧ RulesEnd tidyingPlan twoNames ["a.php", "lost.php", "b.php"]
  ∧ ∃ dry real,
    (processUnits { tidyingPlan with dryRun := true } twoNames
      ["a.php", "lost.php", "b.php"]).run.value = some dry
    ∧ (processUnits { tidyingPlan with dryRun := false } twoNames
      ["a.php", "lost.php", "b.php"]).run.value = some real
    ∧ dry.units.map (·.status) = [.changed, .skipped, .unchanged]
    ∧ Foretells tidyingPlan twoNames ["a.php", "lost.php", "b.php"] dry real
  := by
  have hsucceed : WritesSucceed tidyingPlan twoNames ["a.php", "lost.php", "b.php"] := by
    apply writesSucceed_of_files
    have ha : twoNames.locate "a.php" = .ok ["a.php"] := by decide +kernel
    have hlost : twoNames.locate "lost.php" = .error .notFound := by decide +kernel
    have hb : twoNames.locate "b.php" = .ok ["b.php"] := by decide +kernel
    simp only [List.forall_mem_cons, ha, hlost, hb, Except.ok.injEq, reduceCtorEq, false_implies,
      implies_true, forall_eq', List.not_mem_nil, and_true, true_and]
    exact ⟨⟨_, rfl⟩, ⟨_, rfl⟩⟩
  have hstatuses : (processUnits { tidyingPlan with dryRun := true } twoNames
      ["a.php", "lost.php", "b.php"]).run.value.map (fun dry => dry.units.map (·.status))
        = some [.changed, .skipped, .unchanged] := by decide +kernel
  obtain ⟨dry, hdry, hchanged⟩ := Option.map_eq_some_iff.1 hstatuses
  have hends : RulesEnd tidyingPlan twoNames ["a.php", "lost.php", "b.php"] := by
    obtain ⟨units, hunits, -⟩ := value_processUnits_eq_some_iff.1 hdry
    apply exists_become_iff.1 ⟨units, (become_withDryRun true).1 hunits⟩
  obtain ⟨hforetells, -⟩ := dryRun_foretells _ _ _ hsucceed
  obtain ⟨dry', real, hdry', hreal, hboth⟩ := hforetells hends
  cases hdry.symm.trans hdry'
  exact ⟨hsucceed, hends, dry, real, hdry, hreal, hchanged, hboth⟩

end Amend.Run
