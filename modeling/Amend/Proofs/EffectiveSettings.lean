import Amend.Proofs.Cuts
import Amend.Settings.Overrides

/-!
# The settings that take effect

What a run is told comes from a settings file and from the command line.  However the two are
mixed, there is a place to look for files and a pass to make.  The suffixes of a file are plain,
since those that hold nothing but dots are left out; the suffixes of the command line lose their
leading dots only, so that such a suffix becomes an empty one.  The settings are well formed, and
the same suffixes mean the same in both places, exactly when the command line names no suffix of
this kind (`effective_wellFormed_iff`).
-/

namespace Amend

/-- A suffix as it stands at the end of a name: not empty, and without the dot in front of it. -/
def IsPlainSuffix (x : String) : Prop := x ≠ "" ∧ x.toList.head? ≠ some '.'

/-- Settings with which a run can work: a place to look at, a pass to make, and plain suffixes. -/
structure RunSettings.WellFormed (r : RunSettings) : Prop where
  roots : r.query.roots ≠ []
  limit : ∀ n, r.mode = .converge n → 1 ≤ n
  suffixes : ∀ x ∈ r.query.suffixes, IsPlainSuffix x

namespace Settings

/-- What a run is told when some settings were loaded and the command line says more. -/
def effective (s : Settings) (o : DiscoveryOverrides) (p : PassOverrides) : RunSettings :=
  ((s.overrideDiscovery o).overridePasses p).forRun

/-- What the text of a settings file says, before its suffixes and its limit are put right. -/
def written? (text : String) : Option Settings := (Toml.parse? text).bind ofEntries?

/-- The suffix has a character besides dots. -/
def HasName (x : String) : Prop := ∃ c ∈ x.toList, c ≠ '.'

instance (x : String) : Decidable (HasName x) := List.decidableBEx (· ≠ '.') x.toList

variable {text file x : String} {s w : Settings} {suffixes : List String}

/-! ### Suffixes -/

/-- Something is left of a suffix without its leading dots when it has a name. -/
theorem trimStart_ne_empty_iff :
  Text.trimStart '.' x ≠ "" ↔ HasName x
  := by
  have hempty : Text.trimStart '.' x = "" ↔ ∀ c ∈ x.toList, c = '.' := by
    rw [Text.trimStart, String.ofList_eq_empty_iff, List.dropWhile_eq_nil_iff]
    simp only [beq_iff_eq]
  rw [ne_eq, hempty, HasName]
  push Not
  rfl

/-- Without its leading dots a suffix is plain, unless nothing is left of it. -/
theorem isPlainSuffix_trimStart_iff :
  IsPlainSuffix (Text.trimStart '.' x) ↔ HasName x
  := by
  obtain ⟨hhead, -⟩ := Text.trimStart_eq_iff.1 (@rfl _ (Text.trimStart '.' x))
  rw [← trimStart_ne_empty_iff]
  exact ⟨fun h => h.1, fun h => ⟨h, hhead⟩⟩

/-- The suffixes of a settings file are plain once they have been read. -/
theorem isPlainSuffix_of_mem_plainSuffixes (h : x ∈ plainSuffixes suffixes) :
  IsPlainSuffix x
  := by
  obtain ⟨hmem, hne⟩ := List.mem_filter.1 h
  obtain ⟨y, -, rfl⟩ := List.mem_map.1 hmem
  rw [decide_eq_true_eq, trimStart_ne_empty_iff] at hne
  apply isPlainSuffix_trimStart_iff.2 hne

/-- Taking leading dots away is all there is to do when every suffix has a name. -/
theorem map_trimStart_eq_plainSuffixes_iff :
  suffixes.map (Text.trimStart '.') = plainSuffixes suffixes ↔ ∀ x ∈ suffixes, HasName x
  := by
  rw [plainSuffixes, eq_comm, List.filter_eq_self, List.forall_mem_map]
  simp only [decide_eq_true_eq, trimStart_ne_empty_iff]

/-! ### The file -/

/-- The suffixes of settings are made plain. -/
theorem suffixes_normalize (s : Settings) :
  (normalize s).value.suffixes = plainSuffixes s.suffixes
  := by
  rw [normalize]
  split <;> rfl

/-- What is loaded is what the text says, put right. -/
theorem value_parse? (text : String) :
  (parse? text).value = (written? text).map fun w => (normalize w).value
  := by
  rw [parse?, written?]
  cases (Toml.parse? text).bind ofEntries? <;> rfl

/-- Settings that are read from a text have the suffixes that are written there, made plain. -/
theorem exists_written_of_parse? (h : (parse? text).value = some s) :
  ∃ w, written? text = some w ∧ s.suffixes = plainSuffixes w.suffixes
  := by
  rw [value_parse?] at h
  obtain ⟨w, hw, rfl⟩ := Option.map_eq_some_iff.1 h
  exact ⟨w, hw, suffixes_normalize w⟩

/-! ### The command line -/

variable (s) (o : DiscoveryOverrides) (p : PassOverrides)

/-- Whatever is given, there is a place to look at; without any it is the current directory. -/
theorem roots_effective_ne_nil :
  (s.effective o p).query.roots ≠ []
  := by
  have hne (paths : List String) : (if paths = [] then ["."] else paths) ≠ [] := by
    split
    · apply List.cons_ne_nil
    · assumption
  apply hne

/-- Passes are repeated at least once. -/
theorem one_le_of_mode_effective {n : Nat} (h : (s.effective o p).mode = .converge n) :
  1 ≤ n
  := by
  rw [effective, forRun, PassSettings.passMode] at h
  split at h
  · cases h
  · cases h
    apply Nat.le_max_right

/-- Suffixes on the command line take the place of those of the settings, without leading dots. -/
theorem suffixes_effective :
  (s.effective o p).query.suffixes
    = if o.suffixes = [] then s.suffixes else o.suffixes.map (Text.trimStart '.')
  := rfl

variable {s o p}

/-- The suffixes that take effect are plain exactly when the command line names no suffix that is
nothing but dots. -/
theorem forall_isPlainSuffix_iff (hs : (parse? text).value = some s) :
  (∀ x ∈ (s.effective o p).query.suffixes, IsPlainSuffix x) ↔ ∀ x ∈ o.suffixes, HasName x
  := by
  obtain ⟨w, -, hplain⟩ := exists_written_of_parse? hs
  rw [suffixes_effective]
  split
  next hnone =>
    rw [hnone, hplain]
    exact iff_of_true (fun x => isPlainSuffix_of_mem_plainSuffixes) (List.forall_mem_nil _)
  next =>
    rw [List.forall_mem_map]
    simp only [isPlainSuffix_trimStart_iff]

/-- Whatever a settings file and the command line say, a run has a place to look at and a pass to
make.  The settings are well formed exactly when each suffix of the command line has a character
besides dots; and that is also when these suffixes take effect as they would from a file. -/
theorem effective_wellFormed_iff (hs : (parse? text).value = some s) :
  (s.effective o p).query.roots ≠ []
  ∧ (∀ n, (s.effective o p).mode = .converge n → 1 ≤ n)
  ∧ ((s.effective o p).WellFormed ↔ ∀ x ∈ o.suffixes, HasName x)
  ∧ ∀ file w, written? file = some w → w.suffixes = o.suffixes → o.suffixes ≠ [] →
      ∃ s', (parse? file).value = some s' ∧ ∀ o' p', o'.suffixes = [] →
        ((s.effective o p).query.suffixes = (s'.effective o' p').query.suffixes
          ↔ ∀ x ∈ o.suffixes, HasName x)
  := by
  have hroots := roots_effective_ne_nil s o p
  have hlimit (n : Nat) (hn : (s.effective o p).mode = .converge n) : 1 ≤ n :=
    one_le_of_mode_effective s o p hn
  refine ⟨hroots, hlimit, ?_, ?_⟩
  · rw [← forall_isPlainSuffix_iff hs]
    exact ⟨fun h => h.suffixes, fun h => ⟨hroots, hlimit, h⟩⟩
  · intro file w hw hsame hgiven
    refine ⟨(normalize w).value, ?_, ?_⟩
    · rw [value_parse?, hw, Option.map_some]
    · intro o' p' hnone
      rw [suffixes_effective, suffixes_effective, if_neg hgiven, if_pos hnone, suffixes_normalize,
        hsame]
      apply map_trimStart_eq_plainSuffixes_iff

/-- A file that asks for passes without a limit, and a command line that asks for other suffixes. -/
theorem effective_wellFormed_iff_templates :
  (parse? "suffixes = [\"inc\"]\n[rewrite]\nmax_passes = 0\n").value = some { suffixes := ["inc"] }
    ∧ written? "suffixes = [\".phtml\"]\n" = some { suffixes := [".phtml"] }
    ∧ (effective { suffixes := ["inc"] } { suffixes := [".phtml"] } { converge := true }).WellFormed
    ∧ ∃ s', (parse? "suffixes = [\".phtml\"]\n").value = some s'
      ∧ (effective { suffixes := ["inc"] } { suffixes := [".phtml"] } { converge := true }).query.suffixes
        = (s'.effective {} {}).query.suffixes
  := by
  have hs : (parse? "suffixes = [\"inc\"]\n[rewrite]\nmax_passes = 0\n").value
      = some { suffixes := ["inc"] } := by
    decide +kernel
  have hwritten : written? "suffixes = [\".phtml\"]\n" = some { suffixes := [".phtml"] } := by
    decide +kernel
  have hnames : ∀ x ∈ [".phtml"], HasName x := by
    decide
  obtain ⟨-, -, hwell, hfile⟩ :=
    effective_wellFormed_iff (o := { suffixes := [".phtml"] }) (p := { converge := true }) hs
  obtain ⟨s', hs', hsame⟩ := hfile _ _ hwritten rfl (List.cons_ne_nil _ _)
  exact ⟨hs, hwritten, hwell.2 hnames, s', hs', (hsame {} {} rfl).2 hnames⟩

/-- A dot as a suffix: on the command line it becomes an empty suffix, and in a file it is left
out. -/
theorem effective_dotSuffix :
  (parse? "").value = some {}
    ∧ (effective {} { suffixes := ["."] } {}).query.suffixes = [""]
    ∧ ¬ (effective {} { suffixes := ["."] } {}).WellFormed
    ∧ written? "suffixes = [\".\"]\n" = some { suffixes := ["."] }
    ∧ (parse? "suffixes = [\".\"]\n").value.map (fun s => (s.effective {} {}).query.suffixes)
      = some []
  := by
  refine ⟨by decide +kernel, by decide +kernel, ?_, by decide +kernel, by decide +kernel⟩
  intro h
  apply (h.suffixes "" (by decide +kernel)).1 rfl

end Settings

end Amend
