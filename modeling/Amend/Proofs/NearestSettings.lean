import Amend.Settings.Search

/-!
# Which settings file takes effect

The settings for a directory are to be those of the nearest settings file, or the usual ones when
that file cannot be read, makes no settings, or is not there at all (`nearestOrUsual`).  A search
that passes over a broken file may come to one further up, which then takes effect: the search
keeps to the nearest file exactly when no such file makes other than the usual settings
(`find_eq_nearestOrUsual_iff`).
-/

namespace Amend.Settings

/-- Whether a path leads to something. -/
def isAtHand (d : Disk) (path : String) : Bool := (d.entryOf? path).isSome

/-- The settings that a file makes, if it can be read and its text makes settings. -/
def settingsIn? (d : Disk) (path : String) : Option Settings :=
  match d.read path with
  | .ok text => (parse? text).value
  | .error _ => none

/-- The settings of the nearest settings file; the usual ones if it makes none, or if there is
none among those that concern the directory. -/
def nearestOrUsual (d : Disk) (directory : String) : Settings :=
  (((filesFor directory).find? (isAtHand d)).bind (settingsIn? d)).getD {}

/-- The nearest settings file makes no settings, and `s` are those of the first file further up
that makes some. -/
def Overtaken (d : Disk) (directory : String) (s : Settings) : Prop :=
  ∃ before broken between path after,
    filesFor directory = before ++ broken :: (between ++ path :: after)
    ∧ (∀ p ∈ before, isAtHand d p = false)
    ∧ isAtHand d broken = true ∧ settingsIn? d broken = none
    ∧ (∀ p ∈ between, settingsIn? d p = none) ∧ settingsIn? d path = some s

variable {d : Disk} {directory path : String} {paths : List String} {s : Settings}

/-! ### Searching -/

/-- A file that is tried gives the settings in it, whatever is logged. -/
theorem value_tryFile (d : Disk) (path : String) :
  (tryFile d path).value = settingsIn? d path
  := by
  rw [tryFile, settingsIn?]
  cases d.read path with
  | error reason => cases reason <;> rfl
  | ok text =>
    dsimp only
    rw [Logged.value_bind]
    cases (parse? text).value <;> rfl

/-- The settings are those of the first file that has any. -/
theorem value_firstUsable (d : Disk) (paths : List String) :
  (firstUsable d paths).value = paths.findSome? (settingsIn? d)
  := by
  induction paths with
  | nil => rfl
  | cons path paths ih =>
    rw [firstUsable, Logged.value_bind, value_tryFile, List.findSome?_cons]
    cases settingsIn? d path with
    | none => exact ih
    | some s => rfl

/-- The search gives the settings of the first file that makes some. -/
theorem value_find (d : Disk) (directory : String) :
  (find d directory).value = ((filesFor directory).findSome? (settingsIn? d)).getD {}
  := by
  rw [find, Logged.value_bind, value_firstUsable]
  cases (filesFor directory).findSome? (settingsIn? d) <;> rfl

/-! ### The nearest file -/

/-- A file that makes settings is there. -/
theorem settingsIn?_of_not_isAtHand (h : isAtHand d path = false) :
  settingsIn? d path = none
  := by
  rw [isAtHand, Disk.entryOf?] at h
  rw [settingsIn?, Disk.read]
  cases hlocate : d.locate path with
  | error reason => rfl
  | ok place =>
    rw [hlocate] at h
    dsimp only at h ⊢
    cases hentry : d.lookup? place with
    | none => rfl
    | some entry =>
      rw [hentry] at h
      cases h

/-- Files that are not there make no difference. -/
theorem findSome?_append_of_not_isAtHand {before after : List String}
    (h : ∀ p ∈ before, isAtHand d p = false) :
  (before ++ after).findSome? (settingsIn? d) = after.findSome? (settingsIn? d)
  := by
  have hnone : before.findSome? (settingsIn? d) = none :=
    List.findSome?_eq_none_iff.2 fun p hp => settingsIn?_of_not_isAtHand (h p hp)
  rw [List.findSome?_append, hnone, Option.none_or]

/-- When the nearest file makes no settings, the search goes on to the files further up. -/
theorem value_find_of_overtaken (h : Overtaken d directory s) :
  (find d directory).value = s
  := by
  obtain ⟨before, broken, between, path, after, hfiles, hbefore, -, hbroken, hbetween, hpath⟩ := h
  have hnone : between.findSome? (settingsIn? d) = none := List.findSome?_eq_none_iff.2 hbetween
  rw [value_find, hfiles, findSome?_append_of_not_isAtHand hbefore, List.findSome?_cons, hbroken]
  dsimp only
  rw [List.findSome?_append, hnone, Option.none_or, List.findSome?_cons, hpath]
  rfl

/-- The usual settings count when the nearest file is broken. -/
theorem nearestOrUsual_of_overtaken (h : Overtaken d directory s) :
  nearestOrUsual d directory = {}
  := by
  obtain ⟨before, broken, between, path, after, hfiles, hbefore, hthere, hbroken, -⟩ := h
  have hnearest : (filesFor directory).find? (isAtHand d) = some broken := by
    rw [List.find?_eq_some_iff_append]
    refine ⟨hthere, before, _, hfiles, fun p hp => ?_⟩
    rw [hbefore p hp]
    rfl
  rw [nearestOrUsual, hnearest, Option.bind_some, hbroken]
  rfl

/-- Unless another file overtakes it, the nearest file takes effect. -/
theorem overtaken_or_value_find (d : Disk) (directory : String) :
  (∃ s, Overtaken d directory s) ∨ (find d directory).value = nearestOrUsual d directory
  := by
  rw [value_find, nearestOrUsual]
  cases hnearest : (filesFor directory).find? (isAtHand d) with
  | none =>
    right
    have hnone : (filesFor directory).findSome? (settingsIn? d) = none := by
      rw [List.findSome?_eq_none_iff]
      intro p hp
      apply settingsIn?_of_not_isAtHand
      rw [← Bool.not_eq_true]
      apply List.find?_eq_none.1 hnearest p hp
    rw [hnone]
    rfl
  | some nearest =>
    obtain ⟨hthere, before, after, hfiles, hbefore⟩ := List.find?_eq_some_iff_append.1 hnearest
    have hbefore' : ∀ p ∈ before, isAtHand d p = false := by
      intro p hp
      rw [← Bool.not_eq_true']
      apply hbefore p hp
    rw [Option.bind_some, hfiles, findSome?_append_of_not_isAtHand hbefore', List.findSome?_cons]
    cases hsettings : settingsIn? d nearest with
    | some s =>
      right
      rfl
    | none =>
      dsimp only
      cases hafter : after.findSome? (settingsIn? d) with
      | none =>
        right
        rfl
      | some s =>
        left
        obtain ⟨between, path, outer, rfl, hpath, hbetween⟩ := List.findSome?_eq_some_iff.1 hafter
        exact ⟨s, before, nearest, between, path, outer, hfiles, hbefore', hthere, hsettings,
          hbetween, hpath⟩

/-- The settings for a directory are those of the nearest file, or the usual ones, exactly when no
file with other than the usual settings overtakes a nearest file that makes no settings.  A file
that overtakes it takes effect. -/
theorem find_eq_nearestOrUsual_iff (d : Disk) (directory : String) :
  ((find d directory).value = nearestOrUsual d directory
    ↔ ∀ s, Overtaken d directory s → s = {})
  ∧ ∀ s, Overtaken d directory s → (find d directory).value = s
  := by
  refine ⟨?_, fun s => value_find_of_overtaken⟩
  constructor
  · intro heq s hs
    rw [← value_find_of_overtaken hs, heq, nearestOrUsual_of_overtaken hs]
  · intro husual
    obtain ⟨s, hs⟩ | heq := overtaken_or_value_find d directory
    · rw [value_find_of_overtaken hs, nearestOrUsual_of_overtaken hs, husual s hs]
    · exact heq

/-- A settings file at the root, and a broken one in a directory below it. -/
def brokenInside : Disk where
  entries :=
    [([".refit.toml"], .file (.text "exclude_paths = [\"outer\"]\n")), (["inner"], .directory),
      (["inner", ".refit.toml"], .file (.text "paths = 3\n"))]

/-- The nearest file is broken, and the settings found are those of the one further up. -/
theorem find_brokenInside :
  nearestOrUsual brokenInside "/inner" = {}
    ∧ (find brokenInside "/inner").value = { excludes := ["outer"] }
    ∧ (find brokenInside "/inner").value ≠ nearestOrUsual brokenInside "/inner"
  := by
  decide +kernel

end Amend.Settings
