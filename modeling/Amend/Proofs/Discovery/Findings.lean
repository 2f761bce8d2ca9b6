import Amend.Discovery.Finder
import Amend.Proofs.Places
import Mathlib.Data.List.Basic
import Mathlib.Data.List.Forall2
import Mathlib.Data.List.Induction
import Mathlib.Data.List.Nodup

/-!
# What is found for a query

Discovery fails at the first root that is no pattern and leads to neither a file nor a directory.
When there is none, it gives the places of the roots that are files, and after them, directory by
directory, the places that the files in it lead to, each place where it comes up first
(`discover_exactly`).

What is found in one directory is `Listed`: the paths of the files with one of the suffixes, in
order, but for those that lead to a place which a pattern `Excludes`.
-/

namespace Amend.Discovery

/-- Every item of a list once, in the order in which the items first occur in it. -/
structure FirstsOf {α : Type} [BEq α] (all firsts : List α) : Prop where
  mem_iff : ∀ a, a ∈ firsts ↔ a ∈ all
  inOrder : firsts.Pairwise fun a b => all.idxOf a < all.idxOf b

/-- A root that is a pattern, or leads to a file or a directory. -/
def Usable (d : Disk) (root : String) : Prop :=
  isPattern root = true ∨ d.isFile root = true ∨ d.isDirectory root = true

instance (d : Disk) (root : String) : Decidable (Usable d root) :=
  inferInstanceAs (Decidable
    (isPattern root = true ∨ d.isFile root = true ∨ d.isDirectory root = true))

/-- The place of a root that is no pattern and leads to a file. -/
def fileOf? (d : Disk) (root : String) : Option Location :=
  if isPattern root = false ∧ d.isFile root = true then (d.locate root).toOption else none

/-- The places of the directories that a root leads to or is a pattern for. -/
def directoriesOf (d : Disk) (root : String) : List Location :=
  if isPattern root then (matchingDirectories d root).value
  else if d.isDirectory root then (d.locate root).toOption.toList
  else []

/-- The pattern is not blank and occurs in the path, as it is written or as a wildcard pattern. -/
def Excludes (pattern path : String) : Prop :=
  Text.trim pattern ≠ "" ∧ (pattern.toList <:+: path.toList
    ∨ ∃ glob, Glob.Pattern.ofString (widen pattern) = .ok glob ∧ glob.fits .exact path = true)

/-- The name ends in a dot and one of the suffixes. -/
def HasSuffix (suffixes : List String) (name : String) : Prop :=
  ∃ suffix ∈ suffixes, '.' :: suffix.toList <:+ name.toList

/-- The places under a directory at which a query finds something, in order: a file or a link to
one, with one of the suffixes, that leads to a place which is not excluded. -/
structure Listed (d : Disk) (q : Query) (directory : Location) (found : List Location) : Prop where
  mem_iff : ∀ place, place ∈ found ↔
    (∃ entry, (place, entry) ∈ d.entries) ∧ directory <+: place ∧ directory ≠ place
      ∧ (∃ name, place.getLast? = some name ∧ HasSuffix q.suffixes name)
      ∧ d.isFile place.path = true
      ∧ ∀ target, d.locate place.path = .ok target → ∀ pattern ∈ q.excludes,
        ¬ Excludes pattern target.path
  sorted : found.Pairwise fun a b => b.lex a = false

/-- The places that what is listed under a directory leads to. -/
def Targets (d : Disk) (q : Query) (directory : Location) (targets : List Location) : Prop :=
  ∃ found, Listed d q directory found
    ∧ List.Forall₂ (fun place target => d.locate place.path = .ok target) found targets

variable {α : Type} [BEq α] [LawfulBEq α] {d : Disk} {q : Query} {root path : String}
  {place : Location}

/-! ### First occurrences -/

/-- One more item is kept when it has not occurred before. -/
theorem eraseDups_concat (all : List α) (last : α) :
  (all ++ [last]).eraseDups = if last ∈ all then all.eraseDups else all.eraseDups ++ [last]
  := by
  rw [List.eraseDups_append]
  split
  next hlast => simp [List.removeAll, hlast]
  next hlast => simp [List.removeAll, hlast, List.eraseDups_cons]

/-- Without repetitions a list has the first occurrences, in order. -/
theorem firstsOf_eraseDups (all : List α) :
  FirstsOf all all.eraseDups
  := by
  constructor
  · intro a
    rw [List.mem_eraseDups]
  · induction all using List.reverseRecOn with
    | nil => exact List.Pairwise.nil
    | append_singleton all last ih =>
      have hearlier (a : α) (ha : a ∈ all.eraseDups) :
          (all ++ [last]).idxOf a = all.idxOf a :=
        List.idxOf_append_of_mem (List.mem_eraseDups.1 ha)
      have hfront : all.eraseDups.Pairwise
          fun a b => (all ++ [last]).idxOf a < (all ++ [last]).idxOf b := by
        refine ih.imp_of_mem ?_
        intro a b ha hb hlt
        rw [hearlier a ha, hearlier b hb]
        exact hlt
      rw [eraseDups_concat]
      split
      next => exact hfront
      next hlast =>
        rw [List.pairwise_append]
        refine ⟨hfront, List.pairwise_singleton _ _, ?_⟩
        intro a ha b hb
        rw [hearlier a ha, List.mem_singleton.1 hb, List.idxOf_append_of_notMem hlast]
        exact Nat.lt_add_right _ (List.idxOf_lt_length_of_mem (List.mem_eraseDups.1 ha))

/-- What comes up first after other items is what is not among them. -/
theorem firstsOf_eraseDups_removeAll (before all : List α) :
  FirstsOf (all.filter (· ∉ before.eraseDups)) (all.removeAll before).eraseDups
  := by
  have hsame : all.removeAll before = all.filter (· ∉ before.eraseDups) := by
    apply List.filter_congr
    intro a _
    rw [List.elem_eq_mem, decide_not, decide_eq_decide.2 List.mem_eraseDups]
  rw [← hsame]
  apply firstsOf_eraseDups

omit [LawfulBEq α] in
/-- First occurrences do not repeat. -/
theorem FirstsOf.nodup {all firsts : List α} (h : FirstsOf all firsts) :
  firsts.Nodup
  := by
  refine h.inOrder.imp ?_
  rintro a _ hlt rfl
  exact Nat.lt_irrefl _ hlt

/-! ### Roots -/

namespace Roots

/-- A root that is a file is one of the places. -/
theorem value_ofRoot_of_isFile (hplain : ¬ isPattern root = true) (h : d.isFile root = true) :
  (ofRoot d root).run.value = .ok ⟨(fileOf? d root).toList, directoriesOf d root⟩
  := by
  obtain ⟨place, content, hlocate, hentry⟩ := Disk.isFile_iff.1 h
  have hdirectory : ¬ d.isDirectory root = true := by
    rw [Disk.isDirectory_iff, hlocate]
    rintro ⟨_, ⟨⟩, hother⟩
    cases hentry.symm.trans hother
  rw [fileOf?, if_pos ⟨Bool.eq_false_iff.2 hplain, h⟩, directoriesOf, if_neg hplain,
    if_neg hdirectory, ofRoot, if_neg hplain, hlocate]
  dsimp only
  rw [hentry]
  rfl

/-- A root that is a directory is one to search. -/
theorem value_ofRoot_of_isDirectory (hplain : ¬ isPattern root = true)
    (h : d.isDirectory root = true) :
  (ofRoot d root).run.value = .ok ⟨(fileOf? d root).toList, directoriesOf d root⟩
  := by
  obtain ⟨place, hlocate, hentry⟩ := Disk.isDirectory_iff.1 h
  have hfile : ¬ (isPattern root = false ∧ d.isFile root = true) := by
    rw [Disk.isFile_iff, hlocate]
    rintro ⟨-, _, content, ⟨⟩, hother⟩
    cases hentry.symm.trans hother
  rw [fileOf?, if_neg hfile, directoriesOf, if_neg hplain, if_pos h, ofRoot, if_neg hplain, hlocate]
  dsimp only
  rw [hentry]
  rfl

/-- A root gives the file or the directories that it stands for. -/
theorem value_ofRoot (h : Usable d root) :
  (ofRoot d root).run.value = .ok ⟨(fileOf? d root).toList, directoriesOf d root⟩
  := by
  by_cases hpattern : isPattern root = true
  · have hfile : ¬ (isPattern root = false ∧ d.isFile root = true) := by
      rw [hpattern]
      rintro ⟨⟨⟩, -⟩
    rw [fileOf?, if_neg hfile, directoriesOf, if_pos hpattern, ofRoot, if_pos hpattern]
    rfl
  · obtain h | h | h := h
    · contradiction
    · exact value_ofRoot_of_isFile hpattern h
    · exact value_ofRoot_of_isDirectory hpattern h

/-- A root that stands for nothing is refused. -/
theorem value_ofRoot_of_not_usable (h : ¬ Usable d root) :
  (ofRoot d root).run.value = .error (.invalidRoot root)
  := by
  rw [Usable, not_or, not_or, Disk.isFile_iff, Disk.isDirectory_iff] at h
  obtain ⟨hplain, hfile, hdirectory⟩ := h
  rw [ofRoot, if_neg hplain]
  cases hlocate : d.locate root with
  | error reason => rfl
  | ok place =>
    dsimp only
    split
    next content hentry => exact absurd ⟨place, content, hlocate, hentry⟩ hfile
    next hentry => exact absurd ⟨place, hlocate, hentry⟩ hdirectory
    next => rfl

/-- Roots give what they stand for, in order. -/
theorem value_ofList {roots : List String} (h : ∀ root ∈ roots, Usable d root) :
  (ofList d roots).run.value = .ok ⟨roots.filterMap (fileOf? d), roots.flatMap (directoriesOf d)⟩
  := by
  induction roots with
  | nil => rfl
  | cons root rest ih =>
    rw [List.forall_mem_cons] at h
    rw [ofList, ExceptT.run_bind, Logged.value_bind, value_ofRoot h.1]
    dsimp only
    rw [ExceptT.run_bind, Logged.value_bind, ih h.2, List.filterMap_cons, List.flatMap_cons]
    cases fileOf? d root <;> rfl

/-- The first root that stands for nothing is the one that is refused. -/
theorem value_ofList_of_not_usable {before after : List String}
    (hbefore : ∀ root ∈ before, Usable d root) (h : ¬ Usable d root) :
  (ofList d (before ++ root :: after)).run.value = .error (.invalidRoot root)
  := by
  induction before with
  | nil =>
    rw [List.nil_append, ofList, ExceptT.run_bind, Logged.value_bind,
      value_ofRoot_of_not_usable h]
    rfl
  | cons first before ih =>
    rw [List.forall_mem_cons] at hbefore
    rw [List.cons_append, ofList, ExceptT.run_bind, Logged.value_bind, value_ofRoot hbefore.1]
    dsimp only
    rw [ExceptT.run_bind, Logged.value_bind, ih hbefore.2]
    rfl

end Roots

/-! ### Exclude patterns -/

/-- A pattern is kept as a text, and as a glob if it can be read. -/
theorem value_ofPattern (pattern : String) :
  (Exclusion.ofPattern pattern).value
    = ⟨pattern, (Glob.Pattern.ofString (widen pattern)).toOption⟩
  := by
  rw [Exclusion.ofPattern]
  cases Glob.Pattern.ofString (widen pattern) <;> rfl

/-- Blank patterns are left out. -/
theorem value_readExclusions (patterns : List String) :
  (readExclusions patterns).value
    = (patterns.filter fun pattern => Text.trim pattern ≠ "").map fun pattern =>
      ⟨pattern, (Glob.Pattern.ofString (widen pattern)).toOption⟩
  := by
  induction patterns with
  | nil => rfl
  | cons pattern rest ih =>
    rw [readExclusions]
    split
    next hblank =>
      rw [Logged.value_bind, ih, List.filter_cons_of_neg]
      simpa using hblank
    next hblank =>
      rw [Logged.value_bind, Logged.value_bind, Logged.value_pure, value_ofPattern, ih,
        List.filter_cons_of_pos, List.map_cons]
      simpa using hblank

/-- A path is excluded when one of the patterns excludes it. -/
theorem value_isExcluded (path : String) (exclusions : List Exclusion) :
  (isExcluded path exclusions).value = exclusions.any (·.excludes path)
  := by
  rw [isExcluded]
  cases h : exclusions.find? (·.excludes path) with
  | none =>
    rw [List.find?_eq_none] at h
    rw [eq_comm, Logged.value_pure, List.any_eq_false]
    exact h
  | some x =>
    rw [Logged.value_bind, Logged.value_pure, eq_comm, List.any_eq_true]
    use x, List.mem_of_find?_eq_some h
    exact List.find?_some (p := fun x : Exclusion => x.excludes path) h

/-- A pattern excludes what contains it and what it fits. -/
theorem excludes_iff (pattern path : String) :
  Exclusion.excludes ⟨pattern, (Glob.Pattern.ofString (widen pattern)).toOption⟩ path = true
    ↔ pattern.toList <:+: path.toList
      ∨ ∃ glob, Glob.Pattern.ofString (widen pattern) = .ok glob ∧ glob.fits .exact path = true
  := by
  rw [Exclusion.excludes, Exclusion.matchesText, Exclusion.matchesGlob, Bool.or_eq_true,
    Text.occursIn_iff]
  cases Glob.Pattern.ofString (widen pattern) with
  | error e => simp [Except.toOption]
  | ok glob => simp [Except.toOption]

/-- A path is excluded when one of the patterns that are not blank excludes it. -/
theorem isExcluded_iff {patterns : List String} :
  (isExcluded path (readExclusions patterns).value).value = true
    ↔ ∃ pattern ∈ patterns, Excludes pattern path
  := by
  rw [value_isExcluded, value_readExclusions, List.any_eq_true]
  constructor
  · rintro ⟨x, hx, hpath⟩
    obtain ⟨pattern, hpattern, rfl⟩ := List.mem_map.1 hx
    obtain ⟨hmem, hnotBlank⟩ := List.mem_filter.1 hpattern
    exact ⟨pattern, hmem, of_decide_eq_true hnotBlank, (excludes_iff pattern path).1 hpath⟩
  · rintro ⟨pattern, hmem, hnotBlank, hpath⟩
    have hkept : pattern ∈ patterns.filter fun pattern => Text.trim pattern ≠ "" :=
      List.mem_filter.2 ⟨hmem, decide_eq_true hnotBlank⟩
    exact ⟨_, List.mem_map_of_mem hkept, (excludes_iff pattern path).2 hpath⟩

/-! ### Files under directories -/

/-- A suffix stands behind a dot at the end of a name. -/
theorem any_beforeBack?_iff {suffix name : String} :
  (Text.beforeBack? suffix name).any (fun stem => stem.toList.getLast? == some '.') = true
    ↔ '.' :: suffix.toList <:+ name.toList
  := by
  rw [Text.beforeBack?, Option.any_map, Option.any_eq_true]
  constructor
  · rintro ⟨rest, hrest, hdot⟩
    rw [List.isPrefixOf?_eq_some_iff_append_eq] at hrest
    rw [String.toList_ofList, beq_iff_eq, List.getLast?_eq_some_iff] at hdot
    obtain ⟨stem, hstem⟩ := hdot
    use stem
    have hname := congrArg List.reverse hrest
    rw [List.reverse_append, List.reverse_reverse, List.reverse_reverse, hstem,
      List.append_assoc] at hname
    exact hname
  · rintro ⟨stem, hstem⟩
    refine ⟨'.' :: stem.reverse, ?_, ?_⟩
    · rw [List.isPrefixOf?_eq_some_iff_append_eq, ← hstem]
      simp
    · simp

/-- A name has one of the suffixes, behind a dot. -/
theorem hasSuffix_iff {suffixes : List String} {name : String} :
  hasSuffix suffixes name = true ↔ HasSuffix suffixes name
  := by
  simp only [hasSuffix, HasSuffix, List.any_eq_true, any_beforeBack?_iff]

/-- The places that are kept are those that are not excluded. -/
theorem value_keepIncluded (exclusions : List Exclusion) (places : List Location) :
  (keepIncluded exclusions places).value
    = places.filter fun place => !(isExcluded place.path exclusions).value
  := by
  induction places with
  | nil => rfl
  | cons place rest ih =>
    rw [keepIncluded, Logged.value_bind, Logged.value_bind, Logged.value_pure, ih]
    cases h : (isExcluded place.path exclusions).value with
    | false =>
      rw [List.filter_cons_of_pos]
      · rfl
      · rw [h]
        rfl
    | true =>
      rw [List.filter_cons_of_neg]
      · rfl
      · rw [h]
        exact Bool.false_ne_true

/-- The files of the directories are found directory by directory. -/
theorem value_filesUnder (d : Disk) (suffixes : List String) (exclusions : List Exclusion)
    (directories : List Location) :
  (filesUnder d suffixes exclusions directories).value
    = directories.flatMap fun directory =>
      (keepIncluded exclusions (candidates d suffixes directory)).value
  := by
  induction directories with
  | nil => rfl
  | cons directory rest ih =>
    rw [filesUnder, Logged.value_bind, Logged.value_bind, Logged.value_pure, ih,
      List.flatMap_cons]

/-- The places under a directory are those that begin with it. -/
theorem mem_placesUnder_iff {directory : Location} :
  place ∈ d.placesUnder directory
    ↔ (∃ entry, (place, entry) ∈ d.entries) ∧ directory <+: place ∧ directory ≠ place
  := by
  rw [Disk.placesUnder, List.mem_mergeSort, List.mem_filterMap]
  constructor
  · rintro ⟨⟨l, entry⟩, hentry, hplace⟩
    dsimp only at hplace
    split at hplace
    next hunder =>
      obtain rfl := Option.some.inj hplace
      rw [Bool.and_eq_true, List.isPrefixOf_iff_prefix, bne_iff_ne] at hunder
      exact ⟨⟨entry, hentry⟩, hunder⟩
    next => cases hplace
  · rintro ⟨⟨entry, hentry⟩, hunder⟩
    use (place, entry), hentry
    dsimp only
    rw [if_pos]
    rw [Bool.and_eq_true, List.isPrefixOf_iff_prefix, bne_iff_ne]
    exact hunder

/-- The places under a directory come in order. -/
theorem sorted_placesUnder (d : Disk) (directory : Location) :
  (d.placesUnder directory).Pairwise fun a b => b.lex a = false
  := by
  rw [Disk.placesUnder]
  refine (List.pairwise_mergeSort ?_ ?_ _).imp ?_
  · intro a b c hab hbc
    rw [Bool.not_eq_true', List.lex_eq_false_iff_ge] at hab hbc ⊢
    exact List.le_trans hab hbc
  · intro a b
    rw [Bool.or_eq_true, Bool.not_eq_true', Bool.not_eq_true', List.lex_eq_false_iff_ge,
      List.lex_eq_false_iff_ge]
    exact List.le_total a b
  · intro a b hab
    rw [← Bool.not_eq_true']
    exact hab

/-- The places of the files that a query finds in a directory. -/
def foundIn (d : Disk) (q : Query) (directory : Location) : List Location :=
  (keepIncluded (readExclusions q.excludes).value (candidates d q.suffixes directory)).value

/-- Whether a query finds something at a place under one of its directories. -/
def isWanted (d : Disk) (q : Query) (place : Location) : Bool :=
  place.getLast?.any (hasSuffix q.suffixes) && d.isFile place.path
    && (d.locate place.path).toOption.any fun target =>
      !(isExcluded target.path (readExclusions q.excludes).value).value

/-- A file is wanted for its suffix, if no pattern excludes it. -/
theorem isWanted_iff :
  isWanted d q place = true
    ↔ (∃ name, place.getLast? = some name ∧ HasSuffix q.suffixes name)
      ∧ d.isFile place.path = true
      ∧ ∀ target, d.locate place.path = .ok target → ∀ pattern ∈ q.excludes,
        ¬ Excludes pattern target.path
  := by
  have hincluded (target : Location) :
      (!(isExcluded target.path (readExclusions q.excludes).value).value) = true
        ↔ ∀ pattern ∈ q.excludes, ¬ Excludes pattern target.path := by
    rw [Bool.not_eq_true', ← Bool.not_eq_true, isExcluded_iff]
    simp
  have hname : place.getLast?.any (hasSuffix q.suffixes) = true
      ↔ ∃ name, place.getLast? = some name ∧ HasSuffix q.suffixes name := by
    simp only [Option.any_eq_true, hasSuffix_iff]
  rw [isWanted, Bool.and_eq_true, Bool.and_eq_true, hname, and_assoc]
  apply and_congr_right
  intro _
  apply and_congr_right
  intro hfile
  obtain ⟨target, content, hlocate, -⟩ := Disk.isFile_iff.1 hfile
  rw [hlocate]
  constructor
  · rintro h _ ⟨⟩
    exact (hincluded target).1 h
  · intro h
    exact (hincluded target).2 (h target rfl)

/-- The wanted places under a directory are all there, in order. -/
theorem listed_filter_isWanted (d : Disk) (q : Query) (directory : Location) :
  Listed d q directory ((d.placesUnder directory).filter (isWanted d q))
  := by
  constructor
  · intro place
    rw [List.mem_filter, mem_placesUnder_iff, isWanted_iff, and_assoc, and_assoc]
  · apply (sorted_placesUnder d directory).filter

/-- The targets that are found are those of the wanted places, in order. -/
theorem forall₂_locate_filter_isWanted (d : Disk) (q : Query) (places : List Location) :
  List.Forall₂ (fun place target => d.locate place.path = .ok target)
    (places.filter (isWanted d q))
    ((places.filterMap fun found =>
      if found.getLast?.any (hasSuffix q.suffixes) && d.isFile found.path then
        (d.locate found.path).toOption
      else none).filter fun target =>
        !(isExcluded target.path (readExclusions q.excludes).value).value)
  := by
  induction places with
  | nil => exact .nil
  | cons place rest ih =>
    rw [List.filter_cons, List.filterMap_cons, isWanted]
    cases hasked : place.getLast?.any (hasSuffix q.suffixes) && d.isFile place.path with
    | false => exact ih
    | true =>
      rw [Bool.and_eq_true] at hasked
      obtain ⟨target, content, hlocate, -⟩ := Disk.isFile_iff.1 hasked.2
      have htarget : (d.locate place.path).toOption = some target := by
        rw [hlocate]
        rfl
      simp only [htarget, if_true, Option.any_some, Bool.true_and, List.filter_cons]
      split
      next => exact .cons hlocate ih
      next => exact ih

/-- What a query finds in a directory is where that leads which is listed under the directory. -/
theorem targets_foundIn (d : Disk) (q : Query) (directory : Location) :
  Targets d q directory (foundIn d q directory)
  := by
  use (d.placesUnder directory).filter (isWanted d q), listed_filter_isWanted d q directory
  rw [foundIn, value_keepIncluded, candidates]
  apply forall₂_locate_filter_isWanted

/-! ### Queries -/

/-- What is found are the files among the roots and then those under the directories, each once. -/
theorem value_discover (h : ∀ root ∈ q.roots, Usable d root) :
  (discover d q).run.value
    = .ok ((q.roots.filterMap (fileOf? d)
      ++ (q.roots.flatMap (directoriesOf d)).flatMap (foundIn d q)).eraseDups.map Location.path)
  := by
  rw [discover, ExceptT.run_bind, Logged.value_bind, Roots.value_ofList h]
  show Except.ok ((_ ++ (filesUnder d q.suffixes _ _).value).eraseDups.map _) = _
  rw [value_filesUnder]
  rfl

/-- Nothing is found when a root stands for nothing. -/
theorem value_discover_of_not_usable {before after : List String}
    (hroots : q.roots = before ++ root :: after) (hbefore : ∀ r ∈ before, Usable d r)
    (h : ¬ Usable d root) :
  (discover d q).run.value = .error (.invalidRoot root)
  := by
  rw [discover, ExceptT.run_bind, Logged.value_bind, hroots,
    Roots.value_ofList_of_not_usable hbefore h]
  rfl

/-- The files among the roots have proper places. -/
theorem proper_of_mem_files (hhere : Location.Proper d.here)
    (h : place ∈ q.roots.filterMap (fileOf? d)) :
  Location.Proper place
  := by
  obtain ⟨root, -, hroot⟩ := List.mem_filterMap.1 h
  rw [fileOf?] at hroot
  split at hroot
  · exact Disk.proper_of_locate hhere (Disk.locate_of_toOption_eq_some hroot)
  · cases hroot

/-- The files under a directory have proper places. -/
theorem proper_of_mem_foundIn (hhere : Location.Proper d.here) {directory : Location}
    (h : place ∈ foundIn d q directory) :
  Location.Proper place
  := by
  rw [foundIn, value_keepIncluded, List.mem_filter, candidates, List.mem_filterMap] at h
  obtain ⟨⟨found, -, hfound⟩, -⟩ := h
  split at hfound
  · exact Disk.proper_of_locate hhere (Disk.locate_of_toOption_eq_some hfound)
  · cases hfound

/-- Different places that are found have different paths. -/
theorem nodup_map_path (d : Disk) (hhere : Location.Proper d.here) (q : Query) :
  ((q.roots.filterMap (fileOf? d)
    ++ (q.roots.flatMap (directoriesOf d)).flatMap (foundIn d q)).eraseDups.map Location.path).Nodup
  := by
  have hproper : ∀ place ∈ (q.roots.filterMap (fileOf? d)
      ++ (q.roots.flatMap (directoriesOf d)).flatMap (foundIn d q)).eraseDups,
      Location.Proper place := by
    intro place hplace
    rw [List.mem_eraseDups, List.mem_append, List.mem_flatMap] at hplace
    obtain hplace | ⟨directory, -, hplace⟩ := hplace
    · exact proper_of_mem_files hhere hplace
    · exact proper_of_mem_foundIn hhere hplace
  apply List.Nodup.map_on _ (firstsOf_eraseDups _).nodup
  intro place hplace place' hplace'
  apply Location.path_inj (hproper place hplace) (hproper place' hplace')

/-- Discovery fails at the first root that is no pattern and leads to neither a file nor a
directory.  When there is none, no path comes up twice among those that are found.  First come the
places of the roots that are files, in the order of the roots, whatever their names.  Then come, in
the order of the directories that roots lead to or are patterns for, and for each directory in the
order of what is listed under it, the places that this leads to and that have not come up.  The
directory that relative paths are taken from has a place with proper names. -/
theorem discover_exactly (d : Disk) (hhere : Location.Proper d.here) (q : Query) :
  (∀ before root after, q.roots = before ++ root :: after → (∀ r ∈ before, Usable d r) →
      ¬ Usable d root → (discover d q).run.value = .error (.invalidRoot root))
    ∧ ((∀ root ∈ q.roots, Usable d root) →
      ∃ own others listings, (discover d q).run.value = .ok ((own ++ others).map Location.path)
        ∧ ((own ++ others).map Location.path).Nodup
        ∧ FirstsOf (q.roots.filterMap (fileOf? d)) own
        ∧ List.Forall₂ (Targets d q) (q.roots.flatMap (directoriesOf d)) listings
        ∧ FirstsOf (listings.flatten.filter (· ∉ own)) others)
  := by
  constructor
  · intro before root after hroots hbefore hroot
    apply value_discover_of_not_usable hroots hbefore hroot
  · intro hroots
    have hvalue := value_discover hroots
    have hnodup := nodup_map_path d hhere q
    rw [List.eraseDups_append] at hvalue hnodup
    refine ⟨_, _, (q.roots.flatMap (directoriesOf d)).map (foundIn d q), hvalue, hnodup,
      firstsOf_eraseDups _, ?_, ?_⟩
    · rw [List.forall₂_map_right_iff, List.forall₂_same]
      intro directory _
      apply targets_foundIn
    · rw [← List.flatMap_def]
      apply firstsOf_eraseDups_removeAll

/-- A file that is a root and to which a link in a directory leads comes up once, and before what
is in the directories. -/
theorem discover_exactly_linkedFile :
  let d : Disk :=
    { entries := [(["w"], .directory), (["w", "a.php"], .file (.text "")),
        (["w", "lib"], .directory), (["w", "lib", "b.php"], .link "../a.php"),
        (["w", "src"], .directory), (["w", "src", "c.php"], .file (.text ""))]
      here := ["w"] }
  let q : Query := ⟨["lib", "a.php", "src"], ["php"], []⟩
  (discover d q).run.value = .ok ["/w/a.php", "/w/src/c.php"]
    ∧ ∃ own others listings, (discover d q).run.value = .ok ((own ++ others).map Location.path)
      ∧ ((own ++ others).map Location.path).Nodup
      ∧ FirstsOf (q.roots.filterMap (fileOf? d)) own
      ∧ List.Forall₂ (Targets d q) (q.roots.flatMap (directoriesOf d)) listings
      ∧ FirstsOf (listings.flatten.filter (· ∉ own)) others
  := by
  intro d q
  have hroots : ∀ root ∈ q.roots, Usable d root := by decide +kernel
  have hvalue : (discover d q).run.value = .ok ["/w/a.php", "/w/src/c.php"] := by decide +kernel
  exact ⟨hvalue, (discover_exactly d (by decide) q).2 hroots⟩

end Amend.Discovery
