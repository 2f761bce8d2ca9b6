import Amend.Proofs.Discovery.Findings
import Amend.Proofs.Glob.Reading

/-!
# What an exclude pattern excludes

An exclude pattern is widened by stars before it is read, so that it matches in the middle of a path
too.  Widening changes neither whether the pattern can be read nor which parts of a path it matches
(`denotes_widen_iff`), so a pattern excludes the paths that contain it, as it is written or as a
wildcard pattern (`isExcluded_iff_contains`).
-/

namespace Amend

namespace Text

/-- There is nothing but blanks in the text. -/
def Blank (s : String) : Prop := ∀ c ∈ s.toList, isBlank c = true

/-- Nothing is left of a text when it is blank. -/
theorem trim_eq_empty_iff {s : String} :
  trim s = "" ↔ Blank s
  := by
  rw [trim, ← String.toList_inj, String.toList_ofList, String.toList_empty, List.reverse_eq_nil_iff,
    List.dropWhile_eq_nil_iff]
  constructor
  · intro h c hc
    rw [← List.takeWhile_append_dropWhile (p := isBlank) (l := s.toList), List.mem_append] at hc
    obtain hc | hc := hc
    · apply List.mem_takeWhile_imp hc
    · apply h c (List.mem_reverse.2 hc)
  · intro h c hc
    apply h c ((List.dropWhile_suffix isBlank).subset (List.mem_reverse.1 hc))

end Text

namespace Discovery

open Glob

/-- The pattern, read as it is, matches all of a text. -/
def Denotes (pattern text : List Char) : Prop := ∃ steps, Reads pattern steps ∧ Matches steps text

/-- A pattern that does not begin with a star gets one. -/
def openFront (pattern : List Char) : List Char :=
  if pattern.head? = some '*' then pattern else '*' :: pattern

/-- A pattern that does not end in a star gets one. -/
def openBack (pattern : List Char) : List Char :=
  if pattern.getLast? = some '*' then pattern else pattern ++ ['*']

variable {pattern text : List Char} {steps : List Step} {s path : String}

/-! ### Widened patterns -/

/-- Opening a pattern at its back leaves its first character. -/
theorem head?_openBack (h : pattern ≠ []) :
  (openBack pattern).head? = pattern.head?
  := by
  rw [openBack]
  split
  · rfl
  · rw [List.head?_append_of_ne_nil _ h]

/-- A pattern is widened at its front and at its back. -/
theorem toList_widen (h : s.toList ≠ []) :
  (widen s).toList = openFront (openBack s.toList)
  := by
  rw [openFront, head?_openBack h, openBack, widen]
  split <;> split <;> simp

/-- A star at the front lets the pattern match any final part of a text. -/
theorem denotes_openFront_iff :
  Denotes (openFront pattern) text ↔ ∃ tail, tail <:+ text ∧ Denotes pattern tail
  := by
  rw [openFront]
  split
  next hhead =>
    constructor
    · intro h
      exact ⟨text, List.suffix_refl _, h⟩
    · rintro ⟨tail, htail, steps, hreads, hmatches⟩
      obtain ⟨rest, rfl⟩ := List.head?_eq_some_iff.1 hhead
      obtain ⟨steps, rfl, -⟩ := exists_of_reads_star hreads
      obtain ⟨tail', htail', hmatches⟩ := matches_many_iff.1 hmatches
      exact ⟨_, hreads, matches_many_iff.2 ⟨tail', htail'.trans htail, hmatches⟩⟩
  next hhead =>
    constructor
    · rintro ⟨steps, hreads, hmatches⟩
      obtain ⟨steps', rfl, hreads'⟩ := exists_of_reads_star hreads
      obtain ⟨tail, htail, hmatches'⟩ := matches_many_iff.1 hmatches
      exact ⟨tail, htail, steps', hreads', hmatches'⟩
    · rintro ⟨tail, htail, steps, hreads, hmatches⟩
      exact ⟨_, .many hhead hreads, matches_many_iff.2 ⟨tail, htail, hmatches⟩⟩

/-- A star at the back lets the pattern match any front part of a text. -/
theorem denotes_openBack_iff :
  Denotes (openBack pattern) text ↔ ∃ front, front <+: text ∧ Denotes pattern front
  := by
  rw [openBack]
  split
  next hlast =>
    constructor
    · intro h
      exact ⟨text, List.prefix_refl _, h⟩
    · rintro ⟨front, hfront, steps, hreads, hmatches⟩
      obtain ⟨before, rfl⟩ := List.getLast?_eq_some_iff.1 hlast
      obtain ⟨steps, rfl, -⟩ := exists_of_reads_concat_star hreads
      obtain ⟨front', hfront', hmatches⟩ := matches_concat_many_iff.1 hmatches
      exact ⟨_, hreads, matches_concat_many_iff.2 ⟨front', hfront'.trans hfront, hmatches⟩⟩
  next hlast =>
    constructor
    · rintro ⟨steps, hreads, hmatches⟩
      obtain ⟨steps', rfl, hreads'⟩ := exists_of_reads_concat_star hreads
      obtain ⟨front, hfront, hmatches'⟩ := matches_concat_many_iff.1 hmatches
      exact ⟨front, hfront, steps', hreads', hmatches'⟩
    · rintro ⟨front, hfront, steps, hreads, hmatches⟩
      exact ⟨_, hreads.concat_star hlast, matches_concat_many_iff.2 ⟨front, hfront, hmatches⟩⟩

/-- A widened pattern matches the texts that have a part which the pattern matches. -/
theorem denotes_widen_iff (h : s.toList ≠ []) :
  Denotes (widen s).toList text ↔ ∃ part, part <:+: text ∧ Denotes s.toList part
  := by
  rw [toList_widen h, denotes_openFront_iff]
  simp only [denotes_openBack_iff]
  constructor
  · rintro ⟨tail, htail, part, hpart, hdenotes⟩
    exact ⟨part, hpart.isInfix.trans htail.isInfix, hdenotes⟩
  · rintro ⟨part, hpart, hdenotes⟩
    obtain ⟨tail, hpart, htail⟩ := List.infix_iff_prefix_suffix.1 hpart
    exact ⟨tail, htail, part, hpart, hdenotes⟩

/-! ### Reading a widened pattern -/

/-- Opening a pattern at its front puts no two stars together. -/
theorem singleStars_openFront (h : SingleStars pattern) :
  SingleStars (openFront pattern)
  := by
  rw [openFront]
  split
  next => exact h
  next hhead =>
    intro hstars
    obtain hprefix | hinfix := List.infix_cons_iff.1 hstars
    · obtain ⟨rest, hrest⟩ := hprefix
      cases hrest
      apply hhead rfl
    · apply h hinfix

/-- A pattern is opened at its back as its reverse is at its front. -/
theorem openBack_eq_reverse :
  openBack pattern = (openFront pattern.reverse).reverse
  := by
  rw [openBack, openFront, List.head?_reverse]
  split
  · rw [List.reverse_reverse]
  · rw [List.reverse_cons, List.reverse_reverse]

/-- Stars stand apart in a pattern when they do in its reverse. -/
theorem singleStars_reverse_iff :
  SingleStars pattern.reverse ↔ SingleStars pattern
  := by
  rw [SingleStars, SingleStars, not_iff_not]
  exact @List.reverse_infix _ ['*', '*'] _

/-- Widening a pattern puts no two stars together. -/
theorem singleStars_widen (h : s.toList ≠ []) (hstars : SingleStars s.toList) :
  SingleStars (widen s).toList
  := by
  rw [toList_widen h]
  apply singleStars_openFront
  rw [openBack_eq_reverse, singleStars_reverse_iff]
  apply singleStars_openFront
  rwa [singleStars_reverse_iff]

/-- A pattern without `**` that can be read is read as what it denotes. -/
theorem exists_matches_iff (hstars : SingleStars s.toList) :
  (∃ glob, Glob.Pattern.ofString s = .ok glob ∧ Matches glob.steps text) ↔ Denotes s.toList text
  := by
  constructor
  · rintro ⟨glob, hglob, hmatches⟩
    exact ⟨glob.steps, (exists_ofString_iff hstars).1 ⟨glob, hglob, rfl⟩, hmatches⟩
  · rintro ⟨steps, hreads, hmatches⟩
    obtain ⟨glob, hglob, rfl⟩ := (exists_ofString_iff hstars).2 hreads
    exact ⟨glob, hglob, hmatches⟩

/-- A pattern can be read and fits a path when it denotes it. -/
theorem exists_fits_iff (hstars : SingleStars s.toList) :
  (∃ glob, Glob.Pattern.ofString s = .ok glob ∧ glob.fits .exact path = true)
    ↔ Denotes s.toList path.toList
  := by
  rw [← exists_matches_iff hstars]
  apply exists_congr
  intro glob
  apply and_congr_right
  intro hglob
  exact fits_iff hstars hglob

/-- A pattern without `**` matches the paths that have a part which it matches on its own. -/
theorem exists_fits_widen_iff (h : s.toList ≠ []) (hstars : SingleStars s.toList) :
  (∃ glob, Glob.Pattern.ofString (widen s) = .ok glob ∧ glob.fits .exact path = true)
    ↔ ∃ glob, Glob.Pattern.ofString s = .ok glob
      ∧ ∃ part, part <:+: path.toList ∧ Matches glob.steps part
  := by
  rw [exists_fits_iff (singleStars_widen h hstars), denotes_widen_iff h]
  simp only [← exists_matches_iff hstars]
  constructor
  · rintro ⟨part, hpart, glob, hglob, hmatches⟩
    exact ⟨glob, hglob, part, hpart, hmatches⟩
  · rintro ⟨glob, hglob, part, hpart, hmatches⟩
    exact ⟨part, hpart, glob, hglob, hmatches⟩

/-- The pattern as a text excludes the paths that contain it. -/
theorem matchesText_ofPattern_iff (pattern path : String) :
  (Exclusion.ofPattern pattern).value.matchesText path = true ↔ pattern.toList <:+: path.toList
  := by
  rw [value_ofPattern, Exclusion.matchesText, Text.occursIn_iff]

/-- The pattern as a glob excludes the paths that the widened one fits. -/
theorem matchesGlob_ofPattern_iff (pattern path : String) :
  (Exclusion.ofPattern pattern).value.matchesGlob path = true
    ↔ ∃ glob, Glob.Pattern.ofString (widen pattern) = .ok glob ∧ glob.fits .exact path = true
  := by
  rw [value_ofPattern, Exclusion.matchesGlob, Option.any_eq_true]
  cases Glob.Pattern.ofString (widen pattern) with
  | error e => simp [Except.toOption]
  | ok glob => simp [Except.toOption]

/-! ### Patterns without wildcards -/

/-- A pattern without wildcards denotes itself alone. -/
theorem denotes_plain_iff (hplain : ∀ c ∈ pattern, c ∉ ['?', '*', '[']) :
  Denotes pattern text ↔ text = pattern
  := by
  induction pattern generalizing text with
  | nil =>
    constructor
    · rintro ⟨steps, hreads, hmatches⟩
      rw [eq_nil_of_reads_nil hreads] at hmatches
      exact matches_nil_iff.1 hmatches
    · rintro rfl
      exact ⟨[], .nil, .nil⟩
  | cons c pattern ih =>
    obtain ⟨hc, hplain⟩ := List.forall_mem_cons.1 hplain
    constructor
    · rintro ⟨steps, hreads, hmatches⟩
      obtain ⟨steps', rfl, hreads'⟩ := exists_of_reads_cons hc hreads
      cases hmatches with
      | char c hmatches => rw [(ih hplain).1 ⟨steps', hreads', hmatches⟩]
    · rintro rfl
      obtain ⟨steps, hreads, hmatches⟩ := (ih hplain).2 rfl
      exact ⟨.char c :: steps, .piece (.char hc) hreads, .char c hmatches⟩

/-- A pattern without wildcards has no stars. -/
theorem singleStars_of_plain (hplain : ∀ c ∈ pattern, c ∉ ['?', '*', '[']) :
  SingleStars pattern
  := by
  intro hstars
  apply hplain '*' (hstars.subset List.mem_cons_self)
  decide

/-- The empty pattern is widened to `**`, which matches every path. -/
theorem fit_segments (cs : List Char) :
  fit.trySegments .exact [] cs = .full ∧ fit.skipSegment .exact [] cs = .full
  := by
  induction cs with
  | nil =>
    rw [fit.trySegments, fit.skipSegment, fit]
    exact ⟨rfl, rfl⟩
  | cons c cs ih =>
    have hskip : fit.skipSegment .exact [] (c :: cs) = .full := by
      rw [fit.skipSegment, ih.1, ih.2, ite_self]
    rw [fit.trySegments, fit]
    exact ⟨hskip, hskip⟩

/-- An empty pattern fits every path. -/
theorem matchesGlob_empty (path : String) :
  (Exclusion.ofPattern "").value.matchesGlob path = true
  := by
  rw [matchesGlob_ofPattern_iff]
  refine ⟨⟨[.segments], true, true⟩, ?_, ?_⟩
  · simp [widen, Glob.Pattern.ofString, Glob.read, push]
  · rw [Pattern.fits, fit, (fit_segments _).1]
    rfl

/-- A pattern without wildcards matches, as a wildcard pattern, where it occurs as it is written. -/
theorem matchesGlob_eq_matchesText (hplain : ∀ c ∈ s.toList, c ∉ ['?', '*', '[']) (path : String) :
  (Exclusion.ofPattern s).value.matchesGlob path = (Exclusion.ofPattern s).value.matchesText path
  := by
  by_cases h : s.toList = []
  · obtain rfl : s = "" := String.toList_inj.1 h
    rw [matchesGlob_empty, eq_comm, matchesText_ofPattern_iff]
    exact List.nil_infix
  · rw [Bool.eq_iff_iff, matchesGlob_ofPattern_iff, matchesText_ofPattern_iff,
      exists_fits_iff (singleStars_widen h (singleStars_of_plain hplain)), denotes_widen_iff h]
    simp only [denotes_plain_iff hplain, exists_eq_right]

/-! ### Lists of patterns -/

/-- A path is excluded exactly when it contains a pattern that is not blank: the pattern occurs in it
as it is written, or it can be read as a wildcard pattern and matches all of a part of the path.  A
pattern is read as the steps that its text stands for; one that cannot be read excludes the paths in
which it occurs and no others, and for one without wildcards it is all one whether it is taken as a
text or as a wildcard pattern. -/
theorem isExcluded_iff_contains (patterns : List String) (path : String)
    (hstars : ∀ pattern ∈ patterns, SingleStars pattern.toList) :
  ((isExcluded path (readExclusions patterns).value).value = true
    ↔ ∃ pattern ∈ patterns, ¬ Text.Blank pattern ∧
      (pattern.toList <:+: path.toList
        ∨ ∃ glob, Glob.Pattern.ofString pattern = .ok glob
          ∧ ∃ part, part <:+: path.toList ∧ Matches glob.steps part))
  ∧ (∀ pattern ∈ patterns, ∀ steps,
      (∃ glob, Glob.Pattern.ofString pattern = .ok glob ∧ glob.steps = steps)
        ↔ Reads pattern.toList steps)
  ∧ (∀ pattern ∈ patterns, (∀ glob, Glob.Pattern.ofString pattern ≠ .ok glob) →
      ((Exclusion.ofPattern pattern).value.excludes path = true
        ↔ pattern.toList <:+: path.toList))
  ∧ ∀ pattern ∈ patterns, (∀ c ∈ pattern.toList, c ∉ ['?', '*', '[']) →
      (Exclusion.ofPattern pattern).value.matchesGlob path
        = (Exclusion.ofPattern pattern).value.matchesText path
  := by
  refine ⟨?_, fun pattern hpattern _ => exists_ofString_iff (hstars pattern hpattern), ?_, ?_⟩
  · rw [isExcluded_iff]
    apply exists_congr
    intro pattern
    apply and_congr_right
    intro hpattern
    rw [Excludes, Ne, Text.trim_eq_empty_iff]
    apply and_congr_right
    intro hblank
    rw [exists_fits_widen_iff _ (hstars pattern hpattern)]
    intro hnil
    apply hblank
    intro c hc
    rw [hnil] at hc
    cases hc
  · intro pattern hpattern hunreadable
    have hnil : pattern.toList ≠ [] := by
      intro hnil
      obtain rfl : pattern = "" := String.toList_inj.1 hnil
      apply hunreadable ⟨[], false, false⟩
      rw [Glob.Pattern.ofString, String.toList_empty, Glob.read]
    rw [Exclusion.excludes, Bool.or_eq_true, matchesText_ofPattern_iff, matchesGlob_ofPattern_iff,
      exists_fits_widen_iff hnil (hstars pattern hpattern), or_iff_left]
    rintro ⟨glob, hglob, -⟩
    apply hunreadable glob hglob
  · intro pattern _ hplain
    apply matchesGlob_eq_matchesText hplain

/-- Exclude patterns: one that cannot be read, one with a set, one without wildcards, and a blank
one. -/
def testPatterns : List String := ["[broken", "/t[a-e]st?/*.inc", "old", "  "]

/-- A pattern with a set, a wildcard and a star. -/
theorem ofString_testDirectory :
  Glob.Pattern.ofString "/t[a-e]st?/*.inc"
    = .ok ⟨[.char '/', .char 't', .within [.span 'a' 'e'], .char 's', .char 't', .any, .char '/',
        .many, .char '.', .char 'i', .char 'n', .char 'c'], true, false⟩
  := by
  have hset : readSet ['a', '-', 'e', ']', 's', 't', '?', '/', '*', '.', 'i', 'n', 'c']
      = some (.within [.span 'a' 'e'], ['s', 't', '?', '/', '*', '.', 'i', 'n', 'c']) := by
    decide
  simp [Glob.Pattern.ofString, ↓read_set hset, Glob.read]

/-- A set that is not closed cannot be read. -/
theorem ofString_broken (glob : Glob.Pattern) :
  Glob.Pattern.ofString "[broken" ≠ .ok glob
  := by
  have hset : readSet ['b', 'r', 'o', 'k', 'e', 'n'] = none := by decide
  change Glob.read 0 none _ ('[' :: ['b', 'r', 'o', 'k', 'e', 'n']) ≠ _
  rw [Glob.read]
  split
  next => rintro ⟨⟩
  next h => cases hset.symm.trans h

/-- Three patterns: one with a set, one that cannot be read and a plain one. -/
theorem isExcluded_iff_contains_testPatterns :
  (∀ pattern ∈ testPatterns, SingleStars pattern.toList)
  ∧ (isExcluded "/p/tests/a.inc" (readExclusions testPatterns).value).value = true
  ∧ (Exclusion.ofPattern "[broken").value.excludes "/p/tests/a.inc" = false
  ∧ (Exclusion.ofPattern "old").value.matchesGlob "/p/tests/a.inc"
    = (Exclusion.ofPattern "old").value.matchesText "/p/tests/a.inc"
  := by
  have hstars : ∀ pattern ∈ testPatterns, SingleStars pattern.toList := by
    unfold SingleStars testPatterns
    decide
  obtain ⟨hpath, -, hbroken, hplain⟩ := isExcluded_iff_contains testPatterns "/p/tests/a.inc" hstars
  refine ⟨hstars, hpath.2 ?_, ?_, hplain "old" (by decide) (by simp)⟩
  · refine ⟨"/t[a-e]st?/*.inc", by decide, ?_, .inr ⟨_, ofString_testDirectory, ?_⟩⟩
    · intro hblank
      have hslash : Text.isBlank '/' = true := hblank '/' (by decide)
      revert hslash
      decide
    · refine ⟨"/tests/a.inc".toList, by decide, ?_⟩
      rw [← fit_eq_full_iff (by decide)]
      simp [fit, fit.tryMany, Step.takes, Case.agree, Range.has]
  · rw [← Bool.not_eq_true, hbroken "[broken" (by decide) ofString_broken]
    decide

end Discovery

end Amend
