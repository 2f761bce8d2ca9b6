import Amend.Proofs.Glob.Reading
import Amend.Proofs.Spellings
import Amend.Rule.Name

/-!
# Patterns in other letters

Whether a name matches a pattern without sets is the same for all spellings of the two
(`matchesName_congr`).  A set is left out of this since its spans may begin or end between the
capitals and the small letters: `[Z-_]` is such a set, and `[z-_]` holds nothing.
-/

namespace Amend

open Text (SameLetter)

namespace Glob

/-- Steps that are the same but for the case of a letter. -/
inductive Alike : Step → Step → Prop
  | char {c d : Char} (h : SameLetter c d) : Alike (.char c) (.char d)
  | any : Alike .any .any
  | many : Alike .many .many
  | segments : Alike .segments .segments

/-- Two lists of steps fit the spellings of a text alike. -/
def SameFit (steps steps' : List Step) : Prop :=
  ∀ cs cs', List.Forall₂ SameLetter cs cs' → fit .folded steps' cs' = fit .folded steps cs

variable {c c' d d' : Char} {cs cs' : List Char} {step step' : Step} {steps steps' : List Step}

/-! ### Matching -/

/-- Whether characters agree, their letter case aside, does not depend on it. -/
theorem agree_congr (hc : SameLetter c c') (hd : SameLetter d d') :
  Case.folded.agree c' d' = Case.folded.agree c d
  := by
  rw [Case.agree, Case.agree, Text.sameLetter_iff.1 hc, Text.sameLetter_iff.1 hd]

theorem sameFit_nil :
  SameFit [] []
  := by
  rintro _ _ (_ | _) <;> simp only [fit]

/-- A character fits the same letter, however either is spelled. -/
theorem SameFit.char (h : SameFit steps steps') (hd : SameLetter d d') :
  SameFit (.char d :: steps) (.char d' :: steps')
  := by
  rintro _ _ (_ | ⟨hc, hcs⟩)
  · simp [fit]
  · simp only [fit, Step.takes, agree_congr hc hd, h _ _ hcs]
    rfl

/-- Any character fits in any spelling. -/
theorem SameFit.any (h : SameFit steps steps') :
  SameFit (.any :: steps) (.any :: steps')
  := by
  rintro _ _ (_ | ⟨hc, hcs⟩)
  · simp [fit]
  · simp only [fit, Step.takes, h _ _ hcs]

/-- A star leaves the same parts of the spellings to the steps after it. -/
theorem SameFit.many (h : SameFit steps steps') :
  SameFit (.many :: steps) (.many :: steps')
  := by
  intro cs cs' hcs
  rw [fit, fit]
  induction hcs with
  | nil => rw [fit.tryMany, fit.tryMany, h _ _ .nil]
  | cons hc hcs ih => rw [fit.tryMany, fit.tryMany, h _ _ (.cons hc hcs), ih]

/-- The segments of the spellings end at the same places, as a slash is no letter. -/
theorem SameFit.segments (h : SameFit steps steps') :
  SameFit (.segments :: steps) (.segments :: steps')
  := by
  have htry {cs cs' : List Char} (hcs : List.Forall₂ SameLetter cs cs')
      (hskip : fit.skipSegment .folded steps' cs' = fit.skipSegment .folded steps cs) :
      fit.trySegments .folded steps' cs' = fit.trySegments .folded steps cs := by
    rw [fit.trySegments, fit.trySegments, h _ _ hcs, hskip]
  have hskip {cs cs' : List Char} (hcs : List.Forall₂ SameLetter cs cs') :
      fit.skipSegment .folded steps' cs' = fit.skipSegment .folded steps cs := by
    induction hcs with
    | nil => rw [fit.skipSegment, fit.skipSegment, h _ _ .nil]
    | cons hc hcs ih =>
      rw [fit.skipSegment, fit.skipSegment, htry hcs ih, ih]
      simp only [hc.eq_iff (x := '/') (by decide)]
  intro cs cs' hcs
  rw [fit, fit, htry hcs (hskip hcs)]

/-- Steps that are alike fit the same names. -/
theorem sameFit_of_alike (h : List.Forall₂ Alike steps steps') :
  SameFit steps steps'
  := by
  induction h with
  | nil => exact sameFit_nil
  | cons hstep _ ih =>
    cases hstep with
    | char hd => exact ih.char hd
    | any => exact ih.any
    | many => exact ih.many
    | segments => exact ih.segments

/-! ### Reading -/

/-- Steps for whole segments stand at the same places. -/
theorem Alike.eq_segments_iff (h : Alike step step') :
  step' = .segments ↔ step = .segments
  := by
  cases h <;> simp

theorem forall₂_concat (h : List.Forall₂ Alike steps steps') (hstep : Alike step step') :
  List.Forall₂ Alike (steps ++ [step]) (steps' ++ [step'])
  := List.rel_append h (.cons hstep .nil)

/-- Patterns that are alike end in the same kind of step. -/
theorem getLast?_eq_segments_iff (h : List.Forall₂ Alike steps steps') :
  steps'.getLast? = some .segments ↔ steps.getLast? = some .segments
  := by
  have hreverse := List.forall₂_reverse_iff.2 h
  rw [List.getLast?_eq_head?_reverse, List.getLast?_eq_head?_reverse]
  generalize steps.reverse = back, steps'.reverse = back' at hreverse
  cases hreverse with
  | nil => rfl
  | cons hstep _ =>
    rw [List.head?_cons, List.head?_cons, Option.some_inj, Option.some_inj, hstep.eq_segments_iff]

theorem forall₂_push (h : List.Forall₂ Alike steps steps') :
  List.Forall₂ Alike (push steps .segments) (push steps' .segments)
  := by
  rw [push, push, ← h.length_eq]
  simp only [getLast?_eq_segments_iff h]
  split
  · exact h
  · exact forall₂_concat h .segments

/-- Two texts are read as patterns whose steps are alike, or neither of them is a pattern. -/
def ReadAlike (r r' : Except PatternError Pattern) : Prop :=
  Option.Rel (fun p q => List.Forall₂ Alike p.steps q.steps) r.toOption r'.toOption

/-- Patterns with steps that are alike are read alike. -/
theorem readAlike_ok {p q : Pattern} (h : List.Forall₂ Alike p.steps q.steps) :
  ReadAlike (.ok p) (.ok q)
  := .some h

theorem readAlike_error (e e' : PatternError) :
  ReadAlike (.error e) (.error e')
  := .none

/-- A character that is no letter has one spelling. -/
theorem exists_of_forall₂_cons (hc : c.isAlpha = false)
    (h : List.Forall₂ SameLetter (c :: cs) cs') :
  ∃ rest, cs' = c :: rest ∧ List.Forall₂ SameLetter cs rest
  := by
  obtain ⟨d, rest, hd, hrest, rfl⟩ := List.forall₂_cons_left_iff.1 h
  obtain rfl := hd.eq_of_isAlpha hc
  exact ⟨rest, rfl, hrest⟩

/-- A character that is no letter is missing in every spelling. -/
theorem ne_cons_of_forall₂ (hc : c.isAlpha = false) (h : List.Forall₂ SameLetter cs cs')
    (hne : ∀ tail, cs = c :: tail → False) :
  ∀ tail, cs' = c :: tail → False
  := by
  rintro tail rfl
  obtain ⟨d, rest, hd, -, rfl⟩ := List.forall₂_cons_right_iff.1 h
  apply hne rest
  rw [hd.symm.eq_of_isAlpha hc]

/-- Whether a segment may begin. -/
theorem all_slash_congr {before before' : Option Char} (h : Option.Rel SameLetter before before') :
  before'.all (· = '/') = before.all (· = '/')
  := by
  cases h with
  | none => rfl
  | some hc => simp only [Option.all_some, hc.eq_iff (x := '/') (by decide)]

/-- Reading the spellings of a text without sets. -/
theorem readAlike_read (hset : '[' ∉ cs) (hcs : List.Forall₂ SameLetter cs cs') {position : Nat}
    {before before' : Option Char} {p p' : Pattern} (hbefore : Option.Rel SameLetter before before')
    (hsteps : List.Forall₂ Alike p.steps p'.steps) :
  ReadAlike (read position before p cs) (read position before' p' cs')
  := by
  have hstar : '*'.isAlpha = false := by decide
  have hslash : '/'.isAlpha = false := by decide
  fun_induction read position before p cs generalizing cs' before' p' with
  | case1 =>
    cases hcs
    rw [read]
    exact readAlike_ok hsteps
  | case2 position before p rest ih =>
    obtain ⟨rest', rfl, hrest⟩ := exists_of_forall₂_cons (by decide) hcs
    rw [read]
    apply ih (mt (List.mem_cons_of_mem _) hset) hrest (.some (.inl rfl))
    apply forall₂_concat hsteps .any
  | case3 =>
    obtain ⟨_, rfl, hcs₁⟩ := exists_of_forall₂_cons hstar hcs
    obtain ⟨_, rfl, hcs₂⟩ := exists_of_forall₂_cons hstar hcs₁
    obtain ⟨_, rfl, -⟩ := exists_of_forall₂_cons hstar hcs₂
    rw [read]
    apply readAlike_error
  | case4 position before p hbegin =>
    obtain ⟨_, rfl, hcs₁⟩ := exists_of_forall₂_cons hstar hcs
    obtain ⟨_, rfl, ⟨⟩⟩ := exists_of_forall₂_cons hstar hcs₁
    rw [← all_slash_congr hbefore] at hbegin
    simp only [read, if_pos hbegin]
    exact readAlike_ok (forall₂_push hsteps)
  | case5 position before p hbegin _ rest _ =>
    rename_i ih
    obtain ⟨_, rfl, hcs₁⟩ := exists_of_forall₂_cons hstar hcs
    obtain ⟨_, rfl, hcs₂⟩ := exists_of_forall₂_cons hstar hcs₁
    obtain ⟨rest', rfl, hrest⟩ := exists_of_forall₂_cons hslash hcs₂
    rw [← all_slash_congr hbefore] at hbegin
    have hset' : '[' ∉ rest := by
      intro hmem
      apply hset
      simp [hmem]
    rw [read]
    · simp only [if_pos hbegin]
      apply ih hset' hrest (.some (.inl rfl)) (forall₂_push hsteps)
    · rintro _ ⟨⟩
  | case6 position before p rest hthird hbegin hend hslashed =>
    obtain ⟨_, rfl, hcs₁⟩ := exists_of_forall₂_cons hstar hcs
    obtain ⟨rest', rfl, hrest⟩ := exists_of_forall₂_cons hstar hcs₁
    rw [← all_slash_congr hbefore] at hbegin
    rw [read]
    · simp only [if_pos hbegin]
      split
      · cases hrest
        cases hend rfl
      · cases ne_cons_of_forall₂ hslash hrest hslashed _ rfl
      · apply readAlike_error
    · apply ne_cons_of_forall₂ hstar hrest hthird
  | case7 position before p rest hthird hbegin =>
    obtain ⟨_, rfl, hcs₁⟩ := exists_of_forall₂_cons hstar hcs
    obtain ⟨rest', rfl, hrest⟩ := exists_of_forall₂_cons hstar hcs₁
    rw [← all_slash_congr hbefore] at hbegin
    rw [read]
    · simp only [if_neg hbegin]
      apply readAlike_error
    · apply ne_cons_of_forall₂ hstar hrest hthird
  | case8 position before p rest _ hsecond ih =>
    obtain ⟨rest', rfl, hrest⟩ := exists_of_forall₂_cons hstar hcs
    have hsecond' := ne_cons_of_forall₂ hstar hrest hsecond
    rw [read]
    · apply ih (mt (List.mem_cons_of_mem _) hset) hrest (.some (.inl rfl))
      apply forall₂_concat hsteps .many
    · rintro tail rfl
      apply hsecond' _ rfl
    · exact hsecond'
  | case9 | case10 => cases hset List.mem_cons_self
  | case11 position before p c rest hone _ _ hmany hopen ih =>
    obtain ⟨d, rest', hd, hrest, rfl⟩ := List.forall₂_cons_left_iff.1 hcs
    have hone' : d ≠ '?' := mt (hd.eq_iff (by decide)).1 hone
    have hmany' : d ≠ '*' := mt (hd.eq_iff hstar).1 hmany
    have hopen' : d ≠ '[' := mt (hd.eq_iff (by decide)).1 hopen
    rw [read]
    · apply ih (mt (List.mem_cons_of_mem _) hset) hrest (.some hd)
      apply forall₂_concat hsteps (.char hd)
    all_goals simp_all

end Glob

/-! ### Names and patterns -/

variable {name name' pattern pattern' : String}

/-- Whether a pattern has wildcards does not depend on its letter case. -/
theorem isWild_congr (h : Text.Respelled pattern pattern') :
  isWild pattern' = isWild pattern
  := by
  apply forall₂_any h
  intro c d hcd
  have hstar := hcd.eq_iff (x := '*') (by decide)
  have hone := hcd.eq_iff (x := '?') (by decide)
  have hopen := hcd.eq_iff (x := '[') (by decide)
  rw [Bool.eq_iff_iff]
  simp only [Bool.or_eq_true, beq_iff_eq, hstar, hone, hopen]

/-- All spellings of a name match all spellings of a pattern without sets alike. -/
theorem matchesName_congr (hname : Text.Respelled name name')
    (hpattern : Text.Respelled pattern pattern') (hset : '[' ∉ pattern.toList) :
  matchesName name' pattern' = matchesName name pattern
  := by
  have hread : Glob.ReadAlike (Glob.Pattern.ofString pattern) (Glob.Pattern.ofString pattern') :=
    Glob.readAlike_read hset hpattern .none .nil
  rw [matchesName, matchesName, isWild_congr hpattern, Text.sameFolded_congr hname hpattern]
  generalize Glob.Pattern.ofString pattern = r, Glob.Pattern.ofString pattern' = r' at hread
  match r, r', hread with
  | .error _, .error _, _ => rfl
  | .ok p, .ok p', .some hsteps =>
    simp only [Glob.Pattern.fits, Glob.sameFit_of_alike hsteps _ _ hname]

end Amend
