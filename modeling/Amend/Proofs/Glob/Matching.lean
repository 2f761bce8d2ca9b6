import Amend.Glob.Match
import Mathlib.Data.List.Infix

/-!
# What wildcard patterns match

`Matches` says which texts the steps of a pattern match.  The search through the parts of a text is
given up early, but only where no part that is still to be tried could match: a match is found
whenever there is one (`fit_eq_full_iff`).
-/

namespace Amend.Glob

/-- The character is one of those that a part of a set stands for. -/
def Covers : Range → Char → Prop
  | .single d, c => c = d
  | .span first last, c => first ≤ c ∧ c ≤ last

/-- `Matches steps cs`: the steps match all of the text `cs`, letter case counting. -/
inductive Matches : List Step → List Char → Prop
  | nil : Matches [] []
  | char {steps : List Step} {cs : List Char} (c : Char) (h : Matches steps cs) :
      Matches (.char c :: steps) (c :: cs)
  | any {steps : List Step} {cs : List Char} (c : Char) (h : Matches steps cs) :
      Matches (.any :: steps) (c :: cs)
  | within {set : List Range} {c : Char} {steps : List Step} {cs : List Char}
      (hset : ∃ r ∈ set, Covers r c) (h : Matches steps cs) :
      Matches (.within set :: steps) (c :: cs)
  | except {set : List Range} {c : Char} {steps : List Step} {cs : List Char}
      (hset : ¬ ∃ r ∈ set, Covers r c) (h : Matches steps cs) :
      Matches (.except set :: steps) (c :: cs)
  /-- A star matches any characters, slashes among them. -/
  | many {steps : List Step} {cs : List Char} (skipped : List Char) (h : Matches steps cs) :
      Matches (.many :: steps) (skipped ++ cs)

variable {step : Step} {steps steps' : List Step} {c : Char} {cs : List Char}

/-! ### Steps one after the other -/

/-- No steps match the empty text only. -/
theorem matches_nil_iff :
  Matches [] cs ↔ cs = []
  := by
  constructor
  · rintro ⟨⟩
    rfl
  · rintro rfl
    exact .nil

/-- A star leaves a final part of the text to the steps after it. -/
theorem matches_many_iff :
  Matches (.many :: steps) cs ↔ ∃ tail, tail <:+ cs ∧ Matches steps tail
  := by
  constructor
  · rintro (_ | _ | _ | _ | _ | ⟨skipped, h⟩)
    exact ⟨_, List.suffix_append skipped _, h⟩
  · rintro ⟨tail, ⟨skipped, rfl⟩, h⟩
    exact .many skipped h

/-- A range has the characters that it covers. -/
theorem rangeHas_iff {r : Range} :
  r.has .exact c = true ↔ Covers r c
  := by
  cases r with
  | single d => simp [Range.has, Case.agree, Covers]
  | span first last => simp [Range.has, Covers]

/-- A set has the characters that one of its ranges covers. -/
theorem any_rangeHas_iff {set : List Range} :
  set.any (Range.has .exact c) = true ↔ ∃ r ∈ set, Covers r c
  := by
  rw [List.any_eq_true]
  simp only [rangeHas_iff]

/-- Every other step takes one character of the text. -/
theorem matches_cons_iff (hmany : step ≠ .many) :
  Matches (step :: steps) cs
    ↔ ∃ c rest, cs = c :: rest ∧ step.takes .exact c = true ∧ Matches steps rest
  := by
  constructor
  · rintro (_ | ⟨c, h⟩ | ⟨c, h⟩ | ⟨hset, h⟩ | ⟨hset, h⟩ | _)
    · exact ⟨c, _, rfl, beq_self_eq_true c, h⟩
    · exact ⟨c, _, rfl, rfl, h⟩
    · exact ⟨_, _, rfl, any_rangeHas_iff.2 hset, h⟩
    · refine ⟨_, _, rfl, ?_, h⟩
      rw [Step.takes, Bool.not_eq_true', ← Bool.not_eq_true, any_rangeHas_iff]
      exact hset
    · cases hmany rfl
  · rintro ⟨c, rest, rfl, htakes, h⟩
    cases step with
    | char d =>
      obtain rfl : c = d := eq_of_beq htakes
      exact .char c h
    | any => exact .any c h
    | within set => exact .within (any_rangeHas_iff.1 htakes) h
    | except set =>
      rw [Step.takes, Bool.not_eq_true', ← Bool.not_eq_true, any_rangeHas_iff] at htakes
      exact .except htakes h
    | many => cases hmany rfl
    | segments => cases htakes

/-- Steps one after the other match texts one after the other. -/
theorem matches_append_iff :
  Matches (steps ++ steps') cs ↔ ∃ front back, cs = front ++ back ∧ Matches steps front
    ∧ Matches steps' back
  := by
  induction steps generalizing cs with
  | nil =>
    simp only [matches_nil_iff]
    constructor
    · intro h
      exact ⟨[], cs, rfl, rfl, h⟩
    · rintro ⟨_, back, rfl, rfl, h⟩
      exact h
  | cons step steps ih =>
    rw [List.cons_append]
    by_cases hmany : step = .many
    · subst hmany
      simp only [matches_many_iff, ih]
      constructor
      · rintro ⟨_, ⟨skipped, rfl⟩, front, back, rfl, h, h'⟩
        refine ⟨skipped ++ front, back, ?_, ⟨front, List.suffix_append skipped front, h⟩, h'⟩
        rw [List.append_assoc]
      · rintro ⟨_, back, rfl, ⟨front, ⟨skipped, rfl⟩, h⟩, h'⟩
        refine ⟨front ++ back, ⟨skipped, ?_⟩, front, back, rfl, h, h'⟩
        rw [List.append_assoc]
    · simp only [matches_cons_iff hmany, ih]
      constructor
      · rintro ⟨c, _, rfl, htakes, front, back, rfl, h, h'⟩
        exact ⟨c :: front, back, rfl, ⟨c, front, rfl, htakes, h⟩, h'⟩
      · rintro ⟨_, back, rfl, ⟨c, front, rfl, htakes, h⟩, h'⟩
        exact ⟨c, front ++ back, rfl, htakes, front, back, rfl, h, h'⟩

/-- A star at the end leaves a front part of the text to the steps before it. -/
theorem matches_concat_many_iff :
  Matches (steps ++ [.many]) cs ↔ ∃ front, front <+: cs ∧ Matches steps front
  := by
  rw [matches_append_iff]
  constructor
  · rintro ⟨front, back, rfl, h, -⟩
    exact ⟨front, List.prefix_append front back, h⟩
  · rintro ⟨front, ⟨back, rfl⟩, h⟩
    refine ⟨front, back, rfl, h, ?_⟩
    rw [matches_many_iff]
    exact ⟨[], List.nil_suffix, .nil⟩

/-! ### Searching for a match -/

/-- The search tells whether the steps match, and is given up only when they match no final part of
the text. -/
structure Decides (steps : List Step) : Prop where
  full_iff : ∀ cs, fit .exact steps cs = .full ↔ Matches steps cs
  hopeless : ∀ cs, fit .exact steps cs = .short → ∀ tail, tail <:+ cs → ¬ Matches steps tail

/-- No steps are decided at once. -/
theorem decides_nil :
  Decides []
  := by
  constructor
  · intro cs
    rw [matches_nil_iff]
    cases cs <;> simp [fit]
  · intro cs hshort
    cases cs <;> simp [fit] at hshort

/-- A step for one character. -/
theorem Decides.cons (h : Decides steps) (hmany : step ≠ .many) (hsegments : step ≠ .segments) :
  Decides (step :: steps)
  := by
  have hnil : fit .exact (step :: steps) [] = .short := by
    cases step <;> simp_all [fit]
  have hcons (c : Char) (cs : List Char) : fit .exact (step :: steps) (c :: cs)
      = if step.takes .exact c then fit .exact steps cs else .none := by
    cases step <;> simp_all [fit]
  constructor
  · intro cs
    rw [matches_cons_iff hmany]
    cases cs with
    | nil => simp [hnil]
    | cons c cs =>
      rw [hcons]
      split
      next htakes => simp [htakes, h.full_iff]
      next htakes => simp [htakes]
  · intro cs hshort tail htail
    rw [matches_cons_iff hmany]
    rintro ⟨c, rest, rfl, htakes, hrest⟩
    cases cs with
    | nil => cases List.suffix_nil.1 htail
    | cons d cs =>
      rw [hcons] at hshort
      split at hshort
      next =>
        have hsuffix : rest <:+ cs := by
          obtain hsame | hshorter := List.suffix_cons_iff.1 htail
          · rw [List.cons.inj hsame |>.2]
          · apply (List.suffix_cons c rest).trans hshorter
        apply h.hopeless cs hshort rest hsuffix hrest
      next => cases hshort

/-- A star: what is left to the steps after it is made shorter and shorter. -/
theorem Decides.tryMany (h : Decides steps) (cs : List Char) :
  (fit.tryMany .exact steps cs = .full ↔ ∃ tail, tail <:+ cs ∧ Matches steps tail)
  ∧ (fit.tryMany .exact steps cs = .short → ∀ tail, tail <:+ cs → ¬ Matches steps tail)
  := by
  induction cs with
  | nil =>
    rw [fit.tryMany]
    refine ⟨?_, h.hopeless []⟩
    simp [List.suffix_nil, h.full_iff]
  | cons c cs ih =>
    rw [fit.tryMany]
    cases hfit : fit .exact steps (c :: cs) with
    | full =>
      refine ⟨iff_of_true rfl ⟨c :: cs, List.suffix_refl _, (h.full_iff _).1 hfit⟩, ?_⟩
      intro hshort
      cases hshort
    | short =>
      have hnone := h.hopeless _ hfit
      refine ⟨iff_of_false Fit.noConfusion ?_, fun _ => hnone⟩
      rintro ⟨tail, htail, hmatches⟩
      apply hnone tail htail hmatches
    | none =>
      have hwhole : ¬ Matches steps (c :: cs) := by
        rw [← h.full_iff, hfit]
        exact Fit.noConfusion
      simp only [List.suffix_cons_iff, or_and_right, exists_or, exists_eq_left, hwhole, false_or,
        forall_eq_or_imp, not_false_eq_true, true_and]
      exact ih

/-- A star is decided when the steps behind it are. -/
theorem Decides.many (h : Decides steps) :
  Decides (.many :: steps)
  := by
  constructor
  · intro cs
    rw [matches_many_iff, fit]
    apply (h.tryMany cs).1
  · intro cs hshort tail htail
    rw [fit] at hshort
    rw [matches_many_iff]
    rintro ⟨tail', htail', hmatches⟩
    apply (h.tryMany cs).2 hshort tail' (htail'.trans htail) hmatches

/-- The matcher decides whether steps match. -/
theorem decides (h : Step.segments ∉ steps) :
  Decides steps
  := by
  induction steps with
  | nil => exact decides_nil
  | cons step steps ih =>
    rw [List.mem_cons, not_or] at h
    by_cases hmany : step = .many
    · subst hmany
      apply (ih h.2).many
    · apply (ih h.2).cons hmany (Ne.symm h.1)

/-- Without a step for whole segments, the search finds a match whenever there is one. -/
theorem fit_eq_full_iff (h : Step.segments ∉ steps) :
  fit .exact steps cs = .full ↔ Matches steps cs
  := (decides h).full_iff cs

end Amend.Glob
