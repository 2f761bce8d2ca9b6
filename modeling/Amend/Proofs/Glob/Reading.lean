import Amend.Proofs.Cuts
import Amend.Proofs.Glob.Matching

/-!
# What wildcard patterns stand for

`Reads` says which steps a text without `**` stands for.  A pattern can be read exactly when there are
such steps, that is, when each of its brackets is closed, and they are the steps of the pattern
(`exists_ofString_iff`).  A star at either end is a step of its own.
-/

namespace Amend.Glob

variable {step : Step} {steps : List Step} {c : Char} {cs : List Char}

/-! ### Texts that stand for steps -/

/-- What stands between the brackets of a set: at least one character, and after the first one no
closing bracket. -/
def IsInside (inside : List Char) : Prop := inside ≠ [] ∧ ']' ∉ inside.tail

/-- `Piece front step`: the text `front` stands for a step that takes one character. -/
inductive Piece : List Char → Step → Prop
  | any : Piece ['?'] .any
  | within {inside : List Char} (hinside : IsInside inside) (hsign : inside.head? ≠ some '!') :
      Piece ('[' :: (inside ++ [']'])) (.within (ranges inside))
  | except {inside : List Char} (hinside : IsInside inside) :
      Piece ('[' :: '!' :: (inside ++ [']'])) (.except (ranges inside))
  /-- Every other character stands for itself. -/
  | char {c : Char} (hc : c ∉ ['?', '*', '[']) : Piece [c] (.char c)

/-- `Reads cs steps`: the text `cs`, in which no star follows another one outside brackets, stands
for the steps. -/
inductive Reads : List Char → List Step → Prop
  | nil : Reads [] []
  | piece {front rest : List Char} {step : Step} {steps : List Step} (hpiece : Piece front step)
      (h : Reads rest steps) : Reads (front ++ rest) (step :: steps)
  | many {rest : List Char} {steps : List Step} (halone : rest.head? ≠ some '*')
      (h : Reads rest steps) : Reads ('*' :: rest) (.many :: steps)

/-! ### Brackets -/

/-- What is inside brackets ends at the first bracket that closes them. -/
theorem closeBracket_append {inside after : List Char} (h : IsInside inside) :
  closeBracket (inside ++ ']' :: after) = some (inside, after)
  := by
  cases inside with
  | nil => cases h.1 rfl
  | cons c inside =>
    have hclosing : ']' ∉ inside := h.2
    rw [List.cons_append, closeBracket, Text.dropWhile_append_cons hclosing,
      Text.takeWhile_append_cons hclosing]

/-- What is found inside brackets stands before the bracket that closes them. -/
theorem exists_of_closeBracket {inside after : List Char}
    (h : closeBracket cs = some (inside, after)) :
  IsInside inside ∧ cs = inside ++ ']' :: after
  := by
  cases cs with
  | nil => cases h
  | cons c rest =>
    by_cases hmem : ']' ∈ rest
    · obtain ⟨front, back, rfl, hfront⟩ := List.eq_append_cons_of_mem hmem
      have hinside : IsInside (c :: front) := ⟨List.cons_ne_nil _ _, hfront⟩
      rw [← List.cons_append, closeBracket_append hinside] at h
      cases h
      exact ⟨hinside, rfl⟩
    · rw [closeBracket, Text.dropWhile_of_notMem hmem] at h
      cases h

/-- A set without a sign has the characters in it. -/
theorem readSet_of_head? {inside after : List Char} (h : IsInside inside)
    (hsign : inside.head? ≠ some '!') :
  readSet (inside ++ ']' :: after) = some (.within (ranges inside), after)
  := by
  rw [readSet]
  · rw [closeBracket_append h]
    rfl
  · intro rest hrest
    cases inside with
    | nil => cases h.1 rfl
    | cons c inside =>
      cases hrest
      apply hsign rfl

/-- A set with a sign has the characters that are not in it. -/
theorem readSet_cons {inside after : List Char} (h : IsInside inside) :
  readSet ('!' :: (inside ++ ']' :: after)) = some (.except (ranges inside), after)
  := by
  rw [readSet, closeBracket_append h]
  rfl

/-- A set that is read stands in brackets, with a sign or without one. -/
theorem exists_of_readSet {after : List Char} (h : readSet cs = some (step, after)) :
  ∃ inside, IsInside inside
    ∧ (cs = '!' :: (inside ++ ']' :: after) ∧ step = .except (ranges inside)
      ∨ inside.head? ≠ some '!' ∧ cs = inside ++ ']' :: after ∧ step = .within (ranges inside))
  := by
  unfold readSet at h
  split at h
  next rest =>
    obtain ⟨⟨inside, _⟩, hclose, ⟨⟩⟩ := Option.map_eq_some_iff.1 h
    obtain ⟨hinside, rfl⟩ := exists_of_closeBracket hclose
    exact ⟨inside, hinside, .inl ⟨rfl, rfl⟩⟩
  next rest hrest =>
    obtain ⟨⟨inside, _⟩, hclose, ⟨⟩⟩ := Option.map_eq_some_iff.1 h
    obtain ⟨hinside, rfl⟩ := exists_of_closeBracket hclose
    refine ⟨inside, hinside, .inr ⟨?_, rfl, rfl⟩⟩
    intro hsign
    obtain ⟨rest, rfl⟩ := List.head?_eq_some_iff.1 hsign
    apply hrest _ rfl

/-- A set that is read is a piece of the pattern. -/
theorem exists_piece_of_readSet {after : List Char} (hset : readSet cs = some (step, after)) :
  ∃ front, '[' :: cs = front ++ after ∧ Piece front step
  := by
  obtain ⟨inside, hinside, ⟨rfl, rfl⟩ | ⟨hsign, rfl, rfl⟩⟩ := exists_of_readSet hset
  · refine ⟨_, ?_, .except hinside⟩
    simp
  · refine ⟨_, ?_, .within hinside hsign⟩
    simp

/-- A set in a pattern is read as what it stands for. -/
theorem read_set {position : Nat} {before : Option Char} {p : Pattern} {after : List Char}
    (hset : readSet cs = some (step, after)) :
  read position before p ('[' :: cs)
    = read (position + 1 + (cs.length - after.length)) (some ']')
      { p with steps := p.steps ++ [step], wild := true } after
  := by
  rw [read]
  split
  next h => cases h.symm.trans hset
  next h => cases h.symm.trans hset; rfl

/-! ### Pieces one after the other -/

/-- A piece has characters. -/
theorem Piece.ne_nil {front : List Char} (h : Piece front step) :
  front ≠ []
  := by
  cases h <;> exact List.cons_ne_nil _ _

theorem ne_star (hc : c ∉ ['?', '*', '[']) :
  c ≠ '*'
  := by
  rintro rfl
  apply hc
  decide

/-- A piece other than a star does not begin with one. -/
theorem Piece.head?_ne {front : List Char} (h : Piece front step) :
  front.head? ≠ some '*'
  := by
  cases h with
  | char hc => simpa using ne_star hc
  | _ => rintro ⟨⟩

/-- A piece other than a star does not end in one. -/
theorem Piece.getLast?_ne {front : List Char} (h : Piece front step) :
  front.getLast? ≠ some '*'
  := by
  cases h with
  | any => decide
  | within | except => simp [List.getLast?_cons]
  | char hc => simpa using ne_star hc

/-- A piece of a pattern is read as its step. -/
theorem Piece.exists_read_eq {front : List Char} (h : Piece front step) (position : Nat)
    (before : Option Char) (p : Pattern) (rest : List Char) :
  ∃ position' before' wild, read position before p (front ++ rest)
    = read position' before' { p with steps := p.steps ++ [step], wild } rest
  := by
  cases h with
  | any =>
    rw [List.singleton_append, read]
    exact ⟨_, _, _, rfl⟩
  | @within inside hinside hsign =>
    have happend : '[' :: (inside ++ [']']) ++ rest = '[' :: (inside ++ ']' :: rest) := by simp
    rw [happend, read_set (readSet_of_head? hinside hsign)]
    exact ⟨_, _, _, rfl⟩
  | @except inside hinside =>
    have happend : '[' :: '!' :: (inside ++ [']']) ++ rest
        = '[' :: '!' :: (inside ++ ']' :: rest) := by simp
    rw [happend, read_set (readSet_cons hinside)]
    exact ⟨_, _, _, rfl⟩
  | char hc =>
    rw [List.singleton_append, read]
    · exact ⟨_, _, _, rfl⟩
    all_goals simp_all

/-- No star follows another one. -/
def SingleStars (cs : List Char) : Prop := ¬ ['*', '*'] <:+: cs

/-- Stars that stand apart do so in every suffix. -/
theorem SingleStars.of_suffix {tail : List Char} (h : SingleStars cs) (htail : tail <:+ cs) :
  SingleStars tail
  := fun hstars => h (hstars.trans htail.isInfix)

/-- Two stars in front do not stand apart. -/
theorem not_singleStars (rest : List Char) :
  ¬ SingleStars ('*' :: '*' :: rest)
  := by
  intro h
  apply h
  use [], rest
  rfl

/-- What is read of the rest goes after the step that comes before it. -/
theorem exists_reads_of_rest {rest : List Char} {before all : List Step}
    (hstep : ∀ steps, Reads rest steps → Reads cs (step :: steps))
    (hrest : ∃ steps, Reads rest steps ∧ all = before ++ [step] ++ steps) :
  ∃ steps, Reads cs steps ∧ all = before ++ steps
  := by
  obtain ⟨steps, hsteps, rfl⟩ := hrest
  use step :: steps, hstep steps hsteps
  rw [List.append_assoc, List.singleton_append]

/-- What is read goes after the steps that were read before. -/
theorem exists_reads {position : Nat} {before : Option Char} {p q : Pattern}
    (hstars : SingleStars cs) (h : read position before p cs = .ok q) :
  ∃ steps, Reads cs steps ∧ q.steps = p.steps ++ steps
  := by
  fun_induction read position before p cs with
  | case1 =>
    cases h
    use [], .nil
    rw [List.append_nil]
  | case2 position before p rest ih =>
    apply exists_reads_of_rest fun _ => Reads.piece .any
    apply ih (hstars.of_suffix (List.suffix_cons _ _)) h
  | case3 | case4 | case5 | case6 | case7 => cases not_singleStars _ hstars
  | case8 position before p rest _ halone ih =>
    have hhead : rest.head? ≠ some '*' := by
      intro hstar
      obtain ⟨rest, rfl⟩ := List.head?_eq_some_iff.1 hstar
      apply halone _ rfl
    apply exists_reads_of_rest fun _ => Reads.many hhead
    apply ih (hstars.of_suffix (List.suffix_cons _ _)) h
  | case9 => cases h
  | case10 position before p rest step after hset _ ih =>
    obtain ⟨front, hfront, hpiece⟩ := exists_piece_of_readSet hset
    rw [hfront] at hstars ⊢
    apply exists_reads_of_rest fun _ => Reads.piece hpiece
    apply ih (hstars.of_suffix (List.suffix_append _ _)) h
  | case11 position before p c rest hone _ _ hmany hset ih =>
    have hc : c ∉ ['?', '*', '['] := by
      rintro (_ | ⟨_, _ | ⟨_, _ | ⟨_, ⟨⟩⟩⟩⟩)
      · exact hone rfl
      · exact hmany rfl
      · exact hset rfl
    apply exists_reads_of_rest fun _ => Reads.piece (.char hc)
    apply ih (hstars.of_suffix (List.suffix_cons _ _)) h

/-- A text that stands for steps is read as them. -/
theorem Reads.exists_read (h : Reads cs steps) (position : Nat) (before : Option Char)
    (p : Pattern) :
  ∃ q, read position before p cs = .ok q ∧ q.steps = p.steps ++ steps
  := by
  induction h generalizing position before p with
  | nil =>
    use p
    rw [read, List.append_nil]
    exact ⟨rfl, rfl⟩
  | piece hpiece _ ih =>
    obtain ⟨position', before', wild, hread⟩ := hpiece.exists_read_eq position before p _
    rw [hread]
    obtain ⟨q, hq, hsteps⟩ := ih position' before' _
    use q, hq
    rw [hsteps, List.append_assoc, List.singleton_append]
  | many halone _ ih =>
    rw [read]
    · obtain ⟨q, hq, hsteps⟩ := ih _ _ _
      use q, hq
      rw [hsteps, List.append_assoc, List.singleton_append]
    · rintro tail rfl
      apply halone rfl
    · rintro tail rfl
      apply halone rfl

/-- Single stars are read as steps within a segment. -/
theorem Reads.segments_notMem (h : Reads cs steps) :
  Step.segments ∉ steps
  := by
  induction h with
  | nil => exact List.not_mem_nil
  | piece hpiece _ ih =>
    rw [List.mem_cons, not_or]
    refine ⟨?_, ih⟩
    rintro rfl
    cases hpiece
  | many _ _ ih =>
    rw [List.mem_cons, not_or]
    exact ⟨Step.noConfusion, ih⟩

/-- A text without `**` is a pattern exactly when it stands for steps, and these are the steps of
the pattern. -/
theorem exists_ofString_iff {s : String} (hstars : SingleStars s.toList) :
  (∃ p, Pattern.ofString s = .ok p ∧ p.steps = steps) ↔ Reads s.toList steps
  := by
  constructor
  · rintro ⟨p, hp, rfl⟩
    obtain ⟨steps, hreads, hsteps⟩ := exists_reads hstars hp
    rw [hsteps]
    exact hreads
  · intro hreads
    apply hreads.exists_read

/-- The texts that a pattern without `**` matches. -/
theorem fits_iff {s text : String} {p : Pattern} (hstars : SingleStars s.toList)
    (hp : Pattern.ofString s = .ok p) :
  p.fits .exact text = true ↔ Matches p.steps text.toList
  := by
  have hreads := (exists_ofString_iff hstars).1 ⟨p, hp, rfl⟩
  rw [Pattern.fits, beq_iff_eq, fit_eq_full_iff hreads.segments_notMem]

/-! ### Stars at the ends of a pattern -/

/-- The empty pattern has no steps. -/
theorem eq_nil_of_reads_nil (h : Reads [] steps) :
  steps = []
  := by
  generalize hall : [] = all at h
  cases h with
  | nil => rfl
  | piece hpiece _ => cases hpiece.ne_nil (List.append_eq_nil_iff.1 hall.symm).1
  | many => cases hall

/-- A star at the front of a pattern is a step of its own. -/
theorem exists_of_reads_star (h : Reads ('*' :: cs) steps) :
  ∃ steps', steps = .many :: steps' ∧ Reads cs steps'
  := by
  generalize hall : '*' :: cs = all at h
  cases h with
  | nil => cases hall
  | @piece front _ _ _ hpiece h =>
    cases front with
    | nil => cases hpiece.ne_nil rfl
    | cons c front =>
      cases hall
      cases hpiece.head?_ne rfl
  | many halone h =>
    cases hall
    exact ⟨_, rfl, h⟩

/-- A character that is no wildcard is a step of its own. -/
theorem exists_of_reads_cons (hc : c ∉ ['?', '*', '[']) (h : Reads (c :: cs) steps) :
  ∃ steps', steps = .char c :: steps' ∧ Reads cs steps'
  := by
  generalize hall : c :: cs = all at h
  cases h with
  | nil => cases hall
  | piece hpiece h =>
    cases hpiece with
    | char hc' =>
      cases hall
      exact ⟨_, rfl, h⟩
    | _ =>
      cases hall
      cases hc (by decide)
  | many halone h =>
    cases hall
    cases hc (by decide)

/-- What ends in a star ends in one without a piece at its front. -/
theorem exists_of_append_eq_concat {front back : List Char} (h : front ++ back = cs ++ ['*'])
    (hfront : front.getLast? ≠ some '*') :
  ∃ cs', cs = front ++ cs' ∧ back = cs' ++ ['*']
  := by
  obtain ⟨cs', rfl, rfl⟩ | ⟨between, rfl, hback⟩ := List.append_eq_append_iff.1 h
  · exact ⟨cs', rfl, rfl⟩
  · obtain ⟨rfl, rfl⟩ | ⟨rfl, rfl⟩ := List.append_eq_singleton_iff.1 hback.symm
    · use []
      simp
    · simp at hfront

/-- A star at the end of a pattern is a step of its own. -/
theorem exists_of_reads_concat_star (h : Reads (cs ++ ['*']) steps) :
  ∃ steps', steps = steps' ++ [.many] ∧ Reads cs steps'
  := by
  generalize hall : cs ++ ['*'] = all at h
  induction h generalizing cs with
  | nil => cases List.append_ne_nil_of_right_ne_nil cs (List.cons_ne_nil _ _) hall
  | piece hpiece _ ih =>
    obtain ⟨cs', rfl, hrest⟩ := exists_of_append_eq_concat hall.symm hpiece.getLast?_ne
    obtain ⟨steps', rfl, h⟩ := ih hrest.symm
    exact ⟨_ :: steps', rfl, .piece hpiece h⟩
  | many halone hrest ih =>
    cases cs with
    | nil =>
      cases hall
      rw [eq_nil_of_reads_nil hrest]
      exact ⟨[], rfl, .nil⟩
    | cons c cs =>
      cases hall
      obtain ⟨steps', rfl, h⟩ := ih rfl
      refine ⟨.many :: steps', rfl, .many ?_ h⟩
      cases cs with
      | nil => cases halone rfl
      | cons d cs => exact halone

/-- A star at the end is one step more. -/
theorem Reads.concat_star (h : Reads cs steps) (hlast : cs.getLast? ≠ some '*') :
  Reads (cs ++ ['*']) (steps ++ [.many])
  := by
  induction h with
  | nil => exact .many (by simp) .nil
  | @piece front rest step steps hpiece h ih =>
    rw [List.append_assoc]
    apply Reads.piece hpiece
    apply ih
    intro hrest
    rw [List.getLast?_append, hrest] at hlast
    apply hlast rfl
  | @many rest steps halone h ih =>
    cases rest with
    | nil => cases hlast rfl
    | cons c rest =>
      have hrest : (c :: rest ++ ['*']).head? ≠ some '*' := halone
      apply Reads.many hrest
      apply ih
      rwa [List.getLast?_cons_cons] at hlast

end Amend.Glob
