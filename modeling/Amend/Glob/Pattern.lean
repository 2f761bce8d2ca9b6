/-!
# Wildcard patterns

A pattern is a text in which `?` stands for one character, `*` for any characters,
`[abc]`, `[a-z]` and `[!x]` for one character in or outside a set, and `**`, as a whole
segment between slashes, for any number of segments.  Every other character stands for
itself; there is no escape.

`Pattern.ofString` reads a pattern or says where and why it cannot be one.
-/

namespace Amend.Glob

/-- A part of a character set: one character, or all from one to another. -/
inductive Range where
  | single (c : Char)
  | span (first last : Char)
deriving DecidableEq, Repr

/-- One step of a pattern. -/
inductive Step where
  /-- This character. -/
  | char (c : Char)
  /-- Any one character. -/
  | any
  /-- One character of the set. -/
  | within (set : List Range)
  /-- One character outside the set. -/
  | except (set : List Range)
  /-- Any characters, none included. -/
  | many
  /-- Any number of whole segments. -/
  | segments
deriving DecidableEq, Repr

/-- Why a text is no pattern. -/
inductive Fault where
  /-- More than two stars in a row. -/
  | wildcards
  /-- Two stars that are not a whole segment. -/
  | recursive
  /-- A bracket that opens no set. -/
  | range
deriving DecidableEq, Repr

/-- A fault and the position, in characters, at which it shows. -/
structure PatternError where
  position : Nat
  fault : Fault
deriving DecidableEq, Repr

def Fault.message : Fault → String
  | wildcards => "wildcards are either regular \x60*\x60 or recursive \x60**\x60"
  | recursive => "recursive wildcards must form a single path component"
  | range => "invalid range pattern"

def PatternError.message (e : PatternError) : String :=
  s!"Pattern syntax error near position {e.position}: {e.fault.message}"

/-- A pattern that has been read. -/
structure Pattern where
  steps : List Step
  /-- Whether some character of the pattern is not taken for itself. -/
  wild : Bool
  /-- Whether the pattern has a step for whole segments. -/
  recursive : Bool
deriving DecidableEq, Repr

/-- Read the inside of a bracket: `a-z` is a span, all else stands for itself. -/
def ranges : List Char → List Range
  | a :: '-' :: b :: rest => .span a b :: ranges rest
  | c :: rest => .single c :: ranges rest
  | [] => []

/-- Split what follows an opening bracket, and `!` if there is one, into the inside of the
bracket and what comes after it.  The first character belongs to the inside whatever it is. -/
def closeBracket : List Char → Option (List Char × List Char)
  | [] => none
  | c :: rest =>
    match rest.dropWhile (· != ']') with
    | [] => none
    | _ :: after => some (c :: rest.takeWhile (· != ']'), after)

/-- Only the closing bracket is taken away. -/
theorem length_closeBracket {cs inside after : List Char}
    (h : closeBracket cs = some (inside, after)) :
  inside.length + after.length + 1 = cs.length
  := by
  cases cs with
  | nil => simp [closeBracket] at h
  | cons c rest =>
    have hsplit := congrArg List.length (List.takeWhile_append_dropWhile (p := (· != ']')) (l := rest))
    simp only [closeBracket] at h
    split at h
    · simp at h
    · rename_i heq
      rw [List.length_append, heq] at hsplit
      obtain ⟨rfl, rfl⟩ := by simpa using h
      simp at hsplit ⊢
      omega

/-- The set that an opening bracket begins, and what follows its closing bracket. -/
def readSet : List Char → Option (Step × List Char)
  | '!' :: rest => (closeBracket rest).map fun (inside, after) => (.except (ranges inside), after)
  | rest => (closeBracket rest).map fun (inside, after) => (.within (ranges inside), after)

/-- Less is left behind a set than there was. -/
theorem length_readSet {cs after : List Char} {step : Step} (h : readSet cs = some (step, after)) :
  after.length < cs.length
  := by
  unfold readSet at h
  split at h
  · obtain ⟨⟨inside, a⟩, hc, heq⟩ := Option.map_eq_some_iff.1 h
    have := length_closeBracket hc
    simp at heq ⊢
    obtain ⟨_, rfl⟩ := heq
    omega
  · obtain ⟨⟨inside, a⟩, hc, heq⟩ := Option.map_eq_some_iff.1 h
    have := length_closeBracket hc
    simp at heq ⊢
    obtain ⟨_, rfl⟩ := heq
    omega

/-- Add a step; repeated segment steps are one, except at the very start. -/
def push (steps : List Step) (step : Step) : List Step :=
  if step = .segments ∧ 1 < steps.length ∧ steps.getLast? = some .segments then steps
  else steps ++ [step]

/-- Read the steps of a pattern.  `position` counts the characters read so far, `before` is
the last of them, and `p` is what has been read. -/
def read (position : Nat) (before : Option Char) (p : Pattern) :
    List Char → Except PatternError Pattern
  | [] => .ok p
  | '?' :: rest => read (position + 1) (some '?') { p with steps := p.steps ++ [.any], wild := true } rest
  | '*' :: '*' :: '*' :: _ => .error ⟨position + 2, .wildcards⟩
  | '*' :: '*' :: rest =>
    if before.all (· = '/') then
      let p := { p with steps := push p.steps .segments, wild := true, recursive := true }
      match rest with
      | [] => .ok p
      | '/' :: rest => read (position + 3) (some '/') p rest
      | _ => .error ⟨position + 2, .recursive⟩
    else .error ⟨position - 1, .recursive⟩
  | '*' :: rest => read (position + 1) (some '*') { p with steps := p.steps ++ [.many], wild := true } rest
  | '[' :: rest =>
    match h : readSet rest with
    | none => .error ⟨position, .range⟩
    | some (step, after) =>
      have : after.length < rest.length := length_readSet h
      read (position + 1 + (rest.length - after.length)) (some ']')
        { p with steps := p.steps ++ [step], wild := true } after
  | c :: rest => read (position + 1) (some c) { p with steps := p.steps ++ [.char c] } rest
termination_by cs => cs.length

/-- Read a pattern. -/
def Pattern.ofString (s : String) : Except PatternError Pattern := read 0 none ⟨[], false, false⟩ s.toList

end Amend.Glob
