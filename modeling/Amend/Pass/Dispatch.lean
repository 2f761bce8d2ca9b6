import Amend.Pass.Walk

/-!
# Passes until nothing changes

A tree gets a single pass, or passes until one of them changes nothing, up to a limit.
Running into the limit while still changing leaves a warning.
-/

namespace Amend

/-- How many passes a tree gets. -/
inductive PassMode where
  | single
  /-- Until a pass changes nothing, at most so many. -/
  | converge (maxPasses : Nat)
deriving DecidableEq, Repr

namespace PassMode

/-- The greatest number of passes; there is always one. -/
def limit : PassMode → Nat
  | single => 1
  | converge maxPasses => max maxPasses 1

/-- Whether passes are repeated. -/
def repeats : PassMode → Bool
  | single => false
  | converge _ => true

end PassMode

/-- What the passes over a tree come to. -/
structure Outcome where
  tree : Node
  passes : Nat
  applications : List Application
  inquiries : List Inquiry
  log : List LogRecord
  activity : Activity

/-- The number of changes. -/
def Outcome.applied (o : Outcome) : Nat := o.applications.length

/-- Rules and the way they are applied. -/
structure Dispatcher where
  registry : Registry
  mode : PassMode := .single
  /-- How many levels below the height of a tree a pass may reach. -/
  spareLevels : Nat := 1000000

namespace Dispatcher

def nonConvergence (maxPasses changes : Nat) : LogRecord :=
  ⟨.warn, .dispatch,
    s!"Rewrite did not converge after {maxPasses} passes; last pass applied {changes} changes"⟩

/-- Up to `left` more passes, after `passes` have been made. -/
def repeatPasses (d : Dispatcher) (queries : Queries) :
    (left passes : Nat) → Node → Journal → Option (Nat × Node × Journal)
  | 0, passes, tree, j => some (passes, tree, j)
  | left + 1, passes, tree, j => do
    let (next, j') ← Pass.run d.registry queries (tree.height + d.spareLevels) tree j
    let changes := j'.applications.length - j.applications.length
    if changes = 0 then
      return (passes + 1, next, j')
    else if left = 0 ∧ d.mode.repeats then
      return (passes + 1, next, { j' with log := j'.log ++ [nonConvergence d.mode.limit changes] })
    else
      repeatPasses d queries left (passes + 1) next j'

/-- Apply the rules to a tree while `activity` is in hand.  There is no result when a pass
goes down without end. -/
def applyAll? (d : Dispatcher) (queries : Queries) (tree : Node) (activity : Activity) :
    Option Outcome := do
  let (passes, tree, j) ← d.repeatPasses queries d.mode.limit 0 tree { activity }
  return ⟨tree, passes, j.applications, j.inquiries, j.log, j.activity⟩

end Dispatcher

end Amend
