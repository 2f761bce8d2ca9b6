import Amend.Word

/-!
# What the program is doing

`Activity` records the phase of a run, the file and the rule in hand, for the report that
is written should the program crash.  Entering a phase, a file or a rule hands out a guard;
releasing the guard puts back what was there before.  Phase and file are put back together,
the rule on its own.
-/

namespace Amend

/-- The stages of a run, in order. -/
inductive Phase where
  | discovery
  | parsing
  | indexing
  | amending
  | writeBack
deriving DecidableEq, Repr

def Phase.label : Phase → String
  | discovery => "discovery"
  | parsing => "parsing"
  | indexing => "indexing"
  | amending => "rewriting"
  | writeBack => "write_back"

/-- The phase and the file in hand. -/
structure Station where
  phase : Option Phase := none
  file : Option String := none
deriving DecidableEq, Repr

/-- What is in hand: phase and file, and the rule being asked. -/
structure Activity where
  station : Station := {}
  rule : Option String := none
deriving DecidableEq, Repr

/-- What a guard puts back when it is released. -/
inductive Guard where
  | station (previous : Station)
  | rule (previous : Option String)
deriving DecidableEq, Repr

namespace Activity

/-- Nothing in hand. -/
def idle : Activity := {}

def enterPhase (a : Activity) (phase : Phase) : Guard × Activity :=
  (.station a.station, { a with station := { a.station with phase := some phase } })

def enterFile (a : Activity) (file : String) : Guard × Activity :=
  (.station a.station, { a with station := { a.station with file := some file } })

def enterRule (a : Activity) (rule : String) : Guard × Activity :=
  (.rule a.rule, { a with rule := some rule })

/-- Put back what a guard has kept. -/
def release (a : Activity) : Guard → Activity
  | .station previous => { a with station := previous }
  | .rule previous => { a with rule := previous }

end Activity

/-- How many units are done, of how many.  The counters are machine words and wrap around. -/
structure Progress where
  processed : Nat := 0
  total : Nat := 0
deriving DecidableEq, Repr

/-- One more unit is done. -/
def Progress.increment (p : Progress) : Progress :=
  { p with processed := wrapped (p.processed + 1) }

end Amend
