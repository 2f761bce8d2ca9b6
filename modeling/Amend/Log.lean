/-!
# Log records

A computation that may leave log records is a value of `Logged`: its result together
with the records it left, oldest first.  Nothing is printed; whoever runs the program
decides which records are shown and in which form.  A computation that may go on without end
is a value of `OptionT Logged`, and then it has no result.
-/

namespace Amend

/-- Severity of a record, gravest first. -/
inductive Level where
  | error
  | warn
  | info
  | debug
  | trace
deriving DecidableEq, Repr

namespace Level

/-- Place of a level in the order of gravity, from `1` for errors. -/
def rank : Level → Nat
  | error => 1
  | warn => 2
  | info => 3
  | debug => 4
  | trace => 5

/-- The name of a level as it is written in front of a record. -/
def label : Level → String
  | error => "ERROR"
  | warn => "WARN"
  | info => "INFO"
  | debug => "DEBUG"
  | trace => "TRACE"

end Level

/-- The part of the program that a record speaks for. -/
inductive Topic where
  | dispatch
  | index
  | catalog
  | discovery
  | exclusion
  | settings
  | run
deriving DecidableEq, Repr

/-- The name of a topic as the program writes it. -/
def Topic.label : Topic → String
  | dispatch => "refit::dispatch"
  | index => "refit::index"
  | catalog => "refit::rules::catalog"
  | discovery => "refit::discovery"
  | exclusion => "refit::discovery::exclude"
  | settings => "refit::config::loader"
  | run => "refit::pipeline"

/-- One log record. -/
structure LogRecord where
  level : Level
  topic : Topic
  text : String
deriving DecidableEq, Repr

/-- A result with the records left on the way to it, oldest first. -/
structure Logged (α : Type) where
  value : α
  log : List LogRecord := []

namespace Logged

variable {α β : Type}

/-- A result that leaves no record. -/
protected def pure (a : α) : Logged α := ⟨a, []⟩

/-- The second computation's records follow the first one's. -/
protected def bind (x : Logged α) (f : α → Logged β) : Logged β :=
  ⟨(f x.value).value, x.log ++ (f x.value).log⟩

instance : Monad Logged where
  pure := Logged.pure
  bind := Logged.bind

/-- Leave one record. -/
def write (level : Level) (topic : Topic) (text : String) : Logged Unit :=
  ⟨(), [⟨level, topic, text⟩]⟩

@[ext]
theorem ext {x y : Logged α} (hv : x.value = y.value) (hl : x.log = y.log) :
  x = y
  := by
  cases x
  cases y
  simp_all

@[simp]
theorem value_pure (a : α) :
  (pure a : Logged α).value = a
  := rfl

@[simp]
theorem log_pure (a : α) :
  (pure a : Logged α).log = []
  := rfl

@[simp]
theorem value_bind (x : Logged α) (f : α → Logged β) :
  (x >>= f).value = (f x.value).value
  := rfl

@[simp]
theorem log_bind (x : Logged α) (f : α → Logged β) :
  (x >>= f).log = x.log ++ (f x.value).log
  := rfl

@[simp]
theorem value_map (g : α → β) (x : Logged α) :
  (g <$> x).value = g x.value
  := rfl

@[simp]
theorem log_map (g : α → β) (x : Logged α) :
  (g <$> x).log = x.log
  := by
  show x.log ++ [] = x.log
  simp

instance : LawfulMonad Logged := LawfulMonad.mk' Logged
  (fun x => by apply ext <;> simp)
  (fun _ _ => by apply ext <;> simp)
  (fun _ _ _ => by apply ext <;> simp)

/-! ### Computations that may have no result -/

@[simp]
theorem value_run_pure (a : α) :
  (pure a : OptionT Logged α).run.value = some a
  := rfl

@[simp]
theorem value_run_lift (x : Logged α) :
  (liftM x : OptionT Logged α).run.value = some x.value
  := rfl

/-- A computation goes on when the one before it has a result. -/
@[simp]
theorem value_run_bind (x : OptionT Logged α) (f : α → OptionT Logged β) :
  (x >>= f).run.value = x.run.value.bind fun a => (f a).run.value
  := by
  rw [OptionT.run_bind, Option.elimM, value_bind]
  cases x.run.value <;> rfl

end Logged

end Amend
