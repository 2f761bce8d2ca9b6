import Amend.Settings.Overrides

/-!
# The command line

The arguments name a subcommand, with options of the program before it and options of the
subcommand and paths after it.  The options `--verbose` and `--config` may stand on either
side; what stands after the subcommand counts.

`Invocation.ofArguments` reads the arguments from left to right.  An option that takes a
value is kept open until the next argument that is not its value, and only then is the value
looked at, so that a fault to the right of it may be found first.
-/

namespace Amend.Command

/-- In which form a report is written. -/
inductive Format where
  | terminal
  | json
deriving DecidableEq, Repr

/-- What the program is asked to do. -/
inductive Task where
  | process (discovery : DiscoveryOverrides) (passes : PassOverrides) (jobs : Nat) (format : Format)
      (output : Option String)
  | discover (discovery : DiscoveryOverrides) (format : Format)
  | rules (format : Format)
deriving DecidableEq, Repr

/-- What the command line says. -/
structure Invocation where
  verbosity : Nat
  config : Option String
  task : Task
deriving DecidableEq, Repr

/-- Why the command line asks for nothing that could be done, or asks for information only. -/
inductive ArgumentFault where
  | unknownArgument
  /-- A value is missing, or is none of those that are allowed. -/
  | invalidValue
  /-- A value is no number. -/
  | valueValidation
  /-- An option is given twice. -/
  | argumentConflict
  /-- An option is given a value that takes none. -/
  | tooManyValues
  | missingSubcommand
  /-- There are no arguments at all. -/
  | nothingGiven
  | invalidSubcommand
  /-- Help is asked for. -/
  | help
  /-- The version is asked for. -/
  | version
deriving DecidableEq, Repr

/-- The exit status that a fault leads to. -/
def ArgumentFault.exitCode : ArgumentFault → Nat
  | help => 0
  | version => 0
  | _ => 2

/-- The subcommands. -/
inductive Verb where
  | process
  | discover
  | rules
deriving DecidableEq, Repr

def Verb.ofString? : String → Option Verb
  | "process" => some .process
  | "discover" => some .discover
  | "rules" => some .rules
  | _ => none

/-- The options, of the program and of its subcommands. -/
inductive Flag where
  | verbose
  | config
  | help
  | version
  | suffix
  | exclude
  | dryRun
  | converge
  | maxPasses
  | rules
  | jobs
  | format
  | output
deriving DecidableEq, Repr

namespace Flag

/-- Whether an option takes a value. -/
def takesValue : Flag → Bool
  | verbose => false
  | help => false
  | version => false
  | dryRun => false
  | converge => false
  | _ => true

/-- The options that may stand in front of the subcommand, or after a subcommand. -/
def allowed : Option Verb → List Flag
  | none => [verbose, config, help, version]
  | some .process =>
    [verbose, config, help, suffix, exclude, dryRun, converge, maxPasses, rules, jobs, format, output]
  | some .discover => [verbose, config, help, suffix, exclude, format]
  | some .rules => [verbose, config, help, format]

def name : Flag → String
  | verbose => "verbose"
  | config => "config"
  | help => "help"
  | version => "version"
  | suffix => "suffix"
  | exclude => "exclude"
  | dryRun => "dry-run"
  | converge => "converge"
  | maxPasses => "max-passes"
  | rules => "rules"
  | jobs => "jobs"
  | format => "format"
  | output => "output"

/-- The one letter that stands for an option. -/
def letter? : Flag → Option Char
  | verbose => some 'v'
  | help => some 'h'
  | version => some 'V'
  | jobs => some 'j'
  | output => some 'o'
  | _ => none

end Flag

/-- What has been given on one side of the subcommand. -/
structure Given where
  verbosity : Nat := 0
  config : Option String := none
  discovery : DiscoveryOverrides := {}
  passes : PassOverrides := {}
  jobs : Option Nat := none
  format : Option Format := none
  output : Option String := none
deriving DecidableEq, Repr

/-- Read a number that a machine word holds; there may be a plus in front of it. -/
def readNumber (s : String) : Except ArgumentFault Nat :=
  let digits : List Char :=
    match s.toList with
    | '+' :: rest => rest
    | cs => cs
  let n : Nat := digits.foldl (fun n c => 10 * n + (c.toNat - 48)) 0
  if digits ≠ [] ∧ digits.all Char.isDigit ∧ n < wordLimit then .ok n else .error .valueValidation

/-- Read a path; the empty text is none. -/
def readPath (s : String) : Except ArgumentFault String :=
  if s = "" then .error .invalidValue else .ok s

def readFormat : String → Except ArgumentFault Format
  | "terminal" => .ok .terminal
  | "json" => .ok .json
  | _ => .error .invalidValue

/-- Set what has not been set before. -/
def setOnce {α : Type} (before : Option α) (value : Except ArgumentFault α) : Except ArgumentFault (Option α) :=
  match before with
  | some _ => .error .argumentConflict
  | none => value.map some

namespace Given

/-- Take an option with its value. -/
def withValue (g : Given) (flag : Flag) (value : String) : Except ArgumentFault Given :=
  match flag with
  | .config => return { g with config := ← setOnce g.config (readPath value) }
  | .suffix =>
    return { g with discovery := { g.discovery with suffixes := g.discovery.suffixes ++ [value] } }
  | .exclude =>
    return { g with discovery := { g.discovery with excludes := g.discovery.excludes ++ [value] } }
  | .maxPasses =>
    return { g with passes := { g.passes with maxPasses := ← setOnce g.passes.maxPasses (readNumber value) } }
  | .rules =>
    return { g with
      passes := { g.passes with rules := some (g.passes.rules.getD [] ++ Text.splitOn ',' value) } }
  | .jobs => return { g with jobs := ← setOnce g.jobs (readNumber value) }
  | .format => return { g with format := ← setOnce g.format (readFormat value) }
  | .output => return { g with output := ← setOnce g.output (readPath value) }
  | _ => .error .tooManyValues

/-- The greatest count of `--verbose`. -/
def verbosityLimit : Nat := 255

/-- Take an option without a value. -/
def withFlag (g : Given) (flag : Flag) : Except ArgumentFault Given :=
  match flag with
  | .verbose => .ok { g with verbosity := min (g.verbosity + 1) verbosityLimit }
  | .help => .error .help
  | .version => .error .version
  | .dryRun =>
    if g.passes.dryRun then .error .argumentConflict
    else .ok { g with passes := { g.passes with dryRun := true } }
  | .converge =>
    if g.passes.converge then .error .argumentConflict
    else .ok { g with passes := { g.passes with converge := true } }
  | _ => .error .invalidValue

/-- Take a path. -/
def withPath (g : Given) (path : String) : Given :=
  { g with discovery := { g.discovery with paths := g.discovery.paths ++ [path] } }

end Given

/-- How far reading has come: what has been given, and an option that is still open, with its
value once that has been met. -/
structure Reading where
  given : Given := {}
  pending : Option (Flag × Option String) := none
deriving DecidableEq, Repr

namespace Reading

/-- Whether the next argument may be the value of an open option. -/
def awaits (r : Reading) : Option Flag :=
  match r.pending with
  | some (flag, none) => some flag
  | _ => none

/-- Close the open option. -/
def settle (r : Reading) : Except ArgumentFault Given :=
  match r.pending with
  | none => .ok r.given
  | some (_, none) => .error .invalidValue
  | some (flag, some value) => r.given.withValue flag value

/-- Meet an option, with the value that is attached to it if there is one. -/
def meet (r : Reading) (flag : Flag) (attached : Option String) : Except ArgumentFault Reading := do
  match attached with
  | some value =>
    if flag.takesValue then return { given := ← (← r.settle).withValue flag value }
    else throw .tooManyValues
  | none =>
    let given ← r.settle
    if flag.takesValue then return { given, pending := some (flag, none) }
    else return { given := ← given.withFlag flag }

/-- Meet an option that is written out, such as `--name` or `--name=value`. -/
def meetLong (r : Reading) (scope : Option Verb) (body : String) : Except ArgumentFault Reading :=
  let (name, attached) :=
    match Text.splitFirst? '=' body with
    | some (name, value) => (name, some value)
    | none => (body, none)
  match (Flag.allowed scope).find? (·.name == name) with
  | none => .error .unknownArgument
  | some flag => r.meet flag attached

/-- Meet options that are written as letters; the first one that takes a value has what
follows it attached, less an equals sign. -/
def meetLetters (r : Reading) (scope : Option Verb) : List Char → Except ArgumentFault Reading
  | [] => .ok r
  | c :: cs =>
    match (Flag.allowed scope).find? (·.letter? == some c) with
    | none => .error .unknownArgument
    | some flag =>
      if flag.takesValue then
        match cs with
        | [] => r.meet flag none
        | '=' :: value => r.meet flag (some (String.ofList value))
        | value => r.meet flag (some (String.ofList value))
      else
        match r.meet flag none with
        | .error e => .error e
        | .ok r => meetLetters r scope cs

/-- Meet an argument that is neither an option nor the value of one. -/
def meetPlain (r : Reading) (scope : Option Verb) (trailing : Bool) (arg : String) :
    Except ArgumentFault Reading :=
  match scope with
  | none =>
    if trailing ∧ ((Verb.ofString? arg).isSome ∨ arg = "help") then .error .unknownArgument
    else .error .invalidSubcommand
  | some .rules => .error .unknownArgument
  | some _ => do return { given := (← r.settle).withPath arg }

/-- What to show help on: nothing, or one of the subcommands. -/
def helpFault : List String → ArgumentFault
  | [] => .help
  | [topic] => if (Verb.ofString? topic).isSome ∨ topic = "help" then .help else .invalidSubcommand
  | _ => .invalidSubcommand

/-- Read arguments, in front of the subcommand up to the subcommand and after it up to the
end.  After `--` no argument is an option. -/
def read (scope : Option Verb) (r : Reading) (trailing : Bool) :
    List String → Except ArgumentFault (Reading × Option (Verb × List String))
  | [] => .ok (r, none)
  | arg :: rest => do
    if trailing then
      read scope (← r.meetPlain scope trailing arg) true rest
    else if scope = none ∧ r.awaits = none ∧ arg = "help" then
      throw (helpFault rest)
    else
      match if scope = none ∧ r.awaits = none then Verb.ofString? arg else none with
      | some verb => return (r, some (verb, rest))
      | none =>
        match arg.toList with
        | ['-', '-'] => read scope r true rest
        | '-' :: '-' :: body => read scope (← r.meetLong scope (String.ofList body)) false rest
        | '-' :: c :: letters => read scope (← r.meetLetters scope (c :: letters)) false rest
        | _ =>
          match r.awaits with
          | some flag => read scope { r with pending := some (flag, some arg) } false rest
          | none => read scope (← r.meetPlain scope trailing arg) false rest

end Reading

/-- What a subcommand is asked to do. -/
def Given.task (g : Given) : Verb → Task
  | .process => .process g.discovery g.passes (g.jobs.getD 0) (g.format.getD .terminal) g.output
  | .discover => .discover g.discovery (g.format.getD .terminal)
  | .rules => .rules (g.format.getD .terminal)

/-- Read the command line. -/
def Invocation.ofArguments (args : List String) : Except ArgumentFault Invocation := do
  let (before, found) ← Reading.read none {} false args
  match found with
  | none =>
    let given ← before.settle
    if given.verbosity = 0 ∧ given.config = none then throw .nothingGiven else throw .missingSubcommand
  | some (verb, rest) =>
    let (after, _) ← Reading.read (some verb) {} false rest
    let after ← after.settle
    let before ← before.settle
    return {
      verbosity := if after.verbosity = 0 then before.verbosity else after.verbosity
      config := after.config <|> before.config
      task := after.task verb }

end Amend.Command
