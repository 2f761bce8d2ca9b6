import Amend.Command.Arguments
import Amend.Command.LogFilter
import Amend.Report.Json
import Amend.Report.Terminal
import Amend.Run
import Amend.Settings.Search

/-!
# Carrying out what the command line says

Whatever is asked for, the settings are loaded first, and what the command line says takes
their place.  A report is written to a file or to the standard output.  What was written
before something failed stays written.
-/

namespace Amend.Command

/-- What the program needs to know besides its command line. -/
structure Surroundings where
  grammar : Php.Grammar
  now : Moment
  /-- Whether the terminal shows colours. -/
  color : Bool := false

/-- What the program leaves behind when it ends. -/
structure Ending where
  disk : Disk
  /-- What has been written to the standard output. -/
  output : String := ""
  /-- What went wrong, outermost first; nothing if all went well. -/
  chain : List String := []

/-- The exit status. -/
def Ending.exitCode (e : Ending) : Nat := if e.chain = [] then 0 else 1

/-- End with a failure, in the context of something that was tried. -/
def failIn (d : Disk) (context : List String) (f : Failure) : Ending := { disk := d, chain := context ++ f.chain }

/-- A text with a line feed at its end. -/
def withLineFeed (s : String) : String := if s.toList.getLast? = some '\n' then s else s ++ "\n"

/-- Make the directory that a file is to be in. -/
def makeParent (d : Disk) (path : String) : Disk × Except Failure Unit :=
  match Path.parent? path with
  | none => (d, .ok ())
  | some parent =>
    match d.makeDirectories parent with
    | (d, .ok ()) => (d, .ok ())
    | (d, .error e) => (d, .error (.fileSystem "Failed to create directory" (some parent) (some e)))

/-- Write a text to a file, whose directory is made if it is missing. -/
def writeFile (d : Disk) (path content : String) : Disk × Except Failure Unit :=
  match makeParent d path with
  | (d, .error f) => (d, .error f)
  | (d, .ok ()) =>
    match d.create path with
    | .error e => (d, .error (.fileSystem "Failed to create output file" (some path) (some e)))
    | .ok (place, d) =>
      match d.fill place content with
      | .error e => (d, .error (.io e.message))
      | .ok d => (d, .ok ())

/-- Write a report to the standard output or to a file. -/
def emit (d : Disk) (content : String) : Option String → Ending
  | none => { disk := d, output := withLineFeed content }
  | some path =>
    match writeFile d path content with
    | (d, .ok ()) => { disk := d }
    | (d, .error f) => failIn d [] f

/-- The settings that the command line or the current directory leads to. -/
def loadSettings (d : Disk) : Option String → ExceptT Failure Logged Settings
  | some path => Settings.load d path
  | none => (Settings.findHere d : Logged Settings)

/-- Find files, change them and report on them. -/
def process (s : Surroundings) (d : Disk) (settings : Settings) (verbosity : Nat) (format : Format)
    (output : Option String) : OptionT Logged Ending := do
  match ← ((Catalog.registry settings.rules).run : Logged _) with
  | .error f => return failIn d ["Failed to build rule set"] f
  | .ok registry =>
    let told := settings.forRun
    let plan : Run.Plan := { grammar := s.grammar, registry, mode := told.mode, dryRun := told.dryRun }
    match ← (Run.run plan d told.query).run with
    | .error f => return failIn d ["Rewrite run failed"] f
    | .ok result =>
      let report : RunReport := ⟨s.now, told.dryRun, result.units⟩
      let content :=
        match format with
        | .terminal => Report.runText s.color verbosity report
        | .json => (Report.Json.ofRun report).render
      return emit result.disk content output

/-- List the files that would be processed. -/
def discover (s : Surroundings) (d : Disk) (settings : Settings) (format : Format) : Logged Ending := do
  let (found, _) ← Discovery.Finder.empty.resolve d settings.forRun.query
  match found with
  | .error f => return failIn d ["Discovery failed"] f
  | .ok paths =>
    let content :=
      match format with
      | .terminal => Report.pathsText s.color paths
      | .json => (Report.Json.ofPaths paths).render
    return emit d content none

/-- Describe the rules. -/
def describeRules (s : Surroundings) (d : Disk) (format : Format) : Ending :=
  let definitions := Catalog.full.definitions
  let content :=
    match format with
    | .terminal => Report.definitionsText s.color definitions
    | .json => (Report.Json.ofDefinitions definitions).render
  emit d content none

/-- Do what the command line says.  There is no ending when the rules go on without end. -/
def perform (s : Surroundings) (d : Disk) (invocation : Invocation) : OptionT Logged Ending := do
  match ← ((loadSettings d invocation.config).run : Logged _) with
  | .error f => return failIn d [] f
  | .ok settings =>
    match invocation.task with
    | .process discovery passes _ format output =>
      let settings := (settings.overrideDiscovery discovery).overridePasses passes
      process s d settings invocation.verbosity format output
    | .discover discovery format => discover s d (settings.overrideDiscovery discovery) format
    | .rules format => return describeRules s d format

/-- Lines after a mark, further lines below the first one. -/
def causeText (mark continued : String) (cause : String) : String :=
  mark ++ String.intercalate ("\n" ++ continued) (Text.splitOn '\n' cause)

/-- Causes, outermost first; more than one are numbered. -/
def causesText : List String → String
  | [] => ""
  | [cause] => "\n\nCaused by:\n" ++ causeText "    " "    " cause
  | causes =>
    "\n\nCaused by:" ++ String.join (causes.mapIdx fun i cause =>
      "\n" ++ causeText (Report.padLeft 5 (toString i) ++ ": ") "       " cause)

/-- What is said of what went wrong. -/
def failureText : List String → String
  | [] => ""
  | failure :: causes => "Error: " ++ failure ++ causesText causes ++ "\n"

/-- What a run of the program shows. -/
structure Transcript where
  exitCode : Nat
  output : String := ""
  errors : String := ""
  disk : Disk

/-- Run the program, with directives that say which log records are shown.  A run without end shows
nothing in the end. -/
def transcript? (s : Surroundings) (d : Disk) (directives : Option String) (args : List String) :
    Option Transcript :=
  match Invocation.ofArguments args with
  | .error fault => some { exitCode := fault.exitCode, disk := d }
  | .ok invocation =>
    let usual := LogFilter.ofVerbosity invocation.verbosity
    let (filter, warnings) := (directives.map usual.withDirectives).getD (usual, [])
    let ⟨ending?, log⟩ := (perform s d invocation).run
    ending?.map fun ending =>
      { exitCode := ending.exitCode
        output := ending.output
        errors := String.join (warnings.map (· ++ "\n"))
          ++ String.join ((log.filter filter.shows).map logLine) ++ failureText ending.chain
        disk := ending.disk }

end Amend.Command
