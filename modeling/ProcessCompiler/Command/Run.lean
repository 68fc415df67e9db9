import ProcessCompiler.Command.Arguments
import ProcessCompiler.Command.Files
import ProcessCompiler.Command.Report
import ProcessCompiler.Diagram.Reading
import ProcessCompiler.Program.Emission
import ProcessCompiler.Settings.Codec
import ProcessCompiler.Validation.Codec
/-!
# Runs

A run of the compiler: what it prints and reports, and the code it ends with.
-/

namespace ProcessCompiler

namespace Command

/-- What a run leaves behind, beside files. -/
structure Outcome where
  code : Nat
  out : String
  /-- What the run itself says of an error, behind its reports. -/
  err : String
  reports : List Report
deriving DecidableEq, Repr

namespace Outcome

/-- All that is seen on the stream of errors. -/
def stderr (o : Outcome) (c : Channel) : String := c.text o.reports ++ o.err

/-- The outcome of a run that reported something before. -/
def behind (o : Outcome) (reports : List Report) : Outcome :=
  { o with reports := reports ++ o.reports }

/-- Success with a text. -/
def success (out : String) : Outcome := ⟨0, out, "", []⟩

/-- The lines of a cause, with all but the first indented. -/
def continued (indent text : String) : String :=
  ("\n" ++ indent).intercalate (text.splitOn "\n")

/-- A cause among several, by its number. -/
def numbered (n : Nat) (cause : String) : String :=
  let digits := toString n
  String.ofList (List.replicate (5 - digits.length) ' ') ++ digits ++ ": " ++
    continued "       " cause

/-- The causes of a failure. -/
def causesText : List String → String
  | [] => ""
  | [cause] => "\n\nCaused by:\n    " ++ continued "    " cause
  | causes =>
    "\n\nCaused by:\n" ++
      "\n".intercalate ((List.range causes.length).zipWith numbered causes)

/-- A failure with its causes, from the outside in. -/
def failure (context : String) (causes : List String) : Outcome :=
  ⟨1, "", "Error: " ++ context ++ causesText causes ++ "\n", []⟩

end Outcome

/-- Lines of text. -/
def linesText (lines : List String) : String := String.join (lines.map (· ++ "\n"))

/-- The help on the option for the settings. -/
def configHelp : String := "      --config <CONFIG>  Path to a JSON compiler config file"

/-- The help on the option for strictness. -/
def strictHelp : String :=
  "      --strict           Reject dangling flows and missing annotations instead of dropping them"

/-- The help on the option for help. -/
def helpHelp : String := "  -h, --help             Print help"

/-- The help on all commands. -/
def generalHelp : String :=
  linesText [
    "Compiles BPMN process diagrams into orchestration programs",
    "",
    "Usage: sagaflow [OPTIONS] [COMMAND]",
    "",
    "Commands:",
    "  check    Validate a diagram and print the verdict as JSON",
    "  compile  Compile a diagram into an orchestration program",
    "  help     Print this message or the help of the given subcommand(s)",
    "",
    "Options:",
    configHelp,
    strictHelp,
    helpHelp,
    "  -V, --version          Print version"]

/-- The help on the file of a diagram. -/
def fileHelp : List String := ["Arguments:", "  <DIAGRAM_FILE>  Path to the BPMN diagram"]

/-- The help on a command. -/
def verbHelp : Verb → String
  | .check =>
    linesText (["Validate a diagram and print the verdict as JSON", "",
      "Usage: sagaflow check [OPTIONS] <DIAGRAM_FILE>", ""] ++ fileHelp ++
      ["", "Options:", configHelp, strictHelp, helpHelp])
  | .compile =>
    linesText (["Compile a diagram into an orchestration program", "",
      "Usage: sagaflow compile [OPTIONS] <DIAGRAM_FILE>", ""] ++ fileHelp ++
      ["", "Options:", configHelp,
        "  -o, --output <OUTPUT>  Write the program here instead of stdout", strictHelp,
        "      --unchecked        Skip validation and emit directly from the diagram", helpHelp])

/-- The outcome of a run that stops at its arguments. -/
def Stop.outcome : Stop → Outcome
  | .usage => ⟨2, "", "error: unexpected arguments\n\nFor more information, try '--help'.\n", []⟩
  | .help none => .success generalHelp
  | .help (some v) => .success (verbHelp v)
  | .version => .success "sagaflow 0.0.1-alpha.0\n"

/-- The text of a verdict, on lines of its own. -/
def verdictText (v : Verdict) : String := v.toJson.pretty ++ "\n"

variable {m : Type → Type} [Monad m]

/-- Read the settings of a run. -/
def loadSettings (files : FileAccess m) : Option String → m (Except Outcome Settings)
  | none => return .ok .default
  | some path => do
    match ← files.read path with
    | .error f => return .error (.failure ("failed to read config file: " ++ path) [f.message])
    | .ok content =>
      match Settings.ofJson content with
      | .error e => return .error (.failure ("failed to parse config file: " ++ path) [e.message])
      | .ok settings => return .ok settings

/-- Read the diagram of a run. -/
def loadDiagram (files : FileAccess m) (path : String) : m (Except Outcome Diagram) := do
  match ← files.read path with
  | .error f => return .error (.failure ("failed to read diagram file: " ++ path) [f.message])
  | .ok content =>
    match Diagram.ofMarkup content with
    | .error e => return .error (.failure ("failed to parse diagram file: " ++ path) e.chain)
    | .ok d => return .ok d

/-- Judge a diagram. -/
def check (settings : Settings) (d : Diagram) : Outcome :=
  let strictness := settings.resolve.strictness
  let v := d.verdict strictness
  ⟨if v.outcome then 0 else 1, verdictText v, "",
    .loaded d.nodeCount :: (d.verdictNotices strictness).map .notice⟩

/-- The program of a diagram, or the outcome of a run that has none. -/
def programOf (settings : Settings) (unchecked : Bool) (d : Diagram) : Except Outcome String := do
  let strictness := settings.resolve.strictness
  let program ←
    if unchecked then .ok (d.emitUnchecked strictness settings.emit)
    else
      match d.validate strictness with
      | .ok v => .ok (v.emit settings.emit)
      | .error r => .error ⟨1, "", verdictText ⟨false, some r.message⟩, []⟩
  if program.isEmpty then
    .error ⟨1, "", "Nothing emitted: the diagram needs exactly one start event\n", []⟩
  else return program

/-- What a run reports of a diagram up to its program. -/
def programReports (settings : Settings) (unchecked : Bool) (d : Diagram) : List Report :=
  let strictness := settings.resolve.strictness
  let notices :=
    if unchecked then d.emitUncheckedNotices strictness settings.emit
    else
      d.validateNotices strictness ++
        match d.validate strictness with
        | .ok v => v.emitNotices settings.emit
        | .error _ => []
  .loaded d.nodeCount :: notices.map .notice

/-- Give out a program. -/
def deliver (files : FileAccess m) (program : String) : Option String → m Outcome
  | none => return .success program
  | some path => do
    match ← files.write path program with
    | .ok _ => return (Outcome.success "").behind [.written path program.utf8ByteSize]
    | .error f => return .failure ("failed to write program: " ++ path) [f.message]

/-- Compile a diagram. -/
def compile (files : FileAccess m) (settings : Settings) (output : Option String)
    (unchecked : Bool) (d : Diagram) : m Outcome := do
  let reports := programReports settings unchecked d
  match programOf settings unchecked d with
  | .error o => return o.behind reports
  | .ok program => return (← deliver files program output).behind reports

/-- Do what a run is asked for. -/
def perform (files : FileAccess m) (request : Request) : m Outcome := do
  match ← loadSettings files request.config with
  | .error o => return o
  | .ok settings =>
    let settings :=
      if request.strict then { settings with resolve := ⟨.strict⟩ } else settings
    match request.task with
    | none => return .success "sagaflow - use --help to see available commands\n"
    | some (.check path) =>
      match ← loadDiagram files path with
      | .error o => return o
      | .ok d => return check settings d
    | some (.compile path output unchecked) =>
      match ← loadDiagram files path with
      | .error o => return o
      | .ok d => compile files settings output unchecked d

/-- A run with the given arguments. -/
def run (files : FileAccess m) (args : List String) : m Outcome :=
  match Request.ofArguments args with
  | .ok request => perform files request
  | .error stop => return stop.outcome

end Command

end ProcessCompiler
