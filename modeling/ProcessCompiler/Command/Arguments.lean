/-!
# Command-line arguments

What the arguments of a run ask for. Options of the whole program may stand
before or behind the command; an option that is given in both places counts
as given behind it. Everything behind `--` is a file.
-/

namespace ProcessCompiler

namespace Command

/-- What a run is to do with a diagram. -/
inductive Task where
  | check (file : String)
  | compile (file : String) (output : Option String) (unchecked : Bool)
deriving DecidableEq, Repr

/-- The commands. -/
inductive Verb where
  | check
  | compile
deriving DecidableEq, Repr

/-- What a run is asked for. -/
structure Request where
  config : Option String
  strict : Bool
  task : Option Task
deriving DecidableEq, Repr

/-- Why a run does nothing but print a text, or nothing at all. -/
inductive Stop where
  /-- The arguments make no sense. -/
  | usage
  /-- Help with a command, or with all of them. -/
  | help (verb : Option Verb)
  | version
deriving DecidableEq, Repr

/-- The options that take a value. -/
inductive ValueOption where
  | config
  | output
deriving DecidableEq, Repr

/-- The options on one side of the command. -/
structure Shared where
  config : Option String
  strict : Bool
deriving DecidableEq, Repr

/-- What was read of the arguments. -/
structure Progress where
  /-- The options before the command. -/
  outer : Shared
  /-- The options behind the command. -/
  inner : Shared
  verb : Option Verb
  file : Option String
  output : Option String
  unchecked : Bool
deriving DecidableEq, Repr

namespace Progress

/-- Nothing read. -/
def start : Progress := ⟨⟨none, false⟩, ⟨none, false⟩, none, none, none, false⟩

/-- The options on the side where the arguments are read. -/
def shared (p : Progress) : Shared := if p.verb.isSome then p.inner else p.outer

/-- Change the options on the side where the arguments are read. -/
def withShared (p : Progress) (s : Shared) : Progress :=
  if p.verb.isSome then { p with inner := s } else { p with outer := s }

/-- Give an option its value, which must not be empty and the only one. -/
def setValue (p : Progress) (o : ValueOption) (value : String) : Except Stop Progress :=
  if value.isEmpty then .error .usage
  else
    match o with
    | .config =>
      if p.shared.config.isSome then .error .usage
      else .ok (p.withShared { p.shared with config := some value })
    | .output =>
      if p.output.isSome then .error .usage else .ok { p with output := some value }

/-- Set the flag for strictness, once. -/
def setStrict (p : Progress) : Except Stop Progress :=
  if p.shared.strict then .error .usage
  else .ok (p.withShared { p.shared with strict := true })

/-- Set the flag for no validation, once. -/
def setUnchecked (p : Progress) : Except Stop Progress :=
  if p.unchecked then .error .usage else .ok { p with unchecked := true }

/-- Give the command its file. -/
def setFile (p : Progress) (file : String) : Except Stop Progress :=
  if p.verb.isNone || p.file.isSome || file.isEmpty then .error .usage
  else .ok { p with file := some file }

/-- What the arguments ask for, once all are read. -/
def finish (p : Progress) : Except Stop Request := do
  let task ← match p.verb, p.file with
    | none, _ => .ok none
    | some _, none => .error .usage
    | some .check, some file => .ok (some (.check file))
    | some .compile, some file => .ok (some (.compile file p.output p.unchecked))
  return ⟨p.inner.config.or p.outer.config, p.inner.strict || p.outer.strict, task⟩

end Progress

/-- The command of a name. -/
def verb? (name : String) : Option Verb :=
  match name with
  | "check" => some .check
  | "compile" => some .compile
  | _ => none

/-- What the arguments behind `help` ask for. -/
def helpWith : List String → Stop
  | [] => .help none
  | ["help"] => .help none
  | [name] =>
    match verb? name with
    | some v => .help (some v)
    | none => .usage
  | _ => .usage

/-- The name and the value of a long option. -/
def splitLong (body : List Char) : String × Option String :=
  match body.dropWhile (· != '=') with
  | [] => (String.ofList body, none)
  | _ :: value => (String.ofList (body.takeWhile (· != '=')), some (String.ofList value))

/-- Read a long option. The option that waits for its value is given back
with what was read. -/
def long (p : Progress) (body : List Char) : Except Stop (Progress × Option ValueOption) :=
  match splitLong body with
  | ("config", some value) => (p.setValue .config value).map (·, none)
  | ("config", none) => .ok (p, some .config)
  | ("strict", none) => p.setStrict.map (·, none)
  | ("help", none) => .error (.help p.verb)
  | ("version", none) => .error (if p.verb.isNone then .version else .usage)
  | ("output", some value) =>
    if p.verb = some .compile then (p.setValue .output value).map (·, none) else .error .usage
  | ("output", none) => if p.verb = some .compile then .ok (p, some .output) else .error .usage
  | ("unchecked", none) =>
    if p.verb = some .compile then p.setUnchecked.map (·, none) else .error .usage
  | _ => .error .usage

/-- Read a short option. -/
def short (p : Progress) (name : Char) (body : List Char) :
    Except Stop (Progress × Option ValueOption) :=
  if name == 'h' then .error (.help p.verb)
  else if name == 'V' && p.verb.isNone then .error .version
  else if name == 'o' && p.verb == some .compile then
    match body with
    | [] => .ok (p, some .output)
    | '=' :: value => (p.setValue .output (String.ofList value)).map (·, none)
    | value => (p.setValue .output (String.ofList value)).map (·, none)
  else .error .usage

/-- Read arguments behind `--`. -/
def readFiles : Progress → List String → Except Stop Progress
  | p, [] => .ok p
  | p, a :: rest => do
    let p ← p.setFile a
    readFiles p rest

/-- Read arguments, given the option that waits for its value. -/
def readArguments : Progress → Option ValueOption → List String → Except Stop Progress
  | p, none, [] => .ok p
  | _, some _, [] => .error .usage
  | p, waiting, a :: rest =>
    match waiting, a.toList with
    | some _, '-' :: _ :: _ => .error .usage
    | some o, _ => do
      let p ← p.setValue o a
      readArguments p none rest
    | none, ['-', '-'] => readFiles p rest
    | none, '-' :: '-' :: body => do
      let (p, waiting) ← long p body
      readArguments p waiting rest
    | none, '-' :: name :: body => do
      let (p, waiting) ← short p name body
      readArguments p waiting rest
    | none, _ =>
      match p.verb, verb? a with
      | none, some v => readArguments { p with verb := some v } none rest
      | none, none => .error (if a == "help" then helpWith rest else .usage)
      | some _, _ => do
        let p ← p.setFile a
        readArguments p none rest

/-- What the arguments of a run ask for. -/
def Request.ofArguments (args : List String) : Except Stop Request := do
  let p ← readArguments .start none args
  p.finish

end Command

end ProcessCompiler
