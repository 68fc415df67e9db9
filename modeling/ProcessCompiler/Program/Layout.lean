import ProcessCompiler.Program.Basic
import ProcessCompiler.Program.Config
import ProcessCompiler.Program.Names
import ProcessCompiler.Text.Quoted
/-!
# Layout

The text of a program. A procedure is a function whose body is the code of
its action followed by that of its continuation, indented by two steps.
-/

namespace ProcessCompiler

open Text

namespace Layout

/-- One step of indentation. -/
def step : String := "    "

/-- The opening brace. -/
def openBrace : String := "\x7b"

/-- The closing brace. -/
def closeBrace : String := "\x7d"

/-- A line of indented code; a blank line loses its blanks. -/
def indentLine (line : List Char) : List Char :=
  if (trim line).isEmpty then ['\n'] else step.toList ++ line ++ ['\n']

/-- Code one step further to the right. -/
def indent (code : String) : String :=
  String.ofList ((lines code.toList).flatMap indentLine)

/-- A script that other statements can follow. -/
def asStatement (script : String) : String :=
  let s := trimEnd script.toList
  match s.getLast? with
  | some c => String.ofList s ++ if c == ';' || c == '\x7d' then "\n" else ";\n"
  | none => ";\n"

/-- Leave a procedure for another one, or end its branch. -/
def exit : Option String → String
  | some target => "return " ++ target ++ "(context).await;"
  | none => "return Ok(());"

/-- The context that a forked branch is given. -/
def branchContext : ContextSharing → String
  | .shared => "context.clone()"
  | .isolated => "context.fork()"

/-- The code of a continuation. -/
def continuation (sharing : ContextSharing) : Continuation → String
  | .halt => "Ok(())\n"
  | .next target => target ++ "(context).await\n"
  | .fork targets =>
    String.join (targets.map fun t => "spawn(" ++ t ++ "(" ++ branchContext sharing ++ "));\n") ++
      "Ok(())\n"

/-- A function with the given parameters and body. -/
def function (name params body : String) : String :=
  "fn " ++ name ++ "(" ++ params ++ ") -> BoxStep " ++ openBrace ++ "\n" ++
  step ++ "Box::pin(async move " ++ openBrace ++ "\n" ++
  indent (indent body) ++
  step ++ closeBrace ++ ")\n" ++
  closeBrace ++ "\n"

/-- The code of a prelude. -/
def preludeCode : Option String → String
  | some p => asStatement p
  | none => ""

/-- The code that keeps a value in the context. -/
def store (key value : String) : String := "context.set(" ++ quoted key ++ ", " ++ value ++ ")"

/-- The code of an action that its procedure runs itself. -/
def action (kind : ElementKind) (nodeId : String) : Action → String
  | .guard condition otherwise =>
    "if !(" ++ condition ++ ") " ++ openBrace ++ "\n" ++
    step ++ exit otherwise ++ "\n" ++
    closeBrace ++ "\n"
  | .invoke p expression key none =>
    preludeCode p ++ store key ("(" ++ expression ++ ").await?") ++ ";\n"
  | .invoke p expression key (some route) =>
    preludeCode p ++
    "match (" ++ expression ++ ").await " ++ openBrace ++ "\n" ++
    step ++ "Ok(value) => " ++ store key "value" ++ ",\n" ++
    step ++ "Err(error) => " ++ openBrace ++ "\n" ++
    step ++ step ++ store key "error" ++ ";\n" ++
    step ++ step ++ exit (some route) ++ "\n" ++
    step ++ closeBrace ++ "\n" ++
    closeBrace ++ "\n"
  | .run script _ none => asStatement script
  | .run script key (some route) =>
    "let outcome: Result<_, Error> = (|| Ok(" ++ openBrace ++ "\n" ++
    indent (asStatement script) ++
    closeBrace ++ "))();\n" ++
    "if let Err(error) = outcome " ++ openBrace ++ "\n" ++
    step ++ store key "error" ++ ";\n" ++
    step ++ exit (some route) ++ "\n" ++
    closeBrace ++ "\n"
  | .subscribe _ _ => ""
  | .emit expression => "put(" ++ expression ++ ").await?;\n"
  | .unimplemented => "// unimplemented: " ++ kind.text ++ " " ++ nodeId ++ "\n"

/-- The parameters of a procedure. -/
def procedureParams : String := "context: Context"

/-- The parameters of a message start's handler. -/
def handlerParams : String := "context: Context, action: Action"

/-- The code of a procedure. A message start has a handler behind it, which
goes on in its stead. -/
def procedure (sharing : ContextSharing) (p : Procedure) : String :=
  match p.action with
  | .subscribe tag key =>
    let handler := Names.forkHandlerName p.name
    function p.name procedureParams
      ("take_every(" ++ quoted tag ++ ", context, " ++ handler ++ ").await\n") ++ "\n" ++
    function handler handlerParams
      (store key "action" ++ ";\n" ++ continuation sharing p.then_)
  | a =>
    function p.name procedureParams (action p.kind p.nodeId a ++ continuation sharing p.then_)

/-- The effects that a program imports. -/
def effects : List String := ["call", "put", "spawn", "take_every"]

/-- The lines before the procedures. -/
def header (config : EmitConfig) (imports : List String) : String :=
  "// Generated by sagaflow. Do not edit.\n" ++
  "#![allow(non_snake_case, unused_imports, unused_mut, unreachable_code)]\n\n" ++
  "use " ++ config.runtimeCrate ++ "::effects::" ++ openBrace ++ ", ".intercalate effects ++
    closeBrace ++ ";\n" ++
  "use " ++ config.runtimeCrate ++ "::" ++ openBrace ++ "Action, BoxStep, Context, Error" ++
    closeBrace ++ ";\n" ++
  "use reqwest as http;\n" ++
  String.join (imports.map fun m => "use " ++ config.apiRoot ++ "::" ++ m ++ ";\n")

/-- The entry procedure. -/
def entry (config : EmitConfig) (target : String) : String :=
  "\npub fn " ++ config.entryName ++ "() -> BoxStep " ++ openBrace ++ "\n" ++
  step ++ target ++ "(Context::default())\n" ++
  closeBrace ++ "\n"

end Layout

namespace Program

/-- The text of a program. -/
def render (p : Program) (config : EmitConfig) : String :=
  Layout.header config p.imports ++ Layout.entry config p.entry ++
  String.join (p.procedures.map fun q => "\n" ++ Layout.procedure config.context q)

end Program

end ProcessCompiler
