import ProcessCompiler.Program.Emission
/-!
# Notices

What the compiler reports while it works, as data in the order of the
report. Every function that reports is a function of the same input as the
one that works, so the work itself is free of reports.
-/

namespace ProcessCompiler

open Grammar

/-- How much a notice matters. -/
inductive Level where
  | debug
  | warn
deriving DecidableEq, Repr

/-- A value that a notice carries. -/
inductive NoticeValue where
  | text (s : String)
  | number (n : Nat)
deriving DecidableEq, Repr

/-- The notices. -/
inductive Notice where
  /-- A lenient resolution passed over a fault. -/
  | dropped (f : Fault)
  | resolved (process : String) (nodes : Nat)
  | validated (nodes : Nat) (start : String)
  | rejected (reason : String)
  | emitting (entry : String) (procedures imports : Nat)
  /-- Nothing was emitted because the diagram does not resolve. -/
  | unresolved (f : Fault)
  /-- Nothing was emitted because of the number of start events. -/
  | startCount (count : Nat)
  | renamed (node procedure : String)
  /-- A task's text could not be searched for modules. -/
  | unread (e : SyntaxError)
deriving DecidableEq, Repr

namespace Notice

/-- How much a notice matters. -/
def level : Notice → Level
  | dropped _ | unresolved _ | startCount _ | renamed _ _ => .warn
  | resolved _ _ | validated _ _ | rejected _ | emitting _ _ _ | unread _ => .debug

/-- The wording of a notice. -/
def message : Notice → String
  | dropped _ => "dropping unresolved diagram reference"
  | resolved _ _ => "normalized diagram"
  | validated _ _ => "diagram validated"
  | rejected _ => "diagram rejected"
  | emitting _ _ _ => "emitting program"
  | unresolved _ => "diagram could not be normalized, nothing emitted"
  | startCount _ => "expected exactly one start event, nothing emitted"
  | renamed _ _ => "procedure name already taken, renamed"
  | unread _ => "skipping dependency discovery for unparseable expression"

/-- The values that a notice carries, by name. -/
def fields : Notice → List (String × NoticeValue)
  | dropped f | unresolved f => [("error", .text f.message)]
  | resolved process nodes => [("process_id", .text process), ("nodes", .number nodes)]
  | validated nodes start => [("nodes", .number nodes), ("start", .text start)]
  | rejected reason => [("reason", .text reason)]
  | emitting entry procedures imports =>
    [("entry", .text entry), ("procedures", .number procedures), ("imports", .number imports)]
  | startCount count => [("count", .number count)]
  | renamed node procedure => [("node_id", .text node), ("procedure", .text procedure)]
  | unread e => [("error", .text e.message)]

end Notice

/-- The notices of a search for modules. -/
def moduleNotices (h : Harness) (text : String) : List Notice :=
  match referencedModules h text with
  | .ok _ => []
  | .error e => [.unread e]

/-- The notices of a lowering. -/
def Graph.lowerNotices (g : Graph) (config : EmitConfig) : List Notice :=
  let table := Names.tableOf config.entryName g.toList
  (table.renamed g.toList).map (fun (node, name) => .renamed node name) ++
    (Lowering.unreadTexts g.toList).map .unread

/-- The notices of an emission. -/
def Validated.emitNotices (v : Validated) (config : EmitConfig) : List Notice :=
  let p := v.graph.lower v.start config
  v.graph.lowerNotices config ++ [.emitting p.entry p.procedures.length p.imports.length]

namespace Diagram

/-- The notices of a resolution. -/
def resolveNotices (s : Strictness) (d : Diagram) : List Notice :=
  match d.resolve s with
  | .ok (g, faults) => faults.map .dropped ++ [.resolved (d.id.getD "") g.size]
  | .error _ => []

/-- The notices of a validation. -/
def validateNotices (s : Strictness) (d : Diagram) : List Notice :=
  d.resolveNotices s ++
    match d.validate s with
    | .ok v => [.validated v.graph.size v.start.id]
    | .error _ => []

/-- The notices of a verdict. -/
def verdictNotices (s : Strictness) (d : Diagram) : List Notice :=
  d.validateNotices s ++ ((d.verdict s).reason.map .rejected).toList

/-- The notices of an emission without validation. -/
def emitUncheckedNotices (s : Strictness) (config : EmitConfig) (d : Diagram) : List Notice :=
  d.resolveNotices s ++
    match d.graph s with
    | .error f => [.unresolved f]
    | .ok g =>
      match g.startEvents with
      | [_] => g.lowerNotices config
      | starts => [.startCount starts.length]

end Diagram

end ProcessCompiler
