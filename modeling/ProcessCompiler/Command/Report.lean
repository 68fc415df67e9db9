import ProcessCompiler.Notice
/-!
# Reports

What a run of the command line reports while it works: the notices of the
compiler, and what the run itself does with files. The reports go to the
stream of errors, in front of what the run has to say there. A channel says
which of them are shown and how a line of them is written; without further
notice the warnings are shown.
-/

namespace ProcessCompiler

namespace Command

/-- What a run reports. -/
inductive Report where
  /-- A diagram with so many nodes was read. -/
  | loaded (nodes : Nat)
  | notice (n : Notice)
  /-- A program of so many bytes was written to a file. -/
  | written (path : String) (bytes : Nat)
deriving DecidableEq, Repr

namespace Report

/-- Whether a report is a warning. -/
def warns : Report → Bool
  | notice n => n.level = .warn
  | loaded _ | written _ _ => false

/-- The wording of a report. -/
def message : Report → String
  | loaded _ => "diagram loaded"
  | notice n => n.message
  | written _ _ => "program written"

/-- The values that a report carries, by name. -/
def fields : Report → List (String × NoticeValue)
  | loaded nodes => [("nodes", .number nodes)]
  | notice n => n.fields
  | written path bytes => [("path", .text path), ("bytes", .number bytes)]

/-- A report in one line. -/
def text (r : Report) : String :=
  let value : NoticeValue → String
    | .text s => s
    | .number n => toString n
  r.message ++ String.join (r.fields.map fun (name, v) => " " ++ name ++ "=" ++ value v)

end Report

/-- A channel for reports: which of them are shown, and how each is written.
The number of a line stands for the time at which it is written. -/
structure Channel where
  shows : Report → Bool
  line : Nat → Report → String

namespace Channel

/-- What is seen of some reports. -/
def text (c : Channel) (reports : List Report) : String :=
  String.join ((reports.filter c.shows).mapIdx c.line)

/-- The channel that shows the warnings. -/
def warnings (line : Nat → Report → String) : Channel := ⟨Report.warns, line⟩

/-- The channel that shows the warnings, each in a line of its own. -/
def plain : Channel := warnings fun _ r => " WARN " ++ r.text ++ "\n"

end Channel

end Command

end ProcessCompiler
