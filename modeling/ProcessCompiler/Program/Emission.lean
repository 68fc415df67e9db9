import ProcessCompiler.Program.Layout
import ProcessCompiler.Program.Lowering
import ProcessCompiler.Validation.Basic
/-!
# Emission

The text of a diagram's program, from a graph that was accepted or from the
diagram itself.
-/

namespace ProcessCompiler

/-- The text of an accepted graph's program. -/
def Validated.emit (v : Validated) (config : EmitConfig) : String :=
  (v.graph.lower v.start config).render config

/-- The text of a diagram's program without validation. It is empty if the
diagram does not resolve or has no single start event. -/
def Diagram.emitUnchecked (s : Strictness) (config : EmitConfig) (d : Diagram) : String :=
  match d.graph s with
  | .error _ => ""
  | .ok g =>
    match g.startEvents with
    | [start] => (g.lower start config).render config
    | _ => ""

end ProcessCompiler
