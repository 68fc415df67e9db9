import ProcessCompiler.Graph.Resolution
import ProcessCompiler.Program.Config
/-!
# Settings

What a run of the compiler can be told: how a diagram is resolved and what
the emitted program looks like.
-/

namespace ProcessCompiler

/-- How a diagram is resolved. -/
structure ResolveOptions where
  strictness : Strictness
deriving DecidableEq, Repr

/-- The options that hold if nothing else is said. -/
def ResolveOptions.default : ResolveOptions := ⟨.lenient⟩

/-- The settings of a run. -/
structure Settings where
  resolve : ResolveOptions
  emit : EmitConfig
deriving DecidableEq, Repr

/-- The settings that hold if nothing else is said. -/
def Settings.default : Settings := ⟨.default, .default⟩

end ProcessCompiler
