/-!
# Emission options
-/

namespace ProcessCompiler

/-- What forked branches share. -/
inductive ContextSharing where
  /-- All branches write to one context. -/
  | shared
  /-- Every branch has a copy of the context as it was at the fork. -/
  | isolated
deriving DecidableEq, Repr

/-- The options of the emitted program. -/
structure EmitConfig where
  /-- The path of the runtime that the program imports. -/
  runtimeCrate : String
  /-- The path that modules are imported from. -/
  apiRoot : String
  /-- The name of the entry procedure. -/
  entryName : String
  /-- Import a module once, however often it is used. -/
  dedupeImports : Bool
  context : ContextSharing
deriving DecidableEq, Repr

namespace EmitConfig

/-- The options that hold if nothing else is said. -/
def default : EmitConfig where
  runtimeCrate := "sagaflow_runtime"
  apiRoot := "crate::apis"
  entryName := "saga"
  dedupeImports := true
  context := .shared

end EmitConfig

end ProcessCompiler
