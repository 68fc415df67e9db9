import ProcessCompiler.Json.Record
import ProcessCompiler.Json.Value
import ProcessCompiler.Settings.Basic
/-!
# Settings as JSON

What is written is read back as it was. Settings may lack any field, which
then keeps its default.
-/

namespace ProcessCompiler

open Json

namespace ContextSharing

/-- The names of the choices. -/
def names : List (String × ContextSharing) := [("shared", shared), ("isolated", isolated)]

/-- The name of a choice. -/
def text : ContextSharing → String
  | shared => "shared"
  | isolated => "isolated"

end ContextSharing

namespace Strictness

/-- The names of the choices. -/
def names : List (String × Strictness) := [("lenient", lenient), ("strict", strict)]

/-- The name of a choice. -/
def text : Strictness → String
  | lenient => "lenient"
  | strict => "strict"

end Strictness

namespace EmitConfig

/-- The fields of the options, all of which may be left out. -/
def shape : RecordShape EmitConfig where
  name := "struct EmitConfig"
  blank := EmitConfig.default
  members := [
    ⟨"runtime_crate", true, true, fun c => do return { c with runtimeCrate := ← readText }⟩,
    ⟨"api_root", true, true, fun c => do return { c with apiRoot := ← readText }⟩,
    ⟨"entry_name", true, true, fun c => do return { c with entryName := ← readText }⟩,
    ⟨"dedupe_imports", true, true, fun c => do return { c with dedupeImports := ← readFlag }⟩,
    ⟨"context", true, true, fun c => do return { c with context := ← nameOf ContextSharing.names }⟩]

/-- Read options. -/
def ofJson (s : String) : Except JsonError EmitConfig := readAll (readRecord shape) s

/-- The options as JSON. -/
def toJson (c : EmitConfig) : Json :=
  .object [("runtime_crate", .text c.runtimeCrate), ("api_root", .text c.apiRoot),
    ("entry_name", .text c.entryName), ("dedupe_imports", .flag c.dedupeImports),
    ("context", .text c.context.text)]

end EmitConfig

namespace ResolveOptions

/-- The fields of the options, all of which may be left out. -/
def shape : RecordShape ResolveOptions where
  name := "struct ResolveOptions"
  blank := ResolveOptions.default
  members := [⟨"strictness", true, true, fun _ => do return ⟨← nameOf Strictness.names⟩⟩]

/-- Read options. -/
def ofJson (s : String) : Except JsonError ResolveOptions := readAll (readRecord shape) s

/-- The options as JSON. -/
def toJson (o : ResolveOptions) : Json := .object [("strictness", .text o.strictness.text)]

end ResolveOptions

namespace Settings

/-- The fields of the settings, all of which may be left out. -/
def shape : RecordShape Settings where
  name := "struct CompilerConfig"
  blank := Settings.default
  members := [
    ⟨"resolve", true, true, fun s => do return { s with resolve := ← readRecord ResolveOptions.shape }⟩,
    ⟨"emit", true, true, fun s => do return { s with emit := ← readRecord EmitConfig.shape }⟩]

/-- Read settings. -/
def ofJson (s : String) : Except JsonError Settings := readAll (readRecord shape) s

end Settings

end ProcessCompiler
