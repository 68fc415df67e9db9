import ProcessCompiler.Json.Record
import ProcessCompiler.Json.Value
import ProcessCompiler.Validation.Basic
/-!
# Verdicts as JSON

What is written is read back as it was. A verdict without a reason has no
field for it.
-/

namespace ProcessCompiler

open Json

namespace Verdict

/-- The fields of a verdict. -/
def shape : RecordShape Verdict where
  name := "struct Verdict"
  blank := ⟨false, none⟩
  members := [
    ⟨"outcome", false, false, fun v => do return { v with outcome := ← readFlag }⟩,
    ⟨"reason", true, true, fun v => do return { v with reason := ← readOptional readText }⟩]

/-- Read a verdict. -/
def ofJson (s : String) : Except JsonError Verdict := readAll (readRecord shape) s

/-- The verdict as JSON. -/
def toJson (v : Verdict) : Json :=
  .object (("outcome", .flag v.outcome) :: (v.reason.map fun r => ("reason", Json.text r)).toList)

end Verdict

end ProcessCompiler
