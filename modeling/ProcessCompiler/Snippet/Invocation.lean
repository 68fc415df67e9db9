import ProcessCompiler.Snippet.Harness
import ProcessCompiler.Text.Trim
/-!
# Invocations

The text of a task runs some statements and then awaits the value of an
expression. An invocation is the text cut into these two, at the last
semicolon that leaves statements before it and one expression behind it.
-/

namespace ProcessCompiler

open Grammar Text

/-- A task's text in two parts. -/
structure Invocation where
  /-- The statements before the awaited expression, up to the semicolon of
  the last one. -/
  prelude? : Option String
  /-- The awaited expression, with no semicolon behind it. -/
  tail : String
deriving DecidableEq, Repr

namespace Invocation

/-- The text without blanks at its ends and semicolons behind it. -/
def body (text : List Char) : List Char :=
  trimEnd (dropEndWhile (· == ';') (trim text))

/-- The text is one expression, and not the test of a pattern. -/
def isTail (text : List Char) : Bool :=
  match parseExpr (String.ofList text) with
  | .ok e => !e.isLetting
  | .error _ => false

/-- The cuts of a text behind each of its semicolons, the first one first. -/
def cuts : List Char → List (List Char × List Char)
  | [] => []
  | c :: rest =>
    let later := (cuts rest).map fun (before, after) => (c :: before, after)
    if c == ';' then ([c], rest) :: later else later

/-- The invocation that a cut makes, if it leaves statements before it and an
expression behind it. -/
def ofCut (cut : List Char × List Char) : Option Invocation :=
  let front := trim cut.1
  let tail := trim cut.2
  if !tail.isEmpty && isTail tail && Harness.statements.accepts (String.ofList front) then
    some ⟨some (String.ofList front), String.ofList tail⟩
  else none

/-- Cut a task's text into statements and the expression it awaits. There is
no such cut where the text does not end in an expression. -/
def split (text : String) : Option Invocation :=
  let b := body text.toList
  if b.isEmpty then none
  else if isTail b then some ⟨none, String.ofList b⟩
  else (cuts b).reverse.findSome? ofCut

end Invocation

end ProcessCompiler
