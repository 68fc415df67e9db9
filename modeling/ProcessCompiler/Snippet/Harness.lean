import ProcessCompiler.Grammar.Statement
/-!
# Harnesses

Node texts are code of the target language. A harness is the smallest piece
of code that a text has to fit into: the condition of a branch, the inside
of a block, or the right-hand side of an assignment. Text for a condition or
an assignment has to be one expression on its own as well, so that it cannot
close its harness and open another one.
-/

namespace ProcessCompiler

open Grammar

/-- What a text has to fit into. -/
inductive Harness where
  | condition
  | statements
  | assignment
deriving DecidableEq, Repr

namespace Harness

/-- The code before a text. -/
def opening : Harness → String
  | condition => "\x7b if ("
  | statements => "\x7b "
  | assignment => "\x7b x = ("

/-- The code behind a text. -/
def closing : Harness → String
  | condition => ") \x7b x = 1; \x7d \x7d"
  | statements => " \x7d"
  | assignment => "); \x7d"

/-- A text inside its harness. -/
def wrap (h : Harness) (text : String) : String := h.opening ++ text ++ h.closing

/-- Read a text inside its harness, and give the statements of the block. -/
def parse (h : Harness) (text : String) : Except SyntaxError (List Stmt) := do
  if h ≠ statements then discard (parseExpr text)
  parseBlock (h.wrap text)

/-- The text fits into its harness. -/
def accepts (h : Harness) (text : String) : Bool := (h.parse text).isOk

end Harness

end ProcessCompiler
