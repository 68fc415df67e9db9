import ProcessCompiler.Snippet.Harness
/-!
# Referenced modules

A statement such as `call(orders.list())` or `call(orders::list())` uses the
module `orders`. Only statements at the top of a text are looked at, and
only the first argument of `call`.
-/

namespace ProcessCompiler

open Grammar

/-- The function whose argument names a module. -/
def invokeEffect : String := "call"

/-- The name that an expression is, if it is one bare name. -/
def bareName? (e : Expr) : Option String :=
  match e.bare with
  | .path p => if p.qualifier.isNone then p.bareName? else none
  | _ => none

/-- The module that the argument of `call` uses. -/
def argumentModule? (e : Expr) : Option String :=
  match e.bare with
  | .methodCall receiver _ _ _ => bareName? receiver
  | .field base _ => bareName? base
  | .call function _ =>
    match function.bare with
    | .path ⟨none, _, [first, _]⟩ => some first.name
    | _ => none
  | _ => none

/-- The module that a statement uses. -/
def invokedModule? : Stmt → Option String
  | .expr _ e _ =>
    match e.bare with
    | .call function (argument :: _) =>
      if bareName? function = some invokeEffect then argumentModule? argument else none
    | _ => none
  | _ => none

/-- The modules that a text uses, one for each statement that uses one. -/
def referencedModules (h : Harness) (text : String) : Except SyntaxError (List String) :=
  (h.parse text).map (·.filterMap invokedModule?)

end ProcessCompiler
