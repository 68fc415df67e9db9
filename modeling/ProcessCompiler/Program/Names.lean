import ProcessCompiler.Grammar.Token
import ProcessCompiler.Graph.Basic
/-!
# Procedure names

A node's procedure is named after the node, with characters that no name can
hold replaced. Names that come out equal are told apart by a number, so that
every procedure of a program, every handler that a message start forks, and
the entry procedure have names of their own.
-/

namespace ProcessCompiler

open Grammar Text

namespace Names

/-- A word of ASCII characters that the target language takes for a name. -/
def isIdentifier (cs : List Char) : Bool :=
  match cs with
  | [] => false
  | c :: _ => !isDigit c && cs.all isPlainWord && (Keyword.ofChars? cs).isNone

/-- The text with `_` before it until it is a name, at most the given number
of times. -/
def underscored : Nat → List Char → List Char
  | 0, cs => cs
  | n + 1, cs => if isIdentifier cs then cs else underscored n ('_' :: cs)

/-- The name of a node's procedure before names are told apart. Two
underscores are enough to make a name of anything. -/
def procedureName (id : String) : String :=
  String.ofList (underscored 2 (id.toList.map fun c => if isPlainWord c then c else '_'))

/-- The name of the handler that a message start forks. -/
def forkHandlerName (procedure : String) : String := procedure ++ "_fork"

/-- The names that are in use, and the name of each node's procedure. -/
structure Table where
  taken : List String
  byNode : Index String

/-- A name can still be used, with that of its handler if it forks one. -/
def isFree (forks : Bool) (taken : List String) (name : String) : Bool :=
  !taken.contains name && !(forks && taken.contains (forkHandlerName name))

/-- A name with a number behind it. -/
def numbered (base : String) (k : Nat) : String := base ++ "_" ++ toString k

/-- The name itself if it is free, else the one with the least number from
two on that is. A name that is taken rules out at most two numbers. -/
def firstFree (forks : Bool) (taken : List String) (base : String) : String :=
  if isFree forks taken base then base
  else
    let candidates := (List.range (2 * taken.length + 1)).map fun i => numbered base (i + 2)
    (candidates.find? (isFree forks taken)).getD base

/-- The node is a message start, whose procedure forks handlers. -/
def forks (n : Node) : Bool := n.kind = .startEvent true

/-- Name a node's procedure. -/
def Table.assign (t : Table) (n : Node) : Table :=
  let name := firstFree (forks n) t.taken (procedureName n.id)
  let handler := if forks n then [forkHandlerName name] else []
  ⟨name :: handler ++ t.taken, t.byNode.insertNew n.id name⟩

/-- Name the procedures of nodes, in their order. -/
def tableOf (entryName : String) (nodes : List Node) : Table :=
  nodes.foldl Table.assign ⟨[entryName], .empty⟩

/-- The name of a node's procedure. A node outside the table has the name
that it would have on its own. -/
def Table.nameOf (t : Table) (id : String) : String := (t.byNode.get? id).getD (procedureName id)

/-- The nodes whose procedures do not have the name they would have on
their own, with the names they have. -/
def Table.renamed (t : Table) (nodes : List Node) : List (String × String) :=
  nodes.filterMap fun n =>
    let name := t.nameOf n.id
    if name = procedureName n.id then none else some (n.id, name)

end Names

end ProcessCompiler
