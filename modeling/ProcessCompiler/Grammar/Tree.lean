import ProcessCompiler.Grammar.Token
/-!
# Syntax trees

Expressions and statements as trees. Types, patterns and items are checked
by the grammar but kept as the tokens they are written with: nothing in the
library looks inside them. Attributes are kept the same way, around the
expression or statement they stand before.
-/

namespace ProcessCompiler

namespace Grammar

/-- The generic arguments written behind a segment of a path. -/
inductive Arguments where
  | absent
  | angle (tokens : List Token)

/-- No argument is written, be it that angle brackets are. -/
def Arguments.isEmpty : Arguments → Bool
  | absent => true
  | angle [.leaf (.punct ':' _), .leaf (.punct ':' _), _, _] => true
  | angle [_, _] => true
  | angle _ => false

/-- One name of a path, with its generic arguments. -/
structure Segment where
  name : String
  arguments : Arguments

/-- A path such as `a::b`. -/
structure Path where
  /-- The tokens between the angle brackets of `<T as U>::a`. -/
  qualifier : Option (List Token)
  /-- The path begins with `::`. -/
  rooted : Bool
  segments : List Segment

namespace Path

/-- No segment carries generic arguments. -/
def isPlain (p : Path) : Bool :=
  p.segments.all fun s => match s.arguments with
    | .absent => true
    | _ => false

/-- The name of a path that is one bare name. -/
def bareName? (p : Path) : Option String :=
  match p.segments with
  | [⟨n, .absent⟩] => if p.rooted then none else some n
  | _ => none

end Path

/-- A call such as `name!(…)`, whose arguments are tokens. -/
structure MacroCall where
  path : Path
  delimiter : Delimiter
  arguments : List Token

/-- A field, by name or by position. -/
inductive Member where
  | named (name : String)
  | position (index : Nat)
deriving DecidableEq, Repr

/-- Operators before their operand. -/
inductive UnaryOp where
  | negate
  | invert
  | dereference
deriving DecidableEq, Repr

/-- The ways to take an address. -/
inductive Borrow where
  | shared
  | mutable
  | rawConst
  | rawMutable
deriving DecidableEq, Repr

/-- Blocks that are an expression. -/
inductive BlockKind where
  | plain
  | unsafe_
  | const_
  | try_
  | async_ (owning : Bool)
deriving DecidableEq, Repr

/-- Expressions that leave what encloses them. -/
inductive Jump where
  | break_
  | continue_
  | return_
  | yield_
deriving DecidableEq, Repr

/-- Operators between two operands. -/
inductive BinaryOp where
  | add | sub | mul | div | rem
  | and | or
  | bitXor | bitAnd | bitOr
  | shl | shr
  | eq | lt | le | ne | ge | gt
  | addAssign | subAssign | mulAssign | divAssign | remAssign
  | bitXorAssign | bitAndAssign | bitOrAssign | shlAssign | shrAssign
deriving DecidableEq, Repr

/-- How strongly an operator binds, from the weakest on. -/
inductive Precedence where
  | jump
  | assign
  | range
  | or
  | and
  | letting
  | compare
  | bitOr
  | bitXor
  | bitAnd
  | shift
  | sum
  | product
  | cast
deriving DecidableEq, Repr

namespace Precedence

/-- The place of a precedence among the others. -/
def rank : Precedence → Nat
  | jump => 0
  | assign => 1
  | range => 2
  | or => 3
  | and => 4
  | letting => 5
  | compare => 6
  | bitOr => 7
  | bitXor => 8
  | bitAnd => 9
  | shift => 10
  | sum => 11
  | product => 12
  | cast => 13

end Precedence

namespace BinaryOp

/-- How strongly an operator binds. -/
def precedence : BinaryOp → Precedence
  | add | sub => .sum
  | mul | div | rem => .product
  | and => .and
  | or => .or
  | bitXor => .bitXor
  | bitAnd => .bitAnd
  | bitOr => .bitOr
  | shl | shr => .shift
  | eq | lt | le | ne | ge | gt => .compare
  | addAssign | subAssign | mulAssign | divAssign | remAssign
  | bitXorAssign | bitAndAssign | bitOrAssign | shlAssign | shrAssign => .assign

end BinaryOp

/-- What an item declares. -/
inductive ItemKind where
  | function
  | externCrate
  | foreign
  | import_
  | static
  | constant
  | trait
  | impl
  | module
  | typeAlias
  | struct
  | enum
  | union
  | macroCall
  | macroDefinition
deriving DecidableEq, Repr

/-- A declaration, as the tokens it is written with. -/
structure Item where
  kind : ItemKind
  tokens : List Token

mutual

/-- Expressions. -/
inductive Expr where
  | literal (l : Literal)
  | bool (value : Bool)
  | path (p : Path)
  | macroCall (m : MacroCall)
  /-- A value with named fields; `rest` is what stands behind `..`. -/
  | record (p : Path) (fields : List FieldInit) (rest : RecordRest)
  | paren (e : Expr)
  | tuple (elements : List Expr)
  | array (elements : List Expr)
  | repeated (element count : Expr)
  | unary (op : UnaryOp) (e : Expr)
  | borrow (kind : Borrow) (e : Expr)
  | binary (op : BinaryOp) (left right : Expr)
  | assign (left right : Expr)
  | range (start : Option Expr) (closed : Bool) (stop : Option Expr)
  | cast (e : Expr) (type : List Token)
  | call (function : Expr) (arguments : List Expr)
  | methodCall (receiver : Expr) (method : String) (generics : Option (List Token))
      (arguments : List Expr)
  | field (base : Expr) (member : Member)
  | index (base position : Expr)
  /-- The operator `?` behind an expression. -/
  | propagate (e : Expr)
  | await (e : Expr)
  | block (kind : BlockKind) (label : Option String) (body : List Stmt)
  | branch (condition : Expr) (body : List Stmt) (otherwise : Option Expr)
  | select (scrutinee : Expr) (arms : List Arm)
  | whileLoop (label : Option String) (condition : Expr) (body : List Stmt)
  | forLoop (label : Option String) (pattern : List Token) (source : Expr) (body : List Stmt)
  | loop (label : Option String) (body : List Stmt)
  /-- A function value; `head` is all that stands before its body. -/
  | closure (head : List Token) (body : Expr)
  /-- A test of a value against a pattern. -/
  | letting (pattern : List Token) (e : Expr)
  | jump (kind : Jump) (label : Option String) (value : Option Expr)
  | underscore
  /-- An expression of a form that is kept as its tokens. -/
  | verbatim (tokens : List Token)
  | attributed (attributes : List Token) (e : Expr)

/-- What stands behind the fields of a record. -/
inductive RecordRest where
  | absent
  | bare
  | base (e : Expr)

/-- A field with its value; a field without one takes the variable of its
name. -/
inductive FieldInit where
  | mk (member : Member) (value : Option Expr)

/-- One case of a selection. -/
inductive Arm where
  | mk (pattern : List Token) (guard : Option Expr) (body : Expr)

/-- Statements. -/
inductive Stmt where
  /-- A semicolon on its own. -/
  | empty
  | binding (attributes pattern : List Token) (type : Option (List Token)) (value : Option Expr)
      (otherwise : Option (List Stmt))
  | item (i : Item)
  | expr (attributes : List Token) (e : Expr) (terminated : Bool)
  | macroCall (attributes : List Token) (m : MacroCall) (terminated : Bool)

end

namespace Expr

/-- The expression without the attributes before it. -/
def bare : Expr → Expr
  | attributed _ e => e.bare
  | e => e

/-- A test of a value against a pattern. -/
def isLetting (e : Expr) : Bool :=
  match e.bare with
  | letting .. => true
  | _ => false

/-- A range. -/
def isRange (e : Expr) : Bool :=
  match e.bare with
  | range .. => true
  | _ => false

/-- A comparison. -/
def isComparison (e : Expr) : Bool :=
  match e.bare with
  | binary op .. => op.precedence = .compare
  | _ => false

/-- An expression that ends with its block, so that a statement or a case
made of it needs nothing behind it. -/
def isBlockLike (e : Expr) : Bool :=
  match e.bare with
  | branch .. | select .. | whileLoop .. | forLoop .. | loop .. => true
  | block (.async_ _) _ _ => false
  | block .. => true
  | _ => false

/-- An expression that is a statement only with a semicolon or at the end
of a block. -/
def needsSemicolon (e : Expr) : Bool :=
  match e.bare with
  | macroCall m => m.delimiter ≠ .brace
  | _ => !e.isBlockLike

mutual

/-- The last token of an expression is a closing brace. -/
def endsInBrace : Expr → Bool
  | attributed _ e => e.endsInBrace
  | block .. | branch .. | select .. | whileLoop .. | forLoop .. | loop .. | record .. => true
  | assign _ r | binary _ _ r => r.endsInBrace
  | jump _ _ v => endsInBrace? v
  | cast _ t => t.getLast?.any Token.isBraces
  | closure _ b => b.endsInBrace
  | letting _ e | borrow _ e | unary _ e => e.endsInBrace
  | macroCall m => m.delimiter = .brace
  | range _ _ stop => endsInBrace? stop
  | verbatim t => t.getLast?.any Token.isBraces
  | _ => false

/-- An expression that may be absent ends in a closing brace. -/
def endsInBrace? : Option Expr → Bool
  | some e => e.endsInBrace
  | none => false

end

end Expr

/-- The kinds of statement. -/
inductive StmtKind where
  | binding
  | item
  | value
  | effect
  | macroCall
deriving DecidableEq, Repr

namespace Stmt

/-- The kind of a statement. An expression with a semicolon, which may be
missing before it, is an effect; one without is a value. -/
def kind : Stmt → StmtKind
  | empty => .effect
  | binding .. => .binding
  | item _ => .item
  | expr _ _ terminated => if terminated then .effect else .value
  | macroCall .. => .macroCall

/-- The statement cannot be followed by another one as it stands. -/
def needsSemicolon : Stmt → Bool
  | expr _ e false => e.needsSemicolon
  | macroCall _ m false => m.delimiter ≠ .brace
  | _ => false

end Stmt

end Grammar

end ProcessCompiler
