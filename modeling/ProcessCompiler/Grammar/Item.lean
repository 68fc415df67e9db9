import ProcessCompiler.Grammar.Generics
import ProcessCompiler.Grammar.Pattern
/-!
# Declarations

Functions, types, traits and the like. They are recognised and kept as
tokens; the answer of a rule is the kind of declaration it has read.
-/

namespace ProcessCompiler

namespace Grammar

open Parse

variable (R : Rules)

/-! ### Visibility -/

/-- The place in parentheses behind `pub`, if it is one and not the first
field of a tuple. -/
def restriction? : Parse Unit := do
  match ← tokens with
  | .group .paren inner :: _ =>
    if isKeywordOf [.crate_, .self_, .super_] inner then
      if inner.length == 1 then skip 1
    else if isKeyword .in_ inner then
      within .paren do
        keyword .in_
        discard plainPath
  | _ => return ()

/-- Who may see a declaration; gives whether anything was said. -/
def visibility : Parse Bool := do
  if ← keyword? .pub_ then
    restriction?
    return true
  else return false

/-! ### Functions -/

/-- A function's head begins here: the words before `fn`, in their order. -/
def startsSignature (safeAllowed : Bool) (ts : List Token) : Bool :=
  let ts := if isKeyword .const_ ts then ts.drop 1 else ts
  let ts := if isKeyword .async_ ts then ts.drop 1 else ts
  let ts := if safeAllowed && isWord "safe" ts then ts.drop 1
    else if isKeyword .unsafe_ ts then ts.drop 1 else ts
  let ts := if isKeyword .extern_ ts then
      if isString (ts.drop 1) then ts.drop 2 else ts.drop 1
    else ts
  isKeyword .fn_ ts

/-- A method's own value as a parameter. -/
def receiver : Parse Unit := do
  let reference ← symbol? .amp
  if reference then discard lifetime?
  discard (keyword? .mut_)
  keyword .self_
  if !reference then
    if ← symbol? .colon then discard (R.type true)

/-- What a parameter was. -/
inductive ParamForm where
  | receiver
  | typed
  | variadic
deriving DecidableEq, Repr

/-- A parameter of a function. -/
def param : Parse ParamForm := do
  match ← attempt (receiver R) with
  | some _ => return .receiver
  | none =>
    let ts ← tokens
    if isIdent ts && isSymbol .lt (ts.drop 1) then
      discard (R.type true)
      return .typed
    else
      discard R.pattern
      symbol .colon
      if ← symbol? .dot3 then return .variadic
      else
        discard (R.type true)
        return .typed

/-- The comma that may stand behind the last parameter. -/
def lastComma : Parse Unit := do
  if !(← tokens).isEmpty then symbol .comma

/-- The parameters of a function, given whether some came before and whether
one of them was the receiver. -/
def params (received : Bool) : Nat → Bool → Parse Unit
  | 0, _ => fail .tooDeep
  | n + 1, first => do
    if (← tokens).isEmpty then return ()
    discard (outerAttributes R)
    if ← symbol? .dot3 then lastComma
    else
      match ← param R with
      | .variadic => lastComma
      | .receiver =>
        if received then fail .secondReceiver
        else if !first then fail .lateReceiver
        else
          if (← tokens).isEmpty then return ()
          symbol .comma
          params true n false
      | .typed =>
        if (← tokens).isEmpty then return ()
        symbol .comma
        params received n false

/-- A function's head. -/
def signature (safeAllowed : Bool) : Parse Unit := do
  discard (keyword? .const_)
  discard (keyword? .async_)
  let unsafe' ← keyword? .unsafe_
  if safeAllowed && !unsafe' && isWord "safe" (← tokens) then skip 1
  callConvention?
  keyword .fn_
  discard ident
  generics R
  within .paren do
    params R false ((← tokens).length + 1) true
  returnType R true
  whereClause? R

/-- A function. -/
def functionItem : Parse Unit := do
  discard visibility
  signature R false
  if !(← symbol? .semi) then discard (bracedBody R)

/-! ### Types -/

/-- Where the conditions of a type alias stand. -/
inductive WherePlace where
  | before
  | after
  | both
deriving DecidableEq, Repr

/-- An alias for a type, or its announcement in a trait. -/
def aliasItem (defaultAllowed : Bool) (place : WherePlace) : Parse Unit := do
  discard visibility
  if defaultAllowed && isWord "default" (← tokens) then skip 1
  keyword .type_
  discard ident
  generics R
  if ← symbol? .colon then
    let stop ts := isKeyword .where_ ts || isSymbol .eq ts || isSymbol .semi ts
    discard (separated stop (symbol .plus) (R.bound false true))
  let whereBefore := isKeyword .where_ (← tokens)
  if place ≠ .after then whereClause? R
  if ← symbol? .eq then discard (R.type true)
  if place = .after ∨ (place = .both ∧ !whereBefore) then whereClause? R
  symbol .semi

/-- A field with a name. -/
def namedField : Parse Unit := do
  discard (outerAttributes R)
  discard visibility
  let unnamed := isKeyword .underscore (← tokens)
  if unnamed then skip 1 else discard ident
  symbol .colon
  let ts ← tokens
  if unnamed && (isKeyword .struct_ ts || (isWord "union" ts && isGroup .brace (ts.drop 1))) then
    skip 1
    R.namedFields
  else discard (R.type true)

/-- Fields with names, in braces. -/
def namedFieldsRule : Parse Unit := discard (within .brace (commas (namedField R)))

/-- A field without a name. -/
def unnamedField : Parse Unit := do
  discard (outerAttributes R)
  discard visibility
  discard (R.type true)

/-- Fields without names, in parentheses. -/
def unnamedFields : Parse Unit := discard (within .paren (commas (unnamedField R)))

/-- The fields of a `struct`, with the conditions and the semicolon that its
form asks for. -/
def structBody : Parse Unit := do
  let conditioned := isKeyword .where_ (← tokens)
  whereClause? R
  let ts ← tokens
  if !conditioned && isGroup .paren ts then
    unnamedFields R
    let conditioned := isKeyword .where_ (← tokens)
    whereClause? R
    if isSymbol .semi (← tokens) then symbol .semi
    else expect (if conditioned then [.symbol .semi] else [.keyword .where_, .symbol .semi])
  else if isGroup .brace ts then R.namedFields
  else if isSymbol .semi ts then symbol .semi
  else if conditioned then expect [.delimiter .brace, .symbol .semi]
  else expect [.keyword .where_, .delimiter .paren, .delimiter .brace, .symbol .semi]

/-- A `struct`. -/
def structItem : Parse Unit := do
  discard visibility
  keyword .struct_
  discard ident
  generics R
  structBody R

/-- A case of an `enum`. -/
def variant : Parse Unit := do
  discard (outerAttributes R)
  discard visibility
  discard ident
  let ts ← tokens
  if isGroup .brace ts then R.namedFields
  else if isGroup .paren ts then unnamedFields R
  if ← symbol? .eq then discard (R.expr true)

/-- An `enum`. -/
def enumItem : Parse Unit := do
  discard visibility
  keyword .enum_
  discard ident
  generics R
  whereClause? R
  discard (within .brace (commas (variant R)))

/-- A `union`. -/
def unionItem : Parse Unit := do
  discard visibility
  if isWord "union" (← tokens) then skip 1 else expect [.word "union"]
  discard ident
  generics R
  whereClause? R
  R.namedFields

/-! ### Uses and modules -/

/-- What follows `use`. `root` allows a path inside braces to begin with
`::`. -/
def useTreeRule (root : Bool) : Parse Unit := do
  let ts ← tokens
  if isIdent ts || isKeywordOf [.self_, .super_, .crate_, .try_] ts then
    skip 1
    if ← symbol? .colon2 then R.useTree false
    else if ← keyword? .as_ then
      let ts ← tokens
      if isIdent ts || isKeyword .underscore ts then skip 1 else expect [.identifierOrUnderscore]
  else if isSymbol .star ts then symbol .star
  else if isGroup .brace ts then
    discard <| within .brace <| commas do
      let rooted ← if root then symbol? .colon2 else pure false
      R.useTree (root && !rooted)
  else
    expect [.identifier, .keyword .self_, .keyword .super_, .keyword .crate_, .keyword .try_,
      .symbol .star, .delimiter .brace]

/-- A `use`. -/
def useItem : Parse Unit := do
  discard visibility
  keyword .use_
  let rooted ← symbol? .colon2
  R.useTree (!rooted)
  symbol .semi

/-- An `extern crate`. -/
def externCrateItem : Parse Unit := do
  discard visibility
  keyword .extern_
  keyword .crate_
  if isKeyword .self_ (← tokens) then skip 1 else discard ident
  if ← keyword? .as_ then
    if isKeyword .underscore (← tokens) then skip 1 else discard ident
  symbol .semi

/-- A module. -/
def moduleItem : Parse Unit := do
  discard visibility
  discard (keyword? .unsafe_)
  keyword .mod_
  if isKeyword .try_ (← tokens) then skip 1 else discard ident
  let ts ← tokens
  if isSymbol .semi ts then symbol .semi
  else if isGroup .brace ts then
    discard <| within .brace do
      innerAttributes R
      repeatAll R.item
  else expect [.symbol .semi, .delimiter .brace]

/-! ### Constants -/

/-- A name behind `const`. -/
def constName : Parse Unit := do
  let ts ← tokens
  if isIdent ts || isKeyword .underscore ts then skip 1
  else expect [.identifier, .keyword .underscore]

/-- A constant behind its name. -/
def constTail : Parse Unit := do
  generics R
  symbol .colon
  discard (R.type true)
  if ← symbol? .eq then discard (R.expr true)
  whereClause? R
  symbol .semi

/-- A constant. -/
def constItem : Parse Unit := do
  discard visibility
  keyword .const_
  constName
  constTail R

/-- A `static`. -/
def staticItem : Parse Unit := do
  discard visibility
  keyword .static_
  discard (keyword? .mut_)
  discard ident
  if ← symbol? .eq then
    discard (R.expr true)
    symbol .semi
  else
    symbol .colon
    discard (R.type true)
    if !(← symbol? .semi) then
      symbol .eq
      discard (R.expr true)
      symbol .semi

/-! ### Macros -/

/-- The call of a macro as a member of a trait, an implementation or a
foreign block: with a semicolon unless it ends in a brace. -/
def memberMacro : Parse Unit := do
  let p ← plainPath
  let m ← macroTail p
  if m.delimiter ≠ .brace then symbol .semi

/-- The call of a macro as a declaration, with the name it may define. -/
def macroItem : Parse Unit := do
  discard plainPath
  symbol .bang
  let ts ← tokens
  if isKeyword .try_ ts || isIdent ts then skip 1
  let (d, _) ← anyGroup
  if d ≠ .brace then symbol .semi

/-- The definition of a macro by `macro`. -/
def macroDefinition : Parse Unit := do
  discard visibility
  keyword .macro_
  discard ident
  let ts ← tokens
  if isGroup .paren ts then
    skip 1
    if isGroup .brace (← tokens) then skip 1 else expect [.delimiter .brace]
  else if isGroup .brace ts then skip 1
  else expect [.delimiter .paren, .delimiter .brace]

/-- The call of a macro by its name begins here. -/
def startsMacroName (ts : List Token) : Bool :=
  isIdent ts || isKeywordOf [.self_, .super_, .crate_] ts || isSymbol .colon2 ts

/-- The names that may begin the call of a macro, as alternatives. -/
def macroNameStarts : List Expectation :=
  [.identifier, .keyword .self_, .keyword .super_, .keyword .crate_, .symbol .colon2]

/-! ### Traits and implementations -/

/-- A member of a trait. -/
def traitMember : Parse Unit := do
  discard (outerAttributes R)
  let visible ← visibility
  let defaulted := isWord "default" (← tokens)
  if defaulted then skip 1
  let ts ← tokens
  if startsSignature false ts then
    signature R false
    let ts ← tokens
    if isGroup .brace ts then discard (bracedBody R)
    else if isSymbol .semi ts then symbol .semi
    else expect [.delimiter .brace, .symbol .semi]
  else if isKeyword .const_ ts then
    let two := ts.drop 1
    if isIdent two || isKeyword .underscore two then
      skip 2
      constTail R
    else if isKeywordOf [.async_, .unsafe_, .extern_, .fn_] two then signature R false
    else
      skip 1
      expect [.identifier, .keyword .underscore, .keyword .async_, .keyword .unsafe_,
        .keyword .extern_, .keyword .fn_]
  else if isKeyword .type_ ts then aliasItem R false .after
  else if !visible && !defaulted && startsMacroName ts then memberMacro
  else
    expect ([Expectation.keyword .fn_, .keyword .const_, .keyword .type_] ++
      if visible || defaulted then [] else macroNameStarts)

/-- A trait behind its name and parameters. -/
def traitTail : Parse Unit := do
  if ← symbol? .colon then
    let stop ts := isKeyword .where_ ts || isGroup .brace ts
    discard (separated stop (symbol .plus) (R.bound false true))
  whereClause? R
  discard <| within .brace do
    innerAttributes R
    repeatAll (traitMember R)

/-- A trait with words before it. -/
def wordedTrait : Parse Unit := do
  discard visibility
  discard (keyword? .unsafe_)
  if isWord "auto" (← tokens) then skip 1
  keyword .trait_
  discard ident
  generics R
  traitTail R

/-- A trait, or an alias for traits. -/
def traitItem : Parse Unit := do
  discard visibility
  keyword .trait_
  discard ident
  generics R
  let ts ← tokens
  if isGroup .brace ts || isSymbol .colon ts || isKeyword .where_ ts then traitTail R
  else if ← symbol? .eq then
    let stop ts := isKeyword .where_ ts || isSymbol .semi ts
    discard (separated stop (symbol .plus) (R.bound false false))
    whereClause? R
    symbol .semi
  else
    expect [.delimiter .brace, .symbol .colon, .keyword .where_, .symbol .eq]

/-- A member of an implementation. -/
def implMember : Parse Unit := do
  discard (outerAttributes R)
  match ← lookAhead visibility with
  | none => discard visibility
  | some (visible, ts) =>
    let defaulted := isWord "default" ts && !isSymbol .bang (ts.drop 1)
    let ts := if defaulted then ts.drop 1 else ts
    if startsSignature false ts then
      discard visibility
      if defaulted then skip 1
      signature R false
      if !(← symbol? .semi) then discard (bracedBody R)
    else if isKeyword .const_ ts then
      discard visibility
      if defaulted then skip 1
      keyword .const_
      constName
      constTail R
    else if isKeyword .type_ ts then aliasItem R true .after
    else if !visible && !defaulted && startsMacroName ts then memberMacro
    else
      discard visibility
      if defaulted then skip 1
      expect ((if defaulted then [] else [Expectation.word "default"]) ++
        [Expectation.keyword .fn_, .keyword .const_, .keyword .type_] ++
        if visible || defaulted then [] else macroNameStarts)

/-- An implementation. -/
def implItem : Parse Unit := do
  discard visibility
  if isWord "default" (← tokens) then skip 1
  discard (keyword? .unsafe_)
  keyword .impl_
  if startsGenerics (← tokens) then generics R
  let ts ← tokens
  if isKeyword .const_ ts || (isSymbol .question ts && isKeyword .const_ (ts.drop 1)) then
    discard (symbol? .question)
    keyword .const_
  let ts ← tokens
  let negative := isSymbol .bang ts && !isGroup .brace (ts.drop 1)
  if negative then symbol .bang
  discard (R.type true)
  if ← keyword? .for_ then discard (R.type true)
  else if negative then fail .negativeInherent
  whereClause? R
  discard <| within .brace do
    innerAttributes R
    repeatAll (implMember R)

/-! ### Foreign blocks -/

/-- A member of a foreign block. -/
def foreignMember : Parse Unit := do
  discard (outerAttributes R)
  match ← lookAhead visibility with
  | none => discard visibility
  | some (visible, ts) =>
    let two := ts.drop 1
    if startsSignature true ts then
      discard visibility
      signature R true
      if isGroup .brace (← tokens) then discard (bracedBody R) else symbol .semi
    else if isKeyword .static_ ts ||
        ((isKeyword .unsafe_ ts || isWord "safe" ts) && isKeyword .static_ two) then
      discard visibility
      if !isKeyword .static_ ts then skip 1
      keyword .static_
      discard (keyword? .mut_)
      discard ident
      symbol .colon
      discard (R.type true)
      if ← symbol? .eq then discard (R.expr true)
      symbol .semi
    else if isKeyword .type_ ts then aliasItem R false .both
    else if !visible && startsMacroName ts then memberMacro
    else
      discard visibility
      expect ([Expectation.keyword .fn_, .keyword .static_, .keyword .type_] ++
        if visible then [] else macroNameStarts)

/-- A block of declarations that are defined elsewhere. -/
def foreignItem : Parse Unit := do
  discard (keyword? .unsafe_)
  keyword .extern_
  if isString (← tokens) then skip 1
  discard <| within .brace do
    innerAttributes R
    repeatAll (foreignMember R)

/-! ### Declarations -/

/-- Read by `p`, and say what it was. -/
def itemOf (kind : ItemKind) (p : Parse Unit) : Parse ItemKind := do
  p
  return kind

/-- A declaration that begins with `extern` and is no function. The tokens
given are those from `extern` on. -/
def externItem (ts : List Token) : Parse ItemKind := do
  let two := ts.drop 1
  let three := ts.drop 2
  if isKeyword .crate_ two then itemOf .externCrate externCrateItem
  else if isGroup .brace two then itemOf .foreign (foreignItem R)
  else if isString two then
    if isGroup .brace three then itemOf .foreign (foreignItem R)
    else fun _ => .error ⟨three.isEmpty, .expected [.delimiter .brace]⟩
  else
    fun _ => .error ⟨two.isEmpty,
      .expected [.keyword .crate_, .delimiter .brace, .stringLiteral]⟩

/-- A declaration that begins with `unsafe` and is no function. The tokens
given are those from `unsafe` on. -/
def unsafeItem (ts : List Token) : Parse ItemKind := do
  let two := ts.drop 1
  if isKeyword .trait_ two || (isWord "auto" two && isKeyword .trait_ (ts.drop 2)) then
    itemOf .trait (wordedTrait R)
  else if isKeyword .impl_ two then itemOf .impl (implItem R)
  else if isKeyword .extern_ two then itemOf .foreign (foreignItem R)
  else if isKeyword .mod_ two then itemOf .module (moduleItem R)
  else
    fun _ => .error ⟨two.isEmpty, .expected ([Expectation.keyword .trait_] ++
      (if isWord "auto" two then [] else [Expectation.word "auto"]) ++
      [Expectation.keyword .impl_, .keyword .extern_, .keyword .mod_])⟩

/-- The alternatives at the start of a declaration. -/
def itemStarts (visible : Bool) (ts : List Token) : List Expectation :=
  [Expectation.keyword .fn_, .keyword .extern_, .keyword .use_, .keyword .static_,
   .keyword .const_, .keyword .unsafe_, .keyword .mod_, .keyword .type_, .keyword .struct_,
   .keyword .enum_] ++
  (if isWord "union" ts then [] else [Expectation.word "union"]) ++ [Expectation.keyword .trait_] ++
  (if isWord "auto" ts then [] else [Expectation.word "auto"]) ++ [Expectation.keyword .impl_] ++
  (if isWord "default" ts then [] else [Expectation.word "default"]) ++
  [Expectation.keyword .macro_] ++
  (if visible then [] else macroNameStarts)

/-- The declaration that begins here, behind its attributes. -/
def itemTail : Parse ItemKind := do
  match ← lookAhead visibility with
  | none =>
    discard visibility
    return .function
  | some (visible, ts) =>
    let two := ts.drop 1
    if startsSignature false ts then itemOf .function (functionItem R)
    else if isKeyword .extern_ ts then externItem R ts
    else if isKeyword .use_ ts then itemOf .import_ (useItem R)
    else if isKeyword .static_ ts then itemOf .static (staticItem R)
    else if isKeyword .const_ ts then itemOf .constant (constItem R)
    else if isKeyword .unsafe_ ts then unsafeItem R ts
    else if isKeyword .mod_ ts then itemOf .module (moduleItem R)
    else if isKeyword .type_ ts then itemOf .typeAlias (aliasItem R false .before)
    else if isKeyword .struct_ ts then itemOf .struct (structItem R)
    else if isKeyword .enum_ ts then itemOf .enum (enumItem R)
    else if isWord "union" ts && isIdent two then itemOf .union (unionItem R)
    else if isKeyword .trait_ ts then itemOf .trait (traitItem R)
    else if isWord "auto" ts && isKeyword .trait_ two then itemOf .trait (wordedTrait R)
    else if isKeyword .impl_ ts || (isWord "default" ts && !isSymbol .bang two) then
      itemOf .impl (implItem R)
    else if isKeyword .macro_ ts then itemOf .macroDefinition macroDefinition
    else if !visible && startsMacroName ts then itemOf .macroCall macroItem
    else
      discard visibility
      expect (itemStarts visible ts)

/-- A declaration behind its attributes, with the tokens it is written
with. -/
def itemFrom : Parse Item := do
  let (kind, tokens) ← spanned (itemTail R)
  return ⟨kind, tokens⟩

/-- A declaration. -/
def itemRule : Parse Item := do
  discard (outerAttributes R)
  itemFrom R

end Grammar

end ProcessCompiler
