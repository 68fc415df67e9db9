import ProcessCompiler.Markup.Attribute
/-!
# Pieces of markup

A text as a sequence of tags and the characters between them, up to the
first that is faulty. Comments and instructions vanish.
-/

namespace ProcessCompiler

namespace Markup

/-- Characters between tags. -/
inductive TextPiece where
  /-- Characters in which references count. -/
  | plain (cs : List Char)
  /-- Characters that stand for themselves. -/
  | verbatim (cs : List Char)
deriving DecidableEq, Repr

/-- A tag or the characters between tags. -/
inductive Piece where
  | text (p : TextPiece)
  /-- The tag with all between its brackets. -/
  | opening (tag : List Char)
  /-- A tag of an element without content, without the closing slash. -/
  | lone (tag : List Char)
  | closing (name : List Char)
  | doctype
deriving DecidableEq, Repr

/-- The pieces of a text, up to the first fault. -/
structure Pieces where
  items : List Piece
  fault : Option MarkupError
deriving DecidableEq, Repr

/-- What the scan of a text is inside of. What was read of it is kept last
character first. -/
inductive ScanState where
  | text (read : List Char)
  /-- Behind `<`. -/
  | opened
  /-- In a tag, and maybe in a quoted value of it. -/
  | tag (quote : Option Char) (read : List Char)
  | instruction (read : List Char)
  /-- Behind `<!`. -/
  | marked
  | comment (read : List Char)
  | cdata (read : List Char)
  /-- In a document type, inside the given number of inner brackets. -/
  | doctype (depth : Nat) (read : List Char)

namespace Pieces

/-- No pieces but a fault. -/
def failed (e : MarkupError) : Pieces := ⟨[], some e⟩

/-- One more piece in front. -/
def cons (p : Piece) (rest : Pieces) : Pieces := ⟨p :: rest.items, rest.fault⟩

/-- Some text in front, unless it is empty. -/
def consText (cs : List Char) (rest : Pieces) : Pieces :=
  if cs.isEmpty then rest else cons (.text (.plain cs)) rest

/-- The pieces of a text that ends where it is. -/
def ending : ScanState → Pieces
  | .text read => consText read.reverse ⟨[], none⟩
  | .opened | .tag _ _ => failed (.scan .tag)
  | .instruction _ => failed (.scan .instruction)
  | .marked => failed (.scan .unknown)
  | .comment _ => failed (.scan .comment)
  | .cdata _ => failed (.scan .cdata)
  | .doctype _ _ => failed (.scan .doctype)

end Pieces

/-- The name in a closing tag, without the blanks behind it. A name of blanks
alone is kept. -/
def closingName (name : List Char) : List Char :=
  if name.all isSpace then name else (name.reverse.dropWhile isSpace).reverse

/-- The piece of a tag, given what stands between its brackets. -/
def tagPiece (tag : List Char) : Piece :=
  match tag with
  | '/' :: name => .closing (closingName name)
  | _ => if tag.getLast? == some '/' then .lone tag.dropLast else .opening tag

/-- How a scan goes on inside a tag. -/
def tagState (quote : Option Char) (read : List Char) (c : Char) : ScanState :=
  match quote with
  | none => .tag (if c == '"' || c == '\'' then some c else none) (c :: read)
  | some q => .tag (if c == q then none else some q) (c :: read)

/-- The text begins with the given one. -/
def startsWith (start cs : List Char) : Bool := start.isPrefixOf cs

/-- The piece of a document type, given what stands between its brackets. -/
def doctypePiece (body : List Char) : Except MarkupError Piece :=
  if (body.take 8).map (·.toLower) == "!doctype".toList then
    if (body.drop 8).all isSpace then .error (.nesting .nameless) else .ok .doctype
  else .error (.scan .doctype)

/-- Scan the rest of a text. -/
def scanFrom : ScanState → List Char → Pieces
  | state, [] => Pieces.ending state
  | .text read, c :: rest =>
    if c == '<' then Pieces.consText read.reverse (scanFrom .opened rest)
    else scanFrom (.text (c :: read)) rest
  | .opened, c :: rest =>
    if c == '!' then scanFrom .marked rest
    else if c == '?' then scanFrom (.instruction [c]) rest
    else if c == '>' then Pieces.cons (tagPiece []) (scanFrom (.text []) rest)
    else scanFrom (tagState none [] c) rest
  | .tag quote read, c :: rest =>
    if c == '>' && quote.isNone then
      Pieces.cons (tagPiece read.reverse) (scanFrom (.text []) rest)
    else scanFrom (tagState quote read c) rest
  | .instruction read, c :: rest =>
    if c == '>' && read.head? == some '?' then
      if read.length < 2 then Pieces.failed (.scan .instruction) else scanFrom (.text []) rest
    else scanFrom (.instruction (c :: read)) rest
  | .marked, c :: rest =>
    if c == '[' then scanFrom (.cdata ['[', '!']) rest
    else if c == '-' then scanFrom (.comment ['-', '!']) rest
    else if c == 'D' || c == 'd' then scanFrom (.doctype 0 [c, '!']) rest
    else Pieces.failed (.scan .unknown)
  | .comment read, c :: rest =>
    if c == '>' && 4 < read.length && startsWith ['-', '-'] read then
      if startsWith "!--".toList read.reverse then scanFrom (.text []) rest
      else Pieces.failed (.scan .comment)
    else scanFrom (.comment (c :: read)) rest
  | .cdata read, c :: rest =>
    if c == '>' && startsWith [']', ']'] read then
      if startsWith "![CDATA[".toList read.reverse then
        Pieces.cons (.text (.verbatim ((read.drop 2).reverse.drop 8))) (scanFrom (.text []) rest)
      else Pieces.failed (.scan .cdata)
    else scanFrom (.cdata (c :: read)) rest
  | .doctype depth read, c :: rest =>
    if c == '<' then scanFrom (.doctype (depth + 1) (c :: read)) rest
    else if c == '>' then
      match depth with
      | 0 =>
        match doctypePiece read.reverse with
        | .ok p => Pieces.cons p (scanFrom (.text []) rest)
        | .error e => Pieces.failed e
      | depth + 1 => scanFrom (.doctype depth (c :: read)) rest
    else scanFrom (.doctype depth (c :: read)) rest

/-- The pieces of a text. A byte order mark in front is passed over. -/
def pieces (cs : List Char) : Pieces :=
  match cs with
  | [] => ⟨[], none⟩
  | c :: rest => if c.toNat == 0xFEFF then scanFrom (.text []) rest else scanFrom (.text []) cs

end Markup

end ProcessCompiler
