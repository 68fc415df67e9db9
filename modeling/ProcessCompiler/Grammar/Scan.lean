import ProcessCompiler.Grammar.Token
import ProcessCompiler.Grammar.Scan.Quoted
import ProcessCompiler.Grammar.Scan.Number
import ProcessCompiler.Grammar.Scan.Gap
import ProcessCompiler.Text.Quoted
/-!
# Scanning

From text to tokens. `lexemes` cuts a text into leaves and brackets, and
`tokenize` matches the brackets. Both have no value where the text is no
token list at all: there is no partial answer and no position.
-/

namespace ProcessCompiler

namespace Grammar

namespace Scan

open Text

/-- A literal from the characters before `rest`. -/
def literalOf (kind : LiteralKind) (cs rest : List Char) : Literal :=
  ⟨kind, cs.take (cs.length - rest.length)⟩

/-- A quoted literal, with the word that may follow as its suffix. -/
def quotedOf (kind : LiteralKind) (cs : List Char) (rest? : Option (List Char)) :
    Option (Literal × List Char) :=
  rest?.map fun rest => let rest := dropWord rest; (literalOf kind cs rest, rest)

/-- The quoted literal at the start of a text. -/
def quoted : List Char → Option (Literal × List Char)
  | cs@('"' :: rest) => quotedOf .string cs (stringFrom .text .plain rest)
  | cs@('b' :: '"' :: rest) => quotedOf .byteString cs (stringFrom .bytes .plain rest)
  | cs@('b' :: 'r' :: rest) => quotedOf .byteString cs (rawString .bytes rest)
  | cs@('c' :: '"' :: rest) => quotedOf .cString cs (stringFrom .zeroFree .plain rest)
  | cs@('c' :: 'r' :: rest) => quotedOf .cString cs (rawString .zeroFree rest)
  | cs@('b' :: '\'' :: rest) => quotedOf .byte cs ((oneByte rest).bind closeQuote)
  | cs@('\'' :: rest) => quotedOf .char cs ((oneChar rest).bind closeQuote)
  | cs@('r' :: rest) => quotedOf .string cs (rawString .text rest)
  | _ => none

/-- The literal at the start of a text. -/
def literal (cs : List Char) : Option (Literal × List Char) :=
  quoted cs <|>
  (decimal cs).map (fun rest => (literalOf .number cs rest, rest)) <|>
  (integer cs).map (fun rest => (literalOf .number cs rest, rest))

/-- The word at the start of a text. -/
def word (cs : List Char) : Option (List Char × List Char) :=
  if startsWith isWordStart cs then some (cs.takeWhile isWordRest, cs.dropWhile isWordRest)
  else none

/-- Words that have no raw form. -/
def isUnraw (w : List Char) : Bool :=
  w == ['_'] || w == Keyword.super_.chars || w == Keyword.self_.chars ||
    w == Keyword.upperSelf.chars || w == Keyword.crate_.chars

/-- The name at the start of a text, raw or not. -/
def name : List Char → Option (Leaf × List Char)
  | 'r' :: '#' :: rest =>
    match word rest with
    | some (w, after) =>
      if isUnraw w then none else some (.ident (String.ofList ('r' :: '#' :: w)), after)
    | none => none
  | cs =>
    match word cs with
    | some (w, after) =>
      some ((match Keyword.ofChars? w with
        | some k => .keyword k
        | none => .ident (String.ofList w)), after)
    | none => none

/-- A text that begins like a quoted literal and is none is no name. -/
def looksQuoted : List Char → Bool
  | 'r' :: '"' :: _ | 'r' :: '#' :: '"' :: _ | 'r' :: '#' :: '#' :: _ => true
  | 'b' :: '"' :: _ | 'b' :: '\'' :: _ | 'b' :: 'r' :: '"' :: _ | 'b' :: 'r' :: '#' :: _ => true
  | 'c' :: '"' :: _ | 'c' :: 'r' :: '"' :: _ | 'c' :: 'r' :: '#' :: _ => true
  | _ => false

/-- The characters of punctuation. -/
def isPunct (c : Char) : Bool :=
  ['~', '!', '@', '#', '$', '%', '^', '&', '*', '-', '=', '+', '|', ';', ':', ',', '<', '.',
   '>', '/', '?', '\''].contains c

/-- The punctuation at the start of a text; the slash of a comment is none. -/
def punct : List Char → Option (Char × List Char)
  | '/' :: '/' :: _ => none
  | '/' :: '*' :: _ => none
  | c :: rest => if isPunct c then some (c, rest) else none
  | [] => none

/-- Punctuation goes on at the start of a text. A semicolon goes on with
nothing: no symbol has one behind another character. -/
def joins (cs : List Char) : Bool := (punct cs).any fun (c, _) => c != ';'

/-- The text of a name's leaf. -/
def nameText : Leaf → String
  | .keyword k => k.text
  | .ident n => n
  | _ => ""

/-- The lifetime behind an apostrophe. A second apostrophe may not follow,
nor a hash sign unless the name is raw. Where a literal follows, the
apostrophe stands alone; what only begins like one is no name. -/
def lifetime (cs : List Char) : Option (Leaf × List Char) :=
  match name cs with
  | some (n, after) =>
    if startsWith (· == '\'') after || (startsWith (· == '#') after && cs.take 2 != ['r', '#'])
    then none
    else if (literal cs).isSome then some (.punct '\'' true, cs)
    else if looksQuoted cs then none
    else some (.lifetime (nameText n), after)
  | none => none

/-- The punctuation or lifetime at the start of a text. -/
def punctLeaf (cs : List Char) : Option (Leaf × List Char) :=
  match punct cs with
  | some ('\'', rest) => lifetime rest
  | some (c, rest) => some (.punct c (joins rest), rest)
  | none => none

/-- The mark of a missing expression. -/
def missingMark : List Char :=
  ['(', '/', '*', 'E', 'R', 'R', 'O', 'R', '*', '/', ')']

/-- The leaf at the start of a text. -/
def leaf (cs : List Char) : Option (Leaf × List Char) :=
  match literal cs with
  | some (l, rest) => some (.literal l, rest)
  | none =>
    match punctLeaf cs with
    | some found => some found
    | none =>
      if looksQuoted cs then none else name cs

/-- The bracket at the start of a text. -/
def bracket : List Char → Option (Lexeme × List Char)
  | '(' :: rest => some (.opening .paren, rest)
  | '[' :: rest => some (.opening .bracket, rest)
  | '\x7b' :: rest => some (.opening .brace, rest)
  | ')' :: rest => some (.closing .paren, rest)
  | ']' :: rest => some (.closing .bracket, rest)
  | '\x7d' :: rest => some (.closing .brace, rest)
  | _ => none

/-- The attribute that a documenting comment stands for, with its text as a
string. -/
def docLexemes (inner : Bool) (text : List Char) : List Lexeme :=
  [Lexeme.leaf (.punct '#' false)] ++ (if inner then [Lexeme.leaf (.punct '!' false)] else []) ++
  [Lexeme.opening .bracket, .leaf (.ident "doc"), .leaf (.punct '=' false),
   .leaf (.literal ⟨.string, (Text.quoted (String.ofList text)).toList⟩), .closing .bracket]

/-- The lexemes of one step at a text that begins with no gap. -/
def step (cs : List Char) : Option (List Lexeme × List Char) :=
  match docComment cs with
  | some (inner, text, rest) => some (docLexemes inner text, rest)
  | none =>
    if missingMark.isPrefixOf cs then
      some ([.leaf (.literal ⟨.missing, missingMark⟩)], cs.drop missingMark.length)
    else
      match bracket cs with
      | some (b, rest) => some ([b], rest)
      | none => (leaf cs).map fun (l, rest) => ([.leaf l], rest)

/-- The lexemes of a text, in at most the given number of steps. -/
def lexemesIn : Nat → List Char → Option (List Lexeme)
  | 0, _ => none
  | n + 1, cs =>
    match gap cs with
    | none => none
    | some [] => some []
    | some rest =>
      match step rest with
      | none => none
      | some (found, after) => (lexemesIn n after).map (found ++ ·)

/-- The lexemes of a text. Every step takes a character, so the length of
the text bounds their number. -/
def lexemes (cs : List Char) : Option (List Lexeme) := lexemesIn (cs.length + 1) cs

/-- A text without the mark of its byte order. -/
def dropOrderMark : List Char → List Char
  | c :: rest => if c.toNat == 0xFEFF then rest else c :: rest
  | [] => []

end Scan

/-- The tokens of a text; none where the text is no token list. -/
def tokenize (cs : List Char) : Option (List Token) :=
  (Scan.lexemes (Scan.dropOrderMark cs)).bind Lexeme.nest

end Grammar

end ProcessCompiler
