/-!
# Tokens

The lexical units of the target language. A text is first cut into leaves
and brackets, and the brackets are then matched, so that a bracketed part is
one token that holds the tokens inside it. Words that the language reserves
are told apart from identifiers here, once, and punctuation stays one
character a leaf, with a note whether the next character is punctuation too:
a symbol such as `..=` is then a run of joined leaves.
-/

namespace ProcessCompiler

namespace Grammar

/-- The three kinds of brackets. -/
inductive Delimiter where
  | paren
  | bracket
  | brace
deriving DecidableEq, Repr

namespace Delimiter

/-- The opening bracket. -/
def opening : Delimiter → Char
  | paren => '('
  | bracket => '['
  | brace => '\x7b'

/-- The closing bracket. -/
def closing : Delimiter → Char
  | paren => ')'
  | bracket => ']'
  | brace => '\x7d'

end Delimiter

/-- The words that are no identifiers, the lone underscore among them. -/
inductive Keyword where
  | abstract_
  | as_
  | async_
  | await_
  | become_
  | box_
  | break_
  | const_
  | continue_
  | crate_
  | do_
  | dyn_
  | else_
  | enum_
  | extern_
  | false_
  | final_
  | fn_
  | for_
  | if_
  | impl_
  | in_
  | let_
  | loop_
  | macro_
  | match_
  | mod_
  | move_
  | mut_
  | override_
  | priv_
  | pub_
  | ref_
  | return_
  | self_
  | static_
  | struct_
  | super_
  | trait_
  | true_
  | try_
  | type_
  | typeof_
  | unsafe_
  | unsized_
  | use_
  | virtual_
  | where_
  | while_
  | yield_
  | upperSelf
  | underscore
deriving DecidableEq, Repr

namespace Keyword

/-- The characters of a reserved word. -/
def chars : Keyword → List Char
  | abstract_ => ['a', 'b', 's', 't', 'r', 'a', 'c', 't']
  | as_ => ['a', 's']
  | async_ => ['a', 's', 'y', 'n', 'c']
  | await_ => ['a', 'w', 'a', 'i', 't']
  | become_ => ['b', 'e', 'c', 'o', 'm', 'e']
  | box_ => ['b', 'o', 'x']
  | break_ => ['b', 'r', 'e', 'a', 'k']
  | const_ => ['c', 'o', 'n', 's', 't']
  | continue_ => ['c', 'o', 'n', 't', 'i', 'n', 'u', 'e']
  | crate_ => ['c', 'r', 'a', 't', 'e']
  | do_ => ['d', 'o']
  | dyn_ => ['d', 'y', 'n']
  | else_ => ['e', 'l', 's', 'e']
  | enum_ => ['e', 'n', 'u', 'm']
  | extern_ => ['e', 'x', 't', 'e', 'r', 'n']
  | false_ => ['f', 'a', 'l', 's', 'e']
  | final_ => ['f', 'i', 'n', 'a', 'l']
  | fn_ => ['f', 'n']
  | for_ => ['f', 'o', 'r']
  | if_ => ['i', 'f']
  | impl_ => ['i', 'm', 'p', 'l']
  | in_ => ['i', 'n']
  | let_ => ['l', 'e', 't']
  | loop_ => ['l', 'o', 'o', 'p']
  | macro_ => ['m', 'a', 'c', 'r', 'o']
  | match_ => ['m', 'a', 't', 'c', 'h']
  | mod_ => ['m', 'o', 'd']
  | move_ => ['m', 'o', 'v', 'e']
  | mut_ => ['m', 'u', 't']
  | override_ => ['o', 'v', 'e', 'r', 'r', 'i', 'd', 'e']
  | priv_ => ['p', 'r', 'i', 'v']
  | pub_ => ['p', 'u', 'b']
  | ref_ => ['r', 'e', 'f']
  | return_ => ['r', 'e', 't', 'u', 'r', 'n']
  | self_ => ['s', 'e', 'l', 'f']
  | static_ => ['s', 't', 'a', 't', 'i', 'c']
  | struct_ => ['s', 't', 'r', 'u', 'c', 't']
  | super_ => ['s', 'u', 'p', 'e', 'r']
  | trait_ => ['t', 'r', 'a', 'i', 't']
  | true_ => ['t', 'r', 'u', 'e']
  | try_ => ['t', 'r', 'y']
  | type_ => ['t', 'y', 'p', 'e']
  | typeof_ => ['t', 'y', 'p', 'e', 'o', 'f']
  | unsafe_ => ['u', 'n', 's', 'a', 'f', 'e']
  | unsized_ => ['u', 'n', 's', 'i', 'z', 'e', 'd']
  | use_ => ['u', 's', 'e']
  | virtual_ => ['v', 'i', 'r', 't', 'u', 'a', 'l']
  | where_ => ['w', 'h', 'e', 'r', 'e']
  | while_ => ['w', 'h', 'i', 'l', 'e']
  | yield_ => ['y', 'i', 'e', 'l', 'd']
  | upperSelf => ['S', 'e', 'l', 'f']
  | underscore => ['_']

/-- Every reserved word. -/
def all : List Keyword :=
  [abstract_, as_, async_, await_, become_, box_, break_, const_, continue_, crate_, do_,
   dyn_, else_, enum_, extern_, false_, final_, fn_, for_, if_, impl_, in_, let_, loop_,
   macro_, match_, mod_, move_, mut_, override_, priv_, pub_, ref_, return_, self_, static_,
   struct_, super_, trait_, true_, try_, type_, typeof_, unsafe_, unsized_, use_, virtual_,
   where_, while_, yield_, upperSelf, underscore]

/-- The text of a reserved word. -/
def text (k : Keyword) : String := String.ofList k.chars

/-- The reserved word with the given characters. -/
def ofChars? (cs : List Char) : Option Keyword := all.find? fun k => k.chars == cs

end Keyword

/-- The symbols built from punctuation. -/
inductive Symbol where
  | semi
  | comma
  | colon
  | colon2
  | dot
  | dot2
  | dot2Eq
  | dot3
  | eq
  | eq2
  | fatArrow
  | arrow
  | lt
  | gt
  | le
  | ge
  | ne
  | shl
  | shr
  | shlEq
  | shrEq
  | amp
  | amp2
  | ampEq
  | bar
  | bar2
  | barEq
  | caret
  | caretEq
  | plus
  | plusEq
  | minus
  | minusEq
  | star
  | starEq
  | slash
  | slashEq
  | percent
  | percentEq
  | bang
  | question
  | hash
  | atSign
  | tilde
deriving DecidableEq, Repr

namespace Symbol

/-- The characters of a symbol. -/
def chars : Symbol → List Char
  | semi => [';']
  | comma => [',']
  | colon => [':']
  | colon2 => [':', ':']
  | dot => ['.']
  | dot2 => ['.', '.']
  | dot2Eq => ['.', '.', '=']
  | dot3 => ['.', '.', '.']
  | eq => ['=']
  | eq2 => ['=', '=']
  | fatArrow => ['=', '>']
  | arrow => ['-', '>']
  | lt => ['<']
  | gt => ['>']
  | le => ['<', '=']
  | ge => ['>', '=']
  | ne => ['!', '=']
  | shl => ['<', '<']
  | shr => ['>', '>']
  | shlEq => ['<', '<', '=']
  | shrEq => ['>', '>', '=']
  | amp => ['&']
  | amp2 => ['&', '&']
  | ampEq => ['&', '=']
  | bar => ['|']
  | bar2 => ['|', '|']
  | barEq => ['|', '=']
  | caret => ['^']
  | caretEq => ['^', '=']
  | plus => ['+']
  | plusEq => ['+', '=']
  | minus => ['-']
  | minusEq => ['-', '=']
  | star => ['*']
  | starEq => ['*', '=']
  | slash => ['/']
  | slashEq => ['/', '=']
  | percent => ['%']
  | percentEq => ['%', '=']
  | bang => ['!']
  | question => ['?']
  | hash => ['#']
  | atSign => ['@']
  | tilde => ['~']

/-- The text of a symbol. -/
def text (y : Symbol) : String := String.ofList y.chars

end Symbol

/-- What a literal stands for. -/
inductive LiteralKind where
  | string
  | byteString
  | cString
  | byte
  | char
  | number
  /-- The mark `(/*ERROR*/)`, which stands for an expression that is
  missing. -/
  | missing
deriving DecidableEq, Repr

/-- A literal as it was written. -/
structure Literal where
  kind : LiteralKind
  text : List Char
deriving DecidableEq, Repr

/-- A token with no tokens inside it. -/
inductive Leaf where
  | keyword (k : Keyword)
  /-- An identifier; a raw one keeps its `r#`. -/
  | ident (name : String)
  /-- A lifetime, without its apostrophe. -/
  | lifetime (name : String)
  /-- One character of punctuation; `joint` if another one follows at once that
  is no semicolon. -/
  | punct (c : Char) (joint : Bool)
  | literal (l : Literal)
deriving DecidableEq, Repr

/-- A leaf, or a pair of brackets with the tokens between them. -/
inductive Token where
  | leaf (l : Leaf)
  | group (d : Delimiter) (inner : List Token)

namespace Token

mutual

/-- The number of leaves and brackets a token is written with. -/
def size : Token → Nat
  | leaf _ => 1
  | group _ inner => sizes inner + 2

/-- The number of leaves and brackets a token list is written with. -/
def sizes : List Token → Nat
  | [] => 0
  | t :: ts => size t + sizes ts

end

/-- A token that is a pair of braces. -/
def isBraces : Token → Bool
  | group .brace _ => true
  | _ => false

end Token

/-- A piece of text before its brackets are matched. -/
inductive Lexeme where
  | leaf (l : Leaf)
  | opening (d : Delimiter)
  | closing (d : Delimiter)
deriving DecidableEq, Repr

namespace Lexeme

/-- Match brackets: `outer` holds the brackets still open, each with the
tokens before it, and `seen` the tokens of the innermost one, all of them
last first. -/
def nestFrom : List (Delimiter × List Token) → List Token → List Lexeme → Option (List Token)
  | [], seen, [] => some seen.reverse
  | _ :: _, _, [] => none
  | outer, seen, leaf l :: rest => nestFrom outer (.leaf l :: seen) rest
  | outer, seen, opening d :: rest => nestFrom ((d, seen) :: outer) [] rest
  | [], _, closing _ :: _ => none
  | (d, before) :: outer, seen, closing d' :: rest =>
    if d = d' then nestFrom outer (.group d seen.reverse :: before) rest else none

/-- The token list with the given leaves and brackets, if they nest. -/
def nest (ls : List Lexeme) : Option (List Token) := nestFrom [] [] ls

end Lexeme

end Grammar

end ProcessCompiler
