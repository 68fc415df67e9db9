import ProcessCompiler.Text.Quoted
/-!
# Markup faults

Why a text is not the markup of a diagram: it does not read as markup at
all, or it does and lacks a field, has one twice, or has text where a record
belongs. Positions are in bytes and count from the start of the tag, the
text or the value that they are in.
-/

namespace ProcessCompiler

open Text

namespace Markup

/-- Markup that the end of the text cuts off, or that is of no kind. -/
inductive ScanFault where
  | tag
  | comment
  | cdata
  | doctype
  | instruction
  /-- What follows `<!` starts no markup. -/
  | unknown
deriving DecidableEq, Repr

/-- Tags that do not nest. -/
inductive NestingFault where
  /-- The text ends inside an element. -/
  | unclosed (name : String)
  /-- An element ends that was never begun. -/
  | unmatched (name : String)
  /-- Another element ends than the one begun last. -/
  | mismatched (expected found : String)
  /-- A document type has no name. -/
  | nameless
deriving DecidableEq, Repr

/-- Attributes that are not written as `key="value"`. -/
inductive AttributeFault where
  | expectedEquals (position : Nat)
  | expectedValue (position : Nat)
  | unquoted (position : Nat)
  | expectedQuote (position : Nat) (quote : Char)
  | duplicated (position previous : Nat)
deriving DecidableEq, Repr

/-- Numbers that are no character. -/
inductive NumberFault where
  | empty
  | digit
  | overflow
deriving DecidableEq, Repr

/-- References to characters by a number. -/
inductive CharacterFault where
  | sign
  | number (f : NumberFault)
  /-- The number is no code point. -/
  | codePoint (n : Nat)
  /-- The zero character. -/
  | zero
deriving DecidableEq, Repr

/-- References that stand for nothing. -/
inductive EntityFault where
  | unknown (start stop : Nat) (name : String)
  | unterminated (start stop : Nat)
  | character (f : CharacterFault)
deriving DecidableEq, Repr

/-- Qualifiers that are bound to what they may not stand for. -/
inductive BindingFault where
  /-- The qualifier `xml` is bound to another namespace than its own. -/
  | xml (space : String)
  /-- The qualifier `xmlns` is bound to any namespace. -/
  | xmlns (space : String)
  /-- Another qualifier is bound to the namespace of `xml`. -/
  | xmlSpace (qualifier : String)
  /-- Another qualifier is bound to the namespace of `xmlns`. -/
  | xmlnsSpace (qualifier : String)
deriving DecidableEq, Repr

/-- The namespace that the qualifier `xml` stands for. -/
def xmlSpace : String := "http://www.w3.org/XML/1998/namespace"

/-- The namespace that the qualifier `xmlns` stands for. -/
def xmlnsSpace : String := "http://www.w3.org/2000/xmlns/"

end Markup

/-- Why a text is not the markup of a diagram. -/
inductive MarkupError where
  | scan (f : Markup.ScanFault)
  | nesting (f : Markup.NestingFault)
  | tagged (f : Markup.AttributeFault)
  | entity (f : Markup.EntityFault)
  | binding (f : Markup.BindingFault)
  /-- There is no element at all. -/
  | empty
  /-- An element stands where only text may. -/
  | unexpectedElement (name : String)
  | missingField (field : String)
  | duplicateField (field : String)
  /-- Text stands where a record belongs. -/
  | textForRecord (text record : String)
deriving DecidableEq, Repr

namespace Markup

/-- The wording of cut-off markup. -/
def ScanFault.message : ScanFault → String
  | tag => "tag not closed: `>` not found before end of input"
  | comment => "comment not closed: `-->` not found before end of input"
  | cdata => "CDATA not closed: `]]>` not found before end of input"
  | doctype => "DOCTYPE not closed: `>` not found before end of input"
  | instruction =>
    "processing instruction or xml declaration not closed: `?>` not found before end of input"
  | unknown => "unknown or missed symbol in markup"

/-- The wording of tags that do not nest. -/
def NestingFault.message : NestingFault → String
  | unclosed name => "start tag not closed: `</" ++ name ++ ">` not found before end of input"
  | unmatched name => "close tag `</" ++ name ++ ">` does not match any open tag"
  | mismatched expected found =>
    "expected `</" ++ expected ++ ">`, but `</" ++ found ++ ">` was found"
  | nameless => "`<!DOCTYPE>` declaration does not contain a name of a document type"

/-- The wording of a faulty attribute. -/
def AttributeFault.message : AttributeFault → String
  | expectedEquals p =>
    "position " ++ toString p ++ ": attribute key must be directly followed by `=` or space"
  | expectedValue p => "position " ++ toString p ++ ": `=` must be followed by an attribute value"
  | unquoted p =>
    "position " ++ toString p ++ ": attribute value must be enclosed in `\"` or `'`"
  | expectedQuote p q =>
    "position " ++ toString p ++ ": missing closing quote `" ++ String.singleton q ++
      "` in attribute value"
  | duplicated p previous =>
    "position " ++ toString p ++ ": duplicated attribute, previous declaration at position " ++
      toString previous

/-- The wording of a number that cannot be read. -/
def NumberFault.message : NumberFault → String
  | empty => "cannot parse integer from empty string"
  | digit => "invalid digit found in string"
  | overflow => "number too large to fit in target type"

/-- The wording of a number that is no character. -/
def CharacterFault.message : CharacterFault → String
  | sign => "unexpected number sign"
  | number f => f.message
  | codePoint n => "`" ++ toString n ++ "` is not a valid codepoint"
  | zero => "0x0 character is not permitted in XML"

/-- The wording of a reference that stands for nothing. -/
def EntityFault.message : EntityFault → String
  | unknown start stop name =>
    "at " ++ toString start ++ ".." ++ toString stop ++ ": unrecognized entity `" ++ name ++ "`"
  | unterminated start stop =>
    "Error while escaping character at range " ++ toString start ++ ".." ++ toString stop ++
      ": Cannot find ';' after '&'"
  | character f => "invalid character reference: " ++ f.message

/-- A byte of a name inside quotes. -/
def byteText (b : UInt8) : String :=
  if b == 34 then "\\\""
  else if 32 ≤ b && b ≤ 126 then String.singleton (Char.ofNat b.toNat)
  else "0x" ++ (String.ofList (hexadecimal b.toNat)).toUpper

/-- A name inside quotes, byte by byte. -/
def bytesText (name : String) : String :=
  "\"" ++ String.join (name.toUTF8.toList.map byteText) ++ "\""

/-- The wording of a faulty binding. -/
def BindingFault.message : BindingFault → String
  | xml space => "the namespace prefix 'xml' cannot be bound to '" ++ bytesText space ++ "'"
  | xmlns space => "the namespace prefix 'xmlns' cannot be bound to '" ++ bytesText space ++ "'"
  | xmlSpace qualifier =>
    "the namespace prefix '" ++ bytesText qualifier ++ "' cannot be bound to '" ++
      Markup.xmlSpace ++ "'"
  | xmlnsSpace qualifier =>
    "the namespace prefix '" ++ bytesText qualifier ++ "' cannot be bound to '" ++
      Markup.xmlnsSpace ++ "'"

end Markup

namespace MarkupError

open Markup

/-- The wording of an error. -/
def message : MarkupError → String
  | scan f => "syntax error: " ++ f.message
  | nesting f => "ill-formed document: " ++ f.message
  | tagged f => "error while parsing attribute: " ++ f.message
  | entity f => f.message
  | binding f => f.message
  | empty => "unexpected `Event::Eof`"
  | unexpectedElement name => "unexpected `Event::Start(" ++ bytesText name ++ ")`"
  | missingField field => "missing field `" ++ field ++ "`"
  | duplicateField field => "duplicate field `" ++ field ++ "`"
  | textForRecord text record =>
    "invalid type: string " ++ quoted text ++ ", expected struct " ++ record

/-- The wordings of what an error rests on, from the outside in. -/
def causes : MarkupError → List String
  | scan f => [(scan f).message, f.message]
  | nesting f => [(nesting f).message, f.message]
  | tagged f => [(tagged f).message, f.message]
  | entity (.character (.number f)) =>
    [(entity (.character (.number f))).message, (EntityFault.character (.number f)).message,
      (CharacterFault.number f).message, f.message]
  | entity (.character f) =>
    [(entity (.character f)).message, (EntityFault.character f).message, f.message]
  | entity f => [(entity f).message, f.message]
  | binding f => [(binding f).message, f.message]
  | _ => []

/-- The wording of an error as the reason why a diagram cannot be read. -/
def report (e : MarkupError) : String := "failed to parse diagram markup: " ++ e.message

/-- The wordings of an error from the outside in. -/
def chain (e : MarkupError) : List String := e.report :: e.message :: e.causes

end MarkupError

end ProcessCompiler
