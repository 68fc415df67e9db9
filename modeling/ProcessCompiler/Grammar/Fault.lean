import ProcessCompiler.Grammar.Token
/-!
# Syntax errors

Why a text is refused, as causes, with the wording in one place. An error
raised where the tokens at hand have run out says so first.
-/

namespace ProcessCompiler

namespace Grammar

/-- What the grammar would have accepted. -/
inductive Expectation where
  | symbol (y : Symbol)
  | keyword (k : Keyword)
  | word (w : String)
  | delimiter (d : Delimiter)
  | identifier
  | anyWord
  | literal
  | integerLiteral
  | stringLiteral
  | lifetime
  | expression
  | member
  | group
  | loopOrBlock
  | upperBound
  | unsuffixedInteger
  | identifierOrUnderscore
  | segment
deriving DecidableEq, Repr

namespace Expectation

/-- A word between backquotes. -/
def marked (w : String) : String := "`" ++ w ++ "`"

/-- The wording of an expectation. -/
def text : Expectation → String
  | symbol y => marked y.text
  | keyword k => marked k.text
  | word w => marked w
  | delimiter .paren => "parentheses"
  | delimiter .bracket => "square brackets"
  | delimiter .brace => "curly braces"
  | identifier => "identifier"
  | anyWord => "ident"
  | literal => "literal"
  | integerLiteral => "integer literal"
  | stringLiteral => "string literal"
  | lifetime => "lifetime"
  | expression => "an expression"
  | member => "identifier or integer"
  | group => "delimiter"
  | loopOrBlock => "loop or block expression"
  | upperBound => "range upper bound"
  | unsuffixedInteger => "unsuffixed integer"
  | identifierOrUnderscore => "identifier or underscore"
  | segment => "path segment after `::`"

/-- The wording of alternatives. -/
def alternatives : List Expectation → String
  | [] => "expected nothing"
  | [a] => "expected " ++ a.text
  | [a, b] => "expected " ++ a.text ++ " or " ++ b.text
  | many => "expected one of: " ++ ", ".intercalate (many.map text)

end Expectation

/-- What may not follow a cast. -/
inductive CastFollower where
  | await
  | methodCall
  | fieldAccess
  | propagation
  | indexing
  | call
deriving DecidableEq, Repr

/-- The causes of a syntax error. -/
inductive Cause where
  /-- The text is no token list. -/
  | unreadable
  | expected (what : List Expectation)
  | reserved (k : Keyword)
  /-- Tokens are left over, inside brackets or at the end of the text. -/
  | leftover (inside : Option Delimiter)
  | unterminated
  | chainedComparison
  | castFollowedBy (what : CastFollower)
  | invalidDigit
  | tooLarge
  | labelledBreak
  | attributedRange
  | attributeInAttribute
  | captureElsewhere
  | conditionalConstElsewhere
  | constElsewhere
  | binderWithMaybe
  | objectWithoutTrait
  | implWithoutTrait
  | whereGenerics
  | secondReceiver
  | lateReceiver
  | negativeInherent
  | openRangeInSlice
  /-- Nothing is left where something has to be. -/
  | ended
  /-- Phrases are nested deeper than the grammar was asked to follow. -/
  | tooDeep
deriving DecidableEq, Repr

namespace Cause

/-- The wording of a cause. -/
def text : Cause → String
  | unreadable => "cannot parse string into token stream"
  | expected what => Expectation.alternatives what
  | reserved k => "expected identifier, found keyword `" ++ k.text ++ "`"
  | leftover none => "unexpected token"
  | leftover (some d) =>
    "unexpected token, expected " ++ Expectation.marked (String.singleton d.closing)
  | unterminated => "unexpected token, expected `;`"
  | chainedComparison => "comparison operators cannot be chained"
  | castFollowedBy .await => "casts cannot be followed by `.await`"
  | castFollowedBy .methodCall => "casts cannot be followed by a method call"
  | castFollowedBy .fieldAccess => "casts cannot be followed by a field access"
  | castFollowedBy .propagation => "casts cannot be followed by `?`"
  | castFollowedBy .indexing => "casts cannot be followed by indexing"
  | castFollowedBy .call => "casts cannot be followed by a function call"
  | invalidDigit => "invalid digit found in string"
  | tooLarge => "number too large to fit in target type"
  | labelledBreak => "parentheses required"
  | attributedRange =>
    "attributes are not allowed on range expressions starting with `..`"
  | attributeInAttribute => "unexpected attribute inside of attribute"
  | captureElsewhere => "`use<...>` precise capturing syntax is not allowed here"
  | conditionalConstElsewhere => "`[const]` is not allowed here"
  | constElsewhere => "`const` is not allowed here"
  | binderWithMaybe => "`for<...>` binder not allowed with `?` trait polarity modifier"
  | objectWithoutTrait => "at least one trait is required for an object type"
  | implWithoutTrait => "at least one trait must be specified"
  | whereGenerics => "generic parameters on `where` clauses are reserved for future use"
  | secondReceiver => "unexpected second method receiver"
  | lateReceiver => "unexpected method receiver"
  | negativeInherent => "inherent impls cannot be negative"
  | openRangeInSlice =>
    "range pattern is not allowed unparenthesized inside slice pattern"
  | ended => "unexpected end of input"
  | tooDeep => "phrases are nested too deeply"

end Cause

/-- A syntax error: its cause, and whether the tokens had run out. -/
structure SyntaxError where
  atEnd : Bool
  cause : Cause
deriving DecidableEq, Repr

namespace SyntaxError

/-- The wording of a syntax error. -/
def message (e : SyntaxError) : String :=
  if e.atEnd then "unexpected end of input, " ++ e.cause.text else e.cause.text

end SyntaxError

end Grammar

end ProcessCompiler
