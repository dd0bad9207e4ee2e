/-! # What makes a text no JSON

A `SyntaxError` is a cause and the place where it was met.  A `Position` counts lines from one and,
in the last line, the bytes that have been read; `Position.after` computes it from those bytes. -/

namespace ManualPages.Json

/-- Why a text is refused. -/
inductive Cause where
  | endInValue
  | endInList
  | endInObject
  | endInString
  | expectedValue
  | expectedLiteral
  | invalidNumber
  | numberOutOfRange
  | keyNotString
  | expectedColon
  | expectedCommaOrBrace
  | expectedCommaOrBracket
  | trailingComma
  | trailingCharacters
  | controlCharacter
  | invalidEscape
  | unfinishedSurrogatePair
  | loneSurrogate
  | invalidUtf8
  | tooDeep
deriving DecidableEq, Repr

namespace Cause

def message : Cause → String
  | endInValue => "EOF while parsing a value"
  | endInList => "EOF while parsing a list"
  | endInObject => "EOF while parsing an object"
  | endInString => "EOF while parsing a string"
  | expectedValue => "expected value"
  | expectedLiteral => "expected ident"
  | invalidNumber => "invalid number"
  | numberOutOfRange => "number out of range"
  | keyNotString => "key must be a string"
  | expectedColon => "expected \x60:\x60"
  | expectedCommaOrBrace => "expected \x60,\x60 or \x60\x7d\x60"
  | expectedCommaOrBracket => "expected \x60,\x60 or \x60]\x60"
  | trailingComma => "trailing comma"
  | trailingCharacters => "trailing characters"
  | controlCharacter => "control character (\\u0000-\\u001F) found while parsing a string"
  | invalidEscape => "invalid escape"
  | unfinishedSurrogatePair => "unexpected end of hex escape"
  | loneSurrogate => "lone leading surrogate in hex escape"
  | invalidUtf8 => "invalid unicode code point"
  | tooDeep => "recursion limit exceeded"

end Cause

/-- A place in a text: the line, from one, and the bytes read in that line. -/
structure Position where
  line : Nat
  column : Nat
deriving DecidableEq, Repr

namespace Position

def newline : UInt8 := 10

/-- The place that is reached when `bytes` have been read. -/
def after (bytes : List UInt8) : Position where
  line := 1 + bytes.count newline
  column := (bytes.reverse.takeWhile (· != newline)).length

end Position

structure SyntaxError where
  cause : Cause
  position : Position
deriving DecidableEq, Repr

namespace SyntaxError

def message (e : SyntaxError) : String :=
  s!"{e.cause.message} at line {e.position.line} column {e.position.column}"

end SyntaxError

end ManualPages.Json
