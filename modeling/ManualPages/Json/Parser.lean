import ManualPages.Json.Value
import ManualPages.Json.Syntax
import ManualPages.Text.Utf8

/-! # Reading JSON

`parse` reads one value from a list of bytes.  Every reader below takes the bytes that are left and
returns what it read with the bytes after it, or a `Failure`: the cause and the bytes that are left
where the fault counts as met, from which `parse` works out the position.  Arrays and objects may
be nested 127 deep. -/

namespace ManualPages.Json

attribute [local instance (2000)] instPowNat

/-- How the bytes arrive.  In a stream the end of a number is known only when the byte after it has
been taken, and the place of a number out of range counts that byte. -/
inductive Source where
  | text
  | stream
deriving DecidableEq, Repr

namespace Parser

/-- A cause, and the bytes left where it was met. -/
structure Failure where
  cause : Cause
  rest : List UInt8

/-- Refuse what has been read so far; `rest` is left. -/
def fail {α : Type} (cause : Cause) (rest : List UInt8) : Except Failure α :=
  .error ⟨cause, rest⟩

/-- Refuse the next byte, which counts as read. -/
def failNext {α : Type} (cause : Cause) (rest : List UInt8) : Except Failure α :=
  .error ⟨cause, rest.tail⟩

/-- The character of an ASCII byte. -/
def ascii (b : UInt8) : Char := Char.ofUInt8 b

def isSpace (b : UInt8) : Bool := b == 0x20 || b == 0x0A || b == 0x09 || b == 0x0D

def skipSpace (s : List UInt8) : List UInt8 := s.dropWhile isSpace

def isDigit (b : UInt8) : Bool := (ascii b).isDigit

def digitValue (b : UInt8) : Nat := b.toNat - 48

/-- Is the next byte a digit? -/
def beforeDigit (s : List UInt8) : Bool := s.head?.any isDigit

/-- The letters of a literal after its first. -/
def literal : (letters : List Char) → List UInt8 → Except Failure (List UInt8)
  | [], s => .ok s
  | _ :: _, [] => fail .endInValue []
  | c :: letters, b :: s => if ascii b = c then literal letters s else fail .expectedLiteral s

/-! ### Numbers -/

/-- The largest integer literal without a sign. -/
def maxUnsigned : Nat := 2 ^ (64 : Nat) - 1

/-- The largest exponent that is read as written. -/
def maxExponent : Nat := 2 ^ (31 : Nat) - 1

/-- Append digits to `acc` as long as the number stays at most `limit`; also returns how many. -/
def takeDigits (limit : Nat) : (acc count : Nat) → List UInt8 → Nat × Nat × List UInt8
  | acc, count, [] => (acc, count, [])
  | acc, count, b :: s =>
    if isDigit b && acc * 10 + digitValue b ≤ limit then
      takeDigits limit (acc * 10 + digitValue b) (count + 1) s
    else (acc, count, b :: s)

def skipDigits (s : List UInt8) : List UInt8 := s.dropWhile isDigit

def powerOfTen (k : Nat) : Number.Binary64 := Number.Binary64.ofNat (10 ^ k)

/-- Multiply by a power of ten, in one step if the power is one of the format's, else in steps of
`10 ^ 308` downwards; `none` if the result is not finite. -/
def scale (x : Number.Binary64) (exponent : Int) : Option Number.Binary64 :=
  if exponent.natAbs ≤ 308 then
    if 0 ≤ exponent then
      let y := x.mul (powerOfTen exponent.toNat)
      if y.isFinite then some y else none
    else some (x.div (powerOfTen exponent.natAbs))
  else if x.isZero then some x
  else if 0 ≤ exponent then none
  else scale (x.div (powerOfTen 308)) (exponent + 308)
termination_by exponent.natAbs
decreasing_by omega

/-- What a number literal carries from one of its parts to the next. -/
structure Literal where
  source : Source
  negative : Bool
  significand : Nat
  exponent : Int

/-- The fraction that the literal denotes. -/
def Literal.finish (l : Literal) (s : List UInt8) : Except Failure (Number × List UInt8) :=
  match scale (Number.Binary64.ofNat l.significand) l.exponent with
  | some x => .ok (.fraction l.negative x, s)
  | none =>
    match l.source with
    | .text => fail .numberOutOfRange s
    | .stream => failNext .numberOutOfRange s

/-- The digits of an exponent, after its sign. -/
def Literal.exponentDigits (l : Literal) (negativeExponent : Bool) :
    List UInt8 → Except Failure (Number × List UInt8)
  | [] => fail .endInValue []
  | b :: s =>
    if isDigit b then
      let (e, _, s) := takeDigits maxExponent (digitValue b) 1 s
      if beforeDigit s then
        if l.significand ≠ 0 && !negativeExponent then failNext .numberOutOfRange s
        else .ok (.fraction l.negative (Number.Binary64.ofNat 0), skipDigits s)
      else
        { l with exponent := if negativeExponent then l.exponent - e else l.exponent + e }.finish s
    else fail .invalidNumber s

/-- What follows the letter `e`. -/
def Literal.exponentPart (l : Literal) : List UInt8 → Except Failure (Number × List UInt8)
  | [] => l.exponentDigits false []
  | b :: s =>
    if ascii b = '+' then l.exponentDigits false s
    else if ascii b = '-' then l.exponentDigits true s
    else l.exponentDigits false (b :: s)

/-- The rest of a literal after its last digit before an exponent. -/
def Literal.afterDigits (l : Literal) : List UInt8 → Except Failure (Number × List UInt8)
  | [] => l.finish []
  | b :: s => if ascii b = 'e' || ascii b = 'E' then l.exponentPart s else l.finish (b :: s)

/-- What follows the point.  Digits that the significand has no room for are passed over. -/
def Literal.decimals (l : Literal) (s : List UInt8) : Except Failure (Number × List UInt8) :=
  let (m, count, s) := takeDigits maxUnsigned l.significand 0 s
  let l := { l with significand := m, exponent := l.exponent - count }
  if beforeDigit s then l.afterDigits (skipDigits s)
  else if count = 0 then
    match s with
    | [] => fail .endInValue []
    | _ :: _ => failNext .invalidNumber s
  else l.afterDigits s

/-- The rest of a literal after the digits of its integer part. -/
def Literal.afterInteger (l : Literal) (s : List UInt8)
    (whole : Except Failure (Number × List UInt8)) : Except Failure (Number × List UInt8) :=
  match s with
  | [] => whole
  | b :: rest =>
    if ascii b = '.' then l.decimals rest
    else if ascii b = 'e' || ascii b = 'E' then l.exponentPart rest
    else whole

/-- A literal without point and exponent.  Minus zero, and what is below the least 64-bit integer,
is a fraction. -/
def Literal.integer (l : Literal) : Number :=
  if l.negative then
    if l.significand = 0 || 2 ^ (63 : Nat) < l.significand then
      .fraction true (Number.Binary64.ofNat l.significand)
    else .integer (-(l.significand : Int))
  else .integer l.significand

/-- A number after its sign. -/
def number (source : Source) (negative : Bool) :
    List UInt8 → Except Failure (Number × List UInt8)
  | [] => fail .endInValue []
  | b :: s =>
    if !isDigit b then fail .invalidNumber s
    else if ascii b = '0' then
      if beforeDigit s then failNext .invalidNumber s
      else
        let l : Literal := ⟨source, negative, 0, 0⟩
        l.afterInteger s (.ok (l.integer, s))
    else
      let (m, _, s) := takeDigits maxUnsigned (digitValue b) 1 s
      if beforeDigit s then
        let rest := skipDigits s
        let l : Literal := ⟨source, negative, m, (s.takeWhile isDigit).length⟩
        l.afterInteger rest (l.finish rest)
      else
        let l : Literal := ⟨source, negative, m, 0⟩
        l.afterInteger s (.ok (l.integer, s))

/-! ### Strings -/

def hexValue? (b : UInt8) : Option Nat :=
  let c := ascii b
  if c.isDigit then some (c.toNat - 48)
  else if 'a' ≤ c ∧ c ≤ 'f' then some (c.toNat - 87)
  else if 'A' ≤ c ∧ c ≤ 'F' then some (c.toNat - 55)
  else none

/-- Four hexadecimal digits. -/
def hexQuad : List UInt8 → Except Failure (Nat × List UInt8)
  | a :: b :: c :: d :: s =>
    match hexValue? a, hexValue? b, hexValue? c, hexValue? d with
    | some a, some b, some c, some d => .ok (((a * 16 + b) * 16 + c) * 16 + d, s)
    | _, _, _, _ => fail .invalidEscape s
  | _ => fail .endInString []

def isLeading (unit : Nat) : Bool := 0xD800 ≤ unit && unit ≤ 0xDBFF

def isTrailing (unit : Nat) : Bool := 0xDC00 ≤ unit && unit ≤ 0xDFFF

/-- The byte `expected` between the two halves of a surrogate pair. -/
def pairByte (expected : Char) : List UInt8 → Except Failure (List UInt8)
  | [] => fail .endInString []
  | b :: s => if ascii b = expected then .ok s else fail .unfinishedSurrogatePair s

/-- What follows `\u`: a code point, or the first half of a surrogate pair and then the second. -/
def unicodeEscape (s : List UInt8) : Except Failure (Char × List UInt8) := do
  let (unit, s) ← hexQuad s
  if isTrailing unit then fail .loneSurrogate s
  else if isLeading unit then
    let s ← pairByte '\\' s
    let s ← pairByte 'u' s
    let (second, s) ← hexQuad s
    if isTrailing second then
      .ok (Char.ofNat (0x10000 + (unit - 0xD800) * 0x400 + (second - 0xDC00)), s)
    else fail .loneSurrogate s
  else .ok (Char.ofNat unit, s)

/-- What follows a backslash. -/
def escape : List UInt8 → Except Failure (Char × List UInt8)
  | [] => fail .endInString []
  | b :: s =>
    match ascii b with
    | '"' => .ok ('"', s)
    | '\\' => .ok ('\\', s)
    | '/' => .ok ('/', s)
    | 'b' => .ok ('\x08', s)
    | 'f' => .ok ('\x0c', s)
    | 'n' => .ok ('\n', s)
    | 'r' => .ok ('\r', s)
    | 't' => .ok ('\t', s)
    | 'u' => unicodeEscape s
    | _ => fail .invalidEscape s

/-- The bytes of a string up to its closing quote, escapes resolved, before those in `acc`. -/
def stringBytes :
    (fuel : Nat) → (acc : List UInt8) → List UInt8 → Except Failure (List UInt8 × List UInt8)
  | 0, _, _ => fail .endInString []
  | _ + 1, _, [] => fail .endInString []
  | fuel + 1, acc, b :: s =>
    if ascii b = '"' then .ok (acc.reverse, s)
    else if ascii b = '\\' then
      match escape s with
      | .ok (c, s) => stringBytes fuel ((Utf8.encode c.toString).reverse ++ acc) s
      | .error e => .error e
    else if b < 0x20 then fail .controlCharacter s
    else stringBytes fuel (b :: acc) s

/-- A string after its opening quote, if `fuel` exceeds the bytes that are left.  A string that is
not UTF-8 is refused at a place counted back from its closing quote: as many bytes as the text has
from its first ill-formed sequence on, an escape taken for the bytes of its character. -/
def string (fuel : Nat) (s : List UInt8) : Except Failure (String × List UInt8) := do
  let (bytes, rest) ← stringBytes fuel [] s
  match Utf8.text? bytes with
  | some text => .ok (text, rest)
  | none =>
    let taken := s.length - rest.length
    fail .invalidUtf8 (s.drop (taken - (Utf8.decode bytes).2.length))

/-! ### Values -/

mutual

def value (source : Source) :
    (fuel depth : Nat) → List UInt8 → Except Failure (Value × List UInt8)
  | 0, _, s => fail .tooDeep s
  | fuel + 1, depth, s =>
    match skipSpace s with
    | [] => fail .endInValue []
    | b :: s =>
      match ascii b with
      | 'n' => do pure (.null, ← literal ['u', 'l', 'l'] s)
      | 't' => do pure (.bool true, ← literal ['r', 'u', 'e'] s)
      | 'f' => do pure (.bool false, ← literal ['a', 'l', 's', 'e'] s)
      | '"' => do
        let (text, s) ← string fuel s
        pure (.string text, s)
      | '-' => do
        let (n, s) ← number source true s
        pure (.number n, s)
      | '[' => if depth ≤ 1 then fail .tooDeep s else elements source fuel (depth - 1) [] s
      | '{' => if depth ≤ 1 then fail .tooDeep s else members source fuel (depth - 1) true [] s
      | _ =>
        if isDigit b then do
          let (n, s) ← number source false (b :: s)
          pure (.number n, s)
        else fail .expectedValue s

/-- The elements of an array after those in `acc`, which are in reverse. -/
def elements (source : Source) :
    (fuel depth : Nat) → (acc : List Value) → List UInt8 → Except Failure (Value × List UInt8)
  | 0, _, _, s => fail .tooDeep s
  | fuel + 1, depth, acc, s =>
    match skipSpace s with
    | [] => fail .endInList []
    | b :: s =>
      if ascii b = ']' then .ok (.array acc.reverse, s)
      else if acc.isEmpty then do
        let (v, s) ← value source fuel depth (b :: s)
        elements source fuel depth (v :: acc) s
      else if ascii b = ',' then
        match skipSpace s with
        | [] => fail .endInValue []
        | b :: s =>
          if ascii b = ']' then fail .trailingComma s
          else do
            let (v, s) ← value source fuel depth (b :: s)
            elements source fuel depth (v :: acc) s
      else fail .expectedCommaOrBracket s

/-- The members of an object that follow those in `acc`. -/
def members (source : Source) :
    (fuel depth : Nat) → (first : Bool) → (acc : Members) → List UInt8 →
      Except Failure (Value × List UInt8)
  | 0, _, _, _, s => fail .tooDeep s
  | fuel + 1, depth, first, acc, s =>
    match skipSpace s with
    | [] => fail .endInObject []
    | b :: s =>
      if ascii b = '}' then .ok (.object acc, s)
      else if first then
        if ascii b = '"' then member source fuel depth acc s else fail .keyNotString s
      else if ascii b = ',' then
        match skipSpace s with
        | [] => fail .endInValue []
        | b :: s =>
          if ascii b = '"' then member source fuel depth acc s
          else if ascii b = '}' then fail .trailingComma s
          else fail .keyNotString s
      else fail .expectedCommaOrBrace s

/-- One member after the opening quote of its key, and those that follow. -/
def member (source : Source) :
    (fuel depth : Nat) → (acc : Members) → List UInt8 → Except Failure (Value × List UInt8)
  | 0, _, _, s => fail .tooDeep s
  | fuel + 1, depth, acc, s => do
    let (key, s) ← string fuel s
    match skipSpace s with
    | [] => fail .endInObject []
    | b :: s =>
      if ascii b = ':' then
        let (v, s) ← value source fuel depth s
        members source fuel depth false (acc.insert key v) s
      else fail .expectedColon s

end

/-- The nesting at which an array or object is refused. -/
def maxDepth : Nat := 128

/-- One value and nothing after it.  Of two steps that follow each other at least one takes a byte,
so the fuel always exceeds the bytes that are left. -/
def document (source : Source) (s : List UInt8) : Except Failure Value := do
  let (v, s) ← value source (2 * s.length + 2) maxDepth s
  match skipSpace s with
  | [] => .ok v
  | _ :: s => fail .trailingCharacters s

end Parser

/-- Read a JSON text. -/
def parse (source : Source) (bytes : List UInt8) : Except SyntaxError Value :=
  match Parser.document source bytes with
  | .ok v => .ok v
  | .error e => .error ⟨e.cause, .after (bytes.take (bytes.length - e.rest.length))⟩

end ManualPages.Json
