import PathFilter.Decimal.Layout
import PathFilter.Text.Bytes

/-!
# Faults of a JSON text

A **fault** is a cause and a spot. The causes are those that this library can meet, each with
its wording (`Cause.message`) and its class (`Cause.category`).

A **spot** lies a few bytes past a place between characters, or at the end of the text if that
comes sooner. It is given by the text that is left at that place and the number of bytes beyond
it, because a reader sees only what is left: `Spot.index` works out the number of bytes before
it once the whole text is known, and `Position.ofIndex` the line and the column. A spot may lie
inside a character of several bytes, since some faults are met at the first byte of one.
-/

namespace PathFilter.Json

/-! ### Causes -/

/-- What was found where something else was wanted. -/
inductive Found where
  | null
  | boolean (b : Bool)
  | integer (n : Int)
  /-- A number that is written or has to be held as a binary fraction. -/
  | floating (negative : Bool) (magnitude : Decimal.Binary64)
  | text (s : List Char)
  | array
  | object
  deriving DecidableEq, Repr

/-- What was wanted where something else was found. -/
inductive Wanted where
  | boolean
  | text
  | array
  | record (name : String)
  deriving DecidableEq, Repr

/-- What is wrong with a text, or with a value in it. -/
inductive Cause where
  | endInArray
  | endInObject
  | endInText
  | endInValue
  | expectedColon
  | expectedCommaOrBracket
  | expectedCommaOrBrace
  /-- One of the words `null`, `true` and `false` is misspelt. -/
  | expectedWord
  | expectedValue
  | badEscape
  | badNumber
  | numberTooLarge
  /-- A surrogate escape without its partner. -/
  | loneSurrogate
  /-- A leading surrogate escape with something else than an escape behind it. -/
  | brokenPair
  | controlCharacter
  | keyNotText
  | trailingComma
  | trailingCharacters
  | wrongType (found : Found) (wanted : Wanted)
  | repeatedField (name : String)
  deriving DecidableEq, Repr

/-- The class of a cause: the text ends too soon, its values do not fit, or it is not JSON. -/
inductive Category where
  | ends
  | data
  | form
  deriving DecidableEq, Repr

/-- The class of each cause. -/
def Cause.category : Cause → Category
  | .endInArray | .endInObject | .endInText | .endInValue => .ends
  | .wrongType .. | .repeatedField _ => .data
  | _ => .form

/-- Numbers from 10⁻⁵ up to below 10¹⁶ are shown positionally. -/
def numberLayout : Decimal.Layout := ⟨-5, 15⟩

example : numberLayout.render ⟨['1', '5'], 15⟩ = "1500000000000000.0".toList := by decide

example : numberLayout.render ⟨['1', '5'], 16⟩ = "1.5e+16".toList := by decide

example : numberLayout.render ⟨['2'], -5⟩ = "0.00002".toList := by decide

example : numberLayout.render ⟨['2'], -6⟩ = "2e-6".toList := by decide

/-- A number in hexadecimal, with small letters and no leading zeros. -/
def hexDigits (n : Nat) : List Char := Nat.toDigits 16 n

/-- Whether a character is shown by its number since it has no shape of its own. -/
def isControl (c : Char) : Bool := c.toNat < 0x20 || (0x7f ≤ c.toNat && c.toNat < 0xa0)

/-- A character as it is shown in a quoted text of a message. -/
def shownChar (c : Char) : List Char :=
  if c = '"' then ['\\', '"']
  else if c = '\\' then ['\\', '\\']
  else if c = '\n' then ['\\', 'n']
  else if c = '\r' then ['\\', 'r']
  else if c = '\t' then ['\\', 't']
  else if c = '\x00' then ['\\', '0']
  else if isControl c then ['\\', 'u', '\x7b'] ++ hexDigits c.toNat ++ ['\x7d']
  else [c]

/-- The wording of what was found. -/
def Found.message : Found → String
  | .null => "null"
  | .boolean true => "boolean `true`"
  | .boolean false => "boolean `false`"
  | .integer n => "integer `" ++ toString n ++ "`"
  | .floating negative x =>
    "floating point `" ++ (if negative then "-" else "") ++
      String.ofList (numberLayout.renderMagnitude x) ++ "`"
  | .text s => "string \"" ++ String.ofList (s.flatMap shownChar) ++ "\""
  | .array => "sequence"
  | .object => "map"

/-- The wording of what was wanted. -/
def Wanted.message : Wanted → String
  | .boolean => "a boolean"
  | .text => "a string"
  | .array => "a sequence"
  | .record name => "struct " ++ name

/-- The wording of a cause. -/
def Cause.message : Cause → String
  | .endInArray => "EOF while parsing a list"
  | .endInObject => "EOF while parsing an object"
  | .endInText => "EOF while parsing a string"
  | .endInValue => "EOF while parsing a value"
  | .expectedColon => "expected `:`"
  | .expectedCommaOrBracket => "expected `,` or `]`"
  | .expectedCommaOrBrace => "expected `,` or `\x7d`"
  | .expectedWord => "expected ident"
  | .expectedValue => "expected value"
  | .badEscape => "invalid escape"
  | .badNumber => "invalid number"
  | .numberTooLarge => "number out of range"
  | .loneSurrogate => "lone leading surrogate in hex escape"
  | .brokenPair => "unexpected end of hex escape"
  | .controlCharacter =>
    "control character (\\u0000-\\u001F) found while parsing a string"
  | .keyNotText => "key must be a string"
  | .trailingComma => "trailing comma"
  | .trailingCharacters => "trailing characters"
  | .wrongType found wanted => "invalid type: " ++ found.message ++ ", expected " ++ wanted.message
  | .repeatedField name => "duplicate field `" ++ name ++ "`"

/-! ### Spots and positions -/

/-- The spot `past` bytes past the place where `rest` is left. -/
structure Spot where
  rest : List Char
  past : Nat
  deriving DecidableEq, Repr

/-- The number of bytes of the text before a spot. -/
def Spot.index (s : Spot) (text : List Char) : Nat :=
  min (Text.byteLength text) (Text.byteLength text - Text.byteLength s.rest + s.past)

/-- A line, counted from one, and the number of bytes between its start and a spot on it. -/
structure Position where
  line : Nat
  column : Nat
  deriving DecidableEq, Repr

/-- The position `count` bytes further on in the text `cs`, from a given one. -/
def Position.advance (p : Position) : Nat → List Char → Position
  | 0, _ => p
  | _ + 1, [] => p
  | count + 1, c :: cs =>
    if c = '\n' then Position.advance ⟨p.line + 1, 0⟩ count cs
    else
      -- the spot may lie inside this character
      Position.advance ⟨p.line, p.column + min (count + 1) c.utf8Size⟩ (count + 1 - c.utf8Size) cs

/-- The position with a given number of bytes before it. -/
def Position.ofIndex (count : Nat) (text : List Char) : Position :=
  Position.advance ⟨1, 0⟩ count text

/-- The wording of a position. -/
def Position.message (p : Position) : String :=
  "line " ++ toString p.line ++ " column " ++ toString p.column

/-! ### Faults -/

/-- A cause and the spot at which it was met. -/
structure Fault where
  spot : Spot
  cause : Cause
  deriving DecidableEq, Repr

/-- A fault where `rest` is left. -/
def Fault.here (rest : List Char) (cause : Cause) : Fault := ⟨⟨rest, 0⟩, cause⟩

/-- A fault one byte past the place where `rest` is left. -/
def Fault.past (rest : List Char) (cause : Cause) : Fault := ⟨⟨rest, 1⟩, cause⟩

/-- The report on a fault of a text. -/
def Fault.report (f : Fault) (text : List Char) : String :=
  f.cause.message ++ " at " ++ (Position.ofIndex (f.spot.index text) text).message

/-- The outcome of a reader: a value and the text that is left, or a fault. -/
abbrev Read (α : Type) : Type := Except Fault (α × List Char)

end PathFilter.Json
