import PathFilter.Filter
import PathFilter.Json.Configuration

/-!
# Configurations as JSON

The **written form** of a configuration is compact: no blanks, the members of a filter in the
fixed order `FilterField.all`, the flag always and a condition only where it is present. In a text
the quote, the backslash and the control characters below the blank are escaped, with the short
escape where there is one; every other character stands for itself.
-/

namespace PathFilter.Json

/-- A hexadecimal digit, in small letters. -/
def hexDigit (n : Nat) : Char := Nat.digitChar n

/-- A character as it is written in a text. -/
def escape (c : Char) : List Char :=
  if c = '"' then ['\\', '"']
  else if c = '\\' then ['\\', '\\']
  else if c = '\x08' then ['\\', 'b']
  else if c = '\x0c' then ['\\', 'f']
  else if c = '\n' then ['\\', 'n']
  else if c = '\r' then ['\\', 'r']
  else if c = '\t' then ['\\', 't']
  else if isForbidden c then
    ['\\', 'u', '0', '0', hexDigit (c.toNat / 16), hexDigit (c.toNat % 16)]
  else [c]

/-- A text in its quotes. -/
def writeText (s : String) : List Char := '"' :: (s.toList.flatMap escape ++ ['"'])

/-- The parts of an array or an object, with commas between them and nowhere else. -/
def commaSeparated (parts : List (List Char)) : List Char := [','].intercalate parts

/-- An operand: a text or an array of texts. -/
def writeOperand : (a : Arity) → a.Operand → List Char
  | .one, s => writeText s
  | .many, ss => '[' :: (commaSeparated (ss.map writeText) ++ [']'])

/-- A member: its key as a text, and its value. -/
def writeMember (key : String) (value : List Char) : List Char := writeText key ++ ':' :: value

/-- One of the words `true` and `false`. -/
def writeBoolean : Bool → List Char
  | true => ['t', 'r', 'u', 'e']
  | false => ['f', 'a', 'l', 's', 'e']

/-- The member for a field of a filter, if it is written. -/
def writeField? (f : Filter) : FilterField → Option (List Char)
  | .ignoreCase => some (writeMember Filter.flagName (writeBoolean f.ignoreCase))
  | .condition k => (f.operand k).map fun v => writeMember k.name (writeOperand k.arity v)

/-- An object of members that are written already. -/
def writeObject (members : List (List Char)) : List Char := '{' :: (commaSeparated members ++ ['}'])

/-- A filter: an object of the fields that are written, in their fixed order. -/
def writeFilter (f : Filter) : List Char :=
  writeObject (FilterField.all.filterMap (writeField? f))

/-- A configuration: without a filter, an object without members. -/
def writeConfiguration : Configuration → List Char
  | none => writeObject []
  | some f => writeObject [writeMember sectionKey (writeFilter f)]

/-- The JSON text of a configuration. -/
def write (c : Configuration) : String := String.ofList (writeConfiguration c)

end PathFilter.Json
