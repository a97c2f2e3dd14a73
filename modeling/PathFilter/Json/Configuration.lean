import PathFilter.Filter
import PathFilter.Json.Record

/-!
# Configurations from JSON

A configuration is a record with the one field `path`, whose value is a filter; a filter is a
record with a field for the case flag and one for each kind of condition. Every field may be
missing or `null`: a missing filter is no filter, a missing flag is off, a missing condition is
absent. Nothing but blanks may stand behind the configuration.
-/

namespace PathFilter.Json

/-- The fields of a filter: the case flag, and one for each kind of condition. -/
inductive FilterField where
  | ignoreCase
  | condition (kind : Kind)
  deriving DecidableEq, Repr

/-- The key of a field. -/
def FilterField.key : FilterField → String
  | .ignoreCase => Filter.flagName
  | .condition k => k.name

/-- The fields of a filter, in the order in which they are written. -/
def FilterField.all : List FilterField := .ignoreCase :: Kind.documented.map .condition

/-- The reader of operands of a given arity. -/
def Reader.operand : (a : Arity) → Reader a.Operand
  | .one => Reader.string
  | .many => Reader.strings

/-- The reader of a field: `null` turns the flag off and takes a condition away. -/
def FilterField.reader : FilterField → Reader (Filter → Filter)
  | .ignoreCase => Reader.boolean.orNull.map fun b f => f.setIgnoreCase (b.getD false)
  | .condition k => (Reader.operand k.arity).orNull.map fun v f => f.put k v

/-- Filters as records. -/
def filterRecord : Record FilterField Filter where
  name := "PathConfig"
  fields := FilterField.all
  key := FilterField.key
  field := FilterField.reader

/-- The key of the filter in a configuration. -/
def sectionKey : String := "path"

/-- Configurations as records with one field. -/
def configurationRecord : Record Unit Configuration where
  name := "Config"
  fields := [()]
  key _ := sectionKey
  field _ := (filterRecord.reader Filter.empty).orNull.map fun f _ => f

/-- Reads a configuration and nothing behind it. -/
def readConfiguration (cs : List Char) : Except Fault Configuration :=
  match (configurationRecord.reader none).run cs with
  | .error f => .error f
  | .ok (c, rest) =>
    match skipBlanks rest with
    | [] => .ok c
    | left => .error (.past left .trailingCharacters)

/-- Why a text could not be loaded: a fault of that text. -/
structure Error where
  text : List Char
  fault : Fault
  deriving DecidableEq, Repr

/-- The wording of the refusal of a text. -/
def Error.message (e : Error) : String := e.fault.report e.text

/-- Loads the configuration that a JSON text writes down. -/
def load (text : String) : Except Error Configuration :=
  (readConfiguration text.toList).mapError fun f => ⟨text.toList, f⟩

end PathFilter.Json
