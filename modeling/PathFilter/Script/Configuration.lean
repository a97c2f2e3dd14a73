import PathFilter.Filter
import PathFilter.Script.Report
import PathFilter.Script.Section

/-!
# Configurations from scripts

The entries of a section are taken into a filter one by one (`addEntry`). Of each entry the
**name** is asked first, then whether it was there **before**, then whether its **value** has the
shape that the name calls for; the first entry that fails decides the complaint, so nothing that
is appended to a section with a wrong entry changes what is said about it.

Whether a condition was there before is read off the filter that is being made. Whether the case
flag was there is kept apart from the filter, as part of the `Intake`.

A script without a section configures no filter; a section without entries configures the filter
without conditions.
-/

namespace PathFilter.Script

/-- What is wrong with an entry, given the entries before it. -/
inductive EntryError where
  /-- The name is that of no kind. -/
  | unknown (error : UnknownKind)
  /-- The case flag was there before. -/
  | repeatedFlag
  /-- The case flag has a value. -/
  | flagValue
  /-- The condition was there before. -/
  | repeated (kind : Kind)
  /-- The condition has no value. -/
  | missingValue (kind : Kind)
  /-- The condition takes a list and has a single text. -/
  | needsList (kind : Kind)
  /-- The condition takes a single text and has a list. -/
  | needsText (kind : Kind)
  deriving DecidableEq, Repr

/-- The wording of the complaint about an entry. -/
def EntryError.message : EntryError → String
  | .unknown e => e.message
  | .repeatedFlag => "duplicate '" ++ Filter.flagName ++ "'"
  | .flagValue => "'" ++ Filter.flagName ++ "' takes no value"
  | .repeated k => "duplicate condition '" ++ k.name ++ "'"
  | .missingValue k => "condition '" ++ k.name ++ "' requires a value"
  | .needsList k => "condition '" ++ k.name ++ "' expects a list of strings"
  | .needsText k => "condition '" ++ k.name ++ "' expects a single string"

/-- Gives a condition the value of its entry. -/
def addValue (f : Filter) (k : Kind) : Value → Except EntryError Filter
  | .flag => .error (.missingValue k)
  | .text s => (f.setText? k s).elim (.error (.needsList k)) .ok
  | .list ss => (f.setTexts? k ss).elim (.error (.needsText k)) .ok

/-- What is known while the entries of a section are taken one by one. -/
structure Intake where
  /-- What the entries so far configure. -/
  filter : Filter := Filter.empty
  /-- Whether the case flag was among them. -/
  sawFlag : Bool := false

/-- Takes one entry. -/
def addEntry (s : Intake) (e : Entry) : Except EntryError Intake :=
  if e.name = Filter.flagName then
    -- the repetition is complained of before the value
    if s.sawFlag then .error .repeatedFlag
    else if e.value = .flag then .ok ⟨s.filter.setIgnoreCase true, true⟩
    else .error .flagValue
  else
    match Kind.parse e.name with
    | .error u => .error (.unknown u)
    -- and so it is here, before the shape of the value
    | .ok k =>
      if s.filter.isSet k then .error (.repeated k)
      else (addValue s.filter k e.value).map fun f => { s with filter := f }

/-- The filter of the entries of a section. -/
def filterOf (es : List Entry) : Except EntryError Filter :=
  (es.foldlM addEntry {}).map Intake.filter

/-- The configuration of the entries of a script, if it has a section. -/
def configurationOf : Option (List Entry) → Except EntryError Configuration
  | none => .ok none
  | some es => (filterOf es).map some

/-- Why a script could not be loaded. -/
inductive Error where
  /-- The text has not the form of a script. -/
  | malformed (script : List Char) (fault : Fault)
  /-- An entry is wrong. -/
  | entry (error : EntryError)
  deriving DecidableEq, Repr

/-- The wording of the refusal of a script. -/
def Error.message : Error → String
  | .malformed script f => f.report script
  | .entry e => e.message

/-- Loads the configuration that a script writes down. Faults of form come first. -/
def load (script : String) : Except Error Configuration :=
  match readScript script.toList with
  | .error f => .error (.malformed script.toList f)
  | .ok section? => (configurationOf section?).mapError .entry

end PathFilter.Script
