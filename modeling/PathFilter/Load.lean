import PathFilter.Json.Configuration
import PathFilter.Plan
import PathFilter.Script.Configuration

/-!
# Loading

A configuration is loaded from a script or from a JSON text, and a plan from either or from a
stored script. A `Place` is what can be met where a stored script is looked for; its bytes are a
script only if they are the UTF-8 form of some text (`Place.text`), which is asked before anything
is read of it, so a place whose bytes are no text is refused as such even if they start with a
faulty script.
-/

namespace PathFilter

/-! ### Stored scripts -/

/-- What is met where a stored script is looked for. -/
inductive Place where
  /-- A file with these bytes. -/
  | file (bytes : ByteArray)
  /-- Nothing, in a directory that exists. -/
  | nothing
  | directory
  /-- A name below something that is no directory. -/
  | belowFile

/-- Why no text could be had from a place. -/
inductive StorageError where
  | notFound
  | isDirectory
  | notDirectory
  /-- The bytes are not the UTF-8 form of a text. -/
  | notText
  deriving DecidableEq, Repr

/-- The wording of the refusal of a place. -/
def StorageError.message : StorageError → String
  | .notFound => "No such file or directory (os error 2)"
  | .isDirectory => "Is a directory (os error 21)"
  | .notDirectory => "Not a directory (os error 20)"
  | .notText => "stream did not contain valid UTF-8"

def Place.text : Place → Except StorageError String
  | .file bytes =>
    match String.fromUTF8? bytes with
    | some s => .ok s
    | none => .error .notText
  | .nothing => .error .notFound
  | .directory => .error .isDirectory
  | .belowFile => .error .notDirectory

/-- The bytes of a text are read back as that text. -/
theorem Place.text_file_toUTF8 (s : String) : (Place.file s.toUTF8).text = .ok s := by
  simp only [Place.text, String.fromUTF8?, String.toUTF8_eq_toByteArray, s.isValidUTF8,
    dite_true]
  rfl

/-! ### Errors -/

/-- Why loading failed. -/
inductive LoadError where
  | script (error : Script.Error)
  | json (error : Json.Error)
  | storage (error : StorageError)
  deriving DecidableEq, Repr

/-- The wording of a refusal. -/
def LoadError.message : LoadError → String
  | .script e => "parse error: " ++ e.message
  | .json e => "invalid JSON config: " ++ e.message
  | .storage e => e.message

/-! ### Configurations and plans -/

/-- The configuration that a script writes down. -/
def Configuration.ofScript (script : String) : Except LoadError Configuration :=
  (Script.load script).mapError .script

/-- The configuration that a JSON text writes down. -/
def Configuration.ofJson (text : String) : Except LoadError Configuration :=
  (Json.load text).mapError .json

/-- The plan of the filter that a script writes down, if it writes one down. -/
def Plan.ofScript (script : String) : Except LoadError (Option Plan) :=
  (Configuration.ofScript script).map Configuration.plan?

/-- The plan of the filter that a JSON text writes down, if it writes one down. -/
def Plan.ofJson (text : String) : Except LoadError (Option Plan) :=
  (Configuration.ofJson text).map Configuration.plan?

/-- The plan of the filter that the script at a place writes down, if it writes one down. -/
def Plan.ofPlace (place : Place) : Except LoadError (Option Plan) :=
  match place.text with
  | .error e => .error (.storage e)
  | .ok script => Plan.ofScript script

end PathFilter
