import PathFilter.Script.Fault
import PathFilter.Text.Bytes

/-!
# Reports of faults

A **report** puts a fault into words together with the part of the script that it lies in. There
are two forms.

* A script of one line is shown whole, with a caret below the fault and what was expected below
  that. The caret is moved by one blank for each *byte* before the fault.
* Of a script of several lines the one with the fault is shown, with its number, the column and a
  caret. Columns count *characters*; only where the character at the fault takes more than one
  byte do they count the bytes of the line before it. A fault at the very end of the script lies
  one column behind its last character, on the line that this character belongs to, even if that
  character is a line feed.
-/

namespace PathFilter.Script

open Text (byteLength)

/-- The part of a text behind its last line feed. -/
def lastLine (cs : List Char) : List Char :=
  (cs.reverse.takeWhile (· != '\n')).reverse

/-- A run of blanks. -/
def blanks (n : Nat) : String := String.ofList (List.replicate n ' ')

namespace Fault

/-- What comes before the fault in a script. -/
def before (f : Fault) (script : List Char) : List Char :=
  script.take (script.length - f.rest.length)

/-- The number of bytes before the fault. -/
def offset (f : Fault) (script : List Char) : Nat := byteLength (f.before script)

/-- What was expected, in words; nothing at all where nothing is named. -/
def expectedText (f : Fault) : String :=
  if f.expected.isEmpty then ""
  else "expected " ++ ", ".intercalate (f.expected.map Expectation.text)

/-- The report on a script of one line. -/
def reportLine (f : Fault) (script : List Char) : String :=
  "\n".intercalate
    [String.ofList script, blanks (f.offset script) ++ "^", f.expectedText]

/-- What comes before the character that a report on several lines points at: at the end of the
script, where there is none, it points behind the last one. -/
def lead (f : Fault) (script : List Char) : List Char :=
  if f.rest.isEmpty then script.dropLast else f.before script

/-- The line number of the fault, counted from one. -/
def lineNumber (f : Fault) (script : List Char) : Nat := 1 + (f.lead script).count '\n'

/-- The line of the fault, without its line feed. -/
def line (f : Fault) (script : List Char) : List Char :=
  lastLine (f.lead script) ++ (script.drop (f.lead script).length).takeWhile (· != '\n')

/-- The column of the fault, counted from zero. -/
def column (f : Fault) (script : List Char) : Nat :=
  match f.rest with
  -- one behind the last character, which `lead` leaves out
  | [] => (lastLine (f.lead script)).length + 1
  | c :: _ =>
    if c.utf8Size = 1 then (lastLine (f.lead script)).length
    else byteLength (lastLine (f.lead script))

/-- The report on a script of several lines. -/
def reportLines (f : Fault) (script : List Char) : String :=
  let number := toString (f.lineNumber script)
  let gutter := blanks number.length
  "\n".intercalate
    ["parse error at line " ++ number ++ ", column " ++ toString (f.column script + 1),
      gutter ++ " |",
      number ++ " | " ++ String.ofList (f.line script),
      gutter ++ " | " ++ blanks (f.column script) ++ "^",
      f.expectedText]

/-- The report on the fault of a script. -/
def report (f : Fault) (script : List Char) : String :=
  if script.contains '\n' then f.reportLines script else f.reportLine script

end Fault

end PathFilter.Script
