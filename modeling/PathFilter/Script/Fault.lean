/-!
# Faults of a filter script

A reader of script text either succeeds with a value and the text that is left, or fails with a
**fault**: the text that is left where it failed, and what would have been welcome there. A fault
names its place by that remaining text, so a place is a boundary between characters by
construction, and the number of the bytes before it is computed only where a fault is put into
words.
-/

namespace PathFilter.Script

/-- Something that would have been welcome at the place of a fault. -/
inductive Expectation where
  | char (c : Char)
  /-- A construct, named in words. -/
  | construct (name : String)
  deriving DecidableEq, Repr

/-- The wording of an expectation: a character stands between backticks. -/
def Expectation.text : Expectation → String
  | .char c => "`" ++ c.toString ++ "`"
  | .construct name => name

/-- Where reading failed, and what would have been welcome there, innermost construct first. -/
structure Fault where
  rest : List Char
  expected : List Expectation
  deriving DecidableEq, Repr

/-- The same fault, met while the construct `e` was being read. -/
def Fault.within (e : Expectation) (f : Fault) : Fault := { f with expected := f.expected ++ [e] }

/-- The outcome of a reader: a value and the text that is left, or a fault. -/
abbrev Read (α : Type) : Type := Except Fault (α × List Char)

theorem Read.ok_inj {α : Type} {a b : α} {rest rest' : List Char}
    (h : (.ok (a, rest) : Read α) = .ok (b, rest')) : a = b ∧ rest = rest' :=
  Prod.mk.inj (Except.ok.inj h)

/-- What succeeds after a function was applied to its outcome succeeded before. -/
theorem Read.map_eq_ok {α β : Type} {r : Read α} {f : α × List Char → β × List Char}
    {b : β} {rest : List Char} (h : r.map f = .ok (b, rest)) :
    ∃ a more, r = .ok (a, more) ∧ f (a, more) = (b, rest) := by
  cases r with
  | error _ => contradiction
  | ok p => exact ⟨p.1, p.2, rfl, Except.ok.inj h⟩

end PathFilter.Script
