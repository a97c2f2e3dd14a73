import PathFilter.Kind

/-!
# Verdicts

A **verdict** is the record of one evaluation: the kinds whose conditions were tried, in order,
and the kind that rejected the path, if one did. Whether the path was accepted is not recorded
apart from that — nothing rejected it — so the two cannot disagree.
-/

namespace PathFilter

/-- The record of one evaluation. -/
structure Verdict where
  /-- The kinds that were tried, in order, up to and including the one that rejected. -/
  evaluated : List Kind
  rejectedBy : Option Kind
  deriving DecidableEq, Repr

namespace Verdict

/-- Whether the path was accepted. -/
def matched (v : Verdict) : Bool := v.rejectedBy.isNone

/-- The verdict of an evaluation that tried `k` first, was not rejected by it, and went on. -/
def after (k : Kind) (v : Verdict) : Verdict := { v with evaluated := k :: v.evaluated }

/-- The verdict of an evaluation that ended where it began, with the rejection by `k`. -/
def rejected (k : Kind) : Verdict := ⟨[k], some k⟩

/-- The verdict of an evaluation with nothing left to try. -/
def done : Verdict := ⟨[], none⟩

@[simp] theorem matched_after (k : Kind) (v : Verdict) : (v.after k).matched = v.matched := rfl

@[simp] theorem matched_rejected (k : Kind) : (rejected k).matched = false := rfl

@[simp] theorem matched_done : done.matched = true := rfl

/-- The record in one line. -/
def text (v : Verdict) : String :=
  (match v.rejectedBy with
    | none => "matched"
    | some k => "rejected by " ++ k.name) ++
  ", evaluated: [" ++ ", ".intercalate (v.evaluated.map Kind.name) ++ "]"

end Verdict

end PathFilter
