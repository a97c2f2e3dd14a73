import PathFilter.Proofs.Examination
import PathFilter.Proofs.Text.SmallLetters

/-!
# Ignoring letter case is comparing lower-case texts

A filter that ignores letter case folds its operands when its plan is made, and each path when the
plan is asked. Both may as well be done beforehand, by whoever writes the filter and asks about the
path, and it does no harm to do them twice (`Filter.examine_lowered`).

The one fact behind all of this is that a lower-case text is folded to itself, whether letter case
is ignored or not (`Filter.fold_lower`): where it is, because lower-casing twice is lower-casing
once, and where it is not, because nothing is folded. So the lower-case operands make the same
checks under either flag (`Filter.check?_lowered`), and a plan is known by its checks and the path
that they are asked about (`Filter.examine_congr`).
-/

namespace PathFilter

namespace Filter

/-- The filter with the lower-case form of every text of its operands. -/
def lowered (f : Filter) : Filter :=
  ofOperands f.ignoreCase fun k => (f.operand k).map (k.arity.mapOperand Text.lower)

/-! ### Folding lower-case texts -/

theorem fold_lower (f : Filter) (s : String) : f.fold (Text.lower s) = Text.lower s := by
  unfold fold
  split
  · exact Text.lower_lower s
  · rfl

/-- An operand that is made of lower-case texts is folded to itself. -/
theorem mapOperand_fold_lower (f : Filter) (a : Arity) (v : a.Operand) :
    a.mapOperand f.fold (a.mapOperand Text.lower v) = a.mapOperand Text.lower v := by
  -- a list is lowered text by text
  cases a with
  | one => exact f.fold_lower v
  | many =>
    have hcomp : f.fold ∘ Text.lower = Text.lower := funext f.fold_lower
    show (List.map Text.lower v).map f.fold = List.map Text.lower v
    rw [List.map_map, hcomp]

/-! ### Plans of lower-case filters -/

/-- Lower-case operands make the checks of a filter that ignores letter case, under either
flag. -/
theorem check?_lowered (f : Filter) (b : Bool) (k : Kind) :
    (f.lowered.setIgnoreCase b).check? k = (f.setIgnoreCase true).check? k := by
  have hoperand (v : k.Operand) :
      k.arity.mapOperand (f.lowered.setIgnoreCase b).fold (k.arity.mapOperand Text.lower v) =
        k.arity.mapOperand (f.setIgnoreCase true).fold v :=
    mapOperand_fold_lower _ _ v
  -- the operands are the same fields, lowered once more on the left, which changes nothing
  rw [check?_eq, check?_eq, operand_setIgnoreCase, operand_setIgnoreCase, lowered,
    operand_ofOperands, Option.map_map]
  congr 1
  funext v
  exact congrArg k.check (hoperand v)

/-- Filters with the same checks give the same verdict on paths that they fold alike. -/
theorem examine_congr {f g : Filter} {p q : String} (hpath : f.fold p = g.fold q)
    (hcheck : ∀ k, f.check? k = g.check? k) : f.plan.examine p = g.plan.examine q := by
  rw [examine_plan, examine_plan, hpath, funext hcheck]

/-- **Ignoring letter case is comparing lower-case texts.** The verdict of a filter that ignores
letter case stays the same when the path is lower-cased beforehand, when the operands are, and when
both are and letter case counts. -/
theorem examine_lowered (f : Filter) (p : String) :
    (f.setIgnoreCase true).plan.examine (Text.lower p) = (f.setIgnoreCase true).plan.examine p ∧
    (f.lowered.setIgnoreCase true).plan.examine p = (f.setIgnoreCase true).plan.examine p ∧
    (f.lowered.setIgnoreCase false).plan.examine (Text.lower p) =
      (f.setIgnoreCase true).plan.examine p := by
  -- in each run the path that is compared is the lower-case form of `p`
  have hlower (g : Filter) : g.fold (Text.lower p) = (f.setIgnoreCase true).fold p :=
    g.fold_lower p
  refine ⟨?_, ?_, ?_⟩
  · exact examine_congr (hlower _) fun _ => rfl
  · exact examine_congr rfl (f.check?_lowered true)
  · exact examine_congr (hlower _) (f.check?_lowered false)

/-- A word that ends in a sigma is still found where letter case counts. -/
example :
    let f := build [.condition .equalsOneOf ["İ", "ΑΣ"]]
    (f.lowered.setIgnoreCase false).plan.examine (Text.lower "ΑΣ") = ⟨[.equalsOneOf], none⟩ := by
  decide +kernel

end Filter

end PathFilter
