import Mathlib.Data.List.Forall2
import PathFilter.Proofs.CaseFolding

/-!
# The case of ASCII letters is not seen

Where letter case is ignored, texts that differ in the case of ASCII letters alone are one text to a
plan: put in place of one another, as operands and as the path, they lead to the same verdict
(`Filter.examine_of_sameLetters`). What stands around the letters is arbitrary.

A letter is looked at in two ways when a text is lowered.

* **For its own sake** an ASCII capital is replaced by its small letter, which is left alone
  (`Text.smallLetter_of_isUpper`).
* **As a neighbour** it is asked by a capital sigma whether it is cased and whether it may be looked
  through. A capital and its small letter answer alike (`Text.isCased_toLower`,
  `Text.isIgnorable_toLower`), so the sigma takes the same form beside either
  (`Text.nearestIsCased_map_toLower`).

Both together say that the small ASCII letters may be put into a text before it is lowered
(`Text.lowerFrom_map_toLower`), and texts with the same letters have the same lower-case form
(`Text.SameLetters.lower_eq`). For other letters this fails: a capital and a small sigma at the end
of a word have different lower-case forms.
-/

namespace PathFilter

namespace Text

/-! ### ASCII letters one by one -/

/-- What holds of the twenty-six ASCII capitals holds of every character that is one. -/
theorem of_isUpper {P : Char → Prop} (h : ∀ i < 26, P (Char.ofNat (0x41 + i))) {c : Char}
    (hc : c.isUpper = true) : P c := by
  have hbounds : 'A'.val ≤ c.val ∧ c.val ≤ 'Z'.val := of_decide_eq_true hc
  have hrange : 0x41 ≤ c.toNat ∧ c.toNat ≤ 0x5A :=
    hbounds.imp UInt32.le_iff_toNat_le.mp UInt32.le_iff_toNat_le.mp
  -- the place of the capital in the alphabet
  have hplace := h (c.toNat - 0x41) (by omega)
  rwa [Nat.add_sub_cancel' hrange.1, Char.ofNat_toNat] at hplace

theorem toLower_of_not_isUpper {c : Char} (hc : ¬ c.isUpper = true) : c.toLower = c := by
  have hbounds : ¬ (c.val ≥ 'A'.val ∧ c.val ≤ 'Z'.val) := fun h => hc (decide_eq_true h)
  exact dif_neg hbounds

/-- The table leads from an ASCII capital to its small letter, and none of the exceptions is an
ASCII capital. -/
theorem smallLetter_of_isUpper {c : Char} (hc : c.isUpper = true) :
    smallLetter c = c.toLower ∧ c ≠ '\u0130' ∧ c ≠ 'Σ' := by
  revert hc
  exact of_isUpper (P := fun c => smallLetter c = c.toLower ∧ c ≠ '\u0130' ∧ c ≠ 'Σ')
    (by decide +kernel)

theorem isCased_toLower (c : Char) : isCased c.toLower = isCased c := by
  by_cases hc : c.isUpper = true
  · exact of_isUpper (P := fun c => isCased c.toLower = isCased c) (by decide +kernel) hc
  · rw [toLower_of_not_isUpper hc]

theorem isIgnorable_toLower (c : Char) : isIgnorable c.toLower = isIgnorable c := by
  by_cases hc : c.isUpper = true
  · exact of_isUpper (P := fun c => isIgnorable c.toLower = isIgnorable c) (by decide +kernel) hc
  · rw [toLower_of_not_isUpper hc]

/-! ### Small ASCII letters put in beforehand -/

/-- The case of the ASCII letters among the neighbours is not seen. -/
theorem nearestIsCased_map_toLower (cs : List Char) :
    nearestIsCased (cs.map Char.toLower) = nearestIsCased cs := by
  have hignorable : isIgnorable ∘ Char.toLower = isIgnorable := funext isIgnorable_toLower
  unfold nearestIsCased
  rw [List.dropWhile_map, hignorable]
  cases cs.dropWhile isIgnorable with
  | nil => rfl
  | cons c _ => exact isCased_toLower c

/-- So the case of ASCII letters does not tell a sigma whether it ends a word. -/
theorem endsWord_map_toLower (before after : List Char) :
    endsWord (before.map Char.toLower) (after.map Char.toLower) = endsWord before after := by
  rw [endsWord, nearestIsCased_map_toLower, nearestIsCased_map_toLower, endsWord]

/-- A character between its neighbours is lowered as its small ASCII letter is between theirs. -/
theorem lowerChar_map_toLower (before : List Char) (c : Char) (after : List Char) :
    lowerChar (before.map Char.toLower) c.toLower (after.map Char.toLower) =
      lowerChar before c after := by
  by_cases hc : c.isUpper = true
  · obtain ⟨hsmall, hdot, hsigma⟩ := smallLetter_of_isUpper hc
    -- the small letter stays as it is, and it is what the capital is replaced by
    have hstays : IsSmall c.toLower := hsmall ▸ isSmall_smallLetter hdot
    rw [hstays.lowerChar_eq, lowerChar, if_neg hdot, if_neg hsigma, hsmall]
  · rw [toLower_of_not_isUpper hc, lowerChar, endsWord_map_toLower, lowerChar]

/-- Small ASCII letters may be put in before a text is lowered. -/
theorem lowerFrom_map_toLower (before cs : List Char) :
    lowerFrom (before.map Char.toLower) (cs.map Char.toLower) = lowerFrom before cs := by
  -- the characters that were passed are among the neighbours, so the induction is for all of them
  induction cs generalizing before with
  | nil => rfl
  | cons c cs ih =>
    rw [List.map_cons, lowerFrom, lowerFrom, lowerChar_map_toLower, ← ih (c :: before),
      List.map_cons]

/-! ### Texts with the same letters -/

/-- Two characters that differ at most in the case of an ASCII letter. `Char.toLower` takes the
ASCII capitals to their small letters and every other character to itself. -/
def SameLetter (c d : Char) : Prop := c.toLower = d.toLower

/-- Two texts that differ, place by place, at most in the case of ASCII letters. -/
def SameLetters (s t : String) : Prop := List.Forall₂ SameLetter s.toList t.toList

/-- Texts with the same letters are those that are the same in small ASCII letters. -/
theorem sameLetters_iff {s t : String} :
    SameLetters s t ↔ s.toList.map Char.toLower = t.toList.map Char.toLower := by
  rw [← List.forall₂_eq_eq_eq, List.forall₂_map_left_iff, List.forall₂_map_right_iff]
  rfl

instance (s t : String) : Decidable (SameLetters s t) := decidable_of_iff _ sameLetters_iff.symm

/-- **Texts with the same letters** have the same lower-case form. -/
theorem SameLetters.lower_eq {s t : String} (h : SameLetters s t) : lower s = lower t := by
  have hsmall (u : String) : lowerFrom [] (u.toList.map Char.toLower) = (lower u).toList := by
    rw [toList_lower]
    exact lowerFrom_map_toLower [] u.toList
  apply String.toList_injective
  rw [← hsmall, ← hsmall, sameLetters_iff.mp h]

/-- The case of a letter before a sigma does not matter to it, but its own case does. -/
example : lower "AΣ" = lower "aΣ" ∧ lower "AΣ" ≠ lower "Aσ" := by decide +kernel

end Text

/-! ### Filters with the same letters -/

/-- Two operands that differ, text by text, at most in the case of ASCII letters. -/
def Arity.SameLetters : (a : Arity) → a.Operand → a.Operand → Prop
  | .one => Text.SameLetters
  | .many => List.Forall₂ Text.SameLetters

/-- Operands with the same letters have the same lower-case form. -/
theorem Arity.mapOperand_lower_of_sameLetters {a : Arity} {v w : a.Operand}
    (h : a.SameLetters v w) : a.mapOperand Text.lower v = a.mapOperand Text.lower w := by
  cases a with
  | one => exact h.lower_eq
  | many =>
    show List.map Text.lower v = List.map Text.lower w
    -- a list is compared text by text
    induction h with
    | nil => rfl
    | cons hhead _ ih => rw [List.map_cons, List.map_cons, hhead.lower_eq, ih]

namespace Filter

/-- Two filters with the same conditions, whose operands differ at most in the case of ASCII
letters. -/
def SameLetters (f g : Filter) : Prop :=
  ∀ k, Option.Rel k.arity.SameLetters (f.operand k) (g.operand k)

variable {f g : Filter}

theorem fold_of_ignoreCase (hf : f.ignoreCase = true) : f.fold = Text.lower := by
  funext s
  rw [fold, if_pos hf]

/-- Where letter case is ignored, filters with the same letters make the same checks. -/
theorem check?_of_sameLetters (hf : f.ignoreCase = true) (hg : g.ignoreCase = true)
    (h : f.SameLetters g) (k : Kind) : f.check? k = g.check? k := by
  have hk : Option.Rel k.arity.SameLetters (f.operand k) (g.operand k) := h k
  rw [check?_eq, check?_eq, fold_of_ignoreCase hf, fold_of_ignoreCase hg]
  generalize f.operand k = o, g.operand k = o' at hk
  -- the condition is absent in both filters, or has operands with the same letters
  cases hk with
  | none => rfl
  | some hv => rw [Option.map_some, Option.map_some, Arity.mapOperand_lower_of_sameLetters hv]

/-- **The case of ASCII letters is not seen.** Two filters that ignore letter case, have the same
conditions and differ at most in the case of ASCII letters give the same verdict on two paths that
differ no further. -/
theorem examine_of_sameLetters (hf : f.ignoreCase = true) (hg : g.ignoreCase = true)
    (h : f.SameLetters g) {p q : String} (hpq : Text.SameLetters p q) :
    f.plan.examine p = g.plan.examine q := by
  have hpath : f.fold p = g.fold q := by
    calc f.fold p
        = Text.lower p := by rw [fold_of_ignoreCase hf]
      _ = Text.lower q := hpq.lower_eq
      _ = g.fold q := by rw [fold_of_ignoreCase hg]
  exact examine_congr hpath (check?_of_sameLetters hf hg h)

/-- The letter before the sigma is written in either way, and the sigma ends a word in both
paths. -/
theorem examine_of_sameLetters_sigma :
    let f := build [.ignoreCase true, .condition .endsWith "xΣ",
      .condition .equalsOneOf ["k", "É/Q'Xς"]]
    let g := build [.ignoreCase true, .condition .endsWith "XΣ",
      .condition .equalsOneOf ["K", "É/q'xς"]]
    f.SameLetters g ∧ Text.SameLetters "É/Q'xΣ" "É/q'XΣ" ∧
      f.plan.examine "É/Q'xΣ" = g.plan.examine "É/q'XΣ" ∧
      (f.plan.examine "É/Q'xΣ").matched = true := by
  intro f g
  have hfg : f.SameLetters g := by
    have hone : Text.SameLetters "xΣ" "XΣ" := by decide
    have hmany : List.Forall₂ Text.SameLetters ["k", "É/Q'Xς"] ["K", "É/q'xς"] :=
      .cons (by decide) (.cons (by decide) .nil)
    -- a pair for each condition that is present, and nothing for the others
    intro k
    cases k with
    | endsWith => exact .some hone
    | equalsOneOf => exact .some hmany
    | _ => exact .none
  have hpath : Text.SameLetters "É/Q'xΣ" "É/q'XΣ" := by decide
  exact ⟨hfg, hpath, examine_of_sameLetters rfl rfl hfg hpath, by decide +kernel⟩

end Filter

end PathFilter
