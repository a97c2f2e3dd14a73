import PathFilter.Text.Lower

/-!
# Texts in lower case

Lower-casing a text that is in lower case already changes nothing, and every lower-case form is in
lower case; so lower-casing twice is lower-casing once (`lower_lower`).

The second half is a property of the table of capitals, and not of the way in which it is used: a
shift could well lead from one capital to another. A character is **small** when neither a run of
capitals nor the dotted capital I claims it (`IsSmall`). Between any neighbours a small character
stays as it is (`IsSmall.lowerChar_eq`), and whatever lower-casing puts in the place of a character
is small (`isSmall_of_mem_lowerChar`). This holds of both forms of sigma, so the neighbours, which
decide between the two, need not be looked at.

That no shift leads to a capital would take a comparison of every run with every other. It is
decided at once on two sets of code points, each written as the bits of one number
(`bits_capitals_and_bits_images`).
-/

namespace PathFilter.Text

/-! ### Sets of numbers as bits -/

/-- The number that has a one at each place of the list. -/
def bits : List Nat → Nat
  | [] => 0
  | n :: ns => 1 <<< n ||| bits ns

/-- The places with a one are those of the list. -/
theorem testBit_bits {ns : List Nat} {k : Nat} : (bits ns).testBit k = true ↔ k ∈ ns := by
  -- along the list: each number adds the one bit at its place
  induction ns with
  | nil => simp [bits]
  | cons n ns ih =>
    have hhead : (1 <<< n).testBit k = true ↔ k = n := by
      rw [Nat.one_shiftLeft, Nat.testBit_two_pow, decide_eq_true_iff]
      exact eq_comm
    rw [bits, Nat.testBit_or, Bool.or_eq_true, hhead, ih, List.mem_cons]

/-- Lists without a common bit have no common element. -/
theorem notMem_of_bits_and_bits {ns ms : List Nat} (h : bits ns &&& bits ms = 0) {k : Nat}
    (hk : k ∈ ms) : k ∉ ns := by
  intro hkn
  have hbit : (bits ns &&& bits ms).testBit k = true := by
    rw [Nat.testBit_and, testBit_bits.mpr hkn, testBit_bits.mpr hk, Bool.and_self]
  rw [h, Nat.zero_testBit] at hbit
  exact Bool.false_ne_true hbit

/-! ### Capitals and their small letters -/

/-- The code points of a run. -/
def CaseRun.capitals (r : CaseRun) : List Nat :=
  (List.range ((r.last - r.first) / r.step + 1)).map fun i => r.first + i * r.step

/-- The code point of the small letter of a capital of the run. -/
def CaseRun.image (r : CaseRun) (n : Nat) : Nat := ((n : Int) + r.shift).toNat

/-- The code points that lower-casing does not leave alone. -/
def capitals : List Nat := 0x130 :: caseRuns.flatMap CaseRun.capitals

/-- The code points that a run leads to. -/
def images : List Nat := caseRuns.flatMap fun r => r.capitals.map r.image

/-- A code point that a run covers is one of its capitals. -/
theorem CaseRun.mem_capitals_of_covers {r : CaseRun} {n : Nat} (h : r.covers n = true) :
    n ∈ r.capitals := by
  simp only [covers, Bool.and_eq_true, decide_eq_true_iff, beq_iff_eq] at h
  obtain ⟨⟨hfirst, hlast⟩, hstep⟩ := h
  -- the place of the capital in its run
  have hplace : (n - r.first) / r.step < (r.last - r.first) / r.step + 1 :=
    Nat.lt_succ_of_le (Nat.div_le_div_right (Nat.sub_le_sub_right hlast _))
  have heq : r.first + (n - r.first) / r.step * r.step = n := by
    rw [Nat.div_mul_cancel (Nat.dvd_of_mod_eq_zero hstep), Nat.add_sub_cancel' hfirst]
  exact List.mem_map.mpr ⟨_, List.mem_range.mpr hplace, heq⟩

theorem mem_capitals_of_covers {r : CaseRun} (hr : r ∈ caseRuns) {n : Nat}
    (h : r.covers n = true) : n ∈ capitals :=
  List.mem_cons_of_mem _ (List.mem_flatMap.mpr ⟨r, hr, r.mem_capitals_of_covers h⟩)

theorem image_mem_images {r : CaseRun} (hr : r ∈ caseRuns) {n : Nat} (h : r.covers n = true) :
    r.image n ∈ images :=
  List.mem_flatMap.mpr ⟨r, hr, List.mem_map_of_mem (r.mem_capitals_of_covers h)⟩

/-- **No shift leads to a capital.** -/
theorem bits_capitals_and_bits_images : bits capitals &&& bits images = 0 := by decide +kernel

/-! ### Small characters -/

/-- A character that lower-casing leaves alone. -/
def IsSmall (c : Char) : Prop := c ≠ '\u0130' ∧ ∀ r ∈ caseRuns, r.covers c.toNat = false

instance (c : Char) : Decidable (IsSmall c) := inferInstanceAs (Decidable (_ ∧ _))

/-- A character that is none of the capitals is small. -/
theorem isSmall_of_notMem_capitals {c : Char} (h : c.toNat ∉ capitals) : IsSmall c := by
  constructor
  · rintro rfl
    exact h List.mem_cons_self
  · intro r hr
    rw [Bool.eq_false_iff]
    intro hc
    exact h (mem_capitals_of_covers hr hc)

/-- A small character is left alone by the table. -/
theorem IsSmall.smallLetter_eq {c : Char} (h : IsSmall c) : smallLetter c = c := by
  have hnone : caseRuns.find? (·.covers c.toNat) = none := by
    rw [List.find?_eq_none]
    intro r hr
    rw [h.2 r hr]
    exact Bool.false_ne_true
  rw [smallLetter, hnone]

theorem not_isSmall_sigma : ¬ IsSmall 'Σ' := by decide +kernel

/-- A small character stays as it is between any neighbours. -/
theorem IsSmall.lowerChar_eq {c : Char} (h : IsSmall c) (before after : List Char) :
    lowerChar before c after = [c] := by
  have hσ : c ≠ 'Σ' := by
    rintro rfl
    exact not_isSmall_sigma h
  rw [lowerChar, if_neg h.1, if_neg hσ, h.smallLetter_eq]

/-- A number that is no code point gives the character with the code point zero. -/
theorem toNat_ofNat_or (n : Nat) : (Char.ofNat n).toNat = n ∨ (Char.ofNat n).toNat = 0 := by
  by_cases h : n.isValidChar
  · left
    rw [Char.ofNat, dif_pos h]
    rfl
  · right
    rw [Char.ofNat, dif_neg h]
    rfl

/-- What the table leads to is small, whether or not a run covers the character. -/
theorem isSmall_smallLetter {c : Char} (hc : c ≠ '\u0130') : IsSmall (smallLetter c) := by
  unfold smallLetter
  split
  · next r hr =>
    -- the shift of a run that covers the character leads to no capital
    have himage : r.image c.toNat ∉ capitals := by
      have hcovers : r.covers c.toNat = true := by simpa using List.find?_some hr
      have hmem := image_mem_images (List.mem_of_find?_eq_some hr) hcovers
      exact notMem_of_bits_and_bits bits_capitals_and_bits_images hmem
    apply isSmall_of_notMem_capitals
    change (Char.ofNat (r.image c.toNat)).toNat ∉ capitals
    rcases toNat_ofNat_or (r.image c.toNat) with heq | hzero
    · rwa [heq]
    · rw [hzero]
      decide +kernel
  · next hnone =>
    refine ⟨hc, fun r hr => ?_⟩
    have hneg := List.find?_eq_none.mp hnone r hr
    rwa [Bool.not_eq_true] at hneg

/-- What stands for a character in lower case is small. -/
theorem isSmall_of_mem_lowerChar {before after : List Char} {c d : Char}
    (h : d ∈ lowerChar before c after) : IsSmall d := by
  unfold lowerChar at h
  -- the dotted capital, the sigma, and what the table leads to
  split at h
  · have hdotted : IsSmall 'i' ∧ IsSmall '\u0307' := by decide +kernel
    rw [List.mem_cons, List.mem_singleton] at h
    rcases h with rfl | rfl
    · exact hdotted.1
    · exact hdotted.2
  · next hdot =>
    split at h
    · -- either form of sigma
      have hsigmas : IsSmall 'ς' ∧ IsSmall 'σ' := by decide +kernel
      rw [List.mem_singleton.mp h]
      split
      · exact hsigmas.1
      · exact hsigmas.2
    · rw [List.mem_singleton.mp h]
      exact isSmall_smallLetter hdot

/-! ### Whole texts -/

/-- Every character of a lower-case form is small. -/
theorem isSmall_of_mem_lowerFrom {before cs : List Char} {d : Char}
    (h : d ∈ lowerFrom before cs) : IsSmall d := by
  -- character by character, between whatever neighbours
  induction cs generalizing before with
  | nil => exact absurd h List.not_mem_nil
  | cons c cs ih =>
    rw [lowerFrom, List.mem_append] at h
    rcases h with hhead | htail
    · exact isSmall_of_mem_lowerChar hhead
    · exact ih htail

/-- A text of small characters is its own lower-case form. -/
theorem lowerFrom_eq_self {cs : List Char} (h : ∀ c ∈ cs, IsSmall c) (before : List Char) :
    lowerFrom before cs = cs := by
  induction cs generalizing before with
  | nil => rfl
  | cons c cs ih =>
    have hc : IsSmall c := h c List.mem_cons_self
    have hcs : lowerFrom (c :: before) cs = cs :=
      ih (fun d hd => h d (List.mem_cons_of_mem c hd)) _
    rw [lowerFrom, hc.lowerChar_eq, hcs, List.singleton_append]

/-- **Lower-casing twice is lower-casing once.** -/
theorem lower_lower (s : String) : lower (lower s) = lower s := by
  apply String.toList_injective
  rw [toList_lower, toList_lower]
  exact lowerFrom_eq_self (fun _ hd => isSmall_of_mem_lowerFrom hd) []

end PathFilter.Text
