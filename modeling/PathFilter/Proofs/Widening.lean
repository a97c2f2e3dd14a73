import PathFilter.Proofs.Acceptance
import PathFilter.Proofs.Text.Lowering

/-!
# Ignoring letter case

One expects that ignoring letter case **widens** a filter of positive conditions — every path that
was accepted stays accepted — and **narrows** a filter of negated ones. For a lower-casing that
goes character by character this would be so. `Text.lower` looks at the neighbours of a capital
sigma, and the path and the operands are lowered apart from each other: a sigma at an end of an
operand has other neighbours inside a path than it has alone, so the two runs can disagree about
its form. `Filter.not_forall_widens_and_not_forall_narrows` has such a filter for either half.

What is true instead is said with the *settled* ends of `PathFilter.Proofs.Text.Lowering`.

* `Relation.Settled` asks the ends of an operand to be settled where its relation lets a path go
  on beyond them. Then the relation survives lower-casing (`Relation.Holds.lower`).
* `Relation.settled_of_holds_lower` is the converse: for an operand that is not settled there is a
  path, one letter longer than it, of which the relation is lost.
* `Filter.widens_and_narrows` puts the two together: filters with settled operands widen and
  narrow as expected, and for a condition that stands alone this is the only case.
-/

namespace PathFilter

open Text (lower SettledStart SettledEnd)

/-! ### Relations under lower-casing -/

/-- The operand of a given arity that is made of one text. -/
def Arity.single (s : String) : (a : Arity) → a.Operand
  | .one => s
  | .many => [s]

namespace Relation

/-- The ends of the operand are settled where the relation lets a path go on beyond them. -/
def Settled : (r : Relation) → r.arity.Operand → Prop
  | .equals, _ => True
  | .endsWith, (v : String) => SettledStart v.toList
  | .startsWith, (v : String) => SettledEnd v.toList
  | .contains, (v : String) => SettledStart v.toList ∧ SettledEnd v.toList
  | .containsAllOf, (vs : List String) => ∀ v ∈ vs, SettledStart v.toList ∧ SettledEnd v.toList
  | .containsOneOf, (vs : List String) => ∀ v ∈ vs, SettledStart v.toList ∧ SettledEnd v.toList
  | .equalsOneOf, _ => True

/-- A text that is settled at both ends is still contained after lower-casing. -/
private theorem exists_lower_append {v p : String}
    (hv : SettledStart v.toList ∧ SettledEnd v.toList) (h : ∃ a b, p = a ++ v ++ b) :
    ∃ a b, lower p = a ++ lower v ++ b := by
  obtain ⟨a, b, rfl⟩ := h
  exact Text.lower_append_append hv.1 hv.2 a b

/-- **Lower-casing keeps a relation** to a settled operand. -/
theorem Holds.lower {r : Relation} {v : r.arity.Operand} {p : String} (hv : r.Settled v)
    (h : r.Holds v p) : r.Holds (r.arity.mapOperand Text.lower v) (Text.lower p) := by
  -- relation by relation: the text around the operand is lowered to some text around its lower-case
  -- form
  cases r with
  | equals => exact congrArg Text.lower h
  | endsWith =>
    obtain ⟨a, rfl⟩ := h
    exact Text.lower_append_of_settledStart hv a
  | startsWith =>
    obtain ⟨b, rfl⟩ := h
    exact Text.lower_append_of_settledEnd hv b
  | contains => exact exists_lower_append hv h
  | containsAllOf =>
    refine List.forall_mem_map.mpr fun v hmem => ?_
    exact exists_lower_append (hv v hmem) (h v hmem)
  | containsOneOf =>
    obtain ⟨v, hmem, hp⟩ := h
    exact ⟨Text.lower v, List.mem_map_of_mem hmem, exists_lower_append (hv v hmem) hp⟩
  | equalsOneOf => exact List.mem_map_of_mem h

/-- A text whose lower-case form is still contained when a letter follows it is settled at its
end. -/
private theorem settledEnd_of_exists {s : String}
    (h : ∃ a b, lower (s ++ "a") = a ++ lower s ++ b) : SettledEnd s.toList := by
  obtain ⟨a, b, hab⟩ := h
  -- no final sigma can have been lost if the lower-case text is still there
  refine Text.settledEnd_of_count_le ?_
  have hlist := congrArg String.toList hab
  rw [Text.toList_lower, String.toList_append, String.toList_append, String.toList_append,
    Text.toList_lower] at hlist
  rw [show s.toList ++ ['a'] = s.toList ++ "a".toList from rfl, hlist, List.count_append,
    List.count_append]
  omega

/-- A text whose lower-case form is still contained when a letter precedes it is settled at its
start. -/
private theorem settledStart_of_exists {s : String}
    (h : ∃ a b, lower ("a" ++ s) = a ++ lower s ++ b) : SettledStart s.toList := by
  obtain ⟨a, b, hab⟩ := h
  -- no other sigma can have been lost if the lower-case text is still there
  refine Text.settledStart_of_count_le ?_
  have hlist := congrArg String.toList hab
  rw [Text.toList_lower, String.toList_append, String.toList_append, String.toList_append,
    Text.toList_lower] at hlist
  rw [show 'a' :: s.toList = "a".toList ++ s.toList from rfl, hlist, List.count_append,
    List.count_append]
  omega

/-- A text that is still contained after lower-casing wherever it was before is settled at both
ends. -/
private theorem settled_of_forall_exists {s : String}
    (h : ∀ p, (∃ a b, p = a ++ s ++ b) → ∃ a b, lower p = a ++ lower s ++ b) :
    SettledStart s.toList ∧ SettledEnd s.toList := by
  constructor
  · refine settledStart_of_exists (h _ ⟨"a", "", ?_⟩)
    rw [String.append_empty]
  · refine settledEnd_of_exists (h _ ⟨"", "a", ?_⟩)
    rw [String.empty_append]

/-- **No other operand will do.** If lower-casing keeps the relation to a single text on every
path, the text is settled. -/
theorem settled_of_holds_lower {r : Relation} {s : String}
    (h : ∀ p, r.Holds (r.arity.single s) p →
      r.Holds (r.arity.mapOperand Text.lower (r.arity.single s)) (Text.lower p)) :
    r.Settled (r.arity.single s) := by
  cases r with
  | equals => trivial
  | endsWith =>
    -- one letter is put where the relation lets the path go on
    obtain ⟨a, ha⟩ := h ("a" ++ s) ⟨"a", rfl⟩
    refine settledStart_of_exists ⟨a, "", ?_⟩
    rw [String.append_empty]
    exact ha
  | startsWith =>
    obtain ⟨b, hb⟩ := h (s ++ "a") ⟨"a", rfl⟩
    refine settledEnd_of_exists ⟨"", b, ?_⟩
    rw [String.empty_append]
    exact hb
  | contains => exact settled_of_forall_exists h
  | containsAllOf =>
    refine List.forall_mem_singleton.mpr (settled_of_forall_exists fun p hp => ?_)
    exact h p (List.forall_mem_singleton.mpr hp) _ (List.mem_singleton_self _)
  | containsOneOf =>
    refine List.forall_mem_singleton.mpr (settled_of_forall_exists fun p hp => ?_)
    obtain ⟨v, hmem, hv⟩ := h p ⟨s, List.mem_singleton_self s, hp⟩
    rw [List.mem_singleton.mp hmem] at hv
    exact hv
  | equalsOneOf => trivial

end Relation

/-! ### Filters with and without letter case -/

namespace Filter

variable {f : Filter} {p : String}

/-- Every operand of the filter is settled. -/
def Settled (f : Filter) : Prop := ∀ k v, f.operand k = some v → k.relation.Settled v

/-- Ignoring letter case loses no path. -/
def Widens (f : Filter) : Prop :=
  ∀ p, (f.setIgnoreCase false).plan.accepts p = true → (f.setIgnoreCase true).plan.accepts p = true

/-- Ignoring letter case gains no path. -/
def Narrows (f : Filter) : Prop :=
  ∀ p, (f.setIgnoreCase true).plan.accepts p = true → (f.setIgnoreCase false).plan.accepts p = true

/-- The filter with a single condition. -/
def only (k : Kind) (v : k.Operand) : Filter := empty.set k v

/-- What is said of every operand of a single condition is said of this one operand. -/
theorem forall_operand_only_iff {k : Kind} {v : k.Operand} {P : (j : Kind) → j.Operand → Prop} :
    (∀ j w, (only k v).operand j = some w → P j w) ↔ P k v := by
  constructor
  · intro h
    exact h k v (operand_set_self _ _ _)
  · intro h j w hw
    -- no field but that of `k` holds anything
    by_cases hkj : k = j
    · subst hkj
      rw [only, operand_set_self] at hw
      exact Option.some.inj hw ▸ h
    · rw [only, operand_set_of_ne hkj, operand_empty] at hw
      contradiction

theorem eq_of_isSet_only {k j : Kind} {v : k.Operand} (h : (only k v).isSet j = true) : k = j := by
  obtain ⟨w, hw⟩ := isSet_iff.mp h
  exact forall_operand_only_iff (P := fun j _ => k = j).mpr rfl j w hw

/-- Where letter case counts, path and operands are compared as they are. -/
theorem accepts_minding_case_iff :
    (f.setIgnoreCase false).plan.accepts p = true ↔
      ∀ k v, f.operand k = some v → k.Holds v p := by
  -- folding is the identity, on single texts and in lists
  have hid : ∀ (a : Arity) (v : a.Operand), a.mapOperand (f.setIgnoreCase false).fold v = v := by
    intro a v
    cases a with
    | one => rfl
    | many => exact List.map_id v
  rw [plan_accepts_iff]
  unfold Accepts
  simp only [hid]
  rfl

/-- Where it does not, their lower-case forms are. -/
theorem accepts_ignoring_case_iff :
    (f.setIgnoreCase true).plan.accepts p = true ↔
      ∀ k v, f.operand k = some v → k.Holds (k.arity.mapOperand lower v) (lower p) :=
  plan_accepts_iff

/-- A filter of positive, settled conditions widens. -/
theorem Settled.widens (h : f.Settled) (hpos : ∀ k, f.isSet k = true → k.isNegated = false) :
    f.Widens := by
  intro p hp
  -- condition by condition, since each of them survives on its own
  rw [accepts_minding_case_iff] at hp
  rw [accepts_ignoring_case_iff]
  intro k v hv
  have hk : k.isNegated = false := hpos k (isSet_iff.mpr ⟨v, hv⟩)
  have hholds := hp k v hv
  rw [Kind.Holds, if_neg (by rw [hk]; exact Bool.false_ne_true)] at hholds ⊢
  exact hholds.lower (h k v hv)

/-- A filter of negated, settled conditions narrows. -/
theorem Settled.narrows (h : f.Settled) (hneg : ∀ k, f.isSet k = true → k.isNegated = true) :
    f.Narrows := by
  intro p hp
  rw [accepts_ignoring_case_iff] at hp
  rw [accepts_minding_case_iff]
  intro k v hv
  have hk : k.isNegated = true := hneg k (isSet_iff.mpr ⟨v, hv⟩)
  have hholds := hp k v hv
  -- the relation is denied of the lower-case texts, so it cannot have held of the texts themselves
  rw [Kind.Holds, if_pos hk] at hholds ⊢
  exact fun hrel => hholds (hrel.lower (h k v hv))

/-- A positive condition that stands alone widens only if it is settled. -/
theorem settled_of_widens_only {k : Kind} {s : String} (hk : k.isNegated = false)
    (h : (only k (k.arity.single s)).Widens) : k.relation.Settled (k.arity.single s) := by
  refine Relation.settled_of_holds_lower fun p hp => ?_
  have hwide := h p
  rw [accepts_minding_case_iff, accepts_ignoring_case_iff, forall_operand_only_iff,
    forall_operand_only_iff, Kind.Holds, Kind.Holds,
    if_neg (by rw [hk]; exact Bool.false_ne_true),
    if_neg (by rw [hk]; exact Bool.false_ne_true)] at hwide
  exact hwide hp

/-- A negated condition that stands alone narrows only if it is settled. -/
theorem settled_of_narrows_only {k : Kind} {s : String} (hk : k.isNegated = true)
    (h : (only k (k.arity.single s)).Narrows) : k.relation.Settled (k.arity.single s) := by
  refine Relation.settled_of_holds_lower fun p hp => ?_
  have hnarrow := h p
  rw [accepts_ignoring_case_iff, accepts_minding_case_iff, forall_operand_only_iff,
    forall_operand_only_iff, Kind.Holds, Kind.Holds, if_pos hk, if_pos hk] at hnarrow
  exact Classical.byContradiction fun hlow => hnarrow hlow hp

/-- **Widening and narrowing.** A filter of positive conditions whose operands are settled accepts
without regard to letter case whatever it accepts with regard to it, and a filter of negated ones
the other way round. For a single condition on a single text, widening and narrowing happen in no
other case. -/
theorem widens_and_narrows (f : Filter) (k : Kind) (s : String) :
    ((∀ j, f.isSet j = true → j.isNegated = false) → f.Settled → f.Widens) ∧
    ((∀ j, f.isSet j = true → j.isNegated = true) → f.Settled → f.Narrows) ∧
    (k.isNegated = false →
      ((only k (k.arity.single s)).Widens ↔ k.relation.Settled (k.arity.single s))) ∧
    (k.isNegated = true →
      ((only k (k.arity.single s)).Narrows ↔ k.relation.Settled (k.arity.single s))) := by
  -- a filter with one condition is settled exactly if its operand is
  have hsettled (h : k.relation.Settled (k.arity.single s)) :
      (only k (k.arity.single s)).Settled := forall_operand_only_iff.mpr h
  refine ⟨fun hpos h => h.widens hpos, fun hneg h => h.narrows hneg, fun hk => ?_, fun hk => ?_⟩
  · refine ⟨settled_of_widens_only hk, fun h => (hsettled h).widens fun j hj => ?_⟩
    rw [← eq_of_isSet_only hj, hk]
  · refine ⟨settled_of_narrows_only hk, fun h => (hsettled h).narrows fun j hj => ?_⟩
    rw [← eq_of_isSet_only hj, hk]

/-- A sigma between two letters is settled from both sides; one that stands alone is not settled
at its start. -/
theorem widens_and_narrows_sigma :
    (only .contains "ΑΣΑ").Widens ∧ (only .containsNot "ΑΣΑ").Narrows ∧
      ¬ (only .endsWith "Σ").Widens ∧ ¬ (only .endsNotWith "Σ").Narrows := by
  have hinner : SettledStart "ΑΣΑ".toList ∧ SettledEnd "ΑΣΑ".toList :=
    ⟨Text.settledStart_of_count_le (by decide +kernel),
      Text.settledEnd_of_count_le (by decide +kernel)⟩
  -- alone, a sigma ends no word, but behind a letter it does
  have halone : ¬ SettledStart "Σ".toList := fun h =>
    absurd (h [] [] rfl rfl) (by decide +kernel)
  obtain ⟨hwiden, -, halone_iff, -⟩ := widens_and_narrows (only .contains "ΑΣΑ") .endsWith "Σ"
  obtain ⟨-, hnarrow, -, hnegated_iff⟩ :=
    widens_and_narrows (only .containsNot "ΑΣΑ") .endsNotWith "Σ"
  refine ⟨hwiden (fun k hk => ?_) (forall_operand_only_iff.mpr hinner),
    hnarrow (fun k hk => ?_) (forall_operand_only_iff.mpr hinner), fun h => ?_, fun h => ?_⟩
  · rw [← eq_of_isSet_only hk]
    rfl
  · rw [← eq_of_isSet_only hk]
    rfl
  · exact halone ((halone_iff rfl).mp h)
  · exact halone ((hnegated_iff rfl).mp h)

/-- **Neither half holds of all filters.** Alpha and capital sigma stand at the start of a path
that goes on with a letter; in lower case they no longer do, since the sigma of the operand is a
final one and the sigma of the path is not. -/
theorem not_forall_widens_and_not_forall_narrows :
    (¬ ∀ f : Filter, (∀ k, f.isSet k = true → k.isNegated = false) → f.Widens) ∧
    (¬ ∀ f : Filter, (∀ k, f.isSet k = true → k.isNegated = true) → f.Narrows) := by
  -- the same value and path for both halves, since the negated kind denies the same relation
  constructor
  · intro h
    have hwide : (only .startsWith "ΑΣ").Widens := by
      refine h _ fun k hk => ?_
      rw [← eq_of_isSet_only hk]
      rfl
    exact absurd (hwide "ΑΣΑ" (by decide +kernel)) (by decide +kernel)
  · intro h
    have hnarrow : (only .startsNotWith "ΑΣ").Narrows := by
      refine h _ fun k hk => ?_
      rw [← eq_of_isSet_only hk]
      rfl
    exact absurd (hnarrow "ΑΣΑ" (by decide +kernel)) (by decide +kernel)

end Filter

end PathFilter
