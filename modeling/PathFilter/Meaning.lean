import PathFilter.Filter
import PathFilter.Text.Lower

/-!
# What a filter means

The **meaning** of a condition is a proposition about a text, said without any search:
`Relation.Holds` speaks of the texts that would have to stand before and after the operand, and
a negated kind denies it (`Kind.Holds`). A filter accepts a path when every condition that is
present holds of it (`Filter.Accepts`); where letter case is ignored, both the path and the
operands are taken in lower case first (`Filter.fold`).

Beside the meaning stands the **test** that decides it, `Relation.test` and `Kind.test`, and the
two agree for every kind, operand and text (`Relation.test_eq_true_iff`, `Kind.test_eq_true_iff`).
-/

namespace PathFilter

/-! ### Relations -/

/-- That a relation holds between its operand `v` and the text `q`. -/
def Relation.Holds : (r : Relation) → r.arity.Operand → String → Prop
  | .equals, (v : String), q => q = v
  | .endsWith, (v : String), q => ∃ a, q = a ++ v
  | .startsWith, (v : String), q => ∃ b, q = v ++ b
  | .contains, (v : String), q => ∃ a b, q = a ++ v ++ b
  | .containsAllOf, (vs : List String), q => ∀ v ∈ vs, ∃ a b, q = a ++ v ++ b
  | .containsOneOf, (vs : List String), q => ∃ v ∈ vs, ∃ a b, q = a ++ v ++ b
  | .equalsOneOf, (vs : List String), q => q ∈ vs

/-- The test for a relation between its operand and the text `q`. -/
def Relation.test : (r : Relation) → r.arity.Operand → String → Bool
  | .equals, (v : String), q => q == v
  | .endsWith, (v : String), q => q.endsWith v
  | .startsWith, (v : String), q => q.startsWith v
  | .contains, (v : String), q => q.contains v
  | .containsAllOf, (vs : List String), q => vs.all fun v => q.contains v
  | .containsOneOf, (vs : List String), q => vs.any fun v => q.contains v
  | .equalsOneOf, (vs : List String), q => vs.any fun v => v == q

/-- Containment as the search decides it is containment between two other texts. -/
private theorem contains_iff_exists {q v : String} :
    q.contains v = true ↔ ∃ a b, q = a ++ v ++ b := by
  rw [String.contains_string_iff]
  constructor
  · rintro ⟨a, b, h⟩
    exact ⟨String.ofList a, String.ofList b, String.toList_injective (by simp [← h])⟩
  · rintro ⟨a, b, rfl⟩
    exact ⟨a.toList, b.toList, by simp⟩

/-- A prefix as it is tested is a text that another one follows. -/
private theorem startsWith_iff_exists {q v : String} :
    q.startsWith v = true ↔ ∃ b, q = v ++ b := by
  rw [String.startsWith_string_iff]
  constructor
  · rintro ⟨b, h⟩
    exact ⟨String.ofList b, String.toList_injective (by simp [← h])⟩
  · rintro ⟨b, rfl⟩
    exact ⟨b.toList, by simp⟩

/-- A suffix as it is tested is a text that follows another one. -/
private theorem endsWith_iff_exists {q v : String} :
    q.endsWith v = true ↔ ∃ a, q = a ++ v := by
  rw [← String.endsWith_toSlice, String.Slice.endsWith_string_iff, String.copy_toSlice]
  constructor
  · rintro ⟨a, h⟩
    exact ⟨String.ofList a, String.toList_injective (by simp [← h])⟩
  · rintro ⟨a, rfl⟩
    exact ⟨a.toList, by simp⟩

/-- The test decides the relation. -/
theorem Relation.test_eq_true_iff (r : Relation) (v : r.arity.Operand) (q : String) :
    r.test v q = true ↔ r.Holds v q := by
  cases r with
  | equals => exact beq_iff_eq
  | endsWith => exact endsWith_iff_exists
  | startsWith => exact startsWith_iff_exists
  | contains => exact contains_iff_exists
  -- the tests of lists ask for each text what the tests of one text ask
  | containsAllOf =>
    exact List.all_eq_true.trans (forall₂_congr fun _ _ => contains_iff_exists)
  | containsOneOf =>
    refine List.any_eq_true.trans (exists_congr fun _ => and_congr_right fun _ => ?_)
    exact contains_iff_exists
  | equalsOneOf =>
    refine List.any_eq_true.trans ⟨?_, fun h => ⟨q, h, beq_self_eq_true q⟩⟩
    rintro ⟨w, hw, h⟩
    exact eq_of_beq h ▸ hw

/-! ### Kinds -/

/-- That a condition of kind `k` with operand `v` holds of the text `q`. -/
def Kind.Holds (k : Kind) (v : k.Operand) (q : String) : Prop :=
  if k.isNegated then ¬ k.relation.Holds v q else k.relation.Holds v q

/-- The test for a condition: that of its relation, turned round for a negated kind. -/
def Kind.test (k : Kind) (v : k.Operand) (q : String) : Bool :=
  k.relation.test v q != k.isNegated

/-- The test decides the condition. -/
theorem Kind.test_eq_true_iff (k : Kind) (v : k.Operand) (q : String) :
    k.test v q = true ↔ k.Holds v q := by
  unfold Kind.test Kind.Holds
  rw [← Relation.test_eq_true_iff]
  cases k.isNegated <;> simp

/-! ### Filters -/

/-- A text as the filter compares it: in lower case where letter case is ignored. -/
def Filter.fold (f : Filter) (s : String) : String :=
  if f.ignoreCase then Text.lower s else s

/-- How a filter folds depends on its flag alone. -/
theorem Filter.fold_congr {f g : Filter} (h : f.ignoreCase = g.ignoreCase) : f.fold = g.fold := by
  funext s
  rw [fold, fold, h]

/-- That every condition of the filter holds of the path. -/
def Filter.Accepts (f : Filter) (p : String) : Prop :=
  ∀ k v, f.operand k = some v → k.Holds (k.arity.mapOperand f.fold v) (f.fold p)

end PathFilter
