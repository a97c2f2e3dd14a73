import PathFilter.Proofs.Acceptance

/-!
# A condition and its complement

A condition and its complement, with the same operand, **split** every filter in two
(`Filter.complement_splits`). Of the paths that a filter accepts, each is accepted by exactly one
of the two filters that have one of the conditions besides, and with both conditions nothing is
accepted any more. What else the filter asks for, its case flag included, is arbitrary.

Two facts meet here, and neither knows of the other.

* **The kinds.** The complement denies the same relation to the same operand, and folding the
  operand for the one is folding it for the other; so the two tests are opposite on every text
  (`Kind.test_complement`).
* **The filter.** Setting a condition that was absent asks for that condition besides, and leaves
  the folding of the path and of every other operand as it was (`Filter.plan_accepts_set`).
-/

namespace PathFilter

/-! ### One operand for both kinds -/

/-- An operand of a relation as an operand of the same relation. It is the same text, or the same
list of texts, and only its type is written differently. -/
def Relation.carry {r s : Relation} (h : s = r) (v : r.arity.Operand) : s.arity.Operand := h ▸ v

/-- Written with the other type, an operand is tested as it was. -/
theorem Relation.test_carry {r s : Relation} (h : s = r) (v : r.arity.Operand)
    (fold : String → String) (q : String) :
    s.test (s.arity.mapOperand fold (carry h v)) q = r.test (r.arity.mapOperand fold v) q := by
  subst h
  rfl

namespace Kind

variable {k l : Kind}

/-- The operand of a condition as the operand of its complement. -/
def complementOperand (h : k.complement = some l) (v : k.Operand) : l.Operand :=
  Relation.carry (complement_eq_some_iff.mp h).1 v

/-- **Opposite tests.** However the operand is folded, the complement passes the texts that the
condition does not pass. -/
theorem test_complement (h : k.complement = some l) (v : k.Operand) (fold : String → String)
    (q : String) :
    l.test (l.arity.mapOperand fold (complementOperand h v)) q =
      !k.test (k.arity.mapOperand fold v) q := by
  obtain ⟨hrelation, hsign⟩ := complement_eq_some_iff.mp h
  have hsame : l.relation.test (l.arity.mapOperand fold (complementOperand h v)) q =
      k.relation.test (k.arity.mapOperand fold v) q :=
    Relation.test_carry hrelation v fold q
  unfold test
  rw [hsame, hsign, Bool.bne_not]

theorem ne_of_complement (h : k.complement = some l) : k ≠ l := by
  -- its sign would be the opposite of itself
  rintro rfl
  have hsign : k.isNegated = !k.isNegated := (complement_eq_some_iff.mp h).2
  exact (Bool.eq_not_self _).mp hsign

end Kind

/-! ### One condition more -/

namespace Filter

variable {f : Filter} {k l : Kind}

theorem fold_set (f : Filter) (k : Kind) (v : k.Operand) : (f.set k v).fold = f.fold :=
  fold_congr (ignoreCase_set f k v)

theorem isSet_set_of_ne (h : k ≠ l) (v : k.Operand) : (f.set k v).isSet l = f.isSet l := by
  rw [isSet_eq, operand_set_of_ne h, isSet_eq]

/-- A filter with a condition that was absent accepts what it accepted before and what the
condition holds of. -/
theorem accepts_set_iff (hk : f.isSet k = false) (v : k.Operand) {p : String} :
    (f.set k v).Accepts p ↔
      f.Accepts p ∧ k.Holds (k.arity.mapOperand f.fold v) (f.fold p) := by
  -- the case flag is as it was, so everything is folded as it was
  have hfold : (f.set k v).fold = f.fold := fold_set f k v
  unfold Accepts
  rw [hfold]
  constructor
  · intro h
    refine ⟨fun j w hj => h j w ?_, h k v (operand_set_self f k v)⟩
    have hkj : k ≠ j := by
      rintro rfl
      rw [isSet_eq_false_iff.mp hk] at hj
      contradiction
    rw [operand_set_of_ne hkj, hj]
  · rintro ⟨hbefore, hnew⟩ j w hj
    by_cases hkj : k = j
    · subst hkj
      rw [operand_set_self] at hj
      exact Option.some.inj hj ▸ hnew
    · rw [operand_set_of_ne hkj] at hj
      exact hbefore j w hj

/-- **One condition more** is one test more. -/
theorem plan_accepts_set (hk : f.isSet k = false) (v : k.Operand) (p : String) :
    (f.set k v).plan.accepts p =
      (f.plan.accepts p && k.test (k.arity.mapOperand f.fold v) (f.fold p)) := by
  rw [Bool.eq_iff_iff, Bool.and_eq_true, plan_accepts_iff, plan_accepts_iff,
    Kind.test_eq_true_iff, accepts_set_iff hk]

/-- **A condition and its complement split a filter in two.** Whatever else the filter asks for,
what it accepts is accepted with exactly one of the two conditions added; nothing is accepted with
the one and also with the other; and nothing is accepted with both at once. -/
theorem complement_splits (h : k.complement = some l) (hk : f.isSet k = false)
    (hl : f.isSet l = false) (v : k.Operand) (p : String) :
    f.plan.accepts p = ((f.set k v).plan.accepts p ^^
      (f.set l (Kind.complementOperand h v)).plan.accepts p) ∧
    ((f.set k v).plan.accepts p &&
      (f.set l (Kind.complementOperand h v)).plan.accepts p) = false ∧
    ((f.set k v).set l (Kind.complementOperand h v)).plan.accepts p = false := by
  have hl' : (f.set k v).isSet l = false := by
    rw [isSet_set_of_ne (Kind.ne_of_complement h), hl]
  -- the path is folded in the same way by all four filters, so the same two tests decide
  have hfold : (f.set k v).fold = f.fold := fold_set f k v
  rw [plan_accepts_set hl', plan_accepts_set hk, plan_accepts_set hl, hfold,
    Kind.test_complement h]
  -- what is left are two truth values, one of which is denied for the complement
  cases f.plan.accepts p <;> cases k.test (k.arity.mapOperand f.fold v) (f.fold p) <;>
    exact ⟨rfl, rfl, rfl⟩

/-- A list that is folded, in a filter with another condition: the path is one of the folded
texts, so it is accepted with the condition and not with its complement. -/
theorem complement_splits_equalsOneOf :
    let f := build [.ignoreCase true, .condition .startsWith "Σ"]
    let vs : List String := ["/b", "ΣΑΣ"]
    (f.set .equalsOneOf vs).plan.accepts "σαΣ" = true ∧
      (f.set .equalsNotOneOf vs).plan.accepts "σαΣ" = false ∧
      ((f.set .equalsOneOf vs).set .equalsNotOneOf vs).plan.accepts "σαΣ" = false := by
  intro f vs
  have hcomplement : Kind.complement .equalsOneOf = some .equalsNotOneOf := by decide
  obtain ⟨hsplit, hboth, hnone⟩ :=
    complement_splits (f := f) hcomplement rfl rfl vs "σαΣ"
  have haccepts : (f.set .equalsOneOf vs).plan.accepts "σαΣ" = true := by decide +kernel
  rw [haccepts, Bool.true_and] at hboth
  exact ⟨haccepts, hboth, hnone⟩

end Filter

end PathFilter
