import PathFilter.Plan

/-!
# What a plan accepts

A plan accepts exactly the paths that its filter is *meant* to accept. The meaning is written out
once more here, one clause for each of the twelve conditions and without the sharing that the
running definitions live by (`Filter.Meets`): each clause reads a field of its own, and none
mentions a relation, a sign or an arity; so a condition wired to the wrong field or the wrong
search, or a negation that is lost on the way, would show as a clause that cannot be proved.

The argument goes through three descriptions of the same set of paths.

* **The checks.** Both ways in which a body is asked — its only check directly, or its checks one
  after the other up to the first that fails — come to the same: every check passes
  (`Body.accepts_iff`).
* **The conditions.** The checks of a plan are the conditions of its filter with folded operands,
  none left out and none added (`Filter.mem_checks_plan_iff`), and a check passes where its
  condition holds, so the plan accepts what `Filter.Accepts` describes (`Filter.plan_accepts_iff`).
* **The twelve clauses.** `Filter.accepts_iff_meets` compares the two descriptions kind by kind.
-/

namespace PathFilter

/-! ### Asking checks -/

/-- Stopping at the first check that fails loses nothing: all pass exactly if each one does. -/
theorem Check.allPass_iff {q : String} {cs : List Check} :
    Check.allPass q cs = true ↔ ∀ c ∈ cs, c.passes q = true := by
  -- by induction on the checks; one that fails hides those behind it, and one is enough
  induction cs with
  | nil => simp [Check.allPass]
  | cons c cs ih =>
    rw [Check.allPass, List.forall_mem_cons, ← ih]
    cases c.passes q <;> simp

/-- The direct question and the walk along the checks are the same question. -/
theorem Body.accepts_iff {b : Body} {q : String} :
    b.accepts q = true ↔ ∀ c ∈ b.checks, c.passes q = true := by
  cases b with
  | single c => simp [Body.accepts, Body.checks]
  | sequence cs => exact Check.allPass_iff

namespace Plan

/-- What a plan is asked about when nothing but the path is given. -/
theorem accepts_eq_acceptsLowered (m : Plan) (p : String) :
    m.accepts p = m.acceptsLowered p (Text.lower p) := by
  unfold accepts acceptsLowered subject
  cases m.ignoreCase <;> rfl

/-- A plan accepts where each of its checks passes on the text that it is asked about. -/
theorem acceptsLowered_iff {m : Plan} {p l : String} :
    m.acceptsLowered p l = true ↔ ∀ c ∈ m.checks, c.passes (m.subject p l) = true :=
  Body.accepts_iff

end Plan

/-! ### The checks of a filter's plan -/

namespace Filter

/-- The checks of a plan are the checks of the single conditions, in evaluation order. -/
theorem checks_plan (f : Filter) : f.plan.checks = Kind.all.filterMap f.check? :=
  Body.checks_ofChecks _

theorem subject_plan (f : Filter) (p : String) : f.plan.subject p (Text.lower p) = f.fold p := rfl

/-- **The checks of a plan.** A check is among them exactly if its condition is present, and then
its operand is the folded operand of that condition. -/
theorem mem_checks_plan_iff {f : Filter} {c : Check} :
    c ∈ f.plan.checks ↔
      ∃ k v, f.operand k = some v ∧ c = k.check (k.arity.mapOperand f.fold v) := by
  rw [checks_plan, List.mem_filterMap]
  -- a kind has a check where its field has an operand, and no kind is left out of the order
  constructor
  · rintro ⟨k, -, hk⟩
    rw [check?_eq] at hk
    obtain ⟨v, hv, rfl⟩ := Option.map_eq_some_iff.mp hk
    exact ⟨k, v, hv, rfl⟩
  · rintro ⟨k, v, hv, rfl⟩
    exact ⟨k, k.mem_all, by rw [check?_eq, hv, Option.map_some]⟩

/-- A plan accepts the paths of which every condition of its filter holds. -/
theorem plan_accepts_iff {f : Filter} {p : String} :
    f.plan.accepts p = true ↔ f.Accepts p := by
  rw [Plan.accepts_eq_acceptsLowered, Plan.acceptsLowered_iff, subject_plan]
  -- a check and the condition that it comes from are tested on the same folded path
  constructor
  · intro h k v hv
    have hc := h _ (mem_checks_plan_iff.mpr ⟨k, v, hv, rfl⟩)
    exact Kind.passes_check_iff.mp hc
  · intro h c hc
    obtain ⟨k, v, hv, rfl⟩ := mem_checks_plan_iff.mp hc
    exact Kind.passes_check_iff.mpr (h k v hv)

/-! ### The twelve conditions, one by one -/

/-- **The meaning of a filter.** The path, folded as the filter says, stands to every operand that
is present, folded the same way, as the name of the condition says. A condition that is absent
asks for nothing. -/
structure Meets (f : Filter) (p : String) : Prop where
  equals : ∀ v : String, f.equals = some v → f.fold p = f.fold v
  equalsNot : ∀ v : String, f.equalsNot = some v → f.fold p ≠ f.fold v
  endsWith : ∀ v : String, f.endsWith = some v → ∃ a, f.fold p = a ++ f.fold v
  startsWith : ∀ v : String, f.startsWith = some v → ∃ b, f.fold p = f.fold v ++ b
  contains : ∀ v : String, f.contains = some v →
    ∃ a b, f.fold p = a ++ f.fold v ++ b
  containsNot : ∀ v : String, f.containsNot = some v →
    ¬ ∃ a b, f.fold p = a ++ f.fold v ++ b
  containsAllOf : ∀ vs : List String, f.containsAllOf = some vs →
    ∀ v ∈ vs, ∃ a b, f.fold p = a ++ f.fold v ++ b
  containsOneOf : ∀ vs : List String, f.containsOneOf = some vs →
    ∃ v ∈ vs, ∃ a b, f.fold p = a ++ f.fold v ++ b
  startsNotWith : ∀ v : String, f.startsNotWith = some v →
    ¬ ∃ b, f.fold p = f.fold v ++ b
  endsNotWith : ∀ v : String, f.endsNotWith = some v → ¬ ∃ a, f.fold p = a ++ f.fold v
  equalsOneOf : ∀ vs : List String, f.equalsOneOf = some vs →
    ∃ v ∈ vs, f.fold p = f.fold v
  equalsNotOneOf : ∀ vs : List String, f.equalsNotOneOf = some vs →
    ¬ ∃ v ∈ vs, f.fold p = f.fold v

/-- Some folded text has a property exactly if it is the folded form of some text. -/
private theorem exists_mem_map_fold_iff {f : Filter} {vs : List String} {P : String → Prop} :
    (∃ w ∈ vs.map f.fold, P w) ↔ ∃ v ∈ vs, P (f.fold v) := by
  constructor
  · rintro ⟨w, hw, h⟩
    obtain ⟨v, hv, rfl⟩ := List.mem_map.mp hw
    exact ⟨v, hv, h⟩
  · rintro ⟨v, hv, h⟩
    exact ⟨f.fold v, List.mem_map_of_mem hv, h⟩

private theorem mem_map_fold_iff {f : Filter} {vs : List String} {q : String} :
    q ∈ vs.map f.fold ↔ ∃ v ∈ vs, q = f.fold v := by
  rw [List.mem_map]
  exact exists_congr fun v => and_congr_right fun _ => eq_comm

/-- The description by relation, sign and arity says the same as the twelve clauses. -/
theorem accepts_iff_meets {f : Filter} {p : String} : f.Accepts p ↔ f.Meets p := by
  constructor
  · intro h
    -- each clause is the condition of one kind, read with its relation and its sign
    exact
      { equals := fun v hv => h .equals v hv
        equalsNot := fun v hv => h .equalsNot v hv
        endsWith := fun v hv => h .endsWith v hv
        startsWith := fun v hv => h .startsWith v hv
        contains := fun v hv => h .contains v hv
        containsNot := fun v hv => h .containsNot v hv
        containsAllOf := fun vs hv v hm => h .containsAllOf vs hv _ (List.mem_map_of_mem hm)
        containsOneOf := fun vs hv => exists_mem_map_fold_iff.mp (h .containsOneOf vs hv)
        startsNotWith := fun v hv => h .startsNotWith v hv
        endsNotWith := fun v hv => h .endsNotWith v hv
        equalsOneOf := fun vs hv => mem_map_fold_iff.mp (h .equalsOneOf vs hv)
        equalsNotOneOf := fun vs hv => fun hm =>
          h .equalsNotOneOf vs hv (mem_map_fold_iff.mpr hm) }
  · intro h k v hv
    -- a clause is about its own kind alone, so each kind needs its own
    cases k with
    | equals => exact h.equals v hv
    | equalsNot => exact h.equalsNot v hv
    | endsWith => exact h.endsWith v hv
    | startsWith => exact h.startsWith v hv
    | contains => exact h.contains v hv
    | containsNot => exact h.containsNot v hv
    | containsAllOf => exact List.forall_mem_map.mpr (h.containsAllOf v hv)
    | containsOneOf => exact exists_mem_map_fold_iff.mpr (h.containsOneOf v hv)
    | startsNotWith => exact h.startsNotWith v hv
    | endsNotWith => exact h.endsNotWith v hv
    | equalsOneOf => exact mem_map_fold_iff.mpr (h.equalsOneOf v hv)
    | equalsNotOneOf => exact fun hm => h.equalsNotOneOf v hv (mem_map_fold_iff.mp hm)

end Filter

/-- **Plans are complete and sound.** Every filter has a plan, and the plan accepts exactly the
paths that meet the filter; where no filter is configured there is no plan. -/
theorem Configuration.exists_plan_accepts_iff_meets :
    (∀ f : Filter, ∃ m, Configuration.plan? (some f) = some m ∧
      ∀ p, m.accepts p = true ↔ f.Meets p) ∧
    Configuration.plan? none = none := by
  refine ⟨fun f => ⟨f.plan, rfl, fun p => ?_⟩, rfl⟩
  rw [Filter.plan_accepts_iff, Filter.accepts_iff_meets]

end PathFilter
