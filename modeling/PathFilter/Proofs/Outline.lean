import Mathlib.Data.List.Nodup
import PathFilter.Proofs.Composition

/-!
# The outline of a plan

A plan can be looked at without being asked about a path: how many checks it has, of which kinds and
in which order, and whether its body is a single check or a walk. All of this is its **outline**
(`Plan.Outline`), and which conditions are present settles it. The operands do not show in it,
however empty they are, and neither does the case flag (`Filter.outline_plan`).

* **Presence.** That a condition is there is decided twice, by the table that says so of a filter
  and by the table that makes its tests. The two agree (`Filter.isSome_test?`), so the kinds of a
  plan are the conditions that are present (`Filter.kinds_plan`).
* **Order.** The checks stand in the order in which the kinds are declared, which is also that of
  their places in evaluation order, whatever the order in which the filter was written
  (`Kind.pairwise_ctorIdx_all`, `Kind.pairwise_idxOf_all`).
* **Form.** A body is a single check exactly if there is one check (`Body.isSingle_ofChecks_iff`),
  and so exactly if one condition is present (`Filter.existsUnique_isSet_iff`).
-/

namespace PathFilter

/-! ### Orders of the kinds -/

namespace Kind

theorem pairwise_ctorIdx_all : all.Pairwise fun k l => k.ctorIdx < l.ctorIdx := by decide

theorem pairwise_idxOf_all : all.Pairwise fun k l => all.idxOf k < all.idxOf l := by decide

end Kind

/-! ### Outlines -/

/-- A body is made without a list exactly of one check. -/
theorem Body.isSingle_ofChecks_iff {cs : List Check} :
    (Body.ofChecks cs).isSingle = true ↔ cs.length = 1 := by
  -- no check, one check, and more than one
  rcases cs with - | ⟨c, - | ⟨d, cs⟩⟩ <;> simp [ofChecks, isSingle]

/-- **The outline of a plan** with the conditions that are `present`. -/
structure Plan.Outline (m : Plan) (present : Kind → Bool) : Prop where
  mem_kinds_iff : ∀ k, k ∈ m.kinds ↔ present k = true
  /-- The kinds are listed in the order in which they are declared. -/
  pairwise_declared : m.kinds.Pairwise fun k l => k.ctorIdx < l.ctorIdx
  /-- They are listed by their places in evaluation order. -/
  pairwise_evaluated : m.kinds.Pairwise fun k l => Kind.all.idxOf k < Kind.all.idxOf l
  size_eq : m.size = m.kinds.length
  isEmpty_iff : m.isEmpty = true ↔ ∀ k, present k = false
  isSingle_iff : m.isSingle = true ↔ ∃! k, present k = true
  /-- The single check is that of the only condition. -/
  body_single : m.isSingle = true → ∃ c, m.body = .single c ∧ m.kinds = [c.kind]
  /-- A walk goes through the checks of all conditions, in the order of the kinds. -/
  body_sequence : m.isSingle = false → ∃ cs, m.body = .sequence cs ∧ m.kinds = cs.map Check.kind

namespace Plan

variable (m : Plan)

/-- The only check of a single body has the only kind of the plan. -/
theorem exists_body_single (h : m.isSingle = true) :
    ∃ c, m.body = .single c ∧ m.kinds = [c.kind] := by
  rw [isSingle] at h
  rw [kinds, checks]
  cases hbody : m.body with
  | single c => exact ⟨c, rfl, rfl⟩
  | sequence cs =>
    rw [hbody] at h
    contradiction

/-- The checks of a walk have the kinds of the plan, in their order. -/
theorem exists_body_sequence (h : m.isSingle = false) :
    ∃ cs, m.body = .sequence cs ∧ m.kinds = cs.map Check.kind := by
  rw [isSingle] at h
  rw [kinds, checks]
  cases hbody : m.body with
  | single c =>
    rw [hbody] at h
    contradiction
  | sequence cs => exact ⟨cs, rfl, rfl⟩

end Plan

namespace Filter

variable {f g : Filter}

theorem kinds_congr (h : ∀ k, f.isSet k = g.isSet k) : f.kinds = g.kinds := by
  rw [kinds, kinds, funext h]

/-- A filter has one condition exactly if it has one kind. -/
theorem existsUnique_isSet_iff : (∃! k, f.isSet k = true) ↔ f.kinds.length = 1 := by
  rw [List.length_eq_one_iff]
  constructor
  · rintro ⟨k, hk, honly⟩
    refine ⟨k, List.perm_singleton.mp ?_⟩
    -- neither list repeats a kind, so it is enough that they have the same ones
    rw [List.perm_ext_iff_of_nodup f.nodup_kinds (List.nodup_singleton k)]
    intro j
    rw [mem_kinds_iff, List.mem_singleton]
    exact ⟨honly j, fun hj => hj ▸ hk⟩
  · rintro ⟨k, hk⟩
    have hmem (j : Kind) : f.isSet j = true ↔ j = k := by
      rw [← mem_kinds_iff, hk, List.mem_singleton]
    exact ⟨k, (hmem k).mpr rfl, fun j hj => (hmem j).mp hj⟩

theorem kinds_eq_nil_iff : f.kinds = [] ↔ ∀ k, f.isSet k = false := by
  simp [kinds, Kind.mem_all]

theorem size_plan (f : Filter) : f.plan.size = f.kinds.length := by
  rw [← kinds_plan, Plan.kinds, List.length_map, Plan.size]

/-- There is nothing to check exactly where no condition is present. -/
theorem isEmpty_plan_iff : f.plan.isEmpty = true ↔ ∀ k, f.isSet k = false := by
  rw [Plan.isEmpty, List.isEmpty_iff_length_eq_zero, ← kinds_eq_nil_iff,
    ← List.length_eq_zero_iff, ← size_plan, Plan.size]

/-- The body is a single check exactly where one condition is present. -/
theorem isSingle_plan_iff : f.plan.isSingle = true ↔ ∃! k, f.isSet k = true := by
  rw [existsUnique_isSet_iff, ← size_plan, Plan.size, checks_plan]
  exact Body.isSingle_ofChecks_iff

/-- The plan of a filter has the outline of the conditions that are present. -/
theorem outline_plan_isSet (f : Filter) : f.plan.Outline f.isSet where
  mem_kinds_iff k := by rw [kinds_plan, mem_kinds_iff]
  -- the kinds that are present are some of all kinds, in the same order
  pairwise_declared := by
    rw [kinds_plan]
    exact Kind.pairwise_ctorIdx_all.filter _
  pairwise_evaluated := by
    rw [kinds_plan]
    exact Kind.pairwise_idxOf_all.filter _
  size_eq := by rw [size_plan, kinds_plan]
  isEmpty_iff := isEmpty_plan_iff
  isSingle_iff := isSingle_plan_iff
  body_single := f.plan.exists_body_single
  body_sequence := f.plan.exists_body_sequence

/-- **The outline of a plan** is settled by the conditions that are present. The kinds of a plan are
those of its filter, each once and in evaluation order, and its body has one check exactly if there
is one of them. A condition is present if it has any operand at all, and a test is made of it
exactly then. So filters with the same conditions have plans of one outline, whatever their operands
and their case flags are. -/
theorem outline_plan :
    (∀ f : Filter, f.plan.kinds = f.kinds ∧ f.plan.Outline f.isSet) ∧
    (∀ (f : Filter) (k : Kind), (f.isSet k = true ↔ ∃ v, f.operand k = some v) ∧
      (f.test? k).isSome = f.isSet k) ∧
    ∀ f g : Filter, (∀ k, f.isSet k = g.isSet k) →
      f.plan.kinds = g.plan.kinds ∧ f.plan.size = g.plan.size ∧
        f.plan.isEmpty = g.plan.isEmpty ∧ f.plan.isSingle = g.plan.isSingle := by
  refine ⟨fun f => ⟨f.kinds_plan, f.outline_plan_isSet⟩,
    fun f k => ⟨isSet_iff, f.isSome_test? k⟩, ?_⟩
  intro f g h
  -- each part of the outline is a function of the kinds that are present
  have hkinds : f.kinds = g.kinds := kinds_congr h
  refine ⟨?_, ?_, ?_, ?_⟩
  · rw [kinds_plan, kinds_plan, hkinds]
  · rw [size_plan, size_plan, hkinds]
  · rw [Bool.eq_iff_iff, isEmpty_plan_iff, isEmpty_plan_iff, ← kinds_eq_nil_iff,
      ← kinds_eq_nil_iff, hkinds]
  · rw [Bool.eq_iff_iff, isSingle_plan_iff, isSingle_plan_iff, existsUnique_isSet_iff,
      existsUnique_isSet_iff, hkinds]

/-- An empty text and an empty list in a filter that ignores letter case show in its plan as any
other operands do. -/
theorem outline_plan_empty_operands :
    let f := build [.ignoreCase true, .condition .equalsOneOf [], .condition .endsWith ""]
    let g := build [.condition .endsWith "/Σ", .condition .equalsOneOf ["a", "b"]]
    (∀ k, f.isSet k = g.isSet k) ∧ f.plan.kinds = g.plan.kinds ∧ f.plan.size = g.plan.size ∧
      g.plan.kinds = [.endsWith, .equalsOneOf] := by
  intro f g
  have hset (k : Kind) : f.isSet k = g.isSet k := by cases k <;> rfl
  obtain ⟨hkinds, hsize, -⟩ := outline_plan.2.2 f g hset
  refine ⟨hset, hkinds, hsize, ?_⟩
  rw [kinds_plan]
  decide

end Filter

end PathFilter
