import PathFilter.Proofs.Acceptance

/-!
# What a verdict records

A plan can be asked in two ways. `Plan.accepts` answers yes or no, directly where there is a single
check and by a walk that breaks off where there are more; `Plan.examine` walks the checks of every
plan alike and records what it tried. The record is an exact **trace** of the answer, and is said to
be one without either walk (`Verdict.Traces`): a kind that was tried and did not end the walk is
one whose condition, taken alone, accepts the path, and the kind that ended it is one whose
condition, taken alone, rejects it.

* `Verdict.Traces.after` is the step: a kind that passes may be put in front of a trace.
* `Check.traces_record` is the walk, by induction along the checks, and
  `Check.matched_record` says that it ends well exactly if the walk that breaks off does.
* `Filter.acceptsLowered_restrict` ties a check to the plan of its condition alone
  (`Filter.restrict`), with the operand folded as it was and the case flag kept.
* `Filter.traces_examine_plan` puts them together for all four ways of asking.
-/

namespace PathFilter

/-! ### Traces -/

/-- **An exact trace.** The verdict on a path records a walk along `kinds`, where `passes` says
which of them accept the path on their own. -/
structure Verdict.Traces (v : Verdict) (kinds : List Kind) (passes : Kind → Bool) : Prop where
  /-- What was tried stands in the order of the kinds, without a gap. -/
  evaluated_prefix : v.evaluated <+: kinds
  /-- Whatever was tried and was not the last passes. -/
  passes_of_mem_dropLast : ∀ k ∈ v.evaluated.dropLast, passes k = true
  /-- A path is accepted when nothing is left to try. -/
  complete : v.matched = true → v.rejectedBy = none ∧ v.evaluated = kinds
  /-- A path is rejected by the last kind that was tried. -/
  stopped : v.matched = false →
    ∃ k, v.rejectedBy = some k ∧ v.evaluated.getLast? = some k ∧ passes k = false

namespace Verdict.Traces

variable {kinds : List Kind} {passes : Kind → Bool} {k : Kind}

/-- A walk with nothing left to try traces no kinds at all. -/
theorem done : Verdict.done.Traces [] passes where
  evaluated_prefix := List.prefix_rfl
  passes_of_mem_dropLast := fun _ hk => nomatch hk
  complete := fun _ => ⟨rfl, rfl⟩
  stopped := fun h => nomatch h

/-- A kind that does not pass ends the walk. -/
theorem rejected (hk : passes k = false) : (Verdict.rejected k).Traces (k :: kinds) passes where
  evaluated_prefix := ⟨kinds, rfl⟩
  passes_of_mem_dropLast := fun _ hj => nomatch hj
  complete := fun h => nomatch h
  stopped := fun _ => ⟨k, rfl, rfl, hk⟩

/-- **The step.** A walk may begin with a kind that passes. -/
theorem after {v : Verdict} (hk : passes k = true) (h : v.Traces kinds passes) :
    (v.after k).Traces (k :: kinds) passes where
  evaluated_prefix := (List.prefix_cons_inj k).mpr h.evaluated_prefix
  passes_of_mem_dropLast := by
    intro j hj
    change j ∈ (k :: v.evaluated).dropLast at hj
    by_cases hv : v.evaluated = []
    · -- the kind is the last one itself, and nothing is said of it here
      rw [hv] at hj
      nomatch hj
    · rw [List.dropLast_cons_of_ne_nil hv, List.mem_cons] at hj
      rcases hj with rfl | hj
      · exact hk
      · exact h.passes_of_mem_dropLast j hj
  complete := by
    intro hv
    obtain ⟨hnone, heq⟩ := h.complete hv
    exact ⟨hnone, congrArg (k :: ·) heq⟩
  stopped := by
    intro hv
    obtain ⟨j, hj, hlast, hpass⟩ := h.stopped hv
    refine ⟨j, hj, ?_, hpass⟩
    change (k :: v.evaluated).getLast? = some j
    rw [List.getLast?_cons, hlast, Option.getD_some]

end Verdict.Traces

/-! ### The walk along the checks -/

namespace Check

variable {q : String} {cs : List Check}

/-- The walk that records and the walk that breaks off come to the same answer. -/
theorem matched_record : (record q cs).matched = allPass q cs := by
  -- the two walks break off at the same check
  induction cs with
  | nil => rfl
  | cons c cs ih =>
    rw [record, allPass]
    cases c.passes q with
    | true => exact ih
    | false => rfl

/-- **The walk.** What is recorded is a trace, whichever test of kinds the checks agree with. -/
theorem traces_record {passes : Kind → Bool} (h : ∀ c ∈ cs, passes c.kind = c.passes q) :
    (record q cs).Traces (cs.map Check.kind) passes := by
  -- by induction on the checks, with `after` for a check that passes
  induction cs with
  | nil => exact .done
  | cons c cs ih =>
    have hc : passes c.kind = c.passes q := h c List.mem_cons_self
    rw [record, List.map_cons]
    cases hp : c.passes q with
    | true => exact .after (hc.trans hp) (ih fun d hd => h d (List.mem_cons_of_mem c hd))
    | false => exact .rejected (hc.trans hp)

end Check

namespace Plan

variable {m : Plan} {p l : String}

/-- A body is asked as its checks are, one after the other. -/
theorem acceptsLowered_eq_allPass :
    m.acceptsLowered p l = Check.allPass (m.subject p l) m.checks := by
  rw [Bool.eq_iff_iff, acceptsLowered_iff, Check.allPass_iff]

theorem matched_examineLowered : (m.examineLowered p l).matched = m.acceptsLowered p l := by
  rw [acceptsLowered_eq_allPass]
  exact Check.matched_record

/-- What is recorded of a path when nothing but the path is given. -/
theorem examine_eq_examineLowered (m : Plan) (p : String) :
    m.examine p = m.examineLowered p (Text.lower p) := by
  unfold examine examineLowered subject
  cases m.ignoreCase <;> rfl

end Plan

/-! ### One condition alone -/

namespace Filter

variable {f : Filter} {p l : String}

/-- The filter with one condition of `f`, if `f` has it, and with the flag of `f`. -/
def restrict (f : Filter) (k : Kind) : Filter :=
  (empty.setIgnoreCase f.ignoreCase).put k (f.operand k)

theorem ignoreCase_restrict (f : Filter) (k : Kind) :
    (f.restrict k).ignoreCase = f.ignoreCase := by
  rw [restrict, ignoreCase_put, ignoreCase_setIgnoreCase]

/-- A condition alone is asked about the same text as among the others. -/
theorem subject_plan_restrict (f : Filter) (k : Kind) (p l : String) :
    (f.restrict k).plan.subject p l = f.plan.subject p l := by
  show (if (f.restrict k).ignoreCase then l else p) = if f.ignoreCase then l else p
  rw [ignoreCase_restrict]

/-- And it is folded as it is among the others. -/
theorem mem_checks_plan_restrict_iff {k : Kind} {c : Check} :
    c ∈ (f.restrict k).plan.checks ↔ c ∈ f.plan.checks ∧ c.kind = k := by
  rw [mem_checks_plan_iff, mem_checks_plan_iff, fold_congr (f.ignoreCase_restrict k)]
  -- the operand of the one condition is the same in both filters, and so is the folding
  constructor
  · rintro ⟨j, v, hv, rfl⟩
    by_cases hkj : k = j
    · subst hkj
      rw [restrict, operand_put_self] at hv
      exact ⟨⟨k, v, hv, rfl⟩, rfl⟩
    · -- there is nothing but the one condition
      rw [restrict, operand_put_of_ne hkj, operand_setIgnoreCase, operand_empty] at hv
      contradiction
  · rintro ⟨⟨j, v, hv, rfl⟩, rfl⟩
    exact ⟨j, v, by rw [Kind.kind_check, restrict, operand_put_self, hv], rfl⟩

/-- A plan has one check for a kind at most. -/
theorem eq_of_mem_checks_plan {c d : Check} (hc : c ∈ f.plan.checks) (hd : d ∈ f.plan.checks)
    (h : c.kind = d.kind) : c = d := by
  obtain ⟨k, v, hv, rfl⟩ := mem_checks_plan_iff.mp hc
  obtain ⟨j, w, hw, rfl⟩ := mem_checks_plan_iff.mp hd
  obtain rfl : k = j := h
  rw [Option.some.inj (hv.symm.trans hw)]

/-- A check of a plan passes exactly if the plan of its condition alone accepts. -/
theorem acceptsLowered_restrict {c : Check} (hc : c ∈ f.plan.checks) :
    (f.restrict c.kind).plan.acceptsLowered p l = c.passes (f.plan.subject p l) := by
  rw [Bool.eq_iff_iff, Plan.acceptsLowered_iff, subject_plan_restrict]
  -- the plan of the condition alone has this check and no other
  constructor
  · intro h
    exact h c (mem_checks_plan_restrict_iff.mpr ⟨hc, rfl⟩)
  · intro h d hd
    obtain ⟨hmem, hkind⟩ := mem_checks_plan_restrict_iff.mp hd
    rw [eq_of_mem_checks_plan hmem hc hkind]
    exact h

theorem examine_plan (f : Filter) (p : String) :
    f.plan.examine p = Check.record (f.fold p) (Kind.all.filterMap f.check?) := by
  rw [Plan.examine_eq_examineLowered, Plan.examineLowered, subject_plan, checks_plan]

/-- The record of a plan is a trace of its conditions, each taken alone. -/
theorem traces_examineLowered_plan :
    (f.plan.examineLowered p l).Traces f.plan.kinds
      fun k => (f.restrict k).plan.acceptsLowered p l :=
  Check.traces_record fun _ hc => acceptsLowered_restrict hc

/-- **Examining is an exact trace of accepting.** Whether a plan is told the lower-case form of a
path or works it out, its verdict has the same answer as the plain question, and traces the
conditions of the filter as they answer when they are asked alone in the same way. Told the
lower-case form that it would work out, a plan gives the same answer and the same verdict. -/
theorem traces_examine_plan (f : Filter) :
    (∀ p, (f.plan.examine p).matched = f.plan.accepts p ∧
      (f.plan.examine p).Traces f.plan.kinds fun k => (f.restrict k).plan.accepts p) ∧
    (∀ p l, (f.plan.examineLowered p l).matched = f.plan.acceptsLowered p l ∧
      (f.plan.examineLowered p l).Traces f.plan.kinds
        fun k => (f.restrict k).plan.acceptsLowered p l) ∧
    ∀ p, f.plan.acceptsLowered p (Text.lower p) = f.plan.accepts p ∧
      f.plan.examineLowered p (Text.lower p) = f.plan.examine p := by
  refine ⟨fun p => ?_, fun p l => ⟨Plan.matched_examineLowered, traces_examineLowered_plan⟩,
    fun p => ⟨(Plan.accepts_eq_acceptsLowered _ _).symm,
      (Plan.examine_eq_examineLowered _ _).symm⟩⟩
  -- without a lower-case form the plan and every restricted plan work it out from the same path
  have halone : (fun k => (f.restrict k).plan.accepts p) =
      fun k => (f.restrict k).plan.acceptsLowered p (Text.lower p) :=
    funext fun k => Plan.accepts_eq_acceptsLowered _ _
  rw [Plan.examine_eq_examineLowered, Plan.accepts_eq_acceptsLowered, halone]
  exact ⟨Plan.matched_examineLowered, traces_examineLowered_plan⟩

/-- One check passes, the next rejects, and the last is not tried. -/
example :
    let f := build [.condition .startsWith "b", .condition .endsWith "a", .condition .equalsNot ""]
    f.plan.kinds = [.equalsNot, .endsWith, .startsWith] ∧
      f.plan.examine "ab" = ⟨[.equalsNot, .endsWith], some .endsWith⟩ := by
  decide +kernel

end Filter

end PathFilter
