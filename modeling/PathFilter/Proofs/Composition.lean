import PathFilter.Proofs.Examination

/-!
# Filters side by side

Two filters that fold alike and have no condition in common can be asked one after the other, or
put together into one (`Filter.union`). The two ways come to the same for every path, and not only
in the answer: the verdict of the union can be read off the two verdicts (`Filter.examine_union`).
It is rejected by whichever of the two rejecting kinds is **earlier**, and what it tried are the
kinds of both filters in evaluation order **up to** that one.

A verdict is determined by two things that are both easy to follow through a union.

* **The kind that rejects** is the first in evaluation order whose condition is present and fails
  (`Filter.rejectedBy_examine_plan`). The conditions of a union are those of the two filters, and
  the first kind with one of two properties is the earlier of the first with either
  (`Kind.find?_or`).
* **The kinds that were tried** are those of the filter up to the one that rejects
  (`Filter.evaluated_examine_plan`), and evaluation order leaves only one way to list the kinds of
  both filters (`Kind.eq_sort_of_perm`, `Filter.kinds_union`).
-/

namespace PathFilter

/-! ### The earlier of two kinds -/

namespace Kind

/-- Of two kinds, either of which may be missing, the one that is earlier in evaluation order. -/
def earlier : Option Kind → Option Kind → Option Kind
  | none, l => l
  | some k, none => some k
  | some k, some l => if k.index ≤ l.index then some k else some l

/-- The kinds of a list up to and with the given one, or all of them where none is given. -/
def upTo (ks : List Kind) : Option Kind → List Kind
  | none => ks
  | some k => ks.takeWhile (· ≠ k) ++ [k]

/-- A kind that none of the others precedes is the earlier one, also where they are the same. -/
theorem earlier_eq_left {k : Kind} {o : Option Kind} (h : ∀ j ∈ o, k.index ≤ j.index) :
    earlier (some k) o = some k := by
  cases o with
  | none => rfl
  | some j => exact if_pos (h j rfl)

/-- A kind that precedes all others is the earlier one. -/
theorem earlier_eq_right {k : Kind} {o : Option Kind} (h : ∀ j ∈ o, k.index < j.index) :
    earlier o (some k) = some k := by
  cases o with
  | none => rfl
  | some j => exact if_neg (Nat.not_le_of_lt (h j rfl))

/-- There is none of two kinds only where both are missing. -/
theorem isNone_earlier (o o' : Option Kind) :
    (earlier o o').isNone = (o.isNone && o'.isNone) := by
  cases o with
  | none => rfl
  | some k =>
    cases o' with
    | none => rfl
    | some l =>
      show (if k.index ≤ l.index then some k else some l).isNone = false
      split <;> rfl

/-- **The first kind with one of two properties** is the earlier of the first with either. -/
theorem find?_or (P Q : Kind → Bool) {ks : List Kind}
    (h : ks.Pairwise fun k l => k.index < l.index) :
    ks.find? (fun k => P k || Q k) = earlier (ks.find? P) (ks.find? Q) := by
  -- along the kinds in order: the first that has either property decides both searches
  induction ks with
  | nil => rfl
  | cons k ks ih =>
    obtain ⟨hk, hks⟩ := List.pairwise_cons.mp h
    cases hP : P k with
    | true =>
      have hboth : (k :: ks).find? (fun j => P j || Q j) = some k :=
        List.find?_cons_of_pos (by rw [hP, Bool.true_or])
      rw [hboth, List.find?_cons_of_pos hP]
      symm
      apply earlier_eq_left
      -- whatever has the other property is `k` itself or later
      intro j hj
      rcases List.mem_cons.mp (List.mem_of_find?_eq_some hj) with rfl | hmem
      · exact Nat.le_refl _
      · exact Nat.le_of_lt (hk j hmem)
    | false =>
      rw [List.find?_cons_of_neg (p := P) (by simp [hP])]
      cases hQ : Q k with
      | true =>
        have hboth : (k :: ks).find? (fun j => P j || Q j) = some k :=
          List.find?_cons_of_pos (by rw [hQ, Bool.or_true])
        rw [hboth, List.find?_cons_of_pos hQ]
        symm
        apply earlier_eq_right
        intro j hj
        exact hk j (List.mem_of_find?_eq_some hj)
      | false =>
        rw [List.find?_cons_of_neg (p := Q) (by simp [hQ]),
          List.find?_cons_of_neg (by simp [hP, hQ])]
        exact ih hks

/-- A kind that is not the one to stop at is passed. -/
theorem upTo_cons_of_ne {k : Kind} {ks : List Kind} {o : Option Kind} (h : ∀ j ∈ o, k ≠ j) :
    upTo (k :: ks) o = k :: upTo ks o := by
  cases o with
  | none => rfl
  | some j =>
    have hwalk : (k :: ks).takeWhile (· ≠ j) = k :: ks.takeWhile (· ≠ j) :=
      List.takeWhile_cons_of_pos (decide_eq_true (h j rfl))
    rw [upTo, upTo, hwalk, List.cons_append]

/-- Sorted kinds stand in evaluation order. -/
theorem pairwise_sort (ks : List Kind) : (sort ks).Pairwise fun k l => k.index ≤ l.index := by
  have htrans : ∀ j k l : Kind, decide (j.index ≤ k.index) = true →
      decide (k.index ≤ l.index) = true → decide (j.index ≤ l.index) = true := by
    intro j k l hjk hkl
    exact decide_eq_true (Nat.le_trans (of_decide_eq_true hjk) (of_decide_eq_true hkl))
  have htotal : ∀ k l : Kind,
      (decide (k.index ≤ l.index) || decide (l.index ≤ k.index)) = true := by
    intro k l
    rw [Bool.or_eq_true, decide_eq_true_iff, decide_eq_true_iff]
    exact Nat.le_total k.index l.index
  exact (List.pairwise_mergeSort htrans htotal ks).imp of_decide_eq_true

/-- Evaluation order leaves one way to list given kinds. -/
theorem eq_sort_of_perm {ks ls : List Kind} (hks : ks.Pairwise fun k l => k.index ≤ l.index)
    (h : ks.Perm ls) : ks = sort ls := by
  have hperm : ks.Perm (sort ls) := h.trans (List.mergeSort_perm ls _).symm
  -- two sorted lists of the same kinds are equal, since no two kinds share a place
  apply List.Perm.eq_of_pairwise _ hks (pairwise_sort ls) hperm
  intro k l _ _ hkl hlk
  exact index_injective (Nat.le_antisymm hkl hlk)

end Kind

/-! ### Verdicts by kinds -/

namespace Check

variable {q : String} {cs : List Check}

/-- The kind that rejects is that of the first check that fails. -/
theorem rejectedBy_record :
    (record q cs).rejectedBy = (cs.find? fun c => !c.passes q).map Check.kind := by
  -- along the checks: the walk goes on exactly where the search does
  induction cs with
  | nil => rfl
  | cons c cs ih =>
    rw [record]
    cases hc : c.passes q with
    | true =>
      rw [List.find?_cons_of_neg (by simp [hc]), ← ih]
      rfl
    | false =>
      rw [List.find?_cons_of_pos (by simp [hc])]
      rfl

/-- What was tried are the kinds up to the one that rejects, provided that none occurs twice. -/
theorem evaluated_record (h : (cs.map Check.kind).Nodup) :
    (record q cs).evaluated = Kind.upTo (cs.map Check.kind) (record q cs).rejectedBy := by
  -- along the checks; since no kind occurs twice, none that passed is the one to stop at
  induction cs with
  | nil => rfl
  | cons c cs ih =>
    rw [List.map_cons, List.nodup_cons] at h
    obtain ⟨hnew, hcs⟩ := h
    rw [record]
    cases hc : c.passes q with
    | true =>
      -- the walk goes on, and the kind that ends it is another one
      have hne : ∀ j ∈ (record q cs).rejectedBy, c.kind ≠ j := by
        intro j hj heq
        rw [rejectedBy_record, Option.mem_def, Option.map_eq_some_iff] at hj
        obtain ⟨d, hd, rfl⟩ := hj
        exact hnew (heq ▸ List.mem_map_of_mem (List.mem_of_find?_eq_some hd))
      show c.kind :: (record q cs).evaluated = Kind.upTo (c.kind :: _) (record q cs).rejectedBy
      rw [Kind.upTo_cons_of_ne hne, ih hcs]
    | false =>
      have hstop : (c.kind :: cs.map Check.kind).takeWhile (· ≠ c.kind) = [] :=
        List.takeWhile_cons_of_neg (by simp)
      show [c.kind] = (c.kind :: cs.map Check.kind).takeWhile (· ≠ c.kind) ++ [c.kind]
      rw [hstop, List.nil_append]

end Check

namespace Filter

/-- Whether a condition of the kind is present and does not hold of the text. -/
def rejects (f : Filter) (q : String) (k : Kind) : Bool :=
  (f.check? k).any fun c => !c.passes q

theorem kind_of_check? {f : Filter} {k : Kind} {c : Check} (h : f.check? k = some c) :
    c.kind = k := by
  rw [check?_eq] at h
  obtain ⟨v, -, rfl⟩ := Option.map_eq_some_iff.mp h
  rfl

theorem nodup_kinds (f : Filter) : f.kinds.Nodup := Kind.nodup_all.filter _

/-- The kinds of a plan are the conditions that are present, in evaluation order. -/
theorem kinds_plan (f : Filter) : f.plan.kinds = f.kinds := by
  have hkind (k : Kind) : (f.check? k).map Check.kind = Option.guard (fun j => f.isSet j) k := by
    -- a check is made of a test, and a test where the condition counts as present
    rw [check?, Option.map_map, Option.guard, ← isSome_test?]
    cases f.test? k <;> simp
  rw [Plan.kinds, checks_plan, List.map_filterMap, funext hkind, List.filterMap_eq_filter]
  rfl

/-- **The kind that rejects** is the first whose condition is present and fails. -/
theorem rejectedBy_examine_plan (f : Filter) (p : String) :
    (f.plan.examine p).rejectedBy = Kind.all.find? (f.rejects (f.fold p)) := by
  rw [examine_plan, Check.rejectedBy_record, List.find?_filterMap]
  show ((Kind.all.find? (f.rejects (f.fold p))).bind f.check?).map Check.kind = _
  cases hk : Kind.all.find? (f.rejects (f.fold p)) with
  | none => rfl
  | some k =>
    have hrejects : f.rejects (f.fold p) k = true := List.find?_some hk
    -- what rejects is a condition that is present, so it has a check
    rw [Option.bind_some]
    cases hc : f.check? k with
    | none =>
      rw [rejects, hc] at hrejects
      contradiction
    | some c => rw [Option.map_some, kind_of_check? hc]

/-- **The kinds that were tried** are those of the filter up to the one that rejects. -/
theorem evaluated_examine_plan (f : Filter) (p : String) :
    (f.plan.examine p).evaluated = Kind.upTo f.kinds (f.plan.examine p).rejectedBy := by
  have hkinds : (Kind.all.filterMap f.check?).map Check.kind = f.kinds := by
    rw [← checks_plan]
    exact f.kinds_plan
  rw [examine_plan, Check.evaluated_record, hkinds]
  rw [hkinds]
  exact f.nodup_kinds

/-! ### The union of two filters -/

/-- The filter with the conditions of both. -/
def union (f g : Filter) : Filter :=
  ofOperands f.ignoreCase fun k => (f.operand k).or (g.operand k)

/-- That two filters fold alike and have no condition in common. -/
structure Separate (f g : Filter) : Prop where
  ignoreCase_eq : f.ignoreCase = g.ignoreCase
  operand_eq_none : ∀ k, f.isSet k = true → g.operand k = none

variable {f g : Filter}

/-- A field of a union holds what that of the first filter holds, or else that of the second. -/
@[simp] theorem operand_union (f g : Filter) (k : Kind) :
    (f.union g).operand k = (f.operand k).or (g.operand k) :=
  operand_ofOperands ..

/-- Where no condition is common, the operands of a union are those of both filters. -/
theorem operand_union_eq_some_iff (h : f.Separate g) {k : Kind} {v : k.Operand} :
    (f.union g).operand k = some v ↔ f.operand k = some v ∨ g.operand k = some v := by
  rw [operand_union]
  cases hf : f.operand k with
  | none => simp
  | some w =>
    have hg : g.operand k = none := h.operand_eq_none k (isSet_iff.mpr ⟨w, hf⟩)
    rw [hg, Option.or_none]
    simp

theorem isSet_union (f g : Filter) (k : Kind) :
    (f.union g).isSet k = (f.isSet k || g.isSet k) := by
  rw [isSet_eq, isSet_eq, isSet_eq, operand_union, Option.isSome_or]

/-- A condition of one of the filters is checked in the union as it is checked there. -/
theorem check?_union (h : f.Separate g) (k : Kind) :
    (f.union g).check? k = (f.check? k).or (g.check? k) := by
  have hfold : (f.union g).fold = g.fold := fold_congr h.ignoreCase_eq
  rw [check?_eq, check?_eq, check?_eq, operand_union]
  -- the one filter has the condition or the other one
  cases f.operand k with
  | none => rw [Option.none_or, Option.map_none, Option.none_or, hfold]
  | some v => rfl

/-- A union rejects by the kinds by which either filter does. -/
theorem rejects_union (h : f.Separate g) (q : String) (k : Kind) :
    (f.union g).rejects q k = (f.rejects q k || g.rejects q k) := by
  rw [rejects, rejects, rejects, check?_union h]
  -- a condition of the first part is none of the second, so one of the two sides never rejects
  cases hf : f.check? k with
  | none => simp
  | some c =>
    rw [check?_eq] at hf
    obtain ⟨v, hv, -⟩ := Option.map_eq_some_iff.mp hf
    have hg : g.check? k = none := by
      rw [check?_eq, h.operand_eq_none k (isSet_iff.mpr ⟨v, hv⟩), Option.map_none]
    simp [hg]

/-- The kinds of the union are the kinds of both filters, merged in evaluation order. -/
theorem kinds_union (h : f.Separate g) : (f.union g).kinds = Kind.sort (f.kinds ++ g.kinds) := by
  have hdisjoint : (f.kinds ++ g.kinds).Nodup := by
    rw [List.nodup_append]
    refine ⟨f.nodup_kinds, g.nodup_kinds, ?_⟩
    rintro k hk _ hk' rfl
    rw [mem_kinds_iff] at hk hk'
    rw [isSet_eq, h.operand_eq_none k hk] at hk'
    contradiction
  -- it is enough that the kinds of the union are sorted and are those of both filters
  apply Kind.eq_sort_of_perm
  · exact (Kind.pairwise_index_all.imp Nat.le_of_lt).filter _
  · rw [List.perm_ext_iff_of_nodup (nodup_kinds _) hdisjoint]
    intro k
    rw [List.mem_append, mem_kinds_iff, mem_kinds_iff, mem_kinds_iff, isSet_union,
      Bool.or_eq_true]

/-- A path is accepted exactly if no kind rejects it. -/
theorem accepts_plan_eq_isNone (f : Filter) (p : String) :
    f.plan.accepts p = (f.plan.examine p).rejectedBy.isNone := by
  rw [Plan.accepts_eq_acceptsLowered, ← Plan.matched_examineLowered,
    ← Plan.examine_eq_examineLowered]
  rfl

/-- **The verdict of a union.** The union has the conditions of both filters. It accepts what both
of them accept; it is rejected by the earlier of the kinds that reject in either; and it tries the
kinds of both, in evaluation order, up to that one. -/
theorem examine_union (h : f.Separate g) (p : String) :
    (∀ k v, (f.union g).operand k = some v ↔ f.operand k = some v ∨ g.operand k = some v) ∧
    (f.union g).plan.accepts p = (f.plan.accepts p && g.plan.accepts p) ∧
    ((f.union g).plan.examine p).rejectedBy =
      Kind.earlier (f.plan.examine p).rejectedBy (g.plan.examine p).rejectedBy ∧
    ((f.union g).plan.examine p).evaluated =
      Kind.upTo (Kind.sort (f.plan.kinds ++ g.plan.kinds))
        ((f.union g).plan.examine p).rejectedBy := by
  have hfold : g.fold p = f.fold p := congrFun (fold_congr h.ignoreCase_eq.symm) p
  -- the kind that rejects settles the other two: nothing rejects where a path is accepted, and the
  -- trace ends where something does
  have hrejected : ((f.union g).plan.examine p).rejectedBy =
      Kind.earlier (f.plan.examine p).rejectedBy (g.plan.examine p).rejectedBy := by
    calc ((f.union g).plan.examine p).rejectedBy
        = Kind.all.find? ((f.union g).rejects (f.fold p)) := rejectedBy_examine_plan _ p
      _ = Kind.all.find? (fun k => f.rejects (f.fold p) k || g.rejects (f.fold p) k) := by
          rw [funext (rejects_union h (f.fold p))]
      _ = Kind.earlier (Kind.all.find? (f.rejects (f.fold p)))
            (Kind.all.find? (g.rejects (f.fold p))) := Kind.find?_or _ _ Kind.pairwise_index_all
      _ = Kind.earlier (f.plan.examine p).rejectedBy (g.plan.examine p).rejectedBy := by
          rw [rejectedBy_examine_plan, rejectedBy_examine_plan, hfold]
  refine ⟨fun k v => operand_union_eq_some_iff h, ?_, hrejected, ?_⟩
  · rw [accepts_plan_eq_isNone, accepts_plan_eq_isNone, accepts_plan_eq_isNone, hrejected,
      Kind.isNone_earlier]
  · rw [evaluated_examine_plan, kinds_union h, kinds_plan, kinds_plan]

/-- Two filters reject a path, the second with the earlier kind. The union tries nothing else. -/
theorem examine_union_both_reject :
    let f := build [.condition .equalsOneOf ["a"]]
    let g := build [.condition .equals "a", .condition .endsWith "b"]
    f.Separate g ∧ (f.union g).plan.accepts "c" = false ∧
      ((f.union g).plan.examine "c").rejectedBy = some .equals ∧
      ((f.union g).plan.examine "c").evaluated = [.equals] := by
  intro f g
  have hseparate : f.Separate g := by
    refine ⟨rfl, fun k hk => ?_⟩
    -- no kind is present in both
    cases k <;> first | rfl | contradiction
  obtain ⟨-, haccepts, hrejected, hevaluated⟩ := examine_union hseparate "c"
  have hfirst : ((f.union g).plan.examine "c").rejectedBy = some .equals := by
    -- of the kinds that reject, `equals` of the second part comes first
    rw [hrejected]
    decide +kernel
  refine ⟨hseparate, ?_, hfirst, ?_⟩
  · rw [haccepts, accepts_plan_eq_isNone g]
    have hg : (g.plan.examine "c").rejectedBy.isNone = false := by decide +kernel
    rw [hg, Bool.and_false]
  · rw [hevaluated, hfirst, kinds_plan, kinds_plan, ← kinds_union hseparate]
    decide +kernel

end Filter

end PathFilter
