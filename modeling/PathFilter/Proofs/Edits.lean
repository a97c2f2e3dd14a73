import PathFilter.Proofs.Composition
import PathFilter.Proofs.Script.Entries

/-!
# Runs of edits

A filter is written by a run of edits, in any order and with repetitions, and of the edits of one
key only the **last** counts (`Filter.build_last_wins`). The argument has a step and a run.

* **One edit** gives its own condition the operand that it carries and leaves every other condition
  and the case flag alone (`Filter.operand_edit`, `Filter.ignoreCase_edit`). What that means for
  whoever looks at the filter afterwards, through its fields, through the conditions that are
  present, through the tests that are made of it or through its plan, is said once in
  `Filter.Writes`. Each of these ways of looking goes by a table of its own, so that `Writes` says
  of the tables that they meet: a row that led to the field of another kind would break a clause.
* **A run** is followed by asking of it the one key that is of interest. Whatever part of a filter
  each edit either replaces or leaves alone is, after the run, what the last edit that replaced it
  has put there (`Filter.foldl_edit`); the fields and the case flag are such parts, and together
  they are the whole filter (`Filter.build_eq_lastWritten`).

A script writes its values through two narrower ways in, one for single texts and one for lists. To
each kind just one of them is open, and what it does there is the edit (`Filter.OneWayIn`).
-/

namespace PathFilter

/-! ### What an edit carries -/

namespace Edit

/-- The operand that an edit gives to a condition, if it is an edit of that condition. -/
def operand? (k : Kind) : Edit → Option k.Operand
  | .condition j v => if h : j = k then some (h ▸ v) else none
  | .ignoreCase _ => none

/-- The case flag that an edit sets, if it is an edit of the flag. -/
def flag? : Edit → Option Bool
  | .condition _ _ => none
  | .ignoreCase b => some b

/-- The operand of the last edit of a condition, if the run has one. -/
def lastOperand (k : Kind) (es : List Edit) : Option k.Operand :=
  (es.filterMap (operand? k)).getLast?

/-- The flag of the last edit of the case flag, if the run has one. -/
def lastFlag (es : List Edit) : Option Bool := (es.filterMap flag?).getLast?

/-- Two runs whose last edits of every key are the same. -/
structure AgreeOnLast (es ds : List Edit) : Prop where
  operand_eq : ∀ k, lastOperand k es = lastOperand k ds
  flag_eq : lastFlag es = lastFlag ds

end Edit

namespace Filter

variable {f g : Filter} {k : Kind}

/-! ### One edit -/

/-- An edit of a condition replaces its operand, and every other edit leaves it alone. -/
theorem operand_edit (f : Filter) (e : Edit) (k : Kind) :
    (f.edit e).operand k = (e.operand? k).or (f.operand k) := by
  cases e with
  | condition j v =>
    show (f.set j v).operand k = (if h : j = k then some (h ▸ v) else none).or (f.operand k)
    by_cases hjk : j = k
    · subst hjk
      rw [operand_set_self, dif_pos rfl, Option.some_or]
    · rw [operand_set_of_ne hjk, dif_neg hjk, Option.none_or]
  | ignoreCase b => rfl

/-- An edit of the flag replaces it, and every other edit leaves it alone. -/
theorem ignoreCase_edit (f : Filter) (e : Edit) :
    some (f.edit e).ignoreCase = e.flag?.or (some f.ignoreCase) := by
  cases e with
  | condition k v =>
    show some (f.set k v).ignoreCase = some f.ignoreCase
    rw [ignoreCase_set]
  | ignoreCase b => rfl

/-- **What a write does.** The filter `g` is `f` with the condition `k` given the operand `v`,
however one looks at it. -/
structure Writes (f : Filter) (k : Kind) (v : k.Operand) (g : Filter) : Prop where
  operand_self : g.operand k = some v
  isSet_self : g.isSet k = true
  /-- The test that is made of the condition compares with that operand, folded. -/
  test_self : g.test? k = some (k.prepare (k.arity.mapOperand f.fold v))
  /-- The plan checks the condition with that operand, and has no other check of its kind. -/
  check_self : ∀ c, c ∈ g.plan.checks ∧ c.kind = k ↔ c = k.check (k.arity.mapOperand f.fold v)
  ignoreCase_eq : g.ignoreCase = f.ignoreCase
  operand_of_ne : ∀ j, k ≠ j → g.operand j = f.operand j
  isSet_of_ne : ∀ j, k ≠ j → g.isSet j = f.isSet j
  test_of_ne : ∀ j, k ≠ j → g.test? j = f.test? j
  /-- The checks of the other kinds are those that were made before. -/
  check_of_ne : ∀ c, k ≠ c.kind → (c ∈ g.plan.checks ↔ c ∈ f.plan.checks)

/-- A check belongs to a plan exactly if it is the check of its condition. -/
theorem mem_checks_plan_iff_check? {c : Check} :
    c ∈ f.plan.checks ↔ f.check? c.kind = some c := by
  rw [checks_plan, List.mem_filterMap]
  constructor
  · rintro ⟨k, -, hk⟩
    obtain rfl : c.kind = k := kind_of_check? hk
    exact hk
  · exact fun hc => ⟨c.kind, c.kind.mem_all, hc⟩

/-- What is known of the fields and the flag after a write, says everything else: whatever is asked
of a filter is answered from them. -/
theorem Writes.of_operand {v : k.Operand} (hself : g.operand k = some v)
    (hne : ∀ j, k ≠ j → g.operand j = f.operand j) (hflag : g.ignoreCase = f.ignoreCase) :
    f.Writes k v g := by
  have hfold : g.fold = f.fold := fold_congr hflag
  have hcheck : g.check? k = some (k.check (k.arity.mapOperand f.fold v)) := by
    rw [check?_eq, hself, Option.map_some, hfold]
  -- no other kind is tested otherwise, since neither its field nor the folding has changed
  have htest (j : Kind) (hj : k ≠ j) : g.test? j = f.test? j := by
    rw [test?_eq, test?_eq, hne j hj, hfold]
  -- each way of looking is a function of the fields and the flag
  refine
    { operand_self := hself
      isSet_self := isSet_iff.mpr ⟨v, hself⟩
      test_self := by rw [test?_eq, hself, Option.map_some, hfold]
      check_self := fun c => ⟨?_, ?_⟩
      ignoreCase_eq := hflag
      operand_of_ne := hne
      isSet_of_ne := fun j hj => by rw [isSet_eq, isSet_eq, hne j hj]
      test_of_ne := htest
      check_of_ne := fun c hc => by
        rw [mem_checks_plan_iff_check?, mem_checks_plan_iff_check?, check?, check?, htest _ hc] }
  · rintro ⟨hc, rfl⟩
    rw [mem_checks_plan_iff_check?, hcheck] at hc
    exact (Option.some.inj hc).symm
  · rintro rfl
    exact ⟨mem_checks_plan_iff_check?.mpr hcheck, rfl⟩

/-- **The step.** An edit of a condition writes it and nothing else. -/
theorem writes_edit (f : Filter) (k : Kind) (v : k.Operand) :
    f.Writes k v (f.edit (.condition k v)) :=
  .of_operand (operand_set_self f k v) (fun _ hj => operand_set_of_ne hj v) (ignoreCase_set f k v)

/-! ### The two ways in -/

/-- **How a value gets in.** Of the two slots that a kind may have, just one is there, and it is the
field that an edit of that kind writes. So whoever has a text or a list in hand is refused, or does
what the edit with that operand does. -/
structure OneWayIn (k : Kind) : Prop where
  isSome_singleSlot : (singleSlot k).isSome = !k.takesList
  isSome_listSlot : (listSlot k).isSome = k.takesList
  serves_singleSlot : ∀ slot, singleSlot k = some slot → slot.Serves k .text
  serves_listSlot : ∀ slot, listSlot k = some slot → slot.Serves k .list
  setText?_iff : ∀ (f : Filter) s g, f.setText? k s = some g ↔
    ∃ v, k.arity.scriptValue v = .text s ∧ g = f.edit (.condition k v)
  setTexts?_iff : ∀ (f : Filter) ss g, f.setTexts? k ss = some g ↔
    ∃ v, k.arity.scriptValue v = .list ss ∧ g = f.edit (.condition k v)
  /-- Every operand gets in. -/
  addValue_eq : ∀ (f : Filter) v,
    Script.addValue f k (k.arity.scriptValue v) = .ok (f.edit (.condition k v))

/-- Just one of the two ways in is open to each kind, and it is that of its edits. -/
theorem oneWayIn (k : Kind) : OneWayIn k where
  isSome_singleSlot := isSome_singleSlot k
  isSome_listSlot := isSome_listSlot k
  serves_singleSlot _ := serves_singleSlot
  serves_listSlot _ := serves_listSlot
  setText?_iff _ _ _ := setText?_eq_some_iff
  setTexts?_iff _ _ _ := setTexts?_eq_some_iff
  addValue_eq f v := Script.addValue_scriptValue f k v

/-! ### Runs -/

/-- **The run.** A part of a filter that each edit either replaces or leaves alone is, after a run,
what the last edit that replaced it has put there. -/
theorem foldl_edit {α : Type} (part : Filter → Option α) (put : Edit → Option α)
    (h : ∀ f e, part (f.edit e) = (put e).or (part f)) (f : Filter) (es : List Edit) :
    part (es.foldl edit f) = (es.filterMap put).getLast?.or (part f) := by
  -- by induction on the run, for every filter it may start from
  induction es generalizing f with
  | nil => rfl
  | cons e es ih =>
    -- the first edit of the run counts only where no later one does
    have hlast : ((e :: es).filterMap put).getLast? =
        (es.filterMap put).getLast?.or (put e) := by
      cases he : put e with
      | none => rw [List.filterMap_cons_none he, Option.or_none]
      | some a =>
        rw [List.filterMap_cons_some he, List.getLast?_cons]
        cases (es.filterMap put).getLast? <;> rfl
    rw [List.foldl_cons, ih, h, hlast, Option.or_assoc]

/-- The field of a condition holds what the last edit of it carries. -/
theorem operand_build (es : List Edit) (k : Kind) :
    (build es).operand k = Edit.lastOperand k es := by
  -- the field is one of the parts that `foldl_edit` speaks of; at the start it holds nothing
  have hrun := foldl_edit (·.operand k) (Edit.operand? k) (operand_edit · · k) empty es
  rw [operand_empty, Option.or_none] at hrun
  exact hrun

/-- The flag is the one that was set last, and off where none was. -/
theorem ignoreCase_build (es : List Edit) :
    (build es).ignoreCase = (Edit.lastFlag es).getD false := by
  -- the flag is another one, and it is there from the start
  have hrun := foldl_edit (some ·.ignoreCase) Edit.flag? ignoreCase_edit empty es
  apply Option.some.inj
  rw [← Option.or_some]
  exact hrun

/-- The filter in which every field holds what the last edit of its condition carries, if the run
has one. -/
def lastWritten (es : List Edit) : Filter where
  ignoreCase := (Edit.lastFlag es).getD false
  equals := Edit.lastOperand .equals es
  equalsNot := Edit.lastOperand .equalsNot es
  contains := Edit.lastOperand .contains es
  containsNot := Edit.lastOperand .containsNot es
  containsAllOf := Edit.lastOperand .containsAllOf es
  containsOneOf := Edit.lastOperand .containsOneOf es
  startsWith := Edit.lastOperand .startsWith es
  startsNotWith := Edit.lastOperand .startsNotWith es
  endsWith := Edit.lastOperand .endsWith es
  endsNotWith := Edit.lastOperand .endsNotWith es
  equalsOneOf := Edit.lastOperand .equalsOneOf es
  equalsNotOneOf := Edit.lastOperand .equalsNotOneOf es

/-- **The run.** Every field is left as the last edit of its condition has written it. -/
theorem build_eq_lastWritten (es : List Edit) : build es = lastWritten es := by
  -- the record is compared with what its fields are read as, kind by kind
  have hoperand (k : Kind) : (lastWritten es).operand k = Edit.lastOperand k es := by
    cases k <;> rfl
  apply ext_operand (ignoreCase_build es)
  intro k
  rw [operand_build, hoperand]

/-- Runs that agree on the last edits write the same filter. -/
theorem build_congr {es ds : List Edit} (h : Edit.AgreeOnLast es ds) : build es = build ds := by
  apply ext_operand
  · rw [ignoreCase_build, ignoreCase_build, h.flag_eq]
  · intro k
    rw [operand_build, operand_build, h.operand_eq k]

/-- **The last edit of a key wins.** After a run of edits the field of each condition holds the
operand of its last edit, if there was one, and the case flag is the one set last, or off. So runs
that agree on the last edit of every key write the same filter, with the same conditions and the
same verdicts. An edit of a condition writes that condition and nothing else, however the filter is
looked at; and of the two ways in that a script has, just one is open to each kind, and what is
written through it is what an edit writes. -/
theorem build_last_wins :
    (∀ es : List Edit, build es = lastWritten es ∧
      ∀ k, (build es).operand k = Edit.lastOperand k es) ∧
    (∀ es ds : List Edit, Edit.AgreeOnLast es ds →
      build es = build ds ∧ (build es).kinds = (build ds).kinds ∧
        ∀ p, (build es).plan.examine p = (build ds).plan.examine p) ∧
    (∀ (f : Filter) (k : Kind) (v : k.Operand), f.Writes k v (f.edit (.condition k v))) ∧
    ∀ k : Kind, OneWayIn k := by
  refine ⟨fun es => ⟨build_eq_lastWritten es, operand_build es⟩, ?_, writes_edit, oneWayIn⟩
  intro es ds h
  -- the same record, so the same of all that is made of it
  rw [build_congr h]
  exact ⟨rfl, rfl, fun _ => rfl⟩

/-- A run in which a text is overwritten and a list is emptied, and one without repetitions. -/
theorem build_last_wins_emptied_list :
    let es : List Edit := [.condition .endsWith "a", .ignoreCase true,
      .condition .equalsOneOf ["b"], .condition .endsWith "", .condition .equalsOneOf []]
    let ds : List Edit := [.condition .equalsOneOf [], .condition .endsWith "", .ignoreCase true]
    Edit.AgreeOnLast es ds ∧ build es = build ds ∧
      (build es).kinds = [.endsWith, .equalsOneOf] := by
  intro es ds
  have hagree : Edit.AgreeOnLast es ds := by
    refine ⟨fun k => ?_, rfl⟩
    cases k <;> rfl
  obtain ⟨heq, hkinds, -⟩ := build_last_wins.2.1 es ds hagree
  refine ⟨hagree, heq, hkinds.trans ?_⟩
  decide

end Filter

end PathFilter
