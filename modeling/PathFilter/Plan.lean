import PathFilter.Meaning
import PathFilter.Verdict

/-!
# Plans

A **plan** is a filter made ready to be asked about many paths. Its checks stand in evaluation
order, whatever the order in which the filter was written, and their operands are folded once, so
that only the path is left to fold when the plan is asked.

* `Filter.test?` makes the test of one condition. It is a table of its own, one row for each kind,
  with the field that is read, the relation and the sign written out; that each row has the three
  that belong to its kind is proved (`Filter.test?_eq`), as well as that it makes a test of the
  conditions that are present and of no others (`Filter.isSome_test?`).
* `Filter.plan` makes the plan of a filter; a configuration without a filter has none.
* `Plan.accepts` answers yes or no. A plan with a single check asks it directly, any other walks
  its checks and stops at the first that fails.
* `Plan.examine` walks the checks of every plan alike and records what it did as a `Verdict`.
* `Plan.acceptsLowered` and `Plan.examineLowered` are told the lower-case form of the path
  instead of computing it; a plan that minds letter case ignores that form, and one that does not
  ignores the path.
-/

namespace PathFilter

/-! ### Tests -/

/-- A test of texts, made ready: a relation, the operand that it compares with, and whether the
outcome is turned round. -/
structure Test where
  relation : Relation
  operand : relation.arity.Operand
  isNegated : Bool

/-- Whether the text passes the test. -/
def Test.passes (t : Test) (q : String) : Bool := t.relation.test t.operand q != t.isNegated

/-- The test that a relation makes of an operand. -/
def Relation.affirm (r : Relation) (v : r.arity.Operand) : Test := ⟨r, v, false⟩

/-- The same test with its outcome turned round. -/
def Relation.deny (r : Relation) (v : r.arity.Operand) : Test := ⟨r, v, true⟩

/-- The test that a kind calls for: its own relation, with its own sign. -/
def Kind.prepare (k : Kind) (v : k.Operand) : Test := ⟨k.relation, v, k.isNegated⟩

/-! ### Checks -/

/-- The test of one condition, with the kind of the condition. -/
structure Check where
  kind : Kind
  test : Test

/-- Whether the condition holds of the text. -/
def Check.passes (c : Check) (q : String) : Bool := c.test.passes q

/-- The check that a kind calls for. -/
def Kind.check (k : Kind) (v : k.Operand) : Check := ⟨k, k.prepare v⟩

@[simp] theorem Kind.kind_check (k : Kind) (v : k.Operand) : (k.check v).kind = k := rfl

theorem Kind.passes_check_iff {k : Kind} {v : k.Operand} {q : String} :
    (k.check v).passes q = true ↔ k.Holds v q :=
  k.test_eq_true_iff v q

/-- Whether all checks pass, asked in order and no further than the first that fails. -/
def Check.allPass (q : String) : List Check → Bool
  | [] => true
  | c :: cs => if c.passes q then Check.allPass q cs else false

/-- Asks the checks in order, no further than the first that fails, and records it. -/
def Check.record (q : String) : List Check → Verdict
  | [] => .done
  | c :: cs => if c.passes q then (Check.record q cs).after c.kind else .rejected c.kind

/-! ### Plans -/

/-- What a plan has to ask. -/
inductive Body where
  /-- Exactly one check, asked directly. -/
  | single (check : Check)
  /-- No check, or several, asked in order. -/
  | sequence (checks : List Check)

/-- The body that asks the given checks. -/
def Body.ofChecks : List Check → Body
  | [c] => .single c
  | cs => .sequence cs

/-- The checks of a body, in the order in which they are asked. -/
def Body.checks : Body → List Check
  | .single c => [c]
  | .sequence cs => cs

@[simp] theorem Body.checks_ofChecks : ∀ cs : List Check, (Body.ofChecks cs).checks = cs
  | [] => rfl
  | [_] => rfl
  | _ :: _ :: _ => rfl

/-- Whether the body is a check without a list around it. -/
def Body.isSingle : Body → Bool
  | .single _ => true
  | .sequence _ => false

/-- Whether every check of the body passes. -/
def Body.accepts : Body → String → Bool
  | .single c, q => c.passes q
  | .sequence cs, q => Check.allPass q cs

/-- A filter made ready to be asked. -/
structure Plan where
  body : Body
  /-- Whether the plan is to be asked about the lower-case form of a path. -/
  ignoreCase : Bool

/-! ### Making a plan -/

/-- A single operand as it is compared, if there is one. -/
def Filter.foldText (f : Filter) (o : Option String) : Option String := o.map f.fold

/-- A list of operands as it is compared, if there is one. -/
def Filter.foldTexts (f : Filter) (o : Option (List String)) : Option (List String) :=
  o.map (List.map f.fold)

/-- The test of one condition, if the filter has it: its operand is folded here, once. -/
def Filter.test? (f : Filter) : Kind → Option Test
  | .equals => (f.foldText f.equals).map (Relation.affirm .equals)
  | .equalsNot => (f.foldText f.equalsNot).map (Relation.deny .equals)
  | .endsWith => (f.foldText f.endsWith).map (Relation.affirm .endsWith)
  | .startsWith => (f.foldText f.startsWith).map (Relation.affirm .startsWith)
  | .contains => (f.foldText f.contains).map (Relation.affirm .contains)
  | .containsNot => (f.foldText f.containsNot).map (Relation.deny .contains)
  | .containsAllOf => (f.foldTexts f.containsAllOf).map (Relation.affirm .containsAllOf)
  | .containsOneOf => (f.foldTexts f.containsOneOf).map (Relation.affirm .containsOneOf)
  | .startsNotWith => (f.foldText f.startsNotWith).map (Relation.deny .startsWith)
  | .endsNotWith => (f.foldText f.endsNotWith).map (Relation.deny .endsWith)
  | .equalsOneOf => (f.foldTexts f.equalsOneOf).map (Relation.affirm .equalsOneOf)
  | .equalsNotOneOf => (f.foldTexts f.equalsNotOneOf).map (Relation.deny .equalsOneOf)

/-- **The table of tests is right.** Each of its rows reads the field of its own kind, folds it,
and makes of it the test of that kind: with the relation that the kind asks for, turned round where
the kind denies it. -/
theorem Filter.test?_eq (f : Filter) (k : Kind) :
    f.test? k = (f.operand k).map fun v => k.prepare (k.arity.mapOperand f.fold v) := by
  cases k <;> exact Option.map_map ..

/-- **Presence is decided alike** by the two tables that decide it: a test is made exactly of the
conditions that are present. -/
theorem Filter.isSome_test? (f : Filter) (k : Kind) : (f.test? k).isSome = f.isSet k := by
  rw [Filter.test?_eq, Option.isSome_map, Filter.isSet_eq]

/-- The check of one condition, if the filter has it. -/
def Filter.check? (f : Filter) (k : Kind) : Option Check := (f.test? k).map (Check.mk k)

/-- A condition that is present has the check of its kind, with its operand folded. -/
theorem Filter.check?_eq (f : Filter) (k : Kind) :
    f.check? k = (f.operand k).map fun v => k.check (k.arity.mapOperand f.fold v) := by
  rw [Filter.check?, Filter.test?_eq, Option.map_map]
  rfl

/-- The plan of a filter: the checks of all kinds that it has, in evaluation order. -/
def Filter.plan (f : Filter) : Plan :=
  ⟨Body.ofChecks (Kind.all.filterMap f.check?), f.ignoreCase⟩

/-- The plan of a configuration: nothing to plan where no filter is configured. -/
def Configuration.plan? (c : Configuration) : Option Plan := c.map Filter.plan

namespace Plan

/-- The checks of a plan, in the order in which they are asked. -/
def checks (m : Plan) : List Check := m.body.checks

/-- The kinds of the checks, in the order in which they are tried. -/
def kinds (m : Plan) : List Kind := m.checks.map Check.kind

/-- The number of checks. -/
def size (m : Plan) : Nat := m.checks.length

/-- Whether there is nothing to check, so that every path is accepted. -/
def isEmpty (m : Plan) : Bool := m.checks.isEmpty

/-- Whether a single check is held without a list around it. -/
def isSingle (m : Plan) : Bool := m.body.isSingle

/-! ### Asking -/

/-- Of a path and a text taken as its lower-case form, the one that the plan is to be asked
about. -/
def subject (m : Plan) (path lowered : String) : String := if m.ignoreCase then lowered else path

/-- Whether the path is accepted, given its lower-case form. -/
def acceptsLowered (m : Plan) (path lowered : String) : Bool :=
  m.body.accepts (m.subject path lowered)

/-- Whether the path is accepted. -/
def accepts (m : Plan) (path : String) : Bool :=
  if m.ignoreCase then m.body.accepts (Text.lower path) else m.body.accepts path

/-- The record of asking about the path, given its lower-case form. -/
def examineLowered (m : Plan) (path lowered : String) : Verdict :=
  Check.record (m.subject path lowered) m.checks

/-- The record of asking about the path. -/
def examine (m : Plan) (path : String) : Verdict :=
  if m.ignoreCase then Check.record (Text.lower path) m.checks else Check.record path m.checks

/-! ### Description -/

/-- The flag in words. -/
private def flagText : Bool → String
  | true => "true"
  | false => "false"

/-- The text of a check: the name of its kind with a capital letter. The operand is not shown. -/
private def checkText (c : Check) : String := "Condition(" ++ c.kind.label ++ ")"

/-- The structure of a plan, in one line. -/
def text (m : Plan) : String :=
  "PathMatcher \x7b body: " ++
  (match m.body with
    | .single c => "Single(" ++ checkText c ++ ")"
    | .sequence cs => "All([" ++ ", ".intercalate (cs.map checkText) ++ "])") ++
  ", case_insensitive: " ++ flagText m.ignoreCase ++ " \x7d"

end Plan

/-! ### One question, both answers -/

/-- What a plan is asked about. -/
inductive Subject where
  | path (path : String)
  /-- A path together with what is to be taken as its lower-case form. -/
  | withLowered (path lowered : String)

/-- The yes or no of a plan beside its record. -/
structure Judgement where
  accepted : Bool
  verdict : Verdict

/-- Asks a plan both ways. -/
def Plan.judge (m : Plan) : Subject → Judgement
  | .path p => ⟨m.accepts p, m.examine p⟩
  | .withLowered p l => ⟨m.acceptsLowered p l, m.examineLowered p l⟩

end PathFilter
