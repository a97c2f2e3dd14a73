import PathFilter.Kind

/-!
# Filters and their edits

A **filter** is a record with one field for each kind of condition, which holds the operand of that
condition where it is present, and a flag that says whether letter case is ignored.

There are several ways to get at a field by its kind, and each is a **table of its own**, with a
row for every kind:

* `Filter.set` — the setters, which write an operand;
* `Filter.isSet` — whether there is an operand;
* `Filter.singleSlot`, `Filter.listSlot` — the field as a place to write to, for whoever has a text
  or a list of texts in hand and does not know yet which of the two the kind calls for;
* `Filter.operand`, `Filter.put` — the field as it is read and assigned.

A row that named the field of another kind would mix two conditions up, and nothing in the types
forbids that: the fields of eight kinds have one type, and those of the other four another. So that
all tables address the same field for the same kind is proved here, each of them being compared
with the field as it is read. A write is read back and leaves every other field as it was
(`Filter.operand_put_self`, `Filter.operand_put_of_ne`); a setter is a write (`Filter.set_eq_put`);
a condition is present if its field holds something (`Filter.isSet_eq`); and of the two slots a kind
has the one for what it takes (`Filter.isSome_singleSlot`, `Filter.isSome_listSlot`). That this slot
is the field of the kind is said where values of either shape are known, among the entries of
scripts (`Filter.serves_singleSlot`, `Filter.serves_listSlot`). Two filters are equal if every field
of the one holds what that of the other does (`Filter.ext_operand`).

`Filter.kinds` lists the conditions that are present, in evaluation order whatever the order of the
writes (`Filter.mem_kinds_iff`), and `Filter.build` carries out a run of edits on the empty filter.

A **configuration** is a filter or nothing. Nothing configured is not the same as a filter
without conditions: the latter accepts every path, the former has no plan at all.
-/

namespace PathFilter

/-- A set of conditions on a path. A field that holds nothing stands for a condition that is
absent. -/
@[ext]
structure Filter where
  /-- Whether paths and operands are compared after lower-casing. -/
  ignoreCase : Bool := false
  equals : Option String := none
  equalsNot : Option String := none
  contains : Option String := none
  containsNot : Option String := none
  containsAllOf : Option (List String) := none
  containsOneOf : Option (List String) := none
  startsWith : Option String := none
  startsNotWith : Option String := none
  endsWith : Option String := none
  endsNotWith : Option String := none
  equalsOneOf : Option (List String) := none
  equalsNotOneOf : Option (List String) := none
  deriving DecidableEq

/-- A filter, or `none` where no filter is configured. -/
abbrev Configuration : Type := Option Filter

namespace Filter

instance : Inhabited Filter := ⟨{}⟩

/-- The name under which every format writes the flag. -/
def flagName : String := "caseInsensitive"

/-- The filter without conditions, which minds letter case. -/
def empty : Filter := {}

/-! ### Fields -/

/-- What the field of a condition holds. -/
def operand (f : Filter) : (k : Kind) → Option k.Operand
  | .equals => f.equals
  | .equalsNot => f.equalsNot
  | .endsWith => f.endsWith
  | .startsWith => f.startsWith
  | .contains => f.contains
  | .containsNot => f.containsNot
  | .containsAllOf => f.containsAllOf
  | .containsOneOf => f.containsOneOf
  | .startsNotWith => f.startsNotWith
  | .endsNotWith => f.endsNotWith
  | .equalsOneOf => f.equalsOneOf
  | .equalsNotOneOf => f.equalsNotOneOf

/-- Assigns to the field of a condition, which gives the condition an operand or takes it away. -/
def put (f : Filter) : (k : Kind) → Option k.Operand → Filter
  | .equals, o => { f with equals := o }
  | .equalsNot, o => { f with equalsNot := o }
  | .endsWith, o => { f with endsWith := o }
  | .startsWith, o => { f with startsWith := o }
  | .contains, o => { f with contains := o }
  | .containsNot, o => { f with containsNot := o }
  | .containsAllOf, o => { f with containsAllOf := o }
  | .containsOneOf, o => { f with containsOneOf := o }
  | .startsNotWith, o => { f with startsNotWith := o }
  | .endsNotWith, o => { f with endsNotWith := o }
  | .equalsOneOf, o => { f with equalsOneOf := o }
  | .equalsNotOneOf, o => { f with equalsNotOneOf := o }

/-- The filter whose fields hold the given operands. -/
def ofOperands (ignoreCase : Bool) (operand : (k : Kind) → Option k.Operand) : Filter where
  ignoreCase := ignoreCase
  equals := operand .equals
  equalsNot := operand .equalsNot
  contains := operand .contains
  containsNot := operand .containsNot
  containsAllOf := operand .containsAllOf
  containsOneOf := operand .containsOneOf
  startsWith := operand .startsWith
  startsNotWith := operand .startsNotWith
  endsWith := operand .endsWith
  endsNotWith := operand .endsNotWith
  equalsOneOf := operand .equalsOneOf
  equalsNotOneOf := operand .equalsNotOneOf

variable {f g : Filter}

/-- Nothing of a filter is hidden from whoever reads its flag and the fields of all kinds. -/
theorem ext_operand (hflag : f.ignoreCase = g.ignoreCase)
    (hoperand : ∀ k, f.operand k = g.operand k) : f = g :=
  Filter.ext hflag (hoperand .equals) (hoperand .equalsNot) (hoperand .contains)
    (hoperand .containsNot) (hoperand .containsAllOf) (hoperand .containsOneOf)
    (hoperand .startsWith) (hoperand .startsNotWith) (hoperand .endsWith) (hoperand .endsNotWith)
    (hoperand .equalsOneOf) (hoperand .equalsNotOneOf)

@[simp] theorem operand_empty (k : Kind) : empty.operand k = none := by
  cases k <;> rfl

@[simp] theorem operand_ofOperands (b : Bool) (o : (k : Kind) → Option k.Operand) (k : Kind) :
    (ofOperands b o).operand k = o k := by
  cases k <;> rfl

@[simp] theorem ignoreCase_ofOperands (b : Bool) (o : (k : Kind) → Option k.Operand) :
    (ofOperands b o).ignoreCase = b := rfl

/-- What is assigned to a field is read from it. -/
@[simp] theorem operand_put_self (f : Filter) (k : Kind) (o : Option k.Operand) :
    (f.put k o).operand k = o := by
  cases k <;> rfl

/-- No two kinds share a field: the other fields are read as before. -/
@[simp] theorem operand_put_of_ne {k j : Kind} (h : k ≠ j) (o : Option k.Operand) :
    (f.put k o).operand j = f.operand j := by
  -- every pair of kinds has its own two rows, and the pairs of a kind with itself are excluded
  cases k <;> cases j <;> first | rfl | contradiction

@[simp] theorem ignoreCase_put (f : Filter) (k : Kind) (o : Option k.Operand) :
    (f.put k o).ignoreCase = f.ignoreCase := by
  cases k <;> rfl

/-! ### Presence -/

/-- Whether the condition is present. An empty text or an empty list is an operand like any
other, so it counts as present. -/
def isSet (f : Filter) : Kind → Bool
  | .equals => f.equals.isSome
  | .equalsNot => f.equalsNot.isSome
  | .endsWith => f.endsWith.isSome
  | .startsWith => f.startsWith.isSome
  | .contains => f.contains.isSome
  | .containsNot => f.containsNot.isSome
  | .containsAllOf => f.containsAllOf.isSome
  | .containsOneOf => f.containsOneOf.isSome
  | .startsNotWith => f.startsNotWith.isSome
  | .endsNotWith => f.endsNotWith.isSome
  | .equalsOneOf => f.equalsOneOf.isSome
  | .equalsNotOneOf => f.equalsNotOneOf.isSome

/-- A condition is present exactly if its own field holds something. -/
theorem isSet_eq (f : Filter) (k : Kind) : f.isSet k = (f.operand k).isSome := by
  cases k <;> rfl

/-- A condition is present exactly if it has an operand. -/
theorem isSet_iff {k : Kind} : f.isSet k = true ↔ ∃ v, f.operand k = some v := by
  rw [isSet_eq, Option.isSome_iff_exists]

theorem isSet_eq_false_iff {k : Kind} : f.isSet k = false ↔ f.operand k = none := by
  rw [isSet_eq, Option.isSome_eq_false_iff, Option.isNone_iff_eq_none]

/-- The conditions that are present, in evaluation order. -/
def kinds (f : Filter) : List Kind := Kind.all.filter f.isSet

theorem mem_kinds_iff {k : Kind} : k ∈ f.kinds ↔ f.isSet k = true := by
  simp [kinds, Kind.mem_all]

/-! ### Setters -/

/-- Sets a condition; an operand that was there before is replaced. -/
def set (f : Filter) : (k : Kind) → k.Operand → Filter
  | .equals, v => { f with equals := some v }
  | .equalsNot, v => { f with equalsNot := some v }
  | .contains, v => { f with contains := some v }
  | .containsNot, v => { f with containsNot := some v }
  | .containsAllOf, v => { f with containsAllOf := some v }
  | .containsOneOf, v => { f with containsOneOf := some v }
  | .startsWith, v => { f with startsWith := some v }
  | .startsNotWith, v => { f with startsNotWith := some v }
  | .endsWith, v => { f with endsWith := some v }
  | .endsNotWith, v => { f with endsNotWith := some v }
  | .equalsOneOf, v => { f with equalsOneOf := some v }
  | .equalsNotOneOf, v => { f with equalsNotOneOf := some v }

/-- Takes a condition away. -/
def clear (f : Filter) (k : Kind) : Filter := f.put k none

/-- Says whether letter case is ignored. -/
def setIgnoreCase (f : Filter) (b : Bool) : Filter := { f with ignoreCase := b }

/-- The setter of a kind assigns to the field of that kind. -/
theorem set_eq_put (f : Filter) (k : Kind) (v : k.Operand) : f.set k v = f.put k (some v) := by
  cases k <;> rfl

@[simp] theorem operand_set_self (f : Filter) (k : Kind) (v : k.Operand) :
    (f.set k v).operand k = some v := by
  rw [set_eq_put, operand_put_self]

@[simp] theorem operand_set_of_ne {k j : Kind} (h : k ≠ j) (v : k.Operand) :
    (f.set k v).operand j = f.operand j := by
  rw [set_eq_put, operand_put_of_ne h]

@[simp] theorem ignoreCase_set (f : Filter) (k : Kind) (v : k.Operand) :
    (f.set k v).ignoreCase = f.ignoreCase := by
  rw [set_eq_put, ignoreCase_put]

@[simp] theorem operand_clear_self (f : Filter) (k : Kind) : (f.clear k).operand k = none :=
  operand_put_self ..

@[simp] theorem operand_clear_of_ne {k j : Kind} (h : k ≠ j) :
    (f.clear k).operand j = f.operand j := operand_put_of_ne h _

@[simp] theorem operand_setIgnoreCase (f : Filter) (b : Bool) :
    (f.setIgnoreCase b).operand = f.operand := by
  funext k
  cases k <;> rfl

@[simp] theorem ignoreCase_setIgnoreCase (f : Filter) (b : Bool) :
    (f.setIgnoreCase b).ignoreCase = b := rfl

/-! ### Slots -/

/-- A field of a filter, whatever its kind, as a place to read from and to write to. -/
structure Slot (α : Type) where
  read : Filter → Option α
  write : Filter → Option α → Filter

/-- The field of a kind that takes a single text. -/
def singleSlot : Kind → Option (Slot String)
  | .equals => some ⟨equals, fun f o => { f with equals := o }⟩
  | .equalsNot => some ⟨equalsNot, fun f o => { f with equalsNot := o }⟩
  | .endsWith => some ⟨endsWith, fun f o => { f with endsWith := o }⟩
  | .startsWith => some ⟨startsWith, fun f o => { f with startsWith := o }⟩
  | .contains => some ⟨contains, fun f o => { f with contains := o }⟩
  | .containsNot => some ⟨containsNot, fun f o => { f with containsNot := o }⟩
  | .startsNotWith => some ⟨startsNotWith, fun f o => { f with startsNotWith := o }⟩
  | .endsNotWith => some ⟨endsNotWith, fun f o => { f with endsNotWith := o }⟩
  | .containsAllOf | .containsOneOf | .equalsOneOf | .equalsNotOneOf => none

/-- The field of a kind that takes a list of texts. -/
def listSlot : Kind → Option (Slot (List String))
  | .containsAllOf => some ⟨containsAllOf, fun f o => { f with containsAllOf := o }⟩
  | .containsOneOf => some ⟨containsOneOf, fun f o => { f with containsOneOf := o }⟩
  | .equalsOneOf => some ⟨equalsOneOf, fun f o => { f with equalsOneOf := o }⟩
  | .equalsNotOneOf => some ⟨equalsNotOneOf, fun f o => { f with equalsNotOneOf := o }⟩
  | _ => none

/-- Exactly one of the two slots is there: that for lists where the kind takes a list. -/
theorem isSome_listSlot (k : Kind) : (listSlot k).isSome = k.takesList := by
  cases k <;> rfl

theorem isSome_singleSlot (k : Kind) : (singleSlot k).isSome = !k.takesList := by
  cases k <;> rfl

/-- Sets a condition to a single text, or refuses if the kind has no place for one. -/
def setText? (f : Filter) (k : Kind) (s : String) : Option Filter :=
  (singleSlot k).map fun slot => slot.write f (some s)

/-- Sets a condition to a list of texts, or refuses if the kind has no place for one. -/
def setTexts? (f : Filter) (k : Kind) (ss : List String) : Option Filter :=
  (listSlot k).map fun slot => slot.write f (some ss)

/-- A list is refused by the kinds that take a single text. -/
theorem isSome_setTexts? (f : Filter) (k : Kind) (ss : List String) :
    (f.setTexts? k ss).isSome = k.takesList := by
  rw [setTexts?, Option.isSome_map, isSome_listSlot]

theorem isSome_setText? (f : Filter) (k : Kind) (s : String) :
    (f.setText? k s).isSome = !k.takesList := by
  rw [setText?, Option.isSome_map, isSome_singleSlot]

end Filter

theorem Kind.name_ne_flagName (k : Kind) : k.name ≠ Filter.flagName := by
  cases k <;> decide

/-! ### Runs of edits -/

/-- One edit of a filter: the call of a setter. -/
inductive Edit where
  | condition (kind : Kind) (operand : kind.Operand)
  | ignoreCase (flag : Bool)

/-- Carries out one edit. -/
def Filter.edit (f : Filter) : Edit → Filter
  | .condition k v => f.set k v
  | .ignoreCase b => f.setIgnoreCase b

/-- Carries out a run of edits, from left to right, on the empty filter. -/
def Filter.build (es : List Edit) : Filter := es.foldl Filter.edit Filter.empty

end PathFilter
