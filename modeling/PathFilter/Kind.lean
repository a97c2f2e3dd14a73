/-!
# The kinds of condition

A condition asks for one **relation** between a path and a configured operand, or for its
negation. There are seven relations and twelve kinds: five relations have a negated kind beside
the positive one, the two quantified containments have none.

* `Relation.arity` says whether the operand is one string or a list of strings, and
  `Kind.Operand` is the type that follows from it, so an operand of the wrong shape cannot be
  written down.
* `Kind.all` lists the kinds in **evaluation order**, which is also the order of the
  constructors; `Kind.index` is the place of a kind in it (`Kind.all_getElem?_index`), and
  `Kind.sort` orders by it.
* `Kind.ofName?` reads back what `Kind.name` writes (`Kind.ofName?_name`) and nothing else
  (`Kind.name_of_ofName?`).
* `Kind.takesList` and `Kind.complement` are tables of their own. What ties them to the relations
  and the signs is proved: a kind takes a list exactly if its relation speaks of one
  (`Kind.takesList_iff`), and its complement is the kind with the same relation and the opposite
  sign (`Kind.complement_eq_some_iff`).
-/

namespace PathFilter

/-- How many strings a condition is configured with. -/
inductive Arity where
  | one
  | many
  deriving DecidableEq, Repr

/-- The values that an operand of the given arity can take. -/
abbrev Arity.Operand : Arity → Type
  | .one => String
  | .many => List String

/-- Applies a text function to every string of an operand. -/
def Arity.mapOperand (f : String → String) : (a : Arity) → a.Operand → a.Operand
  | .one => f
  | .many => List.map f

/-- What is asked of a path, before a possible negation. -/
inductive Relation where
  | equals
  | endsWith
  | startsWith
  | contains
  | containsAllOf
  | containsOneOf
  | equalsOneOf
  deriving DecidableEq, Repr

/-- The relations that speak of a list of strings are the three quantified ones. -/
def Relation.arity : Relation → Arity
  | .equals | .endsWith | .startsWith | .contains => .one
  | .containsAllOf | .containsOneOf | .equalsOneOf => .many

/-- The twelve kinds of condition, in evaluation order. -/
inductive Kind where
  | equals
  | equalsNot
  | endsWith
  | startsWith
  | contains
  | containsNot
  | containsAllOf
  | containsOneOf
  | startsNotWith
  | endsNotWith
  | equalsOneOf
  | equalsNotOneOf
  deriving DecidableEq, Repr

namespace Kind

/-- The relation that a kind asks for or denies. -/
def relation : Kind → Relation
  | .equals | .equalsNot => .equals
  | .endsWith | .endsNotWith => .endsWith
  | .startsWith | .startsNotWith => .startsWith
  | .contains | .containsNot => .contains
  | .containsAllOf => .containsAllOf
  | .containsOneOf => .containsOneOf
  | .equalsOneOf | .equalsNotOneOf => .equalsOneOf

/-- Whether a kind denies its relation. -/
def isNegated : Kind → Bool
  | .equalsNot | .containsNot | .startsNotWith | .endsNotWith | .equalsNotOneOf => true
  | .equals | .endsWith | .startsWith | .contains | .containsAllOf | .containsOneOf
  | .equalsOneOf => false

/-- The arity of a kind is that of its relation: a negation takes the operand of what it denies. -/
abbrev arity (k : Kind) : Arity := k.relation.arity

/-- What a condition of the kind is configured with. -/
abbrev Operand (k : Kind) : Type := k.arity.Operand

/-- Whether a kind is configured with a list of texts instead of a single one. -/
def takesList : Kind → Bool
  | .containsAllOf | .containsOneOf | .equalsOneOf | .equalsNotOneOf => true
  | .equals | .equalsNot | .endsWith | .startsWith | .contains | .containsNot | .startsNotWith
  | .endsNotWith => false

/-- A kind takes a list where its relation speaks of one. -/
theorem takesList_iff {k : Kind} : k.takesList = true ↔ k.arity = .many := by
  cases k <;> decide

theorem takesList_eq_false_iff {k : Kind} : k.takesList = false ↔ k.arity = .one := by
  cases k <;> decide

/-! ### Orders -/

/-- Every kind once, in evaluation order. -/
def all : List Kind :=
  [.equals, .equalsNot, .endsWith, .startsWith, .contains, .containsNot, .containsAllOf,
    .containsOneOf, .startsNotWith, .endsNotWith, .equalsOneOf, .equalsNotOneOf]

/-- Every kind once, in the order in which a written filter lists its conditions: each positive
kind directly before its complement. -/
def documented : List Kind :=
  [.equals, .equalsNot, .contains, .containsNot, .containsAllOf, .containsOneOf, .startsWith,
    .startsNotWith, .endsWith, .endsNotWith, .equalsOneOf, .equalsNotOneOf]

/-- The place of a kind in evaluation order, counted from zero. -/
def index : Kind → Nat
  | .equals => 0
  | .equalsNot => 1
  | .endsWith => 2
  | .startsWith => 3
  | .contains => 4
  | .containsNot => 5
  | .containsAllOf => 6
  | .containsOneOf => 7
  | .startsNotWith => 8
  | .endsNotWith => 9
  | .equalsOneOf => 10
  | .equalsNotOneOf => 11

theorem mem_all (k : Kind) : k ∈ all := by cases k <;> decide

theorem mem_documented (k : Kind) : k ∈ documented := by cases k <;> decide

theorem nodup_all : all.Nodup := by decide

/-- The index of a kind is its place in `Kind.all`. -/
theorem all_getElem?_index (k : Kind) : all[k.index]? = some k := by cases k <;> rfl

theorem index_injective {k l : Kind} (h : k.index = l.index) : k = l := by
  have hk := all_getElem?_index k
  rw [h, all_getElem?_index l] at hk
  exact (Option.some.inj hk).symm

/-- Evaluation order lists the kinds by rising index. -/
theorem pairwise_index_all : all.Pairwise (fun k l => k.index < l.index) := by decide

/-- Sorts kinds into evaluation order; a repeated kind stays repeated. -/
def sort (ks : List Kind) : List Kind :=
  ks.mergeSort fun k l => k.index ≤ l.index

/-! ### Names -/

/-- The name of a kind, as it is written in every configuration format. -/
def name : Kind → String
  | .equals => "equals"
  | .equalsNot => "equalsNot"
  | .endsWith => "endsWith"
  | .startsWith => "startsWith"
  | .contains => "contains"
  | .containsNot => "containsNot"
  | .containsAllOf => "containsAllOf"
  | .containsOneOf => "containsOneOf"
  | .startsNotWith => "startsNotWith"
  | .endsNotWith => "endsNotWith"
  | .equalsOneOf => "equalsOneOf"
  | .equalsNotOneOf => "equalsNotOneOf"

/-- The name of a kind with a capital letter, as descriptions show it. -/
def label (k : Kind) : String := k.name.capitalize

/-- The kind that a name stands for. Names are matched letter by letter, case included. -/
def ofName? (s : String) : Option Kind := all.find? (·.name = s)

/-- The name of a kind is read back as this kind. -/
theorem ofName?_name (k : Kind) : ofName? k.name = some k := by cases k <;> decide

theorem name_of_ofName? {s : String} {k : Kind} (h : ofName? s = some k) : k.name = s := by
  simpa using List.find?_some h

/-- Reading a name succeeds exactly on the names that are written. -/
theorem ofName?_eq_some_iff {s : String} {k : Kind} : ofName? s = some k ↔ s = k.name :=
  ⟨fun h => (name_of_ofName? h).symm, fun h => h ▸ ofName?_name k⟩

theorem name_injective {k l : Kind} (h : k.name = l.name) : k = l := by
  have hk := ofName?_name k
  rw [h, ofName?_name l] at hk
  exact (Option.some.inj hk).symm

/-! ### Complements -/

/-- The kind that accepts exactly what this one rejects. The two quantified containments have
none. -/
def complement : Kind → Option Kind
  | .equals => some .equalsNot
  | .equalsNot => some .equals
  | .contains => some .containsNot
  | .containsNot => some .contains
  | .startsWith => some .startsNotWith
  | .startsNotWith => some .startsWith
  | .endsWith => some .endsNotWith
  | .endsNotWith => some .endsWith
  | .equalsOneOf => some .equalsNotOneOf
  | .equalsNotOneOf => some .equalsOneOf
  | .containsAllOf | .containsOneOf => none

/-- The complement has the same relation and the opposite sign, and no other kind has. -/
theorem complement_eq_some_iff {k l : Kind} :
    k.complement = some l ↔ l.relation = k.relation ∧ l.isNegated = !k.isNegated := by
  cases k <;> cases l <;> decide

end Kind

/-- A name that is the name of no kind. -/
structure UnknownKind where
  name : String
  deriving DecidableEq, Repr

/-- The wording of the complaint about a name. -/
def UnknownKind.message (e : UnknownKind) : String :=
  "unknown path condition '" ++ e.name ++ "'"

/-- Reads the name of a kind, or says which name is unknown. -/
def Kind.parse (s : String) : Except UnknownKind Kind :=
  match ofName? s with
  | some k => .ok k
  | none => .error ⟨s⟩

theorem Kind.parse_name (k : Kind) : Kind.parse k.name = .ok k := by
  simp [Kind.parse, Kind.ofName?_name]

end PathFilter
