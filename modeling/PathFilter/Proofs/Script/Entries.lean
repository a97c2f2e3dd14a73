import Mathlib.Data.List.Nodup
import PathFilter.Script.Configuration

/-!
# The filter of a list of entries

What the entries of a section configure does not depend on their order. The order matters only to
the question whether an entry was there *before*, and that question has the same answer in every
order if no name occurs twice.

The invariant is `Gathers f es`: the filter `f` holds the operand of every condition among `es`
and nothing else. It determines the filter (`Gathers.unique`), and it speaks of membership alone,
so it is blind to order (`Gathers.perm`). Taking a further entry keeps it
(`Gathers.addEntry`), hence the filter of a list of entries gathers them
(`exists_filterOf_of_isProper`).

Two things about the running code come before that.

* **Slots.** A value is written through one of two tables of slots. To each kind one of them is
  open, and its slot is the field of that kind (`Filter.serves_singleSlot`,
  `Filter.serves_listSlot`); so what is taken as a value is an operand of the kind, and taking it
  is setting the condition (`addValue_eq_ok_iff`).
* **The case flag.** An intake remembers apart from its filter whether the flag was there. Every
  entry that is taken keeps the two in step (`addEntry_of_eq_ok`), and so does a run of entries
  (`foldlM_addEntry_of_eq_ok`); the filter therefore says all there is to know.

In the other direction every filter gathers the entries that it would be written with
(`Filter.gathers_entries`), which gives `filterOf_of_perm`: those entries, in any order, configure
that filter.
-/

namespace PathFilter

/-! ### The entries of a filter -/

/-- An operand as a script writes it. -/
def Arity.scriptValue : (a : Arity) → a.Operand → Script.Value
  | .one, (s : String) => .text s
  | .many, (ss : List String) => .list ss

/-- An operand is known by the value that writes it. -/
theorem Arity.scriptValue_injective {a : Arity} {v w : a.Operand}
    (h : a.scriptValue v = a.scriptValue w) : v = w := by
  cases a with
  | one => exact Script.Value.text.inj h
  | many => exact Script.Value.list.inj h

theorem Arity.scriptValue_ne_flag {a : Arity} (v : a.Operand) : a.scriptValue v ≠ .flag := by
  cases a <;> exact nofun

/-- A text is a value of the conditions that take no list, and of no other. -/
theorem Kind.exists_scriptValue_eq_text_iff {k : Kind} (s : String) :
    (∃ v : k.Operand, k.arity.scriptValue v = .text s) ↔ k.takesList = false := by
  have harity (a : Arity) : (∃ v : a.Operand, a.scriptValue v = .text s) ↔ a = .one := by
    cases a with
    | one => exact iff_of_true ⟨s, rfl⟩ rfl
    | many => exact iff_of_false (fun ⟨_, hv⟩ => nomatch hv) nofun
  rw [harity, takesList_eq_false_iff]

/-- A list is a value of the conditions that take one, and of no other. -/
theorem Kind.exists_scriptValue_eq_list_iff {k : Kind} (ss : List String) :
    (∃ v : k.Operand, k.arity.scriptValue v = .list ss) ↔ k.takesList = true := by
  have harity (a : Arity) : (∃ v : a.Operand, a.scriptValue v = .list ss) ↔ a = .many := by
    cases a with
    | one => exact iff_of_false (fun ⟨_, hv⟩ => nomatch hv) nofun
    | many => exact iff_of_true ⟨ss, rfl⟩ rfl
  rw [harity, takesList_iff]

namespace Script

/-- The entry that sets the case flag. -/
def Entry.caseFlag : Entry := ⟨Filter.flagName, .flag⟩

/-- The entry that sets a condition. -/
def Entry.condition (k : Kind) (v : k.Operand) : Entry := ⟨k.name, k.arity.scriptValue v⟩

end Script

open Script (Entry)

/-- The entries that write a filter down, the flag first and the conditions in evaluation
order. -/
def Filter.entries (f : Filter) : List Entry :=
  (if f.ignoreCase then [Entry.caseFlag] else []) ++
    Kind.all.filterMap fun k => (f.operand k).map (Entry.condition k)

namespace Script

/-- An entry that may stand in a section: the flag without a value, or a condition with a value
of its arity. -/
def Entry.IsProper (e : Entry) : Prop :=
  e = .caseFlag ∨ ∃ k v, e = .condition k v

theorem Entry.condition_inj {k : Kind} {v w : k.Operand}
    (h : Entry.condition k v = Entry.condition k w) : v = w :=
  Arity.scriptValue_injective (congrArg Entry.value h)

end Script

/-! ### Slots -/

namespace Filter

variable {f g : Filter} {k : Kind}

/-- **What a slot is for.** A slot serves the kind `k` if it is the field of that kind: it holds
what the field holds, and writing to it is setting the condition. The slot has texts, or lists of
texts, where the field has operands; the two are compared by the values that a script writes for
them. -/
structure Slot.Serves {α : Type} (slot : Slot α) (k : Kind) (value : α → Script.Value) : Prop where
  read_eq_some_iff : ∀ f a v, k.arity.scriptValue v = value a →
    (slot.read f = some a ↔ f.operand k = some v)
  write_eq : ∀ f a v, k.arity.scriptValue v = value a → slot.write f (some a) = f.set k v

/-- The slot for a single text that a kind has is the field of that kind. -/
theorem serves_singleSlot {slot : Slot String} (h : singleSlot k = some slot) :
    slot.Serves k .text := by
  -- a row of this table is compared with the rows of the same kind in the tables of fields and of
  -- setters, so every kind is looked at on its own
  cases k <;> first
    | contradiction
    | obtain rfl := Option.some.inj h
      constructor <;> intro f s v hv <;> obtain rfl : v = s := Script.Value.text.inj hv <;> rfl

/-- So is the slot for a list. -/
theorem serves_listSlot {slot : Slot (List String)} (h : listSlot k = some slot) :
    slot.Serves k .list := by
  cases k <;> first
    | contradiction
    | obtain rfl := Option.some.inj h
      constructor <;> intro f ss v hv <;> obtain rfl : v = ss := Script.Value.list.inj hv <;> rfl

/-- What can be written through a slot that serves `k`, if it is there for the operands of `k` that
are written as `value a`, is the setting of such an operand. -/
private theorem map_write_eq_some_iff {α : Type} {slot? : Option (Slot α)}
    {value : α → Script.Value} {a : α} (hserves : ∀ slot, slot? = some slot → slot.Serves k value)
    (hopen : slot?.isSome = true ↔ ∃ v : k.Operand, k.arity.scriptValue v = value a) :
    (slot?.map fun slot => slot.write f (some a)) = some g ↔
      ∃ v, k.arity.scriptValue v = value a ∧ g = f.set k v := by
  rw [Option.map_eq_some_iff]
  constructor
  · rintro ⟨slot, hslot, rfl⟩
    obtain ⟨v, hv⟩ := hopen.mp (Option.isSome_iff_exists.mpr ⟨slot, hslot⟩)
    exact ⟨v, hv, (hserves slot hslot).write_eq f a v hv⟩
  · rintro ⟨v, hv, rfl⟩
    obtain ⟨slot, hslot⟩ := Option.isSome_iff_exists.mp (hopen.mpr ⟨v, hv⟩)
    exact ⟨slot, hslot, (hserves slot hslot).write_eq f a v hv⟩

/-- The way in for single texts is open to the operands that are written as a single text, and sets
the condition. -/
theorem setText?_eq_some_iff {s : String} :
    f.setText? k s = some g ↔ ∃ v, k.arity.scriptValue v = .text s ∧ g = f.set k v := by
  apply map_write_eq_some_iff fun _ => serves_singleSlot
  rw [isSome_singleSlot, Bool.not_eq_true', Kind.exists_scriptValue_eq_text_iff]

theorem setTexts?_eq_some_iff {ss : List String} :
    f.setTexts? k ss = some g ↔ ∃ v, k.arity.scriptValue v = .list ss ∧ g = f.set k v := by
  apply map_write_eq_some_iff fun _ => serves_listSlot
  rw [isSome_listSlot, Kind.exists_scriptValue_eq_list_iff]

end Filter

namespace Script

variable {f g : Filter} {k : Kind}

/-- **Taking a value** is setting the condition to the operand that is written so. -/
theorem addValue_eq_ok_iff {x : Value} :
    addValue f k x = .ok g ↔ ∃ v, k.arity.scriptValue v = x ∧ g = f.set k v := by
  -- a condition without a value is refused, and each other value has its own way in
  cases x with
  | flag =>
    exact iff_of_false nofun fun ⟨v, hv, _⟩ => Arity.scriptValue_ne_flag v hv
  | text s =>
    rw [← Filter.setText?_eq_some_iff, addValue]
    cases f.setText? k s <;> simp
  | list ss =>
    rw [← Filter.setTexts?_eq_some_iff, addValue]
    cases f.setTexts? k ss <;> simp

/-- A value of the arity of a condition is taken as its operand. -/
theorem addValue_scriptValue (f : Filter) (k : Kind) (v : k.Operand) :
    addValue f k (k.arity.scriptValue v) = .ok (f.set k v) :=
  addValue_eq_ok_iff.mpr ⟨v, rfl, rfl⟩

/-! ### The case flag -/

/-- The state of an intake that has come to the filter `f`: the flag was there exactly if `f`
ignores letter case. -/
def Intake.of (f : Filter) : Intake := ⟨f, f.ignoreCase⟩

@[simp] theorem Intake.filter_of (f : Filter) : (Intake.of f).filter = f := rfl

@[simp] theorem Intake.sawFlag_of (f : Filter) : (Intake.of f).sawFlag = f.ignoreCase := rfl

/-- To set a condition is not to touch the flag. -/
theorem Intake.of_set (f : Filter) (k : Kind) (v : k.Operand) :
    Intake.of (f.set k v) = { Intake.of f with filter := f.set k v } := by
  rw [Intake.of, Filter.ignoreCase_set]
  rfl

/-- What the entry of the flag does, if it is taken: the flag is on, and has been there. -/
theorem eq_of_addEntry_flag {e : Entry} {s t : Intake} (hname : e.name = Filter.flagName)
    (h : addEntry s e = .ok t) : t = ⟨s.filter.setIgnoreCase true, true⟩ := by
  rw [addEntry, if_pos hname] at h
  split at h
  · contradiction
  split at h
  · exact (Except.ok.inj h).symm
  · contradiction

/-- What any other entry does, if it is taken: a condition is set, and no more. -/
theorem exists_set_of_addEntry {e : Entry} {s t : Intake} (hname : e.name ≠ Filter.flagName)
    (h : addEntry s e = .ok t) :
    ∃ (k : Kind) (v : k.Operand), t = { s with filter := s.filter.set k v } := by
  rw [addEntry, if_neg hname] at h
  -- the name is known, the condition is new, and its value is one that it takes
  split at h
  · contradiction
  · next k _ =>
    split at h
    · contradiction
    · cases hvalue : addValue s.filter k e.value with
      | error err =>
        rw [hvalue] at h
        contradiction
      | ok g =>
        rw [hvalue] at h
        obtain ⟨v, -, rfl⟩ := addValue_eq_ok_iff.mp hvalue
        exact ⟨k, v, (Except.ok.inj h).symm⟩

/-- **The step.** What is remembered of the flag stays in step with the filter. -/
theorem addEntry_of_eq_ok {e : Entry} {s : Intake} (h : addEntry (.of f) e = .ok s) :
    s = .of s.filter := by
  -- the flag is set in both places at once, and a condition in neither
  by_cases hname : e.name = Filter.flagName
  · obtain rfl := eq_of_addEntry_flag hname h
    rfl
  · obtain ⟨k, v, rfl⟩ := exists_set_of_addEntry hname h
    exact (Intake.of_set f k v).symm

/-- **The run.** So it does while a whole section is taken: at its end, what is remembered of the
flag is the flag of the filter. -/
theorem foldlM_addEntry_of_eq_ok {es : List Entry} {s : Intake}
    (h : es.foldlM addEntry (.of f) = .ok s) : s = .of s.filter := by
  -- along the entries, from any filter; each state is again that of a filter
  induction es generalizing f with
  | nil =>
    obtain rfl : Intake.of f = s := Except.ok.inj h
    rfl
  | cons e es ih =>
    rw [List.foldlM_cons] at h
    cases he : addEntry (.of f) e with
    | error err =>
      rw [he] at h
      contradiction
    | ok t =>
      rw [he, addEntry_of_eq_ok he] at h
      exact ih h

/-- A section has a filter exactly if it can be taken to the end, and then the filter and its own
flag are what the intake is left with. -/
theorem filterOf_eq_ok_iff_foldlM {es : List Entry} :
    filterOf es = .ok f ↔ es.foldlM addEntry {} = .ok (.of f) := by
  rw [filterOf]
  cases hes : es.foldlM addEntry {} with
  | error err => exact iff_of_false nofun nofun
  | ok s =>
    -- at the start nothing was there and the flag is off, so the state is that of the empty filter
    have hs : s = .of s.filter := foldlM_addEntry_of_eq_ok (f := Filter.empty) hes
    constructor
    · intro h
      obtain rfl : s.filter = f := Except.ok.inj h
      rw [← hs]
    · intro h
      obtain rfl : s = .of f := Except.ok.inj h
      rfl

/-! ### Taking one entry -/

/-- The entry of the flag is taken where the flag was not there. -/
theorem addEntry_caseFlag (h : f.ignoreCase = false) :
    addEntry (.of f) .caseFlag = .ok (.of (f.setIgnoreCase true)) := by
  have hname : Entry.caseFlag.name = Filter.flagName := rfl
  have hsaw : ¬ (Intake.of f).sawFlag = true := by
    rw [Intake.sawFlag_of, h]
    exact Bool.false_ne_true
  rw [addEntry, if_pos hname, if_neg hsaw]
  rfl

/-- With the name of a condition it is asked whether the condition was there, and then for its
value. -/
theorem addEntry_name (s : Intake) (k : Kind) (x : Value) :
    addEntry s ⟨k.name, x⟩ =
      if s.filter.isSet k then .error (.repeated k)
      else (addValue s.filter k x).map fun f => { s with filter := f } := by
  rw [addEntry, if_neg (Kind.name_ne_flagName k), Kind.parse_name]

/-- The entry of a condition is taken where the condition was not there. -/
theorem addEntry_condition (v : k.Operand) (h : f.isSet k = false) :
    addEntry (.of f) (.condition k v) = .ok (.of (f.set k v)) := by
  have hset : ¬ (Intake.of f).filter.isSet k = true := by
    rw [Intake.filter_of, h]
    exact Bool.false_ne_true
  rw [Entry.condition, addEntry_name, if_neg hset, Intake.filter_of, addValue_scriptValue,
    Intake.of_set]
  rfl

/-! ### Gathering entries -/

/-- **The invariant.** The filter holds what the entries say, and nothing else. -/
structure Gathers (f : Filter) (es : List Entry) : Prop where
  ignoreCase_iff : f.ignoreCase = true ↔ Entry.caseFlag ∈ es
  operand_iff : ∀ k v, f.operand k = some v ↔ Entry.condition k v ∈ es

namespace Gathers

variable {f g : Filter} {es : List Entry}

theorem empty : Gathers Filter.empty [] where
  ignoreCase_iff := by simp [Filter.empty]
  operand_iff := by simp

theorem perm {ds : List Entry} (h : Gathers f es) (hp : es.Perm ds) : Gathers f ds where
  ignoreCase_iff := h.ignoreCase_iff.trans hp.mem_iff
  operand_iff k v := (h.operand_iff k v).trans hp.mem_iff

theorem unique (hf : Gathers f es) (hg : Gathers g es) : f = g := by
  apply Filter.ext_operand (Bool.eq_iff_iff.mpr (hf.ignoreCase_iff.trans hg.ignoreCase_iff.symm))
  intro k
  exact Option.ext fun v => (hf.operand_iff k v).trans (hg.operand_iff k v).symm

/-- A condition whose name has not occurred is not set. -/
theorem isSet_eq_false (h : Gathers f es) {k : Kind} (hk : k.name ∉ es.map Entry.name) :
    f.isSet k = false := by
  rw [Filter.isSet_eq_false_iff, Option.eq_none_iff_forall_ne_some]
  intro v hv
  apply hk
  exact List.mem_map_of_mem ((h.operand_iff k v).mp hv)

theorem ignoreCase_eq_false (h : Gathers f es) (hk : Filter.flagName ∉ es.map Entry.name) :
    f.ignoreCase = false := by
  rw [Bool.eq_false_iff]
  exact fun hf => hk (List.mem_map_of_mem (h.ignoreCase_iff.mp hf))

/-- The flag is gathered by setting it. -/
theorem setIgnoreCase (h : Gathers f es) : Gathers (f.setIgnoreCase true) (es ++ [.caseFlag]) where
  ignoreCase_iff := by simp
  operand_iff k v := by
    have hne : Entry.condition k v ≠ .caseFlag := fun he =>
      Kind.name_ne_flagName k (congrArg Entry.name he)
    rw [Filter.operand_setIgnoreCase, h.operand_iff, List.mem_append, List.mem_singleton]
    exact ⟨.inl, fun hm => hm.resolve_right hne⟩

/-- A condition that was not there is gathered by setting it. -/
theorem set (h : Gathers f es) {k : Kind} (v : k.Operand) (hk : k.name ∉ es.map Entry.name) :
    Gathers (f.set k v) (es ++ [.condition k v]) where
  ignoreCase_iff := by
    have hne : Entry.caseFlag ≠ .condition k v := fun he =>
      Kind.name_ne_flagName k (congrArg Entry.name he).symm
    rw [Filter.ignoreCase_set, h.ignoreCase_iff, List.mem_append, List.mem_singleton]
    exact ⟨.inl, fun hm => hm.resolve_right hne⟩
  operand_iff j w := by
    rw [List.mem_append, List.mem_singleton]
    by_cases hjk : k = j
    · -- the condition itself: it was not there, so only the new entry can speak of it
      subst hjk
      rw [Filter.operand_set_self, Option.some.injEq]
      constructor
      · rintro rfl
        exact .inr rfl
      · rintro (hm | he)
        · exact absurd (List.mem_map_of_mem hm) hk
        · exact (Entry.condition_inj he).symm
    · -- any other condition has another name, and is left as it was
      have hne : Entry.condition j w ≠ .condition k v := fun he =>
        hjk (Kind.name_injective (congrArg Entry.name he).symm)
      rw [Filter.operand_set_of_ne hjk, h.operand_iff]
      exact ⟨.inl, fun hm => hm.resolve_right hne⟩

/-- **One step.** A proper entry whose name has not occurred is taken, and gathered. -/
theorem addEntry (h : Gathers f es) {e : Entry} (he : e.IsProper)
    (hn : e.name ∉ es.map Entry.name) :
    ∃ g, Script.addEntry (.of f) e = .ok (.of g) ∧ Gathers g (es ++ [e]) := by
  rcases he with rfl | ⟨k, v, rfl⟩
  · exact ⟨_, addEntry_caseFlag (h.ignoreCase_eq_false hn), h.setIgnoreCase⟩
  · exact ⟨_, addEntry_condition v (h.isSet_eq_false hn), h.set v hn⟩

end Gathers

/-! ### Gathering a whole section -/

/-- The run, from a filter that has gathered the entries `ds` already. -/
theorem Gathers.exists_foldlM {f : Filter} {ds es : List Entry} (h : Gathers f ds)
    (hp : ∀ e ∈ es, e.IsProper) (hn : ((ds ++ es).map Entry.name).Nodup) :
    ∃ g, es.foldlM Script.addEntry (.of f) = .ok (.of g) ∧ Gathers g (ds ++ es) := by
  -- what has been gathered grows by each entry, so the induction is for every filter and any `ds`
  induction es generalizing f ds with
  | nil => exact ⟨f, rfl, by rwa [List.append_nil]⟩
  | cons e es ih =>
    have hassoc : ds ++ e :: es = (ds ++ [e]) ++ es := by simp
    -- no name comes twice, so that of the entry is not among those before it
    have hfresh : e.name ∉ ds.map Entry.name := by
      rw [List.map_append, List.map_cons, List.nodup_middle, List.nodup_cons] at hn
      exact fun hm => hn.1 (List.mem_append_left _ hm)
    obtain ⟨g, hg, hgather⟩ := h.addEntry (hp e List.mem_cons_self) hfresh
    rw [hassoc] at hn ⊢
    obtain ⟨g', hg', hgather'⟩ :=
      ih hgather (fun d hd => hp d (List.mem_cons_of_mem e hd)) hn
    exact ⟨g', by rw [List.foldlM_cons, hg]; exact hg', hgather'⟩

/-- Proper entries with different names have a filter, and it gathers them. -/
theorem exists_filterOf_of_isProper {es : List Entry} (hp : ∀ e ∈ es, e.IsProper)
    (hn : (es.map Entry.name).Nodup) : ∃ g, filterOf es = .ok g ∧ Gathers g es := by
  obtain ⟨g, hg, hgather⟩ := Gathers.empty.exists_foldlM hp hn
  exact ⟨g, filterOf_eq_ok_iff_foldlM.mpr hg, hgather⟩

end Script

/-! ### Writing a filter down -/

open Script (Gathers filterOf)

namespace Filter

/-- The entries of a filter are that of the flag, if it is on, and those of its conditions. -/
theorem mem_entries_iff {f : Filter} {e : Entry} :
    e ∈ f.entries ↔ f.ignoreCase = true ∧ e = .caseFlag ∨
      ∃ k v, f.operand k = some v ∧ e = .condition k v := by
  rw [entries, List.mem_append, List.mem_filterMap]
  -- the two parts of the list one by one
  refine or_congr ?_ ⟨?_, ?_⟩
  · cases f.ignoreCase <;> simp
  · rintro ⟨k, -, hk⟩
    obtain ⟨v, hv, rfl⟩ := Option.map_eq_some_iff.mp hk
    exact ⟨k, v, hv, rfl⟩
  · rintro ⟨k, v, hv, rfl⟩
    exact ⟨k, k.mem_all, by rw [hv, Option.map_some]⟩

theorem isProper_of_mem_entries {f : Filter} {e : Entry} (h : e ∈ f.entries) : e.IsProper := by
  rcases mem_entries_iff.mp h with ⟨-, rfl⟩ | ⟨k, v, -, rfl⟩
  · exact .inl rfl
  · exact .inr ⟨k, v, rfl⟩

/-- The names of the entries: the flag, if it is set, and the conditions that are present. -/
theorem map_name_entries (f : Filter) :
    f.entries.map Entry.name =
      (if f.ignoreCase then [flagName] else []) ++ f.kinds.map Kind.name := by
  -- for every list of kinds, since the kinds of a filter are picked from all of them in one pass
  have hkinds : ∀ ks : List Kind,
      (ks.filterMap fun k => (f.operand k).map (Entry.condition k)).map Entry.name =
        (ks.filter f.isSet).map Kind.name := by
    intro ks
    -- a kind adds its entry and its name where its condition is present, and nothing elsewhere
    induction ks with
    | nil => rfl
    | cons k ks ih =>
      cases hk : f.operand k with
      | none =>
        rw [List.filterMap_cons_none (by rw [hk]; rfl), ih,
          List.filter_cons_of_neg (by rw [isSet_eq, hk]; simp)]
      | some v =>
        rw [List.filterMap_cons_some (by rw [hk]; rfl), List.map_cons, ih,
          List.filter_cons_of_pos (by rw [isSet_eq, hk]; rfl), List.map_cons]
        rfl
  rw [entries, List.map_append, hkinds, kinds]
  cases f.ignoreCase <;> rfl

/-- No two entries of a filter have one name. -/
theorem nodup_map_name_entries (f : Filter) : (f.entries.map Entry.name).Nodup := by
  have hkinds : (f.kinds.map Kind.name).Nodup :=
    (Kind.nodup_all.filter _).map fun _ _ => Kind.name_injective
  have hflag : flagName ∉ f.kinds.map Kind.name := by
    rw [List.mem_map]
    rintro ⟨k, -, hk⟩
    exact Kind.name_ne_flagName k hk
  -- the flag comes first where it is written at all
  rw [map_name_entries]
  cases f.ignoreCase with
  | false => exact hkinds
  | true => exact List.nodup_cons.mpr ⟨hflag, hkinds⟩

/-- A filter gathers the entries that write it down. -/
theorem gathers_entries (f : Filter) : Gathers f f.entries where
  ignoreCase_iff := by
    -- entries of one name are of one kind, which no condition shares with the flag
    rw [mem_entries_iff]
    constructor
    · exact fun h => .inl ⟨h, rfl⟩
    · rintro (⟨h, -⟩ | ⟨k, v, -, he⟩)
      · exact h
      · exact absurd (congrArg Entry.name he).symm (Kind.name_ne_flagName k)
  operand_iff k v := by
    rw [mem_entries_iff]
    constructor
    · exact fun h => .inr ⟨k, v, h, rfl⟩
    · rintro (⟨-, he⟩ | ⟨j, w, hw, he⟩)
      · exact absurd (congrArg Entry.name he) (Kind.name_ne_flagName k)
      · obtain rfl : k = j := Kind.name_injective (congrArg Entry.name he)
        rw [Script.Entry.condition_inj he, hw]

/-- **Any order will do.** The entries that write a filter down configure it in every order. -/
theorem filterOf_of_perm {f : Filter} {es : List Entry} (h : es.Perm f.entries) :
    filterOf es = .ok f := by
  have hp : ∀ e ∈ es, e.IsProper := fun e he => isProper_of_mem_entries (h.mem_iff.mp he)
  have hn : (es.map Entry.name).Nodup :=
    (h.map Entry.name).nodup_iff.mpr f.nodup_map_name_entries
  -- the filter that is read gathers the same entries in another order, so it is the same filter
  obtain ⟨g, hg, hgather⟩ := Script.exists_filterOf_of_isProper hp hn
  rw [hg, hgather.unique (f.gathers_entries.perm h.symm)]

end Filter

end PathFilter
