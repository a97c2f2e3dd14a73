import PathFilter.Load
import PathFilter.Proofs.Json.Members
import PathFilter.Proofs.Json.Writer

/-!
# What JSON configurations mean

A text of the grammar is loaded as what its value says, and what an object says is said by the
values that stand under its keys. `Configuration.loads_members` is the whole of it for objects: what
an absent or a `null` section gives, how each field of a section is found, which objects are
refused, and that neither order nor unknown members count.

Objects are not all that is loaded. An array is taken for the object of its elements, so the empty
array is taken for no filter, and an empty array in place of a section for the filter that accepts
everything (`Configuration.shape_of_ofJson`).

Everything here is an instance of what is known of records: the section is one
(`filterLayout`), and the configuration is one with the section as its only field
(`configurationLayout`).
-/

namespace PathFilter.Json

open Grammar (Blanks Spells Document)

/-! ### Operands -/

/-- The value that writes an operand down. -/
def Value.ofOperand : (a : Arity) → a.Operand → Value
  | .one, (s : String) => .text (some s)
  | .many, (ss : List String) => .array (ss.map fun s => .text (some s))

/-- What a value serves as where an operand is wanted. -/
def Value.asOperand : (a : Arity) → Value → Option a.Operand
  | .one => Value.asText
  | .many => Value.asTexts

/-- A value serves as an operand if it is the one that writes it down. -/
theorem Value.asOperand_eq_some_iff {a : Arity} {v : Value} {o : a.Operand} :
    v.asOperand a = some o ↔ v = .ofOperand a o := by
  cases a with
  | one => exact Value.asText_eq_some_iff
  | many =>
    cases v with
    | array vs =>
      change vs.mapM Value.asText = some o ↔ Value.array vs = .array _
      rw [Value.mapM_asText_eq_some_iff, Value.array.injEq]
    | _ => simp [Value.asOperand, Value.asTexts, Value.ofOperand]

theorem Value.ofOperand_ne_null {a : Arity} {o : a.Operand} : Value.ofOperand a o ≠ .null := by
  cases a <;> simp [Value.ofOperand]

/-- The reader of operands takes a value for the operand it serves as, and fails on others. -/
theorem Reader.interprets_operand (a : Arity) :
    (Reader.operand a).Interprets (Value.asOperand a) := by
  cases a with
  | one => exact Reader.interprets_string
  | many => exact Reader.interprets_strings

/-! ### The fields of a filter -/

/-- What a field of a filter holds: the flag is on or off, a condition has an operand or none. -/
abbrev FilterField.Content : FilterField → Type
  | .ignoreCase => Bool
  | .condition k => Option k.Operand

/-- What a value gives to a field of a filter. -/
def FilterField.given : (x : FilterField) → Value → Option x.Content
  | .ignoreCase, v => (v.orNull Value.asBoolean).map (·.getD false)
  | .condition k, v => v.orNull (Value.asOperand k.arity)

/-- The values that may stand in a field of a filter: `null`, and those of its own shape. -/
def FilterField.Fits : FilterField → Value → Prop
  | .ignoreCase, v => v = .null ∨ ∃ b, v = .boolean b
  | .condition k, v => v = .null ∨ ∃ o, v = .ofOperand k.arity o

/-- The flag is turned on by `true` alone. -/
theorem FilterField.given_ignoreCase_eq_some_true_iff {v : Value} :
    FilterField.ignoreCase.given v = some true ↔ v = .boolean true := by
  cases v <;> simp [given, Value.orNull, Value.asBoolean]

/-- A condition is given an operand only by the value that writes it down. -/
theorem FilterField.given_condition_eq_some_some_iff {k : Kind} {v : Value} {o : k.Operand} :
    (FilterField.condition k).given v = some (some o) ↔ v = .ofOperand k.arity o := by
  simp only [given, Value.orNull_eq_some_iff, reduceCtorEq, and_false, false_or, Option.some_inj,
    exists_eq_right, Value.asOperand_eq_some_iff, and_iff_right_iff_imp]
  rintro rfl
  exact Value.ofOperand_ne_null

/-- The values that may stand in a field are those that give it something. -/
theorem FilterField.fits_iff {x : FilterField} {v : Value} : x.Fits v ↔ x.given v ≠ none := by
  cases x with
  | ignoreCase => cases v <;> simp [Fits, given, Value.orNull, Value.asBoolean]
  | condition k =>
    rw [Option.ne_none_iff_exists']
    constructor
    -- `null` gives an absent condition, and an operand a present one
    · rintro (rfl | ⟨o, ho⟩)
      · exact ⟨none, rfl⟩
      · exact ⟨some o, given_condition_eq_some_some_iff.mpr ho⟩
    · rintro ⟨_ | o, ho⟩
      · rcases Value.orNull_eq_some_iff.mp ho with ⟨hv, -⟩ | ⟨-, a, -, ha⟩
        · exact .inl hv
        · contradiction
      · exact .inr ⟨o, given_condition_eq_some_some_iff.mp ho⟩

/-- A filter is made up of its fields. -/
def filterLayout : filterRecord.Layout FilterField.Content where
  given := FilterField.given
  get
    | .ignoreCase, f => f.ignoreCase
    | .condition k, f => f.operand k
  put
    | .ignoreCase, b, f => f.setIgnoreCase b
    | .condition k, o, f => f.put k o
  get_put_self x b f := by
    cases x with
    | ignoreCase => rfl
    | condition k => exact Filter.operand_put_self f k b
  get_put_of_ne {x y} hne b f := by
    cases x with
    | ignoreCase =>
      cases y with
      | ignoreCase => exact absurd rfl hne
      | condition k => rfl
    | condition k =>
      cases y with
      | ignoreCase => exact Filter.ignoreCase_put f k b
      | condition j => exact Filter.operand_put_of_ne (fun h => hne (congrArg _ h)) b
  ext h := Filter.ext_operand (h .ignoreCase) fun k => h (.condition k)
  exists_of_fields f := by
    refine ⟨Filter.ofOperands (f .ignoreCase) fun k => f (.condition k), fun x => ?_⟩
    cases x with
    | ignoreCase => rfl
    | condition k => exact Filter.operand_ofOperands _ _ k
  mem_fields x := by
    cases x with
    | ignoreCase => exact List.mem_cons_self
    | condition k => exact List.mem_cons_of_mem _ (List.mem_map_of_mem k.mem_documented)
  key_injective {x y} h := by
    cases x with
    | ignoreCase =>
      cases y with
      | ignoreCase => rfl
      | condition k => exact absurd h.symm k.name_ne_flagName
    | condition k =>
      cases y with
      | ignoreCase => exact absurd h k.name_ne_flagName
      | condition j => exact congrArg _ (Kind.name_injective h)
  interprets x := by
    cases x with
    | ignoreCase =>
      have h := Reader.interprets_boolean.orNull.map fun b (f : Filter) =>
        f.setIgnoreCase (b.getD false)
      simp only [FilterField.given, Option.map_map]
      exact h
    | condition k =>
      exact (Reader.interprets_operand k.arity).orNull.map fun o (f : Filter) => f.put k o

/-- What a value serves as where a filter is wanted. -/
def Value.asFilter : Value → Option Filter := filterLayout.ofValue? Filter.empty

/-- A configuration is made up of its section alone. -/
def configurationLayout : configurationRecord.Layout fun _ => Configuration where
  given _ v := v.orNull Value.asFilter
  get _ c := c
  put _ c _ := c
  get_put_self _ _ _ := rfl
  get_put_of_ne h := absurd rfl h
  ext h := h ()
  exists_of_fields f := ⟨f (), fun _ => rfl⟩
  mem_fields _ := List.mem_singleton_self _
  key_injective _ := rfl
  interprets _ := (filterLayout.interprets_reader Filter.empty).orNull.map fun f _ => f

/-- What a value serves as where a configuration is wanted. -/
def Value.asConfiguration : Value → Option Configuration := configurationLayout.ofValue? none

/-! ### From the text to the value -/

/-- The reader of a whole text, in the form in which outcomes are composed. -/
theorem readConfiguration_eq_bind (cs : List Char) :
    readConfiguration cs = (configurationRecord.reader none).run cs >>= fun (c, rest) =>
      match skipBlanks rest with
      | [] => .ok c
      | left => .error (.past left .trailingCharacters) := by
  rw [readConfiguration]
  cases (configurationRecord.reader none).run cs <;> rfl

/-- A text of the grammar is read as what its value serves as, and fails if it serves as nothing. -/
theorem toOption_readConfiguration {cs : List Char} {v : Value} (h : Document cs v) :
    (readConfiguration cs).toOption = v.asConfiguration := by
  obtain ⟨hb, hv, hr⟩ := h
  have hrun : _ = v.asConfiguration.map (·, _) :=
    (configurationLayout.interprets_reader none).toOption_run hb hv
  rw [readConfiguration_eq_bind, toOption_bind, hrun]
  -- where the value is read, nothing but blanks is left behind it
  cases v.asConfiguration with
  | none => rfl
  | some c => simp only [Option.map_some, Option.bind_some, skipBlanks_of_blanks_nil hr]; rfl

/-- What is loaded is a text of the grammar. -/
theorem exists_document_of_readConfiguration {cs : List Char} {c : Configuration}
    (h : readConfiguration cs = .ok c) : ∃ v, Document cs v := by
  unfold readConfiguration at h
  split at h
  · contradiction
  · next d rest hread =>
    obtain ⟨ds, v, hb, hv⟩ := (configurationLayout.interprets_reader none).exists_value hread
    split at h
    · next hr => exact ⟨v, .intro hb hv (blanks_of_skipBlanks hr)⟩
    · contradiction

/-! ### What objects and arrays say -/

/-- An object is taken for the filter that its members settle, field by field, starting from the
empty one. -/
theorem Value.asFilter_object_eq_some_iff {ns : List Member} {f : Filter} :
    (Value.object ns).asFilter = some f ↔ KeysDenote ns ∧ ∀ x : FilterField,
      filterLayout.Settles x (filterLayout.get x Filter.empty) (filterLayout.get x f)
        (valuesAt x.key ns) :=
  filterLayout.ofMembers?_eq_some_iff

/-- An object is taken for the configuration that its section settles, starting from none. -/
theorem Value.asConfiguration_object_eq_some_iff {ms : List Member} {c : Configuration} :
    (Value.object ms).asConfiguration = some c ↔
      KeysDenote ms ∧ configurationLayout.Settles () none c (valuesAt sectionKey ms) := by
  have hmembers : (Value.object ms).asConfiguration = some c ↔ _ :=
    configurationLayout.ofMembers?_eq_some_iff
  exact hmembers.trans (and_congr_right fun _ => ⟨fun h => h (), fun h _ => h⟩)

/-- The value of the section gives the configuration. -/
theorem Value.orNull_asFilter_of_mem {ms : List Member} {c : Configuration} {w : Value}
    (h : (Value.object ms).asConfiguration = some c) (hw : w ∈ valuesAt sectionKey ms) :
    w.orNull Value.asFilter = some c :=
  Record.Layout.given_of_settles (Value.asConfiguration_object_eq_some_iff.mp h).2 hw

/-- What may stand in place of a section is `null`, an object or an array. -/
theorem Value.of_orNull_asFilter {v : Value} (h : v.orNull Value.asFilter ≠ none) :
    v = .null ∨ (∃ ns, v = .object ns) ∨ ∃ vs, v = .array vs := by
  cases v with
  | null => exact .inl rfl
  | object ns => exact .inr (.inl ⟨ns, rfl⟩)
  | array vs => exact .inr (.inr ⟨vs, rfl⟩)
  | _ => exact absurd rfl h

/-- An array is taken for the object of its elements. -/
theorem Value.asConfiguration_array (w : Value) :
    (Value.array [w]).asConfiguration = (Value.object [(some sectionKey, w)]).asConfiguration :=
  rfl

end PathFilter.Json

namespace PathFilter

open Json

/-! ### Loading a text -/

namespace Configuration

variable {t : String} {v : Value} {c : Configuration}

/-- That a text is refused, as one that cannot be read. -/
def Refused (t : String) : Prop := ∃ e, ofJson t = .error (.json e)

/-- A text of the grammar is loaded if its value serves as a configuration. -/
theorem ofJson_of_document (h : Grammar.Document t.toList v) (hv : v.asConfiguration = some c) :
    ofJson t = .ok c := by
  have hread := toOption_readConfiguration h
  rw [hv, toOption_eq_some_iff] at hread
  rw [ofJson, Json.load, hread]
  rfl

/-- A text of the grammar is refused if its value serves as none. -/
theorem refused_of_document (h : Grammar.Document t.toList v) (hv : v.asConfiguration = none) :
    Refused t := by
  have hread := toOption_readConfiguration h
  rw [Refused, ofJson, Json.load]
  cases hc : readConfiguration t.toList with
  | ok c =>
    rw [hc, hv] at hread
    contradiction
  | error f => exact ⟨⟨t.toList, f⟩, rfl⟩

/-- A text of the grammar is loaded as what its value says. -/
theorem asConfiguration_of_ofJson (h : Grammar.Document t.toList v) (hc : ofJson t = .ok c) :
    v.asConfiguration = some c := by
  cases hv : v.asConfiguration with
  | none =>
    obtain ⟨e, he⟩ := refused_of_document h hv
    cases he.symm.trans hc
  | some d => exact congrArg some (Except.ok.inj ((ofJson_of_document h hv).symm.trans hc))

/-- What is loaded is a text of the grammar. -/
theorem exists_document_of_ofJson (h : ofJson t = .ok c) : ∃ v, Grammar.Document t.toList v := by
  rw [ofJson, Json.load] at h
  cases hread : readConfiguration t.toList with
  | ok d => exact exists_document_of_readConfiguration hread
  | error f =>
    rw [hread] at h
    contradiction

end Configuration

/-! ### What an object comes to -/

/-- **The filter of the members of a section.** Each field has the value of its key. Where the key
is missing or its value is `null`, the flag is off and the condition is absent. -/
structure Filter.Holds (f : Filter) (ns : List Member) : Prop where
  ignoreCase_iff : f.ignoreCase = true ↔ valuesAt Filter.flagName ns = [.boolean true]
  operand_iff : ∀ (k : Kind) (o : k.Operand),
    f.operand k = some o ↔ valuesAt k.name ns = [.ofOperand k.arity o]

/-- The filter of a section holds what the members of the section say. -/
theorem Filter.holds_of_asFilter {f : Filter} {ns : List Member}
    (h : (Value.object ns).asFilter = some f) : f.Holds ns where
  ignoreCase_iff := by
    -- the flag that is on is not as in the empty filter, so a member has turned it on
    have hx := (Value.asFilter_object_eq_some_iff.mp h).2 .ignoreCase
    refine (Record.Layout.eq_iff_of_settles hx Bool.false_ne_true.symm).trans ⟨?_, fun hv => ?_⟩
    · rintro ⟨v, hv, hgiven⟩
      rw [← FilterField.given_ignoreCase_eq_some_true_iff.mp hgiven]
      exact hv
    · exact ⟨_, hv, FilterField.given_ignoreCase_eq_some_true_iff.mpr rfl⟩
  operand_iff k o := by
    have hx := (Value.asFilter_object_eq_some_iff.mp h).2 (.condition k)
    -- a condition that is present is not as in the empty filter, so a member has put it there
    have hne : some o ≠ Filter.empty.operand k := by
      rw [Filter.operand_empty]
      exact Option.some_ne_none o
    refine (Record.Layout.eq_iff_of_settles hx hne).trans ⟨?_, fun hv => ?_⟩
    · rintro ⟨v, hv, hgiven⟩
      rw [← FilterField.given_condition_eq_some_some_iff.mp hgiven]
      exact hv
    · exact ⟨_, hv, FilterField.given_condition_eq_some_some_iff.mpr rfl⟩

namespace Configuration

open Grammar (Blanks Hex Denotes Text Document)

/-- **What an object comes to** that has the members `ms` and is written down by the text `t`, in
whatever spelling. -/
structure LoadsMembers (t : String) (ms : List Member) : Prop where
  /-- Without a section, or with `null` in its place, there is no filter. -/
  absent : valuesAt sectionKey ms = [] ∨ valuesAt sectionKey ms = [.null] → ofJson t = .ok none
  /-- A section whose fields occur at most once, with values that fit them, is the filter with
  these values. -/
  present : ∀ ns, valuesAt sectionKey ms = [.object ns] → KeysDenote ns →
    (∀ x : FilterField,
      (valuesAt x.key ns).length ≤ 1 ∧ ∀ v ∈ valuesAt x.key ns, x.Fits v) →
    ∃ f, ofJson t = .ok (some f) ∧ f.Holds ns
  /-- No two sections may stand in an object, whatever they are. -/
  repeated : 2 ≤ (valuesAt sectionKey ms).length → Refused t
  /-- What stands in place of a section is `null`, an object or an array. -/
  misfit : ∀ v ∈ valuesAt sectionKey ms,
    v ≠ .null → (∀ ns, v ≠ .object ns) → (∀ vs, v ≠ .array vs) → Refused t
  /-- No field may occur twice in a section, whatever its values are. -/
  repeatedField : ∀ ns, .object ns ∈ valuesAt sectionKey ms → ∀ x : FilterField,
    2 ≤ (valuesAt x.key ns).length → Refused t
  /-- Every known field of a section has `null` or a value of its own shape. -/
  misfitField : ∀ ns, .object ns ∈ valuesAt sectionKey ms → ∀ x : FilterField,
    ∀ v ∈ valuesAt x.key ns, ¬ x.Fits v → Refused t
  /-- Members may be put into another order, and unknown ones added or left out, at the top. -/
  rearranged : ∀ {t' ms'}, Document t'.toList (.object ms') → KeysDenote ms' →
    (ms.filter configurationRecord.isField).Perm (ms'.filter configurationRecord.isField) →
    ∀ c, ofJson t = .ok c → ofJson t' = .ok c
  /-- The same may be done in the section, and at the top besides. -/
  sectionRearranged : ∀ {t' ms' ns ns'}, Document t'.toList (.object ms') →
    KeysDenote ms' → valuesAt sectionKey ms = [.object ns] →
    valuesAt sectionKey ms' = [.object ns'] → KeysDenote ns' →
    (ns.filter filterRecord.isField).Perm (ns'.filter filterRecord.isField) →
    ∀ c, ofJson t = .ok c → ofJson t' = .ok c

variable {t : String} {ms : List Member}

/-- A value in place of a section that serves as none spoils the whole. -/
theorem refused_of_misfit (h : Document t.toList (.object ms)) {v : Value}
    (hv : v ∈ valuesAt sectionKey ms) (hnone : v.orNull Value.asFilter = none) : Refused t :=
  refused_of_document h (configurationLayout.ofMembers?_of_misfit (x := ()) hv hnone)

theorem refused_of_section (h : Document t.toList (.object ms)) {ns : List Member}
    (hns : .object ns ∈ valuesAt sectionKey ms) (hnone : (Value.object ns).asFilter = none) :
    Refused t :=
  refused_of_misfit h hns (congrArg (Option.map some) hnone)

/-- **The meaning of objects.** -/
theorem loads_members (h : Document t.toList (.object ms)) (hkeys : KeysDenote ms) :
    LoadsMembers t ms where
  absent hsection := by
    -- the section is as it was in the one case, and what `null` gives in the other
    refine ofJson_of_document h (Value.asConfiguration_object_eq_some_iff.mpr ⟨hkeys, ?_⟩)
    rcases hsection with hv | hv
    · rw [hv]
      exact rfl
    · rw [hv]
      exact rfl
  present ns hsection hsectionKeys hfields := by
    -- each field has at most one value, and one that fits
    obtain ⟨f, hf⟩ : ∃ f, (Value.object ns).asFilter = some f :=
      filterLayout.exists_ofMembers? hsectionKeys (fun x => (hfields x).1)
        fun x v hv => FilterField.fits_iff.mp ((hfields x).2 v hv)
    refine ⟨f, ofJson_of_document h ?_, Filter.holds_of_asFilter hf⟩
    rw [Value.asConfiguration_object_eq_some_iff, hsection]
    exact ⟨hkeys, congrArg (Option.map some) hf⟩
  repeated hlen := refused_of_document h (configurationLayout.ofMembers?_of_repeated (x := ()) hlen)
  misfit v hv hnull hobject harray := by
    refine refused_of_misfit h hv ?_
    -- three kinds of values serve as a section, and each of them is excluded
    by_contra hsome
    rcases Value.of_orNull_asFilter hsome with rfl | ⟨ns, rfl⟩ | ⟨vs, rfl⟩
    · exact hnull rfl
    · exact hobject ns rfl
    · exact harray vs rfl
  repeatedField ns hns x hlen := refused_of_section h hns (filterLayout.ofMembers?_of_repeated hlen)
  misfitField ns hns x v hv hmisfit := by
    -- a value that may not stand in a field gives it nothing
    have hgiven : x.given v = none := by
      by_contra hsome
      exact hmisfit (FilterField.fits_iff.mpr hsome)
    exact refused_of_section h hns (filterLayout.ofMembers?_of_misfit hv hgiven)
  rearranged h' hkeys' hp c hc :=
    ofJson_of_document h'
      (configurationLayout.ofMembers?_of_perm hp hkeys' (asConfiguration_of_ofJson h hc))
  sectionRearranged {t' ms' ns ns'} h' hkeys' hsection hsection' hsectionKeys' hp c hc := by
    have hv := asConfiguration_of_ofJson h hc
    rw [Value.asConfiguration_object_eq_some_iff, hsection] at hv
    -- the section is a filter, and it is the same one for the other section
    obtain ⟨f, hf, rfl⟩ := Option.map_eq_some_iff.mp hv.2
    have hf' : (Value.object ns').asFilter = some f :=
      filterLayout.ofMembers?_of_perm hp hsectionKeys' hf
    refine ofJson_of_document h' (Value.asConfiguration_object_eq_some_iff.mpr ⟨hkeys', ?_⟩)
    rw [hsection']
    exact congrArg (Option.map some) hf'

/-- A text with blanks, an escape in a key, and an unknown member. -/
theorem document_escaped_key :
    Document " \x7b\"x\":[null],\"p\\u0061th\" :\x7b\"contains\":\"a\"\x7d\x7d".toList
      (.object [(some "x", .array [.null]),
        (some "path", .object [(some "contains", .text (some "a"))])]) := by
  have hblank (cs : List Char) : Blanks (' ' :: cs) cs := .blank (by simp) (.none cs)
  -- the key with the escape; the other texts are as they would be written
  have hpath (rest : List Char) :
      Text ('p' :: '\\' :: 'u' :: '0' :: '0' :: '6' :: '1' :: 't' :: 'h' :: '"' :: rest)
        (some "path") rest := by
    have hth : Denotes ('t' :: 'h' :: '"' :: rest) ['t', 'h'] rest :=
      denotes_flatMap_escape ['t', 'h'] rest
    have ha : Hex ('0' :: '0' :: '6' :: '1' :: 't' :: 'h' :: '"' :: rest) 'a'.toNat
        ('t' :: 'h' :: '"' :: rest) :=
      .intro (i := 0) (j := 0) (k := 6) (l := 1) (.inl rfl) (.inl rfl) (.inl rfl) (.inl rfl) _
    exact .some (.plain (by decide) (by decide) (by decide) (.escape (.unicode (.single ha)) hth))
  refine .intro (hblank _) ?_ (.none [])
  -- the two members in turn, the second of them with the object that is the section
  refine .object (.none _) (.intro (text_flatMap_escape "x" _) (.none _) (.none _))
    (.array (.none _) (.null _) (.closeArray (.none _))) ?_
  refine .member (.none _) (.none _) (.intro (hpath _) (hblank _) (.none _)) ?_
    (.closeObject (.none _))
  exact .object (.none _) (.intro (text_flatMap_escape "contains" _) (.none _) (.none _))
    (writes_text "a" _) (.closeObject (.none _))

theorem loads_members_escaped_key :
    ∃ f, ofJson " \x7b\"x\":[null],\"p\\u0061th\" :\x7b\"contains\":\"a\"\x7d\x7d" = .ok (some f) ∧
      f.ignoreCase = false ∧ f.operand .contains = some "a" ∧ f.operand .equals = none := by
  have hloads := loads_members document_escaped_key (by simp [KeysDenote])
  have hfields : ∀ x : FilterField,
      (valuesAt x.key [(some "contains", .text (some "a"))]).length ≤ 1 ∧
        ∀ v ∈ valuesAt x.key [(some "contains", .text (some "a"))], x.Fits v := by
    intro x
    by_cases hx : x = .condition .contains
    · subst hx
      exact ⟨by decide, fun v hv => .inr ⟨"a", List.mem_singleton.mp hv⟩⟩
    · -- no other field occurs
      have hne : x.key ≠ "contains" := fun h => hx (filterLayout.key_injective h)
      rw [valuesAt_cons_of_ne (by simpa using hne.symm)]
      exact ⟨Nat.zero_le 1, fun v hv => absurd hv List.not_mem_nil⟩
  obtain ⟨f, hf, hholds⟩ := hloads.present _ rfl (by simp [KeysDenote]) hfields
  refine ⟨f, hf, ?_, (hholds.operand_iff .contains "a").mpr rfl, ?_⟩
  -- the key of the flag does not occur, so the flag is off
  · rw [← Bool.not_eq_true, hholds.ignoreCase_iff]
    simp [valuesAt, Filter.flagName]
  · rw [Option.eq_none_iff_forall_ne_some]
    intro o ho
    cases (hholds.operand_iff .equals o).mp ho

/-! ### What is loaded at all -/

/-- **The shape of what is loaded.** A text that is loaded is a text of the grammar. Apart from
arrays it is an object, whose section is an object or `null` unless it is an array. The empty array
is no filter, an array of one element is taken for the object with that section, and an array in
place of a section is the filter of its elements. -/
theorem shape_of_ofJson {t : String} {c : Configuration} (h : ofJson t = .ok c) :
    (∃ v, Document t.toList v) ∧ ∀ v, Document t.toList v →
      ((∀ vs, v ≠ .array vs) → ∃ ms, v = .object ms ∧ ∀ w ∈ valuesAt sectionKey ms,
        (∀ us, w ≠ .array us) → w = .null ∨ ∃ ns, w = .object ns) ∧
      (∀ vs, v = .array vs → vs = [] ∧ c = none ∨
        ∃ w, vs = [w] ∧ (Value.object [(some sectionKey, w)]).asConfiguration = some c) ∧
      (∀ ms us, v = .object ms → .array us ∈ valuesAt sectionKey ms →
        ∃ f, c = some f ∧ (Value.array us).asFilter = some f) := by
  refine ⟨exists_document_of_ofJson h, fun v hv => ?_⟩
  have hc := asConfiguration_of_ofJson hv h
  refine ⟨fun hv => ?_, ?_, ?_⟩
  -- besides objects and arrays no value serves as a configuration
  · cases v with
    | object ms =>
      refine ⟨ms, rfl, fun w hw harray => ?_⟩
      have hsome : w.orNull Value.asFilter ≠ none :=
        Value.orNull_asFilter_of_mem hc hw ▸ Option.some_ne_none c
      rcases Value.of_orNull_asFilter hsome with hnull | hobject | ⟨us, rfl⟩
      · exact .inl hnull
      · exact .inr hobject
      · exact absurd rfl (harray us)
    | array vs => exact absurd rfl (hv vs)
    | _ => contradiction
  · rintro vs rfl
    match vs with
    | [] => exact .inl ⟨rfl, (Option.some.inj hc).symm⟩
    | [w] => exact .inr ⟨w, rfl, (Value.asConfiguration_array w).symm.trans hc⟩
    | w :: w' :: ws =>
      -- there is no second field
      obtain ⟨_, -, hmore⟩ := Option.bind_eq_some_iff.mp hc
      contradiction
  · rintro ms us rfl hus
    obtain ⟨f, hf, rfl⟩ := Option.map_eq_some_iff.mp (Value.orNull_asFilter_of_mem hc hus)
    exact ⟨f, rfl, hf⟩

theorem shape_of_ofJson_section :
    ofJson "\x7b\"path\":\x7b\x7d\x7d" = .ok (some Filter.empty) ∧
      ∃ ms, Value.object [(some "path", .object [])] = .object ms ∧
        ∀ w ∈ valuesAt sectionKey ms, (∀ us, w ≠ .array us) → w = .null ∨ ∃ ns, w = .object ns := by
  have hsection : Document "\x7b\"path\":\x7b\x7d\x7d".toList
      (.object [(some "path", .object [])]) := by
    have hwrites : Writes (.object [(some "path", .object [])])
        (writeObject [writeMember "path" (writeObject [])]) :=
      writes_object (.cons (writesMember (writes_object .nil)) .nil)
    exact hwrites.document
  have hload : ofJson "\x7b\"path\":\x7b\x7d\x7d" = .ok (some Filter.empty) :=
    ofJson_of_document hsection rfl
  exact ⟨hload, ((shape_of_ofJson hload).2 _ hsection).1 (by simp)⟩

/-- **Neither half holds of all texts.** The empty array is loaded as no filter, and an empty array
in place of a section as the filter that accepts every path. -/
theorem not_forall_shape :
    (¬ ∀ t c, ofJson t = .ok c → ∀ v, Document t.toList v → ∃ ms, v = .object ms) ∧
    (¬ ∀ t c, ofJson t = .ok c → ∀ ms, Document t.toList (.object ms) →
      ∀ w ∈ valuesAt sectionKey ms, w = .null ∨ ∃ ns, w = .object ns) ∧
    ofJson "[]" = .ok none ∧ ofJson "\x7b\"path\":[]\x7d" = .ok (some Filter.empty) := by
  -- an array without elements in place of the configuration, and then in place of the section
  have hempty : Document "[]".toList (.array []) := (writes_array .nil).document
  have hsection : Document "\x7b\"path\":[]\x7d".toList (.object [(some "path", .array [])]) := by
    have hwrites : Writes (.object [(some "path", .array [])])
        (writeObject [writeMember "path" ['[', ']']]) :=
      writes_object (.cons (writesMember (writes_array .nil)) .nil)
    exact hwrites.document
  have hnone : ofJson "[]" = .ok none := ofJson_of_document hempty rfl
  have hsome : ofJson "\x7b\"path\":[]\x7d" = .ok (some Filter.empty) :=
    ofJson_of_document hsection rfl
  refine ⟨fun h => ?_, fun h => ?_, hnone, hsome⟩
  · obtain ⟨ms, hms⟩ := h _ _ hnone _ hempty
    contradiction
  · have hshape := h _ _ hsome _ hsection (.array []) List.mem_cons_self
    rcases hshape with hnull | ⟨ns, hobject⟩ <;> contradiction

end Configuration

end PathFilter
