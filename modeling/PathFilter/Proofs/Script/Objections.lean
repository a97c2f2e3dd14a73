import Mathlib.Data.List.Induction
import PathFilter.Proofs.Script.Entries

/-!
# Objections to the entries of a section

Taking the entries of a section into a filter either goes through to the last one, or stops at the
first entry that is wrong **behind the entries before it**. What is wrong with an entry is written
down apart from the filter that is being made: `Objection ds e err` says that `err` is what is to
be said of `e` behind the entries `ds`, and asks nothing but which names occur among `ds`. Of
several objections to one entry the order of the rules decides: its name, then a repetition, then
its value, each rule denying the ones above it.

* **One entry.** Whatever is not open to an objection is a proper entry with a new name
  (`not_objection_iff`). A filter that holds exactly what `ds` say takes such an entry, and refuses
  any other as the rules do (`Gathers.addEntry_cases`).
* **A whole section.** Entries are taken exactly if they are well-formed (`filterOf_eq_ok_iff`), a
  property that is blind to their order, and the filter is then determined by which entries there
  are. Otherwise the refusal is the first objection (`filterOf_eq_error_iff`).

Both inductions go along a section from its end, so that what lies before an entry is at hand as
the shorter section.
-/

namespace PathFilter

/-! ### Names -/

/-- A name that no kind has is complained of. -/
theorem Kind.parse_of_forall_ne {s : String} (h : ∀ k : Kind, s ≠ k.name) :
    Kind.parse s = .error ⟨s⟩ := by
  have hnone : Kind.ofName? s = none := by
    rw [Option.eq_none_iff_forall_ne_some]
    intro k hk
    exact h k (Kind.ofName?_eq_some_iff.mp hk)
  rw [Kind.parse, hnone]

namespace Script

/-! ### Objections -/

/-- **What is wrong with an entry** behind the entries `ds`. -/
inductive Objection (ds : List Entry) : Entry → EntryError → Prop
  /-- The name is neither the flag nor a condition. -/
  | unknown {n : String} {v : Value} (hflag : n ≠ Filter.flagName) (hk : ∀ k : Kind, n ≠ k.name) :
      Objection ds ⟨n, v⟩ (.unknown ⟨n⟩)
  | repeatedFlag {v : Value} (hmem : Filter.flagName ∈ ds.map Entry.name) :
      Objection ds ⟨Filter.flagName, v⟩ .repeatedFlag
  | flagValue {v : Value} (hnew : Filter.flagName ∉ ds.map Entry.name) (hv : v ≠ .flag) :
      Objection ds ⟨Filter.flagName, v⟩ .flagValue
  | repeated {k : Kind} {v : Value} (hmem : k.name ∈ ds.map Entry.name) :
      Objection ds ⟨k.name, v⟩ (.repeated k)
  | missingValue {k : Kind} (hnew : k.name ∉ ds.map Entry.name) :
      Objection ds ⟨k.name, .flag⟩ (.missingValue k)
  | needsList {k : Kind} {s : String} (hnew : k.name ∉ ds.map Entry.name)
      (hk : k.takesList = true) : Objection ds ⟨k.name, .text s⟩ (.needsList k)
  | needsText {k : Kind} {ss : List String} (hnew : k.name ∉ ds.map Entry.name)
      (hk : k.takesList = false) : Objection ds ⟨k.name, .list ss⟩ (.needsText k)

variable {ds es : List Entry} {e : Entry} {err : EntryError} {f : Filter}

/-- An entry with the name of the flag may repeat it or give it a value. -/
theorem exists_objection_or_of_flag (ds : List Entry) (v : Value) :
    (∃ err, Objection ds ⟨Filter.flagName, v⟩ err) ∨
      v = .flag ∧ Filter.flagName ∉ ds.map Entry.name := by
  by_cases hmem : Filter.flagName ∈ ds.map Entry.name
  · exact .inl ⟨_, .repeatedFlag hmem⟩
  by_cases hv : v = .flag
  · exact .inr ⟨hv, hmem⟩
  · exact .inl ⟨_, .flagValue hmem hv⟩

/-- An entry with the name of a condition may repeat it, leave its value out, or have a value of the
other shape. -/
theorem exists_objection_or_of_kind (ds : List Entry) (k : Kind) (v : Value) :
    (∃ err, Objection ds ⟨k.name, v⟩ err) ∨
      (∃ w, v = k.arity.scriptValue w) ∧ k.name ∉ ds.map Entry.name := by
  by_cases hmem : k.name ∈ ds.map Entry.name
  · exact .inl ⟨_, .repeated hmem⟩
  -- the name is new, so only the shape of the value is left to ask
  cases v with
  | flag => exact .inl ⟨_, .missingValue hmem⟩
  | text s =>
    cases hlist : k.takesList with
    | true => exact .inl ⟨_, .needsList hmem hlist⟩
    | false =>
      obtain ⟨w, hw⟩ := (Kind.exists_scriptValue_eq_text_iff s).mpr hlist
      exact .inr ⟨⟨w, hw.symm⟩, hmem⟩
  | list ss =>
    cases hlist : k.takesList with
    | true =>
      obtain ⟨w, hw⟩ := (Kind.exists_scriptValue_eq_list_iff ss).mpr hlist
      exact .inr ⟨⟨w, hw.symm⟩, hmem⟩
    | false => exact .inl ⟨_, .needsText hmem hlist⟩

/-- An entry is open to an objection, or it is a proper entry with a new name. -/
theorem exists_objection_or (ds : List Entry) (e : Entry) :
    (∃ err, Objection ds e err) ∨ e.IsProper ∧ e.name ∉ ds.map Entry.name := by
  obtain ⟨n, v⟩ := e
  -- the name is that of the flag, that of a condition, or unknown
  by_cases hflag : n = Filter.flagName
  · subst hflag
    refine (exists_objection_or_of_flag ds v).imp_right fun ⟨hv, hmem⟩ => ?_
    exact ⟨.inl (by rw [hv, Entry.caseFlag]), hmem⟩
  by_cases hk : ∃ k : Kind, n = k.name
  · obtain ⟨k, rfl⟩ := hk
    refine (exists_objection_or_of_kind ds k v).imp_right fun ⟨⟨w, hw⟩, hmem⟩ => ?_
    exact ⟨.inr ⟨k, w, by rw [hw, Entry.condition]⟩, hmem⟩
  · exact .inl ⟨_, .unknown hflag fun k hn => hk ⟨k, hn⟩⟩

/-- A proper entry with the name of a condition has a value of its arity. -/
theorem Entry.IsProper.exists_scriptValue {k : Kind} {v : Value}
    (h : Entry.IsProper ⟨k.name, v⟩) : ∃ w : k.Operand, v = k.arity.scriptValue w := by
  rcases h with hflag | ⟨j, w, hj⟩
  · exact absurd (congrArg Entry.name hflag) (Kind.name_ne_flagName k)
  · obtain rfl : k = j := Kind.name_injective (congrArg Entry.name hj)
    exact ⟨w, congrArg Entry.value hj⟩

theorem Entry.IsProper.value_eq_flag {v : Value} (h : Entry.IsProper ⟨Filter.flagName, v⟩) :
    v = .flag := by
  rcases h with hflag | ⟨k, w, hk⟩
  · exact congrArg Entry.value hflag
  · exact absurd (congrArg Entry.name hk).symm (Kind.name_ne_flagName k)

theorem Entry.IsProper.known (h : e.IsProper) :
    e.name = Filter.flagName ∨ ∃ k : Kind, e.name = k.name := by
  rcases h with rfl | ⟨k, v, rfl⟩
  · exact .inl rfl
  · exact .inr ⟨k, rfl⟩

/-- Nothing is wrong with a proper entry whose name is new, and with no other. -/
theorem not_objection_iff :
    (∀ err, ¬ Objection ds e err) ↔ e.IsProper ∧ e.name ∉ ds.map Entry.name := by
  constructor
  · intro h
    apply (exists_objection_or ds e).resolve_left
    rintro ⟨err, ho⟩
    exact h err ho
  · rintro ⟨hproper, hnew⟩ err ho
    -- each rule denies something that holds of a proper entry with a new name
    cases ho with
    | unknown hflag hk =>
      rcases hproper.known with hn | ⟨k, hn⟩
      · exact hflag hn
      · exact hk k hn
    | repeatedFlag hmem => exact hnew hmem
    | flagValue _ hv => exact hv hproper.value_eq_flag
    | repeated hmem => exact hnew hmem
    | missingValue _ =>
      obtain ⟨w, hw⟩ := hproper.exists_scriptValue
      exact Arity.scriptValue_ne_flag w hw.symm
    | needsList _ hk =>
      -- a text is no value of a condition that takes a list, and the other way round below
      obtain ⟨w, hw⟩ := hproper.exists_scriptValue
      have hone := (Kind.exists_scriptValue_eq_text_iff _).mp ⟨w, hw.symm⟩
      exact Bool.false_ne_true (hone.symm.trans hk)
    | needsText _ hk =>
      obtain ⟨w, hw⟩ := hproper.exists_scriptValue
      have hmany := (Kind.exists_scriptValue_eq_list_iff _).mp ⟨w, hw.symm⟩
      exact Bool.false_ne_true (hk.symm.trans hmany)

/-! ### Taking one entry -/

/-- Which conditions a filter holds is known from the names of the proper entries it gathers. -/
theorem Gathers.isSet_iff (h : Gathers f ds) (hp : ∀ d ∈ ds, d.IsProper) {k : Kind} :
    f.isSet k = true ↔ k.name ∈ ds.map Entry.name := by
  constructor
  · intro hset
    by_contra hnew
    rw [h.isSet_eq_false hnew] at hset
    exact Bool.false_ne_true hset
  · intro hmem
    -- the entry with the name of a condition is one of that condition, being proper
    obtain ⟨⟨n, v⟩, hd, rfl⟩ := List.mem_map.mp hmem
    obtain ⟨w, rfl⟩ := (hp _ hd).exists_scriptValue
    exact Filter.isSet_iff.mpr ⟨w, (h.operand_iff k w).mpr hd⟩

/-- So is whether the flag is on. -/
theorem Gathers.ignoreCase_iff_mem (h : Gathers f ds) (hp : ∀ d ∈ ds, d.IsProper) :
    f.ignoreCase = true ↔ Filter.flagName ∈ ds.map Entry.name := by
  constructor
  · intro hflag
    exact List.mem_map_of_mem (h.ignoreCase_iff.mp hflag)
  · intro hmem
    obtain ⟨⟨n, v⟩, hd, rfl⟩ := List.mem_map.mp hmem
    obtain rfl : v = .flag := (hp _ hd).value_eq_flag
    exact h.ignoreCase_iff.mpr hd

/-- **One entry.** A filter that holds what the entries before say objects as the rules do. -/
theorem Objection.addEntry_eq (ho : Objection ds e err) (h : Gathers f ds)
    (hp : ∀ d ∈ ds, d.IsProper) : addEntry (.of f) e = .error err := by
  -- behind the name and the repetition, a condition is refused for what its value is refused for
  have hcondition {k : Kind} {v : Value} {err : EntryError} (hnew : k.name ∉ ds.map Entry.name)
      (hv : addValue f k v = .error err) : addEntry (.of f) ⟨k.name, v⟩ = .error err := by
    have hset : ¬ (Intake.of f).filter.isSet k = true :=
      fun hset => hnew ((h.isSet_iff hp).mp hset)
    rw [addEntry_name, if_neg hset, Intake.filter_of, hv]
    rfl
  -- the step asks in the same order as the rules, each of which denies those above it
  cases ho with
  | unknown hflag hk =>
    rw [addEntry, if_neg hflag, Kind.parse_of_forall_ne hk]
  | repeatedFlag hmem =>
    have hsaw : (Intake.of f).sawFlag = true := (h.ignoreCase_iff_mem hp).mpr hmem
    rw [addEntry, if_pos rfl, if_pos hsaw]
  | flagValue hnew hv =>
    have hsaw : ¬ (Intake.of f).sawFlag = true := fun hc => hnew ((h.ignoreCase_iff_mem hp).mp hc)
    rw [addEntry, if_pos rfl, if_neg hsaw, if_neg hv]
  | @repeated k v hmem =>
    rw [addEntry_name]
    exact if_pos ((h.isSet_iff hp).mpr hmem)
  | missingValue hnew => exact hcondition hnew rfl
  | @needsList k s hnew hk =>
    have hnone : f.setText? k s = none := by
      rw [← Option.not_isSome_iff_eq_none, Filter.isSome_setText?, hk]
      exact Bool.false_ne_true
    exact hcondition hnew (by rw [addValue, hnone, Option.elim_none])
  | @needsText k ss hnew hk =>
    have hnone : f.setTexts? k ss = none := by
      rw [← Option.not_isSome_iff_eq_none, Filter.isSome_setTexts?, hk]
      exact Bool.false_ne_true
    exact hcondition hnew (by rw [addValue, hnone, Option.elim_none])

/-- An entry is refused for what is wrong with it, or nothing is wrong with it and it is taken. -/
theorem Gathers.addEntry_cases (h : Gathers f ds) (hp : ∀ d ∈ ds, d.IsProper) (e : Entry) :
    (∃ err, Objection ds e err ∧ Script.addEntry (.of f) e = .error err) ∨
    (∀ err, ¬ Objection ds e err) ∧
      ∃ g, Script.addEntry (.of f) e = .ok (.of g) ∧ Gathers g (ds ++ [e]) := by
  rcases exists_objection_or ds e with ⟨err, ho⟩ | hproper
  · exact .inl ⟨err, ho, ho.addEntry_eq h hp⟩
  · exact .inr ⟨not_objection_iff.mpr hproper, h.addEntry hproper.1 hproper.2⟩

/-! ### Whole sections -/

/-- **Entries that may stand together in a section**: of known names, each once, the flag without
a value and every condition with one of its arity. -/
structure WellFormed (es : List Entry) : Prop where
  known : ∀ e ∈ es, e.name = Filter.flagName ∨ ∃ k : Kind, e.name = k.name
  nodup : (es.map Entry.name).Nodup
  flag : ∀ e ∈ es, e.name = Filter.flagName → e.value = .flag
  shaped : ∀ e ∈ es, ∀ k : Kind, e.name = k.name → ∃ v : k.Operand, e.value = k.arity.scriptValue v

/-- Such entries are the proper ones with different names. -/
theorem wellFormed_iff :
    WellFormed es ↔ (∀ e ∈ es, e.IsProper) ∧ (es.map Entry.name).Nodup := by
  constructor
  · intro h
    refine ⟨?_, h.nodup⟩
    rintro ⟨n, v⟩ he
    -- the name decides which of the two shapes is asked of the value
    rcases h.known _ he with rfl | ⟨k, rfl⟩
    · obtain rfl : v = .flag := h.flag _ he rfl
      exact .inl rfl
    · obtain ⟨w, rfl⟩ : ∃ w : k.Operand, v = k.arity.scriptValue w := h.shaped _ he k rfl
      exact .inr ⟨k, w, rfl⟩
  · rintro ⟨hp, hn⟩
    -- a proper entry has the shape that its name asks for
    refine ⟨fun e he => (hp e he).known, hn, ?_, ?_⟩
    · rintro ⟨n, v⟩ he rfl
      exact (hp _ he).value_eq_flag
    · rintro ⟨n, v⟩ he k rfl
      exact (hp _ he).exists_scriptValue

theorem wellFormed_nil : WellFormed [] :=
  wellFormed_iff.mpr ⟨List.forall_mem_nil _, List.nodup_nil⟩

/-- A section grows by an entry to which there is no objection. -/
theorem wellFormed_append_singleton_iff :
    WellFormed (es ++ [e]) ↔ WellFormed es ∧ ∀ err, ¬ Objection es e err := by
  have hnodup : ((es ++ [e]).map Entry.name).Nodup ↔
      (es.map Entry.name).Nodup ∧ e.name ∉ es.map Entry.name := by
    rw [List.map_append, List.map_singleton, ← List.concat_eq_append, List.nodup_concat]
    exact and_comm
  rw [wellFormed_iff, wellFormed_iff, not_objection_iff, hnodup, List.forall_mem_append,
    List.forall_mem_singleton]
  exact and_and_and_comm

/-- That nothing is wrong with any entry behind the entries before it. -/
def Unobjectionable (es : List Entry) : Prop :=
  ∀ ds e rest, es = ds ++ e :: rest → ∀ err, ¬ Objection ds e err

/-- Walking through a section entry by entry finds nothing wrong exactly if the section is
well-formed. -/
theorem unobjectionable_iff : Unobjectionable es ↔ WellFormed es := by
  induction es using List.reverseRecOn with
  | nil =>
    have hnone : Unobjectionable [] := fun ds e rest heq => by simp at heq
    exact iff_of_true hnone wellFormed_nil
  | append_singleton es e ih =>
    rw [wellFormed_append_singleton_iff, ← ih]
    constructor
    · intro h
      -- the entries before the last one are walked through on the way to it
      refine ⟨fun ds d rest heq => h ds d (rest ++ [e]) ?_, h es e [] rfl⟩
      rw [heq, List.append_assoc, List.cons_append]
    · rintro ⟨hes, he⟩ ds d rest heq
      -- the entry that is objected to is the last one, or stands before it
      rcases List.eq_nil_or_concat rest with rfl | ⟨rest', e', rfl⟩
      · obtain ⟨rfl, hlast⟩ := List.append_inj' heq rfl
        obtain rfl : e = d := List.singleton_inj.mp hlast
        exact he
      · rw [List.concat_eq_append, ← List.cons_append, ← List.append_assoc] at heq
        obtain ⟨hinit, -⟩ := List.append_inj' heq rfl
        exact hes ds d rest' hinit

theorem WellFormed.perm (h : WellFormed es) (hp : es.Perm ds) : WellFormed ds := by
  obtain ⟨hproper, hn⟩ := wellFormed_iff.mp h
  refine wellFormed_iff.mpr ⟨fun d hd => hproper d (hp.mem_iff.mpr hd), ?_⟩
  exact (hp.map Entry.name).nodup_iff.mp hn

/-- Where a section can be taken, what is appended to it is taken from there. -/
theorem filterOf_append_of_eq_ok (hes : filterOf es = .ok f) :
    filterOf (es ++ ds) = (ds.foldlM addEntry (.of f)).map Intake.filter := by
  rw [filterOf, List.foldlM_append, filterOf_eq_ok_iff_foldlM.mp hes]
  rfl

/-- Where it cannot, nothing that is appended changes what is said. -/
theorem filterOf_append_of_eq_error (hes : filterOf es = .error err) :
    filterOf (es ++ ds) = .error err := by
  rw [filterOf] at hes
  rw [filterOf, List.foldlM_append]
  -- a fold that has failed is not resumed
  cases hrun : es.foldlM addEntry {} with
  | error err' =>
    rw [hrun] at hes
    obtain rfl : err' = err := Except.error.inj hes
    rfl
  | ok s =>
    rw [hrun] at hes
    contradiction

theorem filterOf_append_singleton_of_eq_ok (hes : filterOf es = .ok f) :
    filterOf (es ++ [e]) = (addEntry (.of f) e).map Intake.filter := by
  rw [filterOf_append_of_eq_ok hes, List.foldlM_cons]
  cases addEntry (.of f) e <;> rfl

/-- **Success.** Exactly the well-formed sections are taken, and the filter holds what their
entries say. -/
theorem filterOf_eq_ok_iff : filterOf es = .ok f ↔ WellFormed es ∧ Gathers f es := by
  constructor
  · intro h
    -- along the section from its end, so that the last entry is the step
    induction es using List.reverseRecOn generalizing f with
    | nil =>
      obtain rfl : Filter.empty = f := Except.ok.inj h
      exact ⟨wellFormed_nil, .empty⟩
    | append_singleton es e ih =>
      cases hes : filterOf es with
      | error err =>
        rw [filterOf_append_of_eq_error hes] at h
        contradiction
      | ok g =>
        obtain ⟨hwell, hgather⟩ := ih hes
        rw [filterOf_append_singleton_of_eq_ok hes] at h
        rcases hgather.addEntry_cases (wellFormed_iff.mp hwell).1 e with
          ⟨err, -, herr⟩ | ⟨hclear, g', hg', hgather'⟩
        · rw [herr] at h
          contradiction
        · rw [hg'] at h
          obtain rfl : g' = f := Except.ok.inj h
          exact ⟨wellFormed_append_singleton_iff.mpr ⟨hwell, hclear⟩, hgather'⟩
  · rintro ⟨hwell, hgather⟩
    obtain ⟨hp, hn⟩ := wellFormed_iff.mp hwell
    obtain ⟨g, hg, hgather'⟩ := exists_filterOf_of_isProper hp hn
    -- proper entries with new names have a filter, and entries gather one filter only
    rw [hg, hgather'.unique hgather]

/-- **Failure.** What is said of any other section is what is wrong with the first of its entries
that is wrong behind the entries before it. -/
theorem filterOf_eq_error_iff :
    filterOf es = .error err ↔
      ∃ ds e rest, es = ds ++ e :: rest ∧ Unobjectionable ds ∧ Objection ds e err := by
  simp only [unobjectionable_iff]
  constructor
  · intro h
    -- from the end again: the refusal came before the last entry, or at it
    induction es using List.reverseRecOn with
    | nil => contradiction
    | append_singleton es e ih =>
      cases hes : filterOf es with
      | error err' =>
        -- the run stopped before the last entry
        rw [filterOf_append_of_eq_error hes] at h
        obtain rfl : err' = err := Except.error.inj h
        obtain ⟨ds, d, rest, rfl, hwell, ho⟩ := ih hes
        exact ⟨ds, d, rest ++ [e], by simp, hwell, ho⟩
      | ok g =>
        -- the run came to the last entry, so that is the one that is wrong
        obtain ⟨hwell, hgather⟩ := filterOf_eq_ok_iff.mp hes
        rw [filterOf_append_singleton_of_eq_ok hes] at h
        rcases hgather.addEntry_cases (wellFormed_iff.mp hwell).1 e with
          ⟨err', ho, herr⟩ | ⟨-, g', hg', -⟩
        · rw [herr] at h
          obtain rfl : err' = err := Except.error.inj h
          exact ⟨es, e, [], rfl, hwell, ho⟩
        · rw [hg'] at h
          contradiction
  · rintro ⟨ds, e, rest, rfl, hwell, ho⟩
    obtain ⟨hp, hn⟩ := wellFormed_iff.mp hwell
    obtain ⟨g, hg, hgather⟩ := exists_filterOf_of_isProper hp hn
    rw [filterOf_append_of_eq_ok hg, List.foldlM_cons, ho.addEntry_eq hgather hp]
    rfl

/-- A section configures something exactly if its entries have a filter. -/
theorem configurationOf_some_eq_ok_iff {c : Configuration} :
    configurationOf (some es) = .ok c ↔ ∃ f, c = some f ∧ filterOf es = .ok f := by
  rw [configurationOf]
  cases filterOf es with
  | error err => simp [Except.map]
  | ok f => simp [Except.map, eq_comm]

/-- A section is refused for what its entries are refused for. -/
theorem configurationOf_some_eq_error_iff :
    configurationOf (some es) = .error err ↔ filterOf es = .error err := by
  rw [configurationOf]
  cases filterOf es with
  | error err' => simp [Except.map]
  | ok f => simp [Except.map]

/-- **Sections are taken as they are written down.** A section configures something exactly if it
is well-formed; then it configures a filter that holds what the entries say, whatever their order.
Any other section is refused for the first entry that is wrong behind the entries before it, and
is still refused for it when entries are appended. -/
theorem configurationOf_entries (es : List Entry) :
    ((∃ c, configurationOf (some es) = .ok c) ↔ WellFormed es) ∧
    (∀ c, configurationOf (some es) = .ok c →
      (∃ f, c = some f ∧ Gathers f es) ∧
      ∀ ds, es.Perm ds → configurationOf (some ds) = .ok c) ∧
    (∀ err, configurationOf (some es) = .error err ↔
      ∃ ds e rest, es = ds ++ e :: rest ∧ Unobjectionable ds ∧ Objection ds e err) ∧
    ∀ err ds, configurationOf (some es) = .error err →
      configurationOf (some (es ++ ds)) = .error err := by
  refine ⟨⟨?_, ?_⟩, ?_, fun err => ?_, ?_⟩
  · rintro ⟨c, hc⟩
    obtain ⟨f, -, hf⟩ := configurationOf_some_eq_ok_iff.mp hc
    exact (filterOf_eq_ok_iff.mp hf).1
  · intro hwell
    obtain ⟨hp, hn⟩ := wellFormed_iff.mp hwell
    obtain ⟨f, hf, -⟩ := exists_filterOf_of_isProper hp hn
    exact ⟨some f, configurationOf_some_eq_ok_iff.mpr ⟨f, rfl, hf⟩⟩
  · intro c hc
    obtain ⟨f, rfl, hf⟩ := configurationOf_some_eq_ok_iff.mp hc
    obtain ⟨hwell, hgather⟩ := filterOf_eq_ok_iff.mp hf
    refine ⟨⟨f, rfl, hgather⟩, fun ds hperm => ?_⟩
    -- well-formedness and what is gathered are both blind to the order
    have hds : filterOf ds = .ok f :=
      filterOf_eq_ok_iff.mpr ⟨hwell.perm hperm, hgather.perm hperm⟩
    exact configurationOf_some_eq_ok_iff.mpr ⟨f, rfl, hds⟩
  · rw [configurationOf_some_eq_error_iff, filterOf_eq_error_iff]
  · intro err ds herr
    -- the first fault ends the run, so nothing behind it is looked at
    have hes : filterOf es = .error err := configurationOf_some_eq_error_iff.mp herr
    exact configurationOf_some_eq_error_iff.mpr (filterOf_append_of_eq_error hes)

/-- Three entries are taken in another order too; behind them a condition that was there is
refused as a repetition, although it has no value and an unknown name follows. -/
theorem configurationOf_entries_repetition :
    let es : List Entry :=
      [⟨"equalsOneOf", .list ["b", ""]⟩, ⟨"caseInsensitive", .flag⟩, ⟨"equals", .text ""⟩]
    configurationOf (some es.reverse) = .ok (some (Filter.build
      [.ignoreCase true, .condition .equalsOneOf ["b", ""], .condition .equals ""])) ∧
    configurationOf (some (es ++ [⟨"equals", .flag⟩] ++ [⟨"equal", .flag⟩])) =
      .error (.repeated .equals) := by
  intro es
  have hes : configurationOf (some es) = .ok (some (Filter.build
      [.ignoreCase true, .condition .equalsOneOf ["b", ""], .condition .equals ""])) := by
    decide +kernel
  have hwell : WellFormed es := (configurationOf_entries es).1.mp ⟨_, hes⟩
  -- the repetition is found before the missing value, and before the unknown name behind it
  have hrepeated : Objection es ⟨"equals", .flag⟩ (.repeated .equals) :=
    .repeated (k := .equals) (by decide)
  have herr : configurationOf (some (es ++ [⟨"equals", .flag⟩])) = .error (.repeated .equals) :=
    ((configurationOf_entries _).2.2.1 _).mpr
      ⟨es, _, [], rfl, unobjectionable_iff.mpr hwell, hrepeated⟩
  exact ⟨((configurationOf_entries es).2.1 _ hes).2 _ (List.reverse_perm es).symm,
    (configurationOf_entries _).2.2.2 _ _ herr⟩

end Script

end PathFilter
