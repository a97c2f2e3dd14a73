import PathFilter.Proofs.Json.Configuration

/-!
# Reading back what is written

The JSON text of a configuration is loaded as that configuration (`Configuration.ofJson_write`).
The argument does not go through the readers: what is written is in the grammar, as the value that
the configuration stands for (`writes_configuration`), and that value has the configuration for its
meaning (`Value.asConfiguration_ofConfiguration`), since the members of a filter have different
keys.

It follows that no two configurations have the same text; nothing, an empty filter, an absent
condition, an empty text and an empty list are all told apart.
-/

namespace PathFilter.Json

/-! ### The value of a configuration -/

/-- The value in a field of a filter, if the field is written. -/
def FilterField.value? (f : Filter) : FilterField → Option Value
  | .ignoreCase => some (.boolean f.ignoreCase)
  | .condition k => (f.operand k).map (Value.ofOperand k.arity)

/-- The member for a field of a filter, if the field is written. -/
def FilterField.member? (f : Filter) (x : FilterField) : Option Member :=
  (x.value? f).map fun v => (some x.key, v)

/-- The object of a filter: its written fields, in their fixed order. -/
def Value.ofFilter (f : Filter) : Value := .object (FilterField.all.filterMap (·.member? f))

/-- The object of a configuration: its section, or no member at all. -/
def Value.ofConfiguration : Configuration → Value
  | none => .object []
  | some f => .object [(some sectionKey, .ofFilter f)]

/-! ### What is written for it -/

/-- Lists that are filtered by partial functions in step stay related, element by element. -/
theorem forall₂_filterMap {α β γ : Type} {R : β → γ → Prop} {g : α → Option β} {h : α → Option γ}
    (hr : ∀ a, Option.Rel R (g a) (h a)) (as : List α) :
    List.Forall₂ R (as.filterMap g) (as.filterMap h) := by
  induction as with
  | nil => exact .nil
  | cons a as ih =>
    -- `g a` and `h a` are both there or both missing
    have ha := hr a
    rw [List.filterMap_cons, List.filterMap_cons]
    cases hg : g a with
    | none =>
      rw [hg] at ha
      cases hh : h a with
      | none => exact ih
      | some c => rw [hh] at ha; contradiction
    | some b =>
      rw [hg] at ha
      cases hh : h a with
      | none => rw [hh] at ha; contradiction
      | some c =>
        rw [hh] at ha
        cases ha with
        | some hbc => exact .cons hbc ih

/-- An operand is written as the value that writes it down. -/
theorem writes_operand {a : Arity} (o : a.Operand) :
    Writes (.ofOperand a o) (writeOperand a o) := by
  cases a with
  | one => exact writes_text o
  | many =>
    refine writes_array ?_
    rw [List.forall₂_map_left_iff, List.forall₂_map_right_iff]
    exact List.forall₂_same.mpr fun s _ => writes_text s

/-- A field is written exactly if it has a value, and then as its member. -/
theorem writesMember_field (f : Filter) (x : FilterField) :
    Option.Rel WritesMember (x.member? f) (writeField? f x) := by
  -- the flag is always written, a condition only if it has an operand
  cases x with
  | ignoreCase => exact .some (writesMember (writes_boolean f.ignoreCase))
  | condition k =>
    rw [FilterField.member?, FilterField.value?, writeField?]
    cases f.operand k with
    | none => exact .none
    | some o => exact .some (writesMember (writes_operand o))

theorem writes_filter (f : Filter) : Writes (.ofFilter f) (writeFilter f) :=
  writes_object (forall₂_filterMap (writesMember_field f) FilterField.all)

theorem writes_configuration (c : Configuration) :
    Writes (.ofConfiguration c) (writeConfiguration c) := by
  cases c with
  | none => exact writes_object .nil
  | some f => exact writes_object (.cons (writesMember (writes_filter f)) .nil)

/-! ### What it means -/

/-- A field in front adds its value under its own key. -/
theorem valuesAt_filterMap_member_cons (f : Filter) (x y : FilterField) (ys : List FilterField) :
    valuesAt x.key ((y :: ys).filterMap (·.member? f)) =
      (if y = x then (y.value? f).toList else []) ++
        valuesAt x.key (ys.filterMap (·.member? f)) := by
  rw [List.filterMap_cons, FilterField.member?]
  -- a field that is left out writes no member
  cases y.value? f with
  | none => simp
  | some v =>
    rw [Option.map_some]
    by_cases hyx : y = x
    · subst hyx
      rw [if_pos rfl]
      exact valuesAt_cons_self ..
    · have hne : (some y.key, v).1 ≠ some x.key :=
        fun h => hyx (filterLayout.key_injective (Option.some.inj h))
      rw [if_neg hyx]
      exact valuesAt_cons_of_ne hne _

/-- The values under the key of a field are its value, or none if the field is left out. -/
theorem valuesAt_filterMap_member {f : Filter} {xs : List FilterField} (hxs : xs.Nodup)
    (x : FilterField) : valuesAt x.key (xs.filterMap (·.member? f)) =
      if x ∈ xs then (x.value? f).toList else [] := by
  -- by induction on the fields, no one of which comes twice
  induction xs with
  | nil => rfl
  | cons y ys ih =>
    obtain ⟨hy, hys⟩ := List.nodup_cons.mp hxs
    rw [valuesAt_filterMap_member_cons, ih hys]
    by_cases hyx : y = x
    · -- the field itself, which does not come again
      subst hyx
      rw [if_pos rfl, if_neg hy, if_pos List.mem_cons_self, List.append_nil]
    · have hmem : x ∈ y :: ys ↔ x ∈ ys := by simp [Ne.symm hyx]
      rw [if_neg hyx, List.nil_append]
      simp only [hmem]

/-- The keys of the written fields are texts. -/
theorem keysDenote_filterMap_member (f : Filter) (xs : List FilterField) :
    KeysDenote (xs.filterMap (·.member? f)) := by
  intro m hm
  obtain ⟨x, -, hx⟩ := List.mem_filterMap.mp hm
  obtain ⟨v, -, rfl⟩ := Option.map_eq_some_iff.mp hx
  exact Option.some_ne_none _

/-- The object of a filter is taken for this filter. -/
theorem Value.asFilter_ofFilter (f : Filter) : (Value.ofFilter f).asFilter = some f := by
  refine Value.asFilter_object_eq_some_iff.mpr ⟨keysDenote_filterMap_member f _, fun x => ?_⟩
  have hmem : x ∈ FilterField.all := filterLayout.mem_fields x
  rw [valuesAt_filterMap_member (by decide), if_pos hmem]
  cases x with
  | ignoreCase =>
    -- the flag is always written, also where it is off
    exact rfl
  | condition k =>
    cases ho : f.operand k with
    | none =>
      -- the member is left out, so the condition is as in the empty filter
      have hnone : (FilterField.condition k).value? f = none := by rw [FilterField.value?, ho]; rfl
      rw [hnone]
      exact ho.trans (Filter.operand_empty k).symm
    | some o =>
      have hsome : (FilterField.condition k).value? f = some (.ofOperand k.arity o) := by
        rw [FilterField.value?, ho]; rfl
      rw [hsome]
      exact (FilterField.given_condition_eq_some_some_iff.mpr rfl).trans (congrArg some ho.symm)

/-- The object of a configuration is taken for this configuration. -/
theorem Value.asConfiguration_ofConfiguration (c : Configuration) :
    (Value.ofConfiguration c).asConfiguration = some c := by
  cases c with
  | none => rfl
  | some f =>
    refine Value.asConfiguration_object_eq_some_iff.mpr ⟨by simp [KeysDenote], ?_⟩
    exact congrArg (Option.map some) (Value.asFilter_ofFilter f)

end PathFilter.Json

namespace PathFilter

open Json

namespace Configuration

theorem ofJson_write_self (c : Configuration) : ofJson (Json.write c) = .ok c := by
  refine ofJson_of_document ?_ (Value.asConfiguration_ofConfiguration c)
  rw [Json.write, String.toList_ofList]
  exact (writes_configuration c).document

/-- No text is that of two configurations. -/
theorem write_eq_iff {c d : Configuration} : Json.write c = Json.write d ↔ c = d := by
  constructor
  · intro h
    -- both are what the one text is loaded as
    have hload := ofJson_write_self c
    rw [h, ofJson_write_self d] at hload
    exact (Except.ok.inj hload).symm
  · exact congrArg Json.write

/-- **The round trip.** Every configuration is loaded again from its text, so no two have the same
text. In particular no filter is told apart from the filters, among them the empty one; an absent
condition from one that is present, even with an empty text or an empty list; and a condition from
the same one with another operand. -/
theorem ofJson_write :
    (∀ c, ofJson (Json.write c) = .ok c) ∧
    (∀ c d, Json.write c = Json.write d ↔ c = d) ∧
    (∀ f : Filter, Json.write none ≠ Json.write (some f)) ∧
    (∀ (f : Filter) (k : Kind) (o : k.Operand),
      Json.write (some (f.clear k)) ≠ Json.write (some (f.set k o))) ∧
    ∀ (f : Filter) (k : Kind) (o p : k.Operand),
      Json.write (some (f.set k o)) = Json.write (some (f.set k p)) ↔ o = p := by
  -- the three comparisons are of different configurations, so by `write_eq_iff` of texts
  refine ⟨ofJson_write_self, fun c d => write_eq_iff, fun f => ?_, fun f k o => ?_,
    fun f k o p => ?_⟩
  · rw [ne_eq, write_eq_iff]
    exact (Option.some_ne_none f).symm
  · rw [ne_eq, write_eq_iff]
    intro h
    -- the operand of the one kind tells the two filters apart
    have hoperand := congrArg (·.operand k) (Option.some.inj h)
    simp at hoperand
  · rw [write_eq_iff]
    constructor
    · intro h
      have hoperand := congrArg (·.operand k) (Option.some.inj h)
      simpa using hoperand
    · rintro rfl
      rfl

/-- The characters that have to be escaped, in a text and in a list. -/
example : Json.write (some ((Filter.empty.set .contains "\"\\\n").set .equalsOneOf ["\x01", ""])) =
    "\x7b\"path\":\x7b\"caseInsensitive\":false,\"contains\":\"\\\"\\\\\\n\"," ++
      "\"equalsOneOf\":[\"\\u0001\",\"\"]\x7d\x7d" := by
  decide +kernel

end Configuration

end PathFilter
