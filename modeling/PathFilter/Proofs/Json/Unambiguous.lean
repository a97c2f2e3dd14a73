import PathFilter.Proofs.Json.Record

/-!
# One value for a text

The rules of the grammar leave some room: blanks may be divided in any way between two places, and
a text between quotes may be taken for one that denotes or by its form. Nevertheless no text writes
down two values (`Grammar.Document.unique`), so that one may speak of the value of a text.

Where a value ends is settled by the reader that passes over it, since that reader gives one answer
(`Grammar.Spells.rest_unique`). What the value is remains to be shown, by induction on one of the
two derivations: its first letter says of which kind the other one is, and the parts of both stand
at the same places (`Grammar.Part.Only.elements`, `Grammar.Part.Only.members`).
-/

namespace PathFilter.Json

namespace Grammar

/-! ### Places -/

/-- A value ends where the reader that passes over it stops. -/
theorem Spells.rest_unique {v w : Value} {cs rest rest' : List Char}
    (h : Spells (.value v) cs rest) (h' : Spells (.value w) cs rest') : rest = rest' := by
  have hskip : skipFrom [] cs = .ok rest := h.passed []
  have hskip' : skipFrom [] cs = .ok rest' := h'.passed []
  exact Except.ok.inj (hskip.symm.trans hskip')

/-- Blanks lead to one character that is none. -/
theorem Blanks.unique {cs ds ds' : List Char} {c c' : Char} (h : Blanks cs (c :: ds))
    (h' : Blanks cs (c' :: ds')) (hc : isBlank c = false) (hc' : isBlank c' = false) :
    c = c' ∧ ds = ds' := by
  have hskip := skipBlanks_of_blanks_cons h hc
  rw [skipBlanks_of_blanks_cons h' hc'] at hskip
  obtain ⟨rfl, rfl⟩ := List.cons.inj hskip
  exact ⟨rfl, rfl⟩

/-- Blanks lead to one value. -/
theorem Blanks.unique_of_value {v w : Value} {cs ds ds' rest rest' : List Char}
    (h : Blanks cs ds) (h' : Blanks cs ds') (hv : Spells (.value v) ds rest)
    (hw : Spells (.value w) ds' rest') : ds = ds' :=
  (skipBlanks_of_value h hv).symm.trans (skipBlanks_of_value h' hw)

theorem Blanks.opens_of_value {v : Value} {c : Char} {cs ds more rest : List Char}
    (h : Blanks cs (c :: rest)) (hc : isBlank c = false) (h' : Blanks cs ds)
    (hv : Spells (.value v) ds more) : v.Opens c := by
  obtain ⟨d, t, rfl, hd⟩ := hv.exists_opens
  exact (h.unique h' hc hd.isBlank_eq_false).1 ▸ hd

/-! ### Texts and keys -/

/-- Behind a quote one text stands, denoting one thing if it denotes anything. -/
theorem Text.unique {t t' : Option String} {cs rest rest' : List Char} (h : Text cs t rest)
    (h' : Text cs t' rest') : t = t' ∧ rest = rest' := by
  -- where it ends is settled by its form alone
  have hrest : rest = rest' := by
    have hskip := skipText_eq_ok_iff.mpr h.quoted
    rw [skipText_eq_ok_iff.mpr h'.quoted] at hskip
    exact (Except.ok.inj hskip).symm
  subst hrest
  -- and what it denotes by the reader, which gives the same answer for both
  have hread := h.toOption_readText
  rw [h'.toOption_readText] at hread
  have hinj : Function.Injective fun s : String => (s.toList, rest) :=
    fun s u hsu => String.toList_injective (Prod.mk.inj hsu).1
  exact ⟨(Option.map_injective hinj hread).symm, rfl⟩

/-- Behind a key there is one place for a value. -/
theorem Key.unique {k k' : Option String} {v w : Value} {key ds ds' rest rest' : List Char}
    (h : Key key k ds) (h' : Key key k' ds') (hv : Spells (.value v) ds rest)
    (hw : Spells (.value w) ds' rest') : k = k' ∧ ds = ds' := by
  obtain ⟨ht, hc, hb⟩ := h
  obtain ⟨ht', hc', hb'⟩ := h'
  -- from the key to its colon, and from there to the value
  obtain ⟨rfl, rfl⟩ := ht.unique ht'
  obtain ⟨-, rfl⟩ := hc.unique hc' rfl rfl
  exact ⟨rfl, hb.unique_of_value hb' hv hw⟩

/-- Blanks lead to one key. -/
theorem Blanks.unique_of_key {k k' : Option String} {cs key key' ds ds' : List Char}
    (h : Blanks cs key) (h' : Blanks cs key') (hk : Key key k ds) (hk' : Key key' k' ds') :
    key = key' := by
  obtain ⟨q, rfl⟩ := hk.exists_quote
  obtain ⟨q', rfl⟩ := hk'.exists_quote
  rw [(h.unique h' rfl rfl).2]

/-! ### Values -/

/-- That no other part of the same kind stands at the same place. -/
def Part.Only : Part → List Char → Prop
  | .value v, cs => ∀ w rest, Spells (.value w) cs rest → w = v
  | .moreElements vs, cs => ∀ ws rest, Spells (.moreElements ws) cs rest → ws = vs
  | .moreMembers ms, cs => ∀ ns rest, Spells (.moreMembers ns) cs rest → ns = ms

/-- What another value at the same place starts with. -/
theorem Spells.opens_of_cons {w : Value} {c : Char} {cs rest : List Char}
    (h : Spells (.value w) (c :: cs) rest) : w.Opens c := by
  obtain ⟨d, t, heq, hd⟩ := h.exists_opens
  exact (List.cons.inj heq).1 ▸ hd

/-- No element starts with the bracket that closes an array. -/
theorem Blanks.not_value_of_bracket {v : Value} {cs ds more rest : List Char}
    (h : Blanks cs (']' :: rest)) (h' : Blanks cs ds) : ¬ Spells (.value v) ds more :=
  fun hv => (h.opens_of_value rfl h' hv).ne rfl (by decide) rfl

theorem Blanks.not_key_of_bracket {k : Option String} {cs key ds rest : List Char}
    (h : Blanks cs ('}' :: rest)) (h' : Blanks cs key) : ¬ Key key k ds := by
  intro hk
  obtain ⟨q, rfl⟩ := hk.exists_quote
  exact absurd (h.unique h' rfl rfl).1 (by decide)

/-- A value with what stands behind it, in two derivations that start at the same place: the values
end at the same place too, so that what is known of the parts of the first derivation applies to
those of the second. -/
theorem Part.Only.elements {v w : Value} {vs ws : List Value}
    {cs ds ds' more more' rest : List Char} (ihv : (Part.value v).Only ds)
    (ihm : (Part.moreElements vs).Only more) (hb : Blanks cs ds) (hv : Spells (.value v) ds more)
    (hb' : Blanks cs ds') (hv' : Spells (.value w) ds' more')
    (hm' : Spells (.moreElements ws) more' rest) : w :: ws = v :: vs := by
  obtain rfl := hb.unique_of_value hb' hv hv'
  obtain rfl := hv.rest_unique hv'
  rw [ihv _ _ hv', ihm _ _ hm']

/-- The same for a member with what stands behind it. -/
theorem Part.Only.members {k k' : Option String} {v w : Value} {ms ns : List Member}
    {cs key key' ds ds' more more' rest : List Char} (ihv : (Part.value v).Only ds)
    (ihm : (Part.moreMembers ms).Only more) (hb : Blanks cs key) (hk : Key key k ds)
    (hv : Spells (.value v) ds more) (hb' : Blanks cs key') (hk' : Key key' k' ds')
    (hv' : Spells (.value w) ds' more') (hm' : Spells (.moreMembers ns) more' rest) :
    (k', w) :: ns = (k, v) :: ms := by
  obtain rfl := hb.unique_of_key hb' hk hk'
  obtain ⟨rfl, rfl⟩ := hk.unique hk' hv hv'
  obtain rfl := hv.rest_unique hv'
  rw [ihv _ _ hv', ihm _ _ hm']

/-! One lemma for each rule that has parts: what the rule puts together is the only one of its kind
where it stands, if its parts are. The other derivation starts with the same bracket, and is by the
same rule or by the one for what is empty. -/

theorem Part.Only.text {t : Option String} {cs rest : List Char} (ht : Text cs t rest) :
    (Part.value (.text t)).Only ('"' :: cs) := by
  intro w rest' h'
  obtain ⟨t', rfl⟩ := h'.opens_of_cons.eq_text
  cases h' with
  | text ht' => rw [(ht'.unique ht).1]

theorem Part.Only.emptyArray {cs rest : List Char} (hb : Blanks cs (']' :: rest)) :
    (Part.value (.array [])).Only ('[' :: cs) := by
  intro w rest' h'
  obtain ⟨ws, rfl⟩ := h'.opens_of_cons.eq_array
  cases h' with
  | emptyArray => rfl
  | array hb' hv' => exact absurd hv' (hb.not_value_of_bracket hb')

theorem Part.Only.array {v : Value} {vs : List Value} {cs ds more : List Char}
    (ihv : (Part.value v).Only ds) (ihm : (Part.moreElements vs).Only more) (hb : Blanks cs ds)
    (hv : Spells (.value v) ds more) : (Part.value (.array (v :: vs))).Only ('[' :: cs) := by
  intro w rest' h'
  obtain ⟨ws, rfl⟩ := h'.opens_of_cons.eq_array
  cases h' with
  | emptyArray hb' => exact absurd hv (hb'.not_value_of_bracket hb)
  | array hb' hv' hm' => rw [ihv.elements ihm hb hv hb' hv' hm']

theorem Part.Only.emptyObject {cs rest : List Char} (hb : Blanks cs ('}' :: rest)) :
    (Part.value (.object [])).Only ('{' :: cs) := by
  intro w rest' h'
  obtain ⟨ns, rfl⟩ := h'.opens_of_cons.eq_object
  cases h' with
  | emptyObject => rfl
  | object hb' hk' => exact absurd hk' (hb.not_key_of_bracket hb')

theorem Part.Only.object {k : Option String} {v : Value} {ms : List Member}
    {cs key ds more : List Char} (ihv : (Part.value v).Only ds)
    (ihm : (Part.moreMembers ms).Only more) (hb : Blanks cs key) (hk : Key key k ds)
    (hv : Spells (.value v) ds more) : (Part.value (.object ((k, v) :: ms))).Only ('{' :: cs) := by
  intro w rest' h'
  obtain ⟨ns, rfl⟩ := h'.opens_of_cons.eq_object
  cases h' with
  | emptyObject hb' => exact absurd hk (hb'.not_key_of_bracket hb)
  | object hb' hk' hv' hm' => rw [ihv.members ihm hb hk hv hb' hk' hv' hm']

/-! Behind a value both derivations close, or both go on with a comma. -/

theorem Part.Only.closeArray {cs rest : List Char} (hb : Blanks cs (']' :: rest)) :
    (Part.moreElements []).Only cs := by
  intro ws rest' h'
  cases h' with
  | closeArray => rfl
  | element hb' => exact absurd (hb.unique hb' rfl rfl).1 (by decide)

theorem Part.Only.element {v : Value} {vs : List Value} {cs next ds more : List Char}
    (ihv : (Part.value v).Only ds) (ihm : (Part.moreElements vs).Only more)
    (hb : Blanks cs (',' :: next)) (hn : Blanks next ds) (hv : Spells (.value v) ds more) :
    (Part.moreElements (v :: vs)).Only cs := by
  intro ws rest' h'
  cases h' with
  | closeArray hb' => exact absurd (hb.unique hb' rfl rfl).1 (by decide)
  | element hb' hn' hv' hm' =>
    obtain ⟨-, rfl⟩ := hb.unique hb' rfl rfl
    exact ihv.elements ihm hn hv hn' hv' hm'

theorem Part.Only.closeObject {cs rest : List Char} (hb : Blanks cs ('}' :: rest)) :
    (Part.moreMembers []).Only cs := by
  intro ns rest' h'
  cases h' with
  | closeObject => rfl
  | member hb' => exact absurd (hb.unique hb' rfl rfl).1 (by decide)

theorem Part.Only.member {k : Option String} {v : Value} {ms : List Member}
    {cs next key ds more : List Char} (ihv : (Part.value v).Only ds)
    (ihm : (Part.moreMembers ms).Only more) (hb : Blanks cs (',' :: next)) (hn : Blanks next key)
    (hk : Key key k ds) (hv : Spells (.value v) ds more) :
    (Part.moreMembers ((k, v) :: ms)).Only cs := by
  intro ns rest' h'
  cases h' with
  | closeObject hb' => exact absurd (hb.unique hb' rfl rfl).1 (by decide)
  | member hb' hn' hk' hv' hm' =>
    obtain ⟨-, rfl⟩ := hb.unique hb' rfl rfl
    exact ihv.members ihm hn hk hv hn' hk' hv' hm'

/-- **Parts are the only ones where they stand**, by induction on the derivation. -/
theorem Spells.only {p : Part} {cs rest : List Char} (h : Spells p cs rest) : p.Only cs := by
  induction h with
  -- the first character of a value says of which kind every other value at its place is
  | null => exact fun w _ h' => h'.opens_of_cons.eq_null
  | true => exact fun w _ h' => h'.opens_of_cons.eq_true
  | false => exact fun w _ h' => h'.opens_of_cons.eq_false
  | number h =>
    intro w _ h'
    have hv : Spells (.value .number) _ _ := .number h
    obtain ⟨c, t, rfl, hc⟩ := hv.exists_opens
    exact h'.opens_of_cons.eq_number hc
  | text ht => exact .text ht
  | emptyArray hb => exact .emptyArray hb
  | array hb hv _ ihv ihm => exact ihv.array ihm hb hv
  | emptyObject hb => exact .emptyObject hb
  | object hb hk hv _ ihv ihm => exact ihv.object ihm hb hk hv
  -- a bracket or a comma says the same of what stands behind a value
  | closeArray hb => exact .closeArray hb
  | element hb hn hv _ ihv ihm => exact ihv.element ihm hb hn hv
  | closeObject hb => exact .closeObject hb
  | member hb hn hk hv _ ihv ihm => exact ihv.member ihm hb hn hk hv

/-- **A text writes down one value.** -/
theorem Document.unique {cs : List Char} {v w : Value} (h : Document cs v) (h' : Document cs w) :
    v = w := by
  obtain ⟨hb, hv, -⟩ := h
  obtain ⟨hb', hw, -⟩ := h'
  obtain rfl := hb.unique_of_value hb' hv hw
  exact (hv.only _ _ hw).symm

end Grammar

end PathFilter.Json
