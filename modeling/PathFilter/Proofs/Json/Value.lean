import PathFilter.Json.Value
import PathFilter.Proofs.Json.Skip

/-!
# What values are read as

A reader is wanted for a purpose, and a value of the grammar either serves that purpose or does
not. What it serves as is a function of the value alone (`Value.asBoolean`, `Value.asText`, …), so
the spelling of the value, the blanks before it and whatever stands behind it make no difference.

`Reader.Interprets` is the law that ties a reader to such a function. It holds of the readers of
flags and operands and is kept by what readers are built with (`Reader.Interprets.map`,
`Reader.Interprets.orNull`), so nothing further on looks into a reader again.
-/

namespace PathFilter.Json

open Grammar (Blanks Part Spells)

/-! ### What values serve as -/

namespace Value

/-- A truth value serves as a flag. -/
def asBoolean : Value → Option Bool
  | .boolean b => some b
  | _ => none

/-- A text serves as the one that it denotes, if it denotes one. -/
def asText : Value → Option String
  | .text t => t
  | _ => none

/-- An array serves as a list of texts if each of its elements serves as a text. -/
def asTexts : Value → Option (List String)
  | .array vs => vs.mapM asText
  | _ => none

/-- `null` serves as nothing, and any other value as what it serves as elsewhere. -/
def orNull {α : Type} (μ : Value → Option α) : Value → Option (Option α)
  | .null => some none
  | v => (μ v).map some

theorem asText_eq_some_iff {v : Value} {s : String} : v.asText = some s ↔ v = .text (some s) := by
  cases v <;> simp [asText]

/-- A list of values serves as a list of texts if its first value serves as a text and the others
serve as a list of texts. -/
theorem mapM_asText_cons (v : Value) (vs : List Value) :
    (v :: vs).mapM asText = v.asText.bind fun s => (vs.mapM asText).map (s :: ·) := by
  rw [List.mapM_cons]
  cases v.asText <;> cases vs.mapM asText <;> rfl

/-- The values that serve as given texts are just those texts. -/
theorem mapM_asText_eq_some_iff {vs : List Value} {ss : List String} :
    vs.mapM asText = some ss ↔ vs = ss.map fun s => .text (some s) := by
  -- along the values, for any texts
  induction vs generalizing ss with
  | nil => cases ss <;> simp
  | cons v vs ih =>
    simp only [mapM_asText_cons, Option.bind_eq_some_iff, Option.map_eq_some_iff,
      asText_eq_some_iff, ih]
    constructor
    · rintro ⟨s, rfl, ss, rfl, rfl⟩
      rfl
    · intro h
      obtain ⟨s, ss', rfl, hs, hss⟩ := List.map_eq_cons_iff.mp h.symm
      exact ⟨s, hs.symm, ss', hss.symm, rfl⟩

/-- Serving as something or as nothing, told apart by the value. -/
theorem orNull_eq_some_iff {α : Type} {μ : Value → Option α} {v : Value} {o : Option α} :
    v.orNull μ = some o ↔ v = .null ∧ o = none ∨ v ≠ .null ∧ ∃ a, μ v = some a ∧ some a = o := by
  cases v with
  | null => simp [orNull, eq_comm]
  | _ => simp [orNull]

end Value

/-! ### The law of a reader -/

theorem toOption_map {α β : Type} (f : α → β) (x : Except Fault α) :
    (x.map f).toOption = x.toOption.map f := by
  cases x <;> rfl

theorem toOption_bind {α β : Type} (x : Except Fault α) (f : α → Except Fault β) :
    (x >>= f).toOption = x.toOption.bind fun a => (f a).toOption := by
  cases x <;> rfl

/-- A result is there exactly where no fault is. -/
theorem toOption_eq_some_iff {α : Type} {x : Except Fault α} {a : α} :
    x.toOption = some a ↔ x = .ok a := by
  cases x with
  | error f => simp [Except.toOption]
  | ok b => simp [Except.toOption]

/-- **The law.** The reader reads the values that serve its purpose, as what they serve as, and
nothing else. -/
structure Reader.Interprets {α : Type} (r : Reader α) (μ : Value → Option α) : Prop where
  toOption_run : ∀ {cs ds rest : List Char} {v : Value}, Blanks cs ds →
    Spells (.value v) ds rest → (r.run cs).toOption = (μ v).map (·, rest)
  exists_value : ∀ {cs rest : List Char} {a : α}, r.run cs = .ok (a, rest) →
    ∃ ds v, Blanks cs ds ∧ Spells (.value v) ds rest

namespace Reader.Interprets

variable {α β : Type} {r : Reader α} {μ : Value → Option α}

/-- What a reader makes of a value may be changed afterwards. -/
theorem map (h : r.Interprets μ) (f : α → β) : (r.map f).Interprets fun v => (μ v).map f where
  toOption_run {cs ds rest v} hb hv := by
    -- only the result is touched, so the place that is left stays what the law says
    change ((r.run cs).map _).toOption = _
    rw [toOption_map, h.toOption_run hb hv, Option.map_map, Option.map_map]
    rfl
  exists_value hr := by
    obtain ⟨⟨a, rest⟩, hread, heq⟩ := map_eq_ok hr
    obtain ⟨-, rfl⟩ := Prod.mk.inj heq
    exact h.exists_value hread

end Reader.Interprets

/-! ### What a first letter tells -/

namespace Value.Opens

variable {v : Value}

/-- An `n` tells that the value is `null`. -/
theorem eq_null (h : v.Opens 'n') : v = .null := by
  -- each other value starts with another character
  cases v with
  | null => rfl
  | boolean b => cases b <;> simp [Opens] at h
  | _ => simp [Opens] at h

theorem eq_true (h : v.Opens 't') : v = .boolean true := by
  cases v with
  | boolean b => cases b <;> [simp [Opens] at h; rfl]
  | _ => simp [Opens] at h

theorem eq_false (h : v.Opens 'f') : v = .boolean false := by
  cases v with
  | boolean b => cases b <;> [rfl; simp [Opens] at h]
  | _ => simp [Opens] at h

theorem eq_number {c : Char} (h : v.Opens c) (hc : Value.number.Opens c) : v = .number := by
  cases v with
  | number => rfl
  | boolean b => cases b <;> (subst h; simp [Opens] at hc)
  | _ => subst h; simp [Opens] at hc

/-- A quote tells that the value is a text. -/
theorem eq_text (h : v.Opens '"') : ∃ t, v = .text t := by
  cases v with
  | text t => exact ⟨t, rfl⟩
  | boolean b => cases b <;> simp [Opens] at h
  | _ => simp [Opens] at h

theorem eq_array (h : v.Opens '[') : ∃ vs, v = .array vs := by
  cases v with
  | array vs => exact ⟨vs, rfl⟩
  | boolean b => cases b <;> simp [Opens] at h
  | _ => simp [Opens] at h

theorem eq_object (h : v.Opens '{') : ∃ ms, v = .object ms := by
  cases v with
  | object ms => exact ⟨ms, rfl⟩
  | boolean b => cases b <;> simp [Opens] at h
  | _ => simp [Opens] at h

end Value.Opens

/-! ### Words -/

/-- Where a word is read, it stands. -/
theorem eq_append_of_map_word {α : Type} {a b : α} {w cs rest : List Char}
    (h : ((readWord w cs).map fun more => (a, more)) = .ok (b, rest)) : cs = w ++ rest := by
  obtain ⟨more, hw, heq⟩ := map_eq_ok h
  obtain ⟨-, rfl⟩ := Prod.mk.inj heq
  exact readWord_eq_ok_iff.mp hw

theorem toOption_map_word {α : Type} (a : α) (w rest : List Char) :
    ((readWord w (w ++ rest)).map fun more => (a, more)).toOption = some (a, rest) := by
  rw [readWord_eq_ok_iff.mpr rfl]
  rfl

/-! ### Values or `null` -/

section OrNull

variable {α : Type} {r : Reader α} {μ : Value → Option α}

/-- Behind an `n` only the rest of the word is looked for. -/
theorem run_orNull_of_n {cs t : List Char} (h : skipBlanks cs = 'n' :: t) :
    r.orNull.run cs = (readWord ['u', 'l', 'l'] t).map fun rest => (none, rest) := by
  simp only [Reader.orNull, h]

theorem run_orNull_of_ne {cs : List Char} (h : ∀ t, skipBlanks cs ≠ 'n' :: t) :
    r.orNull.run cs = (r.run (skipBlanks cs)).map fun (a, rest) => (some a, rest) := by
  simp only [Reader.orNull]

/-- The law is kept when `null` is allowed besides. -/
theorem Reader.Interprets.orNull (h : r.Interprets μ) :
    r.orNull.Interprets (Value.orNull μ) where
  toOption_run {cs ds rest v} hb hv := by
    have hds := skipBlanks_of_value hb hv
    obtain ⟨c, t, rfl, hc⟩ := hv.exists_opens
    by_cases hn : c = 'n'
    · -- the word itself
      subst hn
      obtain rfl := hc.eq_null
      cases hv
      rw [run_orNull_of_n hds]
      exact toOption_map_word none ['u', 'l', 'l'] rest
    · -- no other value starts with its first letter
      have hne : ∀ t, skipBlanks cs ≠ 'n' :: t := by
        intro t ht
        exact hn (List.cons.inj (hds.symm.trans ht)).1
      have hmeaning : Value.orNull μ v = (μ v).map some := by
        cases v with
        | null => exact absurd hc hn
        | _ => rfl
      rw [run_orNull_of_ne hne, hds, toOption_map, h.toOption_run (.none _) hv, hmeaning,
        Option.map_map, Option.map_map]
      rfl
  exists_value {cs rest a} hr := by
    -- the letter alone decides which of the two was read
    by_cases hn : ∃ t, skipBlanks cs = 'n' :: t
    · obtain ⟨t, ht⟩ := hn
      rw [run_orNull_of_n ht] at hr
      exact ⟨'n' :: t, .null, blanks_of_skipBlanks ht, eq_append_of_map_word hr ▸ .null rest⟩
    · rw [run_orNull_of_ne (not_exists.mp hn)] at hr
      obtain ⟨⟨b, u⟩, hread, heq⟩ := map_eq_ok hr
      obtain ⟨-, rfl⟩ := Prod.mk.inj heq
      obtain ⟨ds, v, hb, hv⟩ := h.exists_value hread
      exact ⟨ds, v, (blanks_skipBlanks cs).trans hb, hv⟩

end OrNull

/-! ### Readers that go by the first letter -/

/-- A reader that passes over blanks and then goes by the first character of the value. What is
left to be shown of it does not speak of blanks any more. -/
theorem Reader.interprets_of_head {α : Type} {r : Reader α} {μ : Value → Option α}
    {body : Char → List Char → Except Fault (α × List Char)}
    (hrun : ∀ cs, r.run cs =
      match skipBlanks cs with
      | [] => .error (.past [] .endInValue)
      | c :: t => body c t)
    (hreads : ∀ {v : Value} {c : Char} {t rest : List Char}, v.Opens c →
      Spells (.value v) (c :: t) rest → (body c t).toOption = (μ v).map (·, rest))
    (hsound : ∀ {c : Char} {t rest : List Char} {a : α}, body c t = .ok (a, rest) →
      ∃ v, Spells (.value v) (c :: t) rest) : r.Interprets μ where
  toOption_run hb hv := by
    have hds := skipBlanks_of_value hb hv
    obtain ⟨c, t, rfl, hc⟩ := hv.exists_opens
    rw [hrun, hds]
    exact hreads hc hv
  exists_value {cs rest a} h := by
    rw [hrun] at h
    split at h
    · contradiction
    · next c t ht =>
      -- the reader looks at the first character that is no blank, so the blanks before the value
      -- are the ones that were passed over
      obtain ⟨v, hv⟩ := hsound h
      exact ⟨c :: t, v, blanks_of_skipBlanks ht, hv⟩

/-- **Flags** are read from truth values. -/
theorem Reader.interprets_boolean : Reader.boolean.Interprets Value.asBoolean := by
  refine Reader.interprets_of_head (fun _ => rfl) (fun {v c t rest} hc hv => ?_)
    (fun {c t rest a} h => ?_)
  · split
    · next ht =>
      subst ht
      obtain rfl := hc.eq_true
      cases hv
      exact toOption_map_word true ['r', 'u', 'e'] rest
    · next ht =>
      split
      · next hf =>
        subst hf
        obtain rfl := hc.eq_false
        cases hv
        exact toOption_map_word false ['a', 'l', 's', 'e'] rest
      · next hf =>
        -- a value with another first letter is no truth value
        cases v with
        | boolean b => cases b <;> [exact absurd hc hf; exact absurd hc ht]
        | _ => rfl
  -- the word that was read says which truth value stands there
  · split at h
    · next hc => exact ⟨.boolean true, hc ▸ eq_append_of_map_word h ▸ .true rest⟩
    · split at h
      · next hc => exact ⟨.boolean false, hc ▸ eq_append_of_map_word h ▸ .false rest⟩
      · contradiction

/-- **Single operands** are read from texts that denote. -/
theorem Reader.interprets_string : Reader.string.Interprets Value.asText := by
  refine Reader.interprets_of_head (fun _ => rfl) (fun {v c t rest} hc hv => ?_)
    (fun {c t rest a} h => ?_)
  · split
    · next hq =>
      subst hq
      obtain ⟨s, rfl⟩ := hc.eq_text
      cases hv with
      | text ht =>
        rw [toOption_map, ht.toOption_readText, Option.map_map]
        simp [Function.comp_def, Value.asText]
    · next hq =>
      -- a value with another first letter is no text
      cases v with
      | text => exact absurd hc hq
      | _ => rfl
  -- what stands behind the quote denotes, since it was read
  · split at h
    · next hc =>
      subst hc
      obtain ⟨⟨s, u⟩, hread, heq⟩ := map_eq_ok h
      obtain ⟨-, rfl⟩ := Prod.mk.inj heq
      have ht : Grammar.Text t (some (String.ofList s)) u := .some (readText_eq_ok_iff.mp hread)
      exact ⟨_, .text ht⟩
    · contradiction

/-! ### Elements of an array -/

/-- The elements of an array from some place on, with its closing bracket: all of them behind the
opening bracket, or those that follow another element. -/
def Grammar.Elements : Bool → List Value → List Char → List Char → Prop
  | true, vs, cs, rest => Spells (.value (.array vs)) ('[' :: cs) rest
  | false, vs, cs, rest => Spells (.moreElements vs) cs rest

open Grammar (Elements)

section Elements

variable {first : Bool} {v : Value} {vs : List Value} {cs ds e more rest : List Char}

/-- No element is left where the bracket stands. -/
theorem elements_nil_iff : Elements first [] cs rest ↔ Blanks cs (']' :: rest) := by
  cases first with
  | true =>
    refine ⟨fun h => ?_, .emptyArray⟩
    cases h with
    | emptyArray hb => exact hb
  | false =>
    refine ⟨fun h => ?_, .closeArray⟩
    cases h with
    | closeArray hb => exact hb

/-- The loop over elements ends where the bracket stands. -/
theorem nextElement_eq_close_iff :
    nextElement first cs = .ok (.close rest) ↔ Blanks cs (']' :: rest) := by
  constructor
  · intro h
    -- every other branch of the loop ends in an element or in a fault
    unfold nextElement at h
    split at h
    · contradiction
    · next c t ht =>
      split at h
      · next hc =>
        obtain rfl : t = rest := Next.close.inj (Except.ok.inj h)
        exact hc ▸ blanks_of_skipBlanks ht
      split at h
      · cases h
      split at h
      · split at h
        · contradiction
        · split at h
          · contradiction
          · cases h
      · contradiction
  · intro h
    -- the bracket is asked for first
    rw [nextElement, skipBlanks_of_blanks_cons h rfl]
    rfl

/-- So does an array whose elements have all been taken. -/
theorem closeArray_eq_ok_iff : closeArray cs = .ok rest ↔ Blanks cs (']' :: rest) := by
  constructor
  · intro h
    unfold closeArray at h
    -- a comma is told apart from other characters, but only the bracket succeeds
    split at h
    · contradiction
    · next c t ht =>
      split at h
      · next hc => exact Except.ok.inj h ▸ hc ▸ blanks_of_skipBlanks ht
      split at h
      · split at h <;> contradiction
      · contradiction
  · intro h
    rw [closeArray, skipBlanks_of_blanks_cons h rfl]
    rfl

theorem nextElement_of_comma {next m : List Char} {d : Char} (hb : Blanks cs (',' :: next))
    (hn : skipBlanks next = d :: m) (hd : d ≠ ']') :
    nextElement false cs = .ok (.part (d :: m)) := by
  rw [nextElement, skipBlanks_of_blanks_cons hb rfl]
  simp [hn, hd]

/-- An element is found where there is one. -/
theorem Grammar.Elements.nextElement_eq_part (h : Elements first (v :: vs) cs rest) :
    ∃ e more, nextElement first cs = .ok (.part e) ∧ Spells (.value v) e more ∧
      Elements false vs more rest := by
  cases first with
  | true =>
    cases h with
    | @array _ _ _ ds more _ hb hv hm =>
      refine ⟨ds, more, ?_, hv, hm⟩
      obtain ⟨c, t, rfl, hc⟩ := hv.exists_opens
      rw [nextElement, skipBlanks_of_value hb hv]
      change (if c = ']' then _ else _) = _
      -- an element does not start with the bracket that would close the array
      rw [if_neg (hc.ne (by decide) (by decide))]
      rfl
  | false =>
    cases h with
    | @element _ _ _ next ds more _ hb hn hv hm =>
      refine ⟨ds, more, ?_, hv, hm⟩
      obtain ⟨c, t, rfl, hc⟩ := hv.exists_opens
      have hbracket : c ≠ ']' := hc.ne (by decide) (by decide)
      exact nextElement_of_comma hb (skipBlanks_of_value hn hv) hbracket

/-- Where an element is found and the rest is that of an array, there was that array. -/
theorem elements_of_part (h : nextElement first cs = .ok (.part e)) (hb : Blanks e ds)
    (hv : Spells (.value v) ds more) (hm : Elements false vs more rest) :
    Elements first (v :: vs) cs rest := by
  unfold nextElement at h
  -- the bracket, a first element, or a comma
  split at h
  · contradiction
  · next c t ht =>
    have hc := blanks_of_skipBlanks ht
    split at h
    · cases h
    split at h
    · next hfirst =>
      subst hfirst
      obtain rfl : c :: t = e := Next.part.inj (Except.ok.inj h)
      exact .array (hc.trans hb) hv hm
    · next hfirst =>
      obtain rfl : first = false := by simpa using hfirst
      split at h
      · -- behind the comma an element has to follow
        next hcomma =>
        split at h
        · contradiction
        · next d m hd =>
          split at h
          · contradiction
          · obtain rfl : d :: m = e := Next.part.inj (Except.ok.inj h)
            exact .element (hcomma ▸ hc) ((blanks_of_skipBlanks hd).trans hb) hv hm
      · contradiction

end Elements

/-! ### Lists of texts -/

/-- One turn of the loop takes one text and leaves the others to the next turns. -/
theorem toOption_readElements_of_part {first : Bool} {cs e : List Char}
    (h : nextElement first cs = .ok (.part e)) :
    (readElements first cs).toOption = (readString e).toOption.bind fun (s, more) =>
      (readElements false more).toOption.map fun (ss, rest) => (s :: ss, rest) := by
  cases hs : readString e with
  | ok p =>
    rw [readElements_of_part h hs, toOption_map]
    rfl
  | error f =>
    -- a string that is not read ends the loop with its own fault
    have hrun : readElements first cs = .error f := by
      rw [readElements]
      split
      · next f' hf => rw [h] at hf; contradiction
      · next t ht => rw [h] at ht; cases ht
      · next e' he =>
        obtain rfl : e' = e := Next.part.inj (Except.ok.inj (he.symm.trans h))
        split
        · next f' hf => rw [Except.error.inj (hf.symm.trans hs)]
        · next s more hread => rw [hs] at hread; contradiction
    rw [hrun]
    rfl

/-- The texts of an array, by induction on its elements. -/
theorem toOption_readElements {first : Bool} {vs : List Value} {cs rest : List Char}
    (h : Elements first vs cs rest) :
    (readElements first cs).toOption = (vs.mapM Value.asText).map (·, rest) := by
  induction vs generalizing first cs with
  | nil =>
    rw [elements_nil_iff] at h
    rw [readElements_of_close (nextElement_eq_close_iff.mpr h)]
    rfl
  | cons v vs ih =>
    obtain ⟨e, more, he, hv, hm⟩ := h.nextElement_eq_part
    have hrun : (readString e).toOption = v.asText.map (·, more) :=
      Reader.interprets_string.toOption_run (.none e) hv
    -- an element that is no text ends both sides with nothing
    rw [toOption_readElements_of_part he, hrun, Value.mapM_asText_cons]
    cases v.asText with
    | none => rfl
    | some s =>
      change (readElements false more).toOption.map _ = ((vs.mapM Value.asText).map _).map _
      rw [ih hm, Option.map_map, Option.map_map]
      rfl

/-- What is read as a list of texts is an array. -/
theorem exists_elements_of_readElements {first : Bool} {cs rest : List Char} {ss : List String}
    (h : readElements first cs = .ok (ss, rest)) : ∃ vs, Elements first vs cs rest := by
  fun_induction readElements first cs generalizing ss with
  | case1 => contradiction
  | case2 first cs r hn =>
    obtain ⟨-, rfl⟩ := Prod.mk.inj (Except.ok.inj h)
    exact ⟨[], elements_nil_iff.mpr (nextElement_eq_close_iff.mp hn)⟩
  | case3 => contradiction
  | case4 => contradiction
  -- a turn of the loop: the element that it found, and the array that the later turns have found
  | case5 first cs e hn s more hs ss' r hr ih =>
    obtain ⟨-, rfl⟩ := Prod.mk.inj (Except.ok.inj h)
    obtain ⟨ds, v, hb, hv⟩ := Reader.interprets_string.exists_value hs
    obtain ⟨vs, hm⟩ := ih hr
    exact ⟨v :: vs, elements_of_part hn hb hv hm⟩

/-- **Lists of operands** are read from arrays of texts that denote. -/
theorem Reader.interprets_strings : Reader.strings.Interprets Value.asTexts := by
  -- by the bracket: an array is read by the loop, and no other value serves
  refine Reader.interprets_of_head (fun _ => rfl) (fun {v c t rest} hc hv => ?_)
    (fun {c t rest a} h => ?_)
  · split
    · next ho =>
      subst ho
      obtain ⟨vs, rfl⟩ := hc.eq_array
      exact toOption_readElements hv
    · next ho =>
      cases v with
      | array => exact absurd hc ho
      | _ => rfl
  -- the elements that the loop has gone through make up the array
  · split at h
    · next hc =>
      obtain ⟨vs, hvs⟩ := exists_elements_of_readElements h
      exact ⟨.array vs, hc ▸ hvs⟩
    · contradiction

end PathFilter.Json
