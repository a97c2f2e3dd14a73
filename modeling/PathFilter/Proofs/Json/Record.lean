import PathFilter.Json.Record
import PathFilter.Proofs.Json.Value

/-!
# What records are read as

A record is read as what its members or its elements make of it, and nothing else is read as a
record (`Record.Layout.interprets_reader`). This needs of the fields that each of them has a law of
its own, which is a part of what a `Record.Layout` says.

* `Grammar.Members` and `Grammar.Elements` are what a loop over members or elements has before it;
  one turn of it takes one of them off.
* `Record.Layout.ofMembers?` and `Record.Layout.ofElements?` do to the values what the loops do to
  the text (`Record.Layout.toOption_readMembers`, `Record.Layout.toOption_readElements`).
-/

namespace PathFilter.Json

open Grammar (Blanks Key Part Spells Elements)

/-! ### Members of an object -/

/-- The members of an object from some place on, with its closing bracket: all of them behind the
opening bracket, or those that follow another member. -/
def Grammar.Members : Bool → List Member → List Char → List Char → Prop
  | true, ms, cs, rest => Spells (.value (.object ms)) ('{' :: cs) rest
  | false, ms, cs, rest => Spells (.moreMembers ms) cs rest

open Grammar (Members)

section Members

variable {first : Bool} {k : Option String} {v : Value} {ms : List Member}
  {cs ds q more rest : List Char}

/-- No member is left where the bracket stands. -/
theorem members_nil_iff : Members first [] cs rest ↔ Blanks cs ('}' :: rest) := by
  cases first with
  | true =>
    refine ⟨fun h => ?_, .emptyObject⟩
    cases h with
    | emptyObject hb => exact hb
  | false =>
    refine ⟨fun h => ?_, .closeObject⟩
    cases h with
    | closeObject hb => exact hb

/-- The loop over members ends where the bracket stands. -/
theorem nextMember_eq_close_iff :
    nextMember first cs = .ok (.close rest) ↔ Blanks cs ('}' :: rest) := by
  constructor
  · intro h
    -- every other branch of the loop ends in a key or in a fault
    unfold nextMember at h
    split at h
    · contradiction
    · next c t ht =>
      split at h
      · next hc =>
        obtain rfl : t = rest := Next.close.inj (Except.ok.inj h)
        exact hc ▸ blanks_of_skipBlanks ht
      split at h
      · split at h
        · cases h
        · contradiction
      split at h
      · split at h
        · contradiction
        · split at h
          · cases h
          · split at h <;> contradiction
      · contradiction
  · intro h
    -- the bracket is asked for before anything else
    rw [nextMember, skipBlanks_of_blanks_cons h rfl]
    rfl

theorem nextMember_of_comma {next : List Char} (hb : Blanks cs (',' :: next))
    (hn : Blanks next ('"' :: q)) : nextMember false cs = .ok (.part q) := by
  rw [nextMember, skipBlanks_of_blanks_cons hb rfl]
  simp [skipBlanks_of_blanks_cons hn rfl]

/-- A member is found where there is one. -/
theorem Grammar.Members.nextMember_eq_part (h : Members first ((k, v) :: ms) cs rest) :
    ∃ q ds more, nextMember first cs = .ok (.part q) ∧ Key ('"' :: q) k ds ∧
      Spells (.value v) ds more ∧ Members false ms more rest := by
  -- the two rules for a member, with a comma before it and without
  cases first with
  | true =>
    cases h with
    | @object _ _ _ _ key ds more _ hb hk hv hm =>
      obtain ⟨q, rfl⟩ := hk.exists_quote
      refine ⟨q, ds, more, ?_, hk, hv, hm⟩
      rw [nextMember, skipBlanks_of_blanks_cons hb rfl]
      rfl
  | false =>
    cases h with
    | @member _ _ _ _ next key ds more _ hb hn hk hv hm =>
      obtain ⟨q, rfl⟩ := hk.exists_quote
      exact ⟨q, ds, more, nextMember_of_comma hb hn, hk, hv, hm⟩

/-- Where a member is found and the rest is that of an object, there was that object. -/
theorem members_of_part (h : nextMember first cs = .ok (.part q)) (hk : Key ('"' :: q) k ds)
    (hv : Spells (.value v) ds more) (hm : Members false ms more rest) :
    Members first ((k, v) :: ms) cs rest := by
  unfold nextMember at h
  split at h
  · contradiction
  · next c t ht =>
    -- the first member follows the bracket, any other a comma; the key was found in either case
    have hc := blanks_of_skipBlanks ht
    split at h
    · cases h
    split at h
    · next hfirst =>
      subst hfirst
      split at h
      · next hquote =>
        obtain rfl : t = q := Next.part.inj (Except.ok.inj h)
        exact .object (hquote ▸ hc) hk hv hm
      · contradiction
    · next hfirst =>
      obtain rfl : first = false := by simpa using hfirst
      split at h
      · -- behind the comma a key has to follow
        next hcomma =>
        split at h
        · contradiction
        · next d m hd =>
          split at h
          · next hquote =>
            obtain rfl : m = q := Next.part.inj (Except.ok.inj h)
            exact .member (hcomma ▸ hc) (hquote ▸ blanks_of_skipBlanks hd) hk hv hm
          · split at h <;> contradiction
      · contradiction

end Members

/-! ### One turn of the loop -/

section Turn

variable {φ σ : Type} {r : Record φ σ}

theorem Record.readMember_field {x : φ} {after value : List Char}
    (h : skipColon after = .ok value) : r.readMember (some x) after = (r.field x).run value := by
  rw [Record.readMember, h]

/-- The value of a member that is no field is passed over, whatever it is. -/
theorem Record.readMember_other {after value ds rest : List Char} {v : Value}
    (h : skipColon after = .ok value) (hb : Blanks value ds) (hv : Spells (.value v) ds rest) :
    r.readMember none after = .ok (id, rest) := by
  rw [Record.readMember, h]
  change (skipValue value).map _ = _
  rw [skipValue_eq_ok_iff.mpr ⟨ds, v, hb, hv⟩]
  rfl

/-- One turn of the loop: the key, the repetition, the value, and the turns behind it. Which fault
ends a turn is forgotten here. -/
theorem Record.toOption_readMembers_of_part [DecidableEq φ] {first : Bool} {seen : List φ} {a : σ}
    {cs q : List Char} (hn : nextMember first cs = .ok (.part q)) :
    (r.readMembers first seen a cs).toOption =
      (readText q).toOption.bind fun (key, after) =>
        if (r.field? (String.ofList key)).any (· ∈ seen) then none
        else
          (r.readMember (r.field? (String.ofList key)) after).toOption.bind fun (u, rest) =>
            (r.readMembers false ((r.field? (String.ofList key)).toList ++ seen) (u a)
              rest).toOption := by
  -- the loop looks for the next member first, and that look is known
  rw [Record.readMembers]
  split
  · next f hf => rw [hn] at hf; contradiction
  · next t ht => rw [hn] at ht; cases ht
  · next q' hq =>
    obtain rfl : q' = q := Next.part.inj (Except.ok.inj (hq.symm.trans hn))
    split
    -- then the key, and whether its field was seen
    · next f hk => rw [hk]; rfl
    · next key after hk =>
      rw [hk]
      change (if _ then _ else _ : Except Fault _).toOption = if _ then _ else _
      split
      · rfl
      · split
        · next f hm => rw [hm]; rfl
        · next u rest hm => rw [hm]; rfl

end Turn

/-! ### How a record is made up -/

/-- **How a record is made up of the values of its fields**, each of a type of its own. Giving a
field its value leaves the other fields as they are. -/
structure Record.Layout {φ σ : Type} (r : Record φ σ) (β : φ → Type) where
  /-- What a value gives to a field, if it may stand there. -/
  given : (x : φ) → Value → Option (β x)
  get : (x : φ) → σ → β x
  put : (x : φ) → β x → σ → σ
  get_put_self : ∀ x b a, get x (put x b a) = b
  get_put_of_ne : ∀ {x y}, x ≠ y → ∀ b a, get y (put x b a) = get y a
  /-- Nothing but its fields makes up a record. -/
  ext : ∀ {a b : σ}, (∀ x, get x a = get x b) → a = b
  /-- The fields can have any values together. -/
  exists_of_fields : ∀ f : (x : φ) → β x, ∃ a, ∀ x, get x a = f x
  mem_fields : ∀ x, x ∈ r.fields
  key_injective : ∀ {x y}, r.key x = r.key y → x = y
  interprets : ∀ x, (r.field x).Interprets fun v => (given x v).map (put x)

namespace Record.Layout

variable {φ σ : Type} {r : Record φ σ} {β : φ → Type} (ℓ : r.Layout β)

/-! ### From the text to the elements -/

/-- What elements make of a record if they are those of the given fields. Fields at the end may be
left out. -/
def ofElements? (a : σ) : List φ → List Value → Option σ
  | _, [] => some a
  | [], _ :: _ => none
  | x :: xs, v :: vs => (ℓ.given x v).bind fun b => ofElements? (ℓ.put x b a) xs vs

omit ℓ in
/-- Where an element stands, an array does not close. -/
theorem toOption_closeArray_of_part {first : Bool} {cs e : List Char}
    (h : nextElement first cs = .ok (.part e)) : (closeArray cs).toOption = none := by
  rw [Option.eq_none_iff_forall_ne_some]
  intro t ht
  rw [toOption_eq_some_iff, closeArray_eq_ok_iff, ← nextElement_eq_close_iff, h] at ht
  cases ht

/-- One turn of the loop gives the element at hand to the first field that is left, and the other
elements to the other fields. -/
theorem toOption_readElements_cons {first : Bool} {a : σ} {x : φ} {xs : List φ} {v : Value}
    {cs e more : List Char} (he : nextElement first cs = .ok (.part e))
    (hv : Spells (.value v) e more) :
    (r.readElements first a (x :: xs) cs).toOption =
      (ℓ.given x v).bind fun b => (r.readElements false (ℓ.put x b a) xs more).toOption := by
  have hrun := (ℓ.interprets x).toOption_run (.none e) hv
  rw [Record.readElements, he]
  cases hg : ℓ.given x v with
  | none =>
    -- a value that the field cannot take, which its reader refuses as well
    rw [hg] at hrun
    cases hx : (r.field x).run e with
    | error f => simp [hx, Except.toOption]
    | ok p => rw [hx] at hrun; contradiction
  | some b =>
    rw [hg, Option.map_some, Option.map_some, toOption_eq_some_iff] at hrun
    simp only [hrun]
    rfl

/-- **The elements of an array**, by induction on the fields that are left. -/
theorem toOption_readElements {first : Bool} {a : σ} {xs : List φ} {vs : List Value}
    {cs rest : List Char} (h : Elements first vs cs rest) :
    (r.readElements first a xs cs).toOption = (ℓ.ofElements? a xs vs).map (·, rest) := by
  induction xs generalizing first a vs cs with
  | nil =>
    rw [Record.readElements, toOption_map]
    cases vs with
    | nil =>
      rw [elements_nil_iff] at h
      rw [closeArray_eq_ok_iff.mpr h]
      rfl
    | cons v vs =>
      -- an element stands where only the bracket may
      obtain ⟨e, more, he, -, -⟩ := h.nextElement_eq_part
      rw [toOption_closeArray_of_part he]
      rfl
  | cons x xs ih =>
    cases vs with
    | nil =>
      rw [elements_nil_iff] at h
      rw [Record.readElements, nextElement_eq_close_iff.mpr h]
      rfl
    | cons v vs =>
      obtain ⟨e, more, he, hv, hm⟩ := h.nextElement_eq_part
      -- the element at hand goes to the first field, and the others to the fields behind it
      rw [ℓ.toOption_readElements_cons he hv, ofElements?, Option.map_bind]
      exact Option.bind_congr fun b _ => ih hm

include ℓ in
/-- What is read element by element is an array. -/
theorem exists_elements_of_readElements {first : Bool} {a b : σ} {xs : List φ}
    {cs rest : List Char} (h : r.readElements first a xs cs = .ok (b, rest)) :
    ∃ vs, Elements first vs cs rest := by
  -- along the fields, since each element is read as the value of one
  induction xs generalizing first a cs with
  | nil =>
    rw [Record.readElements] at h
    obtain ⟨t, hc, heq⟩ := map_eq_ok h
    obtain ⟨-, rfl⟩ := Prod.mk.inj heq
    exact ⟨[], elements_nil_iff.mpr (closeArray_eq_ok_iff.mp hc)⟩
  | cons x xs ih =>
    rw [Record.readElements] at h
    split at h
    · contradiction
    · next t hn =>
      obtain ⟨-, rfl⟩ := Prod.mk.inj (Except.ok.inj h)
      -- the array ends before its fields do
      exact ⟨[], elements_nil_iff.mpr (nextElement_eq_close_iff.mp hn)⟩
    · next e hn =>
      split at h
      · contradiction
      · next u t hr =>
        obtain ⟨vs, hvs⟩ := ih h
        obtain ⟨ds, v, hb, hv⟩ := (ℓ.interprets x).exists_value hr
        exact ⟨v :: vs, elements_of_part hn hb hv hvs⟩

/-! ### From the text to the members -/

include ℓ in
/-- A member that is read has a colon and a value behind its key. -/
theorem exists_value_of_readMember {x : Option φ} {u : σ → σ} {after rest : List Char}
    (h : r.readMember x after = .ok (u, rest)) :
    ∃ value ds v, Blanks after (':' :: value) ∧ Blanks value ds ∧ Spells (.value v) ds rest := by
  unfold Record.readMember at h
  split at h
  · contradiction
  · next value hc =>
    rw [skipColon_eq_ok_iff] at hc
    split at h
    · -- the value of a field is read, that of another key is passed over
      next x =>
      obtain ⟨ds, v, hb, hv⟩ := (ℓ.interprets x).exists_value h
      exact ⟨value, ds, v, hc, hb, hv⟩
    · obtain ⟨t, hs, heq⟩ := map_eq_ok h
      obtain ⟨-, rfl⟩ := Prod.mk.inj heq
      obtain ⟨ds, v, hb, hv⟩ := skipValue_eq_ok_iff.mp hs
      exact ⟨value, ds, v, hc, hb, hv⟩

variable [DecidableEq φ]

/-- What members make of a record, with the fields in `seen` behind them. A key that denotes
nothing makes nothing of it, and neither does a field that was seen before. -/
def ofMembers? (seen : List φ) (a : σ) : List Member → Option σ
  | [] => some a
  | (none, _) :: _ => none
  | (some key, v) :: ms =>
    match r.field? key with
    | none => ofMembers? seen a ms
    | some x =>
      if x ∈ seen then none
      else (ℓ.given x v).bind fun b => ofMembers? (x :: seen) (ℓ.put x b a) ms

/-- **The members of an object**, by induction on them. -/
theorem toOption_readMembers {first : Bool} {seen : List φ} {a : σ} {ms : List Member}
    {cs rest : List Char} (h : Members first ms cs rest) :
    (r.readMembers first seen a cs).toOption = (ℓ.ofMembers? seen a ms).map (·, rest) := by
  induction ms generalizing first seen a cs with
  | nil =>
    rw [members_nil_iff] at h
    rw [Record.readMembers_of_close (nextMember_eq_close_iff.mpr h)]
    rfl
  | cons m ms ih =>
    obtain ⟨k, v⟩ := m
    obtain ⟨q, ds, more, hn, ⟨hk, hc, hb⟩, hv, hm⟩ := h.nextMember_eq_part
    -- the key, the field that it names, and whether that was there are decided in this order
    rw [Record.toOption_readMembers_of_part hn, hk.toOption_readText]
    cases k with
    | none =>
      -- no text is read for a key that denotes nothing
      rfl
    | some key =>
      change (if _ then _ else _ : Option _) = _
      rw [String.ofList_toList, ofMembers?]
      cases hx : r.field? key with
      | none =>
        -- no field has this key, so the value is passed over and nothing is made of it
        rw [Record.readMember_other (skipColon_eq_ok_iff.mpr hc) hb hv]
        exact ih hm
      | some x =>
        by_cases hs : x ∈ seen
        · -- refused before its value is read
          simp [hs]
        · have hrun := (ℓ.interprets x).toOption_run hb hv
          rw [Record.readMember_field (skipColon_eq_ok_iff.mpr hc), hrun]
          simp only [Option.any_some, decide_eq_true_eq, hs, if_false]
          cases ℓ.given x v with
          | none => rfl
          | some b => exact ih hm

include ℓ in
/-- What is read member by member is an object. -/
theorem exists_members_of_readMembers {first : Bool} {seen : List φ} {a b : σ}
    {cs rest : List Char} (h : r.readMembers first seen a cs = .ok (b, rest)) :
    ∃ ms, Members first ms cs rest := by
  fun_induction Record.readMembers r first seen a cs with
  | case1 => contradiction
  | case2 first seen a cs t hn =>
    obtain ⟨-, rfl⟩ := Prod.mk.inj (Except.ok.inj h)
    exact ⟨[], members_nil_iff.mpr (nextMember_eq_close_iff.mp hn)⟩
  | case3 => contradiction
  | case4 => contradiction
  | case5 => contradiction
  -- a turn of the loop: its member, and the object that the later turns have found
  | case6 first seen a cs q hn key after hk x hx u t hm ih =>
    obtain ⟨ms, hms⟩ := ih h
    obtain ⟨value, ds, v, hc, hb, hv⟩ := ℓ.exists_value_of_readMember hm
    have ht : Grammar.Text q (some (String.ofList key)) after := .some (readText_eq_ok_iff.mp hk)
    exact ⟨(_, v) :: ms, members_of_part hn (.intro ht hc hb) hv hms⟩

/-! ### The reader of a record -/

/-- What a value serves as where the record is wanted. -/
def ofValue? (a : σ) : Value → Option σ
  | .object ms => ℓ.ofMembers? [] a ms
  | .array vs => ℓ.ofElements? a r.fields vs
  | _ => none

/-- **A record is read as what its members or elements make of it.** -/
theorem interprets_reader (a : σ) : (r.reader a).Interprets (ℓ.ofValue? a) := by
  refine Reader.interprets_of_head (fun _ => rfl) (fun {v c t rest} hc hv => ?_)
    (fun {c t rest b} h => ?_)
  · split
    · next ho =>
      subst ho
      obtain ⟨ms, rfl⟩ := hc.eq_object
      exact ℓ.toOption_readMembers hv
    · next ho =>
      split
      · next ha =>
        subst ha
        obtain ⟨vs, rfl⟩ := hc.eq_array
        exact ℓ.toOption_readElements hv
      · next ha =>
        -- a value with another first letter is written in neither form
        cases v with
        | object => exact absurd hc ho
        | array => exact absurd hc ha
        | _ => rfl
  -- which of the two forms was read is known from the first character
  · split at h
    · next hc =>
      obtain ⟨ms, hms⟩ := ℓ.exists_members_of_readMembers h
      exact ⟨.object ms, hc ▸ hms⟩
    · split at h
      · next hc =>
        obtain ⟨vs, hvs⟩ := ℓ.exists_elements_of_readElements h
        exact ⟨.array vs, hc ▸ hvs⟩
      · contradiction

end Record.Layout

end PathFilter.Json
