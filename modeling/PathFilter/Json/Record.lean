import PathFilter.Json.Value

/-!
# Records

A **record** is a value with named fields, each of which may be missing. It is written as an
object, whose members stand in any order and among any others, or as an array, whose elements are
the first fields in their own order. A `Record` describes the fields by what reading one of them
does to the value being built; that value starts as the one with no field given.

* In an **object** a field may stand only once, whatever its value; the repetition is noticed when
  the key has been read. A member that is no field is passed over.
* In an **array** no element may stand behind the one of the last field.
-/

namespace PathFilter.Json

/-- The fields, named by `φ`, of values of type `σ`. -/
structure Record (φ σ : Type) where
  /-- What the record is called when something else stands in its place. -/
  name : String
  /-- The fields, in the order in which an array gives them. -/
  fields : List φ
  /-- The key of a field in an object. -/
  key : φ → String
  /-- The reader of a field, which says what its value does to the record. -/
  field : φ → Reader (σ → σ)

/-! ### Members of an object -/

/-- Looks for the next member of an object and takes the opening quote of its key: the first
follows the bracket, any other a comma. -/
def nextMember (first : Bool) (cs : List Char) : Except Fault Next :=
  match skipBlanks cs with
  | [] => .error (.past [] .endInObject)
  | c :: rest =>
    if c = '}' then .ok (.close rest)
    else if first then
      if c = '"' then .ok (.part rest) else .error (.past (c :: rest) .keyNotText)
    else if c = ',' then
      match skipBlanks rest with
      | [] => .error (.past [] .endInValue)
      | d :: more =>
        if d = '"' then .ok (.part more)
        else if d = '}' then .error (.past (d :: more) .trailingComma)
        else .error (.past (d :: more) .keyNotText)
    else .error (.past (c :: rest) .expectedCommaOrBrace)

/-- A member has an opening quote, and a closing bracket is taken, so something is. -/
theorem suffix_of_nextMember {first : Bool} {cs : List Char} {n : Next}
    (h : nextMember first cs = .ok n) : ∃ c t, c :: t <:+ cs ∧ n.rest <:+ t := by
  unfold nextMember at h
  -- the brace, the quote of the first key, or the comma before another one
  split at h
  · contradiction
  · next c t ht =>
    have h₁ : c :: t <:+ cs := ht ▸ skipBlanks_suffix cs
    split at h
    · exact ⟨c, t, h₁, Except.ok.inj h ▸ List.suffix_rfl⟩
    split at h
    · split at h
      · exact ⟨c, t, h₁, Except.ok.inj h ▸ List.suffix_rfl⟩
      · contradiction
    split at h
    · split at h
      · contradiction
      · next d m hm =>
        split at h
        · exact ⟨c, t, h₁, Except.ok.inj h ▸
            (List.suffix_cons d m).trans (hm ▸ skipBlanks_suffix t)⟩
        · split at h <;> contradiction
    · contradiction

/-- The fault of a key that was there before, with `cs` left behind it. It lies behind the blanks
that follow, and behind the end of the object if it ends there. -/
def repeatedField (name : String) (cs : List Char) : Fault :=
  match skipBlanks cs with
  | '}' :: rest => .here rest (.repeatedField name)
  | rest => .here rest (.repeatedField name)

variable {φ σ : Type}

/-- The field with a given key, if there is one. -/
def Record.field? (r : Record φ σ) (key : String) : Option φ :=
  r.fields.find? fun x => r.key x = key

/-- Reads what follows the key of a member: a value that changes the record if it is that of a
field, and otherwise any value. -/
def Record.readMember (r : Record φ σ) (x : Option φ) (cs : List Char) :
    Except Fault ((σ → σ) × List Char) :=
  match skipColon cs with
  | .error f => .error f
  | .ok value =>
    match x with
    | some x => (r.field x).run value
    | none => (skipValue value).map fun rest => (id, rest)

/-- A member leaves an end of what follows its key. -/
theorem Record.suffix_of_readMember {r : Record φ σ} {x : Option φ} {cs rest : List Char}
    {u : σ → σ} (h : r.readMember x cs = .ok (u, rest)) : rest <:+ cs := by
  unfold Record.readMember at h
  -- the colon has to be there before the value is looked at
  split at h
  · contradiction
  · next v hv =>
    have hc := suffix_of_skipColon hv
    split at h
    · next x => exact ((r.field x).suffix h).trans hc
    · obtain ⟨t, hs, ht⟩ := map_eq_ok h
      obtain ⟨-, rfl⟩ := Prod.mk.inj ht
      exact (suffix_of_skipValue hs).trans hc

/-- Reads the members of an object, with the fields in `seen` behind it and the record `a` built
from them. -/
def Record.readMembers [DecidableEq φ] (r : Record φ σ) (first : Bool) (seen : List φ)
    (a : σ) (cs : List Char) : Except Fault (σ × List Char) :=
  match _hn : nextMember first cs with
  | .error f => .error f
  | .ok (.close rest) => .ok (a, rest)
  | .ok (.part quoted) =>
    match _hk : readText quoted with
    | .error f => .error f
    | .ok (key, afterKey) =>
      let x := r.field? (String.ofList key)
      -- a repetition is a fault before the value is looked at
      if x.any (· ∈ seen) then .error (repeatedField (String.ofList key) afterKey)
      else
        match _hm : r.readMember x afterKey with
        | .error f => .error f
        | .ok (update, rest) => r.readMembers false (x.toList ++ seen) (update a) rest
termination_by cs.length
decreasing_by
  -- a member takes at least the opening quote of its key
  obtain ⟨c, t, ht, hq⟩ := suffix_of_nextMember _hn
  have h₁ := ht.length_le
  have h₂ : quoted.length ≤ t.length := hq.length_le
  have h₃ := (suffix_of_readText _hk).length_le
  have h₄ := (Record.suffix_of_readMember _hm).length_le
  simp only [List.length_cons] at h₁
  omega

theorem Record.readMembers_of_close [DecidableEq φ] {r : Record φ σ} {first : Bool}
    {seen : List φ} {a : σ} {cs rest : List Char} (h : nextMember first cs = .ok (.close rest)) :
    r.readMembers first seen a cs = .ok (a, rest) := by
  rw [Record.readMembers]
  split <;> simp_all

/-- What stands behind an object is an end of what follows its bracket. -/
theorem Record.suffix_of_readMembers [DecidableEq φ] {r : Record φ σ} {first : Bool}
    {seen : List φ} {a b : σ} {cs rest : List Char}
    (h : r.readMembers first seen a cs = .ok (b, rest)) : rest <:+ cs := by
  -- along the members; only the end of the object and a member that is read leave anything
  fun_induction Record.readMembers r first seen a cs with
  | case1 => contradiction
  | case2 first seen a cs t hn =>
    obtain ⟨c, u, hu, ht⟩ := suffix_of_nextMember hn
    simp only [Except.ok.injEq, Prod.mk.injEq] at h
    exact h.2 ▸ ht.trans ((List.suffix_cons c u).trans hu)
  | case3 => contradiction
  | case4 => contradiction
  | case5 => contradiction
  | case6 first seen a cs q hn k after hk x hx u t hm ih =>
    obtain ⟨c, v, hv, hq⟩ := suffix_of_nextMember hn
    exact (ih h).trans ((Record.suffix_of_readMember hm).trans ((suffix_of_readText hk).trans
      (hq.trans ((List.suffix_cons c v).trans hv))))

/-- Reads the given fields from the elements of an array, into the record `a`. -/
def Record.readElements (r : Record φ σ) (first : Bool) (a : σ) :
    List φ → List Char → Except Fault (σ × List Char)
  | [], cs => (closeArray cs).map fun rest => (a, rest)
  | x :: xs, cs =>
    match nextElement first cs with
    | .error f => .error f
    | .ok (.close rest) => .ok (a, rest)
    | .ok (.part element) =>
      match (r.field x).run element with
      | .error f => .error f
      | .ok (update, rest) => r.readElements false (update a) xs rest

/-- What stands behind an array is an end of what follows its bracket. -/
theorem Record.suffix_of_readElements {r : Record φ σ} {first : Bool} {a b : σ} {xs : List φ}
    {cs rest : List Char} (h : r.readElements first a xs cs = .ok (b, rest)) : rest <:+ cs := by
  -- along the fields, as the reader goes; behind the last one only the bracket may stand
  induction xs generalizing first a cs with
  | nil =>
    rw [Record.readElements] at h
    obtain ⟨t, hc, ht⟩ := map_eq_ok h
    obtain ⟨-, rfl⟩ := Prod.mk.inj ht
    exact suffix_of_closeArray hc
  | cons x xs ih =>
    rw [Record.readElements] at h
    split at h
    · contradiction
    · next t hn =>
      simp only [Except.ok.injEq, Prod.mk.injEq] at h
      exact h.2 ▸ suffix_of_nextElement hn
    · next e hn =>
      split at h
      · contradiction
      · next u t hr =>
        exact (ih h).trans (((r.field x).suffix hr).trans (suffix_of_nextElement hn))

/-- Reads a record in either form, starting from the value with no field given. -/
def Record.read [DecidableEq φ] (r : Record φ σ) (a : σ) (cs : List Char) :
    Except Fault (σ × List Char) :=
  match skipBlanks cs with
  | [] => .error (.past [] .endInValue)
  | c :: rest =>
    if c = '{' then r.readMembers true [] a rest
    else if c = '[' then r.readElements true a r.fields rest
    else .error (wrongType (.record r.name) c rest)

/-- The reader of a record. -/
def Record.reader [DecidableEq φ] (r : Record φ σ) (a : σ) : Reader σ where
  run := r.read a
  suffix {cs b rest} h := by
    unfold Record.read at h
    split at h
    · contradiction
    · next c t ht =>
      have hs : t <:+ cs := (List.suffix_cons c t).trans (ht ▸ skipBlanks_suffix cs)
      split at h
      · exact (Record.suffix_of_readMembers h).trans hs
      split at h
      · exact (Record.suffix_of_readElements h).trans hs
      · contradiction

end PathFilter.Json
