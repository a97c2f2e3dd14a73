import PathFilter.Json.Skip

/-!
# Typed values

A value is read for a purpose, which says what it has to be: a truth value, a text, a list of
texts, or one of these or `null`. Where something else stands, it is read all the same, as far as
is needed to name it (`readFound`), so that a fault inside it comes before the complaint about
its type.

A `Reader` is a reader of such values together with the fact that it leaves an end of what it was
given, which is what the loops over the members of a record need to end.
-/

namespace PathFilter.Json

/-! ### Values of another type -/

/-- Names the value that starts with `c`. The brackets of an array or an object are not taken. -/
def readFound (c : Char) (cs : List Char) : Read Found :=
  if c = 'n' then (readWord ['u', 'l', 'l'] cs).map fun rest => (.null, rest)
  else if c = 't' then (readWord ['r', 'u', 'e'] cs).map fun rest => (.boolean true, rest)
  else if c = 'f' then (readWord ['a', 'l', 's', 'e'] cs).map fun rest => (.boolean false, rest)
  else if c = '-' then readNumber true cs
  else if c.isDigit then readNumber false (c :: cs)
  else if c = '"' then (readText cs).map fun (t, rest) => (.text t, rest)
  else if c = '[' then .ok (.array, c :: cs)
  else if c = '{' then .ok (.object, c :: cs)
  else .error (.past (c :: cs) .expectedValue)

/-- The fault of a value that starts with `c` where something else was wanted. -/
def wrongType (wanted : Wanted) (c : Char) (cs : List Char) : Fault :=
  match readFound c cs with
  | .error f => f
  | .ok (found, rest) => .here rest (.wrongType found wanted)

/-! ### Readers -/

/-- A reader of values of one type. -/
structure Reader (α : Type) where
  /-- Reads one value, and the blanks before it. -/
  run : List Char → Except Fault (α × List Char)
  /-- What is left is an end of what was given. -/
  suffix : ∀ {cs a rest}, run cs = .ok (a, rest) → rest <:+ cs

/-- Applies a function to what is read. -/
def Reader.map {α β : Type} (f : α → β) (r : Reader α) : Reader β where
  run cs := (r.run cs).map fun (a, rest) => (f a, rest)
  suffix {cs b rest} h := by
    obtain ⟨p, hr, hp⟩ := map_eq_ok h
    obtain ⟨-, rfl⟩ := Prod.mk.inj hp
    exact r.suffix hr

/-- Reads `null`, which is told by its first letter alone, or what the given reader reads. -/
def Reader.orNull {α : Type} (r : Reader α) : Reader (Option α) where
  run cs :=
    match skipBlanks cs with
    | 'n' :: rest => (readWord ['u', 'l', 'l'] rest).map fun rest => (none, rest)
    | rest => (r.run rest).map fun (a, rest) => (some a, rest)
  suffix {cs o rest} h := by
    split at h
    · next t ht =>
      obtain ⟨u, hw, hu⟩ := map_eq_ok h
      obtain ⟨-, rfl⟩ := Prod.mk.inj hu
      exact (suffix_of_readWord hw).trans
        ((List.suffix_cons _ t).trans (ht ▸ skipBlanks_suffix cs))
    · obtain ⟨p, hr, hp⟩ := map_eq_ok h
      obtain ⟨-, rfl⟩ := Prod.mk.inj hp
      exact (r.suffix hr).trans (skipBlanks_suffix cs)

/-! ### Truth values and texts -/

/-- Reads a truth value. -/
def readBoolean (cs : List Char) : Except Fault (Bool × List Char) :=
  match skipBlanks cs with
  | [] => .error (.past [] .endInValue)
  | c :: rest =>
    if c = 't' then (readWord ['r', 'u', 'e'] rest).map fun rest => (true, rest)
    else if c = 'f' then (readWord ['a', 'l', 's', 'e'] rest).map fun rest => (false, rest)
    else .error (wrongType .boolean c rest)

/-- Reads a text with its quotes. -/
def readString (cs : List Char) : Except Fault (String × List Char) :=
  match skipBlanks cs with
  | [] => .error (.past [] .endInValue)
  | c :: rest =>
    if c = '"' then (readText rest).map fun (t, rest) => (String.ofList t, rest)
    else .error (wrongType .text c rest)

private theorem suffix_of_map_word {β : Type} {w cs rest : List Char} {b b' : β}
    (h : ((readWord w cs).map fun rest => (b, rest)) = .ok (b', rest)) : rest <:+ cs := by
  obtain ⟨u, hw, hu⟩ := map_eq_ok h
  obtain ⟨-, rfl⟩ := Prod.mk.inj hu
  exact suffix_of_readWord hw

/-- A truth value leaves an end. -/
theorem suffix_of_readBoolean {cs rest : List Char} {b : Bool}
    (h : readBoolean cs = .ok (b, rest)) : rest <:+ cs := by
  unfold readBoolean at h
  split at h
  · contradiction
  · next c t ht =>
    have hs : t <:+ cs := (List.suffix_cons c t).trans (ht ▸ skipBlanks_suffix cs)
    split at h
    · exact (suffix_of_map_word h).trans hs
    · split at h
      · exact (suffix_of_map_word h).trans hs
      · contradiction

/-- A text has an opening quote, and an end of what follows that one is left. -/
theorem suffix_of_readString {cs rest : List Char} {s : String}
    (h : readString cs = .ok (s, rest)) : ∃ c t, c :: t <:+ cs ∧ rest <:+ t := by
  unfold readString at h
  split at h
  · contradiction
  · next c t ht =>
    split at h
    · obtain ⟨p, hr, hp⟩ := map_eq_ok h
      obtain ⟨-, rfl⟩ := Prod.mk.inj hp
      exact ⟨c, t, ht ▸ skipBlanks_suffix cs, suffix_of_readText hr⟩
    · contradiction

/-- A text takes at least its opening quote. -/
theorem length_lt_of_readString {cs rest : List Char} {s : String}
    (h : readString cs = .ok (s, rest)) : rest.length < cs.length := by
  obtain ⟨c, t, ht, hr⟩ := suffix_of_readString h
  have h₁ := ht.length_le
  have h₂ := hr.length_le
  simp only [List.length_cons] at h₁
  omega

/-! ### Arrays -/

/-- What follows inside a bracket. -/
inductive Next where
  /-- The closing bracket, which has been taken. -/
  | close (rest : List Char)
  | part (rest : List Char)

/-- What is left where an array or an object goes on or ends. -/
def Next.rest : Next → List Char
  | .close rest => rest
  | .part rest => rest

/-- Looks for the next element of an array: the first follows the bracket, any other a comma. -/
def nextElement (first : Bool) (cs : List Char) : Except Fault Next :=
  match skipBlanks cs with
  | [] => .error (.past [] .endInArray)
  | c :: rest =>
    if c = ']' then .ok (.close rest)
    -- a comma in front of the first element is left to whoever reads that element
    else if first then .ok (.part (c :: rest))
    else if c = ',' then
      match skipBlanks rest with
      | [] => .error (.past [] .endInValue)
      | d :: more =>
        if d = ']' then .error (.past (d :: more) .trailingComma) else .ok (.part (d :: more))
    else .error (.past (c :: rest) .expectedCommaOrBracket)

/-- Up to an element, or behind the closing bracket, an end is left. -/
theorem suffix_of_nextElement {first : Bool} {cs : List Char} {n : Next}
    (h : nextElement first cs = .ok n) : n.rest <:+ cs := by
  unfold nextElement at h
  -- the bracket is taken, a first element is not, and a later one only with its comma
  split at h
  · contradiction
  · next c t ht =>
    have h₁ : c :: t <:+ cs := ht ▸ skipBlanks_suffix cs
    have h₂ : t <:+ cs := (List.suffix_cons c t).trans h₁
    split at h
    · exact Except.ok.inj h ▸ h₂
    split at h
    · exact Except.ok.inj h ▸ h₁
    split at h
    · split at h
      · contradiction
      · next d m hm =>
        split at h
        · contradiction
        · exact Except.ok.inj h ▸ (hm ▸ skipBlanks_suffix t).trans h₂
    · contradiction

/-- Takes the bracket that closes an array of which nothing more is wanted. -/
def closeArray (cs : List Char) : Except Fault (List Char) :=
  match skipBlanks cs with
  | [] => .error (.past [] .endInArray)
  | c :: rest =>
    if c = ']' then .ok rest
    else if c = ',' then
      if (skipBlanks rest).head? = some ']' then .error (.past (skipBlanks rest) .trailingComma)
      else .error (.past (skipBlanks rest) .trailingCharacters)
    else .error (.past (c :: rest) .trailingCharacters)

/-- The closing bracket leaves an end. -/
theorem suffix_of_closeArray {cs rest : List Char} (h : closeArray cs = .ok rest) :
    rest <:+ cs := by
  unfold closeArray at h
  -- behind a comma there is a fault in any case
  split at h
  · contradiction
  · next c t ht =>
    split at h
    · exact Except.ok.inj h ▸ (List.suffix_cons c t).trans (ht ▸ skipBlanks_suffix cs)
    split at h
    · split at h <;> contradiction
    · contradiction

/-- Reads the texts of an array whose opening bracket has been read. -/
def readElements (first : Bool) (cs : List Char) : Except Fault (List String × List Char) :=
  match _hn : nextElement first cs with
  | .error f => .error f
  | .ok (.close rest) => .ok ([], rest)
  | .ok (.part element) =>
    match _hs : readString element with
    | .error f => .error f
    | .ok (s, more) =>
      match readElements false more with
      | .error f => .error f
      | .ok (ss, rest) => .ok (s :: ss, rest)
termination_by cs.length
decreasing_by
  have h₁ : element.length ≤ cs.length := (suffix_of_nextElement _hn).length_le
  have h₂ := length_lt_of_readString _hs
  omega

theorem readElements_of_close {first : Bool} {cs rest : List Char}
    (h : nextElement first cs = .ok (.close rest)) : readElements first cs = .ok ([], rest) := by
  rw [readElements]
  split <;> simp_all

/-- Behind an element the array goes on. -/
theorem readElements_of_part {first : Bool} {cs element more : List Char} {s : String}
    (hn : nextElement first cs = .ok (.part element)) (hs : readString element = .ok (s, more)) :
    readElements first cs =
      (readElements false more).map fun (ss, rest) => (s :: ss, rest) := by
  rw [readElements]
  -- the array is read on only where the element and its text are the given ones
  split
  · simp_all
  · simp_all
  · next e he =>
    obtain rfl : e = element := by simp_all
    split
    · simp_all
    · next t m ht =>
      obtain ⟨rfl, rfl⟩ : t = s ∧ m = more := by simp_all
      cases readElements false m <;> rfl

/-- What stands behind an array is an end of what follows its bracket. -/
theorem suffix_of_readElements {first : Bool} {cs rest : List Char} {ss : List String}
    (h : readElements first cs = .ok (ss, rest)) : rest <:+ cs := by
  -- along the elements, each of which has a text of its own
  fun_induction readElements first cs generalizing ss with
  | case1 => contradiction
  | case2 first cs r hn =>
    simp only [Except.ok.injEq, Prod.mk.injEq] at h
    exact h.2 ▸ suffix_of_nextElement hn
  | case3 => contradiction
  | case4 => contradiction
  | case5 first cs e hn s more hs ss' r hr ih =>
    simp only [Except.ok.injEq, Prod.mk.injEq] at h
    obtain ⟨c, t, ht, hm⟩ := suffix_of_readString hs
    exact (ih (h.2 ▸ hr)).trans (hm.trans ((List.suffix_cons c t).trans
      (ht.trans (suffix_of_nextElement hn))))

/-- Reads a list of texts with its brackets. -/
def readStrings (cs : List Char) : Except Fault (List String × List Char) :=
  match skipBlanks cs with
  | [] => .error (.past [] .endInValue)
  | c :: rest => if c = '[' then readElements true rest else .error (wrongType .array c rest)

/-- A list of texts leaves an end. -/
theorem suffix_of_readStrings {cs rest : List Char} {ss : List String}
    (h : readStrings cs = .ok (ss, rest)) : rest <:+ cs := by
  unfold readStrings at h
  split at h
  · contradiction
  · next c t ht =>
    split at h
    · exact (suffix_of_readElements h).trans
        ((List.suffix_cons c t).trans (ht ▸ skipBlanks_suffix cs))
    · contradiction

/-! ### The readers of operands and flags -/

/-- The reader of flags. -/
def Reader.boolean : Reader Bool := ⟨readBoolean, suffix_of_readBoolean⟩

/-- The reader of operands that are a text. -/
def Reader.string : Reader String where
  run := readString
  suffix h := by
    obtain ⟨c, t, ht, hr⟩ := suffix_of_readString h
    exact hr.trans ((List.suffix_cons c t).trans ht)

/-- The reader of operands that are a list of texts. -/
def Reader.strings : Reader (List String) := ⟨readStrings, suffix_of_readStrings⟩

end PathFilter.Json
