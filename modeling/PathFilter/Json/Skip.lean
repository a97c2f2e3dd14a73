import PathFilter.Json.Numeral

/-!
# Values that are passed over

The value of an unknown member is **passed over**: it has to be well formed, but what it says is
not kept. Values can be nested to any depth, so the brackets that are still open are held in a
list, innermost first, instead of by recursion.

A **stretch** leads from where a value is to be read to where the next one is (`beginValue`): it
passes over a value without brackets, or opens a bracket, and then closes as many brackets as it
can, up to the comma behind which the next value stands (`settle`). `skipFrom` repeats stretches
until no bracket is open. Each takes at least one character.
-/

namespace PathFilter.Json

/-! ### Values without brackets -/

/-- Passes over the digits before the point. -/
def skipWhole : List Char → Except Fault (List Char)
  | [] => .error (.here [] .badNumber)
  | c :: cs =>
    if c = '0' then
      if cs.head?.any Char.isDigit then .error (.past cs .badNumber) else .ok cs
    else if c.isDigit then .ok (cs.dropWhile Char.isDigit)
    else .error (.past (c :: cs) .badNumber)

/-- Passes over a fraction, if there is one. -/
def skipFraction : List Char → Except Fault (List Char)
  | [] => .ok []
  | c :: cs =>
    if c = '.' then
      if cs.head?.any Char.isDigit then .ok (cs.dropWhile Char.isDigit)
      else .error (.past cs .badNumber)
    else .ok (c :: cs)

/-- Passes over an exponent, if there is one. -/
def skipExponent : List Char → Except Fault (List Char)
  | [] => .ok []
  | c :: cs =>
    if opensExponent c then
      match (readSign cs).2 with
      | [] => .error (.here [] .badNumber)
      | d :: ds =>
        if d.isDigit then .ok (ds.dropWhile Char.isDigit) else .error (.past (d :: ds) .badNumber)
    else .ok (c :: cs)

/-- Passes over a number whose sign has been read. No number is too large to be passed over. -/
def skipNumber (cs : List Char) : Except Fault (List Char) := do
  skipExponent (← skipFraction (← skipWhole cs))

/-- Passes over a value that starts with `c` and is no bracket. -/
def skipAtom (c : Char) (cs : List Char) : Except Fault (List Char) :=
  if c = 'n' then readWord ['u', 'l', 'l'] cs
  else if c = 't' then readWord ['r', 'u', 'e'] cs
  else if c = 'f' then readWord ['a', 'l', 's', 'e'] cs
  else if c = '"' then skipText cs
  else if c = '-' then skipNumber cs
  else if c.isDigit then skipNumber (c :: cs)
  else .error (.past (c :: cs) .expectedValue)

/-! ### Brackets -/

/-- The brackets that are open. -/
inductive Bracket where
  | array
  | object
  deriving DecidableEq, Repr

/-- What comes after a stretch: nothing, or a value inside the given brackets. -/
inductive Onward where
  | done (rest : List Char)
  | value (brackets : List Bracket) (rest : List Char)

/-- What is left behind a stretch. -/
def Onward.rest : Onward → List Char
  | .done rest => rest
  | .value _ rest => rest

/-- Passes over a colon and the blanks before it. -/
def skipColon (cs : List Char) : Except Fault (List Char) :=
  match skipBlanks cs with
  | [] => .error (.past [] .endInObject)
  | c :: rest => if c = ':' then .ok rest else .error (.past (c :: rest) .expectedColon)

/-- Passes over the key of a member and its colon. -/
def skipKey (cs : List Char) : Except Fault (List Char) :=
  match skipBlanks cs with
  | [] => .error (.past [] .endInObject)
  | c :: rest =>
    if c = '"' then do skipColon (← skipText rest) else .error (.past (c :: rest) .keyNotText)

/-- Goes on behind a value: closes brackets up to the next comma, and passes over the key of the
next member where one has to stand. -/
def settle : List Bracket → List Char → Except Fault Onward
  | [], cs => .ok (.done cs)
  | .array :: outer, cs =>
    match skipBlanks cs with
    | [] => .error (.past [] .endInArray)
    | c :: rest =>
      -- a closing bracket ends a value in its turn, so the brackets around it are settled next
      if c = ']' then settle outer rest
      else if c = ',' then .ok (.value (.array :: outer) rest)
      else .error (.past (c :: rest) .expectedCommaOrBracket)
  | .object :: outer, cs =>
    match skipBlanks cs with
    | [] => .error (.past [] .endInObject)
    | c :: rest =>
      if c = '}' then settle outer rest
      else if c = ',' then (skipKey rest).map (.value (.object :: outer))
      else .error (.past (c :: rest) .expectedCommaOrBrace)

/-- Goes on behind the bracket that opens an array. -/
def enterArray (outer : List Bracket) (cs : List Char) : Except Fault Onward :=
  match skipBlanks cs with
  | [] => .error (.past [] .endInArray)
  | c :: rest =>
    if c = ']' then settle outer rest else .ok (.value (.array :: outer) (c :: rest))

/-- Goes on behind the bracket that opens an object. -/
def enterObject (outer : List Bracket) (cs : List Char) : Except Fault Onward :=
  match skipBlanks cs with
  | [] => .error (.past [] .endInObject)
  | c :: rest =>
    if c = '}' then settle outer rest
    else (skipKey (c :: rest)).map (.value (.object :: outer))

/-- The stretch that starts where a value is to be read. -/
def beginValue (outer : List Bracket) (cs : List Char) : Except Fault Onward :=
  match skipBlanks cs with
  | [] => .error (.past [] .endInValue)
  | c :: rest =>
    if c = '[' then enterArray outer rest
    else if c = '{' then enterObject outer rest
    -- anything else is over where it stands
    else do settle outer (← skipAtom c rest)

/-! ### Every stretch makes progress -/

/-- A key leaves what the value that follows it starts with. -/
private theorem suffix_of_map {x : Except Fault (List Char)} {bs : List Bracket} {o : Onward}
    {cs : List Char} (hx : ∀ r, x = .ok r → r <:+ cs) (h : x.map (.value bs) = .ok o) :
    o.rest <:+ cs := by
  obtain ⟨r, hr, rfl⟩ := map_eq_ok h
  exact hx r hr

private theorem suffix_of_blanks {c : Char} {cs rest : List Char}
    (h : skipBlanks cs = c :: rest) : rest <:+ cs :=
  (List.suffix_cons c rest).trans (h ▸ skipBlanks_suffix cs)

/-- A colon leaves an end. -/
theorem suffix_of_skipColon {cs rest : List Char} (h : skipColon cs = .ok rest) :
    rest <:+ cs := by
  unfold skipColon at h
  split at h
  · contradiction
  · next c r hb =>
    split at h
    · exact Except.ok.inj h ▸ suffix_of_blanks hb
    · contradiction

/-- A key leaves an end. -/
theorem suffix_of_skipKey {cs rest : List Char} (h : skipKey cs = .ok rest) : rest <:+ cs := by
  unfold skipKey at h
  split at h
  · contradiction
  · next c r hb =>
    split at h
    · obtain ⟨r', hr', h⟩ := bind_eq_ok h
      exact (suffix_of_skipColon h).trans ((suffix_of_skipText hr').trans (suffix_of_blanks hb))
    · contradiction

/-- Closing brackets leaves an end, however many they are. -/
theorem suffix_of_settle {bs : List Bracket} {cs : List Char} {o : Onward}
    (h : settle bs cs = .ok o) : o.rest <:+ cs := by
  -- along the open brackets: a closing one takes one off, and everything else ends the stretch
  induction bs generalizing cs with
  | nil => exact Except.ok.inj h ▸ List.suffix_rfl
  | cons b outer ih =>
    cases b with
    | array =>
      rw [settle] at h
      split at h
      · contradiction
      · next c r hb =>
        have hr := suffix_of_blanks hb
        split at h
        -- a closing bracket, which leaves the outer ones to be settled
        · exact (ih h).trans hr
        · split at h
          · exact Except.ok.inj h ▸ hr
          · contradiction
    | object =>
      rw [settle] at h
      split at h
      · contradiction
      · next c r hb =>
        have hr := suffix_of_blanks hb
        split at h
        · exact (ih h).trans hr
        · split at h
          · exact suffix_of_map (fun _ hk => (suffix_of_skipKey hk).trans hr) h
          · contradiction

/-- A number has a first digit, behind which an end is left. -/
private theorem suffix_of_skipWhole {cs rest : List Char} (h : skipWhole cs = .ok rest) :
    ∃ c t, cs = c :: t ∧ rest <:+ t := by
  cases cs with
  | nil => contradiction
  | cons c t =>
    refine ⟨c, t, rfl, ?_⟩
    rw [skipWhole] at h
    -- a zero stands alone, any other digit starts a run of digits
    split at h
    · split at h
      · contradiction
      · exact Except.ok.inj h ▸ List.suffix_rfl
    · split at h
      · exact Except.ok.inj h ▸ List.dropWhile_suffix _
      · contradiction

/-- A fraction leaves an end, also where there is none. -/
private theorem suffix_of_skipFraction {cs rest : List Char} (h : skipFraction cs = .ok rest) :
    rest <:+ cs := by
  unfold skipFraction at h
  split at h
  · exact Except.ok.inj h ▸ List.suffix_rfl
  · split at h
    · split at h
      · exact Except.ok.inj h ▸ (List.dropWhile_suffix _).trans (List.suffix_cons _ _)
      · contradiction
    · exact Except.ok.inj h ▸ List.suffix_rfl

/-- So does a sign. -/
theorem readSign_suffix (cs : List Char) : (readSign cs).2 <:+ cs := by
  unfold readSign
  split
  · exact List.suffix_cons _ _
  · exact List.suffix_cons _ _
  · exact List.suffix_rfl

/-- So does an exponent. -/
private theorem suffix_of_skipExponent {cs rest : List Char} (h : skipExponent cs = .ok rest) :
    rest <:+ cs := by
  unfold skipExponent at h
  -- only behind a letter, a sign or none, and a digit something is taken
  split at h
  · exact Except.ok.inj h ▸ List.suffix_rfl
  · next c t =>
    split at h
    · split at h
      · contradiction
      · next d ds hs =>
        split at h
        · have hd : d :: ds <:+ t := hs ▸ readSign_suffix t
          exact Except.ok.inj h ▸ (List.dropWhile_suffix _).trans
            ((List.suffix_cons d ds).trans (hd.trans (List.suffix_cons c t)))
        · contradiction
    · exact Except.ok.inj h ▸ List.suffix_rfl

/-- A number has a first character, and an end of what follows that one is left. -/
theorem suffix_of_skipNumber {cs rest : List Char} (h : skipNumber cs = .ok rest) :
    ∃ c t, cs = c :: t ∧ rest <:+ t := by
  obtain ⟨r₁, h₁, h'⟩ := bind_eq_ok h
  obtain ⟨r₂, h₂, h₃⟩ := bind_eq_ok h'
  obtain ⟨c, t, hc, ht⟩ := suffix_of_skipWhole h₁
  exact ⟨c, t, hc, (suffix_of_skipExponent h₃).trans ((suffix_of_skipFraction h₂).trans ht)⟩

/-- A value without brackets leaves an end of what follows its first character. -/
theorem suffix_of_skipAtom {c : Char} {cs rest : List Char} (h : skipAtom c cs = .ok rest) :
    rest <:+ cs := by
  unfold skipAtom at h
  -- the three words
  split at h
  · exact suffix_of_readWord h
  split at h
  · exact suffix_of_readWord h
  split at h
  · exact suffix_of_readWord h
  split at h
  · exact suffix_of_skipText h
  -- a number behind its sign, and one without a sign, which starts with `c` itself
  split at h
  · obtain ⟨d, t, rfl, ht⟩ := suffix_of_skipNumber h
    exact ht.trans (List.suffix_cons d t)
  split at h
  · obtain ⟨d, t, hd, ht⟩ := suffix_of_skipNumber h
    cases hd
    exact ht
  · contradiction

/-- A stretch takes at least one character. -/
theorem suffix_of_beginValue {bs : List Bracket} {cs : List Char} {o : Onward}
    (h : beginValue bs cs = .ok o) : ∃ c t, c :: t <:+ cs ∧ o.rest <:+ t := by
  unfold beginValue at h
  split at h
  · contradiction
  · next c t hb =>
    refine ⟨c, t, hb ▸ skipBlanks_suffix cs, ?_⟩
    split at h
    · -- an array, which ends at once or starts with an element
      unfold enterArray at h
      split at h
      · contradiction
      · next d r hd =>
        split at h
        · exact (suffix_of_settle h).trans (suffix_of_blanks hd)
        · exact Except.ok.inj h ▸ hd ▸ skipBlanks_suffix t
    · split at h
      · -- an object, which ends at once or starts with a key
        unfold enterObject at h
        split at h
        · contradiction
        · next d r hd =>
          split at h
          · exact (suffix_of_settle h).trans (suffix_of_blanks hd)
          · exact suffix_of_map
              (fun _ hk => (suffix_of_skipKey hk).trans (hd ▸ skipBlanks_suffix t)) h
      · obtain ⟨r, hr, h⟩ := bind_eq_ok h
        exact (suffix_of_settle h).trans (suffix_of_skipAtom hr)

/-- So less is left behind a stretch, which is why the stretches come to an end. -/
theorem length_lt_of_beginValue {bs : List Bracket} {cs : List Char} {o : Onward}
    (h : beginValue bs cs = .ok o) : o.rest.length < cs.length := by
  obtain ⟨c, t, ht, ho⟩ := suffix_of_beginValue h
  have h₁ := ht.length_le
  have h₂ := ho.length_le
  simp only [List.length_cons] at h₁
  omega

/-! ### Whole values -/

/-- Passes over a value inside the given brackets, and over everything up to the last of them. -/
def skipFrom (bs : List Bracket) (cs : List Char) : Except Fault (List Char) :=
  match _h : beginValue bs cs with
  | .error f => .error f
  | .ok (.done rest) => .ok rest
  | .ok (.value next rest) => skipFrom next rest
termination_by cs.length
decreasing_by exact length_lt_of_beginValue _h

/-- Passes over a value. -/
def skipValue (cs : List Char) : Except Fault (List Char) := skipFrom [] cs

/-- What is left behind the last open bracket is an end of what was given. -/
private theorem suffix_of_skipFrom {bs : List Bracket} {cs rest : List Char}
    (h : skipFrom bs cs = .ok rest) : rest <:+ cs := by
  -- along the stretches
  fun_induction skipFrom bs cs with
  | case1 => contradiction
  | case2 bs cs r hb =>
    obtain ⟨c, t, ht, ho⟩ := suffix_of_beginValue hb
    exact Except.ok.inj h ▸ ho.trans ((List.suffix_cons c t).trans ht)
  | case3 bs cs next r hb ih =>
    obtain ⟨c, t, ht, ho⟩ := suffix_of_beginValue hb
    exact (ih h).trans (ho.trans ((List.suffix_cons c t).trans ht))

theorem suffix_of_skipValue {cs rest : List Char} (h : skipValue cs = .ok rest) : rest <:+ cs :=
  suffix_of_skipFrom h

end PathFilter.Json
