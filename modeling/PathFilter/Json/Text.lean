import PathFilter.Json.Fault

/-!
# Texts of a JSON document

A **text** stands between quotes. Characters stand for themselves, except that a backslash opens
an escape and control characters are not allowed at all. A character beyond the sixteen bits of
one `\u` escape is written as a leading and a trailing **surrogate** escape, and neither may
stand without the other.

There are two readers of what follows an opening quote. `readText` decodes; `skipText` only
looks for the closing quote, and so does not mind surrogates. Each leaves an end of what it was
given that is strictly shorter (`suffix_of_readText`, `suffix_of_skipText`).
-/

namespace PathFilter.Json

/-- The four blank characters of JSON. -/
def isBlank (c : Char) : Bool := c == ' ' || c == '\n' || c == '\t' || c == '\r'

/-- Passes over blanks. -/
def skipBlanks (cs : List Char) : List Char := cs.dropWhile isBlank

theorem skipBlanks_suffix (cs : List Char) : skipBlanks cs <:+ cs := List.dropWhile_suffix _

/-- Reads the rest of a word of small letters, character by character. -/
def readWord : List Char → List Char → Except Fault (List Char)
  | [], cs => .ok cs
  | _ :: _, [] => .error (.here [] .endInValue)
  | w :: ws, c :: cs => if c = w then readWord ws cs else .error (.past (c :: cs) .expectedWord)

/-- Behind a word an end is left. -/
theorem suffix_of_readWord {ws cs rest : List Char} (h : readWord ws cs = .ok rest) :
    rest <:+ cs := by
  fun_induction readWord ws cs with
  | case1 cs => exact Except.ok.inj h ▸ List.suffix_rfl
  | case2 => contradiction
  | case3 w ws cs ih => exact (ih h).trans (List.suffix_cons _ _)
  | case4 => contradiction

/-! ### Escapes -/

/-- The value of a hexadecimal digit of either case. -/
def hexValue? (c : Char) : Option Nat :=
  if '0' ≤ c ∧ c ≤ '9' then some (c.toNat - '0'.toNat)
  else if 'a' ≤ c ∧ c ≤ 'f' then some (c.toNat - 'a'.toNat + 10)
  else if 'A' ≤ c ∧ c ≤ 'F' then some (c.toNat - 'A'.toNat + 10)
  else none

/-- The number that four hexadecimal digits write. -/
def hexNumber? (a b c d : Char) : Option Nat := do
  return 4096 * (← hexValue? a) + 256 * (← hexValue? b) + 16 * (← hexValue? c) + (← hexValue? d)

/-- Reads the four digits of a `\u` escape. They are taken as four bytes: if fewer are left the
text ends too soon, and if one of them is no digit the fault lies behind the fourth. -/
def readHex : List Char → Except Fault (Nat × List Char)
  | a :: b :: c :: d :: rest =>
    match hexNumber? a b c d with
    | some n => .ok (n, rest)
    | none => .error ⟨⟨a :: b :: c :: d :: rest, 4⟩, .badEscape⟩
  | cs =>
    if Text.byteLength cs < 4 then .error (.here [] .endInText)
    else .error ⟨⟨cs, 4⟩, .badEscape⟩

/-- Behind four digits an end is left. -/
theorem suffix_of_readHex {cs rest : List Char} {n : Nat} (h : readHex cs = .ok (n, rest)) :
    rest <:+ cs := by
  unfold readHex at h
  split at h
  · next a b c d r =>
    split at h
    · simp only [Except.ok.injEq, Prod.mk.injEq] at h
      exact h.2 ▸ ⟨[a, b, c, d], rfl⟩
    · contradiction
  · split at h <;> contradiction

/-- What a backslash and a single character stand for. -/
def simpleEscape? (c : Char) : Option Char :=
  if c = '"' then some '"'
  else if c = '\\' then some '\\'
  else if c = '/' then some '/'
  else if c = 'b' then some '\x08'
  else if c = 'f' then some '\x0c'
  else if c = 'n' then some '\n'
  else if c = 'r' then some '\r'
  else if c = 't' then some '\t'
  else none

/-- Whether a number is that of a leading surrogate. -/
def isLeading (n : Nat) : Bool := 0xD800 ≤ n && n < 0xDC00

/-- Whether a number is that of a trailing surrogate. -/
def isTrailing (n : Nat) : Bool := 0xDC00 ≤ n && n < 0xE000

/-- The character that two surrogates stand for. -/
def pairedChar (high low : Nat) : Char :=
  Char.ofNat (0x10000 + (high - 0xD800) * 0x400 + (low - 0xDC00))

/-- Reads one particular character of the second half of a surrogate pair. -/
def readPairChar (w : Char) : List Char → Except Fault (List Char)
  | [] => .error (.here [] .endInText)
  | c :: cs => if c = w then .ok cs else .error (.past (c :: cs) .brokenPair)

/-- Reads what follows `\u`: one escape, or the two of a surrogate pair. -/
def readUnicode (cs : List Char) : Except Fault (Char × List Char) := do
  let (n, rest) ← readHex cs
  -- a trailing half without a leading one
  if isTrailing n then .error (.here rest .loneSurrogate)
  -- a leading half needs a trailing one, written as an escape of its own
  else if isLeading n then do
    let rest ← readPairChar '\\' rest
    let rest ← readPairChar 'u' rest
    let (m, rest) ← readHex rest
    if isTrailing m then .ok (pairedChar n m, rest)
    else .error (.here rest .loneSurrogate)
  else .ok (Char.ofNat n, rest)

/-- Reads what follows a backslash. -/
def readEscape : List Char → Read Char
  | [] => .error (.here [] .endInText)
  | c :: cs =>
    if c = 'u' then readUnicode cs
    else
      match simpleEscape? c with
      | some d => .ok (d, cs)
      | none => .error (.past (c :: cs) .badEscape)

/-- Passes over what follows a backslash. -/
def skipEscape : List Char → Except Fault (List Char)
  | [] => .error (.here [] .endInText)
  | c :: cs =>
    if c = 'u' then (readHex cs).map Prod.snd
    else if (simpleEscape? c).isSome then .ok cs
    else .error (.past (c :: cs) .badEscape)

/-- Behind the character that is looked for an end is left. -/
private theorem suffix_of_readPairChar {w : Char} {cs rest : List Char}
    (h : readPairChar w cs = .ok rest) : rest <:+ cs := by
  cases cs with
  | nil => contradiction
  | cons c t =>
    rw [readPairChar] at h
    split at h
    · exact Except.ok.inj h ▸ List.suffix_cons c t
    · contradiction

/-- A step of a reader that succeeded as a whole succeeded itself. -/
theorem bind_eq_ok {α β : Type} {x : Except Fault α} {f : α → Except Fault β} {b : β}
    (h : x >>= f = .ok b) : ∃ a, x = .ok a ∧ f a = .ok b := by
  cases x with
  | error e => contradiction
  | ok a => exact ⟨a, rfl, h⟩

/-- What succeeds after a function was applied to its outcome succeeded before. -/
theorem map_eq_ok {α β : Type} {x : Except Fault α} {f : α → β} {b : β}
    (h : x.map f = .ok b) : ∃ a, x = .ok a ∧ f a = b := by
  cases x with
  | error e => contradiction
  | ok a => exact ⟨a, rfl, Except.ok.inj h⟩

/-- Behind one escape or two an end is left. -/
theorem suffix_of_readUnicode {cs rest : List Char} {c : Char}
    (h : readUnicode cs = .ok (c, rest)) : rest <:+ cs := by
  obtain ⟨⟨n, r₁⟩, h₁, h⟩ := bind_eq_ok h
  have s₁ := suffix_of_readHex h₁
  dsimp only at h
  -- a lone trailing half, a pair, and a number that is no surrogate
  split at h
  · contradiction
  split at h
  · obtain ⟨r₂, h₂, h⟩ := bind_eq_ok h
    obtain ⟨r₃, h₃, h⟩ := bind_eq_ok h
    obtain ⟨⟨m, r₄⟩, h₄, h⟩ := bind_eq_ok h
    dsimp only at h
    split at h
    · simp only [Except.ok.injEq, Prod.mk.injEq] at h
      exact h.2 ▸ (suffix_of_readHex h₄).trans ((suffix_of_readPairChar h₃).trans
        ((suffix_of_readPairChar h₂).trans s₁))
    · contradiction
  · simp only [Except.ok.injEq, Prod.mk.injEq] at h
    exact h.2 ▸ s₁

/-- An escape has a character behind its backslash, and an end of what follows that one is
left. -/
theorem suffix_of_readEscape {cs rest : List Char} {c : Char}
    (h : readEscape cs = .ok (c, rest)) : rest <:+ cs := by
  cases cs with
  | nil => contradiction
  | cons d t =>
    rw [readEscape] at h
    -- an escape by number takes its digits too, any other one character
    split at h
    · exact (suffix_of_readUnicode h).trans (List.suffix_cons d t)
    · split at h
      · simp only [Except.ok.injEq, Prod.mk.injEq] at h
        exact h.2 ▸ List.suffix_cons d t
      · contradiction

/-- An escape that is passed over leaves an end likewise. -/
theorem suffix_of_skipEscape {cs rest : List Char} (h : skipEscape cs = .ok rest) :
    rest <:+ cs := by
  cases cs with
  | nil => contradiction
  | cons d t =>
    rw [skipEscape] at h
    split at h
    · obtain ⟨p, hp, rfl⟩ := map_eq_ok h
      exact (suffix_of_readHex hp).trans (List.suffix_cons d t)
    · split at h
      · exact Except.ok.inj h ▸ List.suffix_cons d t
      · contradiction

/-! ### Texts -/

/-- Puts a character in front of the text that a reader found. -/
def Read.prepend (c : Char) : Read (List Char) → Read (List Char)
  | .ok (t, rest) => .ok (c :: t, rest)
  | .error f => .error f

/-- Whether a character may not stand in a text. -/
def isForbidden (c : Char) : Bool := c.toNat < 0x20

/-- Reads a text whose opening quote has been read. A character that may not stand there is
taken before the fault. -/
def readText : List Char → Read (List Char)
  | [] => .error (.here [] .endInText)
  | c :: cs =>
    if c = '"' then .ok ([], cs)
    else if c = '\\' then
      match _h : readEscape cs with
      | .error f => .error f
      | .ok (d, rest) => (readText rest).prepend d
    else if isForbidden c then .error (.past (c :: cs) .controlCharacter)
    else (readText cs).prepend c
termination_by cs => cs.length
decreasing_by
  · have := (suffix_of_readEscape _h).length_le
    simp only [List.length_cons]
    omega
  · simp

/-- Passes over a text whose opening quote has been read. A character that may not stand there
is not taken. -/
def skipText : List Char → Except Fault (List Char)
  | [] => .error (.here [] .endInText)
  | c :: cs =>
    if c = '"' then .ok cs
    else if c = '\\' then
      match _h : skipEscape cs with
      | .error f => .error f
      | .ok rest => skipText rest
    else if isForbidden c then .error (.here (c :: cs) .controlCharacter)
    else skipText cs
termination_by cs => cs.length
decreasing_by
  · have := (suffix_of_skipEscape _h).length_le
    simp only [List.length_cons]
    omega
  · simp

@[simp] theorem readText_nil : readText [] = .error (.here [] .endInText) := by
  rw [readText]

@[simp] theorem readText_quote (cs : List Char) : readText ('"' :: cs) = .ok ([], cs) := by
  rw [readText]
  rfl

theorem readText_escape {cs rest : List Char} {c : Char} (h : readEscape cs = .ok (c, rest)) :
    readText ('\\' :: cs) = (readText rest).prepend c := by
  rw [readText, if_neg (by decide), if_pos rfl]
  split <;> simp_all

theorem readText_cons {c : Char} (cs : List Char) (hq : c ≠ '"') (hb : c ≠ '\\')
    (hf : isForbidden c = false) : readText (c :: cs) = (readText cs).prepend c := by
  rw [readText, if_neg hq, if_neg hb, if_neg (by simp [hf])]

@[simp] theorem skipText_quote (cs : List Char) : skipText ('"' :: cs) = .ok cs := by
  rw [skipText]
  rfl

theorem skipText_escape {cs rest : List Char} (h : skipEscape cs = .ok rest) :
    skipText ('\\' :: cs) = skipText rest := by
  rw [skipText, if_neg (by decide), if_pos rfl]
  split <;> simp_all

theorem skipText_cons {c : Char} (cs : List Char) (hq : c ≠ '"') (hb : c ≠ '\\')
    (hf : isForbidden c = false) : skipText (c :: cs) = skipText cs := by
  rw [skipText, if_neg hq, if_neg hb, if_neg (by simp [hf])]

/-- A successful reader with a character put in front was a successful reader. -/
theorem Read.prepend_eq_ok {c : Char} {t rest : List Char} {r : Read (List Char)}
    (h : r.prepend c = .ok (t, rest)) : ∃ u, r = .ok (u, rest) ∧ t = c :: u := by
  cases r with
  | error f => contradiction
  | ok p =>
    obtain ⟨u, v⟩ := p
    simp only [Read.prepend, Except.ok.injEq, Prod.mk.injEq] at h
    obtain ⟨rfl, rfl⟩ := h
    exact ⟨u, rfl, rfl⟩

/-- What stands behind the closing quote is an end of what follows the opening one. -/
theorem suffix_of_readText {cs t rest : List Char} (h : readText cs = .ok (t, rest)) :
    rest <:+ cs := by
  -- along the characters; an escape takes more than one of them
  fun_induction readText cs generalizing t with
  | case1 => contradiction
  | case2 cs =>
    simp only [Except.ok.injEq, Prod.mk.injEq] at h
    exact h.2 ▸ List.suffix_cons _ _
  | case3 => contradiction
  | case4 cs d r he _ ih =>
    obtain ⟨u, hu, -⟩ := Read.prepend_eq_ok h
    exact (ih hu).trans ((suffix_of_readEscape he).trans (List.suffix_cons _ _))
  | case5 => contradiction
  | case6 c cs _ _ _ ih =>
    obtain ⟨u, hu, -⟩ := Read.prepend_eq_ok h
    exact (ih hu).trans (List.suffix_cons _ _)

/-- The same holds of a text that is passed over. -/
theorem suffix_of_skipText {cs rest : List Char} (h : skipText cs = .ok rest) : rest <:+ cs := by
  fun_induction skipText cs with
  | case1 => contradiction
  | case2 cs => exact Except.ok.inj h ▸ List.suffix_cons _ _
  | case3 => contradiction
  | case4 cs r he _ ih =>
    exact (ih h).trans ((suffix_of_skipEscape he).trans (List.suffix_cons _ _))
  | case5 => contradiction
  | case6 c cs _ _ _ ih => exact (ih h).trans (List.suffix_cons _ _)

end PathFilter.Json
