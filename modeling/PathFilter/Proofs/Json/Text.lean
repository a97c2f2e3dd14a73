import Mathlib.Tactic.IntervalCases
import Mathlib.Tactic.SplitIfs
import PathFilter.Json.Text
import PathFilter.Proofs.Json.Grammar

/-!
# Reading texts

The readers of blanks, words and texts decide the rules of the grammar. For each there is one
statement in either direction, or one that is both.

Two readers go over a text. What `readText` returns is what the text denotes, and it returns
something exactly where something is denoted (`readText_eq_ok_iff`); `skipText` looks at the form
alone (`skipText_eq_ok_iff`). The form is what is left of a denoting text when the characters are
forgotten (`Grammar.Denotes.quoted`), so a text that is read can also be passed over.
-/

namespace PathFilter.Json

open Grammar (Blanks HexDigit Hex ShortEscape UnicodeEscape Escape EscapeForm Denotes Quoted)

/-! ### Blanks and words -/

/-- The reader and the grammar have the same four blanks. -/
theorem isBlank_iff {c : Char} : isBlank c = true ↔ c ∈ [' ', '\t', '\n', '\r'] := by
  simp only [isBlank, Bool.or_eq_true, beq_iff_eq, List.mem_cons, List.not_mem_nil, or_false]
  tauto

/-- What is passed over are blanks. -/
theorem blanks_skipBlanks (cs : List Char) : Blanks cs (skipBlanks cs) := by
  induction cs with
  | nil => exact .none []
  | cons c cs ih =>
    rw [skipBlanks, List.dropWhile_cons]
    split
    · next hc => exact .blank (isBlank_iff.mp hc) ih
    · exact .none _

theorem blanks_of_skipBlanks {cs ds : List Char} (h : skipBlanks cs = ds) : Blanks cs ds :=
  h ▸ blanks_skipBlanks cs

theorem Grammar.Blanks.trans {cs ds es : List Char} (h : Blanks cs ds) (h' : Blanks ds es) :
    Blanks cs es := by
  induction h with
  | none => exact h'
  | blank hc _ ih => exact .blank hc (ih h')

theorem skipBlanks_of_blanks {cs ds : List Char} (h : Blanks cs ds) :
    skipBlanks cs = skipBlanks ds := by
  induction h with
  | none => rfl
  | blank hc _ ih => rw [← ih, skipBlanks, List.dropWhile_cons_of_pos (isBlank_iff.mpr hc)]; rfl

theorem skipBlanks_of_blanks_cons {c : Char} {cs rest : List Char} (h : Blanks cs (c :: rest))
    (hc : isBlank c = false) : skipBlanks cs = c :: rest := by
  rw [skipBlanks_of_blanks h, skipBlanks, List.dropWhile_cons_of_neg (by rw [hc]; simp)]

theorem skipBlanks_of_blanks_nil {cs : List Char} (h : Blanks cs []) : skipBlanks cs = [] :=
  skipBlanks_of_blanks h

theorem skipBlanks_skipBlanks (cs : List Char) : skipBlanks (skipBlanks cs) = skipBlanks cs :=
  (skipBlanks_of_blanks (blanks_skipBlanks cs)).symm

/-- A word is read where it stands. -/
theorem readWord_eq_ok_iff {ws cs rest : List Char} :
    readWord ws cs = .ok rest ↔ cs = ws ++ rest := by
  fun_induction readWord ws cs with
  | case1 cs => simp
  | case2 => simp
  | case3 w ws cs ih => simpa using ih
  | case4 w ws c cs hc => simp [hc]

/-! ### Escapes -/

/-- A digit is less than sixteen, being a place in a list of sixteen characters. -/
theorem Grammar.HexDigit.lt {c : Char} {n : Nat} (h : HexDigit c n) : n < 16 := by
  rcases h with h | h <;> exact (List.getElem?_eq_some_iff.mp h).1

/-- Hexadecimal digits are read in either case, with the value that the grammar gives them. -/
theorem hexValue?_eq_some_iff {c : Char} {n : Nat} : hexValue? c = some n ↔ HexDigit c n := by
  constructor
  · intro h
    -- the three ranges, each of which is short enough to be gone through
    have hrange : (48 ≤ c.toNat ∧ c.toNat ≤ 57 ∧ n = c.toNat - 48) ∨
        (97 ≤ c.toNat ∧ c.toNat ≤ 102 ∧ n = c.toNat - 97 + 10) ∨
        (65 ≤ c.toNat ∧ c.toNat ≤ 70 ∧ n = c.toNat - 65 + 10) := by
      unfold hexValue? at h
      simp only [Char.le_def, UInt32.le_iff_toNat_le] at h
      split at h
      · next hc => exact .inl ⟨hc.1, hc.2, (Option.some.inj h).symm⟩
      split at h
      · next hc => exact .inr (.inl ⟨hc.1, hc.2, (Option.some.inj h).symm⟩)
      split at h
      · next hc => exact .inr (.inr ⟨hc.1, hc.2, (Option.some.inj h).symm⟩)
      · contradiction
    rw [← Char.ofNat_toNat c]
    generalize c.toNat = m at hrange
    rcases hrange with ⟨hl, hu, rfl⟩ | ⟨hl, hu, rfl⟩ | ⟨hl, hu, rfl⟩
    · interval_cases m <;> exact .inl rfl
    · interval_cases m <;> exact .inl rfl
    · interval_cases m <;> exact .inr rfl
  · intro h
    have hn := h.lt
    -- either table has one character at each of its sixteen places
    rcases h with h | h <;> interval_cases n <;> cases h <;> rfl

theorem Grammar.ShortEscape.ne_u {e c : Char} (h : ShortEscape e c) : e ≠ 'u' := by
  cases h <;> decide

/-- Four digits make a number if each of them is one. -/
theorem hexNumber?_eq_some_iff {a b c d : Char} {n : Nat} :
    hexNumber? a b c d = some n ↔ ∃ i j k l, hexValue? a = some i ∧ hexValue? b = some j ∧
      hexValue? c = some k ∧ hexValue? d = some l ∧ 0x1000 * i + 0x100 * j + 0x10 * k + l = n := by
  constructor
  · intro h
    obtain ⟨i, hi, h⟩ := Option.bind_eq_some_iff.mp h
    obtain ⟨j, hj, h⟩ := Option.bind_eq_some_iff.mp h
    obtain ⟨k, hk, h⟩ := Option.bind_eq_some_iff.mp h
    obtain ⟨l, hl, h⟩ := Option.bind_eq_some_iff.mp h
    exact ⟨i, j, k, l, hi, hj, hk, hl, Option.some.inj h⟩
  · rintro ⟨i, j, k, l, hi, hj, hk, hl, rfl⟩
    rw [hexNumber?, hi, hj, hk, hl]
    rfl

/-- Four hexadecimal digits are read as the number that they write. -/
theorem readHex_eq_ok_iff {cs rest : List Char} {n : Nat} :
    readHex cs = .ok (n, rest) ↔ Hex cs n rest := by
  constructor
  · intro h
    unfold readHex at h
    -- four characters have to be there, and each of them a digit
    split at h
    · split at h
      · next m hm =>
        obtain ⟨rfl, rfl⟩ := Prod.mk.inj (Except.ok.inj h)
        obtain ⟨i, j, k, l, hi, hj, hk, hl, rfl⟩ := hexNumber?_eq_some_iff.mp hm
        exact .intro (hexValue?_eq_some_iff.mp hi) (hexValue?_eq_some_iff.mp hj)
          (hexValue?_eq_some_iff.mp hk) (hexValue?_eq_some_iff.mp hl) _
      · contradiction
    · split at h <;> contradiction
  · rintro ⟨ha, hb, hc, hd, rest⟩
    have hn := hexNumber?_eq_some_iff.mpr ⟨_, _, _, _, hexValue?_eq_some_iff.mpr ha,
      hexValue?_eq_some_iff.mpr hb, hexValue?_eq_some_iff.mpr hc, hexValue?_eq_some_iff.mpr hd, rfl⟩
    rw [readHex, hn]

/-- The reader and the grammar have the same short escapes. -/
theorem simpleEscape?_eq_some_iff {e c : Char} : simpleEscape? e = some c ↔ ShortEscape e c := by
  constructor
  · intro h
    unfold simpleEscape? at h
    -- eight letters, for the eight rules
    split_ifs at h with he he he he he he he he
    all_goals
      subst he
      cases h
      constructor
  · intro h
    cases h <;> rfl

/-- A character that has to follow is read where it stands. -/
theorem readPairChar_eq_ok_iff {w : Char} {cs rest : List Char} :
    readPairChar w cs = .ok rest ↔ cs = w :: rest := by
  cases cs with
  | nil => simp [readPairChar]
  | cons c cs =>
    rw [readPairChar]
    split
    · next hc => simp [hc]
    · next hc => simp [hc]

/-! ### Surrogates -/

/-- No character has the number of a surrogate. -/
theorem isTrailing_toNat (c : Char) : isTrailing c.toNat = false := by
  -- the numbers of characters leave out just the surrogates
  have hc : c.toNat < 0xD800 ∨ 0xDFFF < c.toNat ∧ c.toNat < 0x110000 := c.valid
  rw [isTrailing, Bool.and_eq_false_iff, decide_eq_false_iff_not, decide_eq_false_iff_not]
  omega

theorem isLeading_toNat (c : Char) : isLeading c.toNat = false := by
  have hc : c.toNat < 0xD800 ∨ 0xDFFF < c.toNat ∧ c.toNat < 0x110000 := c.valid
  rw [isLeading, Bool.and_eq_false_iff, decide_eq_false_iff_not, decide_eq_false_iff_not]
  omega

theorem isTrailing_iff {n : Nat} : isTrailing n = true ↔ 0xDC00 ≤ n ∧ n < 0xE000 := by
  rw [isTrailing, Bool.and_eq_true, decide_eq_true_iff, decide_eq_true_iff]

theorem isLeading_iff {n : Nat} : isLeading n = true ↔ 0xD800 ≤ n ∧ n < 0xDC00 := by
  rw [isLeading, Bool.and_eq_true, decide_eq_true_iff, decide_eq_true_iff]

theorem toNat_ofNat {n : Nat} (h : n.isValidChar) : (Char.ofNat n).toNat = n := by
  rw [Char.ofNat, dif_pos h]
  rfl

/-- Every other number of four digits is that of a character. -/
theorem Grammar.Hex.toNat_ofNat {n : Nat} {cs rest : List Char} (h : Hex cs n rest)
    (ht : isTrailing n = false) (hl : isLeading n = false) : (Char.ofNat n).toNat = n := by
  -- four digits write a number below the planes that pairs are needed for
  have hn : n < 0x10000 := by
    obtain ⟨ha, hb, hc, hd, -⟩ := h
    have h₁ := ha.lt
    have h₂ := hb.lt
    have h₃ := hc.lt
    have h₄ := hd.lt
    omega
  rw [← Bool.not_eq_true, isTrailing_iff] at ht
  rw [← Bool.not_eq_true, isLeading_iff] at hl
  apply Json.toNat_ofNat
  rw [Nat.isValidChar]
  omega

/-- Two surrogates stand for the one character that has their number. -/
theorem pairedChar_eq_iff {high low : Nat} {c : Char} (hh : 0xD800 ≤ high ∧ high < 0xDC00)
    (hl : 0xDC00 ≤ low ∧ low < 0xE000) :
    pairedChar high low = c ↔ c.toNat = 0x10000 + (high - 0xD800) * 0x400 + (low - 0xDC00) := by
  -- the number of a pair lies above the surrogates and within what a character can have
  have hvalid : (0x10000 + (high - 0xD800) * 0x400 + (low - 0xDC00)).isValidChar := by
    rw [Nat.isValidChar]
    omega
  rw [pairedChar]
  constructor
  · rintro rfl
    exact toNat_ofNat hvalid
  · intro hc
    rw [← hc, Char.ofNat_toNat]

/-- What is read behind `\u` is the character of an escape. -/
theorem unicodeEscape_of_readUnicode {c : Char} {cs rest : List Char}
    (h : readUnicode cs = .ok (c, rest)) : UnicodeEscape cs c rest := by
  obtain ⟨⟨n, more⟩, hx, h⟩ := bind_eq_ok h
  rw [readHex_eq_ok_iff] at hx
  dsimp only at h
  split at h
  · -- a trailing surrogate comes first
    contradiction
  · next ht =>
    split at h
    · -- a leading one, with a backslash, a `u` and its partner behind it
      next hl =>
      obtain ⟨ds, hds, h⟩ := bind_eq_ok h
      obtain ⟨es, hes, h⟩ := bind_eq_ok h
      obtain ⟨⟨m, left⟩, hy, h⟩ := bind_eq_ok h
      rw [readPairChar_eq_ok_iff] at hds hes
      rw [readHex_eq_ok_iff] at hy
      dsimp only at h
      split at h
      · next hm =>
        obtain ⟨hc, rfl⟩ := Prod.mk.inj (Except.ok.inj h)
        subst hds hes
        rw [isLeading_iff] at hl
        rw [isTrailing_iff] at hm
        exact .pair hx hy hl hm ((pairedChar_eq_iff hl hm).mp hc)
      · contradiction
    · -- the number of a character
      next hl =>
      obtain ⟨rfl, rfl⟩ := Prod.mk.inj (Except.ok.inj h)
      refine .single ?_
      rwa [hx.toNat_ofNat (Bool.not_eq_true _ ▸ ht) (Bool.not_eq_true _ ▸ hl)]

/-- Four digits that are the number of a character are read as that character. -/
theorem readUnicode_single {c : Char} {cs rest : List Char} (hx : Hex cs c.toNat rest) :
    readUnicode cs = .ok (c, rest) := by
  rw [readUnicode, readHex_eq_ok_iff.mpr hx]
  change (if isTrailing c.toNat = true then _
    else if isLeading c.toNat = true then _ else _) = _
  rw [isTrailing_toNat, isLeading_toNat, if_neg Bool.false_ne_true, if_neg Bool.false_ne_true,
    Char.ofNat_toNat]

/-- A surrogate with its partner is read as the character that the two stand for. -/
theorem readUnicode_pair {high low : Nat} {c : Char} {cs ds rest : List Char}
    (hx : Hex cs high ('\\' :: 'u' :: ds)) (hy : Hex ds low rest)
    (hh : 0xD800 ≤ high ∧ high < 0xDC00) (hl : 0xDC00 ≤ low ∧ low < 0xE000)
    (hc : c.toNat = 0x10000 + (high - 0xD800) * 0x400 + (low - 0xDC00)) :
    readUnicode cs = .ok (c, rest) := by
  -- the first number is a leading surrogate, so the reader looks for a partner
  have hnot : ¬ isTrailing high = true := by
    rw [isTrailing_iff]
    omega
  rw [readUnicode, readHex_eq_ok_iff.mpr hx]
  change (if isTrailing high = true then _ else if isLeading high = true then _ else _) = _
  rw [if_neg hnot, if_pos (isLeading_iff.mpr hh)]
  -- the backslash and the letter are there; what is left are the digits of the partner
  change (readHex ds >>= fun p =>
    if isTrailing p.1 then .ok (pairedChar high p.1, p.2)
    else .error (.here p.2 .loneSurrogate)) = _
  rw [readHex_eq_ok_iff.mpr hy]
  change (if isTrailing low = true then _ else _) = _
  rw [if_pos (isTrailing_iff.mpr hl), (pairedChar_eq_iff hh hl).mpr hc]

/-- **Escapes by number** are read as the grammar has them, surrogates in pairs. -/
theorem readUnicode_eq_ok_iff {c : Char} {cs rest : List Char} :
    readUnicode cs = .ok (c, rest) ↔ UnicodeEscape cs c rest := by
  refine ⟨unicodeEscape_of_readUnicode, fun h => ?_⟩
  cases h with
  | single hx => exact readUnicode_single hx
  | pair hx hy hh hl hc => exact readUnicode_pair hx hy hh hl hc

/-- An escape is read as the character that it stands for. -/
theorem readEscape_eq_ok_iff {c : Char} {cs rest : List Char} :
    readEscape cs = .ok (c, rest) ↔ Escape cs c rest := by
  constructor
  · intro h
    cases cs with
    | nil => contradiction
    | cons e cs =>
      rw [readEscape] at h
      split at h
      -- a `u` asks for digits, any other letter for an entry of the table
      · next he => exact he ▸ .unicode (readUnicode_eq_ok_iff.mp h)
      · split at h
        · next d hd =>
          obtain ⟨rfl, rfl⟩ := Prod.mk.inj (Except.ok.inj h)
          exact .short (simpleEscape?_eq_some_iff.mp hd) _
        · contradiction
  · intro h
    cases h with
    | short he =>
      -- no entry of the table is a `u`, which would be taken for digits
      rw [readEscape, if_neg he.ne_u, simpleEscape?_eq_some_iff.mpr he]
    | unicode hu =>
      rw [readEscape, if_pos rfl, readUnicode_eq_ok_iff.mpr hu]

/-- An escape is passed over by its form, which a surrogate without a partner has as well. -/
theorem skipEscape_eq_ok_iff {cs rest : List Char} :
    skipEscape cs = .ok rest ↔ EscapeForm cs rest := by
  constructor
  · intro h
    cases cs with
    | nil => contradiction
    | cons e cs =>
      rw [skipEscape] at h
      split at h
      -- the digits are looked at, but not what they are the number of
      · next he =>
        obtain ⟨⟨n, more⟩, hx, rfl⟩ := map_eq_ok h
        exact he ▸ .unicode (readHex_eq_ok_iff.mp hx)
      · split at h
        · next hd =>
          obtain ⟨c, hc⟩ := Option.isSome_iff_exists.mp hd
          exact Except.ok.inj h ▸ .short (simpleEscape?_eq_some_iff.mp hc) _
        · contradiction
  · intro h
    cases h with
    | short he =>
      rw [skipEscape, if_neg he.ne_u, simpleEscape?_eq_some_iff.mpr he]
      rfl
    | unicode hx =>
      rw [skipEscape, if_pos rfl, readHex_eq_ok_iff.mpr hx]
      rfl

/-! ### Texts -/

theorem isForbidden_eq_false_iff {c : Char} : isForbidden c = false ↔ 0x20 ≤ c.toNat := by
  rw [isForbidden, decide_eq_false_iff_not, Nat.not_lt]

/-- **Texts that are read.** They are the texts that denote, and what is read is what they
denote. -/
theorem readText_eq_ok_iff {cs t rest : List Char} :
    readText cs = .ok (t, rest) ↔ Denotes cs t rest := by
  constructor
  · intro h
    -- the text that is left gets longer by the characters in front of it, so `t` is not fixed
    fun_induction readText cs generalizing t with
    | case1 => contradiction
    | case2 cs =>
      obtain ⟨rfl, rfl⟩ := Prod.mk.inj (Except.ok.inj h)
      exact .close cs
    | case3 => contradiction
    | case4 cs d more he _ ih =>
      obtain ⟨u, hu, rfl⟩ := Read.prepend_eq_ok h
      exact .escape (readEscape_eq_ok_iff.mp he) (ih hu)
    | case5 => contradiction
    | case6 c cs hq hb hf ih =>
      obtain ⟨u, hu, rfl⟩ := Read.prepend_eq_ok h
      exact .plain hq hb (isForbidden_eq_false_iff.mp (Bool.not_eq_true _ ▸ hf)) (ih hu)
  · intro h
    -- in the other direction each rule of the grammar is one step of the reader
    induction h with
    | close rest => exact readText_quote rest
    | escape he _ ih => rw [readText_escape (readEscape_eq_ok_iff.mpr he), ih]; rfl
    | plain hq hb hc _ ih =>
      rw [readText_cons _ hq hb (isForbidden_eq_false_iff.mpr hc), ih]
      rfl

/-- **Texts that are passed over.** They are the texts that have the form. -/
theorem skipText_eq_ok_iff {cs rest : List Char} : skipText cs = .ok rest ↔ Quoted cs rest := by
  constructor
  · intro h
    -- no text is made here, so the induction of the reader needs nothing but the place
    fun_induction skipText cs with
    | case1 => contradiction
    | case2 cs => exact Except.ok.inj h ▸ .close cs
    | case3 => contradiction
    | case4 cs more he _ ih => exact .escape (skipEscape_eq_ok_iff.mp he) (ih h)
    | case5 => contradiction
    | case6 c cs hq hb hf ih =>
      exact .plain hq hb (isForbidden_eq_false_iff.mp (Bool.not_eq_true _ ▸ hf)) (ih h)
  · intro h
    induction h with
    | close rest => exact skipText_quote rest
    | escape he _ ih => rw [skipText_escape (skipEscape_eq_ok_iff.mpr he), ih]
    | plain hq hb hc _ ih => rw [skipText_cons _ hq hb (isForbidden_eq_false_iff.mpr hc), ih]

/-! ### Texts by form -/

namespace Grammar

/-- What denotes has the form. -/
theorem Denotes.quoted {cs t rest : List Char} (h : Denotes cs t rest) : Quoted cs rest := by
  induction h with
  | close rest => exact .close rest
  | escape he _ ih =>
    -- a surrogate pair is one escape that denotes, and two by its form
    cases he with
    | short he => exact .escape (.short he _) ih
    | unicode hu =>
      cases hu with
      | single hx => exact .escape (.unicode hx) ih
      | pair hx hy => exact .escape (.unicode hx) (.escape (.unicode hy) ih)
  | plain hq hb hc _ ih => exact .plain hq hb hc ih

/-- So has every text, since one that does not denote is a text by its form. -/
theorem Text.quoted {cs rest : List Char} {t : Option String} (h : Text cs t rest) :
    Quoted cs rest := by
  cases h with
  | some h => exact h.quoted
  | none h => exact h

/-- What has the form is a text, whether it denotes or not. -/
theorem Quoted.exists_text {cs rest : List Char} (h : Quoted cs rest) : ∃ t, Text cs t rest := by
  -- either the text denotes, and then it is what it denotes, or it is a text that does not
  by_cases hd : ∃ t r, Denotes cs t r
  · obtain ⟨t, r, hd⟩ := hd
    -- the two readings by form end at the same place
    have hr := skipText_eq_ok_iff.mpr hd.quoted
    rw [skipText_eq_ok_iff.mpr h] at hr
    obtain rfl : rest = r := Except.ok.inj hr
    exact ⟨some (String.ofList t), Text.some hd⟩
  · exact ⟨none, Text.none h fun t r hn => hd ⟨t, r, hn⟩⟩

/-- A text is read exactly as far as it denotes. -/
theorem Text.toOption_readText {cs rest : List Char} {t : Option String} (h : Text cs t rest) :
    (readText cs).toOption = t.map fun s => (s.toList, rest) := by
  cases h with
  | some h =>
    rw [readText_eq_ok_iff.mpr h, Option.map_some, String.toList_ofList]
    rfl
  | none h hn =>
    -- whatever would be read would be denoted
    cases hr : readText cs with
    | error f => rfl
    | ok p => exact absurd (readText_eq_ok_iff.mp hr) (hn p.1 p.2)

end Grammar

end PathFilter.Json
