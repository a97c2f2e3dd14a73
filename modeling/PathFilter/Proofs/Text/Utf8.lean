import PathFilter.Text.Bytes

/-!
# The bytes of texts

Not every sequence of bytes is the UTF-8 form of a text. Which ones are is said here by the bytes
alone: the bytes of one character have one of nine forms, told apart by the first byte
(`Utf8.Character`), and those of a text are the bytes of any number of characters in a row
(`Utf8.WellFormed`).

Four of the forms have a narrower range for their second byte than the others. These ranges are what
the description stands on. They keep a character from being written with more bytes than it needs
(`threeFirst`, `fourFirst`; for two bytes the range of the first one does it), keep the surrogates
out (`threeBelowSurrogates`), and end the forms at the last code point (`fourLast`).

* From a character to its bytes, the form is found by the code point
  (`Utf8.character_utf8EncodeChar`).
* From the bytes to a character, the code point is put together again, and by the narrower ranges it
  is one, and one that needs that many bytes (`Utf8.exists_utf8EncodeChar`).
* `Utf8.wellFormed_iff_exists_toUTF8` carries both over to whole texts.
-/

namespace PathFilter.Text.Utf8

/-! ### Forms -/

/-- A byte of a closed range. -/
def Between (lo hi : Nat) (b : UInt8) : Prop := lo ≤ b.toNat ∧ b.toNat ≤ hi

/-- A byte that is not the first of its character. -/
abbrev Follows : UInt8 → Prop := Between 0x80 0xBF

/-- The bytes of one character. -/
inductive Character : List UInt8 → Prop where
  | one {a : UInt8} (ha : Between 0x00 0x7F a) : Character [a]
  | two {a b : UInt8} (ha : Between 0xC2 0xDF a) (hb : Follows b) : Character [a, b]
  | threeFirst {a b c : UInt8} (ha : Between 0xE0 0xE0 a) (hb : Between 0xA0 0xBF b)
    (hc : Follows c) : Character [a, b, c]
  | threeLow {a b c : UInt8} (ha : Between 0xE1 0xEC a) (hb : Follows b) (hc : Follows c) :
    Character [a, b, c]
  | threeBelowSurrogates {a b c : UInt8} (ha : Between 0xED 0xED a) (hb : Between 0x80 0x9F b)
    (hc : Follows c) : Character [a, b, c]
  | threeHigh {a b c : UInt8} (ha : Between 0xEE 0xEF a) (hb : Follows b) (hc : Follows c) :
    Character [a, b, c]
  | fourFirst {a b c d : UInt8} (ha : Between 0xF0 0xF0 a) (hb : Between 0x90 0xBF b)
    (hc : Follows c) (hd : Follows d) : Character [a, b, c, d]
  | four {a b c d : UInt8} (ha : Between 0xF1 0xF3 a) (hb : Follows b) (hc : Follows c)
    (hd : Follows d) : Character [a, b, c, d]
  | fourLast {a b c d : UInt8} (ha : Between 0xF4 0xF4 a) (hb : Between 0x80 0x8F b)
    (hc : Follows c) (hd : Follows d) : Character [a, b, c, d]

/-- The bytes of any number of characters. -/
inductive WellFormed : List UInt8 → Prop where
  | nil : WellFormed []
  | append {bs rest : List UInt8} (hbs : Character bs) (hrest : WellFormed rest) :
    WellFormed (bs ++ rest)

/-! ### Numbers of bytes -/

section Encode

variable {x : Char}

theorem toNat_val_valid (x : Char) :
    x.val.toNat < 0xD800 ∨ 0xDFFF < x.val.toNat ∧ x.val.toNat < 0x110000 := x.valid

theorem utf8EncodeChar_one (h : x.val.toNat ≤ 0x7F) :
    String.utf8EncodeChar x = [UInt8.ofNat x.val.toNat] :=
  if_pos h

theorem utf8EncodeChar_two (h : 0x7F < x.val.toNat) (h' : x.val.toNat ≤ 0x7FF) :
    String.utf8EncodeChar x =
      [UInt8.ofNat (x.val.toNat / 64 % 32 + 192), UInt8.ofNat (x.val.toNat % 64 + 128)] :=
  (if_neg (by omega)).trans (if_pos h')

theorem utf8EncodeChar_three (h : 0x7FF < x.val.toNat) (h' : x.val.toNat ≤ 0xFFFF) :
    String.utf8EncodeChar x =
      [UInt8.ofNat (x.val.toNat / 4096 % 16 + 224), UInt8.ofNat (x.val.toNat / 64 % 64 + 128),
        UInt8.ofNat (x.val.toNat % 64 + 128)] :=
  (if_neg (by omega)).trans ((if_neg (by omega)).trans (if_pos h'))

theorem utf8EncodeChar_four (h : 0xFFFF < x.val.toNat) :
    String.utf8EncodeChar x =
      [UInt8.ofNat (x.val.toNat / 262144 % 8 + 240), UInt8.ofNat (x.val.toNat / 4096 % 64 + 128),
        UInt8.ofNat (x.val.toNat / 64 % 64 + 128), UInt8.ofNat (x.val.toNat % 64 + 128)] :=
  (if_neg (by omega)).trans ((if_neg (by omega)).trans (if_neg (by omega)))

end Encode

/-! ### From a character to its bytes -/

theorem between_ofNat {lo hi n : Nat} (h : lo ≤ n ∧ n ≤ hi) (hhi : hi < 256) :
    Between lo hi (UInt8.ofNat n) := by
  have hn : (UInt8.ofNat n).toNat = n := UInt8.toNat_ofNat_of_lt' (Nat.lt_of_le_of_lt h.2 hhi)
  rwa [Between, hn]

/-- A byte that is not the first of its character holds six bits of the code point. -/
theorem follows_ofNat (n : Nat) : Follows (UInt8.ofNat (n % 64 + 128)) :=
  between_ofNat (by omega) (by omega)

/-- Three bytes are of the form that the place of the code point among the surrogates and the
shorter ones asks for. -/
theorem character_of_three {n : Nat} (hlow : 0x7FF < n) (hhigh : n ≤ 0xFFFF)
    (hvalid : n < 0xD800 ∨ 0xDFFF < n) :
    Character [UInt8.ofNat (n / 4096 % 16 + 224), UInt8.ofNat (n / 64 % 64 + 128),
      UInt8.ofNat (n % 64 + 128)] := by
  -- the code points from 0x1000, 0xD000 and 0xE000 on have another first byte each
  by_cases hfirst : n < 0x1000
  · exact .threeFirst (between_ofNat (by omega) (by omega)) (between_ofNat (by omega) (by omega))
      (follows_ofNat _)
  by_cases hbelow : n < 0xD000
  · exact .threeLow (between_ofNat (by omega) (by omega)) (follows_ofNat _) (follows_ofNat _)
  by_cases hsurrogate : n < 0xD800
  · exact .threeBelowSurrogates (between_ofNat (by omega) (by omega))
      (between_ofNat (by omega) (by omega)) (follows_ofNat _)
  · exact .threeHigh (between_ofNat (by omega) (by omega)) (follows_ofNat _) (follows_ofNat _)

/-- Four bytes are of the form that the leading bits of the code point ask for. -/
theorem character_of_four {n : Nat} (hlow : 0xFFFF < n) (hhigh : n < 0x110000) :
    Character [UInt8.ofNat (n / 262144 % 8 + 240), UInt8.ofNat (n / 4096 % 64 + 128),
      UInt8.ofNat (n / 64 % 64 + 128), UInt8.ofNat (n % 64 + 128)] := by
  -- likewise those from 0x40000 and 0x100000 on
  by_cases hfirst : n < 0x40000
  · exact .fourFirst (between_ofNat (by omega) (by omega)) (between_ofNat (by omega) (by omega))
      (follows_ofNat _) (follows_ofNat _)
  by_cases hlast : n < 0x100000
  · exact .four (between_ofNat (by omega) (by omega)) (follows_ofNat _) (follows_ofNat _)
      (follows_ofNat _)
  · exact .fourLast (between_ofNat (by omega) (by omega)) (between_ofNat (by omega) (by omega))
      (follows_ofNat _) (follows_ofNat _)

/-- **The bytes of a character** have one of the forms. -/
theorem character_utf8EncodeChar (x : Char) : Character (String.utf8EncodeChar x) := by
  have hvalid := toNat_val_valid x
  -- by the number of bytes that the encoder takes
  by_cases h1 : x.val.toNat ≤ 0x7F
  · rw [utf8EncodeChar_one h1]
    exact .one (between_ofNat ⟨Nat.zero_le _, h1⟩ (by omega))
  by_cases h2 : x.val.toNat ≤ 0x7FF
  · rw [utf8EncodeChar_two (by omega) h2]
    exact .two (between_ofNat (by omega) (by omega)) (follows_ofNat _)
  by_cases h3 : x.val.toNat ≤ 0xFFFF
  · rw [utf8EncodeChar_three (by omega) h3]
    exact character_of_three (by omega) h3 (by omega)
  · rw [utf8EncodeChar_four (by omega)]
    exact character_of_four (by omega) (by omega)

/-! ### From the bytes to a character -/

theorem ofNat_eq {n : Nat} {b : UInt8} (h : n = b.toNat) : UInt8.ofNat n = b := by
  rw [h, UInt8.ofNat_toNat]

/-- A code point that may be one is that of a character. -/
theorem exists_toNat_val_eq {n : Nat} (h : n < 0xD800 ∨ 0xDFFF < n ∧ n < 0x110000) :
    ∃ x : Char, x.val.toNat = n :=
  ⟨Char.ofNatAux n h, rfl⟩

variable {a b c d : UInt8}

theorem exists_one (ha : a.toNat ≤ 0x7F) : ∃ x, String.utf8EncodeChar x = [a] := by
  obtain ⟨x, hx⟩ := exists_toNat_val_eq (n := a.toNat) (by omega)
  refine ⟨x, ?_⟩
  rw [utf8EncodeChar_one (by omega), hx, ofNat_eq rfl]

/-- Two bytes are those of a character, since the range of the first one excludes those that one
byte would do for. -/
theorem exists_two (ha : Between 0xC2 0xDF a) (hb : Follows b) :
    ∃ x, String.utf8EncodeChar x = [a, b] := by
  obtain ⟨ha, ha'⟩ := ha
  obtain ⟨hb, hb'⟩ := hb
  obtain ⟨x, hx⟩ := exists_toNat_val_eq
    (n := (a.toNat - 0xC0) * 64 + (b.toNat - 0x80)) (by omega)
  refine ⟨x, ?_⟩
  rw [utf8EncodeChar_two (by omega) (by omega), hx, ofNat_eq (b := a) (by omega),
    ofNat_eq (b := b) (by omega)]

/-- Three bytes are those of a character, unless two would have been enough or they lead to a
surrogate. -/
theorem exists_three (ha : Between 0xE0 0xEF a) (hb : Follows b) (hc : Follows c)
    (hneeded : 0xE0 < a.toNat ∨ 0xA0 ≤ b.toNat) (hsurrogate : a.toNat ≠ 0xED ∨ b.toNat ≤ 0x9F) :
    ∃ x, String.utf8EncodeChar x = [a, b, c] := by
  obtain ⟨ha, ha'⟩ := ha
  obtain ⟨hb, hb'⟩ := hb
  obtain ⟨hc, hc'⟩ := hc
  -- the code point is put together from what the bytes carry, and encoding it takes it apart again
  obtain ⟨x, hx⟩ := exists_toNat_val_eq
    (n := (a.toNat - 0xE0) * 4096 + (b.toNat - 0x80) * 64 + (c.toNat - 0x80)) (by omega)
  refine ⟨x, ?_⟩
  rw [utf8EncodeChar_three (by omega) (by omega), hx, ofNat_eq (b := a) (by omega),
    ofNat_eq (b := b) (by omega), ofNat_eq (b := c) (by omega)]

/-- Four bytes are those of a character, unless three would have been enough or they lead beyond
the last code point. -/
theorem exists_four (ha : Between 0xF0 0xF4 a) (hb : Follows b) (hc : Follows c) (hd : Follows d)
    (hneeded : 0xF0 < a.toNat ∨ 0x90 ≤ b.toNat) (hlast : a.toNat < 0xF4 ∨ b.toNat ≤ 0x8F) :
    ∃ x, String.utf8EncodeChar x = [a, b, c, d] := by
  obtain ⟨ha, ha'⟩ := ha
  obtain ⟨hb, hb'⟩ := hb
  obtain ⟨hc, hc'⟩ := hc
  obtain ⟨hd, hd'⟩ := hd
  -- three bits of the first byte and six of each of the others
  obtain ⟨x, hx⟩ := exists_toNat_val_eq
    (n := (a.toNat - 0xF0) * 262144 + (b.toNat - 0x80) * 4096 + (c.toNat - 0x80) * 64 +
      (d.toNat - 0x80)) (by omega)
  refine ⟨x, ?_⟩
  rw [utf8EncodeChar_four (by omega), hx, ofNat_eq (b := a) (by omega),
    ofNat_eq (b := b) (by omega), ofNat_eq (b := c) (by omega), ofNat_eq (b := d) (by omega)]

/-- **Bytes of one of the forms** are those of a character. -/
theorem Character.exists_utf8EncodeChar {bs : List UInt8} (h : Character bs) :
    ∃ x, String.utf8EncodeChar x = bs := by
  -- the narrower range of a form is what makes its code point one that needs its bytes
  cases h with
  | one ha => exact exists_one ha.2
  | two ha hb => exact exists_two ha hb
  -- an overlong form is excluded by the second byte here, and by the first one below
  | threeFirst ha hb hc =>
    obtain ⟨ha, ha'⟩ := ha
    obtain ⟨hb, hb'⟩ := hb
    exact exists_three ⟨by omega, by omega⟩ ⟨by omega, hb'⟩ hc (.inr hb) (.inl (by omega))
  | threeLow ha hb hc =>
    obtain ⟨ha, ha'⟩ := ha
    exact exists_three ⟨by omega, by omega⟩ hb hc (.inl ha) (.inl (by omega))
  | threeBelowSurrogates ha hb hc =>
    obtain ⟨ha, ha'⟩ := ha
    obtain ⟨hb, hb'⟩ := hb
    exact exists_three ⟨by omega, by omega⟩ ⟨hb, by omega⟩ hc (.inl (by omega)) (.inr hb')
  | threeHigh ha hb hc =>
    obtain ⟨ha, ha'⟩ := ha
    exact exists_three ⟨by omega, ha'⟩ hb hc (.inl (by omega)) (.inl (by omega))
  | fourFirst ha hb hc hd =>
    obtain ⟨ha, ha'⟩ := ha
    obtain ⟨hb, hb'⟩ := hb
    exact exists_four ⟨by omega, by omega⟩ ⟨by omega, hb'⟩ hc hd (.inr hb) (.inl (by omega))
  | four ha hb hc hd =>
    obtain ⟨ha, ha'⟩ := ha
    exact exists_four ⟨by omega, by omega⟩ hb hc hd (.inl ha) (.inl (by omega))
  | fourLast ha hb hc hd =>
    obtain ⟨ha, ha'⟩ := ha
    obtain ⟨hb, hb'⟩ := hb
    exact exists_four ⟨by omega, by omega⟩ ⟨hb, by omega⟩ hc hd (.inl (by omega)) (.inr hb')

/-! ### Whole texts -/

/-- The bytes of characters in a row are well formed. -/
theorem wellFormed_flatMap (xs : List Char) : WellFormed (xs.flatMap String.utf8EncodeChar) := by
  induction xs with
  | nil => exact .nil
  | cons x xs ih =>
    rw [List.flatMap_cons]
    exact .append (character_utf8EncodeChar x) ih

/-- Well-formed bytes are those of some characters in a row. -/
theorem WellFormed.exists_flatMap {bs : List UInt8} (h : WellFormed bs) :
    ∃ xs : List Char, xs.flatMap String.utf8EncodeChar = bs := by
  -- character by character
  induction h with
  | nil => exact ⟨[], rfl⟩
  | append hbs _ ih =>
    obtain ⟨x, rfl⟩ := hbs.exists_utf8EncodeChar
    obtain ⟨xs, rfl⟩ := ih
    exact ⟨x :: xs, List.flatMap_cons⟩

/-- The bytes of a text are those of its characters in a row. -/
theorem toList_data_toUTF8 (s : String) :
    s.toUTF8.data.toList = s.toList.flatMap String.utf8EncodeChar := by
  rw [String.toUTF8_eq_toByteArray, ← String.utf8Encode_toList]
  exact List.toList_data_toByteArray

/-- **The bytes of texts** are the well-formed ones. -/
theorem wellFormed_iff_exists_toUTF8 {bytes : ByteArray} :
    WellFormed bytes.data.toList ↔ ∃ s : String, s.toUTF8 = bytes := by
  constructor
  · intro h
    obtain ⟨xs, hxs⟩ := h.exists_flatMap
    refine ⟨String.ofList xs, ByteArray.ext (Array.toList_inj.mp ?_)⟩
    rw [toList_data_toUTF8, String.toList_ofList, hxs]
  · rintro ⟨s, rfl⟩
    rw [toList_data_toUTF8]
    exact wellFormed_flatMap s.toList

/-! ### Bytes that spoil a text -/

/-- The first byte of a character is not one of those that only follow, would make two bytes out of
one, or lead beyond the last code point. -/
theorem Character.first {bs : List UInt8} (h : Character (a :: bs)) :
    a.toNat ≤ 0x7F ∨ Between 0xC2 0xF4 a := by
  cases h with
  | one ha => exact .inl ha.2
  | two ha | threeFirst ha | threeLow ha | threeBelowSurrogates ha | threeHigh ha | fourFirst ha
  | four ha | fourLast ha =>
    obtain ⟨ha, ha'⟩ := ha
    exact .inr ⟨by omega, by omega⟩

/-- The first bytes of a text that is not empty are those of a character. -/
theorem WellFormed.exists_character {bs : List UInt8} (h : WellFormed (a :: bs)) :
    ∃ cs, Character (a :: cs) := by
  -- the first byte belongs to the first character, which has at least one
  generalize hbytes : a :: bs = as at h
  cases h with
  | nil => contradiction
  | @append front _ hfront _ =>
    cases front with
    | nil => cases hfront
    | cons c cs =>
      rw [List.cons_append] at hbytes
      obtain ⟨rfl, -⟩ := List.cons.inj hbytes
      exact ⟨cs, hfront⟩

/-- No text begins with a byte that no character begins with. -/
theorem not_wellFormed_cons (ha : Between 0x80 0xC1 a ∨ 0xF5 ≤ a.toNat) (bs : List UInt8) :
    ¬ WellFormed (a :: bs) := by
  intro h
  obtain ⟨cs, hcs⟩ := h.exists_character
  rcases hcs.first with hone | ⟨hlo, hhi⟩
  · rcases ha with ⟨ha, -⟩ | ha <;> omega
  · rcases ha with ⟨-, ha⟩ | ha <;> omega

/-- Characters in front of other bytes can be told from them. -/
theorem utf8EncodeChar_append_inj {x y : Char} {as bs : List UInt8}
    (h : String.utf8EncodeChar x ++ as = String.utf8EncodeChar y ++ bs) : x = y ∧ as = bs := by
  have hbytes := congrArg List.toByteArray h
  rw [List.toByteArray_append, List.toByteArray_append] at hbytes
  have hdecode := congrArg (ByteArray.utf8DecodeChar? · 0) hbytes
  simp only [ByteArray.utf8DecodeChar?_utf8EncodeChar_append, Option.some.injEq] at hdecode
  subst hdecode
  exact ⟨rfl, List.append_cancel_left h⟩

/-- **What stands in front does not help.** Behind the bytes of a text only the bytes of a text make
one again. -/
theorem WellFormed.of_append {as bs : List UInt8} (has : WellFormed as)
    (h : WellFormed (as ++ bs)) : WellFormed bs := by
  obtain ⟨xs, rfl⟩ := has.exists_flatMap
  obtain ⟨ys, hys⟩ := h.exists_flatMap
  clear has h
  -- along the characters in front: each of them is the first one of the whole as well
  induction xs generalizing ys with
  | nil =>
    rw [List.flatMap_nil, List.nil_append] at hys
    exact hys ▸ wellFormed_flatMap ys
  | cons x xs ih =>
    rw [List.flatMap_cons, List.append_assoc] at hys
    cases ys with
    | nil =>
      have hnil : String.utf8EncodeChar x = [] := (List.append_eq_nil_iff.mp hys.symm).1
      exact absurd hnil String.utf8EncodeChar_ne_nil
    | cons y ys =>
      rw [List.flatMap_cons] at hys
      exact ih ys (utf8EncodeChar_append_inj hys).2

end PathFilter.Text.Utf8
