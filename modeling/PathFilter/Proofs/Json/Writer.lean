import Mathlib.Data.List.Forall2
import PathFilter.Json.Writer
import PathFilter.Proofs.Json.Record

/-!
# What is written is in the grammar

Each writer puts down what the grammar spells as the value that is meant, whatever follows it
(`Writes`). No number is written, so nothing depends on what follows. Nothing here is read: that
what is written down is read back is a consequence, for which no reader has to be looked at.
-/

namespace PathFilter.Json

open Grammar (HexDigit Hex ShortEscape Denotes Key Part Spells Elements Members)

/-! ### Texts -/

/-- A digit is written as the digit that the grammar reads with this number. -/
theorem hexDigit_hexDigit {n : Nat} (h : n < 16) : HexDigit (hexDigit n) n := by
  have hall : ∀ n < 16, ['0', '1', '2', '3', '4', '5', '6', '7', '8', '9', 'a', 'b', 'c', 'd',
    'e', 'f'][n]? = some (hexDigit n) := by decide
  exact .inl (hall n h)

/-- How the writer puts down a character: by a backslash and a letter that stand for it, by the
number of a control character, or as it is. -/
theorem escape_cases (c : Char) :
    (∃ e, ShortEscape e c ∧ escape c = ['\\', e]) ∨
    (c.toNat < 0x20 ∧ escape c =
      ['\\', 'u', '0', '0', hexDigit (c.toNat / 16), hexDigit (c.toNat % 16)]) ∨
    (c ≠ '"' ∧ c ≠ '\\' ∧ 0x20 ≤ c.toNat ∧ escape c = [c]) := by
  unfold escape
  -- the characters with a letter of their own
  split
  · next hc => exact .inl ⟨'"', hc ▸ .quote, rfl⟩
  split
  · next hc => exact .inl ⟨'\\', hc ▸ .backslash, rfl⟩
  split
  · next hc => exact .inl ⟨'b', hc ▸ .backspace, rfl⟩
  split
  · next hc => exact .inl ⟨'f', hc ▸ .formFeed, rfl⟩
  split
  · next hc => exact .inl ⟨'n', hc ▸ .lineFeed, rfl⟩
  split
  · next hc => exact .inl ⟨'r', hc ▸ .carriageReturn, rfl⟩
  split
  · next hc => exact .inl ⟨'t', hc ▸ .tab, rfl⟩
  -- of the others, only control characters may not stand in a text
  split
  · next hf => exact .inr (.inl ⟨by simpa [isForbidden] using hf, rfl⟩)
  · next hq hb _ _ _ _ _ hf =>
    exact .inr (.inr ⟨hq, hb, isForbidden_eq_false_iff.mp (by simpa using hf), rfl⟩)

/-- The number of a control character is written with four digits, the first two being zero. -/
theorem hex_of_lt {n : Nat} (h : n < 0x20) (cs : List Char) :
    Hex ('0' :: '0' :: hexDigit (n / 16) :: hexDigit (n % 16) :: cs) n cs := by
  have hx : Hex ('0' :: '0' :: hexDigit (n / 16) :: hexDigit (n % 16) :: cs)
      (0x1000 * 0 + 0x100 * 0 + 0x10 * (n / 16) + n % 16) cs :=
    .intro (.inl rfl) (.inl rfl) (hexDigit_hexDigit (by omega)) (hexDigit_hexDigit (by omega)) cs
  have hn : 0x1000 * 0 + 0x100 * 0 + 0x10 * (n / 16) + n % 16 = n := by omega
  rwa [hn] at hx

/-- A character that is written denotes itself. -/
theorem denotes_escape {c : Char} {cs t rest : List Char} (h : Denotes cs t rest) :
    Denotes (escape c ++ cs) (c :: t) rest := by
  obtain ⟨e, he, heq⟩ | ⟨hlt, heq⟩ | ⟨hq, hb, hc, heq⟩ := escape_cases c
  all_goals rw [heq]
  · exact .escape (.short he cs) h
  · exact .escape (.unicode (.single (hex_of_lt hlt cs))) h
  · exact .plain hq hb hc h

/-- A text whose characters are written one after the other denotes itself up to the closing quote.
-/
theorem denotes_flatMap_escape (t rest : List Char) :
    Denotes (t.flatMap escape ++ '"' :: rest) t rest := by
  induction t with
  | nil => exact .close rest
  | cons c t ih =>
    rw [List.flatMap_cons, List.append_assoc]
    exact denotes_escape ih

/-- The same for whole texts: what stands between the quotes of a written text denotes this text. -/
theorem text_flatMap_escape (s : String) (rest : List Char) :
    Grammar.Text (s.toList.flatMap escape ++ '"' :: rest) (some s) rest := by
  have h := Grammar.Text.some (denotes_flatMap_escape s.toList rest)
  rwa [String.ofList_toList] at h

theorem writeText_append (s : String) (rest : List Char) :
    writeText s ++ rest = '"' :: (s.toList.flatMap escape ++ '"' :: rest) := by
  simp [writeText]

/-! ### Values -/

/-- That characters are a value, whatever follows them. -/
def Writes (v : Value) (cs : List Char) : Prop := ∀ rest, Spells (.value v) (cs ++ rest) rest

/-- That characters are a member, whatever follows them. -/
def WritesMember (m : Member) (cs : List Char) : Prop :=
  ∀ rest, ∃ ds, Key (cs ++ rest) m.1 ds ∧ Spells (.value m.2) ds rest

theorem writes_text (s : String) : Writes (.text (some s)) (writeText s) := by
  intro rest
  rw [writeText_append]
  exact .text (text_flatMap_escape s rest)

theorem writes_boolean (b : Bool) : Writes (.boolean b) (writeBoolean b) := by
  intro rest
  cases b with
  | true => exact .true rest
  | false => exact .false rest

/-- A member is written as its key and its value, without blanks. -/
theorem writesMember {key : String} {v : Value} {cs : List Char} (h : Writes v cs) :
    WritesMember (some key, v) (writeMember key cs) := by
  intro rest
  refine ⟨cs ++ rest, ?_, h rest⟩
  rw [writeMember, List.append_assoc, writeText_append]
  exact .intro (text_flatMap_escape key _) (.none _) (.none _)

/-! ### Arrays and objects -/

/-- Parts after the first one have a comma each in front of them. -/
theorem commaSeparated_cons (p : List Char) (ps : List (List Char)) :
    commaSeparated (p :: ps) = p ++ ps.flatMap fun q => ',' :: q := by
  rw [commaSeparated]
  -- by induction on the later parts; each of them is once the first one of the rest
  induction ps generalizing p with
  | nil => simp
  | cons q qs ih =>
    rw [List.intercalate_cons_cons, ih, List.flatMap_cons]
    simp

/-- The elements after the first one, up to the bracket. -/
theorem spells_moreElements {vs : List Value} {ps : List (List Char)}
    (h : List.Forall₂ Writes vs ps) (rest : List Char) :
    Spells (.moreElements vs) (ps.flatMap (fun q => ',' :: q) ++ ']' :: rest) rest := by
  -- the grammar puts a comma in front of each further element, as the writer does
  induction h with
  | nil => exact .closeArray (.none _)
  | cons hv _ ih =>
    rw [List.flatMap_cons, List.append_assoc]
    exact .element (.none _) (.none _) (hv _) ih

/-- Written elements, separated by commas and in brackets, are an array. -/
theorem writes_array {vs : List Value} {ps : List (List Char)} (h : List.Forall₂ Writes vs ps) :
    Writes (.array vs) ('[' :: (commaSeparated ps ++ [']'])) := by
  intro rest
  rw [List.cons_append, List.append_assoc]
  -- an array without elements has a rule of its own
  cases h with
  | nil => exact .emptyArray (.none _)
  | cons hv hvs =>
    rw [commaSeparated_cons, List.append_assoc]
    exact .array (.none _) (hv _) (spells_moreElements hvs rest)

/-- The members after the first one, up to the brace. -/
theorem spells_moreMembers {ms : List Member} {ps : List (List Char)}
    (h : List.Forall₂ WritesMember ms ps) (rest : List Char) :
    Spells (.moreMembers ms) (ps.flatMap (fun q => ',' :: q) ++ '}' :: rest) rest := by
  induction h with
  | nil => exact .closeObject (.none _)
  | cons hm _ ih =>
    rw [List.flatMap_cons, List.append_assoc]
    obtain ⟨ds, hk, hv⟩ := hm _
    exact .member (.none _) (.none _) hk hv ih

/-- Written members, separated by commas and in braces, are an object. -/
theorem writes_object {ms : List Member} {ps : List (List Char)}
    (h : List.Forall₂ WritesMember ms ps) : Writes (.object ms) (writeObject ps) := by
  intro rest
  rw [writeObject, List.cons_append, List.append_assoc]
  cases h with
  | nil => exact .emptyObject (.none _)
  | cons hm hms =>
    rw [commaSeparated_cons, List.append_assoc]
    obtain ⟨ds, hk, hv⟩ := hm _
    exact .object (.none _) hk hv (spells_moreMembers hms rest)

/-- A value that is written alone is a whole text. -/
theorem Writes.document {v : Value} {cs : List Char} (h : Writes v cs) :
    Grammar.Document cs v := by
  have hv := h []
  rw [List.append_nil] at hv
  exact .intro (.none cs) hv (.none [])

end PathFilter.Json
