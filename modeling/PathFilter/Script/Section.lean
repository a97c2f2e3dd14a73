import PathFilter.Script.Layout
import PathFilter.Script.Quoted

/-!
# The sections of a filter script

A script is layout, at most one **section**, and layout. A section is the word `path`, a colon,
and **entries**: names with an optional value, which is a quoted text or a bracketed list of
quoted texts. Layout may stand anywhere between these parts.

What is read here is the form of a script only. Which names are known, which of them take what
value, and that none is repeated, is asked afterwards of the entries as a whole; so a fault of
form anywhere in the text comes before any complaint about an entry.

Each reader leaves an end of what it was given. Where a loop repeats one, the loop ends because
the reader takes at least one character: the opening quote of an item, the first letter of a name.
-/

namespace PathFilter.Script

/-! ### Names -/

/-- Whether a name may start with the character: an ASCII letter or an underscore. -/
def startsName (c : Char) : Bool := c.isAlpha || c == '_'

/-- Whether a name may go on with the character: an ASCII letter or digit, or an underscore. -/
def continuesName (c : Char) : Bool := c.isAlphanum || c == '_'

/-- Reads the longest name that starts here. -/
def readName? : List Char → Option (List Char × List Char)
  | [] => none
  | c :: cs =>
    if startsName c then some (c :: cs.takeWhile continuesName, cs.dropWhile continuesName)
    else none

/-- A name has a first character, and an end of what follows that one is left. -/
theorem suffix_of_readName? {cs n rest : List Char} (h : readName? cs = some (n, rest)) :
    ∃ c t, cs = c :: t ∧ rest <:+ t := by
  cases cs with
  | nil => contradiction
  | cons c t =>
    rw [readName?] at h
    split at h
    · simp only [Option.some.injEq, Prod.mk.injEq] at h
      exact ⟨c, t, rfl, h.2 ▸ List.dropWhile_suffix _⟩
    · contradiction

theorem length_lt_of_readName? {cs n rest : List Char} (h : readName? cs = some (n, rest)) :
    rest.length < cs.length := by
  obtain ⟨c, t, rfl, hr⟩ := suffix_of_readName? h
  exact Nat.lt_succ_of_le hr.length_le

/-! ### Lists -/

/-- The construct that every item of a list has to be. -/
def itemExpected : Expectation := .construct "string literal"

/-- Reads the items of a list whose opening bracket has been read, up to its closing bracket.
Commas stand between the items; one more may stand behind the last. -/
def readItems (cs : List Char) : Read (List String) :=
  match _hs : skipLayout cs with
  | ']' :: rest => .ok ([], rest)
  | '"' :: quoted =>
    match _hq : readQuoted quoted with
    | .error f => .error (f.within itemExpected)
    | .ok (t, more) =>
      match _hm : skipLayout more with
      | ',' :: next =>
        -- a closing bracket may follow, since the next turn looks for one first
        match readItems next with
        | .error f => .error f
        | .ok (ts, rest) => .ok (String.ofList t :: ts, rest)
      | ']' :: rest => .ok ([String.ofList t], rest)
      | rest => .error ⟨rest, [.char ']']⟩
  | rest => .error ⟨rest, [itemExpected]⟩
termination_by cs.length
decreasing_by
  -- an item takes at least its closing quote, and layout never gives characters back
  have h₁ := length_skipLayout_le cs
  have h₂ := length_lt_of_readQuoted _hq
  have h₃ := length_skipLayout_le more
  simp only [_hs, _hm, List.length_cons] at h₁ h₃
  omega

theorem readItems_of_close {cs rest : List Char} (h : skipLayout cs = ']' :: rest) :
    readItems cs = .ok ([], rest) := by
  rw [readItems]
  split <;> simp_all

/-- A fault inside an item is a fault of the list, met while an item was being read. -/
theorem readItems_of_fault {cs quoted : List Char} {f : Fault}
    (h : skipLayout cs = '"' :: quoted) (hq : readQuoted quoted = .error f) :
    readItems cs = .error (f.within itemExpected) := by
  rw [readItems]
  split
  · simp_all
  · next q hs =>
    obtain rfl : q = quoted := by simp_all
    split <;> simp_all
  · simp_all

/-- Behind an item and a comma the list goes on. -/
theorem readItems_of_comma {cs quoted t more next : List Char}
    (h : skipLayout cs = '"' :: quoted) (hq : readQuoted quoted = .ok (t, more))
    (hm : skipLayout more = ',' :: next) :
    readItems cs = (readItems next).map fun (ts, rest) => (String.ofList t :: ts, rest) := by
  -- the matches of the definition are opened one after the other, each with its own equation
  rw [readItems]
  split
  · simp_all
  · next q hs =>
    obtain rfl : q = quoted := by simp_all
    split
    · simp_all
    · next u m hu =>
      obtain ⟨rfl, rfl⟩ : u = t ∧ m = more := by simp_all
      split
      · next n hn =>
        obtain rfl : n = next := by simp_all
        cases readItems n <;> rfl
      · simp_all
      · simp_all
  · simp_all

/-- Behind an item a closing bracket ends the list. -/
theorem readItems_of_last {cs quoted t more rest : List Char}
    (h : skipLayout cs = '"' :: quoted) (hq : readQuoted quoted = .ok (t, more))
    (hm : skipLayout more = ']' :: rest) :
    readItems cs = .ok ([String.ofList t], rest) := by
  rw [readItems]
  split
  · simp_all
  · next q hs =>
    obtain rfl : q = quoted := by simp_all
    split
    · simp_all
    · next u m hu =>
      obtain ⟨rfl, rfl⟩ : u = t ∧ m = more := by simp_all
      split <;> simp_all
  · simp_all

/-- Where neither an item nor the closing bracket stands, an item is missing. -/
theorem readItems_of_missing {cs : List Char} (hb : ∀ rest, skipLayout cs ≠ ']' :: rest)
    (hq : ∀ rest, skipLayout cs ≠ '"' :: rest) :
    readItems cs = .error ⟨skipLayout cs, [itemExpected]⟩ := by
  rw [readItems]
  split <;> simp_all

/-- Behind an item, anything but a comma and the closing bracket is stray. -/
theorem readItems_of_stray {cs quoted t more : List Char} (h : skipLayout cs = '"' :: quoted)
    (hq : readQuoted quoted = .ok (t, more)) (hc : ∀ rest, skipLayout more ≠ ',' :: rest)
    (hb : ∀ rest, skipLayout more ≠ ']' :: rest) :
    readItems cs = .error ⟨skipLayout more, [.char ']']⟩ := by
  rw [readItems]
  split
  · simp_all
  · next q hs =>
    obtain rfl : q = quoted := by simp_all
    split
    · simp_all
    · next u m hu =>
      obtain ⟨rfl, rfl⟩ : u = t ∧ m = more := by simp_all
      split <;> simp_all
  · simp_all

/-- What stands behind a list is an end of what follows its opening bracket. -/
theorem suffix_of_readItems {cs rest : List Char} {ts : List String}
    (h : readItems cs = .ok (ts, rest)) : rest <:+ cs := by
  -- only three of the branches succeed: the two that close and the one that goes on
  fun_induction readItems cs generalizing ts with
  | case1 cs r hs =>
    simp only [Except.ok.injEq, Prod.mk.injEq] at h
    exact h.2 ▸ suffix_of_skipLayout hs
  | case2 => contradiction
  | case3 => contradiction
  | case4 cs q hs t more hq next hm us r hr ih =>
    simp only [Except.ok.injEq, Prod.mk.injEq] at h
    obtain ⟨c, v, rfl, hv⟩ := suffix_of_readQuoted hq
    have h₁ : c :: v <:+ cs := suffix_of_skipLayout hs
    have h₂ : more <:+ cs := (hv.trans (List.suffix_cons c v)).trans h₁
    exact (ih (h.2 ▸ hr)).trans ((suffix_of_skipLayout hm).trans h₂)
  | case5 cs q hs t more hq r hm =>
    simp only [Except.ok.injEq, Prod.mk.injEq] at h
    obtain ⟨c, v, rfl, hv⟩ := suffix_of_readQuoted hq
    have h₁ : c :: v <:+ cs := suffix_of_skipLayout hs
    have h₂ : more <:+ cs := (hv.trans (List.suffix_cons c v)).trans h₁
    exact h.2 ▸ (suffix_of_skipLayout hm).trans h₂
  | case6 => contradiction
  | case7 => contradiction

/-! ### Entries -/

/-- What stands behind the name of an entry. -/
inductive Value where
  | flag
  | text (s : String)
  | list (ss : List String)
  deriving DecidableEq, Repr

/-- An entry of a section, as it is written. -/
structure Entry where
  name : String
  value : Value
  deriving DecidableEq, Repr

/-- Reads the value behind a name. Where there is none, nothing is taken, not even layout. -/
def readValue (cs : List Char) : Read Value :=
  match skipLayout cs with
  | '"' :: quoted => (readQuoted quoted).map fun (t, rest) => (.text (String.ofList t), rest)
  | '[' :: items => (readItems items).map fun (ts, rest) => (.list ts, rest)
  | _ => .ok (.flag, cs)

/-- What stands behind a value is an end of what follows the name. -/
theorem suffix_of_readValue {cs rest : List Char} {v : Value}
    (h : readValue cs = .ok (v, rest)) : rest <:+ cs := by
  unfold readValue at h
  split at h
  · next q hs =>
    obtain ⟨t, r, hq, hp⟩ := Read.map_eq_ok h
    obtain ⟨-, rfl⟩ := Prod.mk.inj hp
    obtain ⟨c, u, rfl, hu⟩ := suffix_of_readQuoted hq
    exact hu.trans ((List.suffix_cons c u).trans (suffix_of_skipLayout hs))
  · next q hs =>
    obtain ⟨ts, r, hi, hp⟩ := Read.map_eq_ok h
    obtain ⟨-, rfl⟩ := Prod.mk.inj hp
    exact (suffix_of_readItems hi).trans (suffix_of_skipLayout hs)
  · obtain ⟨-, rfl⟩ := Read.ok_inj h
    exact List.suffix_rfl

/-- Reads entries for as long as a name follows the layout. The layout behind the last entry is
not taken. -/
def readEntries (cs : List Char) : Read (List Entry) :=
  match _hn : readName? (skipLayout cs) with
  | none => .ok ([], cs)
  | some (name, afterName) =>
    match _hv : readValue afterName with
    | .error f => .error f
    | .ok (value, next) =>
      match readEntries next with
      | .error f => .error f
      | .ok (es, rest) => .ok (⟨String.ofList name, value⟩ :: es, rest)
termination_by cs.length
decreasing_by
  have h₁ := length_skipLayout_le cs
  have h₂ := length_lt_of_readName? _hn
  have h₃ := (suffix_of_readValue _hv).length_le
  omega

/-- Where no name follows, the entries end, and the layout is not taken. -/
theorem readEntries_of_none {cs : List Char} (h : readName? (skipLayout cs) = none) :
    readEntries cs = .ok ([], cs) := by
  rw [readEntries]
  split <;> simp_all

/-- A name and a value make an entry, behind which the entries go on. -/
theorem readEntries_of_entry {cs name after next : List Char} {v : Value}
    (hn : readName? (skipLayout cs) = some (name, after))
    (hv : readValue after = .ok (v, next)) :
    readEntries cs =
      (readEntries next).map fun (es, rest) => (⟨String.ofList name, v⟩ :: es, rest) := by
  -- the equations of the loop are chosen by the two readers, both of which are known here
  rw [readEntries]
  split
  · simp_all
  · next n a hs =>
    obtain ⟨rfl, rfl⟩ : n = name ∧ a = after := by simp_all
    split
    · simp_all
    · next w m hw =>
      obtain ⟨rfl, rfl⟩ : w = v ∧ m = next := by simp_all
      cases readEntries m <;> rfl

/-- A fault of a value is a fault of the entries. -/
theorem readEntries_of_fault {cs name after : List Char} {f : Fault}
    (hn : readName? (skipLayout cs) = some (name, after)) (hv : readValue after = .error f) :
    readEntries cs = .error f := by
  rw [readEntries]
  split
  · simp_all
  · next n a hs =>
    obtain ⟨rfl, rfl⟩ : n = name ∧ a = after := by simp_all
    split <;> simp_all

/-! ### Sections and whole scripts -/

/-- The word that opens a section. -/
def sectionWord : List Char := ['p', 'a', 't', 'h']

/-- Reads a section, if its word stands here. The word need not end here: anything but layout
and a colon behind it is a fault. -/
def readSection (cs : List Char) : Read (Option (List Entry)) :=
  if sectionWord.isPrefixOf cs then
    match skipLayout (cs.drop sectionWord.length) with
    | ':' :: entries => (readEntries entries).map fun (es, rest) => (some es, rest)
    | rest => .error ⟨rest, [.char ':']⟩
  else .ok (none, cs)

/-- Reads a whole script: the entries of its section, or `none` where it has no section. Whatever
cannot be read is a fault at the first character of what is left over. -/
def readScript (cs : List Char) : Except Fault (Option (List Entry)) :=
  match readSection (skipLayout cs) with
  | .error f => .error f
  | .ok (section?, more) =>
    match skipLayout more with
    | [] => .ok section?
    | rest => .error ⟨rest, []⟩

end PathFilter.Script
