import PathFilter.Proofs.Script.Reading

/-!
# Attempts at the parts of a script

The readers of a script look ahead before they enter a part: where neither a quote nor a bracket
stands there is no value, where no letter stands there are no more entries. The same script can be
read without looking ahead, by **attempts**. An attempt at a part has one of three outcomes
(`Attempt`).

* It **took** the part, and something is left.
* It **declined**: the part is not there. Whoever made the attempt goes back to where it was made
  and tries something else (`Attempt.orElse`), or does without (`Attempt.optional`).
* It **failed**: the part is there and is at fault. This outcome is final; nothing goes back behind
  it.

There is an attempt for each part: blanks and comments (`tryBlanks`, `tryComment`), layout, names,
quoted texts, lists, values, entries and sections (`tryLayout`, …, `trySection`). What the readers
find is what the attempts come to (`readValue_eq_optional`, `readSection_eq_optional`,
`tryEntry_of_value` and its companions), so that a fault which an attempt calls final is the fault
of the readers, whatever else they could have tried.

An attempt also has a place where it stopped, if it declined or failed no less than if it took
something (`Attempt.rest`). What is said of attempts is said of that place too.
-/

namespace PathFilter.Script

variable {α β : Type}

/-- The same outcome of a reader, with another value for the one that was found. -/
def Read.mapValue (f : α → β) : Read α → Read β
  | .ok (a, rest) => .ok (f a, rest)
  | .error e => .error e

/-- Applying a function to the value that a reader found, in the form in which readers do it. -/
theorem Read.map_eq_mapValue (f : α → β) (r : Read α) :
    r.map (fun p => (f p.1, p.2)) = r.mapValue f := by
  rcases r with e | ⟨a, rest⟩ <;> rfl

/-- Putting characters in front of a text is one such function. -/
theorem Read.prepend_eq_mapValue (cs : List Char) (r : Read (List Char)) :
    r.prepend cs = r.mapValue (cs ++ ·) := by
  rcases r with e | ⟨t, rest⟩ <;> rfl

/-- What is left where a reader stopped, successfully or not. -/
def Read.left : Read α → List Char
  | .ok (_, rest) => rest
  | .error f => f.rest

@[simp] theorem Read.left_mapValue (f : α → β) (r : Read α) : (r.mapValue f).left = r.left := by
  rcases r with e | ⟨a, rest⟩ <;> rfl

/-- What comes of an attempt at a part of a script. -/
inductive Attempt (α : Type) where
  /-- The part was there, and `rest` is left behind it. -/
  | took (a : α) (rest : List Char)
  /-- The part is not there, as was seen with `rest` left. -/
  | declined (rest : List Char)
  /-- The part is there and is at fault, and nothing else is tried. -/
  | failed (f : Fault)

namespace Attempt

/-- What is left where the attempt stopped. -/
def rest : Attempt α → List Char
  | .took _ rest => rest
  | .declined rest => rest
  | .failed f => f.rest

/-- The same outcome, with another value for the one that was taken. -/
def map (f : α → β) : Attempt α → Attempt β
  | .took a rest => .took (f a) rest
  | .declined rest => .declined rest
  | .failed e => .failed e

/-- One attempt after another: the second is made where the first has taken its part. -/
def bind (a : Attempt α) (next : α → List Char → Attempt β) : Attempt β :=
  match a with
  | .took a rest => next a rest
  | .declined rest => .declined rest
  | .failed f => .failed f

/-- Two attempts at the same place, of which the second counts if the first declined. -/
def orElse : Attempt α → Attempt α → Attempt α
  | .declined _, other => other
  | a, _ => a

/-- The attempt at something that has begun, so that the reader decides and none declines. -/
def ofRead : Read α → Attempt α
  | .ok (a, rest) => .took a rest
  | .error f => .failed f

/-- An attempt at `cs` at something that may be missing: then the value is `none`, and nothing has
been taken. -/
def optional (cs : List Char) (none : α) : Attempt α → Read α
  | .took a rest => .ok (a, rest)
  | .declined _ => .ok (none, cs)
  | .failed f => .error f

@[simp] theorem rest_map (f : α → β) (a : Attempt α) : (a.map f).rest = a.rest := by
  cases a <;> rfl

@[simp] theorem rest_ofRead (r : Read α) : (ofRead r).rest = r.left := by
  rcases r with e | ⟨a, rest⟩ <;> rfl

end Attempt

/-! ### Layout -/

/-- The attempt at a run of blanks, of which there has to be one. -/
def tryBlanks : List Char → Attempt Unit
  | [] => .declined []
  | c :: cs => if isBlank c then .took () (cs.dropWhile isBlank) else .declined (c :: cs)

/-- The attempt at a comment. One that runs into a carriage return without a line feed declines
there, with its line half read. -/
def tryComment : List Char → Attempt Unit
  | [] => .declined []
  | c :: cs =>
    if c = '#' then
      match afterComment? cs with
      | some rest => .took () rest
      | none => .declined (cs.dropWhile fun c => !isLineEnd c)
    else .declined (c :: cs)

/-- The attempt at one piece of layout. -/
def tryPiece (cs : List Char) : Attempt Unit := (tryBlanks cs).orElse (tryComment cs)

/-- The attempt at all the layout that is there, which may be none. -/
def tryLayout (cs : List Char) : Attempt Unit := .took () (skipLayout cs)

/-- Where a piece of layout is skipped, one of the two attempts takes it. -/
theorem tryPiece_of_some {cs rest : List Char} (h : skipPiece? cs = some rest) :
    tryPiece cs = .took () rest := by
  -- by the first character: a blank is taken by the first attempt, and a `#` by the second
  cases cs with
  | nil => contradiction
  | cons c cs =>
    rw [skipPiece?] at h
    split at h
    · next hb =>
      obtain rfl := Option.some.inj h
      rw [tryPiece, tryBlanks, if_pos hb]
      rfl
    · next hb =>
      split at h
      · next hc =>
        rw [tryPiece, tryBlanks, if_neg hb, tryComment, if_pos hc, h]
        rfl
      · contradiction

/-- Where none is skipped, both decline. -/
theorem tryPiece_of_none {cs : List Char} (h : skipPiece? cs = none) :
    ∃ rest, tryPiece cs = .declined rest := by
  -- by the first character again; what the comment has read of its line is given up with it
  cases cs with
  | nil => exact ⟨[], rfl⟩
  | cons c cs =>
    rw [skipPiece?] at h
    split at h
    · contradiction
    · next hb =>
      rw [tryPiece, tryBlanks, if_neg hb, tryComment]
      split at h
      · next hc =>
        rw [if_pos hc, h]
        exact ⟨_, rfl⟩
      · next hc =>
        rw [if_neg hc]
        exact ⟨_, rfl⟩

/-! ### Names and values -/

/-- The attempt at a name. -/
def tryName (cs : List Char) : Attempt (List Char) :=
  match readName? cs with
  | some (name, rest) => .took name rest
  | none => .declined cs

/-- The attempt at a quoted text. Its opening quote is all that decides whether it is there. -/
def tryText : List Char → Attempt String
  | '"' :: quoted => (Attempt.ofRead (readQuoted quoted)).map String.ofList
  | cs => .declined cs

/-- The attempt at a list. -/
def tryList : List Char → Attempt (List String)
  | '[' :: items => .ofRead (readItems items)
  | cs => .declined cs

/-- The attempt at a value, with layout before it. -/
def tryValue (cs : List Char) : Attempt Value :=
  ((tryText (skipLayout cs)).map .text).orElse ((tryList (skipLayout cs)).map .list)

theorem tryText_of_ne {cs : List Char} (h : ∀ rest, cs ≠ '"' :: rest) :
    tryText cs = .declined cs := by
  rw [tryText]
  exact h

theorem tryText_of_ok {quoted t rest : List Char} (h : readQuoted quoted = .ok (t, rest)) :
    tryText ('"' :: quoted) = .took (String.ofList t) rest := by
  rw [tryText, h]
  rfl

theorem tryText_of_error {quoted : List Char} {f : Fault} (h : readQuoted quoted = .error f) :
    tryText ('"' :: quoted) = .failed f := by
  rw [tryText, h]
  rfl

theorem tryList_of_ne {cs : List Char} (h : ∀ rest, cs ≠ '[' :: rest) :
    tryList cs = .declined cs := by
  rw [tryList]
  exact h

/-- An attempt at a value that declines is what a flag is: the name stands alone, and the layout
behind it has been given back. -/
theorem readValue_eq_optional (cs : List Char) :
    readValue cs = (tryValue cs).optional cs .flag := by
  rw [readValue, tryValue]
  -- a quote, a bracket, and anything else, at which both attempts decline
  split
  · next quoted hs =>
    rw [hs, tryText]
    rcases readQuoted quoted with f | ⟨t, rest⟩ <;> rfl
  · next items hs =>
    rw [hs, tryText_of_ne (by simp), tryList]
    rcases readItems items with f | ⟨ts, rest⟩ <;> rfl
  · next hquote hbracket =>
    rw [tryText_of_ne hquote, tryList_of_ne hbracket]
    rfl

/-! ### Entries and sections -/

/-- The attempt at an entry, with layout before it. -/
def tryEntry (cs : List Char) : Attempt Entry :=
  (tryName (skipLayout cs)).bind fun name after =>
    (Attempt.ofRead ((tryValue after).optional after .flag)).map (⟨String.ofList name, ·⟩)

/-- The attempt at a section. Its word is all that decides whether it is there. -/
def trySection (cs : List Char) : Attempt (List Entry) :=
  if sectionWord.isPrefixOf cs then
    match skipLayout (cs.drop sectionWord.length) with
    | ':' :: entries => .ofRead (readEntries entries)
    | rest => .failed ⟨rest, [.char ':']⟩
  else .declined cs

variable {cs name after next : List Char}

/-- Without a name there is no entry, and the layout has been looked past. -/
theorem tryEntry_of_none (h : readName? (skipLayout cs) = none) :
    tryEntry cs = .declined (skipLayout cs) := by
  rw [tryEntry, tryName, h]
  rfl

/-- An entry whose value is read, or is missing, is taken. -/
theorem tryEntry_of_value {v : Value} (hn : readName? (skipLayout cs) = some (name, after))
    (hv : readValue after = .ok (v, next)) :
    tryEntry cs = .took ⟨String.ofList name, v⟩ next := by
  rw [readValue_eq_optional] at hv
  rw [tryEntry, tryName, hn]
  simp only [Attempt.bind, hv]
  rfl

/-- A fault of the value is final for the entry. -/
theorem tryEntry_of_fault {f : Fault} (hn : readName? (skipLayout cs) = some (name, after))
    (hv : readValue after = .error f) : tryEntry cs = .failed f := by
  rw [readValue_eq_optional] at hv
  rw [tryEntry, tryName, hn]
  simp only [Attempt.bind, hv]
  rfl

/-- Behind the word and its colon, the entries decide. -/
theorem trySection_of_colon {entries : List Char} (hp : sectionWord.isPrefixOf cs = true)
    (hs : skipLayout (cs.drop sectionWord.length) = ':' :: entries) :
    trySection cs = .ofRead (readEntries entries) := by
  rw [trySection, if_pos hp, hs]
  rfl

/-- A word without a colon is final: the section is there and at fault. -/
theorem trySection_of_missing (hp : sectionWord.isPrefixOf cs = true)
    (hs : ∀ entries, skipLayout (cs.drop sectionWord.length) ≠ ':' :: entries) :
    trySection cs = .failed ⟨skipLayout (cs.drop sectionWord.length), [.char ':']⟩ := by
  rw [trySection, if_pos hp]
  split
  · next entries h => exact absurd h (hs entries)
  · rfl

/-- A script without a section is one at whose beginning the attempt at a section declines. -/
theorem readSection_eq_optional (cs : List Char) :
    readSection cs = ((trySection cs).map some).optional cs none := by
  rw [readSection]
  -- the word is there, with its colon or without, or it is not
  split
  · next hp =>
    split
    · next entries hs =>
      rw [trySection_of_colon hp hs]
      rcases readEntries entries with f | ⟨es, rest⟩ <;> rfl
    · next hs =>
      rw [trySection_of_missing hp hs]
      rfl
  · next hp =>
    rw [trySection, if_neg hp]
    rfl

end PathFilter.Script
