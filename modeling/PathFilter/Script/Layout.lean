/-!
# Layout of a filter script

**Layout** is what may stand between the parts of a script: blanks and comments, in any number
and mixture. A comment runs from `#` to the end of its line, which is not part of it. A line ends
at a line feed, at a carriage return with a line feed behind it, or with the text. A carriage
return that stands alone ends no line, and a `#` before it opens no comment: layout stops short
of such a `#`.

`skipPiece?` reads one run of blanks or one comment and always takes at least one character
(`length_lt_of_skipPiece?`); `skipLayout` repeats it until nothing more is taken.
-/

namespace PathFilter.Script

/-- The five characters that count as blank. -/
def isBlank (c : Char) : Bool :=
  c == ' ' || c == '\t' || c == '\n' || c == '\x0c' || c == '\r'

/-- The two characters at which the text of a comment stops. -/
def isLineEnd (c : Char) : Bool := c == '\n' || c == '\r'

/-- Whether a line may end here: at a line feed, at a carriage return with a line feed behind
it, or where nothing is left. -/
def atLineEnd : List Char → Bool
  | [] => true
  | c :: r => c == '\n' || (c == '\r' && r.head? == some '\n')

/-- What is left after a comment whose `#` has been read. -/
def afterComment? (cs : List Char) : Option (List Char) :=
  if atLineEnd (cs.dropWhile fun c => !isLineEnd c) then
    some (cs.dropWhile fun c => !isLineEnd c)
  else none

/-- What is left after one run of blanks or one comment, if either starts here. -/
def skipPiece? : List Char → Option (List Char)
  | [] => none
  | c :: cs =>
    if isBlank c then some (cs.dropWhile isBlank)
    else if c = '#' then afterComment? cs
    else none

/-- A comment leaves an end of what it was given. -/
theorem suffix_of_afterComment? {cs r : List Char} (h : afterComment? cs = some r) :
    r <:+ cs := by
  unfold afterComment? at h
  split at h
  · exact Option.some.inj h ▸ List.dropWhile_suffix _
  · contradiction

/-- A piece of layout leaves an end of what follows the first character, so it takes at least
that one. -/
theorem exists_suffix_of_skipPiece? {cs r : List Char} (h : skipPiece? cs = some r) :
    ∃ c t, cs = c :: t ∧ r <:+ t := by
  cases cs with
  | nil => contradiction
  | cons c t =>
    refine ⟨c, t, rfl, ?_⟩
    rw [skipPiece?] at h
    split at h
    · exact Option.some.inj h ▸ List.dropWhile_suffix _
    · split at h
      · exact suffix_of_afterComment? h
      · contradiction

theorem length_lt_of_skipPiece? {cs r : List Char} (h : skipPiece? cs = some r) :
    r.length < cs.length := by
  obtain ⟨c, t, rfl, hr⟩ := exists_suffix_of_skipPiece? h
  exact Nat.lt_succ_of_le hr.length_le

/-- What is left after all the layout that starts here. -/
def skipLayout (cs : List Char) : List Char :=
  match _h : skipPiece? cs with
  | some r => skipLayout r
  | none => cs
termination_by cs.length
decreasing_by exact length_lt_of_skipPiece? _h

/-- Where a piece of layout starts, skipping goes on behind it. -/
theorem skipLayout_of_skipPiece? {cs r : List Char} (h : skipPiece? cs = some r) :
    skipLayout cs = skipLayout r := by
  rw [skipLayout]
  split
  · next s hs => rw [Option.some.inj (hs.symm.trans h)]
  · next hn => exact absurd (hn.symm.trans h) (by simp)

theorem skipLayout_eq_self {cs : List Char} (h : skipPiece? cs = none) : skipLayout cs = cs := by
  rw [skipLayout]
  split
  · next s hs => exact absurd (hs.symm.trans h) (by simp)
  · rfl

/-- Behind layout an end is left. -/
theorem skipLayout_suffix (cs : List Char) : skipLayout cs <:+ cs := by
  -- along the pieces, each of which leaves an end of the one before it
  fun_induction skipLayout cs with
  | case1 cs r h ih =>
    obtain ⟨c, t, rfl, hr⟩ := exists_suffix_of_skipPiece? h
    exact ih.trans (hr.trans (List.suffix_cons c t))
  | case2 cs h => exact List.suffix_rfl

theorem length_skipLayout_le (cs : List Char) : (skipLayout cs).length ≤ cs.length :=
  (skipLayout_suffix cs).length_le

/-- What stands behind a character that follows the layout. -/
theorem suffix_of_skipLayout {c : Char} {cs rest : List Char} (h : skipLayout cs = c :: rest) :
    rest <:+ cs :=
  (List.suffix_cons c rest).trans (h ▸ skipLayout_suffix cs)

theorem length_lt_of_skipLayout {c : Char} {cs rest : List Char} (h : skipLayout cs = c :: rest) :
    rest.length < cs.length := by
  have hle := length_skipLayout_le cs
  rw [h] at hle
  exact hle

/-- What is left starts with no further piece of layout. -/
theorem skipPiece?_skipLayout (cs : List Char) : skipPiece? (skipLayout cs) = none := by
  -- the last turn is the one in which no piece starts
  fun_induction skipLayout cs with
  | case1 cs r h ih => exact ih
  | case2 cs h => exact h

theorem skipLayout_skipLayout (cs : List Char) : skipLayout (skipLayout cs) = skipLayout cs :=
  skipLayout_eq_self (skipPiece?_skipLayout cs)

end PathFilter.Script
