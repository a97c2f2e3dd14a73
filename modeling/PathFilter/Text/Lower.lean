import PathFilter.Text.CaseTable

/-!
# Lower-casing

Lower-casing goes character by character through the table of capitals, with two exceptions:

* **dotted capital I** (U+0130) becomes the two characters `i` and combining dot above, so that
  the dot is not lost;
* **capital sigma** (U+03A3) becomes the final form at the end of a word and the ordinary small
  sigma elsewhere. "At the end of a word" is a property of the neighbours: with case-ignorable
  characters looked through, a cased character comes before the sigma and none comes after it.

The second rule makes lower-casing a function of the whole text and not of its characters alone.
`lowerFrom` therefore carries the characters already passed, nearest first, beside the
characters to come.
-/

namespace PathFilter.Text

/-- Whether the nearest character that is not case-ignorable is cased. Where there is none the
answer is no. -/
def nearestIsCased (cs : List Char) : Bool :=
  match cs.dropWhile isIgnorable with
  | c :: _ => isCased c
  | [] => false

/-- Whether a sigma between `before` (nearest character first) and `after` ends a word. -/
def endsWord (before after : List Char) : Bool :=
  nearestIsCased before && !nearestIsCased after

/-- The lower-case form of one character between its neighbours. -/
def lowerChar (before : List Char) (c : Char) (after : List Char) : List Char :=
  if c = '\u0130' then ['i', '\u0307']
  else if c = 'Σ' then [if endsWord before after then 'ς' else 'σ']
  else [smallLetter c]

/-- The lower-case form of the characters to come, after the characters `before` that have been
passed, nearest first. -/
def lowerFrom : List Char → List Char → List Char
  | _, [] => []
  | before, c :: after => lowerChar before c after ++ lowerFrom (c :: before) after

-- a sigma that ends a word is told from one inside it, whatever marks stand around it
example : lowerFrom [] "ΑΣ. ΣΑ.Σ'Α".toList = "ας. σα.σ'α".toList := by decide +kernel

example : lowerFrom [] "İ/Σ".toList = "i\u0307/σ".toList := by decide +kernel

/-- The lower-case form of a text. -/
def lower (s : String) : String := String.ofList (lowerFrom [] s.toList)

@[simp] theorem toList_lower (s : String) : (lower s).toList = lowerFrom [] s.toList := by
  simp [lower]

end PathFilter.Text
