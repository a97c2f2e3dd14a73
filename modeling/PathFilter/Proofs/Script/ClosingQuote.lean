import Mathlib.Algebra.Group.Nat.Even
import Mathlib.Data.List.DropRight
import Mathlib.Data.Nat.Find
import PathFilter.Proofs.Script.Attempts

/-!
# The closing quote of a quoted text

A quoted text is read from the left, an escape at a time. Where it ends can be seen without reading
it: at the first quote with an **even number of backslashes** directly before it (`ClosesAt`). The
backslashes are counted back from that quote, at most to the opening one.

The two ways of looking at a text are brought together by one fact. What is read at once — a
backslash with the character behind it, or any other character — has an even number of backslashes
at its end, and such a text may be put in front of another without changing whether the number at
*its* end is even (`even_trailingBackslashes_append`): if the run of backslashes reaches back into
what was put in front, it is longer by an even number. So a quote closes the whole text if it closes
what is left of it after any turn of the reader (`closesAt_escape`, `closesAt_plain`), and the
reader never stops between a backslash and the character that it escapes.

* `tryText_closing_quote` — where a quoted text ends, what it stands for (`decoded`), and that it is
  at fault, finally and at the end of the script, if nothing closes it.
-/

namespace PathFilter.Script

/-! ### Backslashes at the end of a text -/

/-- The number of backslashes at the end of a text, counted back to the first other character. -/
def trailingBackslashes (cs : List Char) : Nat := (cs.rtakeWhile (· == '\\')).length

theorem trailingBackslashes_concat_backslash (cs : List Char) :
    trailingBackslashes (cs ++ ['\\']) = trailingBackslashes cs + 1 := by
  rw [trailingBackslashes, List.rtakeWhile_concat_pos _ _ _ (by rfl), List.length_append]
  rfl

theorem trailingBackslashes_concat {c : Char} (hc : c ≠ '\\') (cs : List Char) :
    trailingBackslashes (cs ++ [c]) = 0 := by
  rw [trailingBackslashes, List.rtakeWhile_concat_neg _ _ _ (by simpa using hc)]
  rfl

/-- **Alignment.** Behind a text with an even number of backslashes at its end, it is even or odd as
if that text were not there. -/
theorem even_trailingBackslashes_append {u : List Char} (hu : Even (trailingBackslashes u))
    (v : List Char) :
    Even (trailingBackslashes (u ++ v)) ↔ Even (trailingBackslashes v) := by
  -- a run of backslashes is read from its end, so the induction takes the last character away
  induction v using List.reverseRecOn with
  | nil =>
    rw [List.append_nil]
    exact iff_of_true hu Even.zero
  | append_singleton v c ih =>
    rw [← List.append_assoc]
    by_cases hc : c = '\\'
    · subst hc
      rw [trailingBackslashes_concat_backslash, trailingBackslashes_concat_backslash,
        Nat.even_add_one, Nat.even_add_one, ih]
    · rw [trailingBackslashes_concat hc, trailingBackslashes_concat hc]

theorem even_trailingBackslashes_concat {c : Char} (hc : c ≠ '\\') (cs : List Char) :
    Even (trailingBackslashes (cs ++ [c])) := by
  rw [trailingBackslashes_concat hc]
  exact Even.zero

/-- A character that is no backslash, read at once, has an even number at its end. -/
theorem even_trailingBackslashes_plain {c : Char} (hc : c ≠ '\\') :
    Even (trailingBackslashes [c]) :=
  even_trailingBackslashes_concat hc []

/-- So has an escape, whether it ends in a backslash of its own or not. -/
theorem even_trailingBackslashes_escape (c : Char) : Even (trailingBackslashes ['\\', c]) := by
  by_cases hc : c = '\\'
  · subst hc
    exact ⟨1, rfl⟩
  · exact even_trailingBackslashes_concat hc ['\\']

/-! ### The quote that closes -/

/-- Behind an opening quote, the character at place `i` is a quote that no backslash escapes. -/
def ClosesAt (cs : List Char) (i : Nat) : Prop :=
  cs[i]? = some '"' ∧ Even (trailingBackslashes (cs.take i))

instance (cs : List Char) (i : Nat) : Decidable (ClosesAt cs i) :=
  inferInstanceAs (Decidable (_ ∧ _))

variable {c : Char} {cs : List Char} {i : Nat}

theorem not_closesAt_nil : ¬ ClosesAt [] i := by
  rintro ⟨hquote, -⟩
  contradiction

theorem closesAt_quote (cs : List Char) : ClosesAt ('"' :: cs) 0 := ⟨rfl, Even.zero⟩

/-- Behind a text with an even number of backslashes at its end, the same quotes close. -/
theorem closesAt_append {u : List Char} (hu : Even (trailingBackslashes u)) :
    ClosesAt (u ++ cs) (u.length + i) ↔ ClosesAt cs i := by
  have hplace : (u ++ cs)[u.length + i]? = cs[i]? := by
    rw [List.getElem?_append_right (Nat.le_add_right _ _), Nat.add_sub_cancel_left]
  have htake : (u ++ cs).take (u.length + i) = u ++ cs.take i := by
    rw [List.take_append, List.take_of_length_le (Nat.le_add_right _ _), Nat.add_sub_cancel_left]
  rw [ClosesAt, ClosesAt, hplace, htake, even_trailingBackslashes_append hu]

/-- Neither a backslash nor the character that it escapes closes anything. -/
theorem closesAt_escape : ClosesAt ('\\' :: c :: cs) i ↔ ∃ j, i = j + 2 ∧ ClosesAt cs j := by
  have hbehind (j : Nat) : ClosesAt ('\\' :: c :: cs) (2 + j) ↔ ClosesAt cs j :=
    closesAt_append (even_trailingBackslashes_escape c)
  constructor
  · intro h
    -- the backslash itself, the character behind it, and the places further on
    rcases i with _ | _ | j
    · exact absurd (Option.some.inj h.1) (by decide)
    · -- one backslash stands before this place
      exact absurd h.2 (by decide : ¬ Even 1)
    · exact ⟨j, rfl, (hbehind j).mp (Nat.add_comm j 2 ▸ h)⟩
  · rintro ⟨j, rfl, h⟩
    exact Nat.add_comm j 2 ▸ (hbehind j).mpr h

/-- A character that is neither closes nothing. -/
theorem closesAt_plain (hq : c ≠ '"') (hb : c ≠ '\\') :
    ClosesAt (c :: cs) i ↔ ∃ j, i = j + 1 ∧ ClosesAt cs j := by
  -- the run of backslashes before a place ends at the character
  have hbehind (j : Nat) : ClosesAt (c :: cs) (1 + j) ↔ ClosesAt cs j :=
    closesAt_append (even_trailingBackslashes_plain hb)
  constructor
  · intro h
    rcases i with _ | j
    · exact absurd (Option.some.inj h.1) hq
    · exact ⟨j, rfl, (hbehind j).mp (Nat.add_comm j 1 ▸ h)⟩
  · rintro ⟨j, rfl, h⟩
    exact Nat.add_comm j 1 ▸ (hbehind j).mpr h

theorem not_closesAt_backslash : ¬ ClosesAt ['\\'] i := by
  rintro ⟨hquote, -⟩
  cases i <;> contradiction

/-! ### Reading up to it -/

/-- What the characters between two quotes stand for, read from the left. -/
def decoded : List Char → List Char
  | [] => []
  | '\\' :: '"' :: cs => '"' :: decoded cs
  | '\\' :: '\\' :: cs => '\\' :: decoded cs
  | '\\' :: 'n' :: cs => '\n' :: decoded cs
  | '\\' :: 't' :: cs => '\t' :: decoded cs
  | '\\' :: c :: cs => '\\' :: c :: decoded cs
  | c :: cs => c :: decoded cs

/-- Escapes stand for what they stand for in the grammar. -/
theorem decoded_escape {u : List Char} (h : Grammar.Escape c u) (cs : List Char) :
    decoded ('\\' :: c :: cs) = u ++ decoded cs := by
  cases h with
  | quote => rfl
  | backslash => rfl
  | lineFeed => rfl
  | tab => rfl
  -- any other character keeps its backslash, which is the last branch of the decoder
  | other hc =>
    simp only [List.mem_cons, List.not_mem_nil, or_false, not_or] at hc
    obtain ⟨hq, hb, hn, ht⟩ := hc
    rw [decoded]
    · rfl
    · exact hq
    · exact hb
    · exact hn
    · exact ht

theorem decoded_plain (hb : c ≠ '\\') (cs : List Char) : decoded (c :: cs) = c :: decoded cs := by
  rw [decoded] <;> simp [hb]

/-- The reader stops at the first quote that closes. -/
theorem readQuoted_of_closesAt (h : ClosesAt cs i) (hfirst : ∀ j < i, ¬ ClosesAt cs j) :
    readQuoted cs = .ok (decoded (cs.take i), cs.drop (i + 1)) := by
  -- along the turns of the reader; each of them moves the closing quote nearer by what it reads
  fun_induction readQuoted cs generalizing i with
  | case1 => exact absurd h not_closesAt_nil
  | case2 cs =>
    -- the first character closes, so the first place that does is the first of all
    cases i with
    | zero => rfl
    | succ i => exact absurd (closesAt_quote cs) (hfirst 0 i.succ_pos)
  | case3 => exact absurd h not_closesAt_backslash
  | case4 c cs ih =>
    obtain ⟨i, rfl, hi⟩ := closesAt_escape.mp h
    have hbefore : ∀ j < i, ¬ ClosesAt cs j := fun j hj hclose =>
      hfirst (j + 2) (Nat.add_lt_add_right hj 2) (closesAt_escape.mpr ⟨j, rfl, hclose⟩)
    rw [ih hi hbefore]
    show Except.ok (unescape c ++ decoded (cs.take i), cs.drop (i + 1)) = _
    rw [← decoded_escape (escape_iff.mpr rfl)]
    rfl
  | case5 c cs hq hnil hpair ih =>
    have hb := ne_backslash hnil hpair
    obtain ⟨i, rfl, hi⟩ := (closesAt_plain hq hb).mp h
    have hbefore : ∀ j < i, ¬ ClosesAt cs j := fun j hj hclose =>
      hfirst (j + 1) (Nat.add_lt_add_right hj 1) ((closesAt_plain hq hb).mpr ⟨j, rfl, hclose⟩)
    rw [ih hi hbefore]
    show Except.ok (c :: decoded (cs.take i), cs.drop (i + 1)) = _
    rw [← decoded_plain hb]
    rfl

/-- Where no quote closes, the reader goes on to the end of the text. A quote would be welcome
there, unless the text ends within an escape. -/
theorem readQuoted_of_not_closesAt (h : ∀ i, ¬ ClosesAt cs i) :
    readQuoted cs =
      .error ⟨[], if Even (trailingBackslashes cs) then [.char '"'] else []⟩ := by
  -- along the turns again: no quote closes what is left either
  fun_induction readQuoted cs with
  | case1 => rfl
  | case2 cs => exact absurd (closesAt_quote cs) (h 0)
  | case3 => rfl
  | case4 c cs ih =>
    have hnone : ∀ j, ¬ ClosesAt cs j := fun j hj => h (j + 2) (closesAt_escape.mpr ⟨j, rfl, hj⟩)
    -- an escape in front leaves the run at the end of the text as even or odd as it was
    have heven : Even (trailingBackslashes ('\\' :: c :: cs)) ↔ Even (trailingBackslashes cs) :=
      even_trailingBackslashes_append (even_trailingBackslashes_escape c) cs
    simp only [ih hnone, Read.prepend, heven]
  | case5 c cs hq hnil hpair ih =>
    have hb := ne_backslash hnil hpair
    have hnone : ∀ j, ¬ ClosesAt cs j := fun j hj =>
      h (j + 1) ((closesAt_plain hq hb).mpr ⟨j, rfl, hj⟩)
    have heven : Even (trailingBackslashes (c :: cs)) ↔ Even (trailingBackslashes cs) :=
      even_trailingBackslashes_append (even_trailingBackslashes_plain hb) cs
    simp only [ih hnone, Read.prepend, heven]

theorem exists_first_closesAt (h : ClosesAt cs i) :
    ∃ i, ClosesAt cs i ∧ ∀ j < i, ¬ ClosesAt cs j := by
  have hex : ∃ i, ClosesAt cs i := ⟨i, h⟩
  exact ⟨Nat.find hex, Nat.find_spec hex, fun j hj => Nat.find_min hex hj⟩

/-! ### Attempts at quoted texts -/

/-- A fault of a quoted text is one of the value: that there is no value is not considered. -/
theorem readValue_of_error {ds : List Char} {f : Fault} (hs : skipLayout ds = '"' :: cs)
    (h : readQuoted cs = .error f) : readValue ds = .error f := by
  rw [readValue, hs]
  simp only [h]
  rfl

/-- **The closing quote.** The attempt at a quoted text takes it exactly if some quote closes it. It
ends with the first quote that does, and stands for what the characters before that quote stand for.
If none closes it the attempt fails for good at the end of the script, and with it every value and
every list in which the text is read. -/
theorem tryText_closing_quote (cs : List Char) :
    ((∃ s rest, tryText ('"' :: cs) = .took s rest) ↔ ∃ i, ClosesAt cs i) ∧
    (∀ i, ClosesAt cs i → (∀ j < i, ¬ ClosesAt cs j) →
      tryText ('"' :: cs) = .took (String.ofList (decoded (cs.take i))) (cs.drop (i + 1))) ∧
    ((∀ i, ¬ ClosesAt cs i) →
      ∃ f, tryText ('"' :: cs) = .failed f ∧ f.rest = [] ∧
        f.expected = (if Even (trailingBackslashes cs) then [.char '"'] else []) ∧
        ∀ ds, skipLayout ds = '"' :: cs →
          readValue ds = .error f ∧ readItems ds = .error (f.within itemExpected)) := by
  refine ⟨⟨?_, ?_⟩, fun i hi hfirst => ?_, fun hnone => ?_⟩
  · rintro ⟨s, rest, htook⟩
    -- if none closed it, the attempt would have failed
    by_contra hnone
    have herror := readQuoted_of_not_closesAt (not_exists.mp hnone)
    rw [tryText_of_error herror] at htook
    contradiction
  · rintro ⟨i, hi⟩
    -- the reader stops at the first of the quotes that close
    obtain ⟨i, hi, hfirst⟩ := exists_first_closesAt hi
    exact ⟨_, _, tryText_of_ok (readQuoted_of_closesAt hi hfirst)⟩
  · exact tryText_of_ok (readQuoted_of_closesAt hi hfirst)
  · have herror := readQuoted_of_not_closesAt hnone
    refine ⟨_, tryText_of_error herror, rfl, rfl, fun ds hs => ⟨?_, ?_⟩⟩
    · exact readValue_of_error hs herror
    · exact readItems_of_fault hs herror

/-- The quote behind one backslash is part of the text and the quote behind two of them closes it;
where the script ends behind a backslash, nothing closes the text and nothing would be welcome. -/
theorem tryText_closing_quote_backslashes :
    (ClosesAt ['\\', '"', '\\', '\\', '"', ' ', '"'] 4 ∧
      tryText ['"', '\\', '"', '\\', '\\', '"', ' ', '"'] = .took "\"\\" [' ', '"']) ∧
    (∀ i, ¬ ClosesAt ['\\', '"', '\\'] i) ∧
    ∃ f, tryText ['"', '\\', '"', '\\'] = .failed f ∧ f.rest = [] ∧ f.expected = [] := by
  have hcloses : ClosesAt ['\\', '"', '\\', '\\', '"', ' ', '"'] 4 := by decide
  -- the quote at place 1 has one backslash before it, that at place 4 has two
  have hfirst : ∀ j < 4, ¬ ClosesAt ['\\', '"', '\\', '\\', '"', ' ', '"'] j := by decide
  have hnone : ∀ i, ¬ ClosesAt ['\\', '"', '\\'] i := by
    intro i h
    obtain ⟨j, -, h⟩ := closesAt_escape.mp h
    exact not_closesAt_backslash h
  obtain ⟨f, hfailed, hrest, hexpected, -⟩ := (tryText_closing_quote _).2.2 hnone
  exact ⟨⟨hcloses, (tryText_closing_quote _).2.1 4 hcloses hfirst⟩, hnone, f, hfailed, hrest,
    hexpected⟩

end PathFilter.Script
