import PathFilter.Text.Lower

/-!
# Lower-casing a part of a text

Lower-casing a part of a text alone and lower-casing it where it stands give the same characters,
with one exception: the form of a capital sigma hangs on its neighbours. `lowerWithin` is the
lower-case form of a stretch of characters between given neighbours, and `lowerWithin_append`
cuts it at any place; so the question what lower-casing does to a prefix, a suffix or a part of a
text becomes the question when neighbours can be exchanged.

* `lowerWithin_congr` — they can when they leave every capital sigma of the stretch as it was.
* Neighbours reach a sigma through case-ignorable characters only. So what stands before a text
  matters to the first sigma at most, and only if nothing but ignorable characters precede it;
  and what stands behind matters to the last one at most. `SettledStart` and `SettledEnd` say
  that it does not matter to that sigma either.
* `lower_append_of_settledEnd`, `lower_append_of_settledStart` and `lower_append_append` — texts
  settled at an end may be cut there.
* Both conditions are exact: one letter put at an end that is not settled turns a sigma, so that
  one form of it occurs less often than before (`settledEnd_of_count_le`,
  `settledStart_of_count_le`).
-/

namespace PathFilter.Text

/-! ### Neighbours -/

theorem isIgnorable_sigma : isIgnorable 'Σ' = false := by decide +kernel

theorem nearestIsCased_a : nearestIsCased ['a'] = true := by decide +kernel

/-- Through ignorable characters the next ones are seen. -/
theorem nearestIsCased_append_of_all {cs : List Char} (h : cs.all isIgnorable = true)
    (ds : List Char) : nearestIsCased (cs ++ ds) = nearestIsCased ds := by
  unfold nearestIsCased
  rw [List.dropWhile_append_of_pos (List.all_eq_true.mp h)]

/-- Past a character that is not ignorable nothing is seen. -/
theorem nearestIsCased_append_cons {c : Char} (hc : isIgnorable c = false) (cs ds : List Char) :
    nearestIsCased (cs ++ c :: ds) = nearestIsCased (cs ++ [c]) := by
  -- the search passes over ignorable characters, at the latest up to `c`, where it stops
  induction cs with
  | nil => simp [nearestIsCased, hc]
  | cons d cs ih =>
    unfold nearestIsCased at ih ⊢
    rw [List.cons_append, List.cons_append, List.dropWhile_cons, List.dropWhile_cons]
    by_cases hd : isIgnorable d = true
    · rw [if_pos hd, if_pos hd]
      exact ih
    · rw [if_neg hd, if_neg hd]

/-- Where not all characters are looked through, nothing behind them is seen. -/
theorem nearestIsCased_append_of_not_all {cs : List Char} (h : ¬ cs.all isIgnorable = true)
    (ds : List Char) : nearestIsCased (cs ++ ds) = nearestIsCased cs := by
  rw [Bool.not_eq_true, List.all_eq_false] at h
  obtain ⟨c, hmem, hc⟩ := h
  rw [Bool.not_eq_true] at hc
  -- what stands behind `c` is seen neither with `ds` there nor without
  obtain ⟨as, bs, rfl⟩ := List.append_of_mem hmem
  rw [List.append_assoc, List.cons_append, nearestIsCased_append_cons hc,
    ← nearestIsCased_append_cons hc as bs]

/-- Where all are looked through, nothing cased is seen. -/
theorem nearestIsCased_of_all {cs : List Char} (h : cs.all isIgnorable = true) :
    nearestIsCased cs = false := by
  have hnil := nearestIsCased_append_of_all h []
  rw [List.append_nil] at hnil
  rw [hnil]
  rfl

/-! ### Stretches -/

/-- The lower-case form of a stretch of characters between those before it, nearest first, and
those behind it. -/
def lowerWithin : List Char → List Char → List Char → List Char
  | _, [], _ => []
  | before, c :: cs, after => lowerChar before c (cs ++ after) ++ lowerWithin (c :: before) cs after

/-- A text is a stretch with nothing behind it. -/
theorem lowerFrom_eq_lowerWithin (before cs : List Char) :
    lowerFrom before cs = lowerWithin before cs [] := by
  induction cs generalizing before with
  | nil => rfl
  | cons c cs ih => rw [lowerFrom, lowerWithin, List.append_nil, ih]

/-- A stretch may be cut at any place; each part has the other among its neighbours. -/
theorem lowerWithin_append (before cs ds after : List Char) :
    lowerWithin before (cs ++ ds) after =
      lowerWithin before cs (ds ++ after) ++ lowerWithin (cs.reverse ++ before) ds after := by
  -- the characters passed pile up before the stretch, so the induction is for all of them
  induction cs generalizing before with
  | nil => rfl
  | cons c cs ih =>
    rw [List.cons_append, lowerWithin, lowerWithin, ih, List.append_assoc cs, List.append_assoc,
      List.reverse_cons, List.append_assoc, List.singleton_append]

theorem lowerChar_of_ne {c : Char} (hc : c ≠ 'Σ') (before after before' after' : List Char) :
    lowerChar before c after = lowerChar before' c after' := by
  unfold lowerChar
  rw [if_neg hc, if_neg hc]

theorem lowerChar_sigma (before after : List Char) :
    lowerChar before 'Σ' after = [if endsWord before after then 'ς' else 'σ'] := by
  rw [lowerChar, if_neg (by decide), if_pos rfl]

/-- **Exchanging neighbours.** Neighbours may be exchanged for others between which every capital
sigma of the stretch ends a word if and only if it did. -/
theorem lowerWithin_congr {cs before after before' after' : List Char}
    (h : ∀ x y, cs = x ++ 'Σ' :: y →
      endsWord (x.reverse ++ before) (y ++ after) =
        endsWord (x.reverse ++ before') (y ++ after')) :
    lowerWithin before cs after = lowerWithin before' cs after' := by
  -- by induction on the stretch, with the neighbours before it left open
  induction cs generalizing before before' with
  | nil => rfl
  | cons c cs ih =>
    -- only a sigma looks at its neighbours
    have hhead : lowerChar before c (cs ++ after) = lowerChar before' c (cs ++ after') := by
      by_cases hc : c = 'Σ'
      · subst hc
        rw [lowerChar_sigma, lowerChar_sigma]
        have hσ := h [] cs rfl
        rw [List.reverse_nil, List.nil_append, List.nil_append] at hσ
        rw [hσ]
      · exact lowerChar_of_ne hc _ _ _ _
    -- a sigma further on has `c` among the characters before it, on both sides alike
    have htail : lowerWithin (c :: before) cs after = lowerWithin (c :: before') cs after' := by
      refine ih fun x y hxy => ?_
      have hσ := h (c :: x) y (by rw [hxy, List.cons_append])
      simpa using hσ
    rw [lowerWithin, lowerWithin, hhead, htail]

/-- Ignorable characters do not look at their neighbours. -/
theorem lowerWithin_of_all {cs : List Char} (h : cs.all isIgnorable = true)
    (before after before' after' : List Char) :
    lowerWithin before cs after = lowerWithin before' cs after' := by
  refine lowerWithin_congr fun x y hxy => ?_
  have hσ := List.all_eq_true.mp h 'Σ' (by simp [hxy])
  exact absurd hσ (by rw [isIgnorable_sigma]; exact Bool.false_ne_true)

/-- A stretch is shielded by a sigma behind it from what stands behind the sigma. -/
theorem lowerWithin_sigma_after (before cs after after' : List Char) :
    lowerWithin before cs ('Σ' :: after) = lowerWithin before cs ('Σ' :: after') := by
  refine lowerWithin_congr fun x y _ => ?_
  unfold endsWord
  rw [nearestIsCased_append_cons isIgnorable_sigma y after,
    nearestIsCased_append_cons isIgnorable_sigma y after']

/-- A stretch is shielded by a sigma before it from what stands before the sigma. -/
theorem lowerWithin_sigma_before (before before' cs after : List Char) :
    lowerWithin ('Σ' :: before) cs after = lowerWithin ('Σ' :: before') cs after := by
  refine lowerWithin_congr fun x y _ => ?_
  unfold endsWord
  rw [nearestIsCased_append_cons isIgnorable_sigma x.reverse before,
    nearestIsCased_append_cons isIgnorable_sigma x.reverse before']

/-! ### Settled ends -/

/-- What stands before the text does not matter to its first capital sigma: a cased character
follows it, or characters that are not ignorable precede it. -/
def SettledStart (cs : List Char) : Prop :=
  ∀ x y, cs = x ++ 'Σ' :: y → x.all isIgnorable = true → nearestIsCased y = true

/-- What stands behind the text does not matter to its last capital sigma: no cased character
precedes it, or characters that are not ignorable follow it. -/
def SettledEnd (cs : List Char) : Prop :=
  ∀ x y, cs = x ++ 'Σ' :: y → y.all isIgnorable = true → nearestIsCased x.reverse = false

/-- What is settled at its start is lowered alike behind any characters. -/
theorem lowerWithin_of_settledStart {cs : List Char} (h : SettledStart cs)
    (before after : List Char) : lowerWithin before cs after = lowerWithin [] cs after := by
  refine lowerWithin_congr fun x y hxy => ?_
  unfold endsWord
  rw [List.append_nil]
  by_cases hx : x.all isIgnorable = true
  · -- the sigma looks past the start, but a cased character behind it decides
    have hy : nearestIsCased y = true := h x y hxy hx
    have hall : ¬ y.all isIgnorable = true := fun hall => by
      rw [nearestIsCased_of_all hall] at hy
      exact Bool.false_ne_true hy
    rw [nearestIsCased_append_of_not_all hall, hy, Bool.not_true, Bool.and_false, Bool.and_false]
  -- the sigma has something to stop at behind the start
  · have hrev : ¬ x.reverse.all isIgnorable = true := by rwa [List.all_reverse]
    rw [nearestIsCased_append_of_not_all hrev]

/-- What is settled at its end is lowered alike before any characters. -/
theorem lowerWithin_of_settledEnd {cs : List Char} (h : SettledEnd cs) (after : List Char) :
    lowerWithin [] cs after = lowerWithin [] cs [] := by
  refine lowerWithin_congr fun x y hxy => ?_
  unfold endsWord
  rw [List.append_nil, List.append_nil]
  by_cases hy : y.all isIgnorable = true
  · -- the sigma looks past the end, but nothing cased before it decides
    rw [h x y hxy hy, Bool.false_and, Bool.false_and]
  · rw [nearestIsCased_append_of_not_all hy]

/-- A text that is settled at its end stays a prefix. -/
theorem lower_append_of_settledEnd {v : String} (h : SettledEnd v.toList) (b : String) :
    ∃ b', lower (v ++ b) = lower v ++ b' := by
  refine ⟨String.ofList (lowerWithin v.toList.reverse b.toList []), String.toList_injective ?_⟩
  simp only [toList_lower, String.toList_append, String.toList_ofList, lowerFrom_eq_lowerWithin]
  rw [lowerWithin_append, List.append_nil, List.append_nil, lowerWithin_of_settledEnd h]

theorem lower_append_of_settledStart {v : String} (h : SettledStart v.toList) (a : String) :
    ∃ a', lower (a ++ v) = a' ++ lower v := by
  refine ⟨String.ofList (lowerWithin [] a.toList v.toList), String.toList_injective ?_⟩
  simp only [toList_lower, String.toList_append, String.toList_ofList, lowerFrom_eq_lowerWithin]
  rw [lowerWithin_append, List.append_nil, List.append_nil, lowerWithin_of_settledStart h]

/-- A text that is settled at both ends stays a part. -/
theorem lower_append_append {v : String} (hs : SettledStart v.toList)
    (he : SettledEnd v.toList) (a b : String) :
    ∃ a' b', lower (a ++ v ++ b) = a' ++ lower v ++ b' := by
  refine ⟨String.ofList (lowerWithin [] a.toList (v.toList ++ b.toList)),
    String.ofList (lowerWithin (v.toList.reverse ++ a.toList.reverse) b.toList []),
    String.toList_injective ?_⟩
  simp only [toList_lower, String.toList_append, String.toList_ofList, lowerFrom_eq_lowerWithin]
  rw [lowerWithin_append, lowerWithin_append, List.append_nil, List.append_nil, List.append_nil,
    lowerWithin_of_settledStart hs, lowerWithin_of_settledEnd he, List.reverse_append]

/-! ### Ends that are not settled -/

/-- The lower-case form of a text around one of its sigmas. What stands beyond the sigma is not
seen from either side of it. -/
theorem lowerWithin_around_sigma (before x y after : List Char) :
    lowerWithin before (x ++ 'Σ' :: y) after =
      lowerWithin before x ['Σ'] ++
        ([if endsWord (x.reverse ++ before) (y ++ after) then 'ς' else 'σ'] ++
          lowerWithin ['Σ'] y after) := by
  rw [lowerWithin_append, lowerWithin, lowerChar_sigma, List.cons_append,
    lowerWithin_sigma_after before x (y ++ after) [], lowerWithin_sigma_before _ [] y after]

theorem lowerWithin_a (before after : List Char) : lowerWithin before ['a'] after = ['a'] := by
  have ha : lowerChar [] 'a' [] = ['a'] := by decide +kernel
  rw [lowerWithin, lowerWithin, lowerChar_of_ne (by decide) before _ [] [], ha, List.append_nil]

/-- If a letter behind a text leaves it its final sigmas, the text is settled at its end. -/
theorem settledEnd_of_count_le {v : List Char}
    (h : (lowerFrom [] v).count 'ς' ≤ (lowerFrom [] (v ++ ['a'])).count 'ς') : SettledEnd v := by
  rintro x y rfl hy
  rw [Bool.eq_false_iff]
  intro hx
  -- the last sigma ends a word, and no longer does so when a letter follows
  have halone : endsWord (x.reverse ++ []) (y ++ []) = true := by
    rw [endsWord, List.append_nil, List.append_nil, hx, nearestIsCased_of_all hy]
    rfl
  have hfollowed : ¬ endsWord (x.reverse ++ []) ((y ++ ['a']) ++ []) = true := by
    rw [endsWord, List.append_nil (y ++ _), nearestIsCased_append_of_all hy, nearestIsCased_a,
      Bool.not_true, Bool.and_false]
    exact Bool.false_ne_true
  -- nothing else changes: the sigma shields what is before it, and only ignorables are behind it
  have hv : lowerFrom [] (x ++ 'Σ' :: y) =
      lowerWithin [] x ['Σ'] ++ (['ς'] ++ lowerWithin ['Σ'] y []) := by
    rw [lowerFrom_eq_lowerWithin, lowerWithin_around_sigma, if_pos halone]
  have hva : lowerFrom [] (x ++ 'Σ' :: y ++ ['a']) =
      lowerWithin [] x ['Σ'] ++ (['σ'] ++ (lowerWithin ['Σ'] y [] ++ ['a'])) := by
    rw [lowerFrom_eq_lowerWithin, List.append_assoc, List.cons_append, lowerWithin_around_sigma,
      if_neg hfollowed, lowerWithin_append, lowerWithin_a, lowerWithin_of_all hy ['Σ'] _ ['Σ'] []]
  have hσ : List.count 'ς' ['σ'] = 0 := by decide
  have ha : List.count 'ς' ['a'] = 0 := by decide
  rw [hv, hva] at h
  simp only [List.count_append, List.count_singleton_self, hσ, ha] at h
  omega

/-- If a letter before a text leaves it its other sigmas, the text is settled at its start. -/
theorem settledStart_of_count_le {v : List Char}
    (h : (lowerFrom [] v).count 'σ' ≤ (lowerFrom [] ('a' :: v)).count 'σ') : SettledStart v := by
  rintro x y rfl hx
  rw [← Bool.not_eq_false]
  intro hy
  have hrev : x.reverse.all isIgnorable = true := by rwa [List.all_reverse]
  -- the first sigma has no letter before it, and ends a word when it is given one
  have halone : ¬ endsWord (x.reverse ++ []) (y ++ []) = true := by
    rw [endsWord, List.append_nil, nearestIsCased_of_all hrev, Bool.false_and]
    exact Bool.false_ne_true
  have hpreceded : endsWord (x.reverse ++ ['a']) (y ++ []) = true := by
    rw [endsWord, List.append_nil, nearestIsCased_append_of_all hrev, nearestIsCased_a, hy]
    rfl
  -- nothing else changes, as above with the two sides exchanged
  have hv : lowerFrom [] (x ++ 'Σ' :: y) =
      lowerWithin [] x ['Σ'] ++ (['σ'] ++ lowerWithin ['Σ'] y []) := by
    rw [lowerFrom_eq_lowerWithin, lowerWithin_around_sigma, if_neg halone]
  have hav : lowerFrom [] ('a' :: (x ++ 'Σ' :: y)) =
      ['a'] ++ (lowerWithin [] x ['Σ'] ++ (['ς'] ++ lowerWithin ['Σ'] y [])) := by
    rw [lowerFrom_eq_lowerWithin, ← List.singleton_append, lowerWithin_append, lowerWithin_a,
      List.reverse_singleton, List.append_nil, lowerWithin_around_sigma, if_pos hpreceded,
      lowerWithin_of_all hx ['a'] _ [] ['Σ']]
  have hς : List.count 'σ' ['ς'] = 0 := by decide
  have ha : List.count 'σ' ['a'] = 0 := by decide
  rw [hv, hav] at h
  simp only [List.count_append, List.count_singleton_self, hς, ha] at h
  omega

end PathFilter.Text
