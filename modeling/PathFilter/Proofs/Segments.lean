import PathFilter.Proofs.Widening

/-!
# Lower-casing segment by segment

Lower-casing is not a function of the single characters, but it is one of the **segments** of a
path. A capital sigma looks for a cased character through whatever is case-ignorable; a slash is
neither, so it ends the search on either side without an answer, as the end of the text would
(`Text.nearestIsCased_separator`). Between a slash and the rest of the path a segment is therefore
lowered as it is alone (`Text.lower_append_separator`), and the path as its segments are
(`Text.lower_intercalate`).

For a filter that ignores letter case this means that a value which ends in a slash can be relied
on: what stands behind the slash in a path cannot change what stands before it
(`Filter.lower_segmentwise`). A value that ends within a segment is another matter
(`PathFilter.Proofs.Widening`).
-/

namespace PathFilter

namespace Text

/-! ### Separators -/

/-- A character that is neither looked through nor cased. -/
def IsSeparator (c : Char) : Prop := isIgnorable c = false ∧ isCased c = false

theorem isSeparator_slash : IsSeparator '/' := by
  refine ⟨?_, ?_⟩ <;> decide +kernel

variable {c : Char}

/-- A separator ends the search for a cased character as the end of the text would. -/
theorem nearestIsCased_separator (hc : IsSeparator c) (cs ds : List Char) :
    nearestIsCased (cs ++ c :: ds) = nearestIsCased cs := by
  by_cases hcs : cs.all isIgnorable = true
  · -- the separator is the nearest character that is not looked through
    calc nearestIsCased (cs ++ c :: ds)
        = nearestIsCased (c :: ds) := nearestIsCased_append_of_all hcs _
      _ = false := by
          have hstop : (c :: ds).dropWhile isIgnorable = c :: ds :=
            List.dropWhile_cons_of_neg (by rw [hc.1]; exact Bool.false_ne_true)
          rw [nearestIsCased, hstop]
          exact hc.2
      _ = nearestIsCased cs := (nearestIsCased_of_all hcs).symm
  · exact nearestIsCased_append_of_not_all hcs _

/-- A separator is no capital sigma, so it is lowered alike wherever it stands. -/
theorem IsSeparator.ne_sigma (hc : IsSeparator c) : c ≠ 'Σ' := by
  rintro rfl
  have hsigma : isCased 'Σ' = true := by decide +kernel
  rw [hc.2] at hsigma
  contradiction

/-- A stretch of characters is lowered before a separator as it is at the end of the text. -/
theorem lowerWithin_before_separator (hc : IsSeparator c) (before cs ds : List Char) :
    lowerWithin before cs (c :: ds) = lowerWithin before cs [] := by
  refine lowerWithin_congr fun x y _ => ?_
  rw [endsWord, endsWord, nearestIsCased_separator hc, List.append_nil]

theorem lowerWithin_after_separator (hc : IsSeparator c) (before cs after : List Char) :
    lowerWithin (c :: before) cs after = lowerWithin [] cs after := by
  refine lowerWithin_congr fun x y _ => ?_
  rw [endsWord, endsWord, nearestIsCased_separator hc, List.append_nil]

/-- **A separator divides lower-casing.** What stands on the two sides of it is lowered apart. -/
theorem lowerFrom_append_separator (hc : IsSeparator c) (cs ds : List Char) :
    lowerFrom [] (cs ++ c :: ds) = lowerFrom [] cs ++ (lowerFrom [] [c] ++ lowerFrom [] ds) := by
  have hself : lowerChar cs.reverse c (ds ++ []) = lowerFrom [] [c] := by
    rw [lowerFrom, lowerFrom, List.append_nil, List.append_nil]
    exact lowerChar_of_ne hc.ne_sigma _ _ _ _
  -- the separator is a stretch of its own, between the two that it divides
  calc lowerFrom [] (cs ++ c :: ds)
      = lowerWithin [] (cs ++ c :: ds) [] := lowerFrom_eq_lowerWithin _ _
    _ = lowerWithin [] cs (c :: ds) ++
          (lowerChar cs.reverse c (ds ++ []) ++ lowerWithin (c :: cs.reverse) ds []) := by
        rw [lowerWithin_append, lowerWithin, List.append_nil, List.append_nil]
    _ = lowerFrom [] cs ++ (lowerFrom [] [c] ++ lowerFrom [] ds) := by
        rw [lowerWithin_before_separator hc, lowerWithin_after_separator hc, hself,
          ← lowerFrom_eq_lowerWithin, ← lowerFrom_eq_lowerWithin]

/-! ### Segments -/

/-- The segments of a path: what stands between its slashes. A path without a slash is one
segment. -/
def segments (p : String) : List String := (p.toList.splitOn '/').map String.ofList

/-- A path is its segments with slashes between them. -/
theorem intercalate_segments (p : String) : "/".intercalate (segments p) = p := by
  apply String.toList_injective
  have hchars : (segments p).map String.toList = p.toList.splitOn '/' := by
    rw [segments, List.map_map]
    simp [Function.comp_def]
  rw [String.toList_intercalate, hchars]
  exact List.intercalate_splitOn '/'

/-- Two parts with a slash between them are lowered apart. -/
theorem lower_append_slash (x y : String) :
    lower (x ++ "/" ++ y) = lower x ++ "/" ++ lower y := by
  have hslash : lowerFrom [] ['/'] = ['/'] := by decide +kernel
  apply String.toList_injective
  have h := lowerFrom_append_separator isSeparator_slash x.toList y.toList
  rw [hslash] at h
  simpa using h

/-- Parts with slashes between them are lowered one by one. -/
theorem lower_intercalate (ss : List String) :
    lower ("/".intercalate ss) = "/".intercalate (ss.map lower) := by
  -- by recursion on the parts; the slash behind the first one divides it from the rest
  match ss with
  | [] => rfl
  | [s] => simp
  | s :: t :: ss =>
    rw [String.intercalate_cons_cons, lower_append_slash, lower_intercalate (t :: ss)]
    simp [String.intercalate_cons_cons]

end Text

namespace Filter

open Text (lower segments)

/-- **Lower-casing goes segment by segment.** Two parts with a slash between them are lowered
apart; so the lower-case form of a path has the lower-case forms of its segments, and a filter
that ignores letter case and asks for a beginning with a slash at its end accepts every path that
begins alike up to that slash, whatever follows. -/
theorem lower_segmentwise :
    (∀ x y : String, lower (x ++ "/" ++ y) = lower x ++ "/" ++ lower y) ∧
    (∀ p : String, lower p = "/".intercalate ((segments p).map lower)) ∧
    ∀ u v w : String, lower u = lower v →
      ((only .startsWith (v ++ "/")).setIgnoreCase true).plan.accepts (u ++ "/" ++ w) = true := by
  refine ⟨Text.lower_append_slash, fun p => ?_, fun u v w huv => ?_⟩
  · rw [← Text.lower_intercalate, Text.intercalate_segments]
  · have hvalue : lower (v ++ "/") = lower v ++ "/" := by
      have h := Text.lower_append_slash v ""
      rwa [String.append_empty, show lower "" = "" from rfl, String.append_empty] at h
    refine accepts_ignoring_case_iff.mpr (forall_operand_only_iff.mpr ?_)
    -- the lower-case path begins with the lower-case value, and goes on with that of the rest
    show ∃ b, lower (u ++ "/" ++ w) = lower (v ++ "/") ++ b
    exact ⟨lower w, by rw [Text.lower_append_slash, huv, hvalue]⟩

/-- A sigma before the slash ends its word although a letter follows the slash, so the value is
found in the path whichever form of sigma it is written with. -/
theorem lower_segmentwise_sigma :
    lower "ΑΣ" = lower "ας" ∧
      ((only .startsWith "ας/").setIgnoreCase true).plan.accepts "ΑΣ/Α" = true := by
  have hvalue : lower "ΑΣ" = lower "ας" := by decide +kernel
  exact ⟨hvalue, lower_segmentwise.2.2 "ΑΣ" "ας" "Α" hvalue⟩

end Filter

end PathFilter
