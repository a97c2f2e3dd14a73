import PathFilter.Load
import PathFilter.Proofs.Text.Utf8

/-!
# Stored scripts

A plan can be loaded from a script in a file instead of from the script itself. There is nothing
between the two but the bytes (`Plan.ofPlace_file`).

* **A file that holds a text** is as good as the text. Whatever loading the script comes to, an
  error with its wording, no plan or a plan, loading the file comes to the same.
* **Any other file** is refused as holding no text, and nothing else. The question is settled for
  the whole file before anything is read, so a script in front of the bytes that spoil the text is
  neither loaded nor complained of, however faulty it may be.

Which bytes are those of a text is said by their forms in `PathFilter.Proofs.Text.Utf8`.
-/

namespace PathFilter

open Text.Utf8 (WellFormed)

/-- Bytes that are not those of any text are refused. -/
theorem Place.text_file_of_forall_ne {bytes : ByteArray} (h : ∀ s : String, s.toUTF8 ≠ bytes) :
    (Place.file bytes).text = .error .notText := by
  -- bytes that can be decoded are those of the text that they are decoded to
  have hinvalid : ¬ bytes.IsValidUTF8 := fun hvalid => h (String.fromUTF8 bytes hvalid) rfl
  have hnone : String.fromUTF8? bytes = none := dif_neg hinvalid
  rw [Place.text, hnone]

namespace Plan

/-- A file with the bytes of a script is loaded as the script is. -/
theorem ofPlace_file_toUTF8 (s : String) : ofPlace (.file s.toUTF8) = ofScript s := by
  rw [ofPlace, Place.text_file_toUTF8]

/-- A file with bytes of no text is refused, and nothing of it is loaded. -/
theorem ofPlace_file_of_forall_ne {bytes : ByteArray} (h : ∀ s : String, s.toUTF8 ≠ bytes) :
    ofPlace (.file bytes) = .error (.storage .notText) := by
  rw [ofPlace, Place.text_file_of_forall_ne h]

/-- Bytes that are not of the forms of a text spoil the file, whatever text stands in front. -/
theorem ofPlace_file_append {bytes : ByteArray} (h : ¬ WellFormed bytes.data.toList)
    (s : String) : ofPlace (.file (s.toUTF8 ++ bytes)) = .error (.storage .notText) := by
  -- if the whole were a text, the bytes behind the script would be one as well
  apply ofPlace_file_of_forall_ne
  intro t ht
  have hs : WellFormed s.toUTF8.data.toList := Text.Utf8.wellFormed_iff_exists_toUTF8.mpr ⟨s, rfl⟩
  have hall : WellFormed (s.toUTF8 ++ bytes).data.toList :=
    Text.Utf8.wellFormed_iff_exists_toUTF8.mpr ⟨t, ht⟩
  rw [ByteArray.data_append, Array.toList_append] at hall
  exact h (hs.of_append hall)

/-- **Loading a file is loading its text.** A file with the bytes of a script gives what the script
gives. A file with other bytes is refused as no text: these are the bytes that are not of the forms
of characters in a row, and once they occur, no text in front of them changes the outcome. -/
theorem ofPlace_file :
    (∀ s : String, ofPlace (.file s.toUTF8) = ofScript s) ∧
    (∀ bytes : ByteArray, (∀ s : String, s.toUTF8 ≠ bytes) →
      ofPlace (.file bytes) = .error (.storage .notText)) ∧
    (∀ bytes : ByteArray, (∃ s : String, s.toUTF8 = bytes) ↔ WellFormed bytes.data.toList) ∧
    ∀ (s : String) (bytes : ByteArray), ¬ WellFormed bytes.data.toList →
      ofPlace (.file (s.toUTF8 ++ bytes)) = .error (.storage .notText) :=
  ⟨ofPlace_file_toUTF8, fun _ => ofPlace_file_of_forall_ne,
    fun _ => Text.Utf8.wellFormed_iff_exists_toUTF8.symm, fun s _ h => ofPlace_file_append h s⟩

/-- A slash in two bytes, alone and behind a script that is faulty itself. -/
theorem ofPlace_file_overlong :
    let bytes : ByteArray := ⟨#[0xC0, 0xAF]⟩
    (∀ s : String, s.toUTF8 ≠ bytes) ∧ ¬ WellFormed bytes.data.toList ∧
      ofPlace (.file bytes) = .error (.storage .notText) ∧
      ofPlace (.file ("path: \"".toUTF8 ++ bytes)) = .error (.storage .notText) ∧
      (ofScript "path: \"").isOk = false := by
  intro bytes
  -- two bytes for a slash, which takes one
  have hforms : ¬ WellFormed bytes.data.toList :=
    Text.Utf8.not_wellFormed_cons (.inl ⟨by decide, by decide⟩) [0xAF]
  obtain ⟨-, hrefused, htexts, hbehind⟩ := ofPlace_file
  have hne : ∀ s : String, s.toUTF8 ≠ bytes := fun s hs => hforms ((htexts bytes).mp ⟨s, hs⟩)
  refine ⟨hne, hforms, hrefused bytes hne, hbehind _ bytes hforms, ?_⟩
  decide +kernel

end Plan

end PathFilter
