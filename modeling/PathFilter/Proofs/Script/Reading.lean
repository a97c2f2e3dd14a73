import Mathlib.Data.List.TakeWhile
import PathFilter.Proofs.Script.Grammar
import PathFilter.Script.Configuration

/-!
# Reading is deciding the grammar

The readers of a script accept exactly what the grammar derives, and find the entries that it
derives (`readScript_eq_ok_iff`). There are two directions for every construct.

* **Soundness.** What a reader accepts has a derivation. The readers look for less than the
  grammar allows — the longest layout, the first alternative that fits — so this direction only
  has to name the rule that each branch follows.
* **Completeness.** What has a derivation is accepted. Here the freedom of the grammar has to be
  taken back. A derivation may end its layout early, and the reader does not follow it there:
  what the two have in common is where they are *after* skipping
  (`skipLayout_eq_of_layout`). It is enough because no construct starts with layout, so the place
  where a construct starts is one at which there is nothing to skip (`skipLayout_cons`).

The only reader whose answer depends on what follows a construct is the one for values, which has
to find out that an entry has none. What follows the entry is known in a derivation of a whole
script alone: further entries, or layout to the end of the text. So completeness of the entries
is stated for entries that are followed by layout to the end (`readEntries_of_entries`).

`load_eq_of_script` puts the two directions together for whole scripts: all derivations give one
section, the outcome of loading is the outcome of its entries, and where there is no derivation
the fault is one of form.
-/

namespace PathFilter.Script

open Grammar (EndsLine Layout Name Escape Quoted MoreItems Items Entries)

/-! ### Layout -/

theorem isBlank_iff {c : Char} : isBlank c = true ↔ c ∈ [' ', '\t', '\n', '\x0c', '\r'] := by
  simp [isBlank, or_assoc]

/-- The reader ends lines where the grammar does. -/
theorem atLineEnd_iff {cs : List Char} : atLineEnd cs = true ↔ EndsLine cs := by
  constructor
  · intro h
    match cs, h with
    | [], _ => exact .text
    | c :: r, h =>
      rw [atLineEnd, Bool.or_eq_true, Bool.and_eq_true, beq_iff_eq, beq_iff_eq, beq_iff_eq] at h
      rcases h with rfl | ⟨rfl, h⟩
      · exact .lineFeed r
      · obtain ⟨t, rfl⟩ := List.head?_eq_some_iff.mp h
        exact .carriageReturn t
  · rintro (_ | _ | _) <;> simp [atLineEnd]

/-- A character that is neither blank nor opens a comment stands at the end of layout. -/
theorem skipLayout_cons {c : Char} {cs : List Char} (hb : isBlank c = false) (hc : c ≠ '#') :
    skipLayout (c :: cs) = c :: cs :=
  skipLayout_eq_self (by rw [skipPiece?, if_neg (by simp [hb]), if_neg hc])

theorem skipLayout_nil : skipLayout [] = [] := skipLayout_eq_self rfl

/-- It does not matter whether a run of blanks is skipped at once or as part of the layout. -/
theorem skipLayout_dropWhile_isBlank (cs : List Char) :
    skipLayout (cs.dropWhile isBlank) = skipLayout cs := by
  cases cs with
  | nil => rfl
  | cons c cs =>
    by_cases hb : isBlank c = true
    · have hs : skipPiece? (c :: cs) = some (cs.dropWhile isBlank) := by rw [skipPiece?, if_pos hb]
      rw [List.dropWhile_cons_of_pos hb, skipLayout_of_skipPiece? hs]
    · rw [List.dropWhile_cons_of_neg hb]

theorem skipLayout_blank {c : Char} {cs : List Char} (hb : isBlank c = true) :
    skipLayout (c :: cs) = skipLayout cs := by
  have hs : skipPiece? (c :: cs) = some (cs.dropWhile isBlank) := by rw [skipPiece?, if_pos hb]
  rw [skipLayout_of_skipPiece? hs, skipLayout_dropWhile_isBlank]

/-- The text of a comment is what stands before the first end of a line. -/
theorem dropWhile_comment {t cs : List Char} (ht : ∀ c ∈ t, c ≠ '\n' ∧ c ≠ '\r')
    (he : EndsLine cs) : (t ++ cs).dropWhile (fun c => !isLineEnd c) = cs := by
  have hall : ∀ c ∈ t, (!isLineEnd c) = true := by
    intro c hc
    have hne := ht c hc
    simp [isLineEnd, hne.1, hne.2]
  -- all of the comment is dropped, and the drop stops at either character of a line end
  rw [List.dropWhile_append_of_pos hall]
  cases he with
  | text => rfl
  | lineFeed r => exact List.dropWhile_cons_of_neg (by decide)
  | carriageReturn r => exact List.dropWhile_cons_of_neg (by decide)

theorem afterComment?_append {t cs : List Char} (ht : ∀ c ∈ t, c ≠ '\n' ∧ c ≠ '\r')
    (he : EndsLine cs) : afterComment? (t ++ cs) = some cs := by
  rw [afterComment?, dropWhile_comment ht he, if_pos (atLineEnd_iff.mpr he)]

/-- At a `#` a piece of layout starts if the comment ends as comments do. -/
theorem skipPiece?_hash (cs : List Char) : skipPiece? ('#' :: cs) = afterComment? cs := by
  rw [skipPiece?, if_neg (by decide), if_pos rfl]

theorem skipLayout_comment {t cs : List Char} (ht : ∀ c ∈ t, c ≠ '\n' ∧ c ≠ '\r')
    (he : EndsLine cs) : skipLayout ('#' :: (t ++ cs)) = skipLayout cs := by
  refine skipLayout_of_skipPiece? ?_
  rw [skipPiece?_hash, afterComment?_append ht he]

/-- **Completeness of layout.** Wherever a derivation of layout stops, the reader comes to the
same place from there as from the beginning. -/
theorem skipLayout_eq_of_layout {cs rest : List Char} (h : Layout cs rest) :
    skipLayout cs = skipLayout rest := by
  -- each rule of the grammar is a step that the reader takes too, alone or within a run of blanks
  induction h with
  | none => rfl
  | blank hc _ ih => rw [skipLayout_blank (isBlank_iff.mpr hc), ih]
  | comment ht he _ ih => rw [skipLayout_comment ht he, ih]

/-- Layout in front of something that is no layout is skipped to its end. -/
theorem skipLayout_of_layout_cons {c : Char} {cs rest : List Char} (h : Layout cs (c :: rest))
    (hb : isBlank c = false) (hc : c ≠ '#') : skipLayout cs = c :: rest := by
  rw [skipLayout_eq_of_layout h, skipLayout_cons hb hc]

/-- A run of blanks is layout. -/
theorem layout_dropWhile_isBlank (cs : List Char) : Layout cs (cs.dropWhile isBlank) := by
  -- blank by blank
  induction cs with
  | nil => exact .none []
  | cons c cs ih =>
    by_cases hb : isBlank c = true
    · rw [List.dropWhile_cons_of_pos hb]
      exact .blank (isBlank_iff.mp hb) ih
    · rw [List.dropWhile_cons_of_neg hb]
      exact .none _

/-- A comment that the reader skips is a comment of the grammar. -/
theorem layout_of_afterComment? {cs rest : List Char} (h : afterComment? cs = some rest) :
    Layout ('#' :: cs) rest := by
  unfold afterComment? at h
  split at h
  · next he =>
    obtain rfl := Option.some.inj h
    have ht : ∀ c ∈ cs.takeWhile (fun c => !isLineEnd c), c ≠ '\n' ∧ c ≠ '\r' := by
      intro c hc
      have hp := List.mem_takeWhile_imp hc
      simpa [isLineEnd] using hp
    -- the reader stops at the end of the line, which the grammar may leave to the layout behind
    have hl := Layout.comment ht (atLineEnd_iff.mp he) (.none _)
    rwa [List.takeWhile_append_dropWhile] at hl
  · contradiction

/-- A piece that the reader skips is layout. -/
theorem layout_of_skipPiece? {cs rest : List Char} (h : skipPiece? cs = some rest) :
    Layout cs rest := by
  cases cs with
  | nil => contradiction
  | cons c cs =>
    rw [skipPiece?] at h
    -- a run of blanks, or a comment
    split at h
    · next hb =>
      obtain rfl := Option.some.inj h
      exact .blank (isBlank_iff.mp hb) (layout_dropWhile_isBlank cs)
    · split at h
      · next hc => exact hc ▸ layout_of_afterComment? h
      · contradiction

/-- **Soundness of layout.** What the reader skips is layout. -/
theorem layout_skipLayout (cs : List Char) : Layout cs (skipLayout cs) := by
  -- along the pieces
  fun_induction skipLayout cs with
  | case1 cs r h ih => exact (layout_of_skipPiece? h).trans ih
  | case2 cs h => exact .none cs

theorem layout_of_skipLayout {cs rest : List Char} (h : skipLayout cs = rest) : Layout cs rest :=
  h ▸ layout_skipLayout cs

/-! ### Names -/

theorem startsName_iff {c : Char} : startsName c = true ↔ c.isAlpha ∨ c = '_' := by
  simp [startsName]

theorem continuesName_iff {c : Char} : continuesName c = true ↔ c.isAlphanum ∨ c = '_' := by
  simp [continuesName]

/-- A name does not start with layout. -/
theorem isBlank_of_startsName {c : Char} (h : startsName c = true) : isBlank c = false := by
  rw [Bool.eq_false_iff]
  intro hb
  have hmem := isBlank_iff.mp hb
  simp only [List.mem_cons, List.not_mem_nil, or_false] at hmem
  rcases hmem with rfl | rfl | rfl | rfl | rfl <;> contradiction

theorem skipLayout_of_startsName {c : Char} {cs : List Char} (h : startsName c = true) :
    skipLayout (c :: cs) = c :: cs :=
  skipLayout_cons (isBlank_of_startsName h) (by rintro rfl; contradiction)

/-- **Soundness of names.** What the reader takes goes up to the first character that continues no
name. -/
theorem name_of_readName? {cs n rest : List Char} (h : readName? cs = some (n, rest)) :
    Name cs n rest := by
  cases cs with
  | nil => contradiction
  | cons c cs =>
    rw [readName?] at h
    split at h
    · next hc =>
      simp only [Option.some.injEq, Prod.mk.injEq] at h
      obtain ⟨rfl, rfl⟩ := h
      have hn : ∀ d ∈ cs.takeWhile continuesName, d.isAlphanum ∨ d = '_' :=
        fun d hd => continuesName_iff.mp (List.mem_takeWhile_imp hd)
      -- the character at which the longest run stopped does not continue a name
      have hrest : ∀ d ∈ (cs.dropWhile continuesName).head?, ¬ (d.isAlphanum ∨ d = '_') := by
        intro d hd
        have hf := List.head?_dropWhile_not continuesName cs
        rw [Option.mem_def.mp hd] at hf
        rw [← continuesName_iff, hf]
        exact Bool.false_ne_true
      have hname := Name.intro (startsName_iff.mp hc) hn hrest
      rwa [List.takeWhile_append_dropWhile] at hname
    · contradiction

/-- **Completeness of names.** The reader goes as far as a name goes, since what follows it stops
the reader as well. -/
theorem readName?_of_name {cs n rest : List Char} (h : Name cs n rest) :
    readName? cs = some (n, rest) := by
  obtain ⟨hc, hn, hrest⟩ := h
  rw [readName?, if_pos (startsName_iff.mpr hc)]
  -- the name is the longest run, since what follows does not continue it
  have hall := fun d hd => continuesName_iff.mpr (hn d hd)
  rw [List.takeWhile_append_of_pos hall, List.dropWhile_append_of_pos hall]
  cases rest with
  | nil => simp
  | cons d r =>
    have hd : ¬ continuesName d = true := by
      rw [continuesName_iff]
      exact hrest d rfl
    rw [List.takeWhile_cons_of_neg hd, List.dropWhile_cons_of_neg hd, List.append_nil]

/-- The reader takes the longest name, which is the only one. -/
theorem readName?_eq_some_iff {cs n rest : List Char} :
    readName? cs = some (n, rest) ↔ Name cs n rest :=
  ⟨name_of_readName?, readName?_of_name⟩

/-- A name has a first character, and it may start a name. -/
theorem exists_of_name {cs n rest : List Char} (h : Name cs n rest) :
    ∃ c t, cs = c :: t ∧ startsName c = true := by
  cases h with
  | intro hc _ _ => exact ⟨_, _, rfl, startsName_iff.mpr hc⟩

/-! ### Quoted texts -/

/-- The escapes of the reader are those of the grammar. -/
theorem escape_iff {c : Char} {u : List Char} : Escape c u ↔ u = unescape c := by
  constructor
  · rintro (_ | _ | _ | _ | hc)
    · rfl
    · rfl
    · rfl
    · rfl
    · simp only [List.mem_cons, List.not_mem_nil, or_false, not_or] at hc
      obtain ⟨hq, hb, hn, ht⟩ := hc
      rw [unescape, if_neg hq, if_neg hb, if_neg hn, if_neg ht]
  · rintro rfl
    -- one case for each branch
    unfold unescape
    split
    · next hc => exact hc ▸ .quote
    · next hq =>
      split
      · next hc => exact hc ▸ .backslash
      · next hb =>
        split
        · next hc => exact hc ▸ .lineFeed
        · next hn =>
          split
          · next hc => exact hc ▸ .tab
          · next ht => exact .other (by simp [hq, hb, hn, ht])

/-- A character that is neither a quote nor a backslash stands for itself. -/
theorem readQuoted_cons {c : Char} (hq : c ≠ '"') (hb : c ≠ '\\') (cs : List Char) :
    readQuoted (c :: cs) = (readQuoted cs).prepend [c] := by
  rw [readQuoted]
  · exact hq
  · rintro rfl
    contradiction
  · rintro _ _ rfl
    contradiction

/-- The reader of quoted texts goes unit by unit, as the grammar does. -/
theorem readQuoted_of_quoted {cs t rest : List Char} (h : Quoted cs t rest) :
    readQuoted cs = .ok (t, rest) := by
  -- the rules of the grammar are the branches of the reader
  induction h with
  | close rest => rfl
  | escape hc _ ih => rw [readQuoted, ih, escape_iff.mp hc]; rfl
  | plain hq hb _ ih => rw [readQuoted_cons hq hb, ih]; rfl

/-- Where neither a lone backslash nor one with a character behind it stands, there is none. -/
theorem ne_backslash {c : Char} {r : List Char} (hnil : c = '\\' → r = [] → False)
    (hpair : ∀ d s, c = '\\' → r = d :: s → False) : c ≠ '\\' := by
  rintro rfl
  cases r with
  | nil => exact hnil rfl rfl
  | cons d s => exact hpair d s rfl rfl

/-- What is read as a quoted text is one. -/
theorem quoted_of_readQuoted {cs t rest : List Char} (h : readQuoted cs = .ok (t, rest)) :
    Quoted cs t rest := by
  fun_induction readQuoted cs generalizing t with
  | case1 => contradiction
  | case2 r =>
    obtain ⟨rfl, rfl⟩ := Read.ok_inj h
    exact .close _
  | case3 => contradiction
  | case4 c r ih =>
    -- a backslash and the character that it escapes
    obtain ⟨u, hu, rfl⟩ := Read.prepend_eq_ok h
    exact .escape (escape_iff.mpr rfl) (ih hu)
  | case5 c r hq hnil hb ih =>
    obtain ⟨u, hu, rfl⟩ := Read.prepend_eq_ok h
    exact .plain hq (ne_backslash hnil hb) (ih hu)

/-! ### Lists -/

/-- **Completeness of lists**, from behind an item on. -/
theorem readItems_of_moreItems {cs quoted t more rest : List Char} {ts : List String}
    (hs : skipLayout cs = '"' :: quoted) (hq : readQuoted quoted = .ok (t, more))
    (h : MoreItems more ts rest) : readItems cs = .ok (String.ofList t :: ts, rest) := by
  -- the reader decides behind an item and not in front of one, so the item read last is carried
  -- along; the induction is on what follows it
  induction h generalizing cs quoted t with
  | close h =>
    have hm := skipLayout_of_layout_cons h (by decide) (by decide)
    exact readItems_of_last hs hq hm
  | trailing h hn =>
    have hm := skipLayout_of_layout_cons h (by decide) (by decide)
    have hc := skipLayout_of_layout_cons hn (by decide) (by decide)
    rw [readItems_of_comma hs hq hm, readItems_of_close hc]
    rfl
  | item h hn hq' _ ih =>
    have hm := skipLayout_of_layout_cons h (by decide) (by decide)
    have hi := skipLayout_of_layout_cons hn (by decide) (by decide)
    rw [readItems_of_comma hs hq hm, ih hi (readQuoted_of_quoted hq')]
    rfl

/-- A list of the grammar is read. -/
theorem readItems_of_items {cs rest : List Char} {ts : List String} (h : Items cs ts rest) :
    readItems cs = .ok (ts, rest) := by
  cases h with
  | empty h => exact readItems_of_close (skipLayout_of_layout_cons h (by decide) (by decide))
  | item h hq hm =>
    have hs := skipLayout_of_layout_cons h (by decide) (by decide)
    exact readItems_of_moreItems hs (readQuoted_of_quoted hq) hm

/-- A list behind a comma is the rest of a list behind an item: the comma was a trailing one if
the list is empty. -/
theorem moreItems_of_items {cs next rest : List Char} {ts : List String}
    (h : Layout cs (',' :: next)) (hi : Items next ts rest) : MoreItems cs ts rest := by
  cases hi with
  | empty hc => exact .trailing h hc
  | item hl hq hm => exact .item h hl hq hm

/-- **Soundness of lists.** -/
theorem items_of_readItems {cs rest : List Char} {ts : List String}
    (h : readItems cs = .ok (ts, rest)) : Items cs ts rest := by
  -- along the items; a list behind a comma is itself what the reader has read
  fun_induction readItems cs generalizing ts with
  | case1 cs r hs =>
    -- the closing bracket
    obtain ⟨rfl, rfl⟩ := Read.ok_inj h
    exact .empty (layout_of_skipLayout hs)
  | case2 => contradiction
  | case3 => contradiction
  | case4 cs q hs t more hq next hm us r hr ih =>
    -- an item and a comma, and behind them a list
    obtain ⟨rfl, rfl⟩ := Read.ok_inj h
    exact .item (layout_of_skipLayout hs) (quoted_of_readQuoted hq)
      (moreItems_of_items (layout_of_skipLayout hm) (ih hr))
  | case5 cs q hs t more hq r hm =>
    -- the last item, without a comma
    obtain ⟨rfl, rfl⟩ := Read.ok_inj h
    exact .item (layout_of_skipLayout hs) (quoted_of_readQuoted hq)
      (.close (layout_of_skipLayout hm))
  | case6 => contradiction
  | case7 => contradiction

/-! ### Entries -/

/-- Where neither a quote nor a bracket follows the layout, there is no value. -/
theorem readValue_of_flag {cs : List Char} (hq : ∀ r, skipLayout cs ≠ '"' :: r)
    (hb : ∀ r, skipLayout cs ≠ '[' :: r) : readValue cs = .ok (.flag, cs) := by
  unfold readValue
  split
  · next r hs => exact absurd hs (hq r)
  · next r hs => exact absurd hs (hb r)
  · rfl

/-- A value of the grammar is read, with the layout before it. -/
theorem readValue_of_value {cs ds rest : List Char} {v : Value} (hl : Layout cs ds)
    (hv : Grammar.Value ds v rest) : readValue cs = .ok (v, rest) := by
  cases hv with
  | text h =>
    rw [readValue, skipLayout_of_layout_cons hl (by decide) (by decide)]
    simp only [readQuoted_of_quoted h, Except.map]
  | list h =>
    rw [readValue, skipLayout_of_layout_cons hl (by decide) (by decide)]
    simp only [readItems_of_items h, Except.map]

/-- **Soundness of values.** What is read behind a name is a value with layout before it, or
nothing at all. -/
theorem entry_of_readValue {cs after rest n : List Char} {v : Value} (hn : Name cs n after)
    (h : readValue after = .ok (v, rest)) : Grammar.Entry cs ⟨String.ofList n, v⟩ rest := by
  unfold readValue at h
  -- by the first character behind the layout
  split at h
  · next q hs =>
    obtain ⟨t, more, hq, hp⟩ := Read.map_eq_ok h
    obtain ⟨rfl, rfl⟩ := Prod.mk.inj hp
    exact .valued hn (layout_of_skipLayout hs) (.text (quoted_of_readQuoted hq))
  · next q hs =>
    obtain ⟨ts, more, hi, hp⟩ := Read.map_eq_ok h
    obtain ⟨rfl, rfl⟩ := Prod.mk.inj hp
    exact .valued hn (layout_of_skipLayout hs) (.list (items_of_readItems hi))
  · -- neither a text nor a list: the layout that was looked past is given back
    obtain ⟨rfl, rfl⟩ := Read.ok_inj h
    exact .flag hn

theorem exists_of_entry {cs rest : List Char} {e : Entry} (h : Grammar.Entry cs e rest) :
    ∃ c t, cs = c :: t ∧ startsName c = true := by
  cases h with
  | flag hn => exact exists_of_name hn
  | valued hn _ _ => exact exists_of_name hn

/-- What follows the layout behind an entry: the end of the text or the name of another entry. -/
theorem skipLayout_of_entries {cs rest : List Char} {es : List Entry} (h : Entries cs es rest)
    (hr : Layout rest []) :
    skipLayout cs = [] ∨ ∃ c t, skipLayout cs = c :: t ∧ startsName c = true := by
  cases h with
  | none => exact .inl ((skipLayout_eq_of_layout hr).trans skipLayout_nil)
  | entry hl he _ =>
    obtain ⟨c, t, rfl, hc⟩ := exists_of_entry he
    exact .inr ⟨c, t, (skipLayout_eq_of_layout hl).trans (skipLayout_of_startsName hc), hc⟩

/-- So a name that is followed by further entries, or by layout to the end, has no value. -/
theorem readValue_of_entries {cs rest : List Char} {es : List Entry} (h : Entries cs es rest)
    (hr : Layout rest []) : readValue cs = .ok (.flag, cs) := by
  refine readValue_of_flag (fun r hs => ?_) (fun r hs => ?_)
  -- the same for the quote and the bracket: neither starts a name
  all_goals
    rcases skipLayout_of_entries h hr with hnil | ⟨c, t, hct, hc⟩
    · rw [hs] at hnil; contradiction
    · rw [hs] at hct; injection hct with hcc; subst hcc; contradiction

/-- **Completeness of entries**, where layout to the end of the text follows them. -/
theorem readEntries_of_entries {cs rest : List Char} {es : List Entry} (h : Entries cs es rest)
    (hr : Layout rest []) : readEntries cs = .ok (es, rest) := by
  -- along the derivation: what follows an entry decides whether it has a value
  induction h with
  | none cs =>
    refine readEntries_of_none ?_
    rw [skipLayout_eq_of_layout hr, skipLayout_nil]
    rfl
  | entry hl he h ih =>
    obtain ⟨c, t, rfl, hc⟩ := exists_of_entry he
    have hs := (skipLayout_eq_of_layout hl).trans (skipLayout_of_startsName hc)
    cases he with
    | flag hn =>
      -- no value is found: what comes next is a name or the end, not a quote or a bracket
      have hname := hs ▸ readName?_eq_some_iff.mpr hn
      rw [readEntries_of_entry hname (readValue_of_entries h hr), ih hr]
      rfl
    | valued hn hl' hv =>
      have hname := hs ▸ readName?_eq_some_iff.mpr hn
      rw [readEntries_of_entry hname (readValue_of_value hl' hv), ih hr]
      rfl

/-- **Soundness of entries.** -/
theorem entries_of_readEntries {cs rest : List Char} {es : List Entry}
    (h : readEntries cs = .ok (es, rest)) : Entries cs es rest := by
  -- along the entries
  fun_induction readEntries cs generalizing es with
  | case1 cs _ =>
    obtain ⟨rfl, rfl⟩ := Read.ok_inj h
    exact .none _
  | case2 => contradiction
  | case3 => contradiction
  | case4 cs n after hn v next hv es' r hr ih =>
    obtain ⟨rfl, rfl⟩ := Read.ok_inj h
    have he := entry_of_readValue (readName?_eq_some_iff.mp hn) hv
    exact .entry (layout_skipLayout cs) he (ih hr)

/-! ### Whole scripts -/

/-- Behind the word of a section, layout and a colon, the section is read. -/
theorem readSection_of_colon {word entries : List Char} (h : skipLayout word = ':' :: entries) :
    readSection ('p' :: 'a' :: 't' :: 'h' :: word) =
      (readEntries entries).map fun (es, rest) => (some es, rest) := by
  have hp : sectionWord.isPrefixOf ('p' :: 'a' :: 't' :: 'h' :: word) = true :=
    List.isPrefixOf_iff_prefix.mpr (List.prefix_append sectionWord word)
  have hd : ('p' :: 'a' :: 't' :: 'h' :: word).drop sectionWord.length = word := rfl
  rw [readSection, if_pos hp, hd, h]
  rfl

/-- What is read as a section is one, or the word of a section does not stand there and nothing
has been read. -/
theorem section_of_readSection {cs more : List Char} {sec : Option (List Entry)}
    (h : readSection cs = .ok (sec, more)) :
    sec = none ∧ more = cs ∨
      ∃ word entries es, cs = 'p' :: 'a' :: 't' :: 'h' :: word ∧ Layout word (':' :: entries) ∧
        Entries entries es more ∧ sec = some es := by
  unfold readSection at h
  -- the word is looked for without its colon, which has to follow it
  split at h
  · next hp =>
    obtain ⟨word, rfl⟩ := List.isPrefixOf_iff_prefix.mp hp
    rw [List.drop_left] at h
    split at h
    · next entries hw =>
      obtain ⟨es, rest, he, hp⟩ := Read.map_eq_ok h
      obtain ⟨rfl, rfl⟩ := Prod.mk.inj hp
      exact .inr ⟨word, entries, es, rfl, layout_of_skipLayout hw, entries_of_readEntries he, rfl⟩
    · contradiction
  · obtain ⟨rfl, rfl⟩ := Read.ok_inj h
    exact .inl ⟨rfl, rfl⟩

/-- **The reader decides the grammar.** -/
theorem readScript_eq_ok_iff {cs : List Char} {sec : Option (List Entry)} :
    readScript cs = .ok sec ↔ Grammar.Whole cs sec := by
  constructor
  · -- the rest behind a section is layout up to the end, and so is the whole of a blank script
    intro h
    unfold readScript at h
    split at h
    · contradiction
    · next sec' more hs =>
      split at h
      · next hm =>
        obtain rfl := Except.ok.inj h
        have hr := layout_of_skipLayout hm
        rcases section_of_readSection hs with ⟨rfl, rfl⟩ | ⟨word, entries, es, hp, hw, he, rfl⟩
        · exact .blank ((layout_skipLayout cs).trans hr)
        · exact .section (layout_of_skipLayout hp) hw he hr
      · contradiction
  · rintro (h | ⟨h, hw, he, hr⟩)
    -- layout alone: nothing is left for the word to be found in
    · have hs : skipLayout cs = [] := (skipLayout_eq_of_layout h).trans skipLayout_nil
      rw [readScript, hs]
      simp only [show readSection [] = .ok (none, []) from rfl, skipLayout_nil]
    -- a section: each reader starts where the one before it has stopped
    · have hs := skipLayout_of_layout_cons h (by decide) (by decide)
      have hc := skipLayout_of_layout_cons hw (by decide) (by decide)
      have hend := (skipLayout_eq_of_layout hr).trans skipLayout_nil
      rw [readScript, hs, readSection_of_colon hc, readEntries_of_entries he hr]
      simp only [Except.map, hend]

/-- All derivations of a script give it the same section. -/
theorem script_unique {cs : List Char} {sec sec' : Option (List Entry)}
    (h : Grammar.Whole cs sec) (h' : Grammar.Whole cs sec') : sec = sec' :=
  Except.ok.inj ((readScript_eq_ok_iff.mpr h).symm.trans (readScript_eq_ok_iff.mpr h'))

/-- Layout alone is a script without a section, and nothing else is. -/
theorem script_none_iff {cs : List Char} : Grammar.Whole cs none ↔ Layout cs [] :=
  ⟨fun h => by cases h with | blank h => exact h, .blank⟩

/-! ### Loading -/

/-- A script of the grammar is loaded as its entries are. -/
theorem load_of_script {s : String} {sec : Option (List Entry)}
    (h : Grammar.Whole s.toList sec) : load s = (configurationOf sec).mapError .entry := by
  rw [load, readScript_eq_ok_iff.mpr h]

/-- A text that is no script is refused for its form, whatever entries it starts with. -/
theorem load_of_not_script {s : String} (h : ∀ sec, ¬ Grammar.Whole s.toList sec) :
    ∃ f, load s = .error (.malformed s.toList f) := by
  rw [load]
  -- a reader that succeeded would give a derivation
  cases hr : readScript s.toList with
  | error f => exact ⟨f, rfl⟩
  | ok sec => exact absurd (readScript_eq_ok_iff.mp hr) (h sec)

/-- The entries of a section always configure a filter if they configure anything. -/
theorem configurationOf_eq_ok_none_iff {sec : Option (List Entry)} :
    configurationOf sec = .ok none ↔ sec = none := by
  cases sec with
  | none => exact ⟨fun _ => rfl, fun _ => rfl⟩
  | some es =>
    rw [configurationOf]
    cases filterOf es <;> simp [Except.map]

/-- Only layout is loaded as no filter. -/
theorem load_eq_ok_none_iff {s : String} : load s = .ok none ↔ Layout s.toList [] := by
  rw [← script_none_iff, ← readScript_eq_ok_iff, load]
  cases readScript s.toList with
  | error f => simp
  | ok sec =>
    -- a section never configures nothing, and an error of its entries is still an error
    rw [Except.ok.injEq, ← configurationOf_eq_ok_none_iff]
    change (configurationOf sec).mapError Error.entry = .ok none ↔ _
    cases configurationOf sec <;> simp [Except.mapError]

/-- **Scripts are loaded by the grammar.** A text with a derivation has one section, whatever the
derivation, and loads as the entries of that section do; a text without one is refused as
malformed, before anything is asked of an entry. So only layout loads as no filter at all. -/
theorem load_eq_of_script (s : String) :
    (∀ sec, Grammar.Whole s.toList sec →
      (∀ sec', Grammar.Whole s.toList sec' → sec' = sec) ∧
      load s = (configurationOf sec).mapError .entry) ∧
    ((∀ sec, ¬ Grammar.Whole s.toList sec) → ∃ f, load s = .error (.malformed s.toList f)) ∧
    (load s = .ok none ↔ Layout s.toList []) := by
  refine ⟨fun sec h => ⟨fun sec' h' => script_unique h' h, load_of_script h⟩, ?_, ?_⟩
  · exact load_of_not_script
  · exact load_eq_ok_none_iff

/-- One condition and a comment are loaded; the word of a section with nothing behind it is not
layout, and no colon follows it. -/
theorem load_eq_of_script_equals :
    load "path:equals \"a\"#" = .ok (some (Filter.build [.condition .equals "a"])) ∧
    ∃ f, load "path" = .error (.malformed "path".toList f) := by
  have hletters : ∀ d ∈ "quals".toList, d.isAlphanum ∨ d = '_' := by simp
  have hquote : ∀ d ∈ " \"a\"#".toList.head?, ¬ (d.isAlphanum ∨ d = '_') := by simp
  have hname : Grammar.Name "equals \"a\"#".toList "equals".toList " \"a\"#".toList :=
    .intro (c := 'e') (.inl rfl) hletters hquote
  have hvalue : Grammar.Value "\"a\"#".toList (.text "a") ['#'] :=
    .text (.plain (by decide) (by decide) (.close _))
  have hentry : Grammar.Entry "equals \"a\"#".toList ⟨"equals", .text "a"⟩ ['#'] :=
    .valued hname (.blank (by decide) (.none _)) hvalue
  have hscript : Grammar.Whole "path:equals \"a\"#".toList (some [⟨"equals", .text "a"⟩]) :=
    .section (.none _) (.none _) (.entry (.none _) hentry (.none _))
      (.comment (List.forall_mem_nil _) .text (.none _))
  have hstay : skipLayout "path".toList = "path".toList :=
    skipLayout_of_layout_cons (.none _) (by decide) (by decide)
  have hnone : ∀ sec, ¬ Grammar.Whole "path".toList sec := by
    -- neither form of a script fits: there is something but layout, and no colon
    rintro sec (h | ⟨h, hw, -, -⟩)
    · rw [skipLayout_eq_of_layout h, skipLayout_nil] at hstay
      nomatch hstay
    · rw [skipLayout_of_layout_cons h (by decide) (by decide)] at hstay
      obtain rfl : _ = [] := by simpa using hstay
      have hcolon := skipLayout_of_layout_cons hw (by decide) (by decide)
      rw [skipLayout_nil] at hcolon
      nomatch hcolon
  refine ⟨?_, (load_eq_of_script _).2.1 hnone⟩
  rw [((load_eq_of_script _).1 _ hscript).2]
  rfl

end PathFilter.Script
