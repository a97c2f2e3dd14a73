import PathFilter.Proofs.Script.Document
import PathFilter.Script.Report

/-!
# What comes before a fault

A fault of a script lies neither too far ahead nor too late: what comes before it is the
**beginning of a script**, so the fault is not behind the first character that is wrong. This is
said of the outcome of the reader (`begins_before_fault`), and shown with the grammar.

* **What follows may be exchanged.** A derivation hangs on the characters that it takes, and on
  the next one where that would carry on a name or end a line. So the rest of a derived construct
  may be exchanged for another (`Grammar.Quoted.exchange`, `Grammar.Entries.exchange`, and so on);
  after layout that the reader has skipped to its end even for anything at all, unless a comment
  reaches to the end of the text (`exists_gap`).
* **What was begun can be finished.** From the place of a fault on, a few characters finish
  whatever was begun there: the line of a comment, a quoted text behind a backslash, a list, a
  section (`Begins`). What was read before stays as it was read, by the first point, so the same
  characters finish everything around it (`Begins.within`).
* **What is left over.** A fault that names nothing and does not lie at the end of the text is the
  first character behind a whole script (`script_of_leftover`).
-/

namespace PathFilter.Script

open Grammar (EndsLine Layout Name Quoted MoreItems Items Entries)

/-! ### Exchanging what follows -/

namespace Grammar

variable {cs rest rest' : List Char}

/-- Nothing that is not blank is needed to end a line, except at the end of the text. -/
theorem EndsLine.exchange {gap : List Char} (h : EndsLine (gap ++ rest))
    (hb : ∀ c ∈ rest.head?, isBlank c = false) (hend : rest = [] → EndsLine rest') :
    EndsLine (gap ++ rest') := by
  rcases gap with _ | ⟨c, _ | ⟨d, gap⟩⟩
  · -- a line ends at a blank or with the text, and `rest` starts with no blank
    rw [List.nil_append] at h ⊢
    cases h with
    | text => exact hend rfl
    | lineFeed => exact absurd (hb '\n' rfl) (by decide)
    | carriageReturn => exact absurd (hb '\r' rfl) (by decide)
  · rw [List.singleton_append] at h ⊢
    cases h with
    | lineFeed => exact .lineFeed rest'
    | carriageReturn => exact absurd (hb '\n' rfl) (by decide)
  · rw [List.cons_append, List.cons_append] at h ⊢
    cases h with
    | lineFeed => exact .lineFeed _
    | carriageReturn => exact .carriageReturn _

/-- What follows layout may be exchanged, unless a blank follows that could have ended the line of
a comment; if nothing follows, then for the end of a line. -/
theorem Layout.exchange (h : Layout cs rest) (hb : ∀ c ∈ rest.head?, isBlank c = false) :
    ∃ gap, cs = gap ++ rest ∧
      ∀ rest', (rest = [] → EndsLine rest') → Layout (gap ++ rest') rest' := by
  -- only the last comment may reach as far as what follows; the others are followed by layout
  induction h with
  | none cs => exact ⟨[], rfl, fun rest' _ => .none rest'⟩
  | @blank c _ _ hc _ ih =>
    obtain ⟨gap, rfl, hgap⟩ := ih hb
    exact ⟨c :: gap, rfl, fun rest' hend => .blank hc (hgap rest' hend)⟩
  | @comment t _ _ ht he _ ih =>
    obtain ⟨gap, rfl, hgap⟩ := ih hb
    refine ⟨'#' :: (t ++ gap), by simp, fun rest' hend => ?_⟩
    have hcomment : Layout ('#' :: (t ++ (gap ++ rest'))) rest' :=
      .comment ht (he.exchange hb hend) (hgap rest' hend)
    simpa using hcomment

/-- Layout in front of a character that is not blank stays layout whatever follows it. -/
theorem Layout.exchange_cons {c : Char} (h : Layout cs (c :: rest)) (hb : isBlank c = false) :
    ∃ gap, cs = gap ++ c :: rest ∧ ∀ rest', Layout (gap ++ c :: rest') (c :: rest') := by
  have hhead : ∀ d ∈ (c :: rest).head?, isBlank d = false := by
    intro d hd
    obtain rfl : c = d := Option.some.inj hd
    exact hb
  obtain ⟨gap, hgap, hlayout⟩ := h.exchange hhead
  exact ⟨gap, hgap, fun rest' => hlayout (c :: rest') fun hnil => by simp at hnil⟩

/-- What follows a name may be exchanged for anything that stops it. -/
theorem Name.exchange {n : List Char} (h : Name cs n rest) :
    ∃ c read, cs = c :: (read ++ rest) ∧ isBlank c = false ∧ StopsName rest ∧
      ∀ rest', StopsName rest' → Name (c :: (read ++ rest')) n rest' := by
  cases h with
  | intro hc hn hrest =>
    have hb := isBlank_of_startsName (startsName_iff.mpr hc)
    exact ⟨_, _, rfl, hb, hrest, fun rest' hstop => .intro hc hn hstop⟩

/-- What follows a quoted text may be exchanged for anything. -/
theorem Quoted.exchange {t : List Char} (h : Quoted cs t rest) :
    ∃ read, cs = read ++ rest ∧ ∀ rest', Quoted (read ++ rest') t rest' := by
  -- unit by unit; no rule looks at what is behind the closing quote
  induction h with
  | close rest => exact ⟨['"'], rfl, .close⟩
  | @escape c _ _ _ _ hc _ ih =>
    obtain ⟨read, rfl, hread⟩ := ih
    exact ⟨'\\' :: c :: read, rfl, fun rest' => .escape hc (hread rest')⟩
  | @plain c _ _ _ hq hb _ ih =>
    obtain ⟨read, rfl, hread⟩ := ih
    exact ⟨c :: read, rfl, fun rest' => .plain hq hb (hread rest')⟩

/-- What follows the closing bracket of a list may be exchanged for anything. -/
theorem MoreItems.exchange {ts : List String} (h : MoreItems cs ts rest) :
    ∃ read, cs = read ++ rest ∧ ∀ rest', MoreItems (read ++ rest') ts rest' := by
  -- item by item; layout is always followed by a comma, a quote or the bracket, so it stays
  induction h with
  | close h =>
    obtain ⟨gap, rfl, hgap⟩ := h.exchange_cons (by decide)
    refine ⟨gap ++ [']'], by simp, fun rest' => ?_⟩
    simpa using MoreItems.close (hgap rest')
  | trailing h hn =>
    obtain ⟨gap, rfl, hgap⟩ := h.exchange_cons (by decide)
    obtain ⟨gap', rfl, hgap'⟩ := hn.exchange_cons (by decide)
    refine ⟨gap ++ ',' :: (gap' ++ [']']), by simp, fun rest' => ?_⟩
    simpa using MoreItems.trailing (hgap _) (hgap' rest')
  | item h hn hq _ ih =>
    obtain ⟨gap, rfl, hgap⟩ := h.exchange_cons (by decide)
    obtain ⟨gap', rfl, hgap'⟩ := hn.exchange_cons (by decide)
    obtain ⟨item, rfl, hitem⟩ := hq.exchange
    obtain ⟨more, rfl, hmore⟩ := ih
    refine ⟨gap ++ ',' :: (gap' ++ '"' :: (item ++ more)), by simp, fun rest' => ?_⟩
    simpa using MoreItems.item (hgap _) (hgap' _) (hitem _) (hmore rest')

/-- The same is said from the opening bracket on. -/
theorem Items.exchange {ts : List String} (h : Items cs ts rest) :
    ∃ read, cs = read ++ rest ∧ ∀ rest', Items (read ++ rest') ts rest' := by
  -- each part is exchanged behind itself, from the last one to the first
  cases h with
  | empty h =>
    obtain ⟨gap, rfl, hgap⟩ := h.exchange_cons (by decide)
    refine ⟨gap ++ [']'], by simp, fun rest' => ?_⟩
    simpa using Items.empty (hgap rest')
  | item h hq hm =>
    obtain ⟨gap, rfl, hgap⟩ := h.exchange_cons (by decide)
    obtain ⟨item, rfl, hitem⟩ := hq.exchange
    obtain ⟨more, rfl, hmore⟩ := hm.exchange
    refine ⟨gap ++ '"' :: (item ++ more), by simp, fun rest' => ?_⟩
    simpa using Items.item (hgap _) (hitem _) (hmore rest')

/-- What a value starts with is not blank, and stays there with the value. -/
theorem Value.exchange {v : Script.Value} (h : Value cs v rest) :
    ∃ c read, cs = c :: (read ++ rest) ∧ isBlank c = false ∧
      ∀ rest', Value (c :: (read ++ rest')) v rest' := by
  cases h with
  | text hq =>
    obtain ⟨read, rfl, hread⟩ := hq.exchange
    exact ⟨'"', read, rfl, by decide, fun rest' => .text (hread rest')⟩
  | list hi =>
    obtain ⟨read, rfl, hread⟩ := hi.exchange
    exact ⟨'[', read, rfl, by decide, fun rest' => .list (hread rest')⟩

/-- Whether a name stops is told by the next character alone. -/
theorem stopsName_append_congr (read : List Char) (h : StopsName rest → StopsName rest') :
    StopsName (read ++ rest) → StopsName (read ++ rest') := by
  cases read with
  | nil => exact h
  | cons c read => exact id

/-- What follows an entry may be exchanged for something that carries no name on, if what followed
carried none on. The entry starts with no blank, and stays where it is. -/
theorem Entry.exchange {e : Script.Entry} (h : Entry cs e rest) :
    ∃ c read, cs = c :: (read ++ rest) ∧ isBlank c = false ∧
      ∀ rest', (StopsName rest → StopsName rest') → Entry (c :: (read ++ rest')) e rest' := by
  cases h with
  | flag hn =>
    -- here alone it matters what follows, since it is what the name stops at
    obtain ⟨c, read, hcs, hc, hstop, hname⟩ := hn.exchange
    exact ⟨c, read, hcs, hc, fun rest' hrest' => .flag (hname rest' (hrest' hstop))⟩
  | valued hn hl hv =>
    obtain ⟨c, read, rfl, hc, hstop, hname⟩ := hn.exchange
    obtain ⟨d, value, rfl, hd, hvalue⟩ := hv.exchange
    obtain ⟨gap, rfl, hgap⟩ := hl.exchange_cons hd
    refine ⟨c, read ++ (gap ++ d :: value), by simp, hc, fun rest' _ => ?_⟩
    -- the name is followed by what followed it before, layout or the first character of the value
    have hsame : StopsName (d :: (value ++ rest)) → StopsName (d :: (value ++ rest')) := id
    have hafter := hname _ (stopsName_append_congr gap hsame hstop)
    simpa using Entry.valued hafter (hgap _) (hvalue rest')

/-- What follows entries may be exchanged for something that carries no name on. -/
theorem Entries.exchange {es : List Script.Entry} (h : Entries cs es rest) :
    ∃ read, cs = read ++ rest ∧
      ∀ rest', (StopsName rest → StopsName rest') → Entries (read ++ rest') es rest' := by
  -- entry by entry, since each of them but the last is followed by another
  induction h with
  | none cs => exact ⟨[], rfl, fun rest' _ => .none rest'⟩
  | entry hl he _ ih =>
    obtain ⟨more, rfl, hmore⟩ := ih
    obtain ⟨c, read, rfl, hc, hentry⟩ := he.exchange
    obtain ⟨gap, rfl, hgap⟩ := hl.exchange_cons hc
    refine ⟨gap ++ c :: (read ++ more), by simp, fun rest' hstop => ?_⟩
    -- behind the entry stand the other ones, or `rest` itself if there are none
    have hnext := hentry _ (stopsName_append_congr more hstop)
    simpa using Entries.entry (hgap _) hnext (hmore rest' hstop)

end Grammar

/-- Where layout has been skipped to its end, anything may follow it; but where it was skipped to
the end of the text, perhaps in a comment, the end of a line. -/
theorem exists_gap {cs rest : List Char} (h : skipLayout cs = rest) :
    ∃ gap, cs = gap ++ rest ∧
      ∀ rest', (rest = [] → EndsLine rest') → Layout (gap ++ rest') rest' := by
  have hstay : skipPiece? rest = none := h ▸ skipPiece?_skipLayout cs
  have hhead : ∀ c ∈ rest.head?, isBlank c = false := by
    -- a blank would have been skipped too
    intro c hc
    obtain ⟨r, rfl⟩ := List.head?_eq_some_iff.mp hc
    rw [skipPiece?] at hstay
    cases hb : isBlank c with
    | false => rfl
    | true => rw [if_pos hb] at hstay; contradiction
  exact (layout_of_skipLayout h).exchange hhead

/-- Where a character stands behind the layout, any text may follow that character. -/
theorem exists_gap_cons {c : Char} {cs rest : List Char} (h : skipLayout cs = c :: rest) :
    ∃ gap, cs = gap ++ c :: rest ∧ ∀ rest', Layout (gap ++ c :: rest') (c :: rest') := by
  obtain ⟨gap, hcs, hgap⟩ := exists_gap h
  exact ⟨gap, hcs, fun rest' => hgap (c :: rest') fun hnil => by simp at hnil⟩

/-! ### Finishing what was begun -/

section Begins

variable {α β : Type} {C : List Char → α → List Char → Prop} {D : List Char → β → List Char → Prop}
  {cs rest : List Char}

/-- That a construct has been begun before `rest`: a few characters in the place of `rest` finish
it, whatever follows them, and carry on no name that was read last. The construct is a relation
between a text, what is found in it, and what is left behind it. -/
def Begins (C : List Char → α → List Char → Prop) (cs rest : List Char) : Prop :=
  ∃ read close, cs = read ++ rest ∧ (∀ more, StopsName (close ++ more)) ∧
    ∀ more, ∃ a, C (read ++ (close ++ more)) a more

/-- Where a construct is a part of another, between `before` and `tail`, the one has been begun
when the other has. -/
theorem Begins.within (h : Begins C cs rest) (before tail : List Char) {ds : List Char}
    (hds : ds = before ++ cs)
    (hpart : ∀ cs' a more, (StopsName cs → StopsName cs') → C cs' a (tail ++ more) →
      ∃ b, D (before ++ cs') b more) : Begins D ds rest := by
  obtain ⟨read, close, rfl, hstop, hfinish⟩ := h
  refine ⟨before ++ read, close ++ tail, by simp [hds], fun more => ?_, fun more => ?_⟩
  · simpa using hstop (tail ++ more)
  · -- for the part, the tail is among what follows
    obtain ⟨a, ha⟩ := hfinish (tail ++ more)
    have hnext : StopsName (read ++ rest) → StopsName (read ++ (close ++ (tail ++ more))) :=
      Grammar.stopsName_append_congr read fun _ => hstop (tail ++ more)
    simpa using hpart _ a more hnext ha

/-- Behind layout and the end of its line any character can be reached, so a construct that may
end with `c` there can be finished. -/
theorem begins_of_skipLayout (h : skipLayout cs = rest) (c : Char)
    (hclose : ∀ cs' more, Layout cs' (c :: more) → ∃ a, C cs' a more) : Begins C cs rest := by
  obtain ⟨gap, rfl, hgap⟩ := exists_gap h
  refine ⟨gap, ['\n', c], rfl, fun more => stopsName_cons (by decide), fun more => ?_⟩
  have hline : Layout (gap ++ '\n' :: c :: more) ('\n' :: c :: more) :=
    hgap _ fun _ => .lineFeed (c :: more)
  exact hclose _ more (hline.trans (.blank (by decide) (.none _)))

end Begins

theorem Read.prepend_eq_error {cs : List Char} {r : Read (List Char)} {f : Fault}
    (h : r.prepend cs = .error f) : r = .error f := by
  cases r with
  | ok p => contradiction
  | error g => exact h

/-- The only fault within a quoted text is that the text ends. A quote closes it, and behind a
backslash another one. -/
theorem begins_of_readQuoted {cs : List Char} {f : Fault} (h : readQuoted cs = .error f) :
    f.rest = [] ∧ Begins Quoted cs f.rest := by
  -- along the units; what was read of the text stands in front of what closes it
  fun_induction readQuoted cs with
  | case1 =>
    obtain rfl := Except.error.inj h
    exact ⟨rfl, [], ['"'], rfl, fun more => stopsName_cons (by decide),
      fun more => ⟨_, .close more⟩⟩
  | case2 => contradiction
  | case3 =>
    -- the first quote is taken for the second character of an escape
    obtain rfl := Except.error.inj h
    exact ⟨rfl, ['\\'], ['"', '"'], rfl, fun more => stopsName_cons (by decide),
      fun more => ⟨_, .escape .quote (.close more)⟩⟩
  | case4 c r ih =>
    obtain ⟨hend, hbegins⟩ := ih (Read.prepend_eq_error h)
    refine ⟨hend, hbegins.within ['\\', c] [] rfl fun cs' t more _ ht => ?_⟩
    exact ⟨_, .escape (escape_iff.mpr rfl) ht⟩
  | case5 c r hq hnil hb ih =>
    obtain ⟨hend, hbegins⟩ := ih (Read.prepend_eq_error h)
    refine ⟨hend, hbegins.within [c] [] rfl fun cs' t more _ ht => ?_⟩
    exact ⟨_, .plain hq (ne_backslash hnil hb) ht⟩

/-- A fault of a list names what was expected, and lies behind the beginning of a list. -/
theorem begins_of_readItems {cs : List Char} {f : Fault} (h : readItems cs = .error f) :
    f.expected ≠ [] ∧ Begins Items cs f.rest := by
  -- along the items; in each turn the list that is left is a part of the whole
  fun_induction readItems cs with
  | case1 => contradiction
  | case2 cs q hs g hq =>
    -- within an item: behind the item the list may end
    obtain rfl := Except.error.inj h
    obtain ⟨gap, rfl, hgap⟩ := exists_gap_cons hs
    refine ⟨by simp [Fault.within], ?_⟩
    refine (begins_of_readQuoted hq).2.within (gap ++ ['"']) [']'] (by simp) ?_
    intro quoted t more _ ht
    exact ⟨[String.ofList t], by simpa using Items.item (hgap quoted) ht (.close (.none _))⟩
  | case3 cs q hs t more hq next hm g hr ih =>
    -- behind an item and a comma: there the rest of the list is begun
    obtain rfl := Except.error.inj h
    obtain ⟨hexpected, hbegins⟩ := ih hr
    obtain ⟨gap, rfl, hgap⟩ := exists_gap_cons hs
    obtain ⟨item, rfl, hitem⟩ := (quoted_of_readQuoted hq).exchange
    obtain ⟨gap', rfl, hgap'⟩ := exists_gap_cons hm
    refine ⟨hexpected, hbegins.within (gap ++ '"' :: (item ++ (gap' ++ [',']))) [] (by simp) ?_⟩
    intro items ts more _ hts
    refine ⟨String.ofList t :: ts, ?_⟩
    simpa using Items.item (hgap _) (hitem _) (moreItems_of_items (hgap' items) hts)
  | case4 => contradiction
  | case5 => contradiction
  | case6 cs q hs t after hq _ _ =>
    -- behind an item, where the list may end
    obtain rfl := Except.error.inj h
    obtain ⟨gap, rfl, hgap⟩ := exists_gap_cons hs
    obtain ⟨item, rfl, hitem⟩ := (quoted_of_readQuoted hq).exchange
    have hmore : Begins MoreItems after (skipLayout after) :=
      begins_of_skipLayout rfl ']' fun cs' more hl => ⟨[], .close hl⟩
    refine ⟨by simp, hmore.within (gap ++ '"' :: item) [] (by simp) ?_⟩
    intro more ts rest _ hts
    exact ⟨String.ofList t :: ts, by simpa using Items.item (hgap _) (hitem _) hts⟩
  | case7 cs _ _ =>
    -- where an item or the end of the list may stand
    obtain rfl := Except.error.inj h
    exact ⟨by simp, begins_of_skipLayout rfl ']' fun cs' more hl => ⟨[], .empty hl⟩⟩

theorem Read.map_eq_error {α β : Type} {r : Read α} {g : α × List Char → β × List Char} {f : Fault}
    (h : r.map g = .error f) : r = .error f := by
  cases r with
  | ok p => contradiction
  | error e => exact congrArg Except.error (Except.error.inj h)

/-- A fault of a value, behind its layout, names what was expected or lies at the end. -/
theorem begins_of_readValue {cs : List Char} {f : Fault} (h : readValue cs = .error f) :
    (f.expected ≠ [] ∨ f.rest = []) ∧
      Begins (fun ds v more => ∃ value, Layout ds value ∧ Grammar.Value value v more) cs
        f.rest := by
  unfold readValue at h
  split at h
  · next quoted hs =>
    -- a text fails at the end of the script only
    obtain ⟨hend, hbegins⟩ := begins_of_readQuoted (Read.map_eq_error h)
    obtain ⟨gap, rfl, hgap⟩ := exists_gap_cons hs
    refine ⟨.inr hend, hbegins.within (gap ++ ['"']) [] (by simp) ?_⟩
    intro cs' t more _ ht
    exact ⟨.text (String.ofList t), _, by simpa using hgap cs', .text ht⟩
  · next items hs =>
    -- a list fails where something else was expected
    obtain ⟨hexpected, hbegins⟩ := begins_of_readItems (Read.map_eq_error h)
    obtain ⟨gap, rfl, hgap⟩ := exists_gap_cons hs
    refine ⟨.inl hexpected, hbegins.within (gap ++ ['[']) [] (by simp) ?_⟩
    intro cs' ts more _ hts
    exact ⟨.list ts, _, by simpa using hgap cs', .list hts⟩
  · contradiction

/-- A fault of entries is one of the value of an entry, with all the entries before it. -/
theorem begins_of_readEntries {cs : List Char} {f : Fault} (h : readEntries cs = .error f) :
    (f.expected ≠ [] ∨ f.rest = []) ∧ Begins Entries cs f.rest := by
  -- along the entries
  fun_induction readEntries cs with
  | case1 => contradiction
  | case2 cs n after hn g hv =>
    -- the entry ends with its value, and what was read of that one stops the name as before
    obtain rfl := Except.error.inj h
    obtain ⟨hfault, hbegins⟩ := begins_of_readValue hv
    obtain ⟨c, read, hs, -, hafter, hname⟩ := (readName?_eq_some_iff.mp hn).exchange
    obtain ⟨gap, rfl, hgap⟩ := exists_gap_cons hs
    refine ⟨hfault, hbegins.within (gap ++ c :: read) [] (by simp) ?_⟩
    rintro cs' v more hstop ⟨value, hl, hvalue⟩
    have hentry := Grammar.Entry.valued (hname cs' (hstop hafter)) hl hvalue
    exact ⟨[⟨String.ofList n, v⟩], by simpa using Entries.entry (hgap _) hentry (.none _)⟩
  | case3 cs n after hn v next hv g hr ih =>
    -- the first entry stays, and one of those behind it is begun
    obtain rfl := Except.error.inj h
    obtain ⟨hfault, hbegins⟩ := ih hr
    have he := entry_of_readValue (readName?_eq_some_iff.mp hn) hv
    obtain ⟨c, read, hs, -, hentry⟩ := he.exchange
    obtain ⟨gap, rfl, hgap⟩ := exists_gap_cons hs
    refine ⟨hfault, hbegins.within (gap ++ c :: read) [] (by simp) fun cs' es more hstop hes => ?_⟩
    exact ⟨⟨String.ofList n, v⟩ :: es, by simpa using Entries.entry (hgap _) (hentry cs' hstop) hes⟩
  | case4 => contradiction

/-! ### The place of a fault -/

/-- A fault of a section is one behind its word: a colon is missing, or the entries have one. -/
theorem begins_of_readSection {cs : List Char} {f : Fault} (h : readSection cs = .error f) :
    (f.expected ≠ [] ∨ f.rest = []) ∧ ∃ word, cs = 'p' :: 'a' :: 't' :: 'h' :: word ∧
      Begins (fun ds es more => ∃ entries, Layout ds (':' :: entries) ∧ Entries entries es more)
        word f.rest := by
  unfold readSection at h
  split at h
  · next hp =>
    obtain ⟨word, rfl⟩ := List.isPrefixOf_iff_prefix.mp hp
    rw [List.drop_left] at h
    split at h
    · next entries hw =>
      -- a fault of the entries
      obtain ⟨hfault, hbegins⟩ := begins_of_readEntries (Read.map_eq_error h)
      obtain ⟨gap, rfl, hgap⟩ := exists_gap_cons hw
      refine ⟨hfault, _, rfl, hbegins.within (gap ++ [':']) [] (by simp) ?_⟩
      intro cs' es more _ hes
      exact ⟨es, cs', by simpa using hgap cs', hes⟩
    · -- no colon: a section without entries can be made of it
      obtain rfl := Except.error.inj h
      refine ⟨.inl (by simp), word, rfl, begins_of_skipLayout rfl ':' fun cs' more hl => ?_⟩
      exact ⟨[], more, hl, .none more⟩
  · contradiction

/-- What stands before a leftover is a whole script. -/
theorem script_of_leftover {cs more rest : List Char} {sec : Option (List Entry)}
    (hs : readSection (skipLayout cs) = .ok (sec, more)) (hm : skipLayout more = rest)
    (hrest : rest ≠ []) : ∃ read, cs = read ++ rest ∧ Grammar.Whole read sec := by
  rcases section_of_readSection hs with ⟨rfl, rfl⟩ | ⟨word, entries, es, hp, hw, he, rfl⟩
  · -- no section: all that has been read is layout
    rw [skipLayout_skipLayout] at hm
    obtain ⟨gap, rfl, hgap⟩ := exists_gap hm
    have hl := hgap [] fun hnil => absurd hnil hrest
    exact ⟨gap, rfl, .blank (by simpa using hl)⟩
  · obtain ⟨gap, rfl, hgap⟩ := exists_gap_cons hp
    obtain ⟨gap', rfl, hgap'⟩ := hw.exchange_cons (by decide)
    obtain ⟨read, rfl, hread⟩ := he.exchange
    obtain ⟨gap'', rfl, hgap''⟩ := exists_gap hm
    have hl := hgap'' [] fun hnil => absurd hnil hrest
    have hes := hread gap'' ?_
    · refine ⟨gap ++ 'p' :: 'a' :: 't' :: 'h' :: (gap' ++ ':' :: (read ++ gap'')), by simp, ?_⟩
      exact .section (hgap _) (hgap' _) hes (by simpa using hl)
    · -- a name that stopped before the layout stops before it again, or with the text
      cases gap'' with
      | nil => exact fun _ => stopsName_nil
      | cons c gap'' => exact id

/-- What stands before a fault is the beginning of a script, and a whole one where the fault is a
leftover. -/
theorem script_of_fault {cs : List Char} {f : Fault} (h : readScript cs = .error f) :
    ∃ read, cs = read ++ f.rest ∧ (∃ close sec, Grammar.Whole (read ++ close) sec) ∧
      (f.rest ≠ [] → f.expected = [] → ∃ sec, Grammar.Whole read sec) := by
  unfold readScript at h
  split at h
  · next g hs =>
    -- within the section, where every fault names something or is at the end
    obtain rfl := Except.error.inj h
    obtain ⟨hfault, word, hp, read, close, rfl, -, hfinish⟩ := begins_of_readSection hs
    obtain ⟨gap, rfl, hgap⟩ := exists_gap_cons hp
    obtain ⟨es, entries, hw, hes⟩ := hfinish []
    refine ⟨gap ++ 'p' :: 'a' :: 't' :: 'h' :: read, by simp, ⟨close, some es, ?_⟩, ?_⟩
    · simpa using Grammar.Whole.section (hgap _) hw hes (.none [])
    · intro hrest hexpected
      exact absurd hfault (not_or.mpr ⟨not_not.mpr hexpected, hrest⟩)
  · next sec more hs =>
    -- behind the section, or behind the layout where there is none
    split at h
    · contradiction
    · next hm =>
      obtain rfl := Except.error.inj h
      obtain ⟨read, hcs, hscript⟩ := script_of_leftover hs rfl hm
      exact ⟨read, hcs, ⟨[], sec, by simpa using hscript⟩, fun _ _ => ⟨sec, hscript⟩⟩

/-! ### Places in bytes -/

theorem Fault.before_append (f : Fault) (read : List Char) : f.before (read ++ f.rest) = read := by
  rw [before, List.length_append, Nat.add_sub_cancel, List.take_left]

/-- **The place of a fault.** It is a boundary between characters of the script, so not behind its
end. What stands before it can be continued to a script, so it is not too late; and where something
is left over that nothing was expected instead of, that is a script already, so it is not too far
ahead either. -/
theorem begins_before_fault {s : String} {f : Fault} (h : readScript s.toList = .error f) :
    f.offset s.toList ≤ s.utf8ByteSize ∧ (⟨f.offset s.toList⟩ : String.Pos.Raw).IsValid s ∧
    ∃ before after : String, s = before ++ after ∧ before.utf8ByteSize = f.offset s.toList ∧
      (∃ (close : String) (sec : Option (List Entry)),
        readScript (before ++ close).toList = .ok sec) ∧
      (f.offset s.toList < s.utf8ByteSize → f.expected = [] →
        ∃ sec, readScript before.toList = .ok sec) := by
  obtain ⟨read, hcs, ⟨close, sec, hclose⟩, hleft⟩ := script_of_fault h
  have hs : s = String.ofList read ++ String.ofList f.rest := by
    rw [← String.ofList_append, ← hcs, String.ofList_toList]
  have hoffset : (String.ofList read).utf8ByteSize = f.offset s.toList := by
    rw [Fault.offset, hcs, Fault.before_append, Text.utf8ByteSize_ofList]
  have hsize : s.utf8ByteSize = f.offset s.toList + (String.ofList f.rest).utf8ByteSize := by
    rw [← hoffset, ← String.utf8ByteSize_append, ← hs]
  -- the offset counts the bytes of what was read, which is a text of its own
  refine ⟨by omega, ?_, String.ofList read, String.ofList f.rest, hs, hoffset, ?_, ?_⟩
  · exact String.Pos.Raw.isValid_iff_exists_append.mpr
      ⟨_, _, hs, String.Pos.Raw.ext hoffset.symm⟩
  · refine ⟨String.ofList close, sec, readScript_eq_ok_iff.mpr ?_⟩
    simpa using hclose
  · intro hlt hexpected
    -- bytes are left, so characters are
    have hrest : f.rest ≠ [] := by
      intro hnil
      rw [hnil, String.ofList_nil, String.utf8ByteSize_empty] at hsize
      omega
    obtain ⟨sec', hsec'⟩ := hleft hrest hexpected
    exact ⟨sec', readScript_eq_ok_iff.mpr (by simpa using hsec')⟩

/-- A bracket is left over behind a flag and a comment that holds a character of two bytes. Twelve
bytes lie before it, and they are a script. -/
theorem begins_before_fault_bracket :
    readScript "path:a #é\r\n]".toList = .error ⟨[']'], []⟩ ∧
    (⟨12⟩ : String.Pos.Raw).IsValid "path:a #é\r\n]" ∧
    ∃ before after : String, "path:a #é\r\n]" = before ++ after ∧ before.utf8ByteSize = 12 ∧
      ∃ sec, readScript before.toList = .ok sec := by
  have hcomment : ∀ c ∈ ['é'], c ≠ '\n' ∧ c ≠ '\r' := by simp
  have hgap : Layout " #é\r\n]".toList [']'] :=
    .blank (by decide) (.comment hcomment (.carriageReturn [']'])
      (.blank (by decide) (.blank (by decide) (.none [']']))))
  have hskip : skipLayout " #é\r\n]".toList = [']'] :=
    skipLayout_of_layout_cons hgap (by decide) (by decide)
  -- behind the name there is no value, so the layout is given back, and no further entry
  have hvalue : readValue " #é\r\n]".toList = .ok (.flag, " #é\r\n]".toList) := by
    refine readValue_of_flag (fun r hr => ?_) (fun r hr => ?_)
    all_goals
      rw [hskip] at hr
      injection hr with hhead
      exact absurd hhead (by decide)
  have hnone : readEntries " #é\r\n]".toList = .ok ([], " #é\r\n]".toList) :=
    readEntries_of_none (by rw [hskip]; rfl)
  have hname : readName? (skipLayout "a #é\r\n]".toList) =
      some (['a'], " #é\r\n]".toList) := by
    rw [show "a #é\r\n]".toList = 'a' :: " #é\r\n]".toList from rfl,
      skipLayout_of_startsName (by decide)]
    rfl
  have hcolon : skipLayout ":a #é\r\n]".toList = ':' :: "a #é\r\n]".toList :=
    skipLayout_cons (by decide) (by decide)
  have hsection : readSection "path:a #é\r\n]".toList =
      .ok (some [⟨"a", .flag⟩], " #é\r\n]".toList) := by
    refine (readSection_of_colon hcolon).trans ?_
    rw [readEntries_of_entry hname hvalue, hnone]
    rfl
  have hstart : skipLayout "path:a #é\r\n]".toList = "path:a #é\r\n]".toList :=
    skipLayout_cons (by decide) (by decide)
  -- the layout is followed by the bracket, which is not the end
  have hfault : readScript "path:a #é\r\n]".toList = .error ⟨[']'], []⟩ := by
    rw [readScript, hstart, hsection]
    simp only [hskip]
  have hoffset : Fault.offset ⟨[']'], []⟩ "path:a #é\r\n]".toList = 12 := by decide +kernel
  obtain ⟨-, hvalid, before, after, hs, hbefore, -, hleft⟩ := begins_before_fault hfault
  rw [hoffset] at hvalid hbefore hleft
  exact ⟨hfault, hvalid, before, after, hs, hbefore, hleft (by decide +kernel) rfl⟩

end PathFilter.Script
