import PathFilter.Proofs.Script.Reading

/-!
# Reading two scripts in lockstep

Two scripts may differ in ways that no reader takes notice of. To say so of a particular
difference, one would have to follow two readings through every construct, and the places that they
have come to lie further apart with each difference. That is done here once for all differences.

A difference is given by two relations between what is left of the one script and of the other:
`R` between the parts of a script, and `Q` behind the opening quote of a quoted text. They keep two
readings **in lockstep** (`Lockstep`) if

* corresponding places **look alike** to a reader that wants anything but layout (`Abreast`),
* layout is **skipped** from corresponding places to corresponding places, and
* a quoted text is **left** at corresponding places, or closed on neither side.

Then every reader comes from corresponding places to corresponding places, or to a fault on both
sides (`Read.Alike`), construct by construct, and the two scripts are accepted or refused together
(`Lockstep.readScript_cases`). What is found in them is the same if the difference leaves the
quoted texts as they are; the proposition `exact` says whether it does.
-/

namespace PathFilter.Script

/-! ### Corresponding places -/

/-- Whether a piece of layout may start with the character. -/
def opensLayout (c : Char) : Bool := isBlank c || c == '#'

/-- That two places look alike to a reader that skips no layout: both are the end of the text, or
layout could start at both, or the same character stands at both. -/
inductive Abreast (R Q : List Char → List Char → Prop) : List Char → List Char → Prop
  | done : Abreast R Q [] []
  | layout {c d : Char} {cs ds : List Char} (hc : opensLayout c = true)
      (hd : opensLayout d = true) : Abreast R Q (c :: cs) (d :: ds)
  | quote {cs ds : List Char} (h : Q cs ds) : Abreast R Q ('"' :: cs) ('"' :: ds)
  | char {c : Char} {cs ds : List Char} (hc : opensLayout c = false) (hq : c ≠ '"')
      (h : R cs ds) : Abreast R Q (c :: cs) (c :: ds)

namespace Abreast

variable {R Q : List Char → List Char → Prop} {cs ds : List Char} {c : Char}

theorem eq_nil (h : Abreast R Q [] ds) : ds = [] := by
  cases h with
  | done => rfl

/-- A character that no layout or quoted text starts with stands at both places. -/
theorem exists_of_char (h : Abreast R Q (c :: cs) ds) (hc : opensLayout c = false)
    (hq : c ≠ '"') : ∃ es, ds = c :: es ∧ R cs es := by
  cases h with
  | layout hc' _ =>
    rw [hc] at hc'
    contradiction
  | quote _ => contradiction
  | char _ _ h => exact ⟨_, rfl, h⟩

/-- A quote stands at both places, and quoted texts begin behind it. -/
theorem exists_of_quote (h : Abreast R Q ('"' :: cs) ds) : ∃ es, ds = '"' :: es ∧ Q cs es := by
  cases h with
  | layout hc _ => contradiction
  | quote h => exact ⟨_, rfl, h⟩
  | char _ hq _ => contradiction

/-- In the other direction it is enough to know of the character. -/
theorem exists_left (h : Abreast R Q cs (c :: ds)) (hc : opensLayout c = false) :
    ∃ es, cs = c :: es := by
  cases h with
  | layout _ hc' =>
    rw [hc] at hc'
    contradiction
  | quote _ => exact ⟨_, rfl⟩
  | char _ _ _ => exact ⟨_, rfl⟩

end Abreast

/-- That two readers of the same kind have come to corresponding places, or have both failed. What
they have found is the same if `exact` holds. -/
inductive Read.Alike {α : Type} (exact : Prop) (R : List Char → List Char → Prop) :
    Read α → Read α → Prop
  | ok {a b : α} {rest rest' : List Char} (h : exact → a = b) (hrest : R rest rest') :
      Alike exact R (.ok (a, rest)) (.ok (b, rest'))
  | error (f g : Fault) : Alike exact R (.error f) (.error g)

namespace Read.Alike

variable {α β : Type} {exact : Prop} {R : List Char → List Char → Prop} {r r' : Read α}

theorem exists_ok {a : α} {rest : List Char} (h : Alike exact R (.ok (a, rest)) r) :
    ∃ b rest', r = .ok (b, rest') ∧ (exact → a = b) ∧ R rest rest' := by
  cases h with
  | ok h hrest => exact ⟨_, _, rfl, h, hrest⟩

theorem exists_error {f : Fault} (h : Alike exact R (.error f) r) : ∃ g, r = .error g := by
  cases h with
  | error f g => exact ⟨g, rfl⟩

/-- What is made of the outcomes stays alike if it is alike for those that succeed. -/
theorem map {f f' : α × List Char → β × List Char} (h : Alike exact R r r')
    (hf : ∀ {a b rest rest'}, (exact → a = b) → R rest rest' →
      Alike exact R (.ok (f (a, rest))) (.ok (f' (b, rest')))) :
    Alike exact R (r.map f) (r'.map f') := by
  cases h with
  | ok h hrest => exact hf h hrest
  | error f f' => exact .error f f'

end Read.Alike

/-- **What keeps two readings in lockstep.** -/
structure Lockstep (exact : Prop) (R Q : List Char → List Char → Prop) : Prop where
  /-- Corresponding places look alike. -/
  abreast : ∀ {cs ds : List Char}, R cs ds → Abreast R Q cs ds
  /-- Layout is skipped to corresponding places. -/
  layout : ∀ {cs ds : List Char}, R cs ds → R (skipLayout cs) (skipLayout ds)
  /-- Quoted texts are left at corresponding places. -/
  quoted : ∀ {cs ds : List Char}, Q cs ds → (readQuoted cs).Alike exact R (readQuoted ds)

namespace Lockstep

variable {exact : Prop} {R Q : List Char → List Char → Prop} {cs ds rest : List Char} {c : Char}

/-! ### Behind layout -/

/-- Behind layout corresponding places look alike. -/
theorem abreast_skipLayout (h : Lockstep exact R Q) (hR : R cs ds) :
    Abreast R Q (skipLayout cs) (skipLayout ds) :=
  h.abreast (h.layout hR)

/-- A character that is no layout stands behind the layout of both scripts or of neither. -/
theorem skipLayout_char (h : Lockstep exact R Q) (hR : R cs ds)
    (hs : skipLayout cs = c :: rest) (hc : opensLayout c = false) (hq : c ≠ '"') :
    ∃ rest', skipLayout ds = c :: rest' ∧ R rest rest' := by
  have habreast : Abreast R Q (c :: rest) (skipLayout ds) := hs ▸ h.abreast_skipLayout hR
  exact habreast.exists_of_char hc hq

theorem skipLayout_quote (h : Lockstep exact R Q) (hR : R cs ds)
    (hs : skipLayout cs = '"' :: rest) : ∃ rest', skipLayout ds = '"' :: rest' ∧ Q rest rest' := by
  have habreast : Abreast R Q ('"' :: rest) (skipLayout ds) := hs ▸ h.abreast_skipLayout hR
  exact habreast.exists_of_quote

/-- What does not stand behind the layout of the one does not stand behind that of the other. -/
theorem skipLayout_ne (h : Lockstep exact R Q) (hR : R cs ds) (hc : opensLayout c = false)
    (hs : ∀ rest, skipLayout cs ≠ c :: rest) (rest : List Char) : skipLayout ds ≠ c :: rest := by
  intro hds
  have habreast : Abreast R Q (skipLayout cs) (c :: rest) := hds ▸ h.abreast_skipLayout hR
  obtain ⟨es, hes⟩ := habreast.exists_left hc
  exact hs es hes

/-! ### Names -/

/-- No name starts or goes on with layout. -/
theorem not_name_of_opensLayout (hc : opensLayout c = true) :
    startsName c = false ∧ continuesName c = false := by
  have hmem : c ∈ [' ', '\t', '\n', '\x0c', '\r'] ∨ c = '#' := by
    rwa [opensLayout, Bool.or_eq_true, isBlank_iff, beq_iff_eq] at hc
  simp only [List.mem_cons, List.not_mem_nil, or_false] at hmem
  rcases hmem with (rfl | rfl | rfl | rfl | rfl) | rfl <;> exact ⟨rfl, rfl⟩

/-- The longest run of characters that continue a name is the same on both sides. -/
theorem span_continuesName (h : Lockstep exact R Q) (hR : R cs ds) :
    ds.takeWhile continuesName = cs.takeWhile continuesName ∧
      R (cs.dropWhile continuesName) (ds.dropWhile continuesName) := by
  induction cs generalizing ds with
  | nil =>
    obtain rfl := (h.abreast hR).eq_nil
    exact ⟨rfl, hR⟩
  | cons c cs ih =>
    -- the run stops here on both sides, unless the character that stands at both continues it
    have hstop {d : Char} {ds : List Char} (hc : continuesName c = false)
        (hd : continuesName d = false) (hR : R (c :: cs) (d :: ds)) :
        (d :: ds).takeWhile continuesName = (c :: cs).takeWhile continuesName ∧
          R ((c :: cs).dropWhile continuesName) ((d :: ds).dropWhile continuesName) := by
      simp [hc, hd, hR]
    cases h.abreast hR with
    | layout hc hd =>
      exact hstop (not_name_of_opensLayout hc).2 (not_name_of_opensLayout hd).2 hR
    | quote _ => exact hstop rfl rfl hR
    | char _ _ hnext =>
      cases hc : continuesName c with
      | false => exact hstop hc hc hR
      | true =>
        obtain ⟨htake, hdrop⟩ := ih hnext
        simp [hc, htake, hdrop]

/-- **Names.** The same name stands at corresponding places, or none. -/
theorem readName?_cases (h : Lockstep exact R Q) (hR : R cs ds) :
    (readName? cs = none ∧ readName? ds = none) ∨
      ∃ n rest rest', readName? cs = some (n, rest) ∧ readName? ds = some (n, rest') ∧
        R rest rest' := by
  have hnone {c : Char} (hc : startsName c = false) (cs : List Char) :
      readName? (c :: cs) = none := by
    rw [readName?, hc]
    rfl
  have hsome {c : Char} (hc : startsName c = true) (cs : List Char) :
      readName? (c :: cs) =
        some (c :: cs.takeWhile continuesName, cs.dropWhile continuesName) := by
    rw [readName?, hc]
    rfl
  -- a name starts at a character that stands at both places, or nowhere
  cases h.abreast hR with
  | done => exact .inl ⟨rfl, rfl⟩
  | layout hc hd =>
    exact .inl ⟨hnone (not_name_of_opensLayout hc).1 _, hnone (not_name_of_opensLayout hd).1 _⟩
  | quote _ => exact .inl ⟨rfl, rfl⟩
  | @char c cs ds _ _ hnext =>
    cases hc : startsName c with
    | false => exact .inl ⟨hnone hc _, hnone hc _⟩
    | true =>
      -- the rest of the name is the same on both sides, and so is what stops it
      obtain ⟨htake, hdrop⟩ := h.span_continuesName hnext
      exact .inr ⟨_, _, _, hsome hc cs, htake ▸ hsome hc ds, hdrop⟩

/-- Where no name stands on the one side, none stands on the other. -/
theorem readName?_of_none (h : Lockstep exact R Q) (hR : R cs ds) (hn : readName? cs = none) :
    readName? ds = none := by
  rcases h.readName?_cases hR with ⟨-, hnone⟩ | ⟨n, rest, rest', hsome, -, -⟩
  · exact hnone
  · rw [hn] at hsome
    contradiction

/-- Where a name stands on the one side, it stands on the other. -/
theorem readName?_of_some (h : Lockstep exact R Q) {n : List Char} (hR : R cs ds)
    (hn : readName? cs = some (n, rest)) :
    ∃ rest', readName? ds = some (n, rest') ∧ R rest rest' := by
  rcases h.readName?_cases hR with ⟨hnone, -⟩ | ⟨m, after, after', hsome, hm, hafter⟩
  · rw [hn] at hnone
    contradiction
  · obtain ⟨rfl, rfl⟩ := Prod.mk.inj (Option.some.inj (hn.symm.trans hsome))
    exact ⟨after', hm, hafter⟩

/-! ### Values -/

/-- Where an item and a comma have been read, the list is in lockstep if what follows is, taken as
a list. -/
theorem readItems_alike_of_comma (h : Lockstep exact R Q) {quoted t more next : List Char}
    (hR : R cs ds) (hs : skipLayout cs = '"' :: quoted) (hq : readQuoted quoted = .ok (t, more))
    (hm : skipLayout more = ',' :: next)
    (ih : ∀ {next' : List Char}, R next next' →
      (readItems next).Alike exact R (readItems next')) :
    (readItems cs).Alike exact R (readItems ds) := by
  -- the quote, the item and the comma of the other side, each found from the one before it
  obtain ⟨quoted', hs', hquoted⟩ := h.skipLayout_quote hR hs
  obtain ⟨t', more', hq', ht, hmore⟩ := (hq ▸ h.quoted hquoted).exists_ok
  obtain ⟨next', hm', hnext⟩ := h.skipLayout_char hmore hm (by decide) (by decide)
  rw [readItems_of_comma hs hq hm, readItems_of_comma hs' hq' hm']
  exact (ih hnext).map fun hts hrest => .ok (fun he => by rw [ht he, hts he]) hrest

/-- **Lists.** -/
theorem readItems_alike (h : Lockstep exact R Q) (hR : R cs ds) :
    (readItems cs).Alike exact R (readItems ds) := by
  -- the induction is on the reading of the one side; the other takes the same branch in every turn,
  -- so its step equation is the one that applies
  fun_induction readItems cs generalizing ds with
  | case1 cs rest hs =>
    -- the closing bracket
    obtain ⟨rest', hs', hrest⟩ := h.skipLayout_char hR hs (by decide) (by decide)
    rw [readItems_of_close hs']
    exact .ok (fun _ => rfl) hrest
  | case2 cs quoted hs f hq =>
    -- an item that does not end
    obtain ⟨quoted', hs', hquoted⟩ := h.skipLayout_quote hR hs
    obtain ⟨g, hq'⟩ := (hq ▸ h.quoted hquoted).exists_error
    rw [readItems_of_fault hs' hq']
    exact .error _ _
  | case3 cs quoted hs t more hq next hm f hr ih =>
    have hlist := h.readItems_alike_of_comma hR hs hq hm ih
    rwa [readItems_of_comma hs hq hm, hr] at hlist
  | case4 cs quoted hs t more hq next hm ts rest hr ih =>
    have hlist := h.readItems_alike_of_comma hR hs hq hm ih
    rwa [readItems_of_comma hs hq hm, hr] at hlist
  | case5 cs quoted hs t more hq rest hm =>
    -- the last item
    obtain ⟨quoted', hs', hquoted⟩ := h.skipLayout_quote hR hs
    obtain ⟨t', more', hq', ht, hmore⟩ := (hq ▸ h.quoted hquoted).exists_ok
    obtain ⟨rest', hm', hrest⟩ := h.skipLayout_char hmore hm (by decide) (by decide)
    rw [readItems_of_last hs' hq' hm']
    exact .ok (fun he => by rw [ht he]) hrest
  | case6 cs quoted hs t more hq hcomma hclose =>
    -- something stray behind an item
    obtain ⟨quoted', hs', hquoted⟩ := h.skipLayout_quote hR hs
    obtain ⟨t', more', hq', -, hmore⟩ := (hq ▸ h.quoted hquoted).exists_ok
    rw [readItems_of_stray hs' hq' (h.skipLayout_ne hmore (by decide) hcomma)
      (h.skipLayout_ne hmore (by decide) hclose)]
    exact .error _ _
  | case7 cs hclose hquote =>
    -- something else in the place of an item
    rw [readItems_of_missing (h.skipLayout_ne hR (by decide) hclose)
      (h.skipLayout_ne hR (by decide) hquote)]
    exact .error _ _

/-- **Values.** Where there is none on the one side, there is none on the other. -/
theorem readValue_alike (h : Lockstep exact R Q) (hR : R cs ds) :
    (readValue cs).Alike exact R (readValue ds) := by
  rw [readValue]
  split
  · next quoted hs =>
    obtain ⟨quoted', hs', hquoted⟩ := h.skipLayout_quote hR hs
    rw [readValue, hs']
    exact (h.quoted hquoted).map fun ht hrest => .ok (fun he => by rw [ht he]) hrest
  · next items hs =>
    obtain ⟨items', hs', hitems⟩ := h.skipLayout_char hR hs (by decide) (by decide)
    rw [readValue, hs']
    exact (h.readItems_alike hitems).map fun hts hrest => .ok (fun he => by rw [hts he]) hrest
  · next hquote hbracket =>
    -- no value: neither side takes the layout, so both stay where they are
    rw [readValue_of_flag (h.skipLayout_ne hR (by decide) hquote)
      (h.skipLayout_ne hR (by decide) hbracket)]
    exact .ok (fun _ => rfl) hR

/-! ### Entries and sections -/

/-- Where an entry has been read, the entries are in lockstep if those that follow are. -/
theorem readEntries_alike_of_entry (h : Lockstep exact R Q) {n after next : List Char} {v : Value}
    (hR : R cs ds) (hn : readName? (skipLayout cs) = some (n, after))
    (hv : readValue after = .ok (v, next))
    (ih : ∀ {next' : List Char}, R next next' →
      (readEntries next).Alike exact R (readEntries next')) :
    (readEntries cs).Alike exact R (readEntries ds) := by
  obtain ⟨after', hn', hafter⟩ := h.readName?_of_some (h.layout hR) hn
  obtain ⟨v', next', hv', hvalue, hnext⟩ := (hv ▸ h.readValue_alike hafter).exists_ok
  rw [readEntries_of_entry hn hv, readEntries_of_entry hn' hv']
  exact (ih hnext).map fun hes hrest => .ok (fun he => by rw [hvalue he, hes he]) hrest

/-- **Entries.** -/
theorem readEntries_alike (h : Lockstep exact R Q) (hR : R cs ds) :
    (readEntries cs).Alike exact R (readEntries ds) := by
  -- the induction is on the reading of the one side, as for lists
  fun_induction readEntries cs generalizing ds with
  | case1 cs hn =>
    rw [readEntries_of_none (h.readName?_of_none (h.layout hR) hn)]
    exact .ok (fun _ => rfl) hR
  | case2 cs n after hn f hv =>
    -- a value that is at fault
    obtain ⟨after', hn', hafter⟩ := h.readName?_of_some (h.layout hR) hn
    obtain ⟨g, hv'⟩ := (hv ▸ h.readValue_alike hafter).exists_error
    rw [readEntries_of_fault hn' hv']
    exact .error _ _
  | case3 cs n after hn v next hv f hr ih =>
    have hentries := h.readEntries_alike_of_entry hR hn hv ih
    rwa [readEntries_of_entry hn hv, hr] at hentries
  | case4 cs n after hn v next hv es rest hr ih =>
    have hentries := h.readEntries_alike_of_entry hR hn hv ih
    rwa [readEntries_of_entry hn hv, hr] at hentries

/-- A word without layout and quotes stands at corresponding places, or at neither. -/
theorem isPrefixOf_cases (h : Lockstep exact R Q) {word : List Char}
    (hword : ∀ c ∈ word, opensLayout c = false ∧ c ≠ '"') (hR : R cs ds) :
    (word.isPrefixOf cs = false ∧ word.isPrefixOf ds = false) ∨
      ∃ rest rest', cs = word ++ rest ∧ ds = word ++ rest' ∧ R rest rest' := by
  -- character by character of the word
  induction word generalizing cs ds with
  | nil => exact .inr ⟨cs, ds, rfl, rfl, hR⟩
  | cons c word ih =>
    obtain ⟨⟨hc, hq⟩, hword⟩ := List.forall_mem_cons.mp hword
    have hne {d : Char} (hcd : c ≠ d) (es : List Char) :
        (c :: word).isPrefixOf (d :: es) = false := by
      rw [List.isPrefixOf_cons_cons, beq_false_of_ne hcd, Bool.false_and]
    have hplain {d : Char} (hd : opensLayout d = true) : c ≠ d := by
      rintro rfl
      rw [hc] at hd
      contradiction
    cases h.abreast hR with
    | done => exact .inl ⟨rfl, rfl⟩
    | layout hd hd' => exact .inl ⟨hne (hplain hd) _, hne (hplain hd') _⟩
    | quote _ => exact .inl ⟨hne hq _, hne hq _⟩
    | @char d cs ds _ _ hnext =>
      by_cases hcd : c = d
      · subst hcd
        -- the first character stands at both, so the rest of the word decides
        rw [List.isPrefixOf_cons_cons, List.isPrefixOf_cons_cons, beq_self_eq_true, Bool.true_and,
          Bool.true_and]
        rcases ih hword hnext with hneither | ⟨rest, rest', rfl, rfl, hrest⟩
        · exact .inl hneither
        · exact .inr ⟨rest, rest', rfl, rfl, hrest⟩
      · exact .inl ⟨hne hcd _, hne hcd _⟩

/-- Where no colon stands behind its word, there is no section. -/
theorem readSection_of_missing {word : List Char}
    (hs : ∀ entries, skipLayout word ≠ ':' :: entries) :
    readSection (sectionWord ++ word) = .error ⟨skipLayout word, [.char ':']⟩ := by
  have hp : sectionWord.isPrefixOf (sectionWord ++ word) = true :=
    List.isPrefixOf_iff_prefix.mpr (List.prefix_append sectionWord word)
  rw [readSection, if_pos hp, List.drop_left]
  split
  · next entries hcolon => exact absurd hcolon (hs entries)
  · rfl

/-- **Sections.** -/
theorem readSection_alike (h : Lockstep exact R Q) (hR : R cs ds) :
    (readSection cs).Alike exact R (readSection ds) := by
  have hword : ∀ c ∈ sectionWord, opensLayout c = false ∧ c ≠ '"' := by
    simp [sectionWord, opensLayout, isBlank]
  rcases h.isPrefixOf_cases hword hR with ⟨hcs, hds⟩ | ⟨word, word', rfl, rfl, hnext⟩
  · -- no section on either side, and nothing is taken
    rw [readSection, readSection, hcs, hds]
    exact .ok (fun _ => rfl) hR
  · by_cases hcolon : ∃ entries, skipLayout word = ':' :: entries
    -- the entries of both sides start behind corresponding colons
    · obtain ⟨entries, hs⟩ := hcolon
      obtain ⟨entries', hs', hentries⟩ := h.skipLayout_char hnext hs (by decide) (by decide)
      have hsec : readSection (sectionWord ++ word) = _ := readSection_of_colon hs
      have hsec' : readSection (sectionWord ++ word') = _ := readSection_of_colon hs'
      rw [hsec, hsec']
      exact (h.readEntries_alike hentries).map fun hes hrest => .ok (fun he => by rw [hes he]) hrest
    -- the colon is missing on both sides
    · have hs := not_exists.mp hcolon
      rw [readSection_of_missing hs, readSection_of_missing (h.skipLayout_ne hnext (by decide) hs)]
      exact .error _ _

/-- **Whole scripts.** They are accepted together or refused together; and when they are accepted,
the ends of the two texts are corresponding places. -/
theorem readScript_cases (h : Lockstep exact R Q) (hR : R cs ds) :
    (∃ sec sec', readScript cs = .ok sec ∧ readScript ds = .ok sec' ∧ (exact → sec = sec') ∧
      R [] []) ∨
    ∃ f g, readScript cs = .error f ∧ readScript ds = .error g := by
  have hsection := h.readSection_alike (h.layout hR)
  rw [readScript, readScript]
  -- the sections are alike, and so is what is left behind them
  generalize readSection (skipLayout cs) = r at hsection
  generalize readSection (skipLayout ds) = r' at hsection
  cases hsection with
  | error f g => exact .inr ⟨f, g, rfl, rfl⟩
  | @ok sec sec' more more' hsec hmore =>
    have hend := h.layout hmore
    have habreast := h.abreast hend
    -- something is left over on both sides or on neither
    cases hm : skipLayout more with
    | nil =>
      rw [hm] at hend habreast
      have hm' : skipLayout more' = [] := habreast.eq_nil
      rw [hm'] at hend
      exact .inl ⟨sec, sec', by simp only [hm], by simp only [hm'], hsec, hend⟩
    | cons c rest =>
      cases hm' : skipLayout more' with
      | nil =>
        rw [hm, hm'] at habreast
        contradiction
      | cons d rest' =>
        exact .inr ⟨⟨c :: rest, []⟩, ⟨d :: rest', []⟩, by simp only [hm], by simp only [hm']⟩

end Lockstep

end PathFilter.Script
