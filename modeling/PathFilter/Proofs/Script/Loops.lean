import PathFilter.Proofs.Script.Attempts

/-!
# The loops of the readers

Four of the readers of a script go round in a loop: over the pieces of layout, over the entries of
a section, over the characters of a quoted text and over the items of a list. Here it is shown that
none of them can go round for ever, and how often each goes round at most.

A loop is given by its **turns**: what one turn comes to at each place of a text (`Turn`). It may
go on from another place, return, or fail. The first two loops repeat an attempt
(`repeating`). They are of a kind that would never end if the attempt succeeded without taking
anything, so a fourth outcome is kept for it: the turn **stalls**. `Runs` counts the turns of a run
that comes to an end; a run into a turn that stalls comes to none.

* **One turn.** Each turn agrees with the reader that it is a turn of, never stalls, gives nothing
  back, and takes a character if the loop is to go on (`Turn.Follows`). The character is a different
  one in each loop: the first blank or the `#` of a piece of layout, the first letter of a name, any
  character of a quoted text, the opening quote of an item. Neither layout nor a value is enough,
  since there may be none.
* **All turns.** From this, by induction on what is left, every run ends, with what the reader comes
  to (`IsLoop.exists_runs`), and takes as many characters as it makes turns, but for the last turn
  (`IsLoop.turns_le`).

`loops_advance` puts this together for the four loops and says of all attempts that what they leave
is an end of what they were given.
-/

namespace PathFilter.Script

variable {α β : Type}

/-! ### Turns -/

/-- What one turn of a loop comes to. -/
inductive Turn (β : Type) where
  /-- The loop goes on at `rest`, and `add` puts what was found in this turn to what will be found
  from there on. -/
  | again (add : β → β) (rest : List Char)
  | returns (b : β) (rest : List Char)
  | fails (f : Fault)
  /-- The loop would go on where it is, and so for ever. -/
  | stalls

/-- The turn of a loop that repeats an attempt until it declines, and then stays where it was made.
It stalls where the attempt takes a part but no character, as the attempt at all layout does where
there is none. -/
def repeating (add : α → β → β) (none : β) (attempt : List Char → Attempt α) (cs : List Char) :
    Turn β :=
  match attempt cs with
  | .took a rest => if rest.length = cs.length then .stalls else .again (add a) rest
  | .declined _ => .returns none cs
  | .failed f => .fails f

/-- A run of a loop from `cs` to its end: the number of its turns, the last one included, and what
it comes to. -/
inductive Runs (turn : List Char → Turn β) : List Char → Nat → Read β → Prop
  | returns {cs rest : List Char} {b : β} (h : turn cs = .returns b rest) :
      Runs turn cs 1 (.ok (b, rest))
  | fails {cs : List Char} {f : Fault} (h : turn cs = .fails f) : Runs turn cs 1 (.error f)
  | again {cs rest : List Char} {add : β → β} {n : Nat} {r : Read β}
      (h : turn cs = .again add rest) (hr : Runs turn rest n r) :
      Runs turn cs (n + 1) (r.mapValue add)

/-- That a turn at `cs` is one of the loop that comes to `run`: it does not stall, gives nothing
back, and takes at least one character if the loop is to go on. -/
inductive Turn.Follows (run : List Char → Read β) (cs : List Char) : Turn β → Prop
  | again {add : β → β} {rest : List Char} (h : run cs = (run rest).mapValue add)
      (hrest : rest <:+ cs) (hlt : rest.length < cs.length) : Follows run cs (.again add rest)
  | returns {b : β} {rest : List Char} (h : run cs = .ok (b, rest)) (hrest : rest <:+ cs) :
      Follows run cs (.returns b rest)
  | fails {f : Fault} (h : run cs = .error f) (hrest : f.rest <:+ cs) : Follows run cs (.fails f)

/-- **What makes a loop advance.** Every turn, from wherever it starts, is one of the loop that
comes to `run`. -/
def IsLoop (turn : List Char → Turn β) (run : List Char → Read β) : Prop :=
  ∀ cs, (turn cs).Follows run cs

/-- What is asked of a loop at `cs`, whose reader is `run`. -/
structure Advances (turn : List Char → Turn β) (run : List Char → Read β) (cs : List Char) : Prop
    where
  /-- A turn behind which the loop goes on takes at least one character. -/
  takes : ∀ add rest, turn cs = .again add rest → rest <:+ cs ∧ rest.length < cs.length
  not_stalls : turn cs ≠ .stalls
  /-- The loop comes to an end, and to what the reader comes to. -/
  ends : ∃ n, Runs turn cs n (run cs)
  /-- However it ends, it has made at most one turn more than it has taken characters. -/
  turns_le : ∀ n r, Runs turn cs n r →
    r = run cs ∧ r.left <:+ cs ∧ n ≤ cs.length - r.left.length + 1

/-- That an attempt at `cs` takes at least one character if it takes anything. -/
def Attempt.Consumes (cs : List Char) (a : Attempt α) : Prop :=
  ∀ b rest, a = .took b rest → rest <:+ cs ∧ rest.length < cs.length

section repeating

variable {add : α → β → β} {none : β} {attempt : List Char → Attempt α} {cs rest : List Char}

/-- A repetition stalls where its attempt succeeds without taking anything, and nowhere else. -/
theorem repeating_eq_stalls_iff :
    repeating add none attempt cs = .stalls ↔
      ∃ a rest, attempt cs = .took a rest ∧ rest.length = cs.length := by
  rw [repeating]
  -- only an attempt that takes something can stall, by taking no character
  cases attempt cs with
  | took a rest =>
    by_cases h : rest.length = cs.length
    · exact iff_of_true (if_pos h) ⟨a, rest, rfl, h⟩
    · simp [h]
  | declined rest => simp
  | failed f => simp

theorem repeating_of_took {a : α} (h : attempt cs = .took a rest)
    (hlt : rest.length < cs.length) : repeating add none attempt cs = .again (add a) rest := by
  simp only [repeating, h]
  exact if_neg hlt.ne

theorem repeating_of_declined (h : attempt cs = .declined rest) :
    repeating add none attempt cs = .returns none cs := by
  simp only [repeating, h]

theorem repeating_of_failed {f : Fault} (h : attempt cs = .failed f) :
    repeating add none attempt cs = .fails f := by
  simp only [repeating, h]

/-- Where a repetition is a loop, its attempt consumes what it takes. -/
theorem consumes_of_follows {run : List Char → Read β}
    (h : (repeating add none attempt cs).Follows run cs) : (attempt cs).Consumes cs := by
  intro a rest ht
  -- had it taken nothing, the turn would stall, and no turn that follows the reader does
  by_cases hlen : rest.length = cs.length
  · rw [repeating_eq_stalls_iff.mpr ⟨a, rest, ht, hlen⟩] at h
    contradiction
  · have hagain : repeating add none attempt cs = .again (add a) rest := by
      simp only [repeating, ht]
      exact if_neg hlen
    rw [hagain] at h
    cases h with
    | again _ hrest hlt => exact ⟨hrest, hlt⟩

end repeating

/-! ### Runs -/

section runs

variable {turn : List Char → Turn β} {run : List Char → Read β} {cs : List Char} {n m : Nat}
  {r s : Read β}

/-- From one place there is one run. -/
theorem Runs.unique (h : Runs turn cs n r) (h' : Runs turn cs m s) : n = m ∧ r = s := by
  -- the two runs take the same turn at each place, so the other combinations do not occur
  induction h generalizing m s with
  | returns h =>
    cases h' with
    | returns h' =>
      cases h.symm.trans h'
      exact ⟨rfl, rfl⟩
    | fails h' => cases h.symm.trans h'
    | again h' _ => cases h.symm.trans h'
  | fails h =>
    cases h' with
    | returns h' => cases h.symm.trans h'
    | fails h' =>
      cases h.symm.trans h'
      exact ⟨rfl, rfl⟩
    | again h' _ => cases h.symm.trans h'
  | again h _ ih =>
    cases h' with
    | returns h' => cases h.symm.trans h'
    | fails h' => cases h.symm.trans h'
    | again h' hr =>
      cases h.symm.trans h'
      obtain ⟨rfl, rfl⟩ := ih hr
      exact ⟨rfl, rfl⟩

namespace IsLoop

/-- Every run comes to an end, and to what the reader comes to. -/
theorem exists_runs (h : IsLoop turn run) (cs : List Char) : ∃ n, Runs turn cs n (run cs) := by
  -- a turn leaves less than it was given if the loop goes on, so the induction is on that
  induction hlen : cs.length using Nat.strongRecOn generalizing cs with
  | ind k ih =>
    have hturn := h cs
    generalize ht : turn cs = t at hturn
    cases hturn with
    | again hrun _ hlt =>
      obtain ⟨n, hn⟩ := ih _ (hlen ▸ hlt) _ rfl
      exact ⟨n + 1, hrun ▸ .again ht hn⟩
    | returns hrun _ => exact ⟨1, hrun ▸ .returns ht⟩
    | fails hrun _ => exact ⟨1, hrun ▸ .fails ht⟩

/-- A run comes to what the reader comes to, however many turns it makes. -/
theorem eq_of_runs (h : IsLoop turn run) (hr : Runs turn cs n r) : r = run cs := by
  obtain ⟨m, hm⟩ := h.exists_runs cs
  exact (hr.unique hm).2

/-- A run leaves an end of what it was given. -/
theorem left_suffix_of_runs (h : IsLoop turn run) (hr : Runs turn cs n r) : r.left <:+ cs := by
  -- turn by turn, since each gives nothing back
  induction hr with
  | @returns cs _ _ ht =>
    cases ht ▸ h cs with
    | returns _ hrest => exact hrest
  | @fails cs _ ht =>
    cases ht ▸ h cs with
    | fails _ hrest => exact hrest
  | @again cs _ _ _ _ ht _ ih =>
    cases ht ▸ h cs with
    | again _ hrest _ =>
      rw [Read.left_mapValue]
      exact ih.trans hrest

theorem left_suffix (h : IsLoop turn run) (cs : List Char) : (run cs).left <:+ cs := by
  obtain ⟨n, hn⟩ := h.exists_runs cs
  exact h.left_suffix_of_runs hn

/-- **The number of turns.** Each but the last takes a character that no other takes. -/
theorem turns_le (h : IsLoop turn run) (hr : Runs turn cs n r) :
    n + r.left.length ≤ cs.length + 1 := by
  -- turn by turn: the sum of the turns made and the characters left does not grow
  induction hr with
  | @returns cs rest _ ht =>
    -- the last turn, which may take nothing
    have hle : rest.length ≤ cs.length := (h.left_suffix_of_runs (.returns ht)).length_le
    show 1 + rest.length ≤ cs.length + 1
    omega
  | @fails cs f ht =>
    have hle : f.rest.length ≤ cs.length := (h.left_suffix_of_runs (.fails ht)).length_le
    show 1 + f.rest.length ≤ cs.length + 1
    omega
  | @again cs _ _ _ _ ht _ ih =>
    cases ht ▸ h cs with
    | again _ _ hlt =>
      -- one turn more, and at least one character less
      rw [Read.left_mapValue]
      omega

/-- A loop whose turns follow it advances from every place. -/
theorem advances (h : IsLoop turn run) (cs : List Char) : Advances turn run cs where
  takes add rest ht := by
    cases ht ▸ h cs with
    | again _ hrest hlt => exact ⟨hrest, hlt⟩
  not_stalls ht := by
    cases ht ▸ h cs
  ends := h.exists_runs cs
  turns_le n r hr := by
    have hsuffix := h.left_suffix_of_runs hr
    have hle := h.turns_le hr
    have hlength := hsuffix.length_le
    exact ⟨h.eq_of_runs hr, hsuffix, by omega⟩

end IsLoop

end runs

/-! ### The four loops -/

/-- One turn over the pieces of layout. -/
def layoutTurn : List Char → Turn Unit := repeating (fun _ u => u) () tryPiece

/-- One turn over the characters of a quoted text, of which an escape is two. -/
def quotedTurn : List Char → Turn (List Char)
  | [] => .fails ⟨[], [.char '"']⟩
  | '"' :: rest => .returns [] rest
  | ['\\'] => .fails ⟨[], []⟩
  | '\\' :: c :: rest => .again (unescape c ++ ·) rest
  | c :: rest => .again ([c] ++ ·) rest

/-- One turn over the items of a list. A closing bracket is looked for in front of an item and, for
want of a comma, behind it. -/
def itemsTurn (cs : List Char) : Turn (List String) :=
  match skipLayout cs with
  | ']' :: rest => .returns [] rest
  | item =>
    match tryText item with
    | .took t more =>
      match skipLayout more with
      | ',' :: next => .again (t :: ·) next
      | ']' :: rest => .returns [t] rest
      | rest => .fails ⟨rest, [.char ']']⟩
    | .declined rest => .fails ⟨rest, [itemExpected]⟩
    | .failed f => .fails (f.within itemExpected)

/-- One turn over the entries of a section. -/
def entriesTurn : List Char → Turn (List Entry) := repeating List.cons [] tryEntry

section loops

variable {cs rest : List Char}

/-- A piece of layout takes its first character. -/
theorem isLoop_layoutTurn : IsLoop layoutTurn fun cs => .ok ((), skipLayout cs) := by
  intro cs
  cases hp : skipPiece? cs with
  | some rest =>
    -- the first character of a piece is taken
    have hlt := length_lt_of_skipPiece? hp
    obtain ⟨c, t, rfl, hrest⟩ := exists_suffix_of_skipPiece? hp
    rw [layoutTurn, repeating_of_took (tryPiece_of_some hp) hlt]
    refine .again ?_ (hrest.trans (List.suffix_cons c t)) hlt
    rw [skipLayout_of_skipPiece? hp]
    rfl
  | none =>
    obtain ⟨rest, hdeclined⟩ := tryPiece_of_none hp
    rw [layoutTurn, repeating_of_declined hdeclined]
    refine .returns ?_ List.suffix_rfl
    rw [skipLayout_eq_self hp]

/-- A turn over a quoted text takes one character or the two of an escape. -/
theorem isLoop_quotedTurn : IsLoop quotedTurn readQuoted := by
  intro cs
  fun_cases quotedTurn cs with
  | case1 => exact .fails rfl List.suffix_rfl
  -- the closing quote
  | case2 rest => exact .returns rfl (List.suffix_cons _ _)
  | case3 => exact .fails rfl List.nil_suffix
  | case4 c rest =>
    have hlt : rest.length < ('\\' :: c :: rest).length := by
      simp only [List.length_cons]
      omega
    refine .again ?_ ((List.suffix_cons c rest).trans (List.suffix_cons _ _)) hlt
    rw [readQuoted, Read.prepend_eq_mapValue]
  | case5 c rest hq hnil hpair =>
    refine .again ?_ (List.suffix_cons c rest) (Nat.lt_succ_self _)
    rw [readQuoted_cons hq (ne_backslash hnil hpair), Read.prepend_eq_mapValue]

/-- Whatever reading goes on to behind a character that follows the layout, that character has been
taken. -/
theorem suffix_behind {c : Char} {t : List Char} (hs : skipLayout cs = c :: t)
    (h : rest <:+ t) : rest <:+ cs ∧ rest.length < cs.length := by
  refine ⟨h.trans (suffix_of_skipLayout hs), ?_⟩
  calc rest.length ≤ t.length := h.length_le
    _ < cs.length := length_lt_of_skipLayout hs

/-- An item takes its opening quote. -/
theorem isLoop_itemsTurn : IsLoop itemsTurn readItems := by
  intro cs
  unfold itemsTurn
  split
  · next rest hs =>
    -- a closing bracket in front of an item
    exact .returns (readItems_of_close hs) (suffix_of_skipLayout hs)
  · next hclose =>
    by_cases hquote : ∃ quoted, skipLayout cs = '"' :: quoted
    · obtain ⟨quoted, hs⟩ := hquote
      have hleft := isLoop_quotedTurn.left_suffix quoted
      cases hq : readQuoted quoted with
      | error f =>
        -- an item that does not end
        rw [hq] at hleft
        simp only [hs, tryText_of_error hq]
        exact .fails (readItems_of_fault hs hq) (suffix_behind hs hleft).1
      | ok p =>
        obtain ⟨t, more⟩ := p
        rw [hq] at hleft
        simp only [hs, tryText_of_ok hq]
        split
        · next next hm =>
          -- an item and a comma: the opening quote of the item is taken, whatever else is
          obtain ⟨hsuffix, hlt⟩ := suffix_behind hs ((suffix_of_skipLayout hm).trans hleft)
          refine .again ?_ hsuffix hlt
          rw [readItems_of_comma hs hq hm]
          exact Read.map_eq_mapValue _ _
        · next rest hm =>
          -- a closing bracket behind one
          have hrest : rest <:+ quoted := (suffix_of_skipLayout hm).trans hleft
          exact .returns (readItems_of_last hs hq hm) (suffix_behind hs hrest).1
        · next hcomma hbracket =>
          have hmore : skipLayout more <:+ quoted := (skipLayout_suffix more).trans hleft
          exact .fails (readItems_of_stray hs hq hcomma hbracket) (suffix_behind hs hmore).1
    · -- something else in the place of an item
      have hne := not_exists.mp hquote
      simp only [tryText_of_ne hne]
      exact .fails (readItems_of_missing hclose hne) (skipLayout_suffix cs)

/-! ### What attempts leave -/

/-- Of two attempts at a place either leaves an end, so whichever counts does. -/
theorem Attempt.rest_orElse_suffix {a b : Attempt α} (ha : a.rest <:+ cs) (hb : b.rest <:+ cs) :
    (a.orElse b).rest <:+ cs := by
  cases a with
  | took _ _ => exact ha
  | declined _ => exact hb
  | failed _ => exact ha

/-- Doing without a part gives back everything, and so leaves an end. -/
theorem Attempt.left_optional_suffix {a : Attempt α} (h : a.rest <:+ cs) (none : α) :
    (a.optional cs none).left <:+ cs := by
  cases a with
  | took _ _ => exact h
  | declined _ => exact List.suffix_rfl
  | failed _ => exact h

/-- A name leaves an end. -/
theorem rest_tryName_suffix (cs : List Char) : (tryName cs).rest <:+ cs := by
  unfold tryName
  split
  · next n rest hn =>
    obtain ⟨c, t, rfl, hrest⟩ := suffix_of_readName? hn
    exact hrest.trans (List.suffix_cons c t)
  · exact List.suffix_rfl

/-- A quoted text leaves an end, also where it is at fault. -/
theorem rest_tryText_suffix (cs : List Char) : (tryText cs).rest <:+ cs := by
  unfold tryText
  split
  · next quoted =>
    rw [Attempt.rest_map, Attempt.rest_ofRead]
    exact (isLoop_quotedTurn.left_suffix quoted).trans (List.suffix_cons _ _)
  · exact List.suffix_rfl

/-- A list leaves an end, also where it is at fault. -/
theorem rest_tryList_suffix (cs : List Char) : (tryList cs).rest <:+ cs := by
  unfold tryList
  split
  · next items =>
    rw [Attempt.rest_ofRead]
    exact (isLoop_itemsTurn.left_suffix items).trans (List.suffix_cons _ _)
  · exact List.suffix_rfl

/-- A value leaves an end. -/
theorem rest_tryValue_suffix (cs : List Char) : (tryValue cs).rest <:+ cs := by
  have htext : ((tryText (skipLayout cs)).map Value.text).rest <:+ skipLayout cs := by
    rw [Attempt.rest_map]
    exact rest_tryText_suffix _
  have hlist : ((tryList (skipLayout cs)).map Value.list).rest <:+ skipLayout cs := by
    rw [Attempt.rest_map]
    exact rest_tryList_suffix _
  exact (Attempt.rest_orElse_suffix htext hlist).trans (skipLayout_suffix cs)

/-- A value that may be missing gives back no more than the layout before it. -/
theorem left_readValue_suffix (cs : List Char) : (readValue cs).left <:+ cs := by
  rw [readValue_eq_optional]
  exact Attempt.left_optional_suffix (rest_tryValue_suffix cs) .flag

theorem suffix_behind_name {name after : List Char}
    (hn : readName? (skipLayout cs) = some (name, after)) :
    (readValue after).left <:+ cs ∧ (readValue after).left.length < cs.length := by
  obtain ⟨c, t, hs, hafter⟩ := suffix_of_readName? hn
  exact suffix_behind hs ((left_readValue_suffix after).trans hafter)

/-- An entry leaves an end. -/
theorem rest_tryEntry_suffix (cs : List Char) : (tryEntry cs).rest <:+ cs := by
  -- without a name only layout was passed; with one, what the value leaves is left
  cases hn : readName? (skipLayout cs) with
  | none =>
    rw [tryEntry_of_none hn]
    exact skipLayout_suffix cs
  | some p =>
    have hleft := (suffix_behind_name hn).1
    cases hv : readValue p.2 with
    | error f =>
      rw [hv] at hleft
      rw [tryEntry_of_fault hn hv]
      exact hleft
    | ok q =>
      rw [hv] at hleft
      rw [tryEntry_of_value hn hv]
      exact hleft

/-- An entry takes the first letter of its name. -/
theorem isLoop_entriesTurn : IsLoop entriesTurn readEntries := by
  intro cs
  cases hn : readName? (skipLayout cs) with
  | none =>
    -- the attempt has looked past the layout, and the loop stays in front of it
    rw [entriesTurn, repeating_of_declined (tryEntry_of_none hn)]
    exact .returns (readEntries_of_none hn) List.suffix_rfl
  | some p =>
    -- a name has been taken, so the turn goes on behind less than it was given
    obtain ⟨hsuffix, hlt⟩ := suffix_behind_name hn
    cases hv : readValue p.2 with
    | error f =>
      rw [hv] at hsuffix
      rw [entriesTurn, repeating_of_failed (tryEntry_of_fault hn hv)]
      exact .fails (readEntries_of_fault hn hv) hsuffix
    | ok q =>
      rw [hv] at hsuffix hlt
      rw [entriesTurn, repeating_of_took (tryEntry_of_value hn hv) hlt]
      refine .again ?_ hsuffix hlt
      rw [readEntries_of_entry hn hv]
      exact Read.map_eq_mapValue _ _

/-- A section leaves an end. -/
theorem rest_trySection_suffix (cs : List Char) : (trySection cs).rest <:+ cs := by
  have hword : cs.drop sectionWord.length <:+ cs := List.drop_suffix _ cs
  unfold trySection
  -- the entries behind the colon, the place where it is missing, or nothing taken at all
  split
  · split
    · next entries hs =>
      rw [Attempt.rest_ofRead]
      have hentries : entries <:+ cs := (suffix_of_skipLayout hs).trans hword
      exact (isLoop_entriesTurn.left_suffix entries).trans hentries
    · exact (skipLayout_suffix _).trans hword
  · exact List.suffix_rfl

/-! ### What attempts consume -/

/-- A run of blanks has a first one. -/
theorem consumes_tryBlanks (cs : List Char) : (tryBlanks cs).Consumes cs := by
  intro _ rest h
  cases cs with
  | nil => contradiction
  | cons c t =>
    rw [tryBlanks] at h
    split at h
    · obtain ⟨-, rfl⟩ := Attempt.took.inj h
      have hrest : t.dropWhile isBlank <:+ t := List.dropWhile_suffix _
      exact ⟨hrest.trans (List.suffix_cons c t), Nat.lt_succ_of_le hrest.length_le⟩
    · contradiction

/-- A comment has its `#`. -/
theorem consumes_tryComment (cs : List Char) : (tryComment cs).Consumes cs := by
  intro _ rest h
  cases cs with
  | nil => contradiction
  | cons c t =>
    rw [tryComment] at h
    -- what is taken ends behind the line, so it has at least the `#`
    split at h
    · split at h
      · next more hmore =>
        obtain ⟨-, rfl⟩ := Attempt.took.inj h
        have hrest := suffix_of_afterComment? hmore
        exact ⟨hrest.trans (List.suffix_cons c t), Nat.lt_succ_of_le hrest.length_le⟩
      · contradiction
    · contradiction

end loops

/-- **The loops advance.** Every attempt leaves an end of what it was given, and one that can be
repeated takes a character if it takes anything. So none of the four loops ever stalls: from
wherever it starts it comes to an end, after at most one turn more than it takes characters. The
loops are those of the readers, and values and sections are read as they are attempted. -/
theorem loops_advance (cs : List Char) :
    ((tryLayout cs).rest <:+ cs ∧ (tryName cs).rest <:+ cs ∧ (tryText cs).rest <:+ cs ∧
      (tryList cs).rest <:+ cs ∧ (tryValue cs).rest <:+ cs ∧ (tryEntry cs).rest <:+ cs ∧
      (trySection cs).rest <:+ cs) ∧
    ((tryBlanks cs).Consumes cs ∧ (tryComment cs).Consumes cs ∧ (tryEntry cs).Consumes cs) ∧
    Advances layoutTurn (fun cs => .ok ((), skipLayout cs)) cs ∧
    Advances entriesTurn readEntries cs ∧
    Advances quotedTurn readQuoted cs ∧
    Advances itemsTurn readItems cs ∧
    readValue cs = (tryValue cs).optional cs .flag ∧
    readSection cs = ((trySection cs).map some).optional cs none := by
  refine ⟨⟨skipLayout_suffix cs, rest_tryName_suffix cs, rest_tryText_suffix cs,
    rest_tryList_suffix cs, rest_tryValue_suffix cs, rest_tryEntry_suffix cs,
    rest_trySection_suffix cs⟩, ⟨consumes_tryBlanks cs, consumes_tryComment cs, ?_⟩, ?_⟩
  -- an entry could not be repeated otherwise, and the loop of entries repeats it
  · exact consumes_of_follows (isLoop_entriesTurn cs)
  · exact ⟨isLoop_layoutTurn.advances cs, isLoop_entriesTurn.advances cs,
      isLoop_quotedTurn.advances cs, isLoop_itemsTurn.advances cs, readValue_eq_optional cs,
      readSection_eq_optional cs⟩

end PathFilter.Script
