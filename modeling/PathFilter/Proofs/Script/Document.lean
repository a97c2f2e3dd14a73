import Mathlib.Data.List.Chain
import PathFilter.Proofs.Script.Entries
import PathFilter.Proofs.Script.Reading

/-!
# Writing configurations as scripts

A **document** is a script together with every choice that was made in writing it: the layout at
each place where layout may stand, the spelling of each quoted text, the trailing comma of each
list, and the order of the entries. `Document.text` is the script itself, and `Document.Writes`
says of which configuration it is a script.

The round trip is `Document.load_text_of_writes`: whatever the choices, loading the script gives the
configuration back. It has two halves that know nothing of each other.

* **Form.** The text of a document has a derivation in the grammar, with the entries that the
  document writes (`Document.script_chars`). The one choice that is not free is the layout behind
  an entry without a value, where two names would run together (`Document.Spaced`).
* **Content.** The entries of a filter configure it in every order (`Filter.filterOf_of_perm`).
-/

namespace PathFilter.Script

open Grammar (EndsLine Layout Name Escape Quoted MoreItems Items Entries)

/-! ### Layout that is written -/

/-- The five blanks. -/
inductive Blank where
  | space
  | tab
  | lineFeed
  | formFeed
  | carriageReturn

/-- The character of a blank. -/
def Blank.char : Blank → Char
  | .space => ' '
  | .tab => '\t'
  | .lineFeed => '\n'
  | .formFeed => '\x0c'
  | .carriageReturn => '\r'

/-- What a comment may say: anything that holds no end of a line. -/
structure CommentText where
  chars : List Char
  free : ∀ c ∈ chars, c ≠ '\n' ∧ c ≠ '\r'

/-- The two ways to end a line. -/
inductive LineBreak where
  | lineFeed
  | carriageReturn

/-- The characters that end the line. -/
def LineBreak.chars : LineBreak → List Char
  | .lineFeed => ['\n']
  | .carriageReturn => ['\r', '\n']

/-- A blank, or a comment with the end of its line. -/
inductive Piece where
  | blank (b : Blank)
  | comment (t : CommentText) (e : LineBreak)

/-- The characters of a piece of layout. -/
def Piece.chars : Piece → List Char
  | .blank b => [b.char]
  | .comment t e => '#' :: (t.chars ++ e.chars)

/-- Layout between two parts of a script. -/
abbrev Gap : Type := List Piece

/-- The characters of a gap. -/
def Gap.chars (g : Gap) : List Char := g.flatMap Piece.chars

/-- Layout at the end of a script, where a last comment may go without the end of its line. -/
structure Tail where
  gap : Gap
  comment : Option CommentText

/-- The characters of the layout at the end. -/
def Tail.chars (t : Tail) : List Char :=
  t.gap.chars ++
    match t.comment with
    | none => []
    | some c => '#' :: c.chars

/-! ### Values that are written -/

/-- A character of a quoted text, and whether it is escaped where it need not be. -/
structure Glyph where
  char : Char
  escaped : Bool

/-- Quotes and backslashes are always escaped, line feeds and tabs if this is chosen, and all
else never. -/
def Glyph.chars (g : Glyph) : List Char :=
  if g.char = '"' then ['\\', '"']
  else if g.char = '\\' then ['\\', '\\']
  else if g.char = '\n' ∧ g.escaped then ['\\', 'n']
  else if g.char = '\t' ∧ g.escaped then ['\\', 't']
  else [g.char]

/-- A quoted text, character by character. -/
abbrev Spelling : Type := List Glyph

/-- The text that is spelled. -/
def Spelling.text (s : Spelling) : String := String.ofList (s.map Glyph.char)

/-- The characters of a quoted text, with its quotes. -/
def Spelling.chars (s : Spelling) : List Char := '"' :: (s.flatMap Glyph.chars ++ ['"'])

/-- An item of a list between its gaps. -/
structure Item where
  before : Gap
  spelling : Spelling
  after : Gap

/-- The characters of an item, with its gaps. -/
def Item.chars (i : Item) : List Char := i.before.chars ++ i.spelling.chars ++ i.after.chars

/-- The items of a list with commas between them, and one behind the last if this is chosen. -/
def itemsChars (trailing : Bool) : List Item → List Char
  | [] => []
  | [i] => i.chars ++ if trailing then [','] else []
  | i :: j :: is => i.chars ++ ',' :: itemsChars trailing (j :: is)

/-- A value: a quoted text, or a list with the gap before its closing bracket. -/
inductive Written where
  | text (s : Spelling)
  | list (items : List Item) (trailing : Bool) (close : Gap)

/-- The value that is written. -/
def Written.value : Written → Value
  | .text s => .text s.text
  | .list items _ _ => .list (items.map fun i => i.spelling.text)

/-- The characters of a value. -/
def Written.chars : Written → List Char
  | .text s => s.chars
  | .list items trailing close => '[' :: (itemsChars trailing items ++ close.chars ++ [']'])

/-! ### Documents -/

/-- An entry with the gaps before it and before its value. -/
structure Line where
  before : Gap
  name : String
  value : Option (Gap × Written)

/-- The entry that is written. -/
def Line.entry (l : Line) : Entry :=
  ⟨l.name,
    match l.value with
    | none => .flag
    | some (_, w) => w.value⟩

/-- What stands behind the name. -/
def Line.valueChars (l : Line) : List Char :=
  match l.value with
  | none => []
  | some (g, w) => g.chars ++ w.chars

/-- The characters of an entry, with the gap before it. -/
def Line.chars (l : Line) : List Char := l.before.chars ++ l.name.toList ++ l.valueChars

/-- A script with the choices made in writing it. -/
inductive Document where
  /-- Layout alone. -/
  | blank (tail : Tail)
  /-- A section, with the gaps before and behind its word. -/
  | section (before : Gap) (behind : Gap) (lines : List Line) (tail : Tail)

namespace Document

/-- The characters of a document. -/
def chars : Document → List Char
  | .blank tail => tail.chars
  | .section before behind lines tail =>
    before.chars ++ sectionWord ++ behind.chars ++ ':' :: (lines.flatMap Line.chars ++ tail.chars)

/-- The script. -/
def text (d : Document) : String := String.ofList d.chars

/-- That a document writes a configuration down, with the entries of its filter in some order. -/
def Writes : Document → Configuration → Prop
  | .blank _, none => True
  | .section _ _ lines _, some f => (lines.map Line.entry).Perm f.entries
  | _, _ => False

/-- That some layout divides an entry without a value from the entry behind it. -/
def Spaced : Document → Prop
  | .blank _ => True
  | .section _ _ lines _ => lines.IsChain fun l l' => l.value = none → l'.before ≠ []

end Document

/-! ### Layout is layout -/

/-- A piece is layout, whatever follows it. -/
theorem layout_piece (p : Piece) (rest : List Char) : Layout (p.chars ++ rest) rest := by
  cases p with
  | blank b =>
    refine .blank ?_ (.none rest)
    cases b <;> simp [Blank.char]
  | comment t e =>
    -- either end of a line is a blank, or two, behind the comment
    cases e with
    | lineFeed =>
      have hend : Layout ('\n' :: rest) rest := .blank (by decide) (.none rest)
      simpa [Piece.chars, LineBreak.chars] using Layout.comment t.free (.lineFeed rest) hend
    | carriageReturn =>
      have hend : Layout ('\r' :: '\n' :: rest) rest :=
        .blank (by decide) (.blank (by decide) (.none rest))
      simpa [Piece.chars, LineBreak.chars] using Layout.comment t.free (.carriageReturn rest) hend

/-- So is a gap. -/
theorem layout_gap (g : Gap) (rest : List Char) : Layout (g.chars ++ rest) rest := by
  -- piece by piece
  induction g with
  | nil => exact .none rest
  | cons p g ih =>
    rw [Gap.chars, List.flatMap_cons, List.append_assoc]
    exact (layout_piece p _).trans ih

/-- The layout at the end goes up to the end. -/
theorem layout_tail (t : Tail) : Layout t.chars [] := by
  rw [Tail.chars]
  refine (layout_gap t.gap _).trans ?_
  cases t.comment with
  | none => exact .none []
  | some c => simpa using Layout.comment c.free .text (.none [])

/-! ### Where names stop -/

/-- That no name goes on here. -/
def StopsName (rest : List Char) : Prop := ∀ d ∈ rest.head?, ¬ (d.isAlphanum ∨ d = '_')

theorem stopsName_nil : StopsName [] := by simp [StopsName]

theorem stopsName_cons {c : Char} {rest : List Char} (h : ¬ (c.isAlphanum ∨ c = '_')) :
    StopsName (c :: rest) := by
  intro d hd
  obtain rfl : c = d := Option.some.inj hd
  exact h

theorem stopsName_piece (p : Piece) (rest : List Char) : StopsName (p.chars ++ rest) := by
  cases p with
  | blank b => cases b <;> exact stopsName_cons (by decide)
  | comment t e => exact stopsName_cons (by decide)

/-- A gap stops a name if there is anything in it. -/
theorem stopsName_gap_of_ne_nil {g : Gap} (h : g ≠ []) (rest : List Char) :
    StopsName (g.chars ++ rest) := by
  cases g with
  | nil => contradiction
  | cons p g =>
    rw [Gap.chars, List.flatMap_cons, List.append_assoc]
    exact stopsName_piece p _

/-- An empty gap stops a name if what follows it does. -/
theorem stopsName_gap (g : Gap) {rest : List Char} (h : StopsName rest) :
    StopsName (g.chars ++ rest) := by
  by_cases hg : g = []
  · subst hg
    exact h
  · exact stopsName_gap_of_ne_nil hg rest

/-- The layout at the end stops a name, also where there is none. -/
theorem stopsName_tail (t : Tail) : StopsName t.chars := by
  refine stopsName_gap t.gap ?_
  cases t.comment with
  | none => exact stopsName_nil
  | some c => exact stopsName_cons (by decide)

theorem stopsName_written (w : Written) (rest : List Char) : StopsName (w.chars ++ rest) := by
  cases w with
  | text s => exact stopsName_cons (by decide)
  | list items trailing close => exact stopsName_cons (by decide)

/-! ### Values are values -/

/-- A character that is spelled is read back, in either spelling. -/
theorem quoted_glyph (g : Glyph) {cs t rest : List Char} (h : Quoted cs t rest) :
    Quoted (g.chars ++ cs) (g.char :: t) rest := by
  -- one case for each branch of the spelling
  unfold Glyph.chars
  split
  · next hc => exact hc ▸ .escape .quote h
  · next hq =>
    split
    · next hc => exact hc ▸ .escape .backslash h
    · next hb =>
      split
      · -- from here on the escape was chosen, or the character stands for itself
        next hc => exact hc.1 ▸ .escape .lineFeed h
      · split
        · next hc => exact hc.1 ▸ .escape .tab h
        · exact .plain hq hb h

/-- A text that is spelled is read back. -/
theorem quoted_spelling (s : Spelling) (rest : List Char) :
    Quoted (s.flatMap Glyph.chars ++ '"' :: rest) (s.map Glyph.char) rest := by
  -- character by character, up to the quote
  induction s with
  | nil => exact .close rest
  | cons g s ih =>
    rw [List.flatMap_cons, List.append_assoc, List.map_cons]
    exact quoted_glyph g ih

/-- What is left of a list behind its first item. -/
theorem moreItems_itemsChars (i : Item) (is : List Item) (trailing : Bool) (close : Gap)
    (rest : List Char) :
    ∃ more, itemsChars trailing (i :: is) ++ close.chars ++ ']' :: rest =
        i.before.chars ++ '"' :: (i.spelling.flatMap Glyph.chars ++ '"' :: more) ∧
      MoreItems more (is.map fun j => j.spelling.text) rest := by
  -- by induction on the items behind the first, for any first one: it says where the comma stands
  induction is generalizing i with
  | nil =>
    -- the last item: a trailing comma stands between its gap and the gap of the bracket
    refine ⟨i.after.chars ++ ((if trailing then [','] else []) ++ close.chars ++ ']' :: rest),
      by simp [itemsChars, Item.chars, Spelling.chars], ?_⟩
    cases trailing with
    | false => exact .close ((layout_gap i.after _).trans (layout_gap close _))
    | true => exact .trailing (layout_gap i.after _) (layout_gap close _)
  | cons j is ih =>
    -- the comma belongs to what follows, and the next item brings its own rest
    obtain ⟨more, heq, hmore⟩ := ih j
    refine ⟨i.after.chars ++ ',' :: (itemsChars trailing (j :: is) ++ close.chars ++ ']' :: rest),
      by simp [itemsChars, Item.chars, Spelling.chars], ?_⟩
    rw [heq]
    exact .item (layout_gap i.after _) (layout_gap j.before _) (quoted_spelling _ _) hmore

/-- The items of a list are read back, up to its bracket. -/
theorem items_itemsChars (is : List Item) (trailing : Bool) (close : Gap) (rest : List Char) :
    Items (itemsChars trailing is ++ close.chars ++ ']' :: rest)
      (is.map fun j => j.spelling.text) rest := by
  cases is with
  | nil => exact .empty (layout_gap close _)
  | cons i is =>
    obtain ⟨more, heq, hmore⟩ := moreItems_itemsChars i is trailing close rest
    rw [heq]
    exact .item (layout_gap i.before _) (quoted_spelling _ _) hmore

/-- A value that is written is read back. -/
theorem value_written (w : Written) (rest : List Char) :
    Grammar.Value (w.chars ++ rest) w.value rest := by
  cases w with
  | text s =>
    have hq := quoted_spelling s rest
    simpa [Written.chars, Spelling.chars, Written.value, Spelling.text] using Grammar.Value.text hq
  | list items trailing close =>
    have hi := items_itemsChars items trailing close rest
    simpa [Written.chars, Written.value] using Grammar.Value.list hi

/-! ### Entries are entries -/

/-- Whether a text is a name. -/
def isName : List Char → Bool
  | [] => false
  | c :: cs => startsName c && cs.all continuesName

/-- A name is read back where something stops it. -/
theorem name_append {n rest : List Char} (h : isName n = true) (hrest : StopsName rest) :
    Name (n ++ rest) n rest := by
  match n, h with
  | c :: cs, h =>
    rw [isName, Bool.and_eq_true, List.all_eq_true] at h
    exact .intro (startsName_iff.mp h.1) (fun d hd => continuesName_iff.mp (h.2 d hd)) hrest

theorem isName_flagName : isName Filter.flagName.toList = true := by decide

theorem isName_kindName (k : Kind) : isName k.name.toList = true := by cases k <;> decide

theorem Entry.IsProper.isName {e : Entry} (h : e.IsProper) : isName e.name.toList = true := by
  rcases h with rfl | ⟨k, v, rfl⟩
  · exact isName_flagName
  · exact isName_kindName k

/-- The line of an entry is an entry, provided that nothing behind an entry without a value is
taken for a part of its name. -/
theorem entry_line {l : Line} (hl : isName l.name.toList = true) {rest : List Char}
    (hrest : l.value = none → StopsName rest) :
    Grammar.Entry (l.name.toList ++ l.valueChars ++ rest) l.entry rest := by
  rw [List.append_assoc]
  unfold Line.valueChars Line.entry
  cases hv : l.value with
  | none =>
    have hname := name_append hl (hrest hv)
    simpa using Grammar.Entry.flag hname
  | some p =>
    -- a value stops the name by itself, whatever gap there is before it
    obtain ⟨g, w⟩ := p
    have hname := name_append hl (stopsName_gap g (stopsName_written w rest))
    have hentry := Grammar.Entry.valued hname (layout_gap g _) (value_written w rest)
    simpa using hentry

/-- Lines with layout where it is needed are entries. -/
theorem entries_lines {lines : List Line} (hn : ∀ l ∈ lines, isName l.name.toList = true)
    (hs : lines.IsChain fun l l' => l.value = none → l'.before ≠ []) (t : Tail) :
    Entries (lines.flatMap Line.chars ++ t.chars) (lines.map Line.entry) t.chars := by
  -- by induction on the lines; each of them has to end where the text of the next one begins
  induction lines with
  | nil => exact .none _
  | cons l ls ih =>
    have hl : isName l.name.toList = true := hn l List.mem_cons_self
    have hrest : l.value = none → StopsName (ls.flatMap Line.chars ++ t.chars) := by
      intro hv
      cases ls with
      | nil => exact stopsName_tail t
      | cons l' ls =>
        -- two names would run together here, but for the layout that is asked for
        have hgap : l'.before ≠ [] := (List.isChain_cons_cons.mp hs).1 hv
        rw [List.flatMap_cons, Line.chars, List.append_assoc, List.append_assoc, List.append_assoc]
        exact stopsName_gap_of_ne_nil hgap _
    have hentries := ih (fun l' hl' => hn l' (List.mem_cons_of_mem l hl'))
      (List.isChain_cons.mp hs).2
    have hline := Entries.entry (layout_gap l.before _) (entry_line hl hrest) hentries
    simpa [Line.chars] using hline

/-! ### Every order can be written -/

/-- A text spelled with as few escapes as possible. -/
def Spelling.plain (s : String) : Spelling := s.toList.map fun c => ⟨c, false⟩

@[simp] theorem Spelling.text_plain (s : String) : (Spelling.plain s).text = s := by
  have hchar : Glyph.char ∘ (fun c => ⟨c, false⟩) = id := rfl
  rw [text, plain, List.map_map, hchar, List.map_id, String.ofList_toList]

/-- The value of an entry, if it has one, without layout. -/
def Written.plain? : Value → Option Written
  | .flag => none
  | .text s => some (.text (.plain s))
  | .list ss => some (.list (ss.map fun s => ⟨[], .plain s, []⟩) false [])

/-- An entry behind one blank. -/
def Line.plain (e : Entry) : Line :=
  ⟨[.blank .space], e.name, (Written.plain? e.value).map fun w => ([], w)⟩

/-- The plain line of an entry writes this entry. -/
theorem Line.entry_plain (e : Entry) : (Line.plain e).entry = e := by
  obtain ⟨name, value⟩ := e
  cases value with
  | flag => rfl
  | text s => simp [Line.plain, Line.entry, Written.plain?, Written.value]
  | list ss => simp [Line.plain, Line.entry, Written.plain?, Written.value, Function.comp_def]

/-- So the plain lines of entries write these entries. -/
theorem map_entry_plain (es : List Entry) : (es.map Line.plain).map Line.entry = es := by
  have hentry : Line.entry ∘ Line.plain = id := funext Line.entry_plain
  rw [List.map_map, hentry, List.map_id]

/-- Lines that all start with layout are divided by layout. -/
theorem isChain_map_plain (es : List Entry) :
    (es.map Line.plain).IsChain fun l l' => l.value = none → l'.before ≠ [] := by
  -- every line but the first stands behind another, and starts with its blank
  induction es with
  | nil => exact .nil
  | cons e es ih =>
    rw [List.map_cons, List.isChain_cons]
    refine ⟨fun l hl _ => ?_, ih⟩
    obtain ⟨d, -, rfl⟩ := List.mem_map.mp (List.mem_of_mem_head? hl)
    exact List.cons_ne_nil _ _

/-! ### The round trip -/

namespace Document

/-- **Form.** The text of a section has a derivation, with the entries of its lines. -/
theorem script_chars {before behind : Gap} {lines : List Line} {t : Tail}
    (hn : ∀ l ∈ lines, isName l.name.toList = true)
    (hs : (Document.section before behind lines t).Spaced) :
    Grammar.Whole (Document.section before behind lines t).chars
      (some (lines.map Line.entry)) := by
  have hword := layout_gap before (sectionWord ++ behind.chars ++
    ':' :: (lines.flatMap Line.chars ++ t.chars))
  have hcolon := layout_gap behind (':' :: (lines.flatMap Line.chars ++ t.chars))
  refine .section ?_ hcolon (entries_lines hn hs t) (layout_tail t)
  simpa [chars, sectionWord] using hword

/-- The text of a document is a script with the entries of the configuration, in the order in
which they are written. -/
theorem exists_script_of_writes {d : Document} {c : Configuration} (hw : d.Writes c)
    (hs : d.Spaced) :
    ∃ sec, Grammar.Whole d.text.toList sec ∧ configurationOf sec = .ok c := by
  rw [text, String.toList_ofList]
  cases d with
  | blank t =>
    cases c with
    | none => exact ⟨none, .blank (layout_tail t), rfl⟩
    | some f => exact hw.elim
  | «section» before behind lines t =>
    cases c with
    | none => exact hw.elim
    | some f =>
      -- the lines are the entries of the filter, so their names are those of the flag and of
      -- conditions
      have hn : ∀ l ∈ lines, isName l.name.toList = true := by
        intro l hl
        have hmem : l.entry ∈ f.entries := hw.mem_iff.mp (List.mem_map_of_mem hl)
        exact (Filter.isProper_of_mem_entries hmem).isName
      refine ⟨some (lines.map Line.entry), script_chars hn hs, ?_⟩
      rw [configurationOf, Filter.filterOf_of_perm hw]
      rfl

/-- **The round trip.** However a configuration is written down — in whatever order, with
whatever layout and spelling — it is loaded back; and there is an order to choose, since every
order of the entries of a filter can be written. -/
theorem load_text_of_writes :
    (∀ (d : Document) (c : Configuration), d.Writes c → d.Spaced → load d.text = .ok c) ∧
    ∀ (f : Filter) (es : List Entry), es.Perm f.entries →
      ∃ before behind lines t, lines.map Line.entry = es ∧
        (Document.section before behind lines t).Spaced ∧
        (Document.section before behind lines t).Writes (some f) := by
  -- the form of the document gives its entries, and the entries give the filter
  constructor
  · intro d c hw hs
    obtain ⟨sec, hscript, hc⟩ := exists_script_of_writes hw hs
    rw [load_of_script hscript, hc]
    rfl
  · intro f es h
    -- one line for each entry, with few escapes and no comments
    refine ⟨[], [], es.map Line.plain, ⟨[], none⟩, map_entry_plain es, isChain_map_plain es, ?_⟩
    change ((es.map Line.plain).map Line.entry).Perm f.entries
    rwa [map_entry_plain]

/-- A filter written with comments, an ending of either kind, escapes, a trailing comma and the
flag between its conditions. -/
def laidOut : Document :=
  .section [.comment ⟨"two conditions".toList, by simp⟩ .carriageReturn] [.blank .tab]
    [⟨[], "containsOneOf", some ([], .list [⟨[], [⟨'"', false⟩], [.blank .lineFeed]⟩] true [])⟩,
      ⟨[.blank .space], "caseInsensitive", none⟩,
      ⟨[.comment ⟨"\"".toList, by simp⟩ .lineFeed], "equals",
        some ([], .text [⟨'\n', true⟩, ⟨'\\', false⟩])⟩]
    ⟨[], some ⟨"end".toList, by simp⟩⟩

theorem load_text_of_writes_layout :
    laidOut.text = "#two conditions\r\npath\t:containsOneOf[\"\\\"\"\n,] caseInsensitive#\"\n" ++
      "equals\"\\n\\\\\"#end" ∧
    load laidOut.text = .ok (some (Filter.build
      [.ignoreCase true, .condition .equals "\n\\", .condition .containsOneOf ["\""]])) := by
  refine ⟨by decide +kernel, load_text_of_writes.1 laidOut _ ?_ ?_⟩
  · change List.Perm _ _
    decide +kernel
  · change List.IsChain _ _
    simp

end Document

end PathFilter.Script
