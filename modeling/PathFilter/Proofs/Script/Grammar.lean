import PathFilter.Script.Section

/-!
# The grammar of filter scripts

The form of a script is written down here as a grammar, apart from the readers that decide it. A
rule relates the text at which a construct starts to the text that is left behind it, so

  `Grammar.Entry cs e rest`

says that `cs` is an entry `e` followed by `rest`. Having the rest at hand is what lets a rule
look ahead: a comment is followed by the end of its line without containing it, and a name is not
followed by a further character of a name.

* `Layout` — blanks and comments, in any number and mixture. A derivation may stop anywhere: that
  layout is skipped to its very end is a property of the reader, not of the grammar.
* `Name`, `Quoted`, `Items`, `Value`, `Entry`, `Entries` — the parts of a section.
* `Whole` — a whole text, with its section if it has one.

Nothing in the rules orders the alternatives, so that a text has at most one section is something
to be proved.
-/

namespace PathFilter.Script.Grammar

/-! ### Layout -/

/-- The text behind a comment: nothing, or the end of a line. -/
inductive EndsLine : List Char → Prop
  | text : EndsLine []
  | lineFeed (r : List Char) : EndsLine ('\n' :: r)
  | carriageReturn (r : List Char) : EndsLine ('\r' :: '\n' :: r)

/-- Layout between two places of a text. -/
inductive Layout : List Char → List Char → Prop
  /-- No layout at all. -/
  | none (cs : List Char) : Layout cs cs
  /-- A blank, and more layout. -/
  | blank {c : Char} {cs rest : List Char} (hc : c ∈ [' ', '\t', '\n', '\x0c', '\r'])
      (h : Layout cs rest) : Layout (c :: cs) rest
  /-- A comment up to the end of its line, and more layout. -/
  | comment {t cs rest : List Char} (ht : ∀ c ∈ t, c ≠ '\n' ∧ c ≠ '\r') (he : EndsLine cs)
      (h : Layout cs rest) : Layout ('#' :: (t ++ cs)) rest

/-- Layout behind layout is layout. -/
theorem Layout.trans {cs ds rest : List Char} (h : Layout cs ds) (h' : Layout ds rest) :
    Layout cs rest := by
  induction h with
  | none => exact h'
  | blank hc _ ih => exact .blank hc (ih h')
  | comment ht he _ ih => exact .comment ht he (ih h')

/-! ### Names and quoted texts -/

/-- A name: a letter or an underscore, and letters, digits and underscores up to the first
character that is none of them. -/
inductive Name : List Char → List Char → List Char → Prop
  | intro {c : Char} {n rest : List Char} (hc : c.isAlpha ∨ c = '_')
      (hn : ∀ d ∈ n, d.isAlphanum ∨ d = '_')
      (hrest : ∀ d ∈ rest.head?, ¬ (d.isAlphanum ∨ d = '_')) :
      Name (c :: (n ++ rest)) (c :: n) rest

/-- What a backslash stands for together with the character behind it. -/
inductive Escape : Char → List Char → Prop
  | quote : Escape '"' ['"']
  | backslash : Escape '\\' ['\\']
  | lineFeed : Escape 'n' ['\n']
  | tab : Escape 't' ['\t']
  | other {c : Char} (hc : c ∉ ['"', '\\', 'n', 't']) : Escape c ['\\', c]

/-- A quoted text behind its opening quote, up to and with the closing one. -/
inductive Quoted : List Char → List Char → List Char → Prop
  | close (rest : List Char) : Quoted ('"' :: rest) [] rest
  | escape {c : Char} {u cs t rest : List Char} (hc : Escape c u) (h : Quoted cs t rest) :
      Quoted ('\\' :: c :: cs) (u ++ t) rest
  | plain {c : Char} {cs t rest : List Char} (hq : c ≠ '"') (hb : c ≠ '\\')
      (h : Quoted cs t rest) : Quoted (c :: cs) (c :: t) rest

/-! ### Lists -/

/-- The rest of a list behind one of its items. -/
inductive MoreItems : List Char → List String → List Char → Prop
  | close {cs rest : List Char} (h : Layout cs (']' :: rest)) : MoreItems cs [] rest
  | trailing {cs next rest : List Char} (h : Layout cs (',' :: next))
      (hn : Layout next (']' :: rest)) : MoreItems cs [] rest
  | item {cs next quoted t more rest : List Char} {ts : List String}
      (h : Layout cs (',' :: next)) (hn : Layout next ('"' :: quoted))
      (hq : Quoted quoted t more) (hm : MoreItems more ts rest) :
      MoreItems cs (String.ofList t :: ts) rest

/-- A list behind its opening bracket, up to and with the closing one. -/
inductive Items : List Char → List String → List Char → Prop
  | empty {cs rest : List Char} (h : Layout cs (']' :: rest)) : Items cs [] rest
  | item {cs quoted t more rest : List Char} {ts : List String}
      (h : Layout cs ('"' :: quoted)) (hq : Quoted quoted t more)
      (hm : MoreItems more ts rest) : Items cs (String.ofList t :: ts) rest

/-! ### Entries and sections -/

/-- A value. -/
inductive Value : List Char → Script.Value → List Char → Prop
  | text {cs t rest : List Char} (h : Quoted cs t rest) :
      Value ('"' :: cs) (.text (String.ofList t)) rest
  | list {cs rest : List Char} {ts : List String} (h : Items cs ts rest) :
      Value ('[' :: cs) (.list ts) rest

/-- An entry: a name, and perhaps a value. -/
inductive Entry : List Char → Script.Entry → List Char → Prop
  | flag {cs n rest : List Char} (h : Name cs n rest) :
      Entry cs ⟨String.ofList n, .flag⟩ rest
  | valued {cs n after ds rest : List Char} {v : Script.Value} (h : Name cs n after)
      (hl : Layout after ds) (hv : Value ds v rest) : Entry cs ⟨String.ofList n, v⟩ rest

/-- Entries, each with layout before it. -/
inductive Entries : List Char → List Script.Entry → List Char → Prop
  | none (cs : List Char) : Entries cs [] cs
  | entry {cs ds next rest : List Char} {e : Script.Entry} {es : List Script.Entry}
      (hl : Layout cs ds) (he : Entry ds e next) (h : Entries next es rest) :
      Entries cs (e :: es) rest

/-- A whole script, with the entries of its section if it has one. -/
inductive Whole : List Char → Option (List Script.Entry) → Prop
  | blank {cs : List Char} (h : Layout cs []) : Whole cs .none
  | section {cs word entries rest : List Char} {es : List Script.Entry}
      (h : Layout cs ('p' :: 'a' :: 't' :: 'h' :: word)) (hw : Layout word (':' :: entries))
      (he : Entries entries es rest) (hr : Layout rest []) : Whole cs (some es)

end PathFilter.Script.Grammar
