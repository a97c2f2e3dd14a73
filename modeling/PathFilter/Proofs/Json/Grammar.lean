/-!
# The grammar of JSON texts

What a JSON text writes down is a `Value`, and the form of the text is written down here as a
grammar, apart from the readers that decide it. A rule relates the text at which a construct starts
to the text that is left behind it, so

  `Grammar.Spells (.value v) cs rest`

says that `cs` is the value `v` followed by `rest`. Only the rules for numbers look ahead: each run
of digits goes up to the first character that is no digit, and a part that is left out is not
there to be read.

* `Blanks` — the four blanks, in any number. A derivation may stop anywhere among them.
* `Denotes` and `Quoted` — a text between quotes with the characters that it denotes, and by its
  form alone. A surrogate without its partner has the form and denotes nothing (`Text`).
* `Number` — the numerals.
* `Spells` — values, and what may stand behind an element of an array or a member of an object. The
  three are one family, since each is said in terms of the others.
* `Document` — a whole text.
-/

namespace PathFilter.Json

/-! ### Values -/

/-- A value. Which number is written is not kept, since nothing that is configured is a number.
A text that denotes no characters is `none`, and so is a key. -/
inductive Value where
  | null
  | boolean (b : Bool)
  | number
  | text (t : Option String)
  | array (elements : List Value)
  /-- The members with their keys, in the order in which they are written. -/
  | object (members : List (Option String × Value))

/-- A member of an object: its key and its value. -/
abbrev Member : Type := Option String × Value

namespace Grammar

/-- Blanks between two places of a text. -/
inductive Blanks : List Char → List Char → Prop
  | none (cs : List Char) : Blanks cs cs
  | blank {c : Char} {cs rest : List Char} (hc : c ∈ [' ', '\t', '\n', '\r'])
      (h : Blanks cs rest) : Blanks (c :: cs) rest

/-! ### Texts -/

/-- A hexadecimal digit of either case, and its value. -/
def HexDigit (c : Char) (n : Nat) : Prop :=
  ['0', '1', '2', '3', '4', '5', '6', '7', '8', '9', 'a', 'b', 'c', 'd', 'e', 'f'][n]? = some c ∨
  ['0', '1', '2', '3', '4', '5', '6', '7', '8', '9', 'A', 'B', 'C', 'D', 'E', 'F'][n]? = some c

/-- Four hexadecimal digits, and the number that they write. -/
inductive Hex : List Char → Nat → List Char → Prop
  | intro {a b c d : Char} {i j k l : Nat} (ha : HexDigit a i) (hb : HexDigit b j)
      (hc : HexDigit c k) (hd : HexDigit d l) (rest : List Char) :
      Hex (a :: b :: c :: d :: rest) (0x1000 * i + 0x100 * j + 0x10 * k + l) rest

/-- What a backslash stands for together with the one character behind it. -/
inductive ShortEscape : Char → Char → Prop
  | quote : ShortEscape '"' '"'
  | backslash : ShortEscape '\\' '\\'
  | slash : ShortEscape '/' '/'
  | backspace : ShortEscape 'b' '\x08'
  | formFeed : ShortEscape 'f' '\x0c'
  | lineFeed : ShortEscape 'n' '\n'
  | carriageReturn : ShortEscape 'r' '\r'
  | tab : ShortEscape 't' '\t'

/-- What stands behind `\u`, and the character that it denotes. No character has the number of a
surrogate, so a surrogate needs its partner. -/
inductive UnicodeEscape : List Char → Char → List Char → Prop
  | single {c : Char} {cs rest : List Char} (h : Hex cs c.toNat rest) : UnicodeEscape cs c rest
  /-- A leading surrogate and a trailing one, each in an escape of its own. -/
  | pair {high low : Nat} {c : Char} {cs ds rest : List Char}
      (hx : Hex cs high ('\\' :: 'u' :: ds)) (hy : Hex ds low rest)
      (hhigh : 0xD800 ≤ high ∧ high < 0xDC00) (hlow : 0xDC00 ≤ low ∧ low < 0xE000)
      (hc : c.toNat = 0x10000 + (high - 0xD800) * 0x400 + (low - 0xDC00)) :
      UnicodeEscape cs c rest

/-- What stands behind a backslash, and the character that it denotes. -/
inductive Escape : List Char → Char → List Char → Prop
  | short {e c : Char} (h : ShortEscape e c) (rest : List Char) : Escape (e :: rest) c rest
  | unicode {c : Char} {cs rest : List Char} (h : UnicodeEscape cs c rest) :
      Escape ('u' :: cs) c rest

/-- What may stand behind a backslash, whether it denotes anything or not. -/
inductive EscapeForm : List Char → List Char → Prop
  | short {e c : Char} (h : ShortEscape e c) (rest : List Char) : EscapeForm (e :: rest) rest
  | unicode {n : Nat} {cs rest : List Char} (h : Hex cs n rest) : EscapeForm ('u' :: cs) rest

/-- A text behind its opening quote, up to and with the closing one, and the characters that it
denotes. -/
inductive Denotes : List Char → List Char → List Char → Prop
  | close (rest : List Char) : Denotes ('"' :: rest) [] rest
  | escape {c : Char} {cs more t rest : List Char} (he : Escape cs c more)
      (h : Denotes more t rest) : Denotes ('\\' :: cs) (c :: t) rest
  | plain {c : Char} {cs t rest : List Char} (hq : c ≠ '"') (hb : c ≠ '\\') (hc : 0x20 ≤ c.toNat)
      (h : Denotes cs t rest) : Denotes (c :: cs) (c :: t) rest

/-- A text behind its opening quote, up to and with the closing one, by its form alone. -/
inductive Quoted : List Char → List Char → Prop
  | close (rest : List Char) : Quoted ('"' :: rest) rest
  | escape {cs more rest : List Char} (he : EscapeForm cs more) (h : Quoted more rest) :
      Quoted ('\\' :: cs) rest
  | plain {c : Char} {cs rest : List Char} (hq : c ≠ '"') (hb : c ≠ '\\') (hc : 0x20 ≤ c.toNat)
      (h : Quoted cs rest) : Quoted (c :: cs) rest

/-- A text behind its opening quote, with what it denotes if it denotes anything. -/
inductive Text : List Char → Option String → List Char → Prop
  | some {cs t rest : List Char} (h : Denotes cs t rest) : Text cs (some (String.ofList t)) rest
  | none {cs rest : List Char} (h : Quoted cs rest) (hn : ∀ t r, ¬ Denotes cs t r) :
      Text cs none rest

/-! ### Numbers -/

/-- Digits, up to the first character that is none. -/
inductive Digits : List Char → List Char → Prop
  | done {rest : List Char} (h : ∀ c ∈ rest.head?, c.isDigit = false) : Digits rest rest
  | digit {c : Char} {cs rest : List Char} (hc : c.isDigit = true) (h : Digits cs rest) :
      Digits (c :: cs) rest

/-- The digits before the point. A zero in front stands alone. -/
inductive WholePart : List Char → List Char → Prop
  | zero {rest : List Char} (h : ∀ c ∈ rest.head?, c.isDigit = false) : WholePart ('0' :: rest) rest
  | digits {c : Char} {cs rest : List Char} (hc : c.isDigit = true) (h0 : c ≠ '0')
      (h : Digits cs rest) : WholePart (c :: cs) rest

/-- The fraction, or nothing where no point follows. -/
inductive FractionPart : List Char → List Char → Prop
  | none {rest : List Char} (h : ∀ c ∈ rest.head?, c ≠ '.') : FractionPart rest rest
  | some {c : Char} {cs rest : List Char} (hc : c.isDigit = true) (h : Digits cs rest) :
      FractionPart ('.' :: c :: cs) rest

/-- The exponent, or nothing where no letter of one follows. -/
inductive ExponentPart : List Char → List Char → Prop
  | none {rest : List Char} (h : ∀ c ∈ rest.head?, c ≠ 'e' ∧ c ≠ 'E') : ExponentPart rest rest
  | some {e c : Char} {sign cs rest : List Char} (he : e = 'e' ∨ e = 'E')
      (hs : sign ∈ [[], ['-'], ['+']]) (hc : c.isDigit = true) (h : Digits cs rest) :
      ExponentPart (e :: (sign ++ c :: cs)) rest

/-- A number without its sign. -/
inductive Unsigned : List Char → List Char → Prop
  | intro {cs behindWhole behindFraction rest : List Char} (hw : WholePart cs behindWhole)
      (hf : FractionPart behindWhole behindFraction) (hx : ExponentPart behindFraction rest) :
      Unsigned cs rest

/-- A number. -/
inductive Number : List Char → List Char → Prop
  | positive {cs rest : List Char} (h : Unsigned cs rest) : Number cs rest
  | negative {cs rest : List Char} (h : Unsigned cs rest) : Number ('-' :: cs) rest

/-! ### Values -/

/-- The key of a member with its quotes, its colon, and the blanks around that. -/
inductive Key : List Char → Option String → List Char → Prop
  | intro {k : Option String} {cs after behind rest : List Char} (hk : Text cs k after)
      (hc : Blanks after (':' :: behind)) (hb : Blanks behind rest) : Key ('"' :: cs) k rest

/-- What a stretch of a text can be. -/
inductive Part where
  | value (v : Value)
  /-- What stands behind an element of an array: further elements and the closing bracket. -/
  | moreElements (vs : List Value)
  /-- What stands behind a member of an object: further members and the closing bracket. -/
  | moreMembers (ms : List Member)

/-- What a stretch of a text is, and what is left behind it. -/
inductive Spells : Part → List Char → List Char → Prop
  | null (rest : List Char) : Spells (.value .null) ('n' :: 'u' :: 'l' :: 'l' :: rest) rest
  | true (rest : List Char) :
      Spells (.value (.boolean true)) ('t' :: 'r' :: 'u' :: 'e' :: rest) rest
  | false (rest : List Char) :
      Spells (.value (.boolean false)) ('f' :: 'a' :: 'l' :: 's' :: 'e' :: rest) rest
  | number {cs rest : List Char} (h : Number cs rest) : Spells (.value .number) cs rest
  | text {t : Option String} {cs rest : List Char} (h : Text cs t rest) :
      Spells (.value (.text t)) ('"' :: cs) rest
  | emptyArray {cs rest : List Char} (hb : Blanks cs (']' :: rest)) :
      Spells (.value (.array [])) ('[' :: cs) rest
  | array {v : Value} {vs : List Value} {cs ds more rest : List Char} (hb : Blanks cs ds)
      (hv : Spells (.value v) ds more) (hm : Spells (.moreElements vs) more rest) :
      Spells (.value (.array (v :: vs))) ('[' :: cs) rest
  | emptyObject {cs rest : List Char} (hb : Blanks cs ('}' :: rest)) :
      Spells (.value (.object [])) ('{' :: cs) rest
  | object {k : Option String} {v : Value} {ms : List Member} {cs key ds more rest : List Char}
      (hb : Blanks cs key) (hk : Key key k ds) (hv : Spells (.value v) ds more)
      (hm : Spells (.moreMembers ms) more rest) :
      Spells (.value (.object ((k, v) :: ms))) ('{' :: cs) rest
  | closeArray {cs rest : List Char} (hb : Blanks cs (']' :: rest)) :
      Spells (.moreElements []) cs rest
  | element {v : Value} {vs : List Value} {cs next ds more rest : List Char}
      (hb : Blanks cs (',' :: next)) (hn : Blanks next ds) (hv : Spells (.value v) ds more)
      (hm : Spells (.moreElements vs) more rest) : Spells (.moreElements (v :: vs)) cs rest
  | closeObject {cs rest : List Char} (hb : Blanks cs ('}' :: rest)) :
      Spells (.moreMembers []) cs rest
  | member {k : Option String} {v : Value} {ms : List Member}
      {cs next key ds more rest : List Char} (hb : Blanks cs (',' :: next)) (hn : Blanks next key)
      (hk : Key key k ds) (hv : Spells (.value v) ds more)
      (hm : Spells (.moreMembers ms) more rest) : Spells (.moreMembers ((k, v) :: ms)) cs rest

/-- A whole text: a value between blanks. -/
inductive Document : List Char → Value → Prop
  | intro {v : Value} {cs ds rest : List Char} (hb : Blanks cs ds)
      (hv : Spells (.value v) ds rest) (hr : Blanks rest []) : Document cs v

end Grammar

end PathFilter.Json
