import PathFilter.Json.Skip
import PathFilter.Proofs.Json.Text

/-!
# Passing over values

An unknown member is ignored together with its value, so it matters that passing over a value ends
exactly where the value does: `skipValue` succeeds on the values of the grammar, of any nesting,
and leaves what stands behind them (`skipValue_eq_ok_iff`).

The reader keeps the brackets that are open in a list, and the grammar nests. The two are tied
together by what is still to come.

* From the grammar to the reader: a value may be dropped from what is to be passed over, whatever
  brackets are open, and the rest of an array or object may be dropped together with its bracket
  (`Part.Passed`, `Grammar.Spells.passed`).
* From the reader to the grammar: the open brackets are a debt to the text (`Closes`), which a
  stretch pays in part and hands on (`Onward.Leads`). A stretch that leads to the end has a value
  behind it (`leads_of_beginValue`).
-/

namespace PathFilter.Json

open Grammar (Blanks Quoted Key Part Spells)
open Grammar (Digits WholePart FractionPart ExponentPart Unsigned Number)

/-! ### Numbers -/

/-- What is dropped are digits, all that there are. -/
theorem digits_dropWhile (cs : List Char) : Digits cs (cs.dropWhile Char.isDigit) := by
  induction cs with
  | nil => exact .done (by simp)
  | cons c cs ih =>
    rw [List.dropWhile_cons]
    split
    · next hc => exact .digit hc ih
    · next hc => exact .done (by simpa using hc)

/-- Digits end at one place only, since the grammar asks for all of them. -/
theorem dropWhile_of_digits {cs rest : List Char} (h : Digits cs rest) :
    cs.dropWhile Char.isDigit = rest := by
  induction h with
  | @done rest h =>
    cases rest with
    | nil => rfl
    | cons c cs => rw [List.dropWhile_cons_of_neg (by rw [h c rfl]; exact Bool.false_ne_true)]
  | digit hc _ ih => rw [List.dropWhile_cons_of_pos hc, ih]

/-- The look-ahead of the readers, as a form of the text. -/
theorem any_isDigit_head?_iff {cs : List Char} :
    cs.head?.any Char.isDigit = true ↔ ∃ c t, cs = c :: t ∧ c.isDigit = true := by
  cases cs <;> simp

/-- What is passed over before the point is a zero alone, or digits that start with another one. -/
theorem wholePart_of_skipWhole {cs rest : List Char} (h : skipWhole cs = .ok rest) :
    WholePart cs rest := by
  cases cs with
  | nil => contradiction
  | cons c cs =>
    rw [skipWhole] at h
    split at h
    · -- a zero, with no digit behind it
      next hc =>
      split at h
      · contradiction
      · next hd =>
        obtain rfl : cs = rest := Except.ok.inj h
        exact hc ▸ .zero fun d hm => by simpa [Option.mem_def.mp hm] using hd
    · next h0 =>
      split at h
      · next hc => exact Except.ok.inj h ▸ .digits hc h0 (digits_dropWhile cs)
      · contradiction

/-- The digits before the point are passed over as the grammar has them. -/
theorem skipWhole_eq_ok_iff {cs rest : List Char} :
    skipWhole cs = .ok rest ↔ WholePart cs rest := by
  refine ⟨wholePart_of_skipWhole, fun h => ?_⟩
  cases h with
  | zero hd =>
    -- a digit behind the zero would be a fault
    rw [skipWhole, if_pos rfl, if_neg]
    rw [any_isDigit_head?_iff]
    rintro ⟨c, t, rfl, hc⟩
    exact Bool.false_ne_true ((hd c rfl).symm.trans hc)
  | digits hc h0 hd => rw [skipWhole, if_neg h0, if_pos hc, dropWhile_of_digits hd]

/-- What is passed over behind the digits is a point with digits, or nothing where no point stands.
-/
theorem fractionPart_of_skipFraction {cs rest : List Char} (h : skipFraction cs = .ok rest) :
    FractionPart cs rest := by
  cases cs with
  | nil => exact Except.ok.inj h ▸ .none (by simp)
  | cons c cs =>
    rw [skipFraction] at h
    split at h
    · next hc =>
      split at h
      · -- a point, which wants a digit behind it
        next hd =>
        obtain ⟨d, t, rfl, hdigit⟩ := any_isDigit_head?_iff.mp hd
        rw [List.dropWhile_cons_of_pos hdigit] at h
        exact hc ▸ Except.ok.inj h ▸ .some hdigit (digits_dropWhile t)
      · contradiction
    · next hc => exact Except.ok.inj h ▸ .none (by simpa using hc)

/-- The fraction is passed over as the grammar has it. -/
theorem skipFraction_eq_ok_iff {cs rest : List Char} :
    skipFraction cs = .ok rest ↔ FractionPart cs rest := by
  refine ⟨fractionPart_of_skipFraction, fun h => ?_⟩
  cases h with
  -- no fraction: the text may end here, or go on with anything but a point
  | none hd =>
    cases cs with
    | nil => rfl
    | cons c cs => rw [skipFraction, if_neg (hd c rfl)]
  | some hc hd =>
    rw [skipFraction, if_pos rfl, if_pos (any_isDigit_head?_iff.mpr ⟨_, _, rfl, hc⟩),
      List.dropWhile_cons_of_pos hc, dropWhile_of_digits hd]

/-- What a sign is taken off is a sign and the rest. -/
theorem exists_sign (cs : List Char) :
    ∃ sign ∈ [[], ['-'], ['+']], cs = sign ++ (readSign cs).2 := by
  unfold readSign
  split
  · exact ⟨['-'], by simp, rfl⟩
  · exact ⟨['+'], by simp, rfl⟩
  · exact ⟨[], by simp, rfl⟩

/-- A sign is taken off in front of a digit, whichever it is. -/
theorem readSign_append {sign cs : List Char} {c : Char} (hs : sign ∈ [[], ['-'], ['+']])
    (hc : c.isDigit = true) : (readSign (sign ++ c :: cs)).2 = c :: cs := by
  simp only [List.mem_cons, List.not_mem_nil, or_false] at hs
  rcases hs with rfl | rfl | rfl
  · -- a digit is no sign
    unfold readSign
    split
    · next heq => cases heq; contradiction
    · next heq => cases heq; contradiction
    · rfl
  · rfl
  · rfl

theorem opensExponent_iff {c : Char} : opensExponent c = true ↔ c = 'e' ∨ c = 'E' := by
  rw [opensExponent, Bool.or_eq_true, beq_iff_eq, beq_iff_eq]

/-- What is passed over as an exponent is one with its sign, or nothing where none opens. -/
theorem exponentPart_of_skipExponent {cs rest : List Char} (h : skipExponent cs = .ok rest) :
    ExponentPart cs rest := by
  cases cs with
  | nil => exact Except.ok.inj h ▸ .none (by simp)
  | cons e cs =>
    rw [skipExponent] at h
    split at h
    -- the letter of an exponent, perhaps a sign, and then at least one digit
    · next he =>
      obtain ⟨sign, hs, hcs⟩ := exists_sign cs
      split at h
      · contradiction
      · next d ds hds =>
        split at h
        · next hd =>
          rw [hcs, hds]
          exact Except.ok.inj h ▸ .some (opensExponent_iff.mp he) hs hd (digits_dropWhile ds)
        · contradiction
    · next he =>
      -- another character: there is no exponent, and nothing is passed over
      rw [opensExponent_iff, not_or] at he
      exact Except.ok.inj h ▸ .none (by simpa using he)

/-- The exponent is passed over as the grammar has it. -/
theorem skipExponent_eq_ok_iff {cs rest : List Char} :
    skipExponent cs = .ok rest ↔ ExponentPart cs rest := by
  refine ⟨exponentPart_of_skipExponent, fun h => ?_⟩
  cases h with
  -- no exponent: the text may end here, or go on with anything but its letter
  | none hd =>
    cases cs with
    | nil => rfl
    | cons c cs =>
      rw [skipExponent, if_neg]
      rw [opensExponent_iff, not_or]
      exact hd c rfl
  | some he hs hc hd =>
    -- the sign is read off, and what is left starts with a digit
    rw [skipExponent, if_pos (opensExponent_iff.mpr he), readSign_append hs hc]
    change (if _ then _ else _) = _
    rw [if_pos hc, dropWhile_of_digits hd]

/-- A number without its sign is passed over part by part. -/
theorem skipNumber_eq_ok_iff {cs rest : List Char} :
    skipNumber cs = .ok rest ↔ Unsigned cs rest := by
  constructor
  · intro h
    -- the three parts follow each other, each starting where the one before has ended
    obtain ⟨ds, hw, h⟩ := bind_eq_ok h
    obtain ⟨es, hf, hx⟩ := bind_eq_ok h
    exact .intro (skipWhole_eq_ok_iff.mp hw) (skipFraction_eq_ok_iff.mp hf)
      (skipExponent_eq_ok_iff.mp hx)
  · rintro ⟨hw, hf, hx⟩
    rw [skipNumber, skipWhole_eq_ok_iff.mpr hw]
    change (do skipExponent (← skipFraction _)) = _
    rw [skipFraction_eq_ok_iff.mpr hf]
    exact skipExponent_eq_ok_iff.mpr hx

/-! ### How values start -/

/-- The characters that a value can start with. -/
def Value.Opens : Value → Char → Prop
  | .null, c => c = 'n'
  | .boolean true, c => c = 't'
  | .boolean false, c => c = 'f'
  | .number, c => c = '-' ∨ c.isDigit = true
  | .text _, c => c = '"'
  | .array _, c => c = '['
  | .object _, c => c = '{'

/-- A number starts with a digit behind its sign. -/
theorem Grammar.Unsigned.exists_digit {cs rest : List Char} (h : Unsigned cs rest) :
    ∃ c t, cs = c :: t ∧ c.isDigit = true := by
  obtain ⟨hw, -, -⟩ := h
  cases hw with
  | zero => exact ⟨_, _, rfl, rfl⟩
  | digits hc => exact ⟨_, _, rfl, hc⟩

/-- A value starts with a character that tells what it is. -/
theorem Grammar.Spells.exists_opens {v : Value} {cs rest : List Char}
    (h : Spells (.value v) cs rest) : ∃ c t, cs = c :: t ∧ v.Opens c := by
  cases h with
  | number h =>
    cases h with
    | positive h =>
      obtain ⟨c, t, rfl, hc⟩ := h.exists_digit
      exact ⟨c, t, rfl, .inr hc⟩
    | negative h => exact ⟨_, _, rfl, .inl rfl⟩
  | _ => exact ⟨_, _, rfl, rfl⟩

/-- No value starts with a character that is no digit and not among the others. -/
theorem Value.Opens.ne {v : Value} {c d : Char} (h : v.Opens c) (hd : d.isDigit = false)
    (hm : d ∉ ['n', 't', 'f', '-', '"', '[', '{']) : c ≠ d := by
  rintro rfl
  simp only [List.mem_cons, List.not_mem_nil, or_false, not_or] at hm
  obtain ⟨hn, ht, hf, hs, hq, ha, ho⟩ := hm
  -- the list names every character that a value can start with, apart from digits
  cases v with
  | null => exact hn h
  | boolean b => cases b <;> [exact hf h; exact ht h]
  | number => rcases h with h | h <;> [exact hs h; exact Bool.false_ne_true (hd.symm.trans h)]
  | text => exact hq h
  | array => exact ha h
  | object => exact ho h

/-- No value starts with a blank. -/
theorem Value.Opens.isBlank_eq_false {v : Value} {c : Char} (h : v.Opens c) :
    isBlank c = false := by
  rw [← Bool.not_eq_true, isBlank_iff]
  simp only [List.mem_cons, List.not_mem_nil, or_false, not_or]
  exact ⟨h.ne (by decide) (by decide), h.ne (by decide) (by decide), h.ne (by decide) (by decide),
    h.ne (by decide) (by decide)⟩

theorem skipBlanks_of_value {v : Value} {cs ds rest : List Char} (hb : Blanks cs ds)
    (hv : Spells (.value v) ds rest) : skipBlanks cs = ds := by
  obtain ⟨c, t, rfl, hc⟩ := hv.exists_opens
  exact skipBlanks_of_blanks_cons hb hc.isBlank_eq_false

/-! ### Values without brackets -/

/-- A number is passed over by its first character, which is a digit or the minus. -/
theorem skipAtom_of_number {c : Char} {cs rest : List Char} (h : Number (c :: cs) rest) :
    skipAtom c cs = .ok rest := by
  generalize hds : c :: cs = ds at h
  cases h with
  | positive h =>
    subst hds
    obtain ⟨d, t, heq, hd⟩ := h.exists_digit
    obtain ⟨rfl, rfl⟩ := List.cons.inj heq
    -- the reader asks for words, quotes and the minus first, and a digit is none of them
    have hne (e : Char) (he : e.isDigit = false) : c ≠ e := by
      rintro rfl
      exact Bool.false_ne_true (he.symm.trans hd)
    rw [skipAtom, if_neg (hne _ rfl), if_neg (hne _ rfl), if_neg (hne _ rfl), if_neg (hne _ rfl),
      if_neg (hne _ rfl), if_pos hd]
    exact skipNumber_eq_ok_iff.mpr h
  | negative h =>
    -- the minus has a branch of its own
    obtain ⟨rfl, rfl⟩ := List.cons.inj hds
    exact skipNumber_eq_ok_iff.mpr h

/-- What is passed over without a bracket is a value of the grammar. -/
theorem exists_of_skipAtom {c : Char} {cs rest : List Char} (h : skipAtom c cs = .ok rest) :
    ∃ v, Spells (.value v) (c :: cs) rest := by
  unfold skipAtom at h
  -- the three words
  split at h
  · next hc =>
    rw [readWord_eq_ok_iff] at h
    exact ⟨.null, hc ▸ h ▸ .null rest⟩
  split at h
  · next hc =>
    rw [readWord_eq_ok_iff] at h
    exact ⟨.boolean true, hc ▸ h ▸ .true rest⟩
  split at h
  · next hc =>
    rw [readWord_eq_ok_iff] at h
    exact ⟨.boolean false, hc ▸ h ▸ .false rest⟩
  split at h
  · next hc =>
    obtain ⟨t, ht⟩ := (skipText_eq_ok_iff.mp h).exists_text
    exact ⟨.text t, hc ▸ .text ht⟩
  -- a number with a minus, and one without, which starts with `c` itself
  split at h
  · next hc => exact ⟨.number, hc ▸ .number (.negative (skipNumber_eq_ok_iff.mp h))⟩
  split at h
  · exact ⟨.number, .number (.positive (skipNumber_eq_ok_iff.mp h))⟩
  · contradiction

/-! ### Keys -/

theorem Grammar.Key.exists_quote {k : Option String} {key ds : List Char} (h : Key key k ds) :
    ∃ q, key = '"' :: q := by
  cases h
  exact ⟨_, rfl⟩

/-- A colon is passed over with the blanks before it. -/
theorem skipColon_eq_ok_iff {cs rest : List Char} :
    skipColon cs = .ok rest ↔ Blanks cs (':' :: rest) := by
  constructor
  · intro h
    unfold skipColon at h
    split at h
    · contradiction
    · next c r hr =>
      split at h
      · next hc => exact Except.ok.inj h ▸ hc ▸ blanks_of_skipBlanks hr
      · contradiction
  · intro h
    rw [skipColon, skipBlanks_of_blanks_cons h rfl]
    rfl

/-- A key is passed over with its colon; the blanks behind the colon are left. -/
theorem skipKey_of_key {k : Option String} {cs key rest : List Char} (hb : Blanks cs key)
    (hk : Key key k rest) : ∃ behind, skipKey cs = .ok behind ∧ Blanks behind rest := by
  -- the quotes, the text between them and the colon belong to the stretch
  obtain ⟨ht, hc, hr⟩ := hk
  refine ⟨_, ?_, hr⟩
  rw [skipKey, skipBlanks_of_blanks_cons hb rfl]
  change (do skipColon (← skipText _)) = _
  rw [skipText_eq_ok_iff.mpr ht.quoted]
  exact skipColon_eq_ok_iff.mpr hc

/-- What is passed over as a key is one, for whatever stands behind the blanks that are left. -/
theorem key_of_skipKey {cs behind : List Char} (h : skipKey cs = .ok behind) :
    ∃ key k, Blanks cs key ∧ ∀ rest, Blanks behind rest → Key key k rest := by
  unfold skipKey at h
  split at h
  · contradiction
  · next c r hr =>
    split at h
    · next hc =>
      -- only the form of the key is known, but a text of that form denotes something or nothing,
      -- and is a key in either case
      obtain ⟨after, ht, h⟩ := bind_eq_ok h
      obtain ⟨k, hk⟩ := (skipText_eq_ok_iff.mp ht).exists_text
      exact ⟨'"' :: r, k, hc ▸ blanks_of_skipBlanks hr,
        fun rest hb => .intro hk (skipColon_eq_ok_iff.mp h) hb⟩
    · contradiction

/-! ### From the grammar to the reader -/

/-- Goes on where a stretch has led to. -/
def Onward.finish : Onward → Except Fault (List Char)
  | .done rest => .ok rest
  | .value brackets rest => skipFrom brackets rest

/-- Passes over everything behind a value inside the given brackets, up to the last of them. -/
def resume (bs : List Bracket) (cs : List Char) : Except Fault (List Char) :=
  settle bs cs >>= Onward.finish

/-- Passing over is one stretch, and going on from where it led to. -/
theorem skipFrom_eq_bind (bs : List Bracket) (cs : List Char) :
    skipFrom bs cs = beginValue bs cs >>= Onward.finish := by
  rw [skipFrom]
  split
  · next f h => rw [h]; rfl
  · next rest h => rw [h]; rfl
  · next next rest h => rw [h]; rfl

theorem skipFrom_of_blanks {bs : List Bracket} {cs ds : List Char} (h : Blanks cs ds) :
    skipFrom bs cs = skipFrom bs ds := by
  rw [skipFrom_eq_bind, skipFrom_eq_bind, beginValue, beginValue, skipBlanks_of_blanks h]

section Brackets

variable {outer : List Bracket} {cs rest : List Char}

/-- The bracket of an array is closed, and the passing over goes on behind it. -/
theorem resume_array_close (hb : Blanks cs (']' :: rest)) :
    resume (.array :: outer) cs = resume outer rest := by
  rw [resume, settle, skipBlanks_of_blanks_cons hb rfl]
  rfl

theorem resume_array_comma (hb : Blanks cs (',' :: rest)) :
    resume (.array :: outer) cs = skipFrom (.array :: outer) rest := by
  rw [resume, settle, skipBlanks_of_blanks_cons hb rfl]
  rfl

theorem resume_object_close (hb : Blanks cs ('}' :: rest)) :
    resume (.object :: outer) cs = resume outer rest := by
  rw [resume, settle, skipBlanks_of_blanks_cons hb rfl]
  rfl

/-- Behind a comma comes a key, which is passed over too, and then a value. -/
theorem resume_object_comma {k : Option String} {next key : List Char}
    (hb : Blanks cs (',' :: next)) (hn : Blanks next key) (hk : Key key k rest) :
    resume (.object :: outer) cs = skipFrom (.object :: outer) rest := by
  obtain ⟨behind, hskip, hr⟩ := skipKey_of_key hn hk
  rw [resume, settle, skipBlanks_of_blanks_cons hb rfl]
  change (skipKey next).map (.value (.object :: outer)) >>= Onward.finish = _
  rw [hskip]
  exact skipFrom_of_blanks hr

theorem skipFrom_emptyArray (hb : Blanks cs (']' :: rest)) :
    skipFrom outer ('[' :: cs) = resume outer rest := by
  have henter : beginValue outer ('[' :: cs) = enterArray outer cs := rfl
  rw [skipFrom_eq_bind, henter, enterArray, skipBlanks_of_blanks_cons hb rfl]
  rfl

/-- An array with elements opens its bracket before the first of them. -/
theorem skipFrom_array {v : Value} {ds : List Char} (hb : Blanks cs ds)
    (hv : Spells (.value v) ds rest) :
    skipFrom outer ('[' :: cs) = skipFrom (.array :: outer) ds := by
  have henter : beginValue outer ('[' :: cs) = enterArray outer cs := rfl
  obtain ⟨c, t, rfl, hc⟩ := hv.exists_opens
  rw [skipFrom_eq_bind, henter, enterArray, skipBlanks_of_value hb hv]
  change (if c = ']' then _ else _) >>= Onward.finish = _
  -- no element starts with the closing bracket, so the array is not taken for an empty one
  rw [if_neg (hc.ne (by decide) (by decide))]
  rfl

theorem skipFrom_emptyObject (hb : Blanks cs ('}' :: rest)) :
    skipFrom outer ('{' :: cs) = resume outer rest := by
  have henter : beginValue outer ('{' :: cs) = enterObject outer cs := rfl
  rw [skipFrom_eq_bind, henter, enterObject, skipBlanks_of_blanks_cons hb rfl]
  rfl

/-- An object with members opens its bracket and passes over the first key. -/
theorem skipFrom_object {k : Option String} {key : List Char} (hb : Blanks cs key)
    (hk : Key key k rest) : skipFrom outer ('{' :: cs) = skipFrom (.object :: outer) rest := by
  have henter : beginValue outer ('{' :: cs) = enterObject outer cs := rfl
  obtain ⟨behind, hskip, hr⟩ := skipKey_of_key (.none key) hk
  cases hk with
  | intro ht hc hr' =>
    rw [skipFrom_eq_bind, henter, enterObject, skipBlanks_of_blanks_cons hb rfl]
    change (skipKey _).map (.value (.object :: outer)) >>= Onward.finish = _
    rw [hskip]
    exact skipFrom_of_blanks hr

/-- A value without a bracket is dropped at once, and what is around it goes on. -/
theorem skipFrom_atom {c : Char} (hblank : isBlank c = false) (ha : c ≠ '[') (ho : c ≠ '{')
    (h : skipAtom c cs = .ok rest) : skipFrom outer (c :: cs) = resume outer rest := by
  rw [skipFrom_eq_bind, beginValue, skipBlanks_of_blanks_cons (.none _) hblank]
  change (if c = '[' then _ else if c = '{' then _ else do settle outer (← skipAtom c cs)) >>=
    Onward.finish = _
  rw [if_neg ha, if_neg ho, h]
  rfl

end Brackets

/-- That a part of a text may be dropped from what is to be passed over: a value wherever it
stands, and the rest of an array or object together with the bracket that it closes. -/
def Grammar.Part.Passed : Part → List Char → List Char → Prop
  | .value _, cs, rest => ∀ bs, skipFrom bs cs = resume bs rest
  | .moreElements _, cs, rest => ∀ outer, resume (.array :: outer) cs = resume outer rest
  | .moreMembers _, cs, rest => ∀ outer, resume (.object :: outer) cs = resume outer rest

/-- **Whatever the grammar spells is passed over**, by induction on the derivation. -/
theorem Grammar.Spells.passed {p : Part} {cs rest : List Char} (h : Spells p cs rest) :
    p.Passed cs rest := by
  induction h with
  | null rest =>
    exact fun bs => skipFrom_atom rfl (by decide) (by decide) (readWord_eq_ok_iff.mpr rfl)
  | true rest =>
    exact fun bs => skipFrom_atom rfl (by decide) (by decide) (readWord_eq_ok_iff.mpr rfl)
  | false rest =>
    exact fun bs => skipFrom_atom rfl (by decide) (by decide) (readWord_eq_ok_iff.mpr rfl)
  | number h =>
    intro bs
    have hv : Spells (.value .number) _ _ := .number h
    obtain ⟨c, t, rfl, hc⟩ := hv.exists_opens
    -- a digit or a minus is no blank and no bracket
    refine skipFrom_atom hc.isBlank_eq_false ?_ ?_ (skipAtom_of_number h)
    · rintro rfl
      exact absurd hc (by simp [Value.Opens])
    · rintro rfl
      exact absurd hc (by simp [Value.Opens])
  | text h =>
    intro bs
    exact skipFrom_atom rfl (by decide) (by decide) (skipText_eq_ok_iff.mpr h.quoted)
  -- a bracket is opened, what is inside it is dropped, and the bracket with the rest of it
  | emptyArray hb => exact fun bs => skipFrom_emptyArray hb
  | array hb hv _ ihv ihm =>
    intro bs
    rw [skipFrom_array hb hv, ihv, ihm]
  | emptyObject hb => exact fun bs => skipFrom_emptyObject hb
  | object hb hk _ _ ihv ihm =>
    intro bs
    rw [skipFrom_object hb hk, ihv, ihm]
  | closeArray hb => exact fun outer => resume_array_close hb
  | element hb hn _ _ ihv ihm =>
    intro outer
    rw [resume_array_comma hb, skipFrom_of_blanks hn, ihv, ihm]
  | closeObject hb => exact fun outer => resume_object_close hb
  | member hb hn hk _ _ ihv ihm =>
    intro outer
    rw [resume_object_comma hb hn hk, ihv, ihm]

/-! ### From the reader to the grammar -/

/-- What open brackets still demand of a text: for each of them the rest of its array or object,
the innermost first. -/
inductive Closes : List Bracket → List Char → List Char → Prop
  | none (cs : List Char) : Closes [] cs cs
  | array {vs : List Value} {outer : List Bracket} {cs mid rest : List Char}
      (h : Spells (.moreElements vs) cs mid) (ho : Closes outer mid rest) :
      Closes (.array :: outer) cs rest
  | object {ms : List Member} {outer : List Bracket} {cs mid rest : List Char}
      (h : Spells (.moreMembers ms) cs mid) (ho : Closes outer mid rest) :
      Closes (.object :: outer) cs rest

/-- That what a stretch leaves to be done ends with `rest`. -/
def Onward.Leads : Onward → List Char → Prop
  | .done left, rest => left = rest
  | .value bs left, rest =>
    ∃ ds v more, Blanks left ds ∧ Spells (.value v) ds more ∧ Closes bs more rest

/-- Settling the bracket of an array pays what it demands, or hands on what is left of it. -/
private theorem closes_array_of_settle {outer : List Bracket} {cs rest : List Char} {o : Onward}
    (ih : ∀ {ds}, settle outer ds = .ok o → Closes outer ds rest)
    (h : settle (.array :: outer) cs = .ok o) (ho : o.Leads rest) :
    Closes (.array :: outer) cs rest := by
  rw [settle] at h
  split at h
  · contradiction
  · next c r hr =>
    have hb := blanks_of_skipBlanks hr
    split at h
    · -- the debt of this bracket is paid, and the outer ones go on
      next hc => exact .array (.closeArray (hc ▸ hb)) (ih h)
    · split at h
      · -- an element is paid, and what follows it is still owed
        next hc =>
        obtain rfl : Onward.value (.array :: outer) r = o := Except.ok.inj h
        obtain ⟨ds, v, more, hn, hv, hclose⟩ := ho
        cases hclose with
        | array hm ho => exact .array (.element (hc ▸ hb) hn hv hm) ho
      · contradiction

/-- So does settling the bracket of an object. -/
private theorem closes_object_of_settle {outer : List Bracket} {cs rest : List Char} {o : Onward}
    (ih : ∀ {ds}, settle outer ds = .ok o → Closes outer ds rest)
    (h : settle (.object :: outer) cs = .ok o) (ho : o.Leads rest) :
    Closes (.object :: outer) cs rest := by
  rw [settle] at h
  split at h
  · contradiction
  · next c r hr =>
    have hb := blanks_of_skipBlanks hr
    split at h
    -- the debt of this bracket is paid, as that of an array
    · next hc => exact .object (.closeObject (hc ▸ hb)) (ih h)
    · split at h
      · -- the key belongs to the stretch, its value comes after it
        next hc =>
        obtain ⟨behind, hskip, rfl⟩ := map_eq_ok h
        obtain ⟨ds, v, more, hn, hv, hclose⟩ := ho
        obtain ⟨key, k, hkb, hk⟩ := key_of_skipKey hskip
        cases hclose with
        | object hm ho => exact .object (.member (hc ▸ hb) hkb (hk ds hn) hv hm) ho
      · contradiction

/-- **Settling** brackets pays what they demand, or hands on what is left of it. -/
theorem closes_of_settle {bs : List Bracket} {cs rest : List Char} {o : Onward}
    (h : settle bs cs = .ok o) (ho : o.Leads rest) : Closes bs cs rest := by
  -- a bracket that is closed gives way to the one around it, so the induction is on the brackets
  induction bs generalizing cs with
  | nil =>
    obtain rfl : Onward.done cs = o := Except.ok.inj h
    obtain rfl : cs = rest := ho
    exact .none cs
  | cons b outer ih =>
    cases b with
    | array => exact closes_array_of_settle ih h ho
    | object => exact closes_object_of_settle ih h ho

/-- An array is entered: it is empty, or there is a first element and a bracket to be closed behind
it. Either way an array stands where the bracket does. -/
theorem closes_of_enterArray {bs : List Bracket} {cs rest : List Char} {o : Onward}
    (h : enterArray bs cs = .ok o) (ho : o.Leads rest) :
    ∃ vs more, Spells (.value (.array vs)) ('[' :: cs) more ∧ Closes bs more rest := by
  unfold enterArray at h
  split at h
  · contradiction
  · next c r hr =>
    split at h
    · next hc =>
      subst hc
      exact ⟨[], r, .emptyArray (blanks_of_skipBlanks hr), closes_of_settle h ho⟩
    · obtain rfl : Onward.value (.array :: bs) (c :: r) = o := Except.ok.inj h
      obtain ⟨ds, v, more, hn, hv, hclose⟩ := ho
      -- the blanks before the first element were passed over already
      have hds : Blanks cs ds := by
        refine blanks_of_skipBlanks ?_
        rw [← skipBlanks_skipBlanks, hr, skipBlanks_of_value hn hv]
      cases hclose with
      | array hm ho => exact ⟨_, _, .array hds hv hm, ho⟩

/-- An object is entered in the same way, with the key of its first member if it has one. -/
theorem closes_of_enterObject {bs : List Bracket} {cs rest : List Char} {o : Onward}
    (h : enterObject bs cs = .ok o) (ho : o.Leads rest) :
    ∃ ms more, Spells (.value (.object ms)) ('{' :: cs) more ∧ Closes bs more rest := by
  unfold enterObject at h
  split at h
  · contradiction
  · next c r hr =>
    split at h
    · next hc =>
      subst hc
      exact ⟨[], r, .emptyObject (blanks_of_skipBlanks hr), closes_of_settle h ho⟩
    · obtain ⟨behind, hskip, rfl⟩ := map_eq_ok h
      obtain ⟨ds, v, more, hn, hv, hclose⟩ := ho
      obtain ⟨key, k, hkb, hk⟩ := key_of_skipKey hskip
      -- the blanks before the key were passed over already
      have hkey : Blanks cs key := by
        obtain ⟨q, rfl⟩ := (hk ds hn).exists_quote
        refine blanks_of_skipBlanks ?_
        rw [← skipBlanks_skipBlanks, hr, skipBlanks_of_blanks_cons hkb rfl]
      cases hclose with
      | object hm ho => exact ⟨_, _, .object hkey (hk ds hn) hv hm, ho⟩

/-- **One stretch.** If what a stretch leaves to be done can be done, there was a value where it
started. -/
theorem leads_of_beginValue {bs : List Bracket} {cs rest : List Char} {o : Onward}
    (h : beginValue bs cs = .ok o) (ho : o.Leads rest) : (Onward.value bs cs).Leads rest := by
  unfold beginValue at h
  split at h
  · contradiction
  · next c r hr =>
    have hb := blanks_of_skipBlanks hr
    -- the first character says which kind of value the stretch is the beginning of
    split at h
    · next hc =>
      obtain ⟨vs, more, hv, hclose⟩ := closes_of_enterArray h ho
      exact ⟨'[' :: r, .array vs, more, hc ▸ hb, hv, hclose⟩
    split at h
    · next hc =>
      obtain ⟨ms, more, hv, hclose⟩ := closes_of_enterObject h ho
      exact ⟨'{' :: r, .object ms, more, hc ▸ hb, hv, hclose⟩
    -- no bracket is opened, and the open ones are settled at once
    obtain ⟨more, hatom, h⟩ := bind_eq_ok h
    obtain ⟨v, hv⟩ := exists_of_skipAtom hatom
    exact ⟨_, v, more, hb, hv, closes_of_settle h ho⟩

/-- Stretch after stretch, whatever is passed over is a value with the brackets around it. -/
theorem leads_of_skipFrom {bs : List Bracket} {cs rest : List Char}
    (h : skipFrom bs cs = .ok rest) : (Onward.value bs cs).Leads rest := by
  fun_induction skipFrom bs cs with
  | case1 => contradiction
  | case2 bs cs r hr => exact leads_of_beginValue hr (Except.ok.inj h)
  | case3 bs cs next r hr ih => exact leads_of_beginValue hr (ih h)

/-- **What is passed over.** Passing over a value succeeds exactly on the values of the grammar
and leaves what stands behind them. -/
theorem skipValue_eq_ok_iff {cs rest : List Char} :
    skipValue cs = .ok rest ↔ ∃ ds v, Blanks cs ds ∧ Spells (.value v) ds rest := by
  constructor
  · intro h
    obtain ⟨ds, v, more, hb, hv, hclose⟩ := leads_of_skipFrom h
    -- no bracket was open at the start, so nothing is owed behind the value
    cases hclose with
    | none => exact ⟨ds, v, hb, hv⟩
  · rintro ⟨ds, v, hb, hv⟩
    rw [skipValue, skipFrom_of_blanks hb, hv.passed []]
    rfl

end PathFilter.Json
