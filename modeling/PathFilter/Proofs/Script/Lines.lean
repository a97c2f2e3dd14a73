import PathFilter.Proofs.Script.Document
import PathFilter.Proofs.Script.Lockstep

/-!
# The ends of the lines of a script

How a line ends and what a comment says at its end make no difference to what a script is loaded
as, up to two exceptions: a quoted text takes its line feeds with it, and a comment with a carriage
return inside of it is none.

* `Mode` — whether a place lies in a quoted text, in a comment or in neither. The characters before
  it decide, one by one, without any regard to the form of the script.
* `Relined` — that a script is another one with some of its line feeds replaced: outside of comments
  by any layout, at the end of a comment by more comment and the end of a line, and in quoted texts
  by a carriage return and a line feed. Such scripts are read in lockstep (`lockstep_relined`).
* `LoneReturn` — that a carriage return stands in a comment and no line feed behind it. No such text
  is a script (`readScript_of_loneReturn`).

From this follow that comments are inert where they hold no carriage return (`load_comment`), and
that scripts may be taken from one convention of ending lines to the other (`load_crlf`).
-/

namespace PathFilter.Script

open Grammar (EndsLine Layout)

/-! ### Comments, quoted texts, and what is neither -/

/-- What the characters before a place make of it. -/
inductive Mode where
  /-- Neither in a comment nor in a quoted text. -/
  | plain
  | comment
  /-- In a comment, behind a carriage return. -/
  | returned
  | quoted
  /-- In a quoted text, behind the backslash of an escape. -/
  | escaped
  deriving DecidableEq, Repr

namespace Mode

/-- How one more character changes the mode. -/
def next : Mode → Char → Mode
  | .plain, c => if c = '"' then .quoted else if c = '#' then .comment else .plain
  | .comment, c | .returned, c =>
    if c = '\n' then .plain else if c = '\r' then .returned else .comment
  | .quoted, c => if c = '"' then .plain else if c = '\\' then .escaped else .quoted
  | .escaped, _ => .quoted

/-- The mode behind some characters. -/
def after (m : Mode) (cs : List Char) : Mode := cs.foldl next m

/-- Whether the place lies in a quoted text. -/
def isQuoted : Mode → Bool
  | .quoted | .escaped => true
  | .plain | .comment | .returned => false

theorem next_plain {c : Char} (hq : c ≠ '"') (hc : c ≠ '#') : next .plain c = .plain := by
  rw [next, if_neg hq, if_neg hc]

theorem next_comment {c : Char} (hn : c ≠ '\n') (hr : c ≠ '\r') : next .comment c = .comment := by
  rw [next, if_neg hn, if_neg hr]

theorem next_quoted {c : Char} (hq : c ≠ '"') (hb : c ≠ '\\') : next .quoted c = .quoted := by
  rw [next, if_neg hq, if_neg hb]

/-- Blanks leave the plain mode as it is. -/
theorem next_plain_of_isBlank {c : Char} (h : c ∈ [' ', '\t', '\n', '\x0c', '\r']) :
    next .plain c = .plain := by
  refine next_plain ?_ ?_
  · rintro rfl
    exact absurd h (by decide)
  · rintro rfl
    exact absurd h (by decide)

/-- Outside of quoted texts `#` opens a comment, or stands in one. -/
theorem next_hash {m : Mode} (h : m.isQuoted = false) : next m '#' = .comment := by
  cases m with
  | plain | comment | returned => rfl
  | quoted | escaped => contradiction

/-- Behind a carriage return of a comment is where one was just met. -/
theorem eq_return_of_next {m : Mode} {c : Char} (h : next m c = .returned) : c = '\r' := by
  cases m <;> grind [next]

/-- Only a carriage return leads behind a carriage return. -/
theorem getLast?_of_after_eq_returned {cs : List Char} (h : after .plain cs = .returned) :
    cs.getLast? = some '\r' := by
  rcases List.eq_nil_or_concat cs with rfl | ⟨as, c, rfl⟩
  · contradiction
  · rw [List.concat_eq_append, after, List.foldl_append] at h
    rw [List.concat_eq_append, List.getLast?_concat, eq_return_of_next h]

/-- Whether a line feed stands in a quoted text. -/
def meetsLineFeed : Mode → List Char → Bool
  | _, [] => false
  | m, c :: cs => (m.isQuoted && c == '\n') || (m.next c).meetsLineFeed cs

/-- Whether a line feed is met in a quoted text is said by the mode at its place. -/
theorem meetsLineFeed_iff {m : Mode} {cs : List Char} :
    m.meetsLineFeed cs = true ↔ ∃ a b, cs = a ++ '\n' :: b ∧ (m.after a).isQuoted = true := by
  -- along the characters, from any mode
  induction cs generalizing m with
  | nil => simp [meetsLineFeed]
  | cons c cs ih =>
    rw [meetsLineFeed, Bool.or_eq_true, Bool.and_eq_true, beq_iff_eq, ih]
    constructor
    · rintro (⟨hm, rfl⟩ | ⟨a, b, rfl, hm⟩)
      · exact ⟨[], cs, rfl, hm⟩
      · exact ⟨c :: a, b, rfl, hm⟩
    · rintro ⟨a, b, hab, hm⟩
      -- the line feed is the first character, or stands behind it
      cases a with
      | nil =>
        obtain ⟨rfl, rfl⟩ := List.cons.inj hab
        exact .inl ⟨hm, rfl⟩
      | cons d a =>
        obtain ⟨rfl, rfl⟩ := List.cons.inj hab
        exact .inr ⟨a, b, rfl, hm⟩

end Mode

/-- That what follows the text in a script lies in a quoted text. -/
def InQuoted (a : String) : Prop := (Mode.plain.after a.toList).isQuoted = true

instance : DecidablePred InQuoted := fun a =>
  inferInstanceAs (Decidable ((Mode.plain.after a.toList).isQuoted = true))

/-- A character that is met in a quoted text and is followed by more of one lies in a quoted text
itself. -/
theorem Mode.isQuoted_after_cons {m : Mode} {c : Char} {u : List Char} (hm : m.isQuoted = true)
    (h : ∀ v, v <+: u → ((m.next c).after v).isQuoted = true) :
    ∀ v, v <+: c :: u → (m.after v).isQuoted = true := by
  intro v hv
  rcases List.prefix_cons_iff.mp hv with rfl | ⟨w, rfl, hw⟩
  · exact hm
  · exact h w hw

/-- Where a quoted text is read, the mode says so: behind the opening quote and up to the closing
one it is one of the two of quoted texts. -/
theorem Mode.exists_of_quoted {cs t rest : List Char} (h : Grammar.Quoted cs t rest) :
    ∃ u, cs = u ++ '"' :: rest ∧ after .quoted u = .quoted ∧
      ∀ v, v <+: u → (after .quoted v).isQuoted = true := by
  -- unit by unit, from one place behind the opening quote to the next
  induction h with
  | close rest =>
    refine ⟨[], rfl, rfl, ?_⟩
    intro v hv
    obtain rfl := List.prefix_nil.mp hv
    rfl
  | @escape c _ _ _ _ _ _ ih =>
    -- the escaped character may be a quote, and still does not end the text
    obtain ⟨u, rfl, hu, hprefix⟩ := ih
    exact ⟨'\\' :: c :: u, rfl, hu, isQuoted_after_cons rfl (isQuoted_after_cons rfl hprefix)⟩
  | @plain c _ _ _ hq hb _ ih =>
    obtain ⟨u, rfl, hu, hprefix⟩ := ih
    have hnext : next .quoted c = .quoted := next_quoted hq hb
    have hafter : after .quoted (c :: u) = after .quoted u := by
      rw [after, List.foldl_cons, hnext, ← after]
    exact ⟨c :: u, rfl, hafter.trans hu, isQuoted_after_cons rfl (hnext.symm ▸ hprefix)⟩

/-- That a quoted text of the script holds a line feed as it is, and not as an escape. -/
def HasRawLineFeed (s : String) : Prop := ∃ a b : String, s = a ++ "\n" ++ b ∧ InQuoted a

/-- Going through the script finds such a line feed if there is one. -/
theorem hasRawLineFeed_iff {s : String} :
    HasRawLineFeed s ↔ Mode.plain.meetsLineFeed s.toList = true := by
  rw [Mode.meetsLineFeed_iff]
  -- texts on the one side, their characters on the other
  constructor
  · rintro ⟨a, b, rfl, h⟩
    exact ⟨a.toList, b.toList, by simp, h⟩
  · rintro ⟨a, b, hs, h⟩
    refine ⟨String.ofList a, String.ofList b, ?_, ?_⟩
    · rw [← String.toList_inj, hs]
      simp
    · rw [InQuoted, String.toList_ofList]
      exact h

instance : DecidablePred HasRawLineFeed := fun _ => decidable_of_iff' _ hasRawLineFeed_iff

/-! ### Other line ends and comments -/

/-- That the second text is the first with other line ends and comments, seen from a place of the
given mode. The line feeds of quoted texts stay as they are, unless `raw` holds. -/
inductive Relined (raw : Prop) : Mode → List Char → List Char → Prop
  | nil (m : Mode) : Relined raw m [] []
  | cons {m : Mode} {c : Char} {cs ds : List Char} (h : Relined raw (m.next c) cs ds) :
      Relined raw m (c :: cs) (c :: ds)
  /-- A line feed becomes other layout. -/
  | gap {cs ds : List Char} (g : Gap) (hg : g ≠ []) (h : Relined raw .plain cs ds) :
      Relined raw .plain ('\n' :: cs) (g.chars ++ ds)
  /-- The end of a comment becomes more of the comment and the end of a line. -/
  | comment {cs ds : List Char} (t : CommentText) (e : LineBreak) (h : Relined raw .plain cs ds) :
      Relined raw .comment ('\n' :: cs) (t.chars ++ (e.chars ++ ds))
  /-- A line feed of a quoted text gets a carriage return before it. -/
  | quoted {m : Mode} {cs ds : List Char} (hraw : raw) (hm : m.isQuoted = true)
      (h : Relined raw .quoted cs ds) : Relined raw m ('\n' :: cs) ('\r' :: '\n' :: ds)

/-- A comment that has ended is left where it is. -/
theorem afterComment?_of_endsLine {cs : List Char} (he : EndsLine cs) :
    afterComment? cs = some cs :=
  afterComment?_append (List.forall_mem_nil _) he

/-- A character of a comment is passed. -/
theorem afterComment?_cons {c : Char} (hn : c ≠ '\n') (hr : c ≠ '\r') (cs : List Char) :
    afterComment? (c :: cs) = afterComment? cs := by
  have hc : (!isLineEnd c) = true := by simp [isLineEnd, hn, hr]
  have hdrop : (c :: cs).dropWhile (fun c => !isLineEnd c) = cs.dropWhile fun c => !isLineEnd c :=
    List.dropWhile_cons_of_pos hc
  rw [afterComment?, hdrop, ← afterComment?]

/-- At a carriage return without a line feed there is no comment. -/
theorem afterComment?_of_loneReturn {cs : List Char} (h : cs.head? ≠ some '\n') :
    afterComment? ('\r' :: cs) = none := by
  have hend : atLineEnd ('\r' :: cs) = false := by simp [atLineEnd, h]
  rw [afterComment?, List.dropWhile_cons_of_neg (by decide), hend]
  rfl

theorem endsLine_lineBreak (e : LineBreak) (cs : List Char) : EndsLine (e.chars ++ cs) := by
  cases e with
  | lineFeed => exact .lineFeed cs
  | carriageReturn => exact .carriageReturn cs

/-- Layout that is written starts as layout does. -/
theorem exists_opensLayout_of_gap {g : Gap} (hg : g ≠ []) (ds : List Char) :
    ∃ d es, g.chars ++ ds = d :: es ∧ opensLayout d = true := by
  obtain ⟨p, g, rfl⟩ := List.exists_cons_of_ne_nil hg
  rw [Gap.chars, List.flatMap_cons, List.append_assoc]
  cases p with
  | blank b => exact ⟨b.char, _, rfl, by cases b <;> rfl⟩
  | comment t e => exact ⟨'#', _, rfl, rfl⟩

/-- Characters put in front one after the other are put in front at once. -/
theorem Read.prepend_prepend (r : Read (List Char)) (cs ds : List Char) :
    (r.prepend cs).prepend ds = r.prepend (ds ++ cs) := by
  cases r with
  | error f => rfl
  | ok p =>
    show Read.prepend ds (.ok (cs ++ p.1, p.2)) = .ok (ds ++ cs ++ p.1, p.2)
    rw [List.append_assoc]
    rfl

/-- The same characters may be put in front on both sides. -/
theorem Read.Alike.prepend {exact : Prop} {R : List Char → List Char → Prop}
    {r r' : Read (List Char)} {cs ds : List Char} (h : Read.Alike exact R r r')
    (he : exact → cs = ds) : Read.Alike exact R (r.prepend cs) (r'.prepend ds) := by
  cases h with
  | ok ht hrest => exact .ok (fun hexact => by rw [he hexact, ht hexact]) hrest
  | error f g => exact .error f g

/-- Where it does not matter what was found, more may be put in front on the one side. -/
theorem Read.Alike.prepend_of_not {exact : Prop} {R : List Char → List Char → Prop}
    {r r' : Read (List Char)} (h : Read.Alike exact R r r') (hexact : ¬ exact)
    (cs ds es : List Char) : Read.Alike exact R (r.prepend cs) ((r'.prepend ds).prepend es) := by
  rw [Read.prepend_prepend]
  exact h.prepend fun he => absurd he hexact

/-- Where the same character stands outside of comments and quoted texts, two places look alike. -/
theorem Abreast.of_next {P : Mode → List Char → List Char → Prop} {c : Char} {cs ds : List Char}
    (h : P (Mode.next .plain c) cs ds) : Abreast (P .plain) (P .quoted) (c :: cs) (c :: ds) := by
  -- a quote, layout, or neither: the three forms in which places correspond
  by_cases hq : c = '"'
  · subst hq
    exact .quote h
  · cases hc : opensLayout c with
    | true => exact .layout hc hc
    | false =>
      have hne : c ≠ '#' := by
        rintro rfl
        contradiction
      exact .char hc hq (Mode.next_plain hq hne ▸ h)

namespace Relined

variable {raw : Prop} {m : Mode} {c : Char} {cs ds rest : List Char}

theorem refl (raw : Prop) (m : Mode) (cs : List Char) : Relined raw m cs cs := by
  induction cs generalizing m with
  | nil => exact .nil m
  | cons c cs ih => exact .cons (ih _)

theorem append {a : List Char} (h : Relined raw (m.after a) cs ds) :
    Relined raw m (a ++ cs) (a ++ ds) := by
  induction a generalizing m with
  | nil => exact h
  | cons c a ih => exact .cons (ih h)

/-- The two ways to end a line may stand for each other. -/
theorem lineBreak (e : LineBreak) (h : Relined raw .plain cs ds) :
    Relined raw .plain ('\n' :: cs) (e.chars ++ ds) := by
  cases e with
  | lineFeed => exact .cons h
  | carriageReturn =>
    exact .gap [.blank .carriageReturn, .blank .lineFeed] (List.cons_ne_nil _ _) h

/-! ### Lockstep -/

/-- A character other than a line feed is kept. -/
theorem exists_of_cons (h : Relined raw m (c :: cs) ds) (hc : c ≠ '\n') :
    ∃ es, ds = c :: es ∧ Relined raw (m.next c) cs es := by
  cases h with
  | cons h => exact ⟨_, rfl, h⟩
  | gap | comment | quoted => contradiction

theorem eq_nil (h : Relined raw m [] ds) : ds = [] := by
  cases h with
  | nil => rfl

theorem abreast (h : Relined raw .plain cs ds) :
    Abreast (Relined raw .plain) (Relined raw .quoted) cs ds := by
  cases h with
  | nil => exact .done
  | gap g hg h =>
    obtain ⟨d, es, hd, hopen⟩ := exists_opensLayout_of_gap hg _
    rw [hd]
    exact .layout rfl hopen
  | quoted _ hm _ => contradiction
  | cons h => exact .of_next h

/-- Behind a carriage return of a comment a line feed stands on both sides or on neither. -/
theorem returned_cases (h : Relined raw .returned cs ds) :
    (cs.head? ≠ some '\n' ∧ ds.head? ≠ some '\n') ∨
      ∃ es fs, cs = '\n' :: es ∧ ds = '\n' :: fs ∧ Relined raw .plain es fs := by
  -- behind the return both texts go on with the same character, so the line feed is there in both
  -- or in neither
  cases h with
  | nil => exact .inl ⟨by simp, by simp⟩
  | quoted _ hm _ => contradiction
  | @cons _ c es fs h =>
    by_cases hn : c = '\n'
    · subst hn
      exact .inr ⟨es, fs, rfl, rfl, h⟩
    · exact .inl ⟨by simpa using hn, by simpa using hn⟩

/-- **Comments** are left at corresponding places, or are comments on neither side. -/
theorem afterComment?_cases (h : Relined raw .comment cs ds) :
    (afterComment? cs = none ∧ afterComment? ds = none) ∨
      ∃ rest rest', afterComment? cs = some rest ∧ afterComment? ds = some rest' ∧
        Relined raw .plain rest rest' := by
  -- both sides go on over the text of the comment together, up to the first end of a line
  induction cs generalizing ds with
  | nil =>
    obtain rfl := h.eq_nil
    exact .inr ⟨[], [], rfl, rfl, .nil _⟩
  | cons c cs ih =>
    cases h with
    | comment t e h =>
      exact .inr ⟨_, _, afterComment?_of_endsLine (.lineFeed cs),
        afterComment?_append t.free (endsLine_lineBreak e _), h.lineBreak e⟩
    | quoted _ hm _ => contradiction
    | @cons _ _ _ ds h =>
      -- a line feed ends the comment, a return only with a line feed behind it
      by_cases hn : c = '\n'
      · subst hn
        exact .inr ⟨_, _, afterComment?_of_endsLine (.lineFeed cs),
          afterComment?_of_endsLine (.lineFeed ds), .cons h⟩
      · by_cases hr : c = '\r'
        · subst hr
          rcases h.returned_cases with ⟨hcs, hds⟩ | ⟨es, fs, rfl, rfl, hplain⟩
          · exact .inl ⟨afterComment?_of_loneReturn hcs, afterComment?_of_loneReturn hds⟩
          · exact .inr ⟨_, _, afterComment?_of_endsLine (.carriageReturn es),
              afterComment?_of_endsLine (.carriageReturn fs), .cons (.cons hplain)⟩
        · rw [afterComment?_cons hn hr, afterComment?_cons hn hr]
          exact ih (Mode.next_comment hn hr ▸ h)

/-- Where no layout starts on the one side, none starts on the other. -/
theorem skipPiece?_eq_none (h : Relined raw .plain cs ds) (hs : skipPiece? cs = none) :
    skipPiece? ds = none := by
  cases cs with
  | nil =>
    obtain rfl := h.eq_nil
    rfl
  | cons c cs =>
    have hb : isBlank c = false := by
      by_contra hb
      rw [skipPiece?, if_pos (by simpa using hb)] at hs
      contradiction
    -- a blank would have been layout, so the character is none of those that may be replaced
    have hn : c ≠ '\n' := by
      rintro rfl
      contradiction
    obtain ⟨es, rfl, hnext⟩ := h.exists_of_cons hn
    -- a comment that is none on the one side is none on the other
    by_cases hc : c = '#'
    · subst hc
      rw [skipPiece?_hash] at hs ⊢
      rcases afterComment?_cases hnext with ⟨-, hnone⟩ | ⟨rest, rest', hsome, -, -⟩
      · exact hnone
      · rw [hs] at hsome
        contradiction
    · rw [skipPiece?, hb, if_neg Bool.false_ne_true, if_neg hc]

/-- **Layout** is skipped to corresponding places. -/
theorem skipLayout_of_layout (hl : Layout cs rest) (hs : skipPiece? rest = none)
    (h : Relined raw .plain cs ds) : Relined raw .plain rest (skipLayout ds) := by
  -- the induction is on the layout that is skipped on the one side; on the other the reader follows
  -- rule by rule, except that it may have several pieces to skip for one line feed
  induction hl generalizing ds with
  | none cs =>
    rw [skipLayout_eq_self (h.skipPiece?_eq_none hs)]
    exact h
  | blank hc _ ih =>
    cases h with
    | cons h =>
      rw [skipLayout_blank (isBlank_iff.mpr hc)]
      exact ih hs (Mode.next_plain_of_isBlank hc ▸ h)
    | gap g _ h =>
      rw [skipLayout_eq_of_layout (layout_gap g _)]
      exact ih hs h
    | quoted _ hm _ => contradiction
  | comment ht he _ ih =>
    obtain ⟨es, rfl, hnext⟩ := h.exists_of_cons (by decide)
    have hsome := afterComment?_append ht he
    rcases afterComment?_cases hnext with ⟨hnone, -⟩ | ⟨more, more', hmore, hmore', hrest⟩
    · rw [hsome] at hnone
      contradiction
    · obtain rfl := Option.some.inj (hsome.symm.trans hmore)
      rw [skipLayout_of_skipPiece? ((skipPiece?_hash es).trans hmore')]
      exact ih hs hrest

/-- **Quoted texts** are left at corresponding places. What they say is the same if their line feeds
are left as they are. -/
theorem readQuoted_alike (h : Relined raw .quoted cs ds) :
    (readQuoted cs).Alike (¬ raw) (Relined raw .plain) (readQuoted ds) := by
  fun_induction readQuoted cs generalizing ds with
  | case1 =>
    -- the text ends, here or behind a backslash
    obtain rfl := h.eq_nil
    exact .error _ _
  | case2 rest =>
    -- the closing quote
    obtain ⟨rest', rfl, hrest⟩ := h.exists_of_cons (by decide)
    exact .ok (fun _ => rfl) hrest
  | case3 =>
    obtain ⟨es, rfl, hnil⟩ := h.exists_of_cons (by decide)
    obtain rfl := hnil.eq_nil
    exact .error _ _
  | case4 c rest ih =>
    obtain ⟨es, rfl, hescaped⟩ := h.exists_of_cons (by decide)
    cases hescaped with
    | cons hrest => exact (ih hrest).prepend fun _ => rfl
    | quoted hraw _ hrest =>
      -- now the backslash stands before the carriage return, and the line feed for itself
      exact (ih hrest).prepend_of_not (not_not_intro hraw) _ ['\n'] ['\\', '\r']
  | case5 c rest hq hnil hb ih =>
    cases h with
    | @cons _ _ _ ds hrest =>
      have hne : c ≠ '\\' := ne_backslash hnil hb
      rw [readQuoted_cons hq hne]
      exact (ih (Mode.next_quoted hq hne ▸ hrest)).prepend fun _ => rfl
    | quoted hraw _ hrest =>
      exact (ih hrest).prepend_of_not (not_not_intro hraw) _ ['\n'] ['\r']

end Relined

/-- **Other line ends and comments keep two readings in lockstep.** -/
theorem lockstep_relined (raw : Prop) :
    Lockstep (¬ raw) (Relined raw .plain) (Relined raw .quoted) where
  abreast h := h.abreast
  layout h := Relined.skipLayout_of_layout (layout_skipLayout _) (skipPiece?_skipLayout _) h
  quoted h := h.readQuoted_alike

/-! ### Carriage returns in comments -/

/-- That a comment holds a carriage return with no line feed behind it, seen from a place of the
given mode. -/
inductive LoneReturn : Mode → List Char → Prop
  | here {cs : List Char} (h : cs.head? ≠ some '\n') : LoneReturn .comment ('\r' :: cs)
  | later {m : Mode} {c : Char} {cs : List Char} (h : LoneReturn (m.next c) cs) :
      LoneReturn m (c :: cs)

namespace LoneReturn

variable {m : Mode} {c : Char} {cs rest t : List Char}

theorem append {a : List Char} (h : LoneReturn (m.after a) cs) : LoneReturn m (a ++ cs) := by
  induction a generalizing m with
  | nil => exact h
  | cons c a ih => exact .later (ih h)

/-- A comment with a carriage return in it that is not the last thing it says. -/
theorem of_mem_dropLast (hn : '\n' ∉ t) (hr : '\r' ∈ t.dropLast) (cs : List Char) :
    LoneReturn .comment (t ++ cs) := by
  -- along the text: the first carriage return in it has something behind it
  induction t with
  | nil => contradiction
  | cons c t ih =>
    have hc : '\n' ≠ c := List.ne_of_not_mem_cons hn
    have ht : '\n' ∉ t := List.not_mem_of_not_mem_cons hn
    cases t with
    | nil => contradiction
    | cons d t =>
      rw [List.dropLast_cons_cons] at hr
      by_cases hret : c = '\r'
      · subst hret
        have hd : '\n' ≠ d := List.ne_of_not_mem_cons ht
        exact .here (by simpa using hd.symm)
      · have hmem : '\r' ∈ (d :: t).dropLast := (List.mem_cons.mp hr).resolve_left (Ne.symm hret)
        refine .later ?_
        rw [Mode.next_comment (Ne.symm hc) hret]
        exact ih ht hmem

/-- Unless the place lies in a comment, it stands behind the first character. -/
theorem of_cons (h : LoneReturn m (c :: cs)) (hm : m ≠ .comment) : LoneReturn (m.next c) cs := by
  cases h with
  | here _ => contradiction
  | later h => exact h

/-- A comment that ends is not the one. -/
theorem of_endsLine (ht : ∀ c ∈ t, c ≠ '\n' ∧ c ≠ '\r') (he : EndsLine rest)
    (h : LoneReturn .comment (t ++ rest)) : LoneReturn .plain rest := by
  -- along the text of the comment, in which the return does not stand, up to the end of the line
  induction t with
  | cons c t ih =>
    obtain ⟨⟨hn, hr⟩, ht⟩ := List.forall_mem_cons.mp ht
    cases h with
    | here _ => contradiction
    | later h => exact ih ht (Mode.next_comment hn hr ▸ h)
  | nil =>
    cases he with
    | text => nomatch h
    | lineFeed r =>
      cases h with
      | later h => exact .later h
    | carriageReturn r =>
      cases h with
      | here h => exact absurd rfl h
      | later h => exact .later (.later (h.of_cons (by decide)))

/-- It does not stand in layout that a reader skips. -/
theorem of_layout (hl : Layout cs rest) (h : LoneReturn .plain cs) : LoneReturn .plain rest := by
  -- a comment that is skipped ends, so the one with the carriage return comes behind it
  induction hl with
  | none => exact h
  | blank hc _ ih => exact ih (Mode.next_plain_of_isBlank hc ▸ h.of_cons (by decide))
  | comment ht he _ ih => exact ih (of_endsLine ht he (h.of_cons (by decide)))

/-- Nor in a quoted text. -/
theorem of_quoted (hq : Grammar.Quoted cs t rest) (h : LoneReturn .quoted cs) :
    LoneReturn .plain rest := by
  -- unit by unit, none of which is in a comment
  induction hq with
  | close => exact h.of_cons (by decide)
  | escape _ _ ih => exact ih ((h.of_cons (by decide)).of_cons (by decide))
  | plain hq hb _ ih => exact ih (Mode.next_quoted hq hb ▸ h.of_cons (by decide))

theorem abreast (h : LoneReturn .plain cs) :
    Abreast (fun cs ds => cs = ds ∧ LoneReturn .plain cs)
      (fun cs ds => cs = ds ∧ LoneReturn .quoted cs) cs cs := by
  cases cs with
  | nil => exact .done
  | cons c cs =>
    exact .of_next (P := fun m cs ds => cs = ds ∧ LoneReturn m cs) ⟨rfl, h.of_cons (by decide)⟩

theorem readQuoted_alike (h : LoneReturn .quoted cs) :
    (readQuoted cs).Alike True (fun cs ds => cs = ds ∧ LoneReturn .plain cs) (readQuoted cs) := by
  cases hq : readQuoted cs with
  | error f => exact .error f f
  | ok p => exact .ok (fun _ => rfl) ⟨rfl, h.of_quoted (quoted_of_readQuoted hq)⟩

end LoneReturn

/-- A script is read in lockstep with itself, so wherever a reader is in it, a carriage return in
a comment is still to come. -/
theorem lockstep_loneReturn :
    Lockstep True (fun cs ds => cs = ds ∧ LoneReturn .plain cs)
      (fun cs ds => cs = ds ∧ LoneReturn .quoted cs) where
  abreast := by
    rintro cs _ ⟨rfl, h⟩
    exact h.abreast
  layout := by
    rintro cs _ ⟨rfl, h⟩
    exact ⟨rfl, h.of_layout (layout_skipLayout cs)⟩
  quoted := by
    rintro cs _ ⟨rfl, h⟩
    exact h.readQuoted_alike

/-- So no reader comes to the end of the text. -/
theorem readScript_of_loneReturn {cs : List Char} (h : LoneReturn .plain cs) :
    ∃ f, readScript cs = .error f := by
  rcases lockstep_loneReturn.readScript_cases ⟨rfl, h⟩ with ⟨_, _, -, -, -, -, hnil⟩ | ⟨f, _, hf, -⟩
  · nomatch hnil
  · exact ⟨f, hf⟩

/-! ### Loading -/

/-- What is loaded has been read. -/
theorem readScript_of_load {s : String} {c : Configuration} (h : load s = .ok c) :
    ∃ sec, readScript s.toList = .ok sec := by
  rw [load] at h
  cases hr : readScript s.toList with
  | error f =>
    rw [hr] at h
    contradiction
  | ok sec => exact ⟨sec, rfl⟩

/-- With other line ends and comments, and the quoted texts as they are, what can be read is loaded
the same. -/
theorem Relined.load_eq {raw : Prop} {s s' : String} (h : Relined raw .plain s.toList s'.toList)
    (hraw : ¬ raw) (hs : ∃ sec, readScript s.toList = .ok sec) : load s' = load s := by
  obtain ⟨sec, hsec⟩ := hs
  rcases (lockstep_relined raw).readScript_cases h with ⟨a, b, ha, hb, hab, -⟩ | ⟨f, _, hf, -⟩
  · rw [load, load, ha, hb, hab hraw]
  · rw [hsec] at hf
    contradiction

/-! ### Comments are inert -/

/-- What a comment may say up to the end of its line, a carriage return before that included. -/
theorem exists_commentText {t : List Char} (hn : '\n' ∉ t) (hr : '\r' ∉ t.dropLast) :
    ∃ (u : CommentText) (e : LineBreak), t ++ ['\n'] = u.chars ++ e.chars := by
  -- a carriage return can only be the last character, and then belongs to the end of the line
  by_cases hmem : '\r' ∈ t
  · obtain ⟨u, c, rfl⟩ := (List.eq_nil_or_concat t).resolve_left (List.ne_nil_of_mem hmem)
    rw [List.concat_eq_append] at hn hr hmem ⊢
    rw [List.dropLast_concat] at hr
    obtain rfl : '\r' = c := by simpa [hr] using hmem
    have hfree : ∀ c ∈ u, c ≠ '\n' ∧ c ≠ '\r' := by
      intro c hc
      refine ⟨?_, ?_⟩
      · rintro rfl
        exact hn (List.mem_append_left _ hc)
      · rintro rfl
        exact hr hc
    exact ⟨⟨u, hfree⟩, .carriageReturn, by simp [LineBreak.chars]⟩
  · have hfree : ∀ c ∈ t, c ≠ '\n' ∧ c ≠ '\r' := by
      intro c hc
      exact ⟨fun h => hn (h ▸ hc), fun h => hmem (h ▸ hc)⟩
    exact ⟨⟨t, hfree⟩, .lineFeed, rfl⟩

/-- A comment at the end of a line is the end of the line replaced: by a comment, where there was
none, and by more of it, where there was one. -/
theorem relined_comment {a t : List Char} (hn : '\n' ∉ t) (hr : '\r' ∉ t.dropLast)
    (ha : a.getLast? ≠ some '\r') (hq : (Mode.plain.after a).isQuoted = false) (b : List Char) :
    Relined False .plain (a ++ '\n' :: b) (a ++ '#' :: (t ++ ['\n'] ++ b)) := by
  obtain ⟨u, e, hu⟩ := exists_commentText hn hr
  have hrefl : Relined False .plain b b := .refl False .plain b
  rw [hu]
  refine .append ?_
  -- outside of a comment the new one is layout; a quoted text and a return are excluded
  cases hm : Mode.plain.after a with
  | plain =>
    have hgap := Relined.gap [.comment u e] (List.cons_ne_nil _ _) hrefl
    simpa [Gap.chars, Piece.chars] using hgap
  | comment =>
    -- the `#` is part of what the comment says already
    have hfree : ∀ c ∈ '#' :: u.chars, c ≠ '\n' ∧ c ≠ '\r' :=
      List.forall_mem_cons.mpr ⟨by decide, u.free⟩
    have hcomment := Relined.comment ⟨_, hfree⟩ e hrefl
    simpa using hcomment
  | returned => exact absurd (Mode.getLast?_of_after_eq_returned hm) ha
  | quoted | escaped =>
    rw [hm] at hq
    contradiction

/-- **Comments are inert where they hold no carriage return.** Let a line of a script end outside of
its quoted texts. A comment at the end of that line changes nothing about what is loaded, whatever
it says up to the end of the line, if it holds no carriage return but one right before that end;
and if it does hold another one, the script is refused for its form. -/
theorem load_comment {a t b : String} {c : Configuration} (ht : '\n' ∉ t.toList)
    (ha : a.toList.getLast? ≠ some '\r') (hq : ¬ InQuoted a)
    (hload : load (a ++ "\n" ++ b) = .ok c) :
    ('\r' ∉ t.toList.dropLast → load (a ++ "#" ++ t ++ "\n" ++ b) = .ok c) ∧
    ('\r' ∈ t.toList.dropLast → ∃ f, load (a ++ "#" ++ t ++ "\n" ++ b) =
      .error (.malformed (a ++ "#" ++ t ++ "\n" ++ b).toList f)) := by
  have hq : (Mode.plain.after a.toList).isQuoted = false := by simpa [InQuoted] using hq
  have hline : (a ++ "\n" ++ b).toList = a.toList ++ '\n' :: b.toList := by simp
  have hcomment : (a ++ "#" ++ t ++ "\n" ++ b).toList =
      a.toList ++ '#' :: (t.toList ++ ['\n'] ++ b.toList) := by simp
  -- with no return in it the comment is layout; a return before its last character ends the reading
  refine ⟨fun hr => ?_, fun hr => ?_⟩
  · have hrelined : Relined False .plain (a ++ "\n" ++ b).toList
        (a ++ "#" ++ t ++ "\n" ++ b).toList := by
      rw [hline, hcomment]
      exact relined_comment ht hr ha hq b.toList
    calc load (a ++ "#" ++ t ++ "\n" ++ b)
        = load (a ++ "\n" ++ b) := hrelined.load_eq not_false (readScript_of_load hload)
      _ = .ok c := hload
  · have hlone : LoneReturn .plain (a ++ "#" ++ t ++ "\n" ++ b).toList := by
      -- the return stands in the comment with something behind it that is no line feed
      have htext := LoneReturn.of_mem_dropLast ht hr (['\n'] ++ b.toList)
      rw [hcomment, List.append_assoc]
      exact .append (.later (Mode.next_hash hq ▸ htext))
    obtain ⟨f, hf⟩ := readScript_of_loneReturn hlone
    exact ⟨f, by rw [load, hf]⟩

/-- Quotes and brackets of a comment are not taken for those of the section, and of two comments
that hold the same characters only the one with its carriage return at the end is one. -/
theorem load_comment_bracket :
    load ("path:" ++ "#" ++ "\"[\r" ++ "\n" ++ "") = .ok (some Filter.empty) ∧
    ∃ f, load ("path:" ++ "#" ++ "\"\r[" ++ "\n" ++ "") =
      .error (.malformed ("path:" ++ "#" ++ "\"\r[" ++ "\n" ++ "").toList f) := by
  have ha : "path:".toList.getLast? ≠ some '\r' := by simp
  have hq : ¬ InQuoted "path:" := by decide
  -- the script without the comment, which has no entries
  have hload : load ("path:" ++ "\n" ++ "") = .ok (some Filter.empty) := by
    have hscript : Grammar.Whole "path:\n".toList (some []) :=
      .section (.none _) (.none _) (.none _) (.blank (by decide) (.none []))
    rw [show "path:" ++ "\n" ++ "" = "path:\n" from rfl, load_of_script hscript]
    rfl
  exact ⟨(load_comment (by simp) ha hq hload).1 (by simp),
    (load_comment (by simp) ha hq hload).2 (by simp)⟩

/-- That a carriage return is not to stand in a comment cannot be left out: an empty line is a
script, and the comment `# old`, a carriage return and `new` is none. -/
theorem not_load_comment_of_return :
    ¬ ∀ (a t b : String) (c : Configuration), '\n' ∉ t.toList →
      a.toList.getLast? ≠ some '\r' → ¬ InQuoted a → load (a ++ "\n" ++ b) = .ok c →
      load (a ++ "#" ++ t ++ "\n" ++ b) = .ok c := by
  intro h
  have hline : load ("" ++ "\n" ++ "") = .ok none :=
    load_eq_ok_none_iff.mpr (.blank (c := '\n') (by decide) (.none []))
  have hload : load ("" ++ "#" ++ " old\rnew" ++ "\n" ++ "") = .ok none :=
    h "" " old\rnew" "" none (by simp) (by simp) (by decide) hline
  -- no layout is skipped at all, so the text is not layout
  have hskip := skipLayout_eq_of_layout (load_eq_ok_none_iff.mp hload)
  have hstay : skipPiece? "# old\rnew\n".toList = none := rfl
  rw [skipLayout_nil, show "" ++ "#" ++ " old\rnew" ++ "\n" ++ "" = "# old\rnew\n" from rfl,
    skipLayout_eq_self hstay] at hskip
  contradiction

/-! ### Either convention of ending lines -/

/-- The script with a carriage return before each line feed. -/
def crlf (s : String) : String :=
  String.ofList (s.toList.flatMap fun c => if c = '\n' then ['\r', '\n'] else [c])

/-- The two differ in their line ends alone. -/
theorem relined_flatMap {raw : Prop} {m : Mode} {cs : List Char} (hr : '\r' ∉ cs)
    (hm : m ≠ .returned) (hraw : m.meetsLineFeed cs = true → raw) :
    Relined raw m cs (cs.flatMap fun c => if c = '\n' then ['\r', '\n'] else [c]) := by
  -- without carriage returns no place lies behind one, so every line feed of a comment ends it
  induction cs generalizing m with
  | nil => exact .nil m
  | cons c cs ih =>
    have hc : c ≠ '\r' := Ne.symm (List.ne_of_not_mem_cons hr)
    have hraw' : (m.next c).meetsLineFeed cs = true → raw := by
      intro h
      exact hraw (by rw [Mode.meetsLineFeed, h, Bool.or_true])
    have hnext : m.next c ≠ .returned := fun h => hc (Mode.eq_return_of_next h)
    have hrest := ih (List.not_mem_of_not_mem_cons hr) hnext hraw'
    rw [List.flatMap_cons]
    by_cases hn : c = '\n'
    · subst hn
      rw [if_pos rfl]
      -- a line feed as layout, as the end of a comment, or in a quoted text
      cases m with
      | plain => exact hrest.lineBreak .carriageReturn
      | comment => exact .comment ⟨[], List.forall_mem_nil _⟩ .carriageReturn hrest
      | returned => contradiction
      | quoted | escaped => exact .quoted (hraw rfl) rfl hrest
    · rw [if_neg hn]
      exact .cons hrest

/-- **Either convention of ending lines will do.** A script without carriage returns is accepted
with its lines ended by carriage return and line feed if and only if it is accepted as it is. Then,
unless a quoted text holds a line feed, what is loaded is the same, or what is said against it. -/
theorem load_crlf {s : String} (hs : '\r' ∉ s.toList) :
    ((∃ sec, readScript (crlf s).toList = .ok sec) ↔ ∃ sec, readScript s.toList = .ok sec) ∧
    ((∃ sec, readScript s.toList = .ok sec) → ¬ HasRawLineFeed s → load (crlf s) = load s) := by
  have hrelined : Relined (HasRawLineFeed s) .plain s.toList (crlf s).toList := by
    rw [crlf, String.toList_ofList]
    exact relined_flatMap hs (by decide) hasRawLineFeed_iff.mpr
  refine ⟨?_, fun hsec hraw => hrelined.load_eq hraw hsec⟩
  -- accepted or refused together; and `load_eq` for what is loaded
  rcases (lockstep_relined _).readScript_cases hrelined with ⟨a, b, ha, hb, -⟩ | ⟨f, g, hf, hg⟩
  · exact ⟨fun _ => ⟨a, ha⟩, fun _ => ⟨b, hb⟩⟩
  · rw [hf, hg]
    simp only [reduceCtorEq]

/-- Line feeds behind the colon, in front of a comment and at its end. -/
theorem load_crlf_annotated :
    '\r' ∉ "path:\n\n# any\n".toList ∧ ¬ HasRawLineFeed "path:\n\n# any\n" ∧
    load (crlf "path:\n\n# any\n") = load "path:\n\n# any\n" := by
  have hs : '\r' ∉ "path:\n\n# any\n".toList := by simp
  have hraw : ¬ HasRawLineFeed "path:\n\n# any\n" := by decide
  have hend : Layout "# any\n".toList [] :=
    .comment (t := " any".toList) (by simp) (.lineFeed []) (.blank (by decide) (.none []))
  have hscript : Grammar.Whole "path:\n\n# any\n".toList (some []) :=
    .section (.none _) (.none _) (.none _) (.blank (by decide) (.blank (by decide) hend))
  exact ⟨hs, hraw, (load_crlf hs).2 ⟨_, readScript_eq_ok_iff.mpr hscript⟩ hraw⟩

end PathFilter.Script
