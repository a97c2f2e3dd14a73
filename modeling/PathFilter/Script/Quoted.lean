import PathFilter.Script.Fault

/-!
# Quoted texts of a filter script

A quoted text runs from a quote to the next quote that no backslash escapes, and may hold line
breaks. Four **escapes** stand for one character each: `\"`, `\\`, `\n` and `\t`. A backslash
before any other character is kept together with it, so no quoted text is refused for what it
holds: the only fault is that the text ends first.

* `readQuoted` reads what follows the opening quote, pair by pair, and leaves an end of what it
  was given that is strictly shorter (`suffix_of_readQuoted`).
-/

namespace PathFilter.Script

/-- What a backslash and the character behind it stand for. -/
def unescape (c : Char) : List Char :=
  if c = '"' then ['"']
  else if c = '\\' then ['\\']
  else if c = 'n' then ['\n']
  else if c = 't' then ['\t']
  else ['\\', c]

/-- Puts characters in front of the text that a reader found. -/
def Read.prepend (cs : List Char) : Read (List Char) → Read (List Char)
  | .ok (t, rest) => .ok (cs ++ t, rest)
  | .error f => .error f

/-- Reads a quoted text whose opening quote has been read. Where the text ends, a quote would be
welcome, unless a backslash was the last thing read: then anything would be, and nothing is
named. -/
def readQuoted : List Char → Read (List Char)
  | [] => .error ⟨[], [.char '"']⟩
  | '"' :: rest => .ok ([], rest)
  | ['\\'] => .error ⟨[], []⟩
  | '\\' :: c :: rest => (readQuoted rest).prepend (unescape c)
  | c :: rest => (readQuoted rest).prepend [c]

/-- A successful reader with characters put in front was a successful reader. -/
theorem Read.prepend_eq_ok {cs t rest : List Char} {r : Read (List Char)}
    (h : r.prepend cs = .ok (t, rest)) : ∃ u, r = .ok (u, rest) ∧ t = cs ++ u := by
  cases r with
  | error f => contradiction
  | ok p =>
    obtain ⟨u, v⟩ := p
    obtain ⟨rfl, rfl⟩ := Read.ok_inj h
    exact ⟨u, rfl, rfl⟩

/-- What stands behind the closing quote is an end of what follows the opening one, and at least
the closing quote lies before it. -/
theorem suffix_of_readQuoted {cs t rest : List Char} (h : readQuoted cs = .ok (t, rest)) :
    ∃ c u, cs = c :: u ∧ rest <:+ u := by
  -- along the characters, with an escape taken as one: the closing quote is somewhere behind it
  fun_induction readQuoted cs generalizing t with
  | case1 => contradiction
  | case2 r =>
    obtain ⟨-, rfl⟩ := Read.ok_inj h
    exact ⟨'"', r, rfl, List.suffix_rfl⟩
  | case3 => contradiction
  | case4 c r ih =>
    obtain ⟨u, hu, -⟩ := Read.prepend_eq_ok h
    obtain ⟨d, v, rfl, hv⟩ := ih hu
    exact ⟨'\\', c :: d :: v, rfl, hv.trans ((List.suffix_cons d v).trans (List.suffix_cons c _))⟩
  | case5 c r _ _ _ ih =>
    obtain ⟨u, hu, -⟩ := Read.prepend_eq_ok h
    obtain ⟨d, v, rfl, hv⟩ := ih hu
    exact ⟨c, d :: v, rfl, hv.trans (List.suffix_cons d v)⟩

theorem length_lt_of_readQuoted {cs t rest : List Char} (h : readQuoted cs = .ok (t, rest)) :
    rest.length < cs.length := by
  obtain ⟨c, u, rfl, hr⟩ := suffix_of_readQuoted h
  exact Nat.lt_succ_of_le hr.length_le

end PathFilter.Script
