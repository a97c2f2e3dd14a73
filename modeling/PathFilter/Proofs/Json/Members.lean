import Mathlib.Data.List.Perm.Basic
import PathFilter.Proofs.Json.Record

/-!
# The members of a record as a whole

Members are taken one after the other, and what is made of one depends on what was there before.
Seen as a whole it does not: a field has the value that its key gives it, if its key occurs once,
and is as it was, if its key does not occur. Nothing is made of members among which the key of a
field occurs twice or has a value that may not stand there (`Record.Layout.ofMembers?_eq_some_iff`).
So neither the order of the members makes a difference, nor do members that are no fields
(`Record.Layout.ofMembers?_of_perm`).

The invariant of the run is `Record.Layout.SettlesAfter`: a field that was seen must not occur
again and is as it is, and about any other field everything is still to be said.
-/

namespace PathFilter.Json

/-- The values that stand under a key, in the order in which they are written. -/
def valuesAt (key : String) (ms : List Member) : List Value :=
  ms.filterMap fun m => if m.1 = some key then some m.2 else none

theorem valuesAt_cons_self (key : String) (v : Value) (ms : List Member) :
    valuesAt key ((some key, v) :: ms) = v :: valuesAt key ms := by
  simp [valuesAt]

/-- A member in front adds nothing under another key, nor under any if its key denotes no text. -/
theorem valuesAt_cons_of_ne {key : String} {m : Member} (h : m.1 ≠ some key) (ms : List Member) :
    valuesAt key (m :: ms) = valuesAt key ms := by
  simp [valuesAt, h]

/-- That every key denotes a text. -/
def KeysDenote (ms : List Member) : Prop := ∀ m ∈ ms, m.1 ≠ none

namespace Record.Layout

variable {φ σ : Type} {r : Record φ σ} {β : φ → Type} (ℓ : r.Layout β)

/-! ### Keys -/

include ℓ in
/-- The field that is found for a key is the one that has this key, for no two fields share one. -/
theorem field?_eq_some_iff {key : String} {x : φ} : r.field? key = some x ↔ r.key x = key := by
  constructor
  · intro h
    simpa using List.find?_some h
  · rintro rfl
    -- some field is found, and no other one has this key
    cases h : r.field? (r.key x) with
    | none => exact absurd (List.find?_eq_none.mp h x (ℓ.mem_fields x)) (by simp)
    | some y =>
      have hy : r.key y = r.key x := by simpa using List.find?_some h
      rw [ℓ.key_injective hy]

include ℓ in
theorem field?_eq_none_iff {key : String} : r.field? key = none ↔ ∀ x, r.key x ≠ key := by
  rw [Option.eq_none_iff_forall_ne_some]
  exact forall_congr' fun x => not_congr ℓ.field?_eq_some_iff

/-! ### What the values of a field say -/

/-- What the values under the key of a field make of it: it is as it was if there are none, and
what its value gives if there is one. Two values make nothing of it. -/
def Settles (x : φ) (old new : β x) : List Value → Prop
  | [] => new = old
  | [v] => ℓ.given x v = some new
  | _ :: _ :: _ => False

variable {ℓ}

/-- Where there is a value, it is the only one and gives what the field comes to. -/
theorem settles_cons_iff {x : φ} {old new : β x} {v : Value} {vs : List Value} :
    ℓ.Settles x old new (v :: vs) ↔ vs = [] ∧ ℓ.given x v = some new := by
  cases vs with
  | nil => exact (and_iff_right rfl).symm
  | cons w vs => exact iff_of_false id (fun h => by simp at h)

/-- Every value under the key of a field gives what the field comes to. -/
theorem given_of_settles {x : φ} {old new : β x} {v : Value} {vs : List Value}
    (h : ℓ.Settles x old new vs) (hv : v ∈ vs) : ℓ.given x v = some new := by
  cases vs with
  | nil => cases hv
  | cons w ws =>
    obtain ⟨rfl, hw⟩ := settles_cons_iff.mp h
    exact List.mem_singleton.mp hv ▸ hw

/-- A field comes to another value than it had exactly by the one value under its key. -/
theorem eq_iff_of_settles {x : φ} {old new c : β x} {vs : List Value}
    (h : ℓ.Settles x old new vs) (hc : c ≠ old) :
    new = c ↔ ∃ v, vs = [v] ∧ ℓ.given x v = some c := by
  -- the case of two values does not arise: it is `False` in `Settles`
  match vs, h with
  | [], h =>
    have hold : new = old := h
    refine iff_of_false (fun hn => hc (hn.symm.trans hold)) ?_
    rintro ⟨v, hv, -⟩
    contradiction
  | [v], h =>
    have hgiven : ℓ.given x v = some new := h
    constructor
    · rintro rfl
      exact ⟨v, rfl, hgiven⟩
    · rintro ⟨w, hw, hcw⟩
      obtain rfl := List.singleton_inj.mp hw
      exact Option.some.inj (hgiven.symm.trans hcw)

/-- In which order values are written makes no difference, since only one may be there. -/
theorem settles_of_perm {x : φ} {old new : β x} {vs ws : List Value} (hp : vs.Perm ws)
    (h : ℓ.Settles x old new vs) : ℓ.Settles x old new ws := by
  -- lists of one value and of none are each rearranged in one way only
  match vs, h with
  | [], h => exact hp.nil_eq ▸ h
  | [v], h => exact hp.singleton_eq ▸ h

/-! ### What members say about a field -/

variable [DecidableEq φ]

variable (ℓ) in
/-- **The invariant.** What the members `ms` say about a field of the record `b` that they make of
`a`, with the fields in `seen` behind them. -/
def SettlesAfter (seen : List φ) (a b : σ) (ms : List Member) (x : φ) : Prop :=
  if x ∈ seen then valuesAt (r.key x) ms = [] ∧ ℓ.get x b = ℓ.get x a
  else ℓ.Settles x (ℓ.get x a) (ℓ.get x b) (valuesAt (r.key x) ms)

section SettlesAfter

variable {seen : List φ} {a b : σ} {ms : List Member} {x y : φ}

/-- No members leave a field as it was, whether it was seen or not. -/
theorem settlesAfter_nil_iff : ℓ.SettlesAfter seen a b [] x ↔ ℓ.get x b = ℓ.get x a := by
  rw [SettlesAfter]
  split
  · exact and_iff_right rfl
  · exact Iff.rfl

theorem settlesAfter_cons_of_ne {m : Member} (h : m.1 ≠ some (r.key x)) :
    ℓ.SettlesAfter seen a b (m :: ms) x ↔ ℓ.SettlesAfter seen a b ms x := by
  rw [SettlesAfter, SettlesAfter, valuesAt_cons_of_ne h]

/-- A field that was seen must not occur again. -/
theorem not_settlesAfter_of_mem {v : Value} (hs : x ∈ seen) :
    ¬ ℓ.SettlesAfter seen a b ((some (r.key x), v) :: ms) x := by
  rw [SettlesAfter, if_pos hs, valuesAt_cons_self]
  exact fun h => List.cons_ne_nil _ _ h.1

/-- The first member of a field gives it its value, and no other one may follow. -/
theorem settlesAfter_cons_self_iff {v : Value} (hs : x ∉ seen) :
    ℓ.SettlesAfter seen a b ((some (r.key x), v) :: ms) x ↔
      valuesAt (r.key x) ms = [] ∧ ℓ.given x v = some (ℓ.get x b) := by
  rw [SettlesAfter, if_neg hs, valuesAt_cons_self, settles_cons_iff]

/-- Once a field is seen, it keeps the value it was given. -/
theorem settlesAfter_put_self_iff {c : β x} :
    ℓ.SettlesAfter (x :: seen) (ℓ.put x c a) b ms x ↔
      valuesAt (r.key x) ms = [] ∧ ℓ.get x b = c := by
  rw [SettlesAfter, if_pos List.mem_cons_self, ℓ.get_put_self]

/-- A value that one field is given says nothing about another one. -/
theorem settlesAfter_put_of_ne {c : β x} (h : y ≠ x) :
    ℓ.SettlesAfter (x :: seen) (ℓ.put x c a) b ms y ↔ ℓ.SettlesAfter seen a b ms y := by
  have hmem : y ∈ x :: seen ↔ y ∈ seen := by simp [h]
  have hget : ℓ.get y (ℓ.put x c a) = ℓ.get y a := ℓ.get_put_of_ne (Ne.symm h) c a
  simp only [SettlesAfter, hmem, hget]

/-- **One step.** A field that was not seen before is given its value, and is seen from then
on. -/
theorem forall_settlesAfter_put_iff {v : Value} {c : β x} (hs : x ∉ seen)
    (hg : ℓ.given x v = some c) :
    (∀ y, ℓ.SettlesAfter (x :: seen) (ℓ.put x c a) b ms y) ↔
      ∀ y, ℓ.SettlesAfter seen a b ((some (r.key x), v) :: ms) y := by
  refine forall_congr' fun y => ?_
  -- the field that is given its value is settled by this member, the others by the later ones
  by_cases hy : y = x
  · subst hy
    rw [settlesAfter_put_self_iff, settlesAfter_cons_self_iff hs, hg, Option.some_inj,
      eq_comm (a := c)]
  · have hne : (some (r.key x), v).1 ≠ some (r.key y) :=
      fun h => hy (ℓ.key_injective (Option.some.inj h)).symm
    rw [settlesAfter_put_of_ne hy, settlesAfter_cons_of_ne hne]

end SettlesAfter

/-! ### The members as a whole -/

variable (ℓ)

/-- The run, by induction on the members. -/
theorem ofMembers?_eq_some_iff_of_seen {seen : List φ} {a b : σ} {ms : List Member} :
    ℓ.ofMembers? seen a ms = some b ↔ KeysDenote ms ∧ ∀ x, ℓ.SettlesAfter seen a b ms x := by
  -- what was seen grows by each field, so the induction is for every `seen` and every record
  induction ms generalizing seen a with
  | nil =>
    rw [ofMembers?, Option.some_inj]
    simp only [settlesAfter_nil_iff]
    constructor
    · rintro rfl
      exact ⟨fun m hm => absurd hm List.not_mem_nil, fun _ => rfl⟩
    · exact fun h => ℓ.ext fun x => (h.2 x).symm
  | cons m ms ih =>
    obtain ⟨_ | key, v⟩ := m
    -- a key that denotes no text spoils the record
    · simp [ofMembers?, KeysDenote]
    have hkeys : KeysDenote ((some key, v) :: ms) ↔ KeysDenote ms := by simp [KeysDenote]
    rw [ofMembers?, hkeys]
    cases hx : r.field? key with
    | none =>
      -- no field has this key, so nothing is said about any of them
      have hkey := ℓ.field?_eq_none_iff.mp hx
      have hstep : ∀ x, ℓ.SettlesAfter seen a b ((some key, v) :: ms) x ↔
          ℓ.SettlesAfter seen a b ms x :=
        fun x => settlesAfter_cons_of_ne (by simpa using (hkey x).symm)
      simp only [hstep, ih]
    | some x =>
      obtain rfl := ℓ.field?_eq_some_iff.mp hx
      dsimp only
      by_cases hs : x ∈ seen
      · rw [if_pos hs]
        exact iff_of_false (by simp) fun h => not_settlesAfter_of_mem hs (h.2 x)
      rw [if_neg hs]
      cases hg : ℓ.given x v with
      | none =>
        -- a value that may not stand there
        refine iff_of_false (by simp) fun h => ?_
        have hgiven := ((settlesAfter_cons_self_iff hs).mp (h.2 x)).2
        cases hg.symm.trans hgiven
      | some c => rw [Option.bind_some, ih, forall_settlesAfter_put_iff hs hg]

/-- **The members as a whole.** What they make of a record is the record whose fields have the
values that their keys give them. -/
theorem ofMembers?_eq_some_iff {a b : σ} {ms : List Member} :
    ℓ.ofMembers? [] a ms = some b ↔ KeysDenote ms ∧
      ∀ x, ℓ.Settles x (ℓ.get x a) (ℓ.get x b) (valuesAt (r.key x) ms) := by
  rw [ofMembers?_eq_some_iff_of_seen]
  simp only [SettlesAfter, List.not_mem_nil, if_false]

/-- Members make something of a record if each of its fields occurs at most once, with a value
that may stand there. -/
theorem exists_ofMembers? {a : σ} {ms : List Member} (hkeys : KeysDenote ms)
    (honce : ∀ x, (valuesAt (r.key x) ms).length ≤ 1)
    (hfit : ∀ x, ∀ v ∈ valuesAt (r.key x) ms, ℓ.given x v ≠ none) :
    ∃ b, ℓ.ofMembers? [] a ms = some b := by
  have hnew : ∀ x, ∃ new, ℓ.Settles x (ℓ.get x a) new (valuesAt (r.key x) ms) := by
    intro x
    have hlen := honce x
    have hgiven := hfit x
    -- at most one value is there, and a value that fits gives something
    match valuesAt (r.key x) ms, hlen, hgiven with
    | [], _, _ => exact ⟨_, rfl⟩
    | [v], _, hgiven =>
      exact Option.ne_none_iff_exists'.mp (hgiven v (List.mem_singleton_self v))
  -- the record that has these values in its fields
  choose f hf using hnew
  obtain ⟨b, hb⟩ := ℓ.exists_of_fields f
  refine ⟨b, ℓ.ofMembers?_eq_some_iff.mpr ⟨hkeys, fun x => ?_⟩⟩
  rw [hb x]
  exact hf x

/-- A field that occurs twice makes nothing of a record. -/
theorem ofMembers?_of_repeated {a : σ} {ms : List Member} {x : φ}
    (h : 2 ≤ (valuesAt (r.key x) ms).length) : ℓ.ofMembers? [] a ms = none := by
  rw [Option.eq_none_iff_forall_ne_some]
  intro b hb
  have hx := (ℓ.ofMembers?_eq_some_iff.mp hb).2 x
  -- two values make nothing of a field, so no record can come of them
  match hvs : valuesAt (r.key x) ms with
  | [] => simp [hvs] at h
  | [v] => simp [hvs] at h
  | _ :: _ :: _ => rw [hvs] at hx; exact hx

/-- Neither does a value that may not stand where it does. -/
theorem ofMembers?_of_misfit {a : σ} {ms : List Member} {x : φ} {v : Value}
    (hv : v ∈ valuesAt (r.key x) ms) (h : ℓ.given x v = none) :
    ℓ.ofMembers? [] a ms = none := by
  rw [Option.eq_none_iff_forall_ne_some]
  intro b hb
  have hgiven := given_of_settles ((ℓ.ofMembers?_eq_some_iff.mp hb).2 x) hv
  cases h.symm.trans hgiven

end Record.Layout

/-! ### Order and unknown members -/

/-- Whether a member is that of a field. -/
def Record.isField {φ σ : Type} (r : Record φ σ) (m : Member) : Bool :=
  m.1.any fun key => (r.field? key).isSome

/-- The values under a key are those among any members that include the ones with this key. -/
theorem valuesAt_filter {key : String} {p : Member → Bool} (hp : ∀ v, p (some key, v) = true)
    (ms : List Member) : valuesAt key (ms.filter p) = valuesAt key ms := by
  rw [valuesAt, valuesAt, List.filterMap_filter]
  refine List.filterMap_congr fun m _ => ?_
  obtain ⟨k, v⟩ := m
  -- a member with the key is kept by `p`, and no other one counts
  by_cases hk : k = some key
  · subst hk
    rw [if_pos (hp v)]
  · simp [hk]

theorem Record.Layout.isField_key {φ σ : Type} {r : Record φ σ} {β : φ → Type} (ℓ : r.Layout β)
    (x : φ) (v : Value) : r.isField (some (r.key x), v) = true := by
  have hx : r.field? (r.key x) = some x := ℓ.field?_eq_some_iff.mpr rfl
  simp [Record.isField, hx]

/-- **Order and unknown members make no difference** to a record that is read. -/
theorem Record.Layout.ofMembers?_of_perm {φ σ : Type} {r : Record φ σ} {β : φ → Type}
    [DecidableEq φ] (ℓ : r.Layout β) {a b : σ} {ms ns : List Member}
    (hp : (ms.filter r.isField).Perm (ns.filter r.isField)) (hkeys : KeysDenote ns)
    (h : ℓ.ofMembers? [] a ms = some b) : ℓ.ofMembers? [] a ns = some b := by
  rw [ofMembers?_eq_some_iff] at h ⊢
  refine ⟨hkeys, fun x => settles_of_perm ?_ (h.2 x)⟩
  -- the values of a field are among the members that are fields
  rw [← valuesAt_filter (ℓ.isField_key x) ms, ← valuesAt_filter (ℓ.isField_key x) ns]
  exact hp.filterMap _

end PathFilter.Json
