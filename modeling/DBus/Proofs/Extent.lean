import DBus.Proofs.Agreement

/-!
# Where values end

Skipping a value finds its end from the lengths in the body and from its type, and looks at
nothing else. Whatever the bytes are, the end lies behind the cursor and within the body
(`StandsAt.valueEnd_within`). Moving on goes
there, but for an item that reaches beyond its array (`StandsAt.advance_eq_ok_iff`,
`StandsAt.next_eq`).
-/

namespace DBus

namespace Reader

variable {r s : Reader} {t u : Ty} {ts us : List Ty} {endOf : Reader → Except Error Nat} {p : Nat}

/-! ## Going into a container -/

/-- The cursor is over contents of the value that the other one stands at. -/
structure Inside (s r : Reader) : Prop where
  endian : s.endian = r.endian
  data : s.data = r.data
  pos_le : r.pos ≤ s.pos
  pos_le_stop : s.pos ≤ s.stop
  stop_le : s.stop ≤ r.data.length
  stop_eq : s.repeats = false → s.stop = r.data.length

theorem le_alignUp (n alignment : Nat) : n ≤ alignUp n alignment := Nat.le_add_right _ _

theorem le_itemsStart (n : Nat) (t : Ty) : n ≤ itemsStart n t :=
  Nat.le_trans (le_alignUp n 4)
    (Nat.le_trans (Nat.le_add_right _ 4) (le_alignUp _ t.code.alignment))

/-- A cursor inside of a container starts no earlier, and stops within the body. -/
theorem StandsAt.inside (h : r.StandsAt u us) (hs : r.enter = .ok s) : s.Inside r := by
  cases u with
  | basic b => exact absurd hs (enter_basic_ne_ok h)
  | array e =>
    obtain ⟨n, levels, -, -, -, hstop, rfl⟩ := (enter_array_eq_ok_iff h).mp hs
    exact ⟨rfl, rfl, le_itemsStart r.pos e, Nat.le_add_right _ n, hstop, fun h => by cases h⟩
  | struct ts =>
    obtain ⟨levels, -, hgap, rfl⟩ := (enter_struct_eq_ok_iff h).mp hs
    exact ⟨rfl, rfl, le_alignUp r.pos 8, at_gap.mp hgap, Nat.le_refl _, fun _ => rfl⟩
  | dictEntry k e =>
    obtain ⟨levels, -, hgap, rfl⟩ := (enter_dictEntry_eq_ok_iff h).mp hs
    exact ⟨rfl, rfl, le_alignUp r.pos 8, at_gap.mp hgap, Nat.le_refl _, fun _ => rfl⟩
  | variant =>
    obtain ⟨t, levels, -, -, hhead, rfl⟩ := (enter_variant_eq_ok_iff h).mp hs
    have hlen := hhead.1
    rw [add_length_variantHead] at hlen
    have hpos : r.pos ≤ r.pos + t.render.length + 2 := by omega
    exact ⟨rfl, rfl, hpos, hlen, Nat.le_refl _, fun _ => rfl⟩

/-- The cursor over fields, a key with its value or the contents of a variant goes through
types. -/
theorem StandsAt.enter_follows (h : r.StandsAt u us) (hs : r.enter = .ok s)
    (hcode : u.code ≠ .array) : ∃ ts, s.Follows ts := by
  obtain ⟨ts, -, hplaced, hrep⟩ := h.enter hs
  exact ⟨ts, Bool.eq_false_iff.mpr (mt hrep.mp hcode), hplaced.drop_eq⟩

/-! ## The end of the values of a cursor -/

/-- Values end behind the place of the cursor, and within the body. -/
def EndsWithin (endOf : Reader → Except Error Nat) : Prop :=
  ∀ {r : Reader} {t : Ty} {ts : List Ty} {p : Nat}, r.StandsAt t ts → endOf r = .ok p →
    r.pos ≤ p ∧ p ≤ r.data.length

/-- Several fields end behind the cursor and within the body, if each of them does. -/
theorem lastEnd_within (hend : EndsWithin endOf) {n : Nat} (h : r.Follows ts)
    (hpos : r.pos ≤ r.data.length) (hp : lastEnd endOf n r = .ok p) :
    r.pos ≤ p ∧ p ≤ r.data.length := by
  induction n generalizing r ts with
  | zero =>
    cases hp
    exact ⟨Nat.le_refl _, hpos⟩
  | succ n ih =>
    cases ts with
    | nil =>
      rw [h.lastEnd_nil, Except.ok.injEq] at hp
      subst hp
      exact ⟨Nat.le_refl _, hpos⟩
    | cons t ts =>
      obtain ⟨q, hq, hp⟩ := h.lastEnd_cons_iff.mp hp
      obtain ⟨hle, hlen⟩ := hend h.standsAt hq
      obtain ⟨hqp, hdata⟩ := ih (h.goTo q) hlen hp
      exact ⟨Nat.le_trans hle hqp, hdata⟩

theorem lengthWidth_le_textStart (p : Nat) (c : TextCode) : p ≤ textStart p c :=
  Nat.le_trans (le_alignUp p _) (Nat.le_add_right _ _)

/-- One level of moving on keeps within the body if the level below does. -/
theorem endBy_within (hend : EndsWithin endOf) : EndsWithin (endBy endOf) := by
  intro r t ts p h hp
  cases t with
  | basic b =>
    cases b with
    | fixed c =>
      obtain ⟨rfl, hle⟩ := (endBy_fixed_iff h).mp hp
      exact ⟨Nat.le_trans (le_alignUp r.pos _) (Nat.le_add_right _ _), hle⟩
    | text c =>
      obtain ⟨n, -, -, rfl, hle⟩ := (endBy_text_iff h).mp hp
      have hstart := lengthWidth_le_textStart r.pos c
      exact ⟨by omega, hle⟩
  | array t =>
    obtain ⟨s, hs, rfl⟩ := (endBy_array_iff h).mp hp
    have hin := h.inside hs
    exact ⟨Nat.le_trans hin.pos_le hin.pos_le_stop, hin.stop_le⟩
  | struct _ | dictEntry _ _ | variant =>
    obtain ⟨s, hs, hp⟩ := (endBy_contents_iff h (by simp [Ty.code])).mp hp
    have hin := h.inside hs
    obtain ⟨us, hus⟩ := h.enter_follows hs (by simp [Ty.code])
    have hpos : s.pos ≤ s.data.length := hin.data ▸ Nat.le_trans hin.pos_le_stop hin.stop_le
    obtain ⟨hle, hlen⟩ := lastEnd_within hend hus hpos hp
    exact ⟨Nat.le_trans hin.pos_le hle, hin.data ▸ hlen⟩

/-- Any number of levels of moving on keeps within the body, by induction on them. -/
theorem endWithin_within (levels : Nat) : EndsWithin (endWithin levels) := by
  induction levels with
  | zero => exact endBy_within fun _ h => by cases h
  | succ levels ih => exact endBy_within ih

theorem exists_endBy (levels : Nat) : ∃ endOf, endWithin levels = endBy endOf := by
  cases levels <;> exact ⟨_, rfl⟩

/-- Only a value that is there ends. -/
theorem require_of_valueEnd (hp : r.valueEnd = .ok p) : ∃ c, r.require = .ok c := by
  obtain ⟨endOf, hendOf⟩ := exists_endBy r.levels
  rw [valueEnd, hendOf, endBy, bind_eq_ok] at hp
  obtain ⟨c, hc, -⟩ := hp
  exact ⟨c, hc⟩

/-- A value ends behind the cursor and within the body. -/
theorem StandsAt.valueEnd_within (h : r.StandsAt t ts) (hp : r.valueEnd = .ok p) :
    r.pos ≤ p ∧ p ≤ r.data.length :=
  endWithin_within r.levels h hp

/-! ## Moving on -/

/-- With the position `p`, at the type of the value that follows. -/
def moveOn (r : Reader) (t : Ty) (p : Nat) : Reader :=
  { r with pos := p, ix := if r.repeats then 0 else r.ix + t.render.length }

/-- A cursor over items is rewound unless it has gone beyond their end. -/
theorem rewind_goTo (r : Reader) (t : Ty) (p : Nat) :
    (r.goTo t p).rewind = if r.repeats = true ∧ r.stop < p then .error (.indexOutOfBounds p)
      else .ok (r.moveOn t p) := by
  cases hrep : r.repeats with
  | false => simp [rewind, goTo, moveOn, hrep]
  | true =>
    by_cases hle : p ≤ r.stop
    · simp [rewind, goTo, moveOn, hrep, hle]
    · simp [rewind, goTo, hrep, hle]

/-- A cursor is advanced to the end of the value, if this is within the array around it. -/
theorem StandsAt.advance_eq_ok_iff (h : r.StandsAt t ts) :
    r.advance = .ok s ↔ ∃ p, r.valueEnd = .ok p ∧ (r.repeats = true → p ≤ r.stop) ∧
      s = r.moveOn t p := by
  simp only [advance, bind_eq_ok, h.moveTo_goTo, Except.ok.injEq, exists_eq_left', rewind_goTo]
  refine exists_congr fun p => and_congr_right fun _ => ?_
  split
  · next hlt => exact iff_of_false nofun fun hs => absurd (hs.1 hlt.1) (by omega)
  · next hlt =>
    rw [Except.ok.injEq, eq_comm]
    exact (and_iff_right fun hrep => Nat.le_of_not_lt fun hp => hlt ⟨hrep, hp⟩).symm

/-- Moving on tells whether there is another type where the cursor has been advanced to. -/
theorem next_eq_ok_iff {more : Bool} :
    r.next = (.ok more, s) ↔ r.advance = .ok s ∧ s.current.isSome = more := by
  unfold next advance
  cases hp : r.valueEnd with
  | error e => simp [Bind.bind, Except.bind]
  | ok p =>
    rw [ok_bind, ok_bind]
    cases hm : r.moveTo p with
    | error e => simp [Bind.bind, Except.bind]
    | ok moved =>
      rw [ok_bind]
      cases hs : moved.rewind with
      | error e => simp [hs]
      | ok s' =>
        simp only [hs, Prod.mk.injEq, Except.ok.injEq]
        constructor
        · rintro ⟨rfl, rfl⟩
          exact ⟨rfl, rfl⟩
        · rintro ⟨rfl, rfl⟩
          exact ⟨rfl, rfl⟩

/-- What moving on comes to, once it is known where the value ends. -/
theorem StandsAt.next_eq (h : r.StandsAt t ts) (hp : r.valueEnd = .ok p) :
    r.next = if r.repeats = true ∧ r.stop < p then (.error (.indexOutOfBounds p), r.goTo t p)
      else (.ok (r.moveOn t p).current.isSome, r.moveOn t p) := by
  rw [next, hp, ok_bind, h.moveTo_goTo]
  simp only [rewind_goTo]
  by_cases hout : r.repeats = true ∧ r.stop < p
  · rw [if_pos hout, if_pos hout]
  · rw [if_neg hout, if_neg hout]

/-- A cursor that does not find the end of its value stays, and any other one moves on. -/
theorem Placed.next_cases {done : List Ty} (h : r.Placed done ts) :
    (∃ e, r.next = (.error e, r)) ∨ ∃ t us p, ts = t :: us ∧ r.StandsAt t us ∧
      r.valueEnd = .ok p ∧ r.next =
        if r.repeats = true ∧ r.stop < p then (.error (.indexOutOfBounds p), r.goTo t p)
        else (.ok (r.moveOn t p).current.isSome, r.moveOn t p) := by
  cases hp : r.valueEnd with
  | error e =>
    refine .inl ⟨e, ?_⟩
    rw [Reader.next, hp]
    rfl
  | ok p =>
    obtain ⟨c, hc⟩ := require_of_valueEnd hp
    obtain ⟨t, us, rfl, hst⟩ := h.exists_standsAt hc
    exact .inr ⟨t, us, p, rfl, hst, rfl, hst.next_eq hp⟩

/-- Moving on succeeds from a value that ends, in an array within it. -/
theorem Placed.of_next_eq_ok {done : List Ty} {more : Bool} (h : r.Placed done ts)
    (hs : r.next = (.ok more, s)) : ∃ t us p, ts = t :: us ∧ r.StandsAt t us ∧
      r.valueEnd = .ok p ∧ (r.repeats = true → p ≤ r.stop) ∧ s = r.moveOn t p := by
  rcases h.next_cases with ⟨_, hnext⟩ | ⟨t, us, p, hts, hst, hp, hnext⟩
  · rw [hs] at hnext
    cases hnext
  · rw [hs] at hnext
    split at hnext
    · cases hnext
    · next hout =>
      cases hnext
      exact ⟨t, us, p, hts, hst, hp, fun hrep => Nat.le_of_not_lt fun hlt => hout ⟨hrep, hlt⟩, rfl⟩

end Reader

end DBus
