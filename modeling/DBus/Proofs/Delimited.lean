import DBus.Proofs.Extent
import DBus.Proofs.RoundTrip

/-!
# Values are told by their own bytes

What is read at a cursor, and where the value ends, depends on the bytes in front of that end and
on no others, not even on how many of them there are. So a value is read from every body that
has the same bytes up to its end (`Marshaller.readValue_of_take_eq`), and from no body that is cut
off before it.

The cursor at the same place of another body is `Reader.withData`, and a body that shares its
beginning with that of a cursor `Reader.Shares` it. Each operation on a cursor is followed to the
other body as far as it looks (`StandsAt.enter_withData`, `StandsAt.advance_withData`), and a read
by induction on the levels (`Marshaller.readWithin_withData`).
-/

namespace DBus

/-- Cells within what two bodies share are in both of them. -/
theorem At.of_take_eq {a b : Bytes} {n p : Nat} {cs : List Cell} (hn : n ≤ a.length)
    (h : b.take n = a.take n) (hp : p + cs.length ≤ n) (hat : At a p cs) : At b p cs := by
  have hlen : n ≤ b.length := by
    have := congrArg List.length h
    simp only [List.length_take] at this
    omega
  refine ⟨Nat.le_trans hp hlen, fun i x hi => ?_⟩
  have hlt : i < cs.length := (List.getElem?_eq_some_iff.mp hi).1
  rw [← List.getElem?_take_of_lt (show p + i < n by omega), h,
    List.getElem?_take_of_lt (by omega)]
  exact hat.2 i x hi

namespace Reader

variable {r s : Reader} {t u : Ty} {ts us : List Ty} {data : Bytes} {n p : Nat}
  {endOf : Reader → Except Error Nat}

/-! ## Two bodies -/

/-- The cursor at the same place of another body. Only the end of an array is the same in both. -/
def withData (r : Reader) (data : Bytes) : Reader :=
  { r with data := data, stop := if r.repeats then r.stop else data.length }

/-- The body has the first `n` bytes of that of the cursor. -/
structure Shares (r : Reader) (data : Bytes) (n : Nat) : Prop where
  le : n ≤ r.data.length
  take : data.take n = r.data.take n

namespace Shares

/-- A body that shares some bytes shares fewer. -/
theorem mono (h : r.Shares data n) (hp : p ≤ n) : r.Shares data p where
  le := Nat.le_trans hp h.le
  take := by rw [← Nat.min_eq_left hp, ← List.take_take, ← List.take_take, h.take]

theorem of_data_eq (h : r.Shares data n) (hs : s.data = r.data) : s.Shares data n :=
  ⟨hs ▸ h.le, hs ▸ h.take⟩

theorem le_length (h : r.Shares data n) : n ≤ data.length := by
  have hlen := congrArg List.length h.take
  have hle := h.le
  simp only [List.length_take] at hlen
  omega

/-- Cells within what is shared stand in the other body too. -/
theorem at_withData (h : r.Shares data n) {cs : List Cell} (hp : p + cs.length ≤ n)
    (hat : At r.data p cs) : At data p cs :=
  hat.of_take_eq h.le h.take hp

end Shares

/-- The type at the cursor does not depend on the body. -/
theorem current_withData (r : Reader) (data : Bytes) : (r.withData data).current = r.current := by
  cases hrep : r.repeats <;> simp [current, withData, hrep]

theorem require_withData (r : Reader) (data : Bytes) : (r.withData data).require = r.require := by
  rw [require, current_withData, require]

/-- The cursor stands at the same type of the other body. -/
theorem StandsAt.withData (h : r.StandsAt t ts) (data : Bytes) :
    (r.withData data).StandsAt t ts where
  more hrep := by
    have hrep : r.repeats = true := hrep
    simpa [Reader.withData, hrep] using h.more hrep
  signature := h.signature

theorem Follows.withData (h : r.Follows ts) (data : Bytes) : (r.withData data).Follows ts :=
  ⟨h.repeats, h.signature⟩

/-! ## Looking -/

/-- A word is read from the other body if its end is shared. -/
theorem word_withData {c : FixedCode} {w : Word} (h : r.StandsAt (.fixed c) ts)
    (hw : r.word = .ok w) (hp : endBy endOf r = .ok p) (hn : r.Shares data p) :
    (r.withData data).word = .ok w := by
  obtain ⟨hscalar, hat⟩ := (word_eq_ok_iff h).mp hw
  rw [endBy_fixed h (Endian.length_encodeWord ..) hat, Except.ok.injEq] at hp
  exact (word_eq_ok_iff (h.withData data)).mpr ⟨hscalar, hn.at_withData (Nat.le_of_eq hp) hat⟩

/-- A text is read from the other body if its end is shared. -/
theorem text_withData {c : TextCode} {x : String} (h : r.StandsAt (.text c) ts)
    (hx : r.text = .ok x) (hp : endBy endOf r = .ok p) (hn : r.Shares data p) :
    (r.withData data).text = .ok x := by
  obtain ⟨hzero, hlen, hat⟩ := (text_eq_ok_iff h).mp hx
  rw [endBy_text h hlen hat, Except.ok.injEq] at hp
  exact (text_eq_ok_iff (h.withData data)).mpr ⟨hzero, hlen, hn.at_withData (Nat.le_of_eq hp) hat⟩

/-- A container is gone into in the other body where the beginning of its contents, and the end
of an array, are within what the two share. -/
theorem StandsAt.enter_withData (h : r.StandsAt u us) (hs : r.enter = .ok s) (hn : r.Shares data n)
    (hpos : s.pos ≤ n) (hstop : s.repeats = true → s.stop ≤ n) :
    (r.withData data).enter = .ok (s.withData data) := by
  cases u with
  | basic b => exact absurd hs (enter_basic_ne_ok h)
  | array e =>
    obtain ⟨k, levels, hl, hk, hat, -, rfl⟩ := (enter_array_eq_ok_iff h).mp hs
    have hat := hn.at_withData (Nat.le_trans (Nat.le_of_eq (add_length_arrayHead ..)) hpos) hat
    exact (enter_array_eq_ok_iff (h.withData data)).mpr
      ⟨k, levels, hl, hk, hat, Nat.le_trans (hstop rfl) hn.le_length, rfl⟩
  | struct ts =>
    obtain ⟨levels, hl, -, rfl⟩ := (enter_struct_eq_ok_iff h).mp hs
    exact (enter_struct_eq_ok_iff (h.withData data)).mpr
      ⟨levels, hl, at_gap.mpr (Nat.le_trans hpos hn.le_length), rfl⟩
  | dictEntry k e =>
    obtain ⟨levels, hl, -, rfl⟩ := (enter_dictEntry_eq_ok_iff h).mp hs
    exact (enter_dictEntry_eq_ok_iff (h.withData data)).mpr
      ⟨levels, hl, at_gap.mpr (Nat.le_trans hpos hn.le_length), rfl⟩
  | variant =>
    obtain ⟨t, levels, ht, hl, hat, rfl⟩ := (enter_variant_eq_ok_iff h).mp hs
    have hat := hn.at_withData (Nat.le_trans (Nat.le_of_eq (add_length_variantHead ..)) hpos) hat
    exact (enter_variant_eq_ok_iff (h.withData data)).mpr ⟨t, levels, ht, hl, hat, rfl⟩

/-- An array is gone into in the other body where that shares the array to its end. -/
theorem StandsAt.array_withData (h : r.StandsAt (.array u) us) (hs : r.enter = .ok s)
    (hp : endBy endOf r = .ok p) (hn : r.Shares data p) :
    s.stop = p ∧ s.Repeats u ∧ (r.withData data).enter = .ok (s.withData data) ∧
      (s.withData data).stop = s.stop ∧ s.Shares data s.stop := by
  obtain ⟨items, hitems, rfl⟩ := (endBy_array_iff h).mp hp
  rw [hs, Except.ok.injEq] at hitems
  subst hitems
  have hrepeats : s.Repeats u := by
    obtain ⟨_, _, -, -, -, -, rfl⟩ := (enter_array_eq_ok_iff h).mp hs
    exact ⟨rfl, rfl, rfl⟩
  have hin := h.inside hs
  exact ⟨rfl, hrepeats, h.enter_withData hs hn hin.pos_le_stop fun _ => Nat.le_refl _,
    by simp [Reader.withData, hrepeats.repeats], hn.of_data_eq hin.data⟩

/-- Any other container is gone into in the other body where that shares the contents to their
end. -/
theorem StandsAt.contents_withData (hend : EndsWithin endOf) (h : r.StandsAt u us)
    (hu : u.code = .struct ∨ u.code = .dictEntry ∨ u.code = .variant) (hs : r.enter = .ok s)
    (hp : endBy endOf r = .ok p) (hn : r.Shares data p) :
    s.pos ≤ s.data.length ∧ (∃ ts, s.Follows ts) ∧
      lastEnd endOf s.signature.length s = .ok p ∧ (r.withData data).enter = .ok (s.withData data) ∧
        s.Shares data p := by
  obtain ⟨contents, hcontents, hp⟩ := (endBy_contents_iff h hu).mp hp
  rw [hs, Except.ok.injEq] at hcontents
  subst hcontents
  have hin := h.inside hs
  have hpos : s.pos ≤ s.data.length := hin.data ▸ Nat.le_trans hin.pos_le_stop hin.stop_le
  obtain ⟨ts, hts⟩ := h.enter_follows hs (by rcases hu with hu | hu | hu <;> simp [hu])
  have hstop : s.repeats = true → s.stop ≤ p := fun hrep => by simp [hts.repeats] at hrep
  obtain ⟨hle, -⟩ := lastEnd_within hend hts hpos hp
  exact ⟨hpos, ⟨ts, hts⟩, hp, h.enter_withData hs hn hle hstop, hn.of_data_eq hin.data⟩

/-! ## The end of a value -/

/-- Values that end within what the two bodies share end there in both. -/
def EndsOver (endOf : Reader → Except Error Nat) : Prop :=
  ∀ {r : Reader} {t : Ty} {ts : List Ty} {p : Nat} {data : Bytes}, r.StandsAt t ts →
    endOf r = .ok p → r.Shares data p → endOf (r.withData data) = .ok p

/-- The end of several fields is found in the other body if it is shared. Each of them ends no
later, so the ends in between are shared as well. -/
theorem lastEnd_withData {endOf : Reader → Except Error Nat} (hend : EndsWithin endOf)
    (hover : EndsOver endOf) {n : Nat} (h : r.Follows ts) (hpos : r.pos ≤ r.data.length)
    (hp : lastEnd endOf n r = .ok p) (hn : r.Shares data p) :
    lastEnd endOf n (r.withData data) = .ok p := by
  induction n generalizing r ts with
  | zero => exact hp
  | succ n ih =>
    cases ts with
    | nil =>
      rw [h.lastEnd_nil] at hp
      rw [(h.withData data).lastEnd_nil]
      exact hp
    | cons t ts =>
      obtain ⟨q, hq, hp⟩ := h.lastEnd_cons_iff.mp hp
      obtain ⟨-, hlen⟩ := hend h.standsAt hq
      obtain ⟨hqp, -⟩ := lastEnd_within hend (h.goTo q) hlen hp
      refine (h.withData data).lastEnd_cons_iff.mpr ⟨q, hover h.standsAt hq (hn.mono hqp), ?_⟩
      exact ih (h.goTo q) hlen hp (hn.of_data_eq rfl)

/-- One level of moving on looks at no byte behind the end that it finds. -/
theorem endBy_withData {endOf : Reader → Except Error Nat} (hend : EndsWithin endOf)
    (hover : EndsOver endOf) : EndsOver (endBy endOf) := by
  intro r t ts p data h hp hn
  cases t with
  | basic b =>
    cases b with
    | fixed c =>
      obtain ⟨rfl, -⟩ := (endBy_fixed_iff h).mp hp
      exact (endBy_fixed_iff (h.withData data)).mpr ⟨rfl, hn.le_length⟩
    | text c =>
      obtain ⟨k, hk, hat, rfl, -⟩ := (endBy_text_iff h).mp hp
      have hlen : r.pos + (textHead r.endian r.pos c k).length ≤ textStart r.pos c + k + 1 := by
        rw [add_length_textHead]
        omega
      exact (endBy_text_iff (h.withData data)).mpr
        ⟨k, hk, hn.at_withData hlen hat, rfl, hn.le_length⟩
  | array t =>
    obtain ⟨s, hs, rfl⟩ := (endBy_array_iff h).mp hp
    obtain ⟨-, -, henter, hstop, -⟩ := h.array_withData hs hp hn
    exact (endBy_array_iff (h.withData data)).mpr ⟨_, henter, hstop⟩
  | struct _ | dictEntry _ _ | variant =>
    obtain ⟨s, hs, -⟩ := (endBy_contents_iff h (by simp [Ty.code])).mp hp
    obtain ⟨hpos, ⟨us, hus⟩, hp, henter, hn⟩ :=
      h.contents_withData hend (by simp [Ty.code]) hs hp hn
    exact (endBy_contents_iff (h.withData data) (by simp [Ty.code])).mpr
      ⟨_, henter, lastEnd_withData hend hover hus hpos hp hn⟩

/-- Any number of levels of moving on looks at no byte behind the end that it finds. -/
theorem endWithin_withData (levels : Nat) : EndsOver (endWithin levels) := by
  induction levels with
  | zero => exact endBy_withData (fun _ h => by cases h) fun _ h _ => by cases h
  | succ levels ih => exact endBy_withData (endWithin_within levels) ih

/-- A value ends in the other body where it ends in this one. -/
theorem StandsAt.valueEnd_withData (h : r.StandsAt t ts) (hp : r.valueEnd = .ok p)
    (hn : r.Shares data p) : (r.withData data).valueEnd = .ok p :=
  endWithin_withData r.levels h hp hn

/-- A cursor is advanced in the other body just as in this one. -/
theorem StandsAt.advance_withData (h : r.StandsAt t ts) (hs : r.advance = .ok s)
    (hn : r.Shares data s.pos) : (r.withData data).advance = .ok (s.withData data) := by
  obtain ⟨p, hp, hstop, rfl⟩ := h.advance_eq_ok_iff.mp hs
  refine (h.withData data).advance_eq_ok_iff.mpr ⟨p, h.valueEnd_withData hp hn, fun hrep => ?_, rfl⟩
  have hrep : r.repeats = true := hrep
  simpa [Reader.withData, hrep] using hstop hrep

/-- Going past the values of the types one by one comes to the end `p`. -/
structure SkipsTo (r : Reader) (ts : List Ty) (p : Nat) : Prop where
  follows : r.Follows ts
  lastEnd : ∃ n, ts.length ≤ n ∧ Reader.lastEnd (endWithin r.levels) n r = .ok p

/-- A cursor that skips several types skips the first of them and then the others. -/
theorem SkipsTo.cons (h : r.SkipsTo (t :: ts) p) :
    ∃ q, r.valueEnd = .ok q ∧ q ≤ p ∧ r.advance = .ok (r.goTo t q) ∧ (r.goTo t q).SkipsTo ts p := by
  obtain ⟨_ | n, hlen, hp⟩ := h.lastEnd
  · cases hlen
  obtain ⟨q, hq, hp⟩ := h.follows.lastEnd_cons_iff.mp hp
  have hgo := h.follows.goTo q
  obtain ⟨-, hqlen⟩ := h.follows.standsAt.valueEnd_within hq
  obtain ⟨hqp, -⟩ := lastEnd_within (endWithin_within r.levels) hgo hqlen hp
  refine ⟨q, hq, hqp, ?_, hgo, n, Nat.le_of_succ_le_succ hlen, hp⟩
  refine h.follows.standsAt.advance_eq_ok_iff.mpr ⟨q, hq, fun hrep => ?_, ?_⟩
  · rw [h.follows.repeats] at hrep
    cases hrep
  · simp [moveOn, goTo, h.follows.repeats]

end Reader

namespace Marshaller

variable {m : Marshaller} {r s : Reader} {t u : Ty} {ts us : List Ty} {v : Value} {data : Bytes}
  {n p : Nat}

/-! ## Loops -/

/-- What is read by cursors of a level at a value is read in every body that shares the bytes up
to the end of the value. -/
def ReadsOver (read : Reader → Except Error Value) (levels : Nat) : Prop :=
  ∀ {r : Reader} {u : Ty} {us : List Ty} {v : Value} {p : Nat} {data : Bytes}, r.levels = levels →
    r.StandsAt u us → read r = .ok v → r.valueEnd = .ok p → r.Shares data p →
      read (r.withData data) = .ok v

/-- Items are read from the other body if all of the array is shared. -/
theorem readItems_withData {read : Reader → Except Error Value} {levels : Nat}
    (hread : ReadsOver read levels) {vs : List Value} (hl : r.levels = levels) (hr : r.Repeats u)
    (h : readItems read n r = .ok vs) (hn : r.Shares data r.stop) :
    readItems read n (r.withData data) = .ok vs := by
  induction n generalizing r vs with
  | zero => exact h
  | succ n ih =>
    by_cases hend : r.stop ≤ r.pos
    · rw [readItems, hr.current_end hend] at h
      rw [readItems, Reader.current_withData, hr.current_end hend]
      exact h
    have hst := hr.standsAt (Nat.lt_of_not_le hend)
    simp only [readItems, hst.current_eq, bind_eq_ok, pure_eq_ok] at h
    obtain ⟨v, hv, s, hs, ws, hws, rfl⟩ := h
    obtain ⟨p, hp, hstop, rfl⟩ := hst.advance_eq_ok_iff.mp hs
    have hn' := hn.mono (hstop hr.repeats)
    simp only [readItems, Reader.current_withData, hst.current_eq, hread hl hst hv hp hn', ok_bind,
      hst.advance_withData hs (hn'.of_data_eq rfl)]
    rw [ih (r := r.moveOn u p) hl (hr.advance hs) hws (hn.of_data_eq rfl)]
    rfl

/-- Fields are read from the other body if the end of the last is shared. -/
theorem readFields_withData {levels : Nat} {read : Ty → Reader → Except Error Value}
    (hread : ∀ t, ReadsOver (read t) levels) {vs : List Value} (hl : r.levels = levels)
    (hr : r.SkipsTo us p) (h : readFields read ts r = .ok vs) (hn : r.Shares data p) :
    readFields read ts (r.withData data) = .ok vs := by
  induction ts generalizing r us vs with
  | nil => exact h
  | cons t ts ih =>
    simp only [readFields, bind_eq_ok, pure_eq_ok] at h
    obtain ⟨v, hv, s, hs, ws, hws, rfl⟩ := h
    obtain ⟨u, us, rfl, hst, -⟩ := hr.follows.advance hs
    obtain ⟨q, hq, hqp, hadvance, hrest⟩ := hr.cons
    obtain rfl : s = r.goTo u q := by rwa [hs, Except.ok.injEq] at hadvance
    simp only [readFields, hread t hl hst hv hq (hn.mono hqp), ok_bind,
      hst.advance_withData hs (hn.mono hqp)]
    rw [ih (r := r.goTo u q) hl hrest hws (hn.of_data_eq rfl)]
    rfl

/-! ## One level -/

section

variable (hp : r.valueEnd = .ok p) (hn : r.Shares data p)

include hp hn

/-- An array is entered in the other body, and its items are shared. -/
theorem array_withData (h : r.StandsAt (.array u) us) (hs : r.enter = .ok s) :
    s.Repeats u ∧ (r.withData data).enter = .ok (s.withData data) ∧
      (s.withData data).stop = s.stop ∧ s.Shares data s.stop := by
  rw [Reader.valueEnd, Reader.levels_of_enter hs] at hp
  exact (h.array_withData hs hp hn).2

/-- A struct, a dict entry or a variant is entered in the other body, and what is inside is shared
up to the end of the value. -/
theorem contents_withData (h : r.StandsAt u us)
    (hu : u.code = .struct ∨ u.code = .dictEntry ∨ u.code = .variant) (hs : r.enter = .ok s) :
    ∃ ts, s.SkipsTo ts p ∧ (r.withData data).enter = .ok (s.withData data) ∧ s.Shares data p := by
  rw [Reader.valueEnd, Reader.levels_of_enter hs] at hp
  obtain ⟨-, ⟨ts, hts⟩, hlast, henter, hn⟩ :=
    h.contents_withData (Reader.endWithin_within s.levels) hu hs hp hn
  exact ⟨ts, ⟨hts, _, hts.length_le, hlast⟩, henter, hn⟩

theorem entry_withData {k : BasicCode} (h : r.StandsAt (.dictEntry k u) us) (hs : r.enter = .ok s) :
    s.SkipsTo [.basic k, u] p ∧ (r.withData data).enter = .ok (s.withData data) ∧
      s.Shares data p := by
  obtain ⟨ts, hskips, henter, hn⟩ := contents_withData hp hn h (.inr (.inl rfl)) hs
  have hsignature := hskips.follows.signature
  obtain ⟨_, -, -, rfl⟩ := (Reader.enter_dictEntry_eq_ok_iff h).mp hs
  obtain rfl := Ty.renderAll_inj hsignature
  exact ⟨hskips, henter, hn⟩

theorem variant_withData (h : r.StandsAt .variant us) (hs : r.enter = .ok s) :
    ∃ t, s.SkipsTo [t] p ∧ (r.withData data).enter = .ok (s.withData data) ∧ s.Shares data p := by
  obtain ⟨ts, hskips, henter, hn⟩ := contents_withData hp hn h (.inr (.inr rfl)) hs
  have hsignature := hskips.follows.signature
  obtain ⟨t, _, -, -, -, rfl⟩ := (Reader.enter_variant_eq_ok_iff h).mp hs
  have hrender : Ty.renderAll [t] = Ty.renderAll ts := by simpa [Ty.renderAll] using hsignature
  obtain rfl := Ty.renderAll_inj hrender
  exact ⟨t, hskips, henter, hn⟩

/-- One level of reading looks at no byte behind the end of the value. -/
theorem readBy_withData {inner : (room : Nat) → Ty → Reader → Except Error Value} {room : Nat}
    (hinner : ∀ {n}, r.levels = n + 1 → ∀ room t, ReadsOver (inner room t) n)
    (hr : r.StandsAt u us) (h : m.readBy inner room t r = .ok v) :
    m.readBy inner room t (r.withData data) = .ok v := by
  obtain ⟨hentry, hrequire, h⟩ := readBy_eq_ok_iff.mp h
  have hcode : u.code = t.code := Except.ok.inj (hr.require_eq.symm.trans hrequire)
  obtain ⟨endOf, hendOf⟩ := Reader.exists_endBy r.levels
  have hend : Reader.endBy endOf r = .ok p := by rwa [Reader.valueEnd, hendOf] at hp
  refine readBy_eq_ok_iff.mpr ⟨hentry, by rwa [r.require_withData data], ?_⟩
  cases h with
  | fixed hw =>
    cases u with
    | basic c =>
      cases hcode
      exact .fixed (Reader.word_withData hr hw hend hn)
    | _ => simp [Ty.code] at hcode
  | text hs hcheck =>
    cases u with
    | basic c =>
      cases hcode
      exact .text (Reader.text_withData hr hs hend hn) hcheck
    | _ => simp [Ty.code] at hcode
  | @array k e _ items vs hs hvs =>
    cases u with
    | array u =>
      obtain ⟨hrepeats, henter, hstop, hn⟩ := array_withData hp hn hr hs
      refine .array henter ?_
      rw [hstop]
      exact readItems_withData (hinner (Reader.levels_of_enter hs) k e) rfl hrepeats hvs hn
    | _ => simp [Ty.code] at hcode
  | @struct k ts _ fields vs hs hvs =>
    obtain ⟨us, hskips, henter, hn⟩ := contents_withData hp hn hr (.inl hcode) hs
    exact .struct henter
      (readFields_withData (hinner (Reader.levels_of_enter hs) k) rfl hskips hvs hn)
  | @dictEntry k l e _ entry next key value hs hkey hadvance hvalue =>
    cases u with
    | dictEntry l' u =>
      obtain ⟨hskips, henter, hn⟩ := entry_withData hp hn hr hs
      have hread := hinner (Reader.levels_of_enter hs) k
      obtain ⟨q, hq, hqp, hgo, hrest⟩ := hskips.cons
      obtain rfl : next = entry.goTo (.basic l') q := by rwa [hadvance, Except.ok.injEq] at hgo
      obtain ⟨q', hq', hqp', -, -⟩ := hrest.cons
      have hstands := hskips.follows.standsAt
      refine .dictEntry henter (hread (.basic l) rfl hstands hkey hq (hn.mono hqp))
        (hstands.advance_withData hadvance (hn.mono hqp)) ?_
      exact hread e rfl hrest.follows.standsAt hvalue hq' ((hn.mono hqp').of_data_eq rfl)
    | _ => simp [Ty.code] at hcode
  | @variant k x _ contents w hs hx hw =>
    cases u with
    | variant =>
      obtain ⟨y, hskips, henter, hn⟩ := variant_withData hp hn hr hs
      obtain ⟨q, hq, hqp, -, -⟩ := hskips.cons
      exact .variant henter hx
        (hinner (Reader.levels_of_enter hs) k x rfl hskips.follows.standsAt hw hq (hn.mono hqp))
    | _ => simp [Ty.code] at hcode

end

/-! ## All levels -/

/-- Any number of levels of reading looks at no byte behind the end of the value. -/
theorem readWithin_withData (levels room : Nat) (t : Ty) :
    ReadsOver (m.readWithin levels room t) levels := by
  induction levels generalizing room t with
  | zero =>
    rintro r u us v p data hl hr h hp hn
    exact readBy_withData hp hn (fun hn => by simp [hl] at hn) hr h
  | succ levels ih =>
    rintro r u us v p data hl hr h hp hn
    refine readBy_withData hp hn (fun {n} hn room t => ?_) hr h
    obtain rfl : levels = n := by omega
    exact ih room t

end Marshaller

/-! ## Cursors over a body -/

namespace Reader

variable {msg : Message} {e : Endian} {r s : Reader} {t : Ty} {ts : List Ty} {data : Bytes}
  {more : Bool}

/-- Moving on takes a cursor over the other body just as over this one. -/
theorem StandsAt.next_withData (h : r.StandsAt t ts) (hs : r.next = (.ok more, s))
    (hn : r.Shares data s.pos) : (r.withData data).next = (.ok more, s.withData data) := by
  obtain ⟨hadvance, rfl⟩ := next_eq_ok_iff.mp hs
  exact next_eq_ok_iff.mpr ⟨h.advance_withData hadvance hn, by rw [current_withData]⟩

/-- The cursor is that of the message, moved on. -/
inductive TopLevel (msg : Message) (e : Endian) : Reader → Prop
  | start {r : Reader} : msg.reader e = .ok r → TopLevel msg e r
  | next {r : Reader} : TopLevel msg e r → TopLevel msg e r.next.2

namespace TopLevel

theorem reachable (h : r.TopLevel msg e) : r.Reachable msg e := by
  induction h with
  | start h => exact .start h
  | next _ ih => exact .next ih

/-- The cursor is over the whole body. -/
theorem whole (h : r.TopLevel msg e) :
    r.data = msg.data ∧ r.repeats = false ∧ r.stop = msg.data.length := by
  induction h with
  | start h =>
    obtain ⟨-, rfl⟩ := Message.reader_eq_ok_iff.mp h
    exact ⟨rfl, rfl, rfl⟩
  | @next r _ ih =>
    obtain ⟨p, i, hnext⟩ := r.exists_next_eq
    rw [hnext]
    exact ih

/-- The cursor is had in the same way from every message with the bytes that it has passed. -/
theorem withData (h : r.TopLevel msg e) (hn : r.Shares data r.pos) :
    (r.withData data).TopLevel ⟨data, msg.signature⟩ e := by
  induction h with
  | start h =>
    obtain ⟨hts, rfl⟩ := Message.reader_eq_ok_iff.mp h
    exact .start (Message.reader_eq_ok_iff.mpr ⟨hts, rfl⟩)
  | @next r h ih =>
    obtain ⟨done, ts, hplaced⟩ := h.reachable.placed
    rcases hplaced.next_cases with ⟨_, hnext⟩ | ⟨t, us, p, -, hst, hp, hnext⟩
    · rw [hnext] at hn ⊢
      exact ih hn
    · have hrep : ¬(r.repeats = true ∧ r.stop < p) := by simp [h.whole.2.1]
      rw [if_neg hrep] at hnext
      rw [hnext] at hn ⊢
      have hn : r.Shares data p := hn.of_data_eq rfl
      have hover := hst.next_withData hnext (hn.of_data_eq rfl)
      have hnext := (ih (hn.mono (hst.valueEnd_within hp).1)).next
      rwa [hover] at hnext

end TopLevel

end Reader

namespace Marshaller

variable {m : Marshaller} {t : Ty} {v : Value}

/-- Values are told by their own bytes. If a value is read through a cursor over the whole body
and the cursor then moves on, the same cursor on any other body with the same bytes up to where it
is now, cut off there or continued in any way, reads the same value and moves to the same place. On
the body cut off before that place it does not move on. -/
theorem readValue_of_take_eq {msg : Message} {e : Endian} {r s : Reader} (hr : r.TopLevel msg e)
    (hv : m.readValue t r = .ok v) {more : Bool} (hs : r.next = (.ok more, s)) :
    (∀ data : Bytes, data.take s.pos = msg.data.take s.pos →
      (r.withData data).TopLevel ⟨data, msg.signature⟩ e ∧ m.readValue t (r.withData data) = .ok v ∧
        (r.withData data).next = (.ok more, s.withData data)) ∧
      ∀ n < s.pos, ∃ err, (r.withData (msg.data.take n)).next =
        (.error err, r.withData (msg.data.take n)) := by
  obtain ⟨done, ts, hplaced⟩ := hr.reachable.placed
  obtain ⟨u, us, -, hst⟩ := hplaced.exists_standsAt (require_of_readValue hv)
  obtain ⟨p, hp, -, rfl⟩ := hst.advance_eq_ok_iff.mp (Reader.next_eq_ok_iff.mp hs).1
  obtain ⟨hle, hlen⟩ := hst.valueEnd_within hp
  obtain ⟨hdata, hrep, hstop⟩ := hr.whole
  constructor
  · intro data htake
    have hn : r.Shares data p := ⟨hlen, hdata ▸ htake⟩
    exact ⟨hr.withData (hn.mono hle), readWithin_withData r.levels m.maxDepth t rfl hst hv hp hn,
      hst.next_withData hs (hn.of_data_eq rfl)⟩
  · intro n hlt
    have hplaced : (r.withData (msg.data.take n)).Placed done ts := ⟨hplaced.signature, hplaced.ix⟩
    rcases hplaced.next_cases with hnext | ⟨u', us', q, -, hst', hq, -⟩
    · exact hnext
    -- the value would end within the part, and at the same place in the whole
    obtain ⟨-, hqlen⟩ := hst'.valueEnd_within hq
    have hqn : q ≤ n := Nat.le_trans hqlen (List.length_take_le n msg.data)
    have hn : (r.withData (msg.data.take n)).Shares msg.data q :=
      ⟨hqlen, by rw [Reader.withData, List.take_take, Nat.min_eq_left hqn]⟩
    have hback : (r.withData (msg.data.take n)).withData msg.data = r := by
      cases r
      subst hrep hdata hstop
      rfl
    have hover := hst'.valueEnd_withData hq hn
    rw [hback, hp, Except.ok.injEq] at hover
    subst hover
    exact absurd hqn (Nat.not_le_of_lt hlt)

/-- A boolean in a variant, behind a byte and in front of another one. -/
theorem readValue_of_take_eq_variant :
    Reader.TopLevel ⟨[7, 1, 98, 0, 1, 0, 0, 0, 9], [121, 118]⟩ .little
        ⟨.little, [7, 1, 98, 0, 1, 0, 0, 0, 9], 1, 9, [121, 118], 1, false, 64⟩ ∧
      ({} : Marshaller).readValue .variant
          ⟨.little, [7, 1, 98, 0, 1, 0, 0, 0, 9], 1, 9, [121, 118], 1, false, 64⟩ =
        .ok (.variant ⟨.fixed .boolean, none⟩ (.scalar (.boolean true))) ∧
      ({} : Marshaller).readValue .variant
          ⟨.little, [7, 1, 98, 0, 1, 0, 0, 0], 1, 8, [121, 118], 1, false, 64⟩ =
        .ok (.variant ⟨.fixed .boolean, none⟩ (.scalar (.boolean true))) ∧
      ∃ err s, Reader.next ⟨.little, [7, 1, 98, 0, 1, 0, 0], 1, 7, [121, 118], 1, false, 64⟩ =
        (.error err, s) := by
  have hstart : Message.reader ⟨[7, 1, 98, 0, 1, 0, 0, 0, 9], [121, 118]⟩ .little =
      .ok ⟨.little, [7, 1, 98, 0, 1, 0, 0, 0, 9], 0, 9, [121, 118], 0, false, 64⟩ := by rfl
  have hr : Reader.TopLevel ⟨[7, 1, 98, 0, 1, 0, 0, 0, 9], [121, 118]⟩ .little
      ⟨.little, [7, 1, 98, 0, 1, 0, 0, 0, 9], 1, 9, [121, 118], 1, false, 64⟩ :=
    .next (.start hstart)
  have hv : ({} : Marshaller).readValue .variant
      ⟨.little, [7, 1, 98, 0, 1, 0, 0, 0, 9], 1, 9, [121, 118], 1, false, 64⟩ =
        .ok (.variant ⟨.fixed .boolean, none⟩ (.scalar (.boolean true))) := by rfl
  have hs : Reader.next ⟨.little, [7, 1, 98, 0, 1, 0, 0, 0, 9], 1, 9, [121, 118], 1, false, 64⟩ =
      (.ok false, ⟨.little, [7, 1, 98, 0, 1, 0, 0, 0, 9], 8, 9, [121, 118], 2, false, 64⟩) := by
    rfl
  obtain ⟨hsame, hcut⟩ := readValue_of_take_eq hr hv hs
  obtain ⟨-, hread, -⟩ := hsame [7, 1, 98, 0, 1, 0, 0, 0] (by rfl)
  obtain ⟨err, hnext⟩ := hcut 7 (by decide)
  exact ⟨hr, hv, hread, err, _, hnext⟩

end Marshaller

end DBus
