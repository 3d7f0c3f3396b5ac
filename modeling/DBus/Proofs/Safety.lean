import DBus.Proofs.Checked
import DBus.Proofs.RoundTrip

/-!
# Cursors over any bytes

Whatever the bytes of a body are, and whatever is done with the cursors over it, a cursor stays
in place (`InPlace`): its position and its end are within the body, its signature is one that
could be parsed, cut out between two complete types, and it stands between two of the types or at
the end of them. Moving on keeps this, also the failing move over an item that is too long, which
leaves the cursor behind the item (`InPlace.next`), and so does entering (`InPlace.enter`).

In such a place none of the operations runs into a fault on a machine: each does there what the
plain operation does (`Opened.faultless`).
-/

namespace DBus

-- `^` is the power of the standard library, whichever others are in scope.
attribute [local instance (1100)] instPowNat

namespace Reader

variable {r s : Reader} {t u : Ty} {ts us done : List Ty} {p : Nat}

/-! ## The place of a cursor -/

/-- A cursor may go through the types. An array cursor has one of them, the element of the
array, and that alone may be a dict entry. -/
structure Types (repeats : Bool) (ts : List Ty) : Prop where
  formed : ∀ t ∈ ts, t.Formed repeats maxTypeDepth maxTypeDepth
  single : repeats = true → ts.length = 1

/-- The cursor is within its body and between the types of its signature. -/
structure InPlace (r : Reader) : Prop where
  pos_le : r.pos ≤ r.data.length
  stop_le : r.stop ≤ r.data.length
  signature_le : r.signature.length ≤ maxSignatureLength
  placed : ∃ done ts, r.Placed done ts ∧ Types r.repeats (done ++ ts)

/-- A cursor at the front of a body is in place. -/
theorem InPlace.start {msg : Message} {e : Endian} (h : msg.reader e = .ok r) : r.InPlace := by
  obtain ⟨⟨ts, hts⟩, rfl⟩ := Message.reader_eq_ok_iff.mp h
  obtain ⟨hlen, hc, hrender⟩ := parseTypes_eq_ok_iff.mp hts
  exact ⟨Nat.zero_le _, Nat.le_refl _, hlen, [], ts, ⟨hrender.symm, rfl⟩, hc, nofun⟩

/-! ## Moving on -/

/-- The current type is one of those of the signature. -/
theorem InPlace.placed_of_standsAt (h : r.InPlace) (hst : r.StandsAt t ts) :
    ∃ done, r.Placed done (t :: ts) ∧ Types r.repeats (done ++ t :: ts) := by
  obtain ⟨done, us, hplaced, htypes⟩ := h.placed
  have hus := hplaced.drop_eq
  rw [hst.signature] at hus
  obtain rfl := Ty.renderAll_inj hus
  exact ⟨done, hplaced, htypes⟩

/-- A cursor that is moved within the body stays in place. -/
theorem InPlace.goTo (h : r.InPlace) (hst : r.StandsAt t ts) (hp : p ≤ r.data.length) :
    (r.goTo t p).InPlace := by
  obtain ⟨done, hplaced, htypes⟩ := h.placed_of_standsAt hst
  refine ⟨hp, h.stop_le, h.signature_le, done ++ [t], ts, ⟨?_, ?_⟩, ?_⟩
  · simpa [Reader.goTo] using hplaced.signature
  · simp [Reader.goTo, hplaced.ix, Ty.renderAll_append, Ty.renderAll]
  · simpa [Reader.goTo] using htypes

/-- So does one that is rewound for the next item. -/
theorem InPlace.moveOn (h : r.InPlace) (hst : r.StandsAt t ts) (hp : p ≤ r.data.length) :
    (r.moveOn t p).InPlace := by
  cases hrep : r.repeats with
  | true =>
    obtain ⟨done, hplaced, htypes⟩ := h.placed_of_standsAt hst
    exact ⟨hp, h.stop_le, h.signature_le, [], done ++ t :: ts,
      ⟨hplaced.signature, by simp [Reader.moveOn, hrep, Ty.renderAll]⟩, htypes⟩
  | false =>
    have hmove : r.moveOn t p = r.goTo t p := by simp [Reader.moveOn, Reader.goTo, hrep]
    rw [hmove]
    exact h.goTo hst hp

/-- Moving on, or failing to, keeps a cursor in place. -/
theorem InPlace.next (h : r.InPlace) : r.next.2.InPlace := by
  obtain ⟨done, ts, hplaced, -⟩ := h.placed
  rcases hplaced.next_cases with ⟨_, hnext⟩ | ⟨t, us, p, -, hst, hp, hnext⟩
  · rwa [hnext]
  · obtain ⟨-, hlen⟩ := hst.valueEnd_within hp
    rw [hnext]
    split
    · exact h.goTo hst hlen
    · exact h.moveOn hst hlen

/-! ## Entering -/

/-- Where there is a current value, its type is one that may stand there. -/
theorem InPlace.exists_standsAt (h : r.InPlace) {c : TypeCode} (hc : r.require = .ok c) :
    ∃ t ts, r.StandsAt t ts ∧ t.code = c ∧ t.Formed r.repeats maxTypeDepth maxTypeDepth := by
  obtain ⟨done, ts, hplaced, htypes⟩ := h.placed
  obtain ⟨t, us, rfl, hst⟩ := hplaced.exists_standsAt hc
  rw [hst.require_eq, Except.ok.injEq] at hc
  exact ⟨t, us, hst, hc, htypes.formed t (by simp)⟩

/-- The signature goes at least to the end of the type at the cursor. -/
theorem StandsAt.length_le (h : r.StandsAt t ts) :
    r.ix + t.render.length ≤ r.signature.length := by
  have hlen := congrArg List.length h.signature
  have hpos := t.length_render_pos
  rw [List.length_drop, Ty.renderAll, List.length_append] at hlen
  omega

/-- The signature inside of a container is shorter, and its types may stand there. -/
theorem StandsAt.enter_types (h : r.StandsAt u us)
    {b : Bool} (hu : u.Formed b maxTypeDepth maxTypeDepth) (hs : r.enter = .ok s) :
    (s.signature.length ≤ r.signature.length ∨ s.signature.length ≤ maxSignatureLength) ∧
      ∃ ts, s.Placed [] ts ∧ Types s.repeats ts := by
  have hlen := h.length_le
  cases u with
  | basic b => exact absurd hs (enter_basic_ne_ok h)
  | array e =>
    obtain ⟨n, levels, -, -, -, -, rfl⟩ := (enter_array_eq_ok_iff h).mp hs
    rw [Ty.render, List.length_cons] at hlen
    refine ⟨.inl (by dsimp only; omega), [e], ⟨by simp [Ty.renderAll], rfl⟩, ?_, fun _ => rfl⟩
    cases hu with
    | array he => exact List.forall_mem_singleton.mpr (he.mono (Nat.le_succ _) (Nat.le_refl _))
  | struct ts =>
    obtain ⟨levels, -, -, rfl⟩ := (enter_struct_eq_ok_iff h).mp hs
    rw [Ty.render, List.length_cons, List.length_append] at hlen
    refine ⟨.inl (by dsimp only; omega), ts, ⟨rfl, rfl⟩, ?_, fun h => by cases h⟩
    cases hu with
    | struct _ hts => exact fun t ht => (hts t ht).mono (Nat.le_refl _) (Nat.le_succ _)
  | dictEntry k e =>
    obtain ⟨levels, -, -, rfl⟩ := (enter_dictEntry_eq_ok_iff h).mp hs
    rw [Ty.render, List.length_cons, List.length_cons, List.length_append] at hlen
    refine ⟨.inl ?_, [.basic k, e], ⟨rfl, rfl⟩, ?_, fun h => by cases h⟩
    · simp only [Ty.renderAll, Ty.render, List.length_append, List.length_singleton,
        List.length_nil]
      omega
    · cases hu with
      | dictEntry _ he =>
        have he := he.mono (Nat.le_refl _) (Nat.le_succ _)
        exact List.forall_mem_cons.mpr ⟨.basic k, List.forall_mem_singleton.mpr he⟩
  | variant =>
    obtain ⟨t, levels, ht, -, -, rfl⟩ := (enter_variant_eq_ok_iff h).mp hs
    obtain ⟨hlen, hc⟩ := Ty.valid_iff.mp ht
    have hsingle : ∀ u ∈ [t], u.Formed false maxTypeDepth maxTypeDepth := by simpa using hc
    exact ⟨.inr hlen, [t], ⟨by simp [Ty.renderAll], rfl⟩, hsingle, fun h => by cases h⟩

/-- What is entered is in place again. -/
theorem InPlace.enter (h : r.InPlace) (hs : r.enter = .ok s) : s.InPlace := by
  obtain ⟨c, hc⟩ := require_of_enter hs
  obtain ⟨t, ts, hst, -, hformed⟩ := h.exists_standsAt hc
  have hin := hst.inside hs
  obtain ⟨hlen, us, hplaced, htypes⟩ := hst.enter_types hformed hs
  have hstop : s.stop ≤ s.data.length := hin.data ▸ hin.stop_le
  have hsignature := h.signature_le
  exact ⟨Nat.le_trans hin.pos_le_stop hstop, hstop, by omega, [], us, hplaced, htypes⟩

/-! ## Looking at a value, without a fault -/

section

open Checked

/-- A slice whose end does not overflow is taken without a fault, or refused. -/
theorem slice_plain {start length : Nat} (h : start + length < 2 ^ (64 : Nat)) :
    Checked.slice r start length = plain (r.slice start length) := by
  rw [Checked.slice, if_pos h, Reader.slice]
  by_cases hlen : start + length ≤ r.data.length
  · have hbetween := between_eq (Nat.le_add_right start length) hlen
    rw [if_neg (Nat.not_lt_of_le hlen), if_pos hlen, hbetween, List.drop_take,
      Nat.add_sub_cancel_left]
    rfl
  · rw [if_pos (Nat.lt_of_not_le hlen), if_neg hlen]
    rfl

/-- So is a number. -/
theorem number_plain {start width : Nat} (h : start + width < 2 ^ (64 : Nat)) :
    Checked.number r start width = plain (r.number start width) := by
  refine bind_plain (slice_plain h) fun bs hbs => ?_
  obtain ⟨rfl, -⟩ := slice_eq_ok_iff.mp hbs
  rw [between_zero_eq (Nat.le_refl _), List.take_length]
  rfl

/-- A number that is there is behind its place, and not too large. -/
theorem number_bounds {start width n : Nat} (h : r.number start width = .ok n) :
    start + width ≤ r.data.length ∧ n < 256 ^ width := by
  obtain ⟨hn, hat⟩ := number_eq_ok_iff.mp h
  have hlen := (at_fixed.mp hat).1
  rw [Endian.length_encode] at hlen
  exact ⟨hlen, hn⟩

/-- So are bytes with a zero byte behind them. -/
theorem nulTerminated_plain {start length : Nat} (h : start + (length + 1) < 2 ^ (64 : Nat)) :
    Checked.nulTerminated r start length = plain (r.nulTerminated start length) := by
  rw [Checked.nulTerminated, add_eq (by omega), ok_bind]
  refine bind_plain (slice_plain h) fun bs hbs => ?_
  have hlen := (slice_eq_ok_iff.mp hbs).1
  have hlast : bs[length]? = some bs[length] := List.getElem?_eq_getElem (by omega)
  simp only [byteAt, hlast, ok_bind, Option.some.injEq]
  split
  · rw [between_zero_eq (by omega)]
    rfl
  · rw [add_eq (by omega)]
    rfl

/-! A body that is held in memory has fewer than `2 ^ 63` bytes. -/

variable (hlen : r.data.length < 2 ^ (63 : Nat))

include hlen

/-- Rounding up the position of a cursor in place does not overflow, and the result is far from
it. -/
theorem InPlace.roundUp_eq (h : r.InPlace) (alignment : Nat)
    (ha : alignment = 1 ∨ alignment = 2 ∨ alignment = 4 ∨ alignment = 8) :
    Checked.roundUp r.pos alignment = .ok (alignUp r.pos alignment) ∧
      alignUp r.pos alignment < 2 ^ (63 : Nat) + 7 := by
  have hpos := h.pos_le
  obtain ⟨hup, hle⟩ := Checked.roundUp_eq ha (n := r.pos) (by omega)
  exact ⟨hup, by omega⟩

/-- The extent of a text is found without a fault. -/
theorem InPlace.textExtent_plain (h : r.InPlace) (c : TextCode) :
    Checked.textExtent r c = plain (r.textExtent c) := by
  have hpos := h.pos_le
  cases c with
  | signature =>
    refine bind_plain (number_plain (by omega)) fun n hn => ?_
    rw [add_eq (by omega)]
    rfl
  | string | objectPath =>
    obtain ⟨hup, hle⟩ := h.roundUp_eq hlen 4 (by decide)
    simp only [Checked.textExtent, Reader.textExtent, hup, ok_bind]
    refine bind_plain (number_plain (by omega)) fun n hn => ?_
    rw [add_eq (by omega)]
    rfl

omit hlen in
/-- The head of a text is within the body, and the number in it has four bytes at most. -/
theorem textExtent_bounds {c : TextCode} {start length : Nat}
    (h : r.textExtent c = .ok (start, length)) :
    start ≤ r.data.length ∧ length < 2 ^ (32 : Nat) := by
  obtain ⟨rfl, hn, hhead⟩ := textExtent_eq_ok_iff.mp h
  have hlen := hhead.1
  rw [add_length_textHead] at hlen
  refine ⟨hlen, Nat.lt_of_lt_of_le hn ?_⟩
  cases c <;> decide

/-- A word is read without a fault. -/
theorem InPlace.word_plain (h : r.InPlace) : Checked.word r = plain r.word := by
  refine bind_plain rfl fun c _ => ?_
  rcases c with (c | _) | _ | _ | _ | _
  case basic.fixed =>
    obtain ⟨hup, hle⟩ := h.roundUp_eq hlen _ (size_cases c)
    have hsize := size_cases c
    simp only [hup, ok_bind]
    refine bind_plain (slice_plain (by omega)) fun bs hbs => ?_
    obtain ⟨hbs, -⟩ := slice_eq_ok_iff.mp hbs
    rw [between_zero_eq (Nat.le_of_eq hbs.symm), ← hbs, List.take_length]
    rfl
  all_goals rfl

/-- A text is read without a fault. -/
theorem InPlace.text_plain (h : r.InPlace) : Checked.text r = plain r.text := by
  refine bind_plain rfl fun c _ => ?_
  rcases c with (_ | c) | _ | _ | _ | _
  case basic.text =>
    refine bind_plain (h.textExtent_plain hlen c) fun ⟨start, length⟩ hextent => ?_
    obtain ⟨hstart, hlength⟩ := textExtent_bounds hextent
    refine bind_plain (nulTerminated_plain (by omega)) fun bs _ => ?_
    refine bind_plain rfl fun u _ => ?_
    split <;> rfl
  all_goals rfl

omit hlen in
/-- The type at the cursor has an end within the signature. -/
theorem StandsAt.typeEnd_checked (h : r.StandsAt t ts) :
    Checked.typeEnd r.signature r.ix = .ok (r.ix + t.render.length) := by
  rw [Checked.typeEnd, h.typeEnd_eq]
  rfl

omit hlen in
/-- A value that is there has a type that ends. -/
theorem InPlace.currentSignature_plain (h : r.InPlace) :
    Checked.currentSignature r = plain r.currentSignature := by
  cases hc : r.require with
  | error e => simp only [Checked.currentSignature, Reader.currentSignature, hc]; rfl
  | ok c =>
    obtain ⟨t, ts, hst, -, -⟩ := h.exists_standsAt hc
    have hbetween := between_eq (Nat.le_add_right r.ix _) hst.length_le
    simp only [Checked.currentSignature, Reader.currentSignature, hc, hst.typeEnd_checked,
      hst.typeEnd_eq, plain_ok, ok_bind, hbetween]
    rfl

/-! ## Entering, without a fault -/

/-- An array is entered without a fault, its items ending where they may. -/
theorem InPlace.enterArray_plain (h : r.InPlace) {e : Ty} (hst : r.StandsAt (.array e) ts) :
    Checked.enterArray r = plain r.enterArray := by
  have hpos := h.pos_le
  have hsignature := h.signature_le
  have hdrop : r.signature.drop (r.ix + 1) = e.render ++ Ty.renderAll ts :=
    drop_add_of_drop (a := [TypeCode.array.byte]) hst.signature
  have hend := hst.length_le
  rw [Ty.render, List.length_cons] at hend
  have hbetween : between r.signature (r.ix + 1) (r.ix + 1 + e.render.length) = .ok e.render := by
    rw [between_eq (Nat.le_add_right _ _) (by omega), drop_take_of_drop hdrop]
  have htypeEnd : Checked.typeEnd r.signature (r.ix + 1) = .ok (r.ix + 1 + e.render.length) := by
    rw [Checked.typeEnd, typeEnd_of_drop hdrop]
    rfl
  obtain ⟨bs, hbs⟩ := e.render_eq_cons
  have hbyte : byteAt e.render 0 = .ok e.code.byte := by rw [hbs]; rfl
  have hhead : e.render.head? = some e.code.byte := by rw [hbs]; rfl
  obtain ⟨hup, hle⟩ := h.roundUp_eq hlen 4 (by decide)
  have hix : add r.ix 1 = .ok (r.ix + 1) := add_eq (by rw [maxSignatureLength] at hsignature; omega)
  simp only [Checked.enterArray, Reader.enterArray, hup, ok_bind]
  refine bind_plain (number_plain (by omega)) fun n hn => ?_
  obtain ⟨hstart, hn⟩ := number_bounds hn
  split
  · rfl
  simp only [hix, htypeEnd, hbetween, hbyte, typeEnd_of_drop hdrop,
    drop_take_of_drop hdrop, hhead, ok_bind, Option.bind_some, TypeCode.ofByte?_byte,
    Option.map_some, Option.getD_some]
  obtain ⟨hup, hle⟩ := Checked.roundUp_eq (alignment_cases e.code) (n := alignUp r.pos 4 + 4)
    (by omega)
  rw [add_eq (by omega), ok_bind, hup, ok_bind]
  refine bind_plain (discard_plain (slice_plain (by omega))) fun _ hslice => ?_
  rw [discard_eq_ok, exists_slice_eq_ok_iff] at hslice
  rw [add_eq (by omega)]
  rfl

/-- A struct or a dict entry is entered without a fault. Its signature has two brackets to be cut
off. -/
theorem InPlace.enterStruct_plain (h : r.InPlace) (hst : r.StandsAt t ts)
    (ht : 2 ≤ t.render.length) : Checked.enterStruct r = plain r.enterStruct := by
  have hsignature := h.signature_le
  have hend := hst.length_le
  obtain ⟨hup, hle⟩ := h.roundUp_eq hlen 8 (by decide)
  have hix : add r.ix 1 = .ok (r.ix + 1) := add_eq (by rw [maxSignatureLength] at hsignature; omega)
  have hclose : sub (r.ix + t.render.length) 1 = .ok (r.ix + t.render.length - 1) :=
    sub_eq (by omega)
  have hbetween : between r.signature (r.ix + 1) (r.ix + t.render.length - 1) = .ok _ :=
    between_eq (by omega) (by omega)
  simp only [Checked.enterStruct, Reader.enterStruct, hst.typeEnd_checked, hst.typeEnd_eq, ok_bind,
    hix, hclose, hbetween, hup]
  split <;> rfl

/-- A variant is entered without a fault. -/
theorem InPlace.enterVariant_plain (h : r.InPlace) :
    Checked.enterVariant r = plain r.enterVariant := by
  have hpos := h.pos_le
  refine bind_plain (number_plain (by omega)) fun n hn => ?_
  obtain ⟨hstart, hn⟩ := number_bounds hn
  rw [add_eq (by omega), ok_bind]
  refine bind_plain (nulTerminated_plain (by omega)) fun signature _ => ?_
  refine bind_plain (discard_plain rfl) fun _ _ => ?_
  rw [add_eq (by omega), ok_bind, add_eq (by omega)]
  rfl

/-- A container is entered without a fault, whatever its type is. -/
theorem InPlace.enter_plain (h : r.InPlace) : Checked.enter r = plain r.enter := by
  refine bind_plain rfl fun c hc => ?_
  obtain ⟨t, ts, hst, rfl, -⟩ := h.exists_standsAt hc
  cases t with
  | basic _ => rfl
  | array e => exact h.enterArray_plain hlen hst
  | struct _ => exact h.enterStruct_plain hlen hst (by simp [Ty.render])
  | dictEntry _ _ => exact h.enterStruct_plain hlen hst (by simp [Ty.render])
  | variant => exact h.enterVariant_plain hlen

end

/-! ## Moving on, without a fault -/

open Checked

/-- A cursor is moved without a fault. -/
theorem StandsAt.moveTo_checked (h : r.StandsAt t ts) (p : Nat) :
    Checked.moveTo r p = .ok (r.goTo t p) := by
  rw [Checked.moveTo, h.typeEnd_checked]
  rfl

/-- Values are skipped without a fault. -/
def Skips (endOf : Reader → Except Fault Nat) (plainEnd : Reader → Except Error Nat) : Prop :=
  ∀ r : Reader, r.data.length < 2 ^ (63 : Nat) → r.InPlace → endOf r = plain (plainEnd r)

section

variable {endOf : Reader → Except Fault Nat} {plainEnd : Reader → Except Error Nat}

/-- Fields are skipped without a fault if each of them is. -/
theorem Skips.lastEnd (hskips : Skips endOf plainEnd) (hend : EndsWithin plainEnd) (n : Nat) :
    Skips (Checked.lastEnd endOf n) (Reader.lastEnd plainEnd n) := by
  induction n with
  | zero => exact fun _ _ _ => rfl
  | succ n ih =>
    intro r hlen h
    simp only [Checked.lastEnd, Reader.lastEnd]
    cases hc : r.current with
    | none => rfl
    | some c =>
      have hrequire : r.require = .ok c := by rw [require, hc]
      obtain ⟨t, ts, hst, -, -⟩ := h.exists_standsAt hrequire
      refine bind_plain (hskips r hlen h) fun p hp => ?_
      obtain ⟨-, hp⟩ := hend hst hp
      rw [hst.moveTo_checked, hst.moveTo_goTo, ok_bind, ok_bind, rewind_goTo]
      split
      · rfl
      · exact ih _ hlen (h.moveOn hst hp)

/-- One level of skipping runs into no fault if the level below does not. -/
theorem Skips.endBy (hskips : Skips endOf plainEnd) (hend : EndsWithin plainEnd) :
    Skips (Checked.endBy endOf) (Reader.endBy plainEnd) := by
  intro r hlen h
  refine bind_plain rfl fun c hc => ?_
  obtain ⟨t, ts, hst, rfl, -⟩ := h.exists_standsAt hc
  have hcontents : (do let s ← Checked.enter r; Checked.lastEnd endOf s.signature.length s) =
      plain (do let s ← r.enter; Reader.lastEnd plainEnd s.signature.length s) := by
    refine bind_plain (h.enter_plain hlen) fun s hs => ?_
    have hdata := (hst.inside hs).data
    exact hskips.lastEnd hend _ s (by rwa [hdata]) (h.enter hs)
  cases t with
  | basic b =>
    cases b with
    | fixed c =>
      obtain ⟨hup, hle⟩ := h.roundUp_eq hlen _ (size_cases c)
      have hsize := size_cases c
      simp only [Ty.code, hup, ok_bind]
      refine bind_plain (discard_plain (slice_plain (by omega))) fun _ _ => ?_
      rw [add_eq (by omega)]
      rfl
    | text c =>
      refine bind_plain (h.textExtent_plain hlen c) fun ⟨start, length⟩ hextent => ?_
      obtain ⟨hstart, hlength⟩ := textExtent_bounds hextent
      dsimp only
      rw [add_eq (by omega), ok_bind]
      refine bind_plain (discard_plain (slice_plain (by omega))) fun _ _ => ?_
      rw [add_eq (by omega), ok_bind, add_eq (by omega)]
      rfl
  | array e => exact bind_plain (h.enter_plain hlen) fun s _ => rfl
  | struct _ | dictEntry _ _ | variant => exact hcontents

end

/-- Any number of levels of skipping runs into no fault, by induction on them. -/
theorem endWithin_skips (levels : Nat) : Skips (Checked.endWithin levels) (endWithin levels) := by
  induction levels with
  | zero =>
    have hend : EndsWithin fun _ => .error (.depthExceeded maxNesting) := fun _ h => by cases h
    exact Skips.endBy (fun _ _ _ => rfl) hend
  | succ levels ih => exact Skips.endBy ih (endWithin_within levels)

/-- Moving on runs into no fault, also where it fails. -/
theorem InPlace.next_plain (hlen : r.data.length < 2 ^ (63 : Nat)) (h : r.InPlace) :
    Checked.next r = (plain r.next.1, r.next.2) := by
  have hmoved : (do Checked.moveTo r (← Checked.valueEnd r)) =
      plain (do r.moveTo (← r.valueEnd)) := by
    refine bind_plain (endWithin_skips r.levels r hlen h) fun p hp => ?_
    obtain ⟨c, hc⟩ := require_of_valueEnd hp
    obtain ⟨t, ts, hst, -, -⟩ := h.exists_standsAt hc
    rw [hst.moveTo_checked, hst.moveTo_goTo]
    rfl
  unfold Checked.next Reader.next
  rw [hmoved]
  cases (do r.moveTo (← r.valueEnd)) with
  | error e => rfl
  | ok moved =>
    simp only [plain_ok]
    cases moved.rewind <;> rfl

/-! ## Any sequence of operations -/

variable {msg : Message} {e : Endian} {depth : Nat}

/-- The cursor is had from that of a message by moving on, whether or not that succeeds, and by
entering `depth` containers, one inside the other. -/
inductive Opened (msg : Message) (e : Endian) : (depth : Nat) → Reader → Prop
  | start {r : Reader} : msg.reader e = .ok r → Opened msg e 0 r
  | next {depth : Nat} {r : Reader} : Opened msg e depth r → Opened msg e depth r.next.2
  | enter {depth : Nat} {r s : Reader} : Opened msg e depth r → r.enter = .ok s →
    Opened msg e (depth + 1) s

namespace Opened

/-- Whatever has been opened and moved on is in place. -/
theorem inPlace (h : r.Opened msg e depth) : r.InPlace := by
  induction h with
  | start h => exact .start h
  | next _ ih => exact ih.next
  | enter _ hs ih => exact ih.enter hs

/-- Every container that is entered takes one level. -/
theorem depth_add_levels (h : r.Opened msg e depth) : depth + r.levels = maxNesting := by
  induction h with
  | start h => rw [levels_of_reader h, Nat.zero_add]
  | next _ ih => rwa [levels_next]
  | enter _ hs ih =>
    have := levels_of_enter hs
    omega

/-- Every cursor is over the body of its message. -/
theorem data_eq (h : r.Opened msg e depth) : r.data = msg.data := by
  induction h with
  | start h =>
    obtain ⟨-, rfl⟩ := Message.reader_eq_ok_iff.mp h
    rfl
  | @next _ r _ ih =>
    obtain ⟨p, i, hnext⟩ := r.exists_next_eq
    rwa [hnext]
  | @enter _ r s hr hs ih =>
    obtain ⟨c, hc⟩ := require_of_enter hs
    obtain ⟨t, ts, hst, -, -⟩ := hr.inPlace.exists_standsAt hc
    rw [(hst.inside hs).data, ih]

/-- Whatever the bytes of a body are, and whatever is done with the cursors over it, no cursor
leaves the body or is opened too deep, and each stands at the start of a type of its signature or
at the end of all of them. There every operation on a machine does as the plain one, given that
the body is one that a machine can hold: it succeeds, or it refuses with an error, and never runs
into a fault. -/
theorem faultless (h : r.Opened msg e depth) :
    (depth ≤ maxNesting ∧ r.data = msg.data ∧ r.pos ≤ msg.data.length ∧
      r.stop ≤ msg.data.length ∧ ∃ done ts, r.signature = Ty.renderAll (done ++ ts) ∧
        r.ix = (Ty.renderAll done).length ∧
          (∀ t ∈ done ++ ts, t.Formed r.repeats maxTypeDepth maxTypeDepth) ∧
            (r.repeats = true → (done ++ ts).length = 1)) ∧
      Checked.currentSignature r = plain r.currentSignature ∧
        (msg.data.length < 2 ^ (63 : Nat) →
          Checked.word r = plain r.word ∧ Checked.text r = plain r.text ∧
            Checked.enter r = plain r.enter ∧ Checked.next r = (plain r.next.1, r.next.2)) := by
  have hplace := h.inPlace
  have hlevels := h.depth_add_levels
  have hdata := h.data_eq
  rw [← hdata]
  obtain ⟨done, ts, hplaced, htypes⟩ := hplace.placed
  have hin := And.intro hplaced.ix (And.intro htypes.formed htypes.single)
  exact ⟨⟨by omega, rfl, hplace.pos_le, hplace.stop_le, done, ts, hplaced.signature, hin⟩,
    hplace.currentSignature_plain, fun hlen => ⟨hplace.word_plain hlen, hplace.text_plain hlen,
      hplace.enter_plain hlen, hplace.next_plain hlen⟩⟩

/-- The items of an array take two bytes, and the first of them takes four. The move over it
fails and leaves the cursor behind the item, where nothing is to be read. -/
theorem faultless_overrun :
    Opened ⟨[2, 0, 0, 0, 1, 2, 3, 4], [97, 117]⟩ .little 1
        ⟨.little, [2, 0, 0, 0, 1, 2, 3, 4], 8, 6, [117], 1, true, 63⟩ ∧
      Checked.enter ⟨.little, [2, 0, 0, 0, 1, 2, 3, 4], 8, 6, [117], 1, true, 63⟩ =
        .error (.refused .cursorExhausted) ∧
      Checked.next ⟨.little, [2, 0, 0, 0, 1, 2, 3, 4], 8, 6, [117], 1, true, 63⟩ =
        (.error (.refused .cursorExhausted),
          ⟨.little, [2, 0, 0, 0, 1, 2, 3, 4], 8, 6, [117], 1, true, 63⟩) := by
  have hstart : Message.reader ⟨[2, 0, 0, 0, 1, 2, 3, 4], [97, 117]⟩ .little =
      .ok ⟨.little, [2, 0, 0, 0, 1, 2, 3, 4], 0, 8, [97, 117], 0, false, 64⟩ := by rfl
  have henter : Reader.enter ⟨.little, [2, 0, 0, 0, 1, 2, 3, 4], 0, 8, [97, 117], 0, false, 64⟩ =
      .ok ⟨.little, [2, 0, 0, 0, 1, 2, 3, 4], 4, 6, [117], 0, true, 63⟩ := by rfl
  have hr : Opened ⟨[2, 0, 0, 0, 1, 2, 3, 4], [97, 117]⟩ .little 1
      ⟨.little, [2, 0, 0, 0, 1, 2, 3, 4], 8, 6, [117], 1, true, 63⟩ :=
    .next (.enter (.start hstart) henter)
  obtain ⟨-, -, hmachine⟩ := hr.faultless
  obtain ⟨-, -, hin, hnext⟩ := hmachine (by decide)
  exact ⟨hr, hin, hnext⟩

end Opened

end Reader

end DBus
