import DBus.Proofs.Cursor
import DBus.Proofs.Layout
import DBus.Proofs.Words

/-!
# Cursors at values

A cursor that stands at a type finds there what the layout of values says. The operations that
look at a value or go into it succeed just where the cells of the value are (`text_eq_ok_iff`,
`enter_array_eq_ok_iff` and its like), and moving on goes to the end of the cells
(`valueEnd_eq`, `next_eq`).

Moving past an array takes the length of it on trust, and moving past a struct takes the fields
one by one (`endBy_array_iff`, `endBy_contents_iff`, `lastEnd_cons_iff`), whatever the bytes in
between are. That the two agree is what the layout is for.
-/

namespace DBus

-- `^` is the power of the standard library, whichever others are in scope.
attribute [local instance (1100)] instPowNat

namespace Reader

variable {r s : Reader}

/-! ## Bytes -/

/-- Bytes are sliced where they stand. -/
theorem slice_eq_ok_iff {p n : Nat} {bs : Bytes} :
    r.slice p n = .ok bs ↔ bs.length = n ∧ At r.data p (fixed bs) := by
  rw [slice, at_fixed]
  split
  · next h =>
    rw [Except.ok.injEq]
    constructor
    · rintro rfl
      have hlen : ((r.data.drop p).take n).length = n := by simp; omega
      exact ⟨hlen, by omega, by rw [hlen]⟩
    · rintro ⟨rfl, -, hbs⟩
      exact hbs
  · next h =>
    refine iff_of_false nofun ?_
    rintro ⟨rfl, hlen, -⟩
    exact h hlen

/-- A slice is there if the body is long enough, whatever its bytes are. -/
theorem exists_slice_eq_ok_iff {p n : Nat} :
    (∃ bs, r.slice p n = .ok bs) ↔ p + n ≤ r.data.length := by
  unfold slice
  split <;> simp_all

/-- A number that fits its width is read where its bytes stand. -/
theorem number_eq_ok_iff {p width n : Nat} :
    r.number p width = .ok n ↔
      n < 256 ^ width ∧ At r.data p (fixed (r.endian.encode width n)) := by
  simp only [number, bind_eq_ok, pure_eq_ok, slice_eq_ok_iff]
  constructor
  · rintro ⟨bs, ⟨rfl, hbs⟩, rfl⟩
    exact ⟨r.endian.decode_lt bs, by rwa [r.endian.encode_decode]⟩
  · rintro ⟨hn, hbs⟩
    refine ⟨_, ⟨r.endian.length_encode width n, hbs⟩, ?_⟩
    rw [r.endian.decode_encode, Nat.mod_eq_of_lt hn]

/-- Bytes with a zero byte behind them are read where they stand, zero byte included. -/
theorem nulTerminated_eq_ok_iff {p n : Nat} {bs : Bytes} :
    r.nulTerminated p n = .ok bs ↔ bs.length = n ∧ At r.data p (fixed (bs ++ [0])) := by
  simp only [nulTerminated, bind_eq_ok, slice_eq_ok_iff]
  constructor
  · rintro ⟨cs, ⟨hlen, hcs⟩, h⟩
    split at h
    · next h0 =>
      cases h
      have hcs' : cs = cs.take n ++ [0] := by
        have := List.take_add_one (l := cs) (i := n)
        rwa [List.take_of_length_le (by omega), h0] at this
      exact ⟨by simp; omega, by rwa [← hcs']⟩
    · simp at h
  · rintro ⟨rfl, h⟩
    exact ⟨bs ++ [0], ⟨by simp, h⟩, by simp [pure, Except.pure]⟩

/-! ## Texts -/

theorem alignUp_one (n : Nat) : alignUp n 1 = n := by simp [alignUp, padding, Nat.mod_one]

/-- The length of a text is aligned as the type is. -/
theorem textExtent_eq (r : Reader) (c : TextCode) :
    r.textExtent c = do
      let start := alignUp r.pos c.lengthWidth
      return (start + c.lengthWidth, ← r.number start c.lengthWidth) := by
  cases c with
  | signature => simp [textExtent, TextCode.lengthWidth, TypeCode.alignment, alignUp_one]
  | string | objectPath => rfl

/-- The extent of a text is told by its head alone. Whether its bytes are there is not asked. -/
theorem textExtent_eq_ok_iff {c : TextCode} {start n : Nat} :
    r.textExtent c = .ok (start, n) ↔
      start = textStart r.pos c ∧ n < 256 ^ c.lengthWidth ∧
        At r.data r.pos (textHead r.endian r.pos c n) := by
  simp only [textExtent_eq, bind_eq_ok, pure_eq_ok, Prod.mk.injEq, number_eq_ok_iff,
    textHead, at_gap_append]
  constructor
  · rintro ⟨n, hn, rfl, rfl⟩
    exact ⟨rfl, hn⟩
  · rintro ⟨rfl, hn⟩
    exact ⟨n, hn, rfl, rfl⟩

/-! ## Cursors that stand at a type -/

/-- The cursor stands at a value of a type. Values of `ts` follow in its signature. -/
structure StandsAt (r : Reader) (t : Ty) (ts : List Ty) : Prop where
  more : r.repeats = true → r.pos < r.stop
  signature : r.signature.drop r.ix = Ty.renderAll (t :: ts)

/-- Behind the next type of a signature comes the rest of it, for renderings end by themselves. -/
theorem typeEnd_of_drop {signature rest : Bytes} {i : Nat} {t : Ty}
    (h : signature.drop i = t.render ++ rest) :
    typeEnd signature i = .ok (i + t.render.length) := by
  rw [typeEnd, h, Ty.typeWidth?_render, if_pos rfl]

/-- The part of a signature from one place to another. -/
theorem drop_take_of_drop {signature bs rest : Bytes} {i : Nat}
    (h : signature.drop i = bs ++ rest) : (signature.take (i + bs.length)).drop i = bs := by
  rw [List.drop_take, h, Nat.add_sub_cancel_left, List.take_left']
  rfl

/-- Behind a part of a signature. -/
theorem drop_add_of_drop {signature a rest : Bytes} {i : Nat}
    (h : signature.drop i = a ++ rest) : signature.drop (i + a.length) = rest := by
  rw [← List.drop_drop, h, List.drop_left]

namespace StandsAt

variable {t : Ty} {ts : List Ty}

theorem current_eq (h : r.StandsAt t ts) : r.current = some t.code := by
  have hmore : (r.repeats && decide (r.stop ≤ r.pos)) = false := by
    cases hr : r.repeats
    · rfl
    · simpa using h.more hr
  have hhead : r.signature[r.ix]? = some t.code.byte := by
    obtain ⟨bs, hbs⟩ := t.render_eq_cons
    have hdrop := congrArg List.head? h.signature
    rwa [List.head?_drop, Ty.renderAll, hbs, List.cons_append, List.head?_cons] at hdrop
  rw [current, hmore, hhead]
  exact TypeCode.ofByte?_byte _

theorem require_eq (h : r.StandsAt t ts) : r.require = .ok t.code := by
  rw [require, h.current_eq]

theorem typeEnd_eq (h : r.StandsAt t ts) :
    typeEnd r.signature r.ix = .ok (r.ix + t.render.length) :=
  typeEnd_of_drop h.signature

end StandsAt

/-! ## Looking at a value -/

section

variable {t e : Ty} {ts : List Ty}

/-- A word is read where its padding and its bytes stand, and it has no bits beyond those of its
type. -/
theorem word_eq_ok_iff {c : FixedCode} (h : r.StandsAt (.fixed c) ts) {w : Word} :
    r.word = .ok w ↔ w = (Scalar.ofWord c w).toWord ∧
      At r.data r.pos (gap r.pos c.size ++ fixed (r.endian.encodeWord c w)) := by
  simp only [word, h.require_eq, Ty.code, bind_eq_ok, Except.ok.injEq, exists_eq_left',
    slice_eq_ok_iff, at_gap_append]
  constructor
  · rintro ⟨bs, ⟨hlen, hbs⟩, hw⟩
    obtain ⟨hscalar, rfl⟩ := (Endian.decodeWord_eq_ok_iff hlen).mp hw
    exact ⟨hscalar, hbs⟩
  · rintro ⟨hw, hbs⟩
    have hlen := Endian.length_encodeWord r.endian c w
    exact ⟨_, ⟨hlen, hbs⟩, (Endian.decodeWord_eq_ok_iff hlen).mpr ⟨hw, rfl⟩⟩

/-- A text without zero bytes is read where it stands : padding, length, bytes and a zero byte. -/
theorem text_eq_ok_iff {c : TextCode} (h : r.StandsAt (.text c) ts) {u : String} :
    r.text = .ok u ↔ 0 ∉ utf8 u ∧ (utf8 u).length < 256 ^ c.lengthWidth ∧
      At r.data r.pos
        (textHead r.endian r.pos c (utf8 u).length ++ fixed (utf8 u ++ [0])) := by
  simp only [text, h.require_eq, Ty.code, bind_eq_ok, Except.ok.injEq, exists_eq_left',
    Prod.exists, textExtent_eq_ok_iff, nulTerminated_eq_ok_iff, readText_eq_ok_iff,
    ite_throw_eq_ok, pure_eq_ok]
  rw [at_append, add_length_textHead]
  constructor
  · rintro ⟨start, n, ⟨rfl, hn, hhead⟩, _, ⟨rfl, hbs⟩, u, rfl, h0, rfl⟩
    exact ⟨by simpa using h0, hn, hhead, hbs⟩
  · rintro ⟨h0, hn, hhead, hbs⟩
    exact ⟨_, _, ⟨rfl, hn, hhead⟩, _, ⟨rfl, hbs⟩, u, rfl, by simpa using h0, rfl⟩

/-! ## Entering a container -/

/-- There is nothing inside of a basic value. -/
theorem enter_basic_ne_ok {b : BasicCode} (h : r.StandsAt (.basic b) ts) : r.enter ≠ .ok s := by
  have hrequire : r.require = .ok (.basic b) := h.require_eq
  simp [enter, hrequire]

/-- An array is entered where its head stands, if a level is left and the items that it announces
are not too long and within the body. The cursor inside sees the items and no more. -/
theorem enter_array_eq_ok_iff (h : r.StandsAt (.array e) ts) :
    r.enter = .ok s ↔ ∃ n levels, r.levels = levels + 1 ∧ n ≤ maxArrayLength ∧
      At r.data r.pos (arrayHead r.endian r.pos e n) ∧ itemsStart r.pos e + n ≤ r.data.length ∧
      s = ⟨r.endian, r.data, itemsStart r.pos e, itemsStart r.pos e + n, e.render, 0, true,
        levels⟩ := by
  have hdrop : r.signature.drop (r.ix + 1) = e.render ++ Ty.renderAll ts :=
    drop_add_of_drop (a := [TypeCode.array.byte]) h.signature
  have halign : ((e.render.head?.bind TypeCode.ofByte?).map TypeCode.alignment).getD 1 =
      e.code.alignment := by
    obtain ⟨bs, hbs⟩ := e.render_eq_cons
    simp [hbs, TypeCode.ofByte?_byte]
  have hrequire : r.require = .ok .array := h.require_eq
  have hhead : ∀ n, At r.data r.pos (arrayHead r.endian r.pos e n) ↔
      At r.data (alignUp r.pos 4) (fixed (r.endian.encode 4 n)) ∧
        itemsStart r.pos e ≤ r.data.length := fun n => by
    rw [arrayHead, List.append_assoc, at_gap_append, at_append, at_gap, length_fixed,
      Endian.length_encode]
    rfl
  simp only [enter, hrequire, bind_eq_ok, Except.ok.injEq, exists_eq_left',
    enterArray, typeEnd_of_drop hdrop, drop_take_of_drop hdrop, halign, number_eq_ok_iff,
    throw_bind, ite_throw_eq_ok, discard_eq_ok, exists_slice_eq_ok_iff, nested_eq_ok, hhead]
  constructor
  · rintro ⟨n, ⟨-, hlen⟩, hmax, -, hstop, levels, hlevels, rfl⟩
    exact ⟨n, levels, hlevels, by omega, ⟨hlen, Nat.le_trans (Nat.le_add_right _ _) hstop⟩, hstop,
      rfl⟩
  · rintro ⟨n, levels, hlevels, hmax, ⟨hlen, -⟩, hstop, rfl⟩
    have hn : n < 256 ^ (4 : Nat) := Nat.lt_of_le_of_lt hmax (by decide)
    exact ⟨n, ⟨hn, hlen⟩, by omega, (), hstop, levels, hlevels, rfl⟩

/-- What is rendered in brackets around a list of types is entered where the padding is, if a level
is left. Nothing is known yet of the bytes of the fields. -/
theorem enterStruct_eq_ok_iff {us : List Ty} {b : UInt8} {t : Ty} {close : UInt8}
    (h : r.StandsAt t ts) (ht : t.render = b :: (Ty.renderAll us ++ [close])) :
    r.enterStruct = .ok s ↔ ∃ levels, r.levels = levels + 1 ∧ At r.data r.pos (gap r.pos 8) ∧
      s = ⟨r.endian, r.data, alignUp r.pos 8, r.data.length, Ty.renderAll us, 0, false,
        levels⟩ := by
  have hsignature := h.signature
  rw [Ty.renderAll, ht, List.cons_append, List.append_assoc] at hsignature
  have hlen : r.ix + t.render.length - 1 = r.ix + 1 + (Ty.renderAll us).length := by
    rw [ht]
    simp
    omega
  have hdrop : r.signature.drop (r.ix + 1) = Ty.renderAll us ++ ([close] ++ Ty.renderAll ts) :=
    drop_add_of_drop (a := [b]) hsignature
  simp only [enterStruct, h.typeEnd_eq, bind_eq_ok, Except.ok.injEq, exists_eq_left', hlen,
    drop_take_of_drop hdrop, throw_bind, ite_throw_eq_ok, nested_eq_ok, at_gap, Nat.not_lt]
  constructor
  · rintro ⟨hstart, levels, hlevels, rfl⟩
    exact ⟨levels, hlevels, hstart, rfl⟩
  · rintro ⟨levels, hlevels, hstart, rfl⟩
    exact ⟨hstart, levels, hlevels, rfl⟩

/-- A struct is entered at its first field. -/
theorem enter_struct_eq_ok_iff {us : List Ty} (h : r.StandsAt (.struct us) ts) :
    r.enter = .ok s ↔ ∃ levels, r.levels = levels + 1 ∧ At r.data r.pos (gap r.pos 8) ∧
      s = ⟨r.endian, r.data, alignUp r.pos 8, r.data.length, Ty.renderAll us, 0, false,
        levels⟩ := by
  have hrequire : r.require = .ok .struct := h.require_eq
  simp only [enter, hrequire, bind_eq_ok, Except.ok.injEq, exists_eq_left']
  exact enterStruct_eq_ok_iff h rfl

/-- A dict entry is entered at its key, just as a struct of two fields. -/
theorem enter_dictEntry_eq_ok_iff {k : BasicCode} (h : r.StandsAt (.dictEntry k e) ts) :
    r.enter = .ok s ↔ ∃ levels, r.levels = levels + 1 ∧ At r.data r.pos (gap r.pos 8) ∧
      s = ⟨r.endian, r.data, alignUp r.pos 8, r.data.length, Ty.renderAll [.basic k, e], 0,
        false, levels⟩ := by
  have hrequire : r.require = .ok .dictEntry := h.require_eq
  simp only [enter, hrequire, bind_eq_ok, Except.ok.injEq, exists_eq_left']
  have hrender : (Ty.dictEntry k e).render =
      TypeCode.dictEntry.byte :: (Ty.renderAll [.basic k, e] ++ [Ty.entryEnd]) := by
    simp [Ty.render, Ty.renderAll]
  exact enterStruct_eq_ok_iff h hrender

/-- A variant is entered where the signature of one valid type stands, and the cursor inside is at
that type. -/
theorem enter_variant_eq_ok_iff (h : r.StandsAt .variant ts) :
    r.enter = .ok s ↔ ∃ (u : Ty) (levels : Nat), u.Valid ∧ r.levels = levels + 1 ∧
      At r.data r.pos (variantHead r.endian u) ∧
      s = ⟨r.endian, r.data, r.pos + u.render.length + 2, r.data.length, u.render, 0, false,
        levels⟩ := by
  have hrequire : r.require = .ok .variant := h.require_eq
  simp only [enter, hrequire, enterVariant, bind_eq_ok, Except.ok.injEq, exists_eq_left',
    number_eq_ok_iff, nulTerminated_eq_ok_iff, discard_eq_ok, variantType_eq_ok_iff,
    nested_eq_ok, variantHead, at_append, length_fixed, Endian.length_encode]
  constructor
  · rintro ⟨_, ⟨-, hlen⟩, _, ⟨rfl, hbs⟩, -, ⟨u, hu, rfl⟩, levels, hlevels, rfl⟩
    exact ⟨u, levels, hu, hlevels, ⟨hlen, hbs⟩, rfl⟩
  · rintro ⟨u, levels, hu, hlevels, ⟨hlen, hbs⟩, rfl⟩
    have hlt : u.render.length < 256 ^ (1 : Nat) :=
      Nat.lt_of_le_of_lt (Ty.valid_iff.mp hu).1 (by decide)
    exact ⟨_, ⟨hlt, hlen⟩, _, ⟨rfl, hbs⟩, (), ⟨u, hu, rfl⟩, levels, hlevels, rfl⟩

end

/-! ## Moving on -/

/-- The cursor goes through one value of each of the types, and then it is at its end. -/
structure Follows (r : Reader) (ts : List Ty) : Prop where
  repeats : r.repeats = false
  signature : r.signature.drop r.ix = Ty.renderAll ts

variable {t : Ty} {ts : List Ty}

/-- A cursor that has a type before it stands at it. -/
theorem Follows.standsAt (h : r.Follows (t :: ts)) : r.StandsAt t ts :=
  ⟨by simp [h.repeats], h.signature⟩

/-- The cursor in a variant goes through the contents. -/
theorem follows_contents (e : Endian) (data : Bytes) (p stop : Nat) (t : Ty) (levels : Nat) :
    Follows ⟨e, data, p, stop, t.render, 0, false, levels⟩ [t] :=
  ⟨rfl, by simp [Ty.renderAll]⟩

/-- There is no value at the end of the signature. -/
theorem current_of_drop_eq_nil (h : r.signature.drop r.ix = []) : r.current = none := by
  have hnone : r.signature[r.ix]? = none := by
    rw [← List.head?_drop, h]
    rfl
  simp [current, hnone]

theorem Follows.current_nil (h : r.Follows []) : r.current = none :=
  current_of_drop_eq_nil h.signature

/-- With the position `p`, at the type that follows. -/
def goTo (r : Reader) (t : Ty) (p : Nat) : Reader :=
  { r with pos := p, ix := r.ix + t.render.length }

/-- Moving to a place drops the type that the cursor stands at. -/
theorem StandsAt.moveTo_goTo (h : r.StandsAt t ts) (p : Nat) : r.moveTo p = .ok (r.goTo t p) := by
  rw [moveTo, h.typeEnd_eq]
  rfl

theorem Follows.goTo (h : r.Follows (t :: ts)) (p : Nat) : (r.goTo t p).Follows ts :=
  ⟨h.repeats, drop_add_of_drop h.signature⟩

/-- Past a value, with the place of the type that follows. -/
def past (r : Reader) (t : Ty) (n : Nat) : Reader :=
  { r with pos := r.pos + n, ix := r.ix + t.render.length }

/-- Moving on by some bytes drops the type that the cursor stands at. -/
theorem StandsAt.moveTo_eq (h : r.StandsAt t ts) (n : Nat) :
    r.moveTo (r.pos + n) = .ok (r.past t n) := h.moveTo_goTo _

theorem Follows.past (h : r.Follows (t :: ts)) (n : Nat) : (r.past t n).Follows ts := h.goTo _

/-- Only cursors over items are rewound. -/
theorem Follows.rewind_eq (h : r.Follows ts) : r.rewind = .ok r := by
  simp [rewind, h.repeats]

/-- Every type has a byte of the signature at least. -/
theorem length_le_length_renderAll (ts : List Ty) : ts.length ≤ (Ty.renderAll ts).length := by
  induction ts with
  | nil => exact Nat.le_refl _
  | cons t ts ih =>
    have := t.length_render_pos
    rw [Ty.renderAll, List.length_append, List.length_cons]
    omega

/-- There are no more types before a cursor than its signature has bytes. So this bounds the fields
to be taken one by one. -/
theorem Follows.length_le (h : r.Follows ts) : ts.length ≤ r.signature.length := by
  have hle := length_le_length_renderAll ts
  rw [← h.signature, List.length_drop] at hle
  omega

section

variable {endOf : Reader → Except Error Nat} {levels p : Nat}

/-- Moving past a value of a fixed size needs the bytes to be there, and nothing of them. -/
theorem endBy_fixed_iff {c : FixedCode} (h : r.StandsAt (.fixed c) ts) :
    endBy endOf r = .ok p ↔
      p = alignUp r.pos c.size + c.size ∧ p ≤ r.data.length := by
  have hrequire : r.require = .ok (.fixed c) := h.require_eq
  simp only [endBy, hrequire, ok_bind, bind_eq_ok, discard_eq_ok, exists_slice_eq_ok_iff,
    pure_eq_ok]
  constructor
  · rintro ⟨-, hle, rfl⟩
    exact ⟨rfl, hle⟩
  · rintro ⟨rfl, hle⟩
    exact ⟨(), hle, rfl⟩

/-- Moving past a text goes by its length. The bytes of it and the zero byte have to be there, but
may be any. -/
theorem endBy_text_iff {c : TextCode} (h : r.StandsAt (.text c) ts) :
    endBy endOf r = .ok p ↔ ∃ n, n < 256 ^ c.lengthWidth ∧
      At r.data r.pos (textHead r.endian r.pos c n) ∧ p = textStart r.pos c + n + 1 ∧
        p ≤ r.data.length := by
  have hrequire : r.require = .ok (.text c) := h.require_eq
  simp only [endBy, hrequire, ok_bind, bind_eq_ok, Prod.exists, textExtent_eq_ok_iff,
    discard_eq_ok, exists_slice_eq_ok_iff, pure_eq_ok]
  constructor
  · rintro ⟨_, n, ⟨rfl, hn, hhead⟩, -, hle, rfl⟩
    exact ⟨n, hn, hhead, rfl, hle⟩
  · rintro ⟨n, hn, hhead, rfl, hle⟩
    exact ⟨_, n, ⟨rfl, hn, hhead⟩, (), hle, rfl⟩

/-- Moving past an array goes where the cursor inside would stop, by the length that is
announced. -/
theorem endBy_array_iff (h : r.StandsAt (.array t) ts) :
    endBy endOf r = .ok p ↔ ∃ s, r.enter = .ok s ∧ s.stop = p := by
  have hrequire : r.require = .ok .array := h.require_eq
  simp only [endBy, hrequire, ok_bind, bind_eq_ok, pure_eq_ok]

/-- Moving past a struct, a dict entry or a variant takes what is inside one by one. -/
theorem endBy_contents_iff (h : r.StandsAt u us)
    (hu : u.code = .struct ∨ u.code = .dictEntry ∨ u.code = .variant) :
    endBy endOf r = .ok p ↔
      ∃ s, r.enter = .ok s ∧ lastEnd endOf s.signature.length s = .ok p := by
  rcases hu with hu | hu | hu <;> simp only [endBy, h.require_eq, hu, ok_bind, bind_eq_ok]

/-- With nothing before it a cursor is at the end. -/
theorem Follows.lastEnd_nil (h : r.Follows []) (n : Nat) : lastEnd endOf n r = .ok r.pos := by
  cases n with
  | zero => rfl
  | succ n => rw [lastEnd, h.current_nil]

/-- The end of several fields is that of the others behind the end of the first. -/
theorem Follows.lastEnd_cons_iff (h : r.Follows (t :: ts)) {n : Nat} :
    lastEnd endOf (n + 1) r = .ok p ↔
      ∃ q, endOf r = .ok q ∧ lastEnd endOf n (r.goTo t q) = .ok p := by
  have hrewind : ∀ q, (r.goTo t q).rewind = .ok (r.goTo t q) := fun q => (h.goTo q).rewind_eq
  simp only [lastEnd, h.standsAt.current_eq, h.standsAt.moveTo_goTo, hrewind, bind_eq_ok,
    Except.ok.injEq, exists_eq_left']

/-- Where a value of a fixed size is laid out, moving on goes behind its cells. -/
theorem endBy_fixed {c : FixedCode} {bs : Bytes} (hr : r.StandsAt (.fixed c) ts)
    (hlen : bs.length = c.size) (hat : At r.data r.pos (gap r.pos c.size ++ fixed bs)) :
    endBy endOf r = .ok (r.pos + (gap r.pos c.size ++ fixed bs).length) := by
  refine (endBy_fixed_iff hr).mpr ⟨?_, hat.1⟩
  rw [List.length_append, length_gap, length_fixed, hlen, ← Nat.add_assoc, alignUp]

/-- Where a text is laid out, moving on goes behind its cells. -/
theorem endBy_text {c : TextCode} {bs : Bytes} (hr : r.StandsAt (.text c) ts)
    (hlen : bs.length < 256 ^ c.lengthWidth)
    (hat : At r.data r.pos (textHead r.endian r.pos c bs.length ++ fixed (bs ++ [0]))) :
    endBy endOf r =
      .ok (r.pos + (textHead r.endian r.pos c bs.length ++ fixed (bs ++ [0])).length) := by
  refine (endBy_text_iff hr).mpr ⟨bs.length, hlen, (at_append.mp hat).1, ?_, hat.1⟩
  rw [List.length_append, ← Nat.add_assoc, add_length_textHead, length_fixed, List.length_append]
  rfl

/-- Where an array is laid out, moving on goes behind its items, as many as they are. -/
theorem endBy_array {e : Ty} {items : List Cell} (hr : r.StandsAt (.array e) ts)
    (hl : r.levels = levels + 1) (hlen : items.length ≤ maxArrayLength)
    (hat : At r.data r.pos (arrayHead r.endian r.pos e items.length ++ items)) :
    endBy endOf r = .ok (r.pos + (arrayHead r.endian r.pos e items.length ++ items).length) := by
  obtain ⟨hhead, hitems⟩ := at_append.mp hat
  rw [add_length_arrayHead] at hitems
  have henter := (enter_array_eq_ok_iff hr).mpr ⟨_, _, hl, hlen, hhead, hitems.1, rfl⟩
  rw [List.length_append, ← Nat.add_assoc, add_length_arrayHead]
  exact (endBy_array_iff hr).mpr ⟨_, henter, rfl⟩

end

/-- Values end where their cells do, as far as a cursor of some level of some body is at them. -/
def EndsWith (endOf : Reader → Except Error Nat) (e : Endian) (data : Bytes) (d levels : Nat) :
    Prop :=
  ∀ {r : Reader} {t : Ty} {ts : List Ty} {v : Value} {cs : List Cell}, r.endian = e →
    r.data = data → r.levels = levels → r.StandsAt t ts → LaidOut e d t v r.pos cs →
      At data r.pos cs → endOf r = .ok (r.pos + cs.length)

/-- Where fields are laid out one behind the other, moving past them goes behind the last. The
induction is on the fields, each of which `endOf` moves past. -/
theorem lastEnd_eq {endOf : Reader → Except Error Nat} {e : Endian} {data : Bytes}
    {d levels : Nat} (hend : EndsWith endOf e data d levels) :
    ∀ {n : Nat} {r : Reader} {ts : List Ty} {vs : List Value} {cs : List Cell}, r.endian = e →
      r.data = data → r.levels = levels → r.Follows ts → ts.length ≤ n →
        LaidOutAll e d ts vs r.pos cs → At data r.pos cs →
          lastEnd endOf n r = .ok (r.pos + cs.length)
  | 0, r, [], _, _, _, _, _, _, _, .nil, _ => rfl
  | n + 1, r, [], _, _, _, _, _, hr, _, .nil, _ => hr.lastEnd_nil _
  | n + 1, r, t :: ts, _, _, he, hd, hl, hr, hn, .cons hc hcs, hat => by
    obtain ⟨hat, hrest⟩ := at_append.mp hat
    have hnext := lastEnd_eq hend (r := r.past t _) he hd hl (hr.past _)
      (Nat.le_of_succ_le_succ hn) hcs hrest
    refine hr.lastEnd_cons_iff.mpr ⟨_, hend he hd hl hr.standsAt hc hat, ?_⟩
    rw [List.length_append, ← Nat.add_assoc]
    exact hnext

/-- Where a container is laid out, head and fields, moving on goes behind them. -/
theorem endBy_contents {endOf : Reader → Except Error Nat} {d : Nat} {us : List Ty}
    {vs : List Value} {head fields : List Cell} (hr : r.StandsAt t ts)
    (ht : t.code = .struct ∨ t.code = .dictEntry ∨ t.code = .variant)
    (hs : r.enter = .ok s) (hpos : s.pos = r.pos + head.length)
    (hend : EndsWith endOf s.endian s.data d s.levels) (hfollows : s.Follows us)
    (h : LaidOutAll s.endian d us vs s.pos fields) (hat : At s.data s.pos fields) :
    endBy endOf r = .ok (r.pos + (head ++ fields).length) := by
  have hlast := lastEnd_eq hend rfl rfl rfl hfollows hfollows.length_le h hat
  rw [hpos, Nat.add_assoc, ← List.length_append] at hlast
  exact (endBy_contents_iff hr ht).mpr ⟨s, hs, hlast⟩

/-- A value ends where its cells do. -/
theorem endWithin_eq {levels d : Nat} {v : Value} {cs : List Cell} (hl : r.levels = levels)
    (hr : r.StandsAt t ts) (hd : d ≤ levels) (h : LaidOut r.endian d t v r.pos cs)
    (hat : At r.data r.pos cs) : endWithin levels r = .ok (r.pos + cs.length) := by
  induction levels generalizing r t ts d v cs with
  | zero =>
    obtain rfl : d = 0 := by omega
    cases h with
    | scalar hs => exact endBy_fixed hr (Endian.length_encodeWord ..) hat
    | text hs hlen => exact endBy_text hr (hs.length_lt hlen) hat
  | succ levels ih =>
    have hend : ∀ d ≤ levels, EndsWith (endWithin levels) r.endian r.data d levels :=
      fun d hd r t ts v cs he hdata hl hr h hat => by
        rw [← he] at h
        rw [← hdata] at hat
        exact ih hl hr hd h hat
    cases h with
    | scalar hs => exact endBy_fixed hr (Endian.length_encodeWord ..) hat
    | text hs hlen => exact endBy_text hr (hs.length_lt hlen) hat
    | array _ hlen => exact endBy_array hr hl hlen hat
    | struct h =>
      obtain ⟨hhead, hfields⟩ := at_append.mp hat
      rw [length_gap] at hfields
      have henter := (enter_struct_eq_ok_iff hr).mpr ⟨_, hl, hhead, rfl⟩
      exact endBy_contents hr (.inl rfl) henter (by simp [alignUp])
        (hend _ (Nat.le_of_succ_le_succ hd)) ⟨rfl, rfl⟩ h hfields
    | dictEntry h =>
      obtain ⟨hhead, hfields⟩ := at_append.mp hat
      rw [length_gap] at hfields
      have henter := (enter_dictEntry_eq_ok_iff hr).mpr ⟨_, hl, hhead, rfl⟩
      exact endBy_contents hr (.inr (.inl rfl)) henter (by simp [alignUp])
        (hend _ (Nat.le_of_succ_le_succ hd)) ⟨rfl, rfl⟩ h hfields
    | @variant d _ u v contents hu h =>
      obtain ⟨hhead, hcontents⟩ := at_append.mp hat
      rw [add_length_variantHead] at hcontents
      have henter := (enter_variant_eq_ok_iff hr).mpr ⟨u, _, hu, hl, hhead, rfl⟩
      have h := LaidOutAll.cons h .nil
      rw [List.append_nil] at h
      exact endBy_contents hr (.inr (.inr rfl)) henter (add_length_variantHead ..).symm
        (hend _ (Nat.le_of_succ_le_succ hd)) (follows_contents ..) h hcontents

section

variable {d : Nat} {v : Value} {cs : List Cell} (hd : d ≤ r.levels)
  (h : LaidOut r.endian d t v r.pos cs) (hat : At r.data r.pos cs)

include hd h hat

/-- A value ends behind its cells. -/
theorem valueEnd_eq (hr : r.StandsAt t ts) : r.valueEnd = .ok (r.pos + cs.length) :=
  endWithin_eq rfl hr hd h hat

/-- A cursor is advanced behind the cells of a value. -/
theorem advance_eq (hr : r.Follows (t :: ts)) : r.advance = .ok (r.past t cs.length) := by
  rw [advance, valueEnd_eq hd h hat hr.standsAt, ok_bind, hr.standsAt.moveTo_eq, ok_bind,
    (hr.past _).rewind_eq]

/-- Moving on from a value goes behind its cells, and tells whether there is another type. -/
theorem next_eq (hr : r.Follows (t :: ts)) :
    r.next = (.ok (r.past t cs.length).current.isSome, r.past t cs.length) := by
  rw [next, valueEnd_eq hd h hat hr.standsAt, ok_bind, hr.standsAt.moveTo_eq]
  simp only [(hr.past _).rewind_eq]

end

/-! ## Cursors over items -/

/-- The cursor goes through items of a type. -/
structure Repeats (r : Reader) (t : Ty) : Prop where
  repeats : r.repeats = true
  ix : r.ix = 0
  signature : r.signature = t.render

/-- Up to its end a cursor over items stands at an item. -/
theorem Repeats.standsAt (h : r.Repeats t) (hmore : r.pos < r.stop) : r.StandsAt t [] :=
  ⟨fun _ => hmore, by simp [h.ix, h.signature, Ty.renderAll]⟩

/-- At its end a cursor over items has no type before it. -/
theorem Repeats.current_end (h : r.Repeats t) (hend : r.stop ≤ r.pos) : r.current = none := by
  simp [current, h.repeats, hend]

/-- A cursor over items that has a type before it is not at its end. -/
theorem Repeats.lt_stop (h : r.Repeats t) {c : TypeCode} (hc : r.current = some c) :
    r.pos < r.stop := by
  refine Nat.lt_of_not_le fun hle => ?_
  rw [h.current_end hle] at hc
  cases hc

/-- Past an item. -/
def skip (r : Reader) (n : Nat) : Reader := { r with pos := r.pos + n }

theorem Repeats.skip (h : r.Repeats t) (n : Nat) : (r.skip n).Repeats t :=
  ⟨h.repeats, h.ix, h.signature⟩

/-- An item has to end where the array does, or before. -/
theorem Repeats.advance_eq_ok_iff (hr : r.Repeats t) (hmore : r.pos < r.stop) {d : Nat}
    {v : Value} {cs : List Cell} (hd : d ≤ r.levels) (h : LaidOut r.endian d t v r.pos cs)
    (hat : At r.data r.pos cs) :
    r.advance = .ok s ↔ r.pos + cs.length ≤ r.stop ∧ s = r.skip cs.length := by
  have hst := hr.standsAt hmore
  rw [advance, valueEnd_eq hd h hat hst, ok_bind, hst.moveTo_eq, ok_bind, rewind, past]
  simp only [hr.repeats, if_true]
  split
  · next hle => simp [hle, hr.ix, hr.repeats, Reader.skip, eq_comm]
  · next hle => simp [hle]

end Reader

end DBus
