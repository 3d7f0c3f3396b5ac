import DBus.Proofs.Filling

/-!
# Widths of native integers

A policy may hold the integers of a wire type in a native type of another width or sign
(`BoxingPolicy.holding`). A number crosses from one type to the other as a number, and never as the
bits of a word (`Scalar.convert?_int`). So it is never cut off and never changes its sign : it is
the same number on both sides, or it is refused by the side that does not have it
(`Marshaller.holding_exact`).
-/

namespace DBus

-- `^` is the power of the standard library, whichever others are in scope.
attribute [local instance (1100)] instPowNat

/-! ## Policies -/

/-- The usual entry of a type, but that integers are held in native types of other kinds. -/
def TypeEntry.holding (native : IntKind → IntKind) (boxed : IntKind → Option BoxedType) :
    TypeCode → TypeEntry
  | .int k => ⟨.scalar (.int (native k)), boxed k, some (FixedCode.int k).unboxer⟩
  | c => .standard c

namespace BoxingPolicy

/-- The standard policy, but that it holds integers in native types of other kinds. -/
def holding (native : IntKind → IntKind) (boxed : IntKind → Option BoxedType) : BoxingPolicy :=
  ⟨fun c => some (.holding native boxed c)⟩

/-- The standard policy holds each kind of integers as itself. -/
theorem holding_self : holding id (fun _ => some .number) = standard := by
  have hentry : ∀ c, TypeEntry.holding id (fun _ => some .number) c = .standard c := by
    intro c
    rcases c with ((_ | _ | _) | _) | _ | _ | _ | _ <;> rfl
  simp only [holding, standard, hentry]

/-- Any of the kinds may be given another native type. -/
theorem register_holding (native : IntKind → IntKind) (boxed : IntKind → Option BoxedType)
    (k l : IntKind) (b : Option BoxedType) :
    (holding native boxed).register (.int k)
        ⟨.scalar (.int l), b, some (FixedCode.int k).unboxer⟩ =
      holding (fun j => if j = k then l else native j)
        (fun j => if j = k then b else boxed j) := by
  refine congrArg BoxingPolicy.mk (funext fun c => ?_)
  by_cases hc : c = .int k
  · subst hc
    simp [TypeEntry.holding]
  · rw [if_neg hc]
    rcases c with ((_ | j | _) | _) | _ | _ | _ | _
    case basic.fixed.int =>
      have hj : j ≠ k := fun h => hc (by rw [h])
      simp [holding, TypeEntry.holding, hj]
    all_goals rfl

end BoxingPolicy

/-! ## Integers in a body -/

/-- The bytes of an integer. -/
def Endian.encodeInt (e : Endian) (k : IntKind) (n : Int) : Bytes :=
  e.encodeWord (.int k) (.ofInt k n)

/-- An integer with its padding, added to a message. -/
def Message.addInt (msg : Message) (w : Writer) (k : IntKind) (n : Int) : Message :=
  msg.extend (gap msg.data.length k.size ++ fixed (w.endian.encodeInt k n))
    (w.recorded (Ty.int k).render)

/-- A cursor stands at the bytes of an integer. -/
structure Reader.AtInt (r : Reader) (k : IntKind) (n : Int) : Prop where
  require : r.require = .ok (.int k)
  fits : k.Fits n
  bytes : r.slice (alignUp r.pos k.size) k.size = .ok (r.endian.encodeInt k n)

namespace Reader

variable {r : Reader} {k : IntKind} {n : Int}

theorem word_eq_ok_iff_int (h : r.require = .ok (.int k)) {word : Word} :
    r.word = .ok word ↔ word = .ofInt k (word.toInt k) ∧
      r.slice (alignUp r.pos k.size) k.size = .ok (r.endian.encodeWord (.int k) word) := by
  have hlen : (r.endian.encodeWord (.int k) word).length = k.size := Endian.length_encodeWord ..
  simp only [Reader.word, h, ok_bind, bind_eq_ok]
  constructor
  · rintro ⟨bs, hbs, hword⟩
    obtain ⟨hscalar, rfl⟩ :=
      (Endian.decodeWord_eq_ok_iff (slice_eq_ok_iff.mp hbs).1).mp hword
    exact ⟨hscalar, hbs⟩
  · rintro ⟨hword, hbs⟩
    exact ⟨_, hbs, (Endian.decodeWord_eq_ok_iff hlen).mpr ⟨hword, rfl⟩⟩

/-- The word at the cursor is that of the integer. -/
theorem AtInt.word_eq (h : r.AtInt k n) : r.word = .ok (.ofInt k n) := by
  refine (word_eq_ok_iff_int h.require).mpr ⟨?_, h.bytes⟩
  rw [Word.toInt_ofInt k h.fits]

/-- Wherever a word of the type is read, the bytes of an integer stand. -/
theorem exists_atInt_iff :
    (∃ n, r.AtInt k n) ↔ r.require = .ok (.int k) ∧ ∃ word, r.word = .ok word := by
  constructor
  · rintro ⟨n, h⟩
    exact ⟨h.require, _, h.word_eq⟩
  · rintro ⟨hrequire, word, hword⟩
    obtain ⟨hint, hbytes⟩ := (word_eq_ok_iff_int hrequire).mp hword
    refine ⟨word.toInt k, hrequire, word.fits_toInt k, ?_⟩
    rwa [Endian.encodeInt, ← hint]

/-- A cursor at the place where an integer was added stands at its bytes. -/
theorem atInt_of_addInt {w : Writer} {msg : Message} (hfits : k.Fits n)
    (hrequire : r.require = .ok (.int k)) (hendian : r.endian = w.endian)
    (hpos : r.pos = msg.data.length) (hdata : (msg.addInt w k n).data <+: r.data) :
    r.AtInt k n := by
  obtain ⟨back, hback⟩ := hdata
  have hcells : At r.data r.pos
      (gap msg.data.length k.size ++ fixed (r.endian.encodeInt k n)) := by
    rw [← hback, hpos, hendian]
    exact at_fill msg.data _ back
  rw [hpos, at_gap_append] at hcells
  refine ⟨hrequire, hfits, slice_eq_ok_iff.mpr ⟨Endian.length_encodeWord .., ?_⟩⟩
  rwa [hpos]

end Reader

/-! ## Crossing from one type to the other -/

namespace Marshaller

variable {native : IntKind → IntKind} {boxed : IntKind → Option BoxedType} {m : Marshaller}
  (hm : m.policy = .holding native boxed) {k : IntKind} {n : Int}

include hm

theorem entry_holding (k : IntKind) :
    m.policy.entry (.int k) = .ok (.holding native boxed (.int k)) := by
  rw [hm]
  rfl

/-- An integer is read as a word of the native type if it is within the bounds of that. -/
theorem readUnboxed_holding {r : Reader} (h : r.AtInt k n) :
    m.readUnboxed (.fixed (.int k)) r =
      if (native k).Fits n then .ok (.word (.ofInt (native k) n))
      else .error (.typeMismatch (.nativeScalar (.scalar (.int (native k))) (.int k))) := by
  have hcode : expectCode (.int k) r = .ok () := by
    rw [expectCode, h.require, ok_bind, if_pos rfl]
    rfl
  have hscalar : Scalar.ofWord (.int k) (.ofInt k n) = .int k n h.fits :=
    Scalar.ofWord_toWord (.int k n h.fits)
  simp only [readUnboxed, entry_holding hm, hcode, ok_bind, TypeEntry.holding, h.word_eq, hscalar,
    Scalar.convert?, Scalar.int?]
  by_cases hfits : (native k).Fits n
  · rw [dif_pos hfits, if_pos hfits]
    rfl
  · rw [dif_neg hfits, if_neg hfits]
    rfl

/-- A word of the native type is written as an integer if it is within the bounds of the wire
type. -/
theorem writeSlot_holding (hfits : (native k).Fits n) (w : Writer) :
    m.writeSlot (.int k) w (.word (.ofInt (native k) n)) =
      if k.Fits n then w.putWord (.int k) (.ofInt k n)
      else throw (.typeMismatch (.basicValue (.int k) (.int (native k)))) := by
  have hentry := entry_holding hm k
  have hscalar : Scalar.ofWord (.int (native k)) (.ofInt (native k) n) = .int _ n hfits :=
    Scalar.ofWord_toWord (.int (native k) n hfits)
  have hunboxer : m.policy.unboxer (.int k) = .ok (FixedCode.int k).unboxer := by
    rw [BoxingPolicy.unboxer, hentry]
    rfl
  have hslot : m.writeSlot (.int k) w (.word (.ofInt (native k) n)) =
      m.writeValue (.int k) (.scalar (.int (native k) n hfits)) w := by
    rw [← hscalar]
    simp only [writeSlot, Ty.code, hentry]
    rfl
  rw [hslot, writeValue, writeWithin_basic hentry]
  by_cases hk : k.Fits n
  · have hunbox : m.unbox (.int k) (.scalar (.int (native k) n hfits)) =
        .ok (.word (.ofInt k n)) := by
      simp [unbox, Ty.isContainer, Ty.code, TypeCode.isContainer, hunboxer, FixedCode.unboxer,
        Scalar.convert?, Scalar.int?, hk, Scalar.toWord]
    rw [hunbox, if_pos hk]
    rfl
  · have hunbox : m.unbox (.int k) (.scalar (.int (native k) n hfits)) =
        .error (.typeMismatch (.basicValue (.int k) (.int (native k)))) := by
      simp [unbox, Ty.isContainer, Ty.code, TypeCode.isContainer, hunboxer, FixedCode.unboxer,
        Scalar.convert?, Scalar.int?, hk, Value.code, Scalar.code]
      rfl
    rw [hunbox, if_neg hk]
    rfl

/-- An integer is read into a slot, or refused and nothing is set. -/
theorem readInto_holding {r : Reader} (h : r.AtInt k n) (record : CallRecord) (index : Int) :
    m.readInto (.int k) r record index false =
      if (native k).Fits n then record.set index (.word (.ofInt (native k) n))
      else .error (.typeMismatch (.nativeScalar (.scalar (.int (native k))) (.int k))) := by
  simp only [readInto, readSlot, readUnboxed_holding hm h]
  split <;> rfl

/-- An integer is written from a slot, or refused and nothing is written. -/
theorem run_writeFrom_holding {record : CallRecord} {index : Int} (hfits : (native k).Fits n)
    (hslot : record.slot index = .ok (.word (.ofInt (native k) n))) (w : Writer)
    (msg : Message) :
    (m.writeFrom (.int k) record index w).run msg =
      if k.Fits n then .ok () (msg.addInt w k n)
      else .error (.typeMismatch (.basicValue (.int k) (.int (native k)))) msg := by
  have hwrite : m.writeFrom (.int k) record index w =
      m.writeSlot (.int k) w (.word (.ofInt (native k) n)) := by
    rw [writeFrom, hslot]
    rfl
  rw [hwrite, writeSlot_holding hm hfits]
  by_cases hk : k.Fits n
  · rw [if_pos hk, if_pos hk]
    exact Writer.run_putWord ..
  · rw [if_neg hk, if_neg hk]
    rfl

/-- A native integer is no other number than the integer in a body that it stands for. Reading an
integer fills a slot with the word of the same number, of which the same bytes are written, or
fails if the native type does not have the number. Writing a native integer appends the bytes of
the same number, or fails if the type in the body does not have it, and every cursor that stands at
these bytes reads the same word. -/
theorem holding_exact (k : IntKind) :
    (∀ r n record index old, r.AtInt k n → record.slot index = .ok old →
      ((native k).Fits n → ∃ record' word,
        m.readInto (.int k) r record index false = .ok record' ∧
        record'.slot index = .ok (.word word) ∧ word.toInt (native k) = n ∧
        ∀ w msg, (m.writeFrom (.int k) record' index w).run msg = .ok () (msg.addInt w k n)) ∧
      (¬(native k).Fits n → m.readInto (.int k) r record index false =
        .error (.typeMismatch (.nativeScalar (.scalar (.int (native k))) (.int k))))) ∧
    ∀ n record index w msg, (native k).Fits n →
      record.slot index = .ok (.word (.ofInt (native k) n)) →
      (k.Fits n →
        (m.writeFrom (.int k) record index w).run msg = .ok () (msg.addInt w k n) ∧
        ∀ r into old, r.require = .ok (.int k) → r.endian = w.endian →
          r.pos = msg.data.length → (msg.addInt w k n).data <+: r.data →
          into.slot index = .ok old → ∃ into',
            m.readInto (.int k) r into index false = .ok into' ∧
            into'.slot index = .ok (.word (.ofInt (native k) n))) ∧
      (¬k.Fits n → (m.writeFrom (.int k) record index w).run msg =
        .error (.typeMismatch (.basicValue (.int k) (.int (native k)))) msg) := by
  constructor
  · intro r n record index old hr hold
    rw [readInto_holding hm hr]
    constructor
    · intro hfits
      obtain ⟨record', hset⟩ := CallRecord.exists_set hold (.word (.ofInt (native k) n))
      have hslot := CallRecord.slot_set_self hset
      refine ⟨record', _, by rw [if_pos hfits, hset], hslot, Word.toInt_ofInt _ hfits, ?_⟩
      intro w msg
      rw [run_writeFrom_holding hm hfits hslot, if_pos hr.fits]
    · intro hfits
      rw [if_neg hfits]
  · intro n record index w msg hfits hslot
    rw [run_writeFrom_holding hm hfits hslot]
    constructor
    · intro hk
      refine ⟨if_pos hk, ?_⟩
      intro r into old hrequire hendian hpos hdata hold
      have hr := Reader.atInt_of_addInt hk hrequire hendian hpos hdata
      obtain ⟨into', hset⟩ := CallRecord.exists_set hold (.word (.ofInt (native k) n))
      exact ⟨into', by rw [readInto_holding hm hr, if_pos hfits, hset],
        CallRecord.slot_set_self hset⟩
    · intro hk
      rw [if_neg hk]

omit hm in
/-- Integers of 32 bits are held in 64. A negative one is held as the same number, and a number
that takes more than 32 bits is not written. -/
theorem holding_exact_int32 :
    let entry : TypeEntry :=
      ⟨.scalar (.int .int64), some .number, some (FixedCode.int .int32).unboxer⟩
    let m : Marshaller := { policy := BoxingPolicy.standard.register (.int .int32) entry }
    let r : Reader := ⟨.little, [219, 255, 255, 255], 0, 4, [105], 0, false, 64⟩
    let record : CallRecord := .new ⟨[.scalar (.int .int64)], .void⟩
    r.AtInt .int32 (-37) ∧
      (∃ record' word, m.readInto (.int .int32) r record 0 false = .ok record' ∧
        record'.slot 0 = .ok (.word word) ∧ word.toInt .int64 = -37 ∧
        ∀ w msg, (m.writeFrom (.int .int32) record' 0 w).run msg =
          .ok () (msg.addInt w .int32 (-37))) ∧
      ∀ record w msg, record.slot 0 = .ok (.word (.ofInt .int64 (2 ^ (40 : Nat)))) →
        (m.writeFrom (.int .int32) record 0 w).run msg =
          .error (.typeMismatch (.basicValue (.int .int32) (.int .int64))) msg := by
  intro entry m r record
  have hm : m.policy = .holding (fun j => if j = .int32 then .int64 else id j)
      (fun j => if j = .int32 then some .number else some .number) := by
    rw [← BoxingPolicy.register_holding, BoxingPolicy.holding_self]
  have hbytes : Endian.little.encodeInt .int32 (-37) = [219, 255, 255, 255] := by decide +kernel
  have hr : r.AtInt .int32 (-37) := by
    refine ⟨rfl, by decide, ?_⟩
    simp only [r, hbytes]
    rfl
  obtain ⟨hread, hwrite⟩ := holding_exact hm .int32
  refine ⟨hr, (hread r (-37) record 0 .empty hr rfl).1 (by decide), ?_⟩
  intro record w msg hslot
  exact (hwrite (2 ^ (40 : Nat)) record 0 w msg (by decide) hslot).2 (by decide)

end Marshaller

end DBus
