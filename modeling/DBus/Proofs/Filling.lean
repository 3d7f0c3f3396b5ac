import DBus.Proofs.Records
import DBus.Proofs.Slots
import DBus.Proofs.Soundness
import DBus.Proofs.Unboxing

/-!
# Filling slots

A slot of a record is filled in place with the value at a cursor, boxed or not
(`Marshaller.fill`). Setting the slot is the last step, so that there is no failure that leaves a
record half changed (`Marshaller.run_fill`, `Marshaller.fill_cases`).

For a basic type it makes no difference whether the value is boxed. The unboxed form that is read
is what the value read boxed is taken for (`Marshaller.readUnboxed_eq`), and both are written as
that (`Marshaller.writeValue_of_unboxes`, `Marshaller.writeSlot_ofUnboxed`). So filling a slot one
way or the other succeeds and fails together, and a message made of either slot is the same
(`Marshaller.fill_boxed_or_not`).
-/

namespace DBus

namespace Marshaller

variable {m : Marshaller}

/-! ## Filling -/

/-- A result without effect on a record. -/
instance : MonadLift (Except Error) (EStateM Error CallRecord) where
  monadLift
    | .ok a => pure a
    | .error e => throw e

/-- Put the value at a cursor into a slot of a record in place, boxed or not. -/
def fill (m : Marshaller) (t : Ty) (r : Reader) (index : Int) (boxed : Bool) :
    EStateM Error CallRecord Unit := do
  let s ← m.readSlot t r boxed
  let record ← get
  set (← record.set index s)

variable {t : Ty} {r : Reader} {record record' : CallRecord} {index : Int} {boxed : Bool}
  {e : Error}

/-- The record becomes the one that is read into, or stays the same where there is none. -/
theorem run_fill (t : Ty) (r : Reader) (record : CallRecord) (index : Int) (boxed : Bool) :
    (m.fill t r index boxed).run record =
      match m.readInto t r record index boxed with
      | .ok record' => .ok () record'
      | .error e => .error e record := by
  rw [fill, readInto]
  cases m.readSlot t r boxed with
  | error e => rfl
  | ok s =>
    have hlift : (liftM (Except.ok s : Except Error Slot) : EStateM Error CallRecord Slot) =
        pure s := rfl
    simp only [hlift, pure_bind, ok_bind, EStateM.run_bind, EStateM.run_get]
    cases record.set index s with
    | ok record' => rfl
    | error e => rfl

theorem fill_of_readInto (h : m.readInto t r record index boxed = .ok record') :
    (m.fill t r index boxed).run record = .ok () record' := by
  rw [run_fill, h]

theorem fill_of_readInto_error (h : m.readInto t r record index boxed = .error e) :
    (m.fill t r index boxed).run record = .error e record := by
  rw [run_fill, h]

/-- Filling fails and leaves the record as it is, or changes the one slot. -/
theorem fill_cases (t : Ty) (r : Reader) (record : CallRecord) (index : Int) (boxed : Bool) :
    (∃ e, (m.fill t r index boxed).run record = .error e record) ∨
      ∃ record', (m.fill t r index boxed).run record = .ok () record' ∧
        record'.signature = record.signature ∧ ∀ j, j ≠ index → record'.slot j = record.slot j := by
  cases h : m.readInto t r record index boxed with
  | error e => exact .inl ⟨e, fill_of_readInto_error h⟩
  | ok record' =>
    have hset := h
    simp only [readInto, bind_eq_ok] at hset
    obtain ⟨s, -, hset⟩ := hset
    exact .inr ⟨record', fill_of_readInto h, CallRecord.signature_of_set hset,
      fun j hj => CallRecord.slot_set_of_ne hset hj⟩

/-- A slot that is read is put where there is one. -/
theorem fill_of_readSlot {s old : Slot} (hold : record.slot index = .ok old)
    (hs : m.readSlot t r boxed = .ok s) :
    ∃ record', (m.fill t r index boxed).run record = .ok () record' ∧
      record'.slot index = .ok s := by
  obtain ⟨record', hset⟩ := CallRecord.exists_set hold s
  refine ⟨record', fill_of_readInto ?_, CallRecord.slot_set_self hset⟩
  rw [readInto, hs, ok_bind, hset]

/-- The failure is that of reading, or else that there is no such slot. -/
theorem fill_of_error (h : m.readSlot t r boxed = .error e ∨
    (∃ s, m.readSlot t r boxed = .ok s) ∧ record.slot index = .error e) :
    (m.fill t r index boxed).run record = .error e record := by
  refine fill_of_readInto_error ?_
  rcases h with h | ⟨⟨s, hs⟩, h⟩
  · rw [readInto, h]
    rfl
  · rw [readInto, hs, ok_bind, CallRecord.set_eq_error_iff.mpr h]

/-! ## Reading a basic value -/

/-- Nothing is read on the level below. -/
theorem readValue_basic (b : BasicCode) (r : Reader) :
    m.readValue (.basic b) r =
      m.readBy (fun _ _ _ => .error (.depthExceeded maxNesting)) m.maxDepth (.basic b) r := by
  rw [readValue]
  cases r.levels with
  | zero => rfl
  | succ levels => cases b <;> rfl

section

variable (hm : m.policy = .standard)

include hm

theorem readValue_fixed (c : FixedCode) (r : Reader) :
    m.readValue (.fixed c) r = (do
      expectCode (.fixed c) r
      let w ← r.word
      return .scalar (.ofWord c w)) := by
  rw [readValue_basic, readBy, discard_entry hm, ok_bind]
  rfl

theorem readValue_text (c : TextCode) (r : Reader) :
    m.readValue (.text c) r = (do
      expectCode (.text c) r
      let s ← r.text
      c.check s
      return .text c s) := by
  rw [readValue_basic, readBy, discard_entry hm, ok_bind]
  rfl

theorem readUnboxed_fixed (c : FixedCode) (r : Reader) :
    m.readUnboxed (.fixed c) r = (do
      expectCode (.fixed c) r
      let w ← r.word
      return .word (Scalar.ofWord c w).toWord) := by
  rw [readUnboxed, hm]
  simp only [BoxingPolicy.entry, BoxingPolicy.standard, TypeEntry.standard, ok_bind,
    Scalar.convert?_ofWord]

theorem readUnboxed_text (c : TextCode) (r : Reader) :
    m.readUnboxed (.text c) r = (do
      expectCode (.text c) r
      let s ← r.text
      c.check s
      return .str s) := by
  rw [readUnboxed, hm]
  rfl

/-- The unboxed form that is read is what the value read boxed is taken for. -/
theorem readUnboxed_eq (b : BasicCode) (r : Reader) :
    m.readUnboxed b r = m.readValue (.basic b) r >>= m.unbox (.basic b) := by
  cases b with
  | fixed c =>
    have hunbox : ∀ w, m.unbox (.fixed c) (.scalar (.ofWord c w)) =
        .ok (.word (Scalar.ofWord c w).toWord) :=
      fun w => (unbox_eq_ok_iff hm).mpr (.of_code (Scalar.code_ofWord c w))
    rw [readUnboxed_fixed hm, readValue_fixed hm]
    simp only [bind_assoc, pure_bind, hunbox]
    rfl
  | text c =>
    have hunbox : ∀ s, c.check s = .ok () → m.unbox (.text c) (.text c s) = .ok (.str s) :=
      fun s hs => (unbox_eq_ok_iff hm).mpr (.text (.inl rfl) hs)
    rw [readUnboxed_text hm, readValue_text hm]
    simp only [bind_assoc, pure_bind]
    refine bind_congr fun _ => bind_congr fun s => ?_
    cases hs : c.check s with
    | error e => rfl
    | ok u => rw [ok_bind, ok_bind, hunbox s hs]; rfl

/-- Reading a basic value boxed and unboxed fails alike, or gives a value and what it is taken
for. -/
theorem readSlot_boxed_or_not (b : BasicCode) (r : Reader) :
    (∃ e, ∀ boxed, m.readSlot (.basic b) r boxed = .error e) ∨
      ∃ v u, v.code = .basic b ∧ (∀ q ∈ v.texts, q.1.Allows q.2) ∧ Unboxes b v u ∧
        m.readSlot (.basic b) r true = .ok (.value v) ∧
        m.readSlot (.basic b) r false = .ok (.ofUnboxed u) := by
  have hunboxed := readUnboxed_eq hm b r
  cases h : m.readValue (.basic b) r with
  | error e =>
    rw [h] at hunboxed
    refine .inl ⟨e, fun boxed => ?_⟩
    cases boxed with
    | true => simp only [readSlot, h]; rfl
    | false => simp only [readSlot, hunboxed]; rfl
  | ok v =>
    have hv := wellFormed_of_readValue h
    obtain ⟨u, hu⟩ := Unboxes.of_hasType hv.hasType hv.allowed
    rw [h, ok_bind, (unbox_eq_ok_iff hm).mpr hu] at hunboxed
    refine .inr ⟨v, u, hv.hasType.code_basic, hv.allowed, hu, ?_, ?_⟩
    · simp only [readSlot, h]; rfl
    · simp only [readSlot, hunboxed]; rfl

/-! ## Writing a basic value -/

/-- A value is written as what it is taken for. -/
theorem writeValue_of_unboxes {b : BasicCode} {v : Value} {u : Unboxed} (h : Unboxes b v u)
    (w : Writer) : m.writeValue (.basic b) v w = writeUnboxed (.basic b) w u := by
  rw [writeValue, writeWithin_basic (entry_standard hm _), (unbox_eq_ok_iff hm).mpr h]
  rfl

/-- So is a slot that holds it unboxed. -/
theorem writeSlot_ofUnboxed {b : BasicCode} {v : Value} {u : Unboxed} (h : Unboxes b v u)
    (w : Writer) : m.writeSlot (.basic b) w (.ofUnboxed u) = writeUnboxed (.basic b) w u := by
  cases h with
  | @scalar c s t ht =>
    rw [← writeValue_of_unboxes hm (.of_code (Value.code_of_convert? ht))]
    simp only [Slot.ofUnboxed, writeSlot, Ty.code, lift_entry hm, pure_bind, TypeEntry.standard,
      ← Value.code_of_convert? ht, Scalar.ofWord_toWord]
    rfl
  | @text c d s hd hcheck =>
    simp only [Slot.ofUnboxed, writeSlot, Ty.code, discard_lift_entry hm, pure_bind, checkText,
      hcheck]
    rfl

omit hm in
/-- It can be written if no text in the value has a zero byte. -/
theorem exists_writeUnboxed {b : BasicCode} {v : Value} {u : Unboxed} (h : Unboxes b v u)
    (hallows : ∀ q ∈ v.texts, q.1.Allows q.2) (w : Writer) (msg : Message) :
    ∃ msg', (writeUnboxed (.basic b) w u).run msg = .ok () msg' := by
  cases h with
  | scalar _ => exact ⟨_, Writer.run_putWord ..⟩
  | @text c d s hd hcheck =>
    have h0 : 0 ∉ utf8 s := (hallows (d, s) (List.mem_singleton.mpr rfl)).1
    refine ⟨_, Writer.putText_eq_ok_iff.mpr ⟨h0, ?_, rfl⟩⟩
    intro hc
    rw [hc] at hcheck
    exact TextCode.Allows.length_le ⟨h0, hcheck⟩

/-! ## Boxed or not -/

/-- Whether a basic value is boxed makes no difference to a call. Filling a slot with the value at
a cursor fails with the same error either way. Or it fills the slot with a value one way and with
what that value is taken for the other way, and the two slots are written alike. A failure leaves
the record as it is, and no slot but the one that is addressed ever changes. -/
theorem fill_boxed_or_not (r : Reader) (record : CallRecord) (index : Int) :
    (∀ b : BasicCode,
      (∃ e, ∀ boxed, (m.fill (.basic b) r index boxed).run record = .error e record) ∨
      ∃ v u withValue withUnboxed,
        (m.fill (.basic b) r index true).run record = .ok () withValue ∧
        withValue.slot index = .ok (.value v) ∧
        (m.fill (.basic b) r index false).run record = .ok () withUnboxed ∧
        withUnboxed.slot index = .ok (.ofUnboxed u) ∧
        m.box (.basic b) u = .ok v ∧ m.unbox (.basic b) v = .ok u ∧
        ∀ w msg, ∃ msg',
          (m.writeFrom (.basic b) withValue index w).run msg = .ok () msg' ∧
          (m.writeFrom (.basic b) withUnboxed index w).run msg = .ok () msg') ∧
    ∀ t boxed,
      (∃ e, (m.fill t r index boxed).run record = .error e record) ∨
      ∃ record', (m.fill t r index boxed).run record = .ok () record' ∧
        record'.signature = record.signature ∧
        ∀ j, j ≠ index → record'.slot j = record.slot j := by
  refine ⟨fun b => ?_, fun t boxed => fill_cases t r record index boxed⟩
  rcases readSlot_boxed_or_not hm b r with ⟨e, he⟩ | ⟨v, u, hcode, hallows, hu, hvalue, hunboxed⟩
  · exact .inl ⟨e, fun boxed => fill_of_error (.inl (he boxed))⟩
  cases hold : record.slot index with
  | error e =>
    -- The value can be read, and it is the slot that is missing, boxed or not.
    refine .inl ⟨e, fun boxed => fill_of_error (.inr ⟨?_, hold⟩)⟩
    cases boxed with
    | true => exact ⟨_, hvalue⟩
    | false => exact ⟨_, hunboxed⟩
  | ok old =>
    obtain ⟨withValue, hfillValue, hslotValue⟩ := fill_of_readSlot hold hvalue
    obtain ⟨withUnboxed, hfillUnboxed, hslotUnboxed⟩ := fill_of_readSlot hold hunboxed
    have hbox : m.box (.basic b) u = .ok v := by
      rw [box_of_unboxes hm hu, hu.normalise_eq_self hcode]
    refine .inr ⟨v, u, withValue, withUnboxed, hfillValue, hslotValue, hfillUnboxed, hslotUnboxed,
      hbox, (unbox_eq_ok_iff hm).mpr hu, fun w msg => ?_⟩
    obtain ⟨msg', hwrite⟩ := exists_writeUnboxed hu hallows w msg
    have hwriteValue : m.writeSlot (.basic b) w (.value v) = writeUnboxed (.basic b) w u :=
      writeValue_of_unboxes hm hu w
    refine ⟨msg', ?_, ?_⟩
    · rw [writeFrom, hslotValue, ← hwrite, ← hwriteValue]
      rfl
    · rw [writeFrom, hslotUnboxed, ← hwrite, ← writeSlot_ofUnboxed hm hu]
      rfl

omit hm in
/-- A negative number of 16 bits as an argument. -/
theorem fill_boxed_or_not_int16 :
    let r : Reader := ⟨.little, [254, 255], 0, 2, [110], 0, false, 64⟩
    let record : CallRecord := .new ⟨[.scalar (.int .int16)], .void⟩
    ({} : Marshaller).policy = .standard ∧
      ∃ withValue withUnboxed,
        (({} : Marshaller).fill (.int .int16) r 0 true).run record = .ok () withValue ∧
        withValue.slot 0 = .ok (.value (.scalar (.int .int16 (-2) (by decide)))) ∧
        (({} : Marshaller).fill (.int .int16) r 0 false).run record = .ok () withUnboxed ∧
        withUnboxed.slot 0 = .ok (.word ⟨65534⟩) ∧
        ∀ w msg, ∃ msg',
          (({} : Marshaller).writeFrom (.int .int16) withValue 0 w).run msg = .ok () msg' ∧
          (({} : Marshaller).writeFrom (.int .int16) withUnboxed 0 w).run msg = .ok () msg' := by
  intro r record
  have hscalar : Scalar.ofWord (.int .int16) ⟨65534⟩ = .int .int16 (-2) (by decide) := by decide
  have hword : (Scalar.ofWord (.int .int16) ⟨65534⟩).toWord = ⟨65534⟩ := by
    decide +kernel
  have hboxed : (({} : Marshaller).fill (.int .int16) r 0 true).run record =
      .ok () ⟨record.signature, [.value (.scalar (.int .int16 (-2) (by decide)))], .empty,
        rfl⟩ := by
    have hread : ({} : Marshaller).readSlot (.int .int16) r true =
        .ok (.value (.scalar (.ofWord (.int .int16) ⟨65534⟩))) := by
      simp only [r]
      rfl
    rw [hscalar] at hread
    exact fill_of_readInto (by rw [readInto, hread]; rfl)
  have hnot : (({} : Marshaller).fill (.int .int16) r 0 false).run record =
      .ok () ⟨record.signature, [.word ⟨65534⟩], .empty, rfl⟩ := by
    have hread : ({} : Marshaller).readSlot (.int .int16) r false =
        .ok (.word (Scalar.ofWord (.int .int16) ⟨65534⟩).toWord) := by
      simp only [r]
      rfl
    rw [hword] at hread
    exact fill_of_readInto (by rw [readInto, hread]; rfl)
  rcases (fill_boxed_or_not (m := {}) rfl r record 0).1 (.fixed (.int .int16)) with ⟨e, he⟩ |
    ⟨v, u, withValue, withUnboxed, hvalue, hslotValue, hunboxed, hslotUnboxed, -, -, hwrite⟩
  · cases (he true).symm.trans hboxed
  · cases hboxed.symm.trans hvalue
    cases hnot.symm.trans hunboxed
    exact ⟨rfl, _, _, hboxed, rfl, hnot, rfl, hwrite⟩

end

end Marshaller

end DBus
