import DBus.Proofs.Layout
import DBus.Proofs.Words
import DBus.Marshal

/-!
# What the writers append

Each operation of a writer adds cells to the body, with zeros for padding, and at the top a
signature (`Message.extend`). Where it may fail, the lemma about it says when it does not.

The length in front of an array is the one thing that is written twice. Opening the array leaves
zeros for it, and closing puts the length of what has been appended since in their place
(`Writer.close_eq_ok_iff`).
-/

namespace DBus

/-! ## Extended messages -/

/-- The message with cells added to its body and bytes added to its signature. -/
def Message.extend (msg : Message) (cells : List Cell) (signature : Bytes) : Message :=
  ⟨msg.data ++ fill cells, msg.signature ++ signature⟩

namespace Message

variable (msg : Message)

@[simp] theorem length_data_extend (cells : List Cell) (signature : Bytes) :
    (msg.extend cells signature).data.length = msg.data.length + cells.length := by
  simp [extend]

/-- Messages that are extended twice are extended by both together. -/
@[simp] theorem extend_extend (cs ds : List Cell) (s t : Bytes) :
    (msg.extend cs s).extend ds t = msg.extend (cs ++ ds) (s ++ t) := by
  simp [extend]

@[simp] theorem extend_nil : msg.extend [] [] = msg := by
  simp [extend, fill]

end Message

namespace Writer

variable {w items : Writer} {msg msg' : Message}

/-- What is added to the signature where a value with the given one is written. -/
def recorded (w : Writer) (signature : Bytes) : Bytes := if w.records then signature else []

theorem recorded_nil (w : Writer) : w.recorded [] = [] := by simp [recorded]

/-- Signatures are recorded one behind the other, if they are. -/
theorem recorded_append (w : Writer) (s t : Bytes) :
    w.recorded (s ++ t) = w.recorded s ++ w.recorded t := by
  rw [recorded, recorded, recorded]
  split <;> simp

/-- Inside a container nothing is added to the signature. -/
theorem recorded_inside {w : Writer} (hw : w.records = false) (signature : Bytes) :
    w.recorded signature = [] := by
  simp [recorded, hw]

/-- A nested writer records nothing. -/
theorem recorded_nested (e : Endian) (array : Option ArrayFrame) (levels : Nat)
    (signature : Bytes) : recorded ⟨e, false, array, levels⟩ signature = [] := rfl

/-- Bytes are put at the end. -/
@[simp] theorem run_emit (bs : Bytes) :
    (emit bs).run msg = .ok () (msg.extend (fixed bs) []) := by
  simp [emit, Message.extend]

/-- The body is padded to the next multiple. -/
@[simp] theorem run_align (alignment : Nat) :
    (align alignment).run msg = .ok () (msg.extend (gap msg.data.length alignment) []) := by
  simp [align, Message.extend]

@[simp] theorem run_position : position.run msg = .ok msg.data.length msg := rfl

/-- A signature is recorded at the top, and the body stays as it is. -/
@[simp] theorem run_record (signature : Bytes) :
    (w.record signature).run msg = .ok () (msg.extend [] (w.recorded signature)) := by
  rw [record, recorded]
  split
  · simp [Message.extend, fill]
  · simp [EStateM.run, pure, EStateM.pure]

/-! ## Basic values -/

/-- A word is put behind padding to the size of its type, and never refused. -/
theorem run_putWord (c : FixedCode) (word : Word) :
    (w.putWord c word).run msg =
      .ok () (msg.extend (gap msg.data.length c.size ++ fixed (w.endian.encodeWord c word))
        (w.recorded (Ty.fixed c).render)) := by
  simp [putWord, Ty.render]

/-- The length of a signature has to fit into its byte. -/
theorem putLength_eq_ok_iff {c : TextCode} {s : String} {u : Unit} :
    (w.putLength c s).run msg = .ok u msg' ↔
      (c = .signature → (utf8 s).length ≤ maxSignatureLength) ∧
        msg' = msg.extend (textHead w.endian msg.data.length c (utf8 s).length) [] := by
  have hone : (w.endian.encode 1 (utf8 s).length) = [.ofNat (utf8 s).length] :=
    w.endian.encode_one _
  cases c with
  | signature =>
    have hgap : gap msg.data.length 1 = [] := by simp [gap, padding, Nat.mod_one]
    have hwidth : TextCode.signature.lengthWidth = 1 := rfl
    simp only [putLength, textHead, hwidth, hgap, hone, true_implies]
    split
    · next hle => simp [hle, eq_comm]
    · next hle => simp [hle]
  | string | objectPath =>
    simp [putLength, textHead, TextCode.lengthWidth, TypeCode.alignment, eq_comm]

/-- A text is put if it has no zero byte and its length fits : head, bytes and a zero byte. -/
theorem putText_eq_ok_iff {c : TextCode} {s : String} {u : Unit} :
    (w.putText c s).run msg = .ok u msg' ↔
      0 ∉ utf8 s ∧ (c = .signature → (utf8 s).length ≤ maxSignatureLength) ∧
        msg' = msg.extend
          (textHead w.endian msg.data.length c (utf8 s).length ++ fixed (utf8 s ++ [0]))
          (w.recorded (Ty.text c).render) := by
  have hrest : ∀ mid : Message,
      (do emit (utf8 s ++ [0]); w.record [(TypeCode.text c).byte]).run mid =
        .ok () (mid.extend (fixed (utf8 s ++ [0])) (w.recorded (Ty.text c).render)) := by
    intro mid
    simp [Ty.render]
  unfold putText
  split
  · next h0 =>
    rw [List.contains_iff_mem] at h0
    simp [h0]
  · next h0 =>
    rw [List.contains_iff_mem] at h0
    simp only [run_bind_eq_ok (x := w.putLength c s), putLength_eq_ok_iff, hrest]
    constructor
    · rintro ⟨_, _, ⟨hlen, rfl⟩, h⟩
      simp at h
      exact ⟨h0, hlen, h.symm⟩
    · rintro ⟨-, hlen, rfl⟩
      exact ⟨(), _, ⟨hlen, rfl⟩, by simp⟩

/-! ## Opening -/

/-- A writer is nested if a level is left, and nothing is written for it. -/
theorem nested_eq_ok_iff {array : Option ArrayFrame} :
    (w.nested array).run msg = .ok items msg' ↔
      ∃ levels, w.levels = levels + 1 ∧ items = ⟨w.endian, false, array, levels⟩ ∧ msg' = msg := by
  unfold nested
  split <;> simp_all [run_throw_ne_ok, eq_comm]

/-- Opening an array puts its head with zeros for the length, and the writer inside knows where this
stands and where the items start. -/
theorem openArray_eq_ok_iff {t : Ty} :
    (w.openArray t.render).run msg = .ok items msg' ↔
      ∃ levels, w.levels = levels + 1 ∧
        items = ⟨w.endian, false, some ⟨alignUp msg.data.length 4, itemsStart msg.data.length t⟩,
          levels⟩ ∧
        msg' = msg.extend (arrayHead w.endian msg.data.length t 0)
          (w.recorded (Ty.array t).render) := by
  have hcode : t.render.head?.bind TypeCode.ofByte? = some t.code := by
    obtain ⟨bs, hbs⟩ := t.render_eq_cons
    simp [hbs, TypeCode.ofByte?_byte]
  have hzero : w.endian.encode 4 0 = [0, 0, 0, 0] := by cases w.endian <;> rfl
  simp [openArray, hcode, nested_eq_ok_iff, arrayHead, itemsStart, alignUp, hzero, Nat.add_assoc,
    Ty.render]

/-- Opening a struct pads to eight and records the signature of all of it. -/
theorem openStruct_eq_ok_iff {signature : Bytes} :
    (w.openStruct signature).run msg = .ok items msg' ↔
      ∃ levels, w.levels = levels + 1 ∧ items = ⟨w.endian, false, none, levels⟩ ∧
        msg' = msg.extend (gap msg.data.length 8) (w.recorded signature) := by
  simp [openStruct, nested_eq_ok_iff]

/-- Opening a dict entry pads to eight and records nothing, for it stands in an array. -/
theorem openDictEntry_eq_ok_iff :
    w.openDictEntry.run msg = .ok items msg' ↔
      ∃ levels, w.levels = levels + 1 ∧ items = ⟨w.endian, false, none, levels⟩ ∧
        msg' = msg.extend (gap msg.data.length 8) [] := by
  simp [openDictEntry, nested_eq_ok_iff]

/-- Opening a variant puts the signature of its contents, which has to be one of a single type. -/
theorem openVariant_eq_ok_iff {t : Ty} :
    (w.openVariant t.render).run msg = .ok items msg' ↔
      ∃ levels, t.Valid ∧ w.levels = levels + 1 ∧ items = ⟨w.endian, false, none, levels⟩ ∧
        msg' = msg.extend (variantHead w.endian t) (w.recorded Ty.variant.render) := by
  unfold openVariant
  split
  · next fault hfault =>
    have hnot : ¬t.Valid := fun ht => by simp [ht.parseType_render] at hfault
    simp [hnot, run_throw_ne_ok]
  · next u hu =>
    obtain ⟨hvalid, hrender⟩ := Ty.parseType_eq_ok_iff_valid.mp hu
    rw [← Ty.render_inj hrender] at hvalid
    simp [nested_eq_ok_iff, hvalid, variantHead, Endian.encode_one, fixed, Ty.render]

/-! ## Closing -/

/-- Bytes in the middle of a body are replaced by as many others. -/
theorem patch_append {front old bs back : Bytes} (h : bs.length = old.length) :
    patch (front ++ old ++ back) front.length bs = front ++ bs ++ back := by
  simp [patch, h]

/-- Closing anything else adds nothing to what has been written inside. -/
theorem run_close (e : Endian) (levels : Nat) (head cells : List Cell) (s signature : Bytes) :
    (close ⟨e, false, none, levels⟩).run
        ((msg.extend head s).extend cells (recorded ⟨e, false, none, levels⟩ signature)) =
      .ok () (msg.extend (head ++ cells) s) := by
  rw [recorded_nested, Message.extend_extend, List.append_nil]
  rfl

/-- Closing an array puts its length where opening has left zeros. -/
theorem close_eq_ok_iff {t : Ty} {e : Endian} {levels : Nat} {cells : List Cell}
    {signature : Bytes} {u : Unit} :
    (close ⟨e, false, some ⟨alignUp msg.data.length 4, itemsStart msg.data.length t⟩,
        levels⟩).run ((msg.extend (arrayHead e msg.data.length t 0) signature).extend cells []) =
        .ok u msg' ↔
      cells.length ≤ maxArrayLength ∧
        msg' = msg.extend (arrayHead e msg.data.length t cells.length ++ cells) signature := by
  rw [Message.extend_extend, List.append_nil]
  have hlen : (msg.extend (arrayHead e msg.data.length t 0 ++ cells) signature).data.length -
      itemsStart msg.data.length t = cells.length := by
    have := add_length_arrayHead e msg.data.length t 0
    simp
    omega
  have hdata : ∀ n, (msg.extend (arrayHead e msg.data.length t n ++ cells) signature).data =
      msg.data ++ List.replicate (padding msg.data.length 4) 0 ++ e.encode 4 n ++
        (List.replicate (padding (alignUp msg.data.length 4 + 4) t.code.alignment) 0 ++
          fill cells) := fun n => by
    simp [Message.extend, arrayHead]
  have hat : alignUp msg.data.length 4 =
      (msg.data ++ List.replicate (padding msg.data.length 4) 0).length := by
    simp [alignUp]
  have hpatch : patch (msg.extend (arrayHead e msg.data.length t 0 ++ cells) signature).data
      (alignUp msg.data.length 4) (e.encode 4 cells.length) =
        (msg.extend (arrayHead e msg.data.length t cells.length ++ cells) signature).data := by
    rw [hdata, hdata, hat]
    exact patch_append (by simp [Endian.length_encode])
  simp only [close, EStateM.run_bind, run_position, hlen]
  split
  · next hlt => simp [Nat.not_le.mpr hlt]
  · next hle =>
    rw [run_modify_eq_ok, hpatch, and_iff_right (Nat.le_of_not_lt hle), eq_comm]
    rfl

end Writer

end DBus
