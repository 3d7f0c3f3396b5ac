import DBus.CallRecord
import DBus.Proofs.RoundTrip

/-!
# Slots and values

A slot of a native call stands for a value of the argument that it carries : a boxed value for
itself, a word for the scalar in its low bits, a text for a value of the text type
(`Slot.valueAs?`). In the other direction a value fills a slot, boxed or not (`Value.toSlot`).

Writing a slot is writing the value it stands for (`Marshaller.writeSlot_eq_ok_iff`), and reading
into a slot fills it with the value that is laid out (`Marshaller.readSlot_eq_ok`). A slot filled
with a value of the type stands for that value again (`Value.HasType.valueAs?_toSlot`). A slot that
is `Slot.Canonical` is what its value fills it with, but for names: those at the types of variants
are not part of a message (`Slot.unname`).
-/

namespace DBus

-- `^` is the power of the standard library, whichever others are in scope.
attribute [local instance (1100)] instPowNat

/-! ## From slots to values -/

namespace Slot

/-- The value of a type that a slot stands for. -/
def valueAs? : Slot → Ty → Option Value
  | value v, _ => some v
  | word w, .basic (.fixed c) => some (.scalar (.ofWord c w))
  | str s, .basic (.text c) => some (.text c s)
  | _, _ => none

/-- The lengths of the texts in a slot fit into four bytes. -/
def Short : Slot → Prop
  | value v => v.Short
  | str s => (utf8 s).length < 2 ^ (32 : Nat)
  | word _ | empty => True

theorem short_of_valueAs? {s : Slot} {t : Ty} {v : Value} (h : s.valueAs? t = some v)
    (hs : s.Short) : v.Short := by
  unfold valueAs? at h
  split at h <;> cases h
  · exact hs
  · simp [Value.Short, Value.texts]
  · exact Value.short_text.mpr hs

/-- The slot holds what a value of the type fills it with : boxed a value of exactly the type, and
unboxed a text, or a word that is the low bits of a scalar of the native type and zeros. -/
def Canonical (p : BoxingPolicy) (t : Ty) (n : NativeType) (s : Slot) : Prop :=
  match p.boxingState t n with
  | .boxed => ∃ v, s = .value v ∧ v.HasType t
  | .unboxed => (∃ u, s = .str u) ∨ ∃ x : Scalar, n = .scalar x.code ∧ s = .word x.toWord
  | .invalid => False

/-- The slot without the names of the types of variants in its value. -/
def unname : Slot → Slot
  | value v => value v.unname
  | s => s

theorem unname_eq_self {s : Slot} (h : ∀ v, s = .value v → v.Unnamed) : s.unname = s := by
  cases s with
  | value v => exact congrArg value (v.unname_eq_self (h v rfl))
  | _ => rfl

end Slot

/-! ## From values to slots -/

/-- The slot that a value fills. Containers are always boxed. -/
def Value.toSlot (boxed : Bool) : Value → Slot
  | .scalar s => if boxed then .value (.scalar s) else .word s.toWord
  | .text c s => if boxed then .value (.text c s) else .str s
  | v => .value v

theorem Value.toSlot_boxed (v : Value) : v.toSlot true = .value v := by
  cases v <;> rfl

theorem Value.Short.toSlot {v : Value} (h : v.Short) (boxed : Bool) : (v.toSlot boxed).Short := by
  cases boxed with
  | true => rwa [toSlot_boxed]
  | false =>
    cases v with
    | scalar s => exact trivial
    | text c s => exact short_text.mp h
    | _ => exact h

/-- A slot filled with a value of a type stands for that value. -/
theorem Value.HasType.valueAs?_toSlot {v : Value} {t : Ty} (h : v.HasType t) (boxed : Bool) :
    (v.toSlot boxed).valueAs? t = some v := by
  cases boxed with
  | true => rw [toSlot_boxed, Slot.valueAs?]
  | false =>
    cases h with
    | scalar s => rw [toSlot, if_neg Bool.false_ne_true, Slot.valueAs?, Scalar.ofWord_toWord]
    | text c s => rfl
    | array _ | struct _ _ | dictEntry _ _ | variant _ _ => rfl

/-! ## Boxing states -/

namespace BoxingPolicy

/-- Whether a native type takes values of a type boxed. -/
def boxes (p : BoxingPolicy) (t : Ty) (n : NativeType) : Bool := p.boxingState t n = .boxed

/-- A basic type that is not boxed has the native type of the standard policy. -/
theorem basicState_standard_eq_unboxed {b : BasicCode} {n : NativeType}
    (h : standard.basicState b n = .unboxed) : n = (TypeEntry.standard (.basic b)).unboxed := by
  have hentry : standard.entry? (.basic b) = some (.standard (.basic b)) := rfl
  simp only [basicState, hentry] at h
  split at h
  · cases h
  · split at h
    · assumption
    · cases h

/-- Only basic types are not boxed. -/
theorem exists_basic_of_unboxed {p : BoxingPolicy} {t : Ty} {n : NativeType}
    (h : p.boxingState t n = .unboxed) : ∃ b, t = .basic b := by
  unfold boxingState at h
  split at h
  · exact ⟨_, rfl⟩
  · split at h
    · split at h <;> cases h
    · cases h
  · split at h <;> cases h
  · cases h
  · split at h <;> cases h
  · split at h <;> cases h
  · cases h

end BoxingPolicy

/-- A canonical slot is what the value it stands for fills it with, but for names. -/
theorem Slot.Canonical.toSlot_normalise {t : Ty} {n : NativeType} {s : Slot}
    (h : s.Canonical .standard t n) {v : Value} (hv : s.valueAs? t = some v) :
    (v.normalise t).toSlot (BoxingPolicy.standard.boxes t n) = s.unname := by
  unfold Canonical at h
  unfold BoxingPolicy.boxes
  split at h
  · next hstate =>
    obtain ⟨u, rfl, htype⟩ := h
    cases hv
    rw [Value.normalise_eq_unname htype, hstate]
    exact Value.toSlot_boxed v.unname
  · next hstate =>
    obtain ⟨b, rfl⟩ := BoxingPolicy.exists_basic_of_unboxed hstate
    rw [BoxingPolicy.boxingState] at hstate
    have hn := BoxingPolicy.basicState_standard_eq_unboxed hstate
    rcases h with ⟨u, rfl⟩ | ⟨x, rfl, rfl⟩
    · cases b with
      | fixed c => cases hv
      | text c =>
        cases hv
        rw [Value.normalise_eq_self (.text c u) (by simp [Value.Unnamed, Value.variants])]
        rw [BoxingPolicy.boxingState, hstate]
        rfl
    · cases b with
      | text c => cases hv
      | fixed c =>
        obtain rfl : x.code = c := NativeType.scalar.inj hn
        cases hv
        rw [Scalar.ofWord_toWord,
          Value.normalise_eq_self (.scalar x) (by simp [Value.Unnamed, Value.variants])]
        rw [BoxingPolicy.boxingState, hstate]
        rfl
  · exact h.elim

namespace Marshaller

variable {m : Marshaller} (hm : m.policy = .standard)

include hm

/-! ## Writing a slot -/

theorem lift_entry (c : TypeCode) :
    (liftM (m.policy.entry c) : Write TypeEntry) = pure (TypeEntry.standard c) := by
  rw [entry_standard hm]
  rfl

/-- A text in a slot is checked as one in a boxed value is. -/
theorem writeSlot_str_eq_ok_iff {c : TextCode} {s : String} (hs : (utf8 s).length < 2 ^ (32 : Nat))
    {w : Writer} {msg msg' : Message} :
    (m.writeSlot (.text c) w (.str s)).run msg = .ok () msg' ↔
      (m.writeValue (.text c) (.text c s) w).run msg = .ok () msg' := by
  have hnormal : (Value.text c s).normalise (.text c) = .text c s :=
    Value.normalise_eq_self (.text c s) (by simp [Value.Unnamed, Value.variants])
  have hcode : (Ty.text c).code = .dictEntry → w.records = false := by
    rintro ⟨⟩
  rw [writeValue_eq_ok_iff hm (Value.short_text.mpr hs) hcode, hnormal]
  simp only [writeSlot, Ty.code, discard_lift_entry hm, pure_bind, checkText, Writer.appendText,
    run_bind_eq_ok, Write.lift_eq_ok, Writer.putText_eq_ok_iff, laidOut_text, Value.text.injEq,
    true_and]
  constructor
  · rintro ⟨_, _, ⟨hcheck, rfl⟩, h0, -, rfl⟩
    exact ⟨_, ⟨s, ⟨h0, hcheck⟩, hs, rfl, rfl⟩, rfl⟩
  · rintro ⟨_, ⟨_, hallows, -, rfl, rfl⟩, rfl⟩
    refine ⟨(), _, ⟨hallows.2, rfl⟩, hallows.1, ?_, rfl⟩
    rintro rfl
    exact hallows.length_le

/-- Writing a slot is writing the value that it stands for. -/
theorem writeSlot_eq_ok_iff {t : Ty} {s : Slot} (hs : s.Short) {w : Writer}
    {msg msg' : Message} :
    (m.writeSlot t w s).run msg = .ok () msg' ↔
      ∃ v, s.valueAs? t = some v ∧ (m.writeValue t v w).run msg = .ok () msg' := by
  cases s with
  | empty => simp [writeSlot, Slot.valueAs?]
  | value v => simp [writeSlot, Slot.valueAs?]
  | word word =>
    rcases t with (c | c) | e | ts | ⟨k, e⟩ | _
    · simp [writeSlot, Slot.valueAs?, Ty.isContainer, Ty.code, TypeCode.isContainer, lift_entry hm,
        TypeEntry.standard]
    · simp [writeSlot, Slot.valueAs?, Ty.isContainer, Ty.code, TypeCode.isContainer, lift_entry hm,
        TypeEntry.standard]
    all_goals simp [writeSlot, Slot.valueAs?, Ty.isContainer, Ty.code, TypeCode.isContainer]
  | str u =>
    rcases t with (c | c) | e | ts | ⟨k, e⟩ | _
    case basic.text =>
      rw [writeSlot_str_eq_ok_iff hm hs]
      simp [Slot.valueAs?]
    all_goals
      refine iff_of_false ?_ (by simp [Slot.valueAs?])
      simp only [writeSlot, Ty.code, discard_lift_entry hm, pure_bind, checkText, Writer.appendText,
        run_bind_eq_ok]
      rintro ⟨-, _, -, h⟩
      split at h <;> exact run_throw_ne_ok h

/-! ## Reading into a slot -/

theorem readUnboxed_eq_ok {b : BasicCode} {r : Reader} {ts : List Ty} {v : Value} {d : Nat}
    {cs : List Cell} (hr : r.StandsAt (.basic b) ts) (h : LaidOut r.endian d (.basic b) v r.pos cs)
    (hat : At r.data r.pos cs) :
    ∃ u, m.readUnboxed b r = .ok u ∧ Slot.ofUnboxed u = v.toSlot false := by
  have hcode : expectCode (.basic b) r = .ok () := expectCode_eq hr
  simp only [readUnboxed, entry_standard hm, hcode, ok_bind]
  cases h with
  | @scalar _ _ c s hs =>
    subst hs
    have hword := (Reader.word_eq_ok_iff hr).mpr ⟨by rw [Scalar.ofWord_toWord], hat⟩
    simp only [TypeEntry.standard, hword, ok_bind, Scalar.ofWord_toWord, Value.convert?_code]
    exact ⟨_, rfl, rfl⟩
  | @text _ _ c s hs hlen =>
    have htext := (Reader.text_eq_ok_iff hr).mpr ⟨hs.1, hs.length_lt hlen, hat⟩
    simp only [TypeEntry.standard, htext, ok_bind, hs.2]
    exact ⟨_, rfl, rfl⟩

/-- Reading into a slot fills it with the value that is laid out. -/
theorem readSlot_eq_ok {t : Ty} (ht : t.Regular) {r : Reader} {ts : List Ty} {v : Value}
    {cs : List Cell} (hr : r.StandsAt t ts)
    (h : LaidOut r.endian (min m.maxDepth r.levels) t v r.pos cs) (hat : At r.data r.pos cs)
    (boxed : Bool) : m.readSlot t r boxed = .ok (v.toSlot boxed) := by
  have hvalue : m.readValue t r = .ok v := (readValue_eq_ok_iff hm ht hr).mpr ⟨cs, h, hat⟩
  cases boxed with
  | true =>
    simp only [readSlot, hvalue, ok_bind, v.toSlot_boxed]
    rfl
  | false =>
    cases t with
    | basic b =>
      obtain ⟨u, hu, hslot⟩ := readUnboxed_eq_ok hm hr h hat
      simp only [readSlot, hu, ok_bind, ← hslot]
      rfl
    | _ =>
      have htype := h.wellFormed.hasType
      simp only [readSlot, hvalue, ok_bind]
      cases htype
      rfl

end Marshaller

end DBus
