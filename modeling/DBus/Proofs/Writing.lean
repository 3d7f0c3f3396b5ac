import DBus.Proofs.Appending
import DBus.Proofs.Normal

/-!
# What is written

Writing a value as a type appends the layout of its normal form, and fails if it has none there
(`Marshaller.writeValue_eq_ok_iff`). The value may nest as many containers as the marshaller has
room for and the writer has levels, whichever is less.

The relation between a writing operation and the layout is `Writes`. The loops over items and
fields keep it, and one level of writing has it if the level below has it (`writes_writeBy`).
-/

namespace DBus

namespace Marshaller

/-- An operation writes values as a type with writers of some level. It appends their normal
forms, where these are laid out with at most `d` containers nested in them. -/
def Writes (write : Value → Writer → Write Unit) (t : Ty) (d levels : Nat) : Prop :=
  ∀ (v : Value) (w : Writer) (msg msg' : Message), w.levels = levels →
    (t.code = .dictEntry → w.records = false) → v.Short →
      ((write v w).run msg = .ok () msg' ↔
        ∃ cs, LaidOut w.endian d t (v.normalise t) msg.data.length cs ∧
          msg' = msg.extend cs (w.recorded t.render))

/-! ## Loops -/

section

variable {d : Nat} {w : Writer} {msg msg' : Message} {vs : List Value}

/-- Writing nothing appends no cells. -/
theorem write_nil_iff : (pure () : Write Unit).run msg = .ok () msg' ↔
    ∃ cs, LaidOutAll w.endian d [] [] msg.data.length cs ∧ msg' = msg.extend cs [] := by
  simp only [run_pure_eq_ok, laidOutAll_nil, true_and, exists_eq_left, Message.extend_nil]
  exact eq_comm

/-- Fields are written if their normal forms can be laid out one behind the other, and what is
appended is that. The signature of all of them is recorded. -/
theorem writeFields_eq_ok_iff {write : Ty → Value → Writer → Write Unit} {ts : List Ty}
    (hwrite : ∀ t, Writes (write t) t d w.levels)
    (hw : ∀ t ∈ ts, t.code = .dictEntry → w.records = false) (hlen : vs.length = ts.length)
    (hvs : ∀ v ∈ vs, v.Short) :
    (writeFields (fun t v => write t v w) ts vs).run msg = .ok () msg' ↔
      ∃ cs, LaidOutAll w.endian d ts (Value.normaliseFields vs ts) msg.data.length cs ∧
        msg' = msg.extend cs (w.recorded (Ty.renderAll ts)) := by
  induction ts generalizing vs msg with
  | nil =>
    obtain rfl := List.eq_nil_of_length_eq_zero hlen
    rw [Ty.renderAll, w.recorded_nil]
    exact write_nil_iff
  | cons t ts ih =>
    cases vs with
    | nil => cases hlen
    | cons v vs =>
      rw [List.forall_mem_cons] at hw hvs
      have hv := fun mid => hwrite t v w msg mid rfl hw.1 hvs.1
      have hrest := fun c s => @ih (msg.extend c s) vs hw.2 (Nat.succ.inj hlen) hvs.2
      simp only [writeFields, run_bind_eq_ok, hv, Value.normaliseFields, Ty.renderAll,
        w.recorded_append]
      constructor
      · rintro ⟨-, _, ⟨c, hc, rfl⟩, h⟩
        obtain ⟨cs, hcs, rfl⟩ := (hrest c _).mp h
        rw [Message.length_data_extend] at hcs
        exact ⟨c ++ cs, .cons hc hcs, by simp⟩
      · rintro ⟨_, h, rfl⟩
        obtain ⟨c, cs, hc, hcs, rfl⟩ := laidOutAll_cons.mp h
        rw [← Message.length_data_extend msg c (w.recorded t.render)] at hcs
        exact ⟨(), _, ⟨c, hc, rfl⟩, (hrest c _).mpr ⟨cs, hcs, by simp⟩⟩

/-- Items are written if their normal forms can be laid out one behind the other as values of one
type. Nothing is recorded for them, as the array has done it. -/
theorem writeItems_eq_ok_iff {write : Value → Writer → Write Unit} {t : Ty}
    (hwrite : Writes write t d w.levels) (hw : w.records = false) (hvs : ∀ v ∈ vs, v.Short) :
    (vs.forM fun v => write v w).run msg = .ok () msg' ↔
      ∃ cs, LaidOutAll w.endian d (List.replicate vs.length t) (Value.normaliseItems vs t)
          msg.data.length cs ∧ msg' = msg.extend cs [] := by
  induction vs generalizing msg with
  | nil => exact write_nil_iff
  | cons v vs ih =>
    rw [List.forall_mem_cons] at hvs
    have hv := fun mid => hwrite v w msg mid rfl (fun _ => hw) hvs.1
    rw [w.recorded_inside hw] at hv
    have hrest := fun c => @ih (msg.extend c []) hvs.2
    have hcons : ((v :: vs).forM fun v => write v w) =
      (do write v w; vs.forM fun v => write v w) := rfl
    simp only [hcons, run_bind_eq_ok, hv, Value.normaliseItems]
    constructor
    · rintro ⟨-, _, ⟨c, hc, rfl⟩, h⟩
      obtain ⟨cs, hcs, rfl⟩ := (hrest c).mp h
      rw [Message.length_data_extend] at hcs
      exact ⟨c ++ cs, .cons hc hcs, by simp⟩
    · rintro ⟨_, h, rfl⟩
      obtain ⟨c, cs, hc, hcs, rfl⟩ := laidOutAll_cons.mp h
      rw [← Message.length_data_extend msg c []] at hcs
      exact ⟨(), _, ⟨c, hc, rfl⟩, (hrest c).mpr ⟨cs, hcs, by simp⟩⟩

end

/-! ## One level -/

section

variable {m : Marshaller} (hm : m.policy = .standard)
  {inner : (room : Nat) → Ty → Value → Writer → Write Unit} {levels : Nat}
  (hinner : ∀ {n}, levels = n + 1 → ∀ room t, Writes (inner room t) t (min room n) n)

include hm

/-- A value is unboxed for a fixed type if it is a scalar that converts to that type, and to the
word of what it converts to. -/
theorem unbox_fixed_eq_ok_iff {c : FixedCode} {v : Value} {u : Unboxed} :
    m.unbox (.fixed c) v = .ok u ↔
      ∃ s t, v = .scalar s ∧ s.convert? c = some t ∧ u = .word t.toWord := by
  have hcode : (Ty.fixed c).code = .fixed c := rfl
  have hcontainer : (Ty.fixed c).isContainer = false := rfl
  have hunboxer : m.policy.unboxer (.fixed c) = .ok c.unboxer := by rw [hm]; rfl
  simp only [unbox, hcode, hcontainer, hunboxer, ok_bind]
  cases v with
  | scalar s =>
    cases hs : s.convert? c with
    | none => simp [FixedCode.unboxer, hs]
    | some t =>
      simp [FixedCode.unboxer, hs]
      exact eq_comm
  | _ => simp [FixedCode.unboxer]

/-- A value is unboxed for a text type if it is a text of this type or a string, and the text passes
the check of the type. -/
theorem unbox_text_eq_ok_iff {c : TextCode} {v : Value} {u : Unboxed} :
    m.unbox (.text c) v = .ok u ↔
      ∃ d s, v = .text d s ∧ (d = c ∨ d = .string) ∧ c.check s = .ok () ∧ u = .str s := by
  have hcode : (Ty.text c).code = .text c := rfl
  have hcontainer : (Ty.text c).isContainer = false := rfl
  have hunboxer : m.policy.unboxer (.text c) = .ok c.unboxer := by rw [hm]; rfl
  simp only [unbox, hcode, hcontainer, hunboxer, ok_bind]
  cases v with
  | text d s =>
    by_cases hd : d = c ∨ d = .string <;> cases hs : c.check s <;>
      simp [TextCode.unboxer, hd, hs, Except.toBool, and_assoc]
    exact eq_comm
  | _ => simp [TextCode.unboxer]

/-- A level that writes a value of a fixed type, with any room. -/
theorem writes_fixed (c : FixedCode) (room d : Nat) :
    Writes (m.writeBy inner room (.fixed c)) (.fixed c) d levels := by
  intro v w msg msg' _ _ _
  simp only [writeBy_basic hm, run_bind_eq_ok, Write.lift_eq_ok, unbox_fixed_eq_ok_iff hm,
    laidOut_fixed]
  constructor
  · rintro ⟨_, _, ⟨⟨s, t, rfl, ht, rfl⟩, rfl⟩, h⟩
    have hrun : (w.putWord c t.toWord).run msg = .ok () msg' := h
    rw [Writer.run_putWord, EStateM.Result.ok.injEq] at hrun
    obtain ⟨hcode, hv⟩ := Value.normalise_fixed_iff.mpr ⟨s, rfl, ht⟩
    exact ⟨_, ⟨t, hcode, hv, rfl⟩, hrun.2.symm⟩
  · rintro ⟨_, ⟨t, hcode, hv, rfl⟩, rfl⟩
    obtain ⟨s, rfl, ht⟩ := Value.normalise_fixed_iff.mp ⟨hcode, hv⟩
    exact ⟨_, _, ⟨⟨s, t, rfl, ht, rfl⟩, rfl⟩, Writer.run_putWord ..⟩

/-- A level that writes a text, with any room. -/
theorem writes_text (c : TextCode) (room d : Nat) :
    Writes (m.writeBy inner room (.text c)) (.text c) d levels := by
  intro v w msg msg' _ _ hv
  simp only [writeBy_basic hm, run_bind_eq_ok, Write.lift_eq_ok, unbox_text_eq_ok_iff hm,
    laidOut_text]
  constructor
  · rintro ⟨_, _, ⟨⟨d, s, rfl, hd, hcheck, rfl⟩, rfl⟩, h⟩
    obtain ⟨h0, -, rfl⟩ := Writer.putText_eq_ok_iff.mp h
    exact ⟨_, ⟨s, ⟨h0, hcheck⟩, Value.short_text.mp hv,
      Value.normalise_text_iff.mpr ⟨d, rfl, hd⟩, rfl⟩, rfl⟩
  · rintro ⟨_, ⟨s, hs, -, hnormal, rfl⟩, rfl⟩
    obtain ⟨d, rfl, hd⟩ := Value.normalise_text_iff.mp hnormal
    refine ⟨_, _, ⟨⟨d, s, rfl, hd, hs.2, rfl⟩, rfl⟩, Writer.putText_eq_ok_iff.mpr ⟨hs.1, ?_, rfl⟩⟩
    rintro rfl
    exact hs.length_le

include hinner

/-- A level that writes an array. It takes one from the room of the marshaller and one from the
levels of the writer, so the lesser of both counts. -/
theorem writes_array (t : Ty) (room : Nat) :
    Writes (m.writeBy inner room (.array t)) (.array t) (min room levels) levels := by
  intro v w msg msg' hl _ hshort
  cases v with
  | array vs =>
    simp only [writeBy_array hm, run_bind_eq_ok, Write.lift_eq_ok, deeper_eq_ok,
      Writer.openArray_eq_ok_iff, laidOut_array, Value.normalise_array_iff]
    constructor
    · rintro ⟨k, _, ⟨rfl, rfl⟩, items, _, ⟨n, hn, rfl, rfl⟩, ⟨⟩, _, hitems, hclose⟩
      obtain rfl : levels = n + 1 := hl.symm.trans hn
      obtain ⟨cs, h, rfl⟩ := (writeItems_eq_ok_iff (hinner rfl k t) rfl
        (Value.short_array.mp hshort)).mp hitems
      rw [Message.length_data_extend, add_length_arrayHead] at h
      rw [Writer.close_eq_ok_iff] at hclose
      obtain ⟨hlen, rfl⟩ := hclose
      refine ⟨_, ⟨_, _, cs, Nat.succ_min_succ k n, ⟨vs, rfl, rfl⟩, ?_, hlen, rfl⟩, rfl⟩
      rwa [Value.length_normaliseItems]
    · rintro ⟨_, ⟨d, _, cs, hd, ⟨_, ⟨⟩, rfl⟩, h, hlen, rfl⟩, rfl⟩
      obtain ⟨k, n, rfl, rfl, rfl⟩ := min_eq_succ_iff.mp hd
      rw [Value.length_normaliseItems] at h
      refine ⟨k, _, ⟨rfl, rfl⟩, _, _, ⟨n, hl, rfl, rfl⟩, (), _,
        (writeItems_eq_ok_iff (hinner rfl k t) rfl (Value.short_array.mp hshort)).mpr
          ⟨cs, ?_, rfl⟩, ?_⟩
      · rwa [Message.length_data_extend, add_length_arrayHead]
      · rw [Writer.close_eq_ok_iff]
        exact ⟨hlen, rfl⟩
  | _ =>
    rw [writeBy_of_code_ne hm]
    · simp [laidOut_array, Value.normalise_array_iff]
    all_goals simp [Value.code, Ty.code]

/-- A level that writes a struct. -/
theorem writes_struct (us : List Ty) (room : Nat) :
    Writes (m.writeBy inner room (.struct us)) (.struct us) (min room levels) levels := by
  intro v w msg msg' hl _ hshort
  cases v with
  | struct vs =>
    by_cases hlen : us.length = vs.length
    · simp only [writeBy_struct hm _ _ _ hlen, run_bind_eq_ok, Write.lift_eq_ok, deeper_eq_ok,
        Writer.openStruct_eq_ok_iff, laidOut_struct, Value.normalise_struct_iff]
      constructor
      · rintro ⟨k, _, ⟨rfl, rfl⟩, fields, _, ⟨n, hn, rfl, rfl⟩, ⟨⟩, _, hfields, hclose⟩
        obtain rfl : levels = n + 1 := hl.symm.trans hn
        obtain ⟨cs, h, rfl⟩ := (writeFields_eq_ok_iff (hinner rfl k) (fun _ _ _ => rfl) hlen.symm
          (Value.short_struct.mp hshort)).mp hfields
        rw [Message.length_data_extend, length_gap] at h
        rw [Writer.run_close] at hclose
        cases hclose
        exact ⟨_, ⟨_, _, cs, Nat.succ_min_succ k n, ⟨vs, rfl, rfl⟩, h, rfl⟩, rfl⟩
      · rintro ⟨_, ⟨d, _, cs, hd, ⟨_, ⟨⟩, rfl⟩, h, rfl⟩, rfl⟩
        obtain ⟨k, n, rfl, rfl, rfl⟩ := min_eq_succ_iff.mp hd
        refine ⟨k, _, ⟨rfl, rfl⟩, _, _, ⟨n, hl, rfl, rfl⟩, (), _,
          (writeFields_eq_ok_iff (hinner rfl k) (fun _ _ _ => rfl) hlen.symm
            (Value.short_struct.mp hshort)).mpr ⟨cs, ?_, rfl⟩, ?_⟩
        · rwa [Message.length_data_extend, length_gap]
        · exact Writer.run_close ..
    · refine iff_of_false ?_ ?_
      · rw [writeBy_struct_of_ne hm _ _ _ hlen]
        exact run_throw_ne_ok
      · simp only [laidOut_struct, Value.normalise_struct_iff]
        rintro ⟨_, ⟨_, _, _, -, ⟨_, ⟨⟩, rfl⟩, h, -⟩, -⟩
        have := h.length_eq
        rw [Value.length_normaliseFields] at this
        exact hlen this.symm
  | _ =>
    rw [writeBy_of_code_ne hm]
    · simp [laidOut_struct, Value.normalise_struct_iff]
    all_goals simp [Value.code, Ty.code]

/-- A level that writes a dict entry, whose key needs no room below. -/
theorem writes_dictEntry (k : BasicCode) (t : Ty) (room : Nat) :
    Writes (m.writeBy inner room (.dictEntry k t)) (.dictEntry k t) (min room levels) levels := by
  intro v w msg msg' hl hrecords hshort
  cases v with
  | dictEntry key value =>
    rw [Value.short_dictEntry] at hshort
    have hfields : ∀ (room : Nat) (entry : Writer),
        (inner room (.basic k) key entry >>= fun _ => inner room t value entry) =
          writeFields (fun t v => inner room t v entry) [.basic k, t] [key, value] :=
      fun room entry => by simp [writeFields]
    have hshort : ∀ v ∈ [key, value], v.Short := by simpa using hshort
    rw [w.recorded_inside (hrecords rfl)]
    simp only [writeBy_dictEntry hm, hfields, run_bind_eq_ok, Write.lift_eq_ok, deeper_eq_ok,
      Writer.openDictEntry_eq_ok_iff, laidOut_dictEntry, Value.normalise_dictEntry_iff]
    constructor
    · rintro ⟨n, _, ⟨rfl, rfl⟩, entry, _, ⟨l, hn, rfl, rfl⟩, ⟨⟩, _, hfields, hclose⟩
      obtain rfl : levels = l + 1 := hl.symm.trans hn
      obtain ⟨cs, h, rfl⟩ :=
        (writeFields_eq_ok_iff (hinner rfl n) (fun _ _ _ => rfl) rfl hshort).mp hfields
      rw [Message.length_data_extend, length_gap] at h
      rw [Writer.run_close] at hclose
      cases hclose
      exact ⟨_, ⟨_, _, _, cs, Nat.succ_min_succ n l, ⟨key, value, rfl, rfl, rfl⟩, h, rfl⟩, rfl⟩
    · rintro ⟨_, ⟨d, _, _, cs, hd, ⟨_, _, ⟨⟩, rfl, rfl⟩, h, rfl⟩, rfl⟩
      obtain ⟨n, l, rfl, rfl, rfl⟩ := min_eq_succ_iff.mp hd
      refine ⟨n, _, ⟨rfl, rfl⟩, _, _, ⟨l, hl, rfl, rfl⟩, (), _,
        (writeFields_eq_ok_iff (hinner rfl n) (fun _ _ _ => rfl) rfl hshort).mpr
          ⟨cs, ?_, rfl⟩, ?_⟩
      · rwa [Message.length_data_extend, length_gap]
      · exact Writer.run_close ..
  | _ =>
    rw [writeBy_of_code_ne hm]
    · simp [laidOut_dictEntry, Value.normalise_dictEntry_iff]
    all_goals simp [Value.code, Ty.code]

/-- A level that writes a variant, by the type that is stated or inferred for its contents. -/
theorem writes_variant (room : Nat) :
    Writes (m.writeBy inner room .variant) .variant (min room levels) levels := by
  intro v w msg msg' hl _ hshort
  simp only [writeBy_variant hm, run_bind_eq_ok, Write.lift_eq_ok, deeper_eq_ok,
    Writer.openVariant_eq_ok_iff, laidOut_variant, Value.normalise_variant_iff]
  constructor
  · rintro ⟨⟨a, x⟩, _, ⟨hx, rfl⟩, k, _, ⟨rfl, rfl⟩, inside, _, ⟨n, ha, hn, rfl, rfl⟩, ⟨⟩, _, h,
      hclose⟩
    obtain rfl : levels = n + 1 := hl.symm.trans hn
    rw [hinner rfl k a.ty x _ _ _ rfl (fun _ => rfl) (Value.short_of_asVariant hx hshort)] at h
    obtain ⟨cs, h, rfl⟩ := h
    rw [Message.length_data_extend, add_length_variantHead] at h
    rw [Writer.run_close] at hclose
    cases hclose
    exact ⟨_, ⟨_, a.ty, _, cs, Nat.succ_min_succ k n, ⟨a, x, hx, rfl, rfl⟩, ha, h, rfl⟩, rfl⟩
  · rintro ⟨_, ⟨d, _, _, cs, hd, ⟨a, x, hx, rfl, rfl⟩, ha, h, rfl⟩, rfl⟩
    obtain ⟨k, n, rfl, rfl, rfl⟩ := min_eq_succ_iff.mp hd
    refine ⟨(a, x), _, ⟨hx, rfl⟩, k, _, ⟨rfl, rfl⟩, _, _, ⟨n, ha, hl, rfl, rfl⟩, (), _,
      (hinner rfl k a.ty x _ _ _ rfl (fun _ => rfl) (Value.short_of_asVariant hx hshort)).mpr
        ⟨cs, ?_, rfl⟩, ?_⟩
    · rwa [Message.length_data_extend, add_length_variantHead]
    · exact Writer.run_close ..

/-- One level writes what the layout says if the level below does. -/
theorem writes_writeBy (t : Ty) (room : Nat) :
    Writes (m.writeBy inner room t) t (min room levels) levels := by
  cases t with
  | basic c =>
    cases c with
    | fixed c => exact writes_fixed hm c room _
    | text c => exact writes_text hm c room _
  | array t => exact writes_array hm hinner t room
  | struct us => exact writes_struct hm hinner us room
  | dictEntry k t => exact writes_dictEntry hm hinner k t room
  | variant => exact writes_variant hm hinner room

end

/-! ## All levels -/

/-- Any number of levels writes what the layout says, as deep as there is room. The induction is on
the levels. -/
theorem writes_writeWithin {m : Marshaller} (hm : m.policy = .standard) (levels room : Nat)
    (t : Ty) : Writes (m.writeWithin levels room t) t (min room levels) levels := by
  induction levels generalizing room t with
  | zero => exact writes_writeBy hm (fun h => absurd h (Nat.zero_ne_add_one _)) t room
  | succ levels ih =>
    refine writes_writeBy hm ?_ t room
    rintro n ⟨⟩ room t
    exact ih room t

/-- A marshaller of the standard policy writes what the layout says. -/
theorem writes_writeValue {m : Marshaller} (hm : m.policy = .standard) (levels : Nat) (t : Ty) :
    Writes (m.writeValue t) t (min m.maxDepth levels) levels := by
  rintro v w msg msg' rfl
  exact writes_writeWithin hm w.levels m.maxDepth t v w msg msg' rfl

/-- The normal form of a value is written where it can be laid out, and nothing else is. -/
theorem writeValue_eq_ok_iff {m : Marshaller} (hm : m.policy = .standard) {t : Ty} {v : Value}
    (hv : v.Short) {w : Writer} (hw : t.code = .dictEntry → w.records = false)
    {msg msg' : Message} :
    (m.writeValue t v w).run msg = .ok () msg' ↔
      ∃ cs, LaidOut w.endian (min m.maxDepth w.levels) t (v.normalise t) msg.data.length cs ∧
        msg' = msg.extend cs (w.recorded t.render) :=
  writes_writeValue hm w.levels t v w msg msg' rfl hw hv

end Marshaller

end DBus
