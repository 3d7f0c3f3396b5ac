import DBus.Proofs.Cursor
import DBus.Proofs.Typing

/-!
# Reading is sound

Whatever bytes a body holds, a value that is read as a type is of the type, its texts are well
formed, and it is nested no deeper than the marshaller and the cursor allow
(`Marshaller.wellFormed_of_readValue`). The type that the cursor stands at may be another one :
what is compared of it is only what the value needs.

One level of containers at a time, `wellFormed_of_readBy` has it for a value if it holds for the
values one level deeper. Induction on the levels left is then all there is to do.
-/

namespace DBus

namespace Marshaller

variable {m : Marshaller} {r : Reader} {t : Ty} {v : Value}

/-! ## The loops -/

/-- All items were read on the same level. -/
theorem forall_of_readItems {read : Reader → Except Error Value} {P : Value → Prop} {levels : Nat}
    (hread : ∀ r v, r.levels = levels → read r = .ok v → P v) :
    ∀ {n : Nat} {r : Reader} {vs : List Value}, r.levels = levels →
      readItems read n r = .ok vs → ∀ v ∈ vs, P v
  | 0, r, vs, _, h => by
    cases h
    simp
  | n + 1, r, vs, hr, h => by
    rw [readItems] at h
    split at h
    · cases h
      simp
    · simp only [bind_eq_ok, pure_eq_ok] at h
      obtain ⟨v, hv, s, hs, ws, hws, rfl⟩ := h
      exact List.forall_mem_cons.mpr ⟨hread r v hr hv,
        forall_of_readItems hread ((Reader.levels_of_advance hs).trans hr) hws⟩

/-- All fields were read on the same level, one for each type. -/
theorem forall_of_readFields {read : Ty → Reader → Except Error Value} {P : Value → Ty → Prop}
    {levels : Nat} (hread : ∀ t r v, r.levels = levels → read t r = .ok v → P v t) :
    ∀ {ts : List Ty} {r : Reader} {vs : List Value}, r.levels = levels →
      readFields read ts r = .ok vs → vs.length = ts.length ∧ ∀ p ∈ vs.zip ts, P p.1 p.2
  | [], r, vs, _, h => by
    cases h
    simp
  | t :: ts, r, vs, hr, h => by
    simp only [readFields, bind_eq_ok, pure_eq_ok] at h
    obtain ⟨v, hv, s, hs, ws, hws, rfl⟩ := h
    obtain ⟨hlen, hall⟩ :=
      forall_of_readFields hread ((Reader.levels_of_advance hs).trans hr) hws
    rw [List.zip_cons_cons, List.forall_mem_cons]
    exact ⟨by simp [hlen], hread t r v hr hv, hall⟩

/-! ## One level -/

theorem ofWord_wellFormed (c : FixedCode) (w : Word) (d : Nat) :
    Value.WellFormed (.scalar (.ofWord c w)) (.fixed c) d := by
  have h := Value.WellFormed.scalar (d := d) (.ofWord c w)
  rwa [Scalar.code_ofWord] at h

theorem wellFormed_of_readBy {inner : (room : Nat) → Ty → Reader → Except Error Value}
    (hinner : ∀ room t r v, inner room t r = .ok v → v.WellFormed t (min room r.levels))
    {room : Nat} (h : m.readBy inner room t r = .ok v) :
    v.WellFormed t (min room r.levels) := by
  have hlevel : ∀ {room levels : Nat} t r v, r.levels = levels → inner room t r = .ok v →
      v.WellFormed t (min room levels) := by
    intro room levels t r v hr hv
    rw [← hr]
    exact hinner room t r v hv
  obtain ⟨-, -, h⟩ := readBy_eq_ok_iff.mp h
  cases h with
  | @fixed _ c _ w => exact ofWord_wellFormed c w _
  | text hs hcheck => exact .text ⟨Reader.zero_notMem_of_text hs, hcheck⟩
  | @array _ e _ _ _ hs hvs =>
    rw [Reader.levels_of_enter hs, Nat.succ_min_succ]
    exact .array (forall_of_readItems (hlevel e) rfl hvs)
  | struct hs hvs =>
    rw [Reader.levels_of_enter hs, Nat.succ_min_succ]
    obtain ⟨hlen, hall⟩ := forall_of_readFields hlevel rfl hvs
    exact .struct hlen hall
  | dictEntry hs hkey hnext hvalue =>
    rw [Reader.levels_of_enter hs, Nat.succ_min_succ]
    refine .dictEntry (hinner _ _ _ _ hkey) ?_
    rw [← Reader.levels_of_advance hnext]
    exact hinner _ _ _ _ hvalue
  | variant hs hu hw =>
    rw [Reader.levels_of_enter hs, Nat.succ_min_succ]
    exact .variant (variantType_eq_ok_iff.mp hu).1 (hinner _ _ _ _ hw)

/-! ## All levels -/

theorem wellFormed_of_readWithin {levels room : Nat} (h : m.readWithin levels room t r = .ok v) :
    v.WellFormed t (min room r.levels) := by
  induction levels generalizing room t r v with
  | zero => exact wellFormed_of_readBy (fun _ _ _ _ h => by cases h) h
  | succ levels ih => exact wellFormed_of_readBy (fun _ _ _ _ => ih) h

/-- A value that is read is well formed, as deep as the limit of the marshaller and the levels of
the cursor allow. -/
theorem wellFormed_of_readValue (h : m.readValue t r = .ok v) :
    v.WellFormed t (min m.maxDepth r.levels) :=
  wellFormed_of_readWithin h

/-- Untrusted bytes are read as values of the type that is asked for. Whatever cursor of a
message a value is read through, and whatever type stands there, the value is of the type it is
read as, its object paths and signatures are well formed, no text holds a zero byte, no variant
names its type, and at most `maxDepth` and at most 64 containers are nested in it. -/
theorem hasType_of_readValue {msg : Message} {e : Endian} {r : Reader}
    (hr : Reader.Reachable msg e r) {maxDepth : Nat} {t : Ty} {v : Value}
    (h : (⟨.standard, maxDepth⟩ : Marshaller).readValue t r = .ok v) :
    v.HasType t ∧
      (∀ s, (TextCode.objectPath, s) ∈ v.texts → ObjectPath.isValid s = true) ∧
      (∀ s, (TextCode.signature, s) ∈ v.texts → Argument.checkSignature (utf8 s) = .ok ()) ∧
      (∀ c s, (c, s) ∈ v.texts → 0 ∉ utf8 s) ∧
      (∀ a ∈ v.variants, a.name = none) ∧
      v.nesting ≤ min maxDepth 64 := by
  have hv := wellFormed_of_readValue h
  refine ⟨hv.hasType, fun s hs => ?_, fun s hs => (hv.allowed _ hs).2,
    fun c s hs => (hv.allowed _ hs).1, hv.unnamed, ?_⟩
  · have hc := (hv.allowed _ hs).2
    by_cases hp : ObjectPath.isValid s
    · exact hp
    · simp [TextCode.check, hp] at hc
  · have hn := hv.nesting_le
    have hl := hr.levels_le
    rw [maxNesting] at hl
    exact Nat.le_trans hn (Nat.le_min.mpr
      ⟨Nat.min_le_left _ _, Nat.le_trans (Nat.min_le_right _ _) hl⟩)

/-- An object path in a variant, read as an item of an array. -/
theorem hasType_of_readValue_item :
    Reader.Reachable ⟨[10, 0, 0, 0, 1, 111, 0, 0, 1, 0, 0, 0, 47, 0], [97, 118]⟩ .little
        ⟨.little, [10, 0, 0, 0, 1, 111, 0, 0, 1, 0, 0, 0, 47, 0], 4, 14, [118], 0, true, 63⟩ ∧
      (⟨.standard, 64⟩ : Marshaller).readValue .variant
          ⟨.little, [10, 0, 0, 0, 1, 111, 0, 0, 1, 0, 0, 0, 47, 0], 4, 14, [118], 0, true, 63⟩ =
        .ok (.variant ⟨.text .objectPath, none⟩ (.text .objectPath "/")) ∧
      Value.HasType (.variant ⟨.text .objectPath, none⟩ (.text .objectPath "/")) .variant ∧
      ObjectPath.isValid "/" = true := by
  have hs : Message.reader ⟨[10, 0, 0, 0, 1, 111, 0, 0, 1, 0, 0, 0, 47, 0], [97, 118]⟩ .little =
      .ok ⟨.little, [10, 0, 0, 0, 1, 111, 0, 0, 1, 0, 0, 0, 47, 0], 0, 14, [97, 118], 0, false,
        64⟩ := by rfl
  have hr : Reader.Reachable ⟨[10, 0, 0, 0, 1, 111, 0, 0, 1, 0, 0, 0, 47, 0], [97, 118]⟩ .little
      ⟨.little, [10, 0, 0, 0, 1, 111, 0, 0, 1, 0, 0, 0, 47, 0], 4, 14, [118], 0, true, 63⟩ :=
    .enter (.start hs) (by rfl)
  have hv : (⟨.standard, 64⟩ : Marshaller).readValue .variant
      ⟨.little, [10, 0, 0, 0, 1, 111, 0, 0, 1, 0, 0, 0, 47, 0], 4, 14, [118], 0, true, 63⟩ =
        .ok (.variant ⟨.text .objectPath, none⟩ (.text .objectPath "/")) := by rfl
  obtain ⟨htype, hpath, -⟩ := hasType_of_readValue hr hv
  exact ⟨hr, hv, htype, hpath "/" (List.mem_singleton.mpr rfl)⟩

end Marshaller

end DBus
